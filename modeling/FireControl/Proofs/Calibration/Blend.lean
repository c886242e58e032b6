import FireControl.Calibration.Interpolation
import Mathlib.Algebra.Order.Field.Basic
import Mathlib.Data.Rat.Floor
import Mathlib.Order.Monotone.Basic
import Mathlib.Tactic.FieldSimp
import Mathlib.Tactic.Linarith
import Mathlib.Tactic.Ring

/-!
# Blending the values at grid points

Interpolation over the rational numbers, on one axis: the blend at a place between two neighbours of
a sequence of values. `blend_locate` says that it is the straight line between them, wherever in
the closed cell a value lies; what holds at grid points, beyond the ends of the grid, between bounds
and of rising values follows from it (`blend_point`, `blend_of_le`, `le_blend`, `blend_mono`).
-/

namespace FireControl.Calibration

/-- The value at a place, between two neighbouring values of a sequence. -/
def Place.blend {points : Nat} (p : Place points Rat) (f : Nat → Rat) : Rat :=
  f p.index + p.fraction * (f (p.index + 1) - f p.index)

theorem Place.blend_comm {m n : Nat} (p : Place m Rat) (q : Place n Rat) (f : Nat → Nat → Rat) :
    p.blend (fun i => q.blend (f i)) = q.blend fun j => p.blend fun i => f i j := by
  unfold Place.blend
  ring

namespace Axis

variable {a : Axis} {points i : Nat} {h : 1 < points} {x : Rat} {f : Nat → Rat}

theorem point_rat (a : Axis) (i : Nat) : a.point Rat i = a.start + a.step * i := rfl

/-- Between two neighbouring grid points, which belong to the cell. -/
structure InCell (a : Axis) (i : Nat) (x : Rat) : Prop where
  low : a.point Rat i ≤ x
  high : x ≤ a.point Rat (i + 1)

/-- The grid points at both ends of the cell are the neighbours of a value; the first and the last
cell reach beyond the grid. -/
structure Surrounds (a : Axis) (points i : Nat) (x : Rat) : Prop where
  cell : i + 1 < points
  low : i = 0 ∨ a.point Rat i ≤ x
  high : i + 2 = points ∨ x ≤ a.point Rat (i + 1)

/-- How far into a cell a value lies. -/
def share (a : Axis) (i : Nat) (x : Rat) : Rat := (x - a.point Rat i) / a.step

/-- The nearest value on the grid. -/
def held (a : Axis) (points : Nat) (x : Rat) : Rat :=
  max (a.point Rat 0) (min (a.point Rat (points - 1)) x)

theorem clamp_eq {low high : Rat} (hle : low ≤ high) (x : Rat) :
    clamp low high x = max low (min high x) := by
  have hless : ∀ y z : Rat, Scalar.less y z = decide (y < z) := fun _ _ => rfl
  unfold clamp
  simp only [hless, decide_eq_true_eq]
  rcases lt_or_ge x low with hbelow | hlow
  · rw [if_pos hbelow, if_neg (not_lt.mpr hle), min_eq_right (le_trans hbelow.le hle),
      max_eq_left hbelow.le]
  · rw [if_neg (not_lt.mpr hlow)]
    rcases lt_or_ge high x with habove | hhigh
    · rw [if_pos habove, min_eq_left habove.le, max_eq_right hle]
    · rw [if_neg (not_lt.mpr hhigh), min_eq_right hhigh, max_eq_right hlow]

theorem held_mono : Monotone (a.held points) := fun _ _ hxy =>
  max_le_max_left _ (min_le_min_left _ hxy)

theorem held_of_le (hx : x ≤ a.point Rat 0) : a.held points x = a.point Rat 0 :=
  max_eq_left (le_trans (min_le_right _ _) hx)

/-- Every value on the grid lies in a cell. -/
theorem exists_inCell {n : Nat} (hlow : a.point Rat 0 ≤ x) (hhigh : x ≤ a.point Rat (n + 1)) :
    ∃ i, i < n + 1 ∧ a.InCell i x := by
  induction n with
  | zero => exact ⟨0, Nat.zero_lt_one, hlow, hhigh⟩
  | succ n ih =>
    rcases le_total x (a.point Rat (n + 1)) with hbelow | habove
    · obtain ⟨i, hi, hcell⟩ := ih hbelow
      exact ⟨i, Nat.lt_succ_of_lt hi, hcell⟩
    · exact ⟨n + 1, Nat.lt_succ_self _, habove, hhigh⟩

/-- Values that do not fall from one grid point to the next. -/
theorem le_of_steps (hf : ∀ k, k + 1 < points → f k ≤ f (k + 1)) {m n : Nat} (hmn : m ≤ n)
    (hn : n < points) : f m ≤ f n := by
  induction n, hmn using Nat.le_induction with
  | base => exact le_rfl
  | succ n hmn ih => exact le_trans (ih (Nat.lt_of_succ_lt hn)) (hf n hn)

section Grid
variable (hstep : 0 < a.step)
include hstep

theorem step_pos : (0 : Rat) < a.step := by exact_mod_cast hstep

theorem point_mono : Monotone (a.point Rat) := by
  intro m n hmn
  have hpos := step_pos hstep
  have hmn' : (m : Rat) ≤ n := by exact_mod_cast hmn
  rw [point_rat, point_rat]
  linarith [mul_le_mul_of_nonneg_left hmn' hpos.le]

theorem locate_eq (x : Rat) : a.locate points h x = a.place points h (a.held points x) := by
  have hstart : (Scalar.ofInt a.start : Rat) = a.point Rat 0 := by
    rw [point_rat]
    exact (by simp : (a.start : Rat) = a.start + a.step * (0 : Nat))
  have hend : (Scalar.ofInt (a.start + a.step * (points - 1 : Nat)) : Rat) =
      a.point Rat (points - 1) := by
    rw [point_rat]
    exact (by push_cast; rfl : ((a.start + a.step * (points - 1 : Nat) : Int) : Rat) = _)
  unfold locate held
  rw [hstart, hend, clamp_eq (point_mono hstep (Nat.zero_le _))]

theorem share_mem (hx : a.InCell i x) : 0 ≤ a.share i x ∧ a.share i x ≤ 1 := by
  have hpos := step_pos hstep
  obtain ⟨hlow, hhigh⟩ := hx
  rw [point_rat] at hlow hhigh
  push_cast at hhigh
  unfold share
  rw [point_rat]
  constructor
  · apply div_nonneg _ hpos.le
    linarith
  · rw [div_le_one hpos]
    linarith

/-- Counted in steps from the start of the axis, a value lies as far behind a grid point as it does in
the cell. -/
theorem position_eq (i : Nat) (x : Rat) : (x - a.start) / a.step = i + a.share i x := by
  have hpos := step_pos hstep
  unfold share
  rw [point_rat]
  field_simp
  ring

/-- A value in a cell is placed there, or at the lower edge of the next cell. -/
theorem place_of_inCell (hi : i + 1 < points) (hx : a.InCell i x) :
    ((a.place points h x).index = i ∧ (a.place points h x).fraction = a.share i x) ∨
      ((a.place points h x).index = i + 1 ∧ (a.place points h x).fraction = 0 ∧
        a.share i x = 1) := by
  obtain ⟨hlow, hhigh⟩ := share_mem hstep hx
  have hplace : ∀ n : Nat, ⌊(i : Rat) + a.share i x⌋.toNat = n →
      (a.place points h x).index = min n (points - 2) ∧
        (a.place points h x).fraction = i + a.share i x - (min n (points - 2) : Nat) := by
    rintro n rfl
    rw [← position_eq hstep]
    exact ⟨rfl, rfl⟩
  rcases lt_or_eq_of_le hhigh with hinside | hedge
  · have hfloor : ⌊(i : Rat) + a.share i x⌋.toNat = i := by
      rw [Int.floor_natCast_add, Int.floor_eq_zero_iff.mpr ⟨hlow, hinside⟩]
      simp
    obtain ⟨hindex, hfraction⟩ := hplace i hfloor
    rw [Nat.min_eq_left (by omega)] at hindex hfraction
    refine Or.inl ⟨hindex, ?_⟩
    rw [hfraction]
    ring
  · have hfloor : ⌊(i : Rat) + a.share i x⌋.toNat = i + 1 := by
      rw [hedge, Int.floor_natCast_add, Int.floor_one]
      simp
    obtain ⟨hindex, hfraction⟩ := hplace (i + 1) hfloor
    rcases Nat.lt_or_ge (i + 2) points with hmore | hlast
    · rw [Nat.min_eq_left (by omega)] at hindex hfraction
      refine Or.inr ⟨hindex, ?_, hedge⟩
      rw [hfraction, hedge]
      push_cast
      ring
    · -- The upper end of the grid belongs to the last cell.
      rw [Nat.min_eq_right (by omega), show points - 2 = i by omega] at hindex hfraction
      refine Or.inl ⟨hindex, ?_⟩
      rw [hfraction]
      ring

/-- Anywhere in a cell, its edges included, the blend is the straight line between the two values. -/
theorem blend_locate (hi : i + 1 < points) (hx : a.InCell i (a.held points x)) :
    (a.locate points h x).blend f =
      f i + a.share i (a.held points x) * (f (i + 1) - f i) := by
  rw [locate_eq hstep]
  unfold Place.blend
  rcases place_of_inCell hstep hi hx (h := h) with ⟨hindex, hfraction⟩ | ⟨hindex, hfraction, hshare⟩
  · rw [hindex, hfraction]
  · rw [hindex, hfraction, hshare]
    ring

/-! ## Values on the grid and beyond it -/

theorem held_of_ge (hx : a.point Rat (points - 1) ≤ x) :
    a.held points x = a.point Rat (points - 1) := by
  unfold held
  rw [min_eq_left hx, max_eq_right (point_mono hstep (Nat.zero_le _))]

theorem held_of_inCell (hi : i + 1 < points) (hx : a.InCell i x) : a.held points x = x := by
  have hlow := le_trans (point_mono hstep (Nat.zero_le i)) hx.low
  have hhigh := le_trans hx.high (point_mono hstep (show i + 1 ≤ points - 1 by omega))
  unfold held
  rw [min_eq_right hhigh, max_eq_right hlow]

theorem Surrounds.inCell_held (hx : a.Surrounds points i x) : a.InCell i (a.held points x) := by
  obtain ⟨hi, hlow, hhigh⟩ := hx
  have hfirst : a.point Rat 0 ≤ a.held points x := le_max_left _ _
  have hlast : a.held points x ≤ a.point Rat (points - 1) :=
    max_le (point_mono hstep (Nat.zero_le _)) (min_le_left _ _)
  constructor
  · rcases hlow with rfl | hlow
    · exact hfirst
    · refine le_trans ?_ (le_max_right _ _)
      exact le_min (point_mono hstep (by omega)) hlow
  · rcases hhigh with rfl | hhigh
    · exact hlast
    · refine max_le (point_mono hstep (Nat.zero_le _)) ?_
      exact le_trans (min_le_right _ _) hhigh

theorem exists_surrounds (hpoints : 1 < points) (x : Rat) : ∃ i, a.Surrounds points i x := by
  obtain ⟨n, rfl⟩ : ∃ n, points = n + 2 := ⟨points - 2, by omega⟩
  rcases le_total x (a.point Rat 0) with hbelow | hlow
  · have hfirst := point_mono hstep (Nat.zero_le 1)
    exact ⟨0, hpoints, Or.inl rfl, Or.inr (le_trans hbelow hfirst)⟩
  rcases le_total (a.point Rat (n + 1)) x with habove | hhigh
  · have hlast := point_mono hstep (Nat.le_succ n)
    exact ⟨n, Nat.lt_succ_self _, Or.inr (le_trans hlast habove), Or.inl rfl⟩
  · obtain ⟨i, hi, hcell⟩ := exists_inCell hlow hhigh
    exact ⟨i, Nat.succ_lt_succ hi, Or.inr hcell.low, Or.inr hcell.high⟩

/-- Every value, brought onto the grid, lies in a cell. -/
theorem exists_cell (hpoints : 1 < points) (x : Rat) :
    ∃ i, i + 1 < points ∧ a.InCell i (a.held points x) := by
  obtain ⟨i, hx⟩ := exists_surrounds hstep hpoints x
  exact ⟨i, hx.cell, hx.inCell_held hstep⟩

/-- Below the grid the value at its start counts. -/
theorem blend_of_le (hx : x ≤ a.point Rat 0) :
    (a.locate points h x).blend f = (a.locate points h (a.point Rat 0)).blend f := by
  rw [locate_eq hstep, locate_eq hstep, held_of_le hx, held_of_le le_rfl]

/-- Above the grid the value at its end counts. -/
theorem blend_of_ge (hx : a.point Rat (points - 1) ≤ x) :
    (a.locate points h x).blend f = (a.locate points h (a.point Rat (points - 1))).blend f := by
  rw [locate_eq hstep, locate_eq hstep, held_of_ge hstep hx, held_of_ge hstep le_rfl]

theorem blend_of_inCell (hi : i + 1 < points) (hx : a.InCell i x) :
    (a.locate points h x).blend f = f i + a.share i x * (f (i + 1) - f i) := by
  have hheld := held_of_inCell hstep hi hx
  have hcell : a.InCell i (a.held points x) := by rwa [hheld]
  rw [blend_locate hstep hi hcell, hheld]

theorem affine_of_inCell (hi : i + 1 < points) (f : Nat → Rat) :
    ∃ u w : Rat, ∀ x, a.InCell i x → (a.locate points h x).blend f = u + w * x := by
  have hpos := step_pos hstep
  refine ⟨f i - a.point Rat i / a.step * (f (i + 1) - f i), (f (i + 1) - f i) / a.step, ?_⟩
  intro x hx
  rw [blend_of_inCell hstep hi hx, share]
  field_simp
  ring

/-- The blend at a grid point is the value there. -/
theorem blend_point (hi : i < points) :
    (a.locate points h (a.point Rat i)).blend f = f i := by
  have hpos := step_pos hstep
  rcases Nat.lt_or_ge (i + 1) points with hnext | hlast
  · have hcell : a.InCell i (a.point Rat i) := ⟨le_rfl, point_mono hstep (Nat.le_succ i)⟩
    rw [blend_of_inCell hstep hnext hcell, share, sub_self, zero_div, zero_mul, add_zero]
  · -- The last grid point is the upper edge of the last cell.
    obtain ⟨n, rfl⟩ : ∃ n, i = n + 1 := ⟨i - 1, by omega⟩
    have hcell : a.InCell n (a.point Rat (n + 1)) := ⟨point_mono hstep (Nat.le_succ n), le_rfl⟩
    have hone : a.share n (a.point Rat (n + 1)) = 1 := by
      unfold share
      rw [point_rat, point_rat]
      push_cast
      field_simp
      ring
    rw [blend_of_inCell hstep hi hcell, hone]
    ring

/-- What a bound of the values at both edges of a cell says of the blend. -/
theorem le_blend {m : Rat} (hi : i + 1 < points) (hx : a.InCell i (a.held points x))
    (hlow : m ≤ f i) (hhigh : m ≤ f (i + 1)) : m ≤ (a.locate points h x).blend f := by
  obtain ⟨hzero, hone⟩ := share_mem hstep hx
  rw [blend_locate hstep hi hx]
  nlinarith

theorem blend_le {m : Rat} (hi : i + 1 < points) (hx : a.InCell i (a.held points x))
    (hlow : f i ≤ m) (hhigh : f (i + 1) ≤ m) : (a.locate points h x).blend f ≤ m := by
  obtain ⟨hzero, hone⟩ := share_mem hstep hx
  rw [blend_locate hstep hi hx]
  nlinarith

/-- Values on the grid that do not fall make a blend that does not fall. -/
theorem blend_mono (hpoints : 1 < points) (hf : ∀ k, k + 1 < points → f k ≤ f (k + 1)) :
    Monotone fun x => (a.locate points hpoints x).blend f := by
  intro x y hxy
  obtain ⟨i, hi, hx⟩ := exists_cell hstep hpoints x
  obtain ⟨j, hj, hy⟩ := exists_cell hstep hpoints y
  have hheld : a.held points x ≤ a.held points y := held_mono hxy
  rcases Nat.lt_trichotomy i j with hlt | rfl | hgt
  · -- The value at an edge between the two cells is between the blends.
    have hj' : j < points := Nat.lt_of_succ_lt hj
    have hbefore : (a.locate points hpoints x).blend f ≤ f j :=
      blend_le hstep hi hx (le_of_steps hf hlt.le hj') (le_of_steps hf hlt hj')
    exact le_trans hbefore (le_blend hstep hj hy le_rfl (hf j hj))
  · have hshare : a.share i (a.held points x) ≤ a.share i (a.held points y) := by
      apply div_le_div_of_nonneg_right _ (step_pos hstep).le
      linarith
    show (a.locate points hpoints x).blend f ≤ (a.locate points hpoints y).blend f
    rw [blend_locate hstep hi hx, blend_locate hstep hi hy]
    have hspan := sub_nonneg.mpr (hf i hi)
    linarith [mul_le_mul_of_nonneg_right hshare hspan]
  · -- Both values are the edge between the two cells.
    have hsame : a.held points x = a.held points y := by
      apply le_antisymm hheld
      exact le_trans hy.high (le_trans (point_mono hstep hgt) hx.low)
    show (a.locate points hpoints x).blend f ≤ (a.locate points hpoints y).blend f
    rw [locate_eq hstep, locate_eq hstep, hsame]

end Grid

end Axis

end FireControl.Calibration
