import FireControl.Proofs.Aim.OppositeLead
import FireControl.Proofs.Number.Bounds

/-!
# How far corrections reach

A correction in whole pixels is never larger than an entry of a table can be, although binary64
arithmetic rounds at every step. Clamping and the division into cells leave a fraction between zero
and one, exactly (`between_fraction`), so that the drop stays between the two entries it blends
(`between_blend`). The four weights of the lead add up to slightly more than one at most; what they
and the roundings add is far less than a pixel, which the integer part drops
(`toInt32_lead_natAbs_le`).
-/

namespace FireControl.Calibration

open FireControl.Floating
open Float.Model (Format)

namespace Axis

variable {a : Axis} {points : Nat} {h : 1 < points} {x low high : Float}

theorem between_clamp (hlow : low.isFinite = true) (hhigh : high.isFinite = true)
    (hle : toRat low ≤ toRat high) (hx : x.isNaN = false) :
    Between (toRat low) (toRat high) (clamp low high x) := by
  have hless : ∀ y z : Float, (Scalar.less y z = true) = (y < z) := fun y z =>
    propext decide_eq_true_iff
  have hfirst : Between (toRat low) (toRat high) low := ⟨hlow, le_rfl, hle⟩
  have hlast : Between (toRat low) (toRat high) high := ⟨hhigh, hle, le_rfl⟩
  unfold clamp
  simp only [hless]
  by_cases hbelow : x < low
  · rw [if_pos hbelow]
    split
    · exact hlast
    · exact hfirst
  · rw [if_neg hbelow]
    split
    · exact hlast
    · next habove =>
      exact between_of_bounds (over_of_not_lt hx hlow hbelow) (under_of_not_lt hx hhigh habove)

/-- An axis with few points at small integers. -/
structure Small (a : Axis) (points : Nat) : Prop where
  start : a.start.natAbs ≤ 2 ^ 20
  step_pos : 0 < a.step
  step : a.step ≤ 2 ^ 20
  points : points ≤ 2 ^ 20

/-- The length of a small axis. -/
theorem Small.span (h : a.Small points) :
    0 ≤ a.step * (points - 1 : Nat) ∧ a.step * (points - 1 : Nat) ≤ 2 ^ 40 := by
  have hfew := h.points
  constructor
  · exact mul_nonneg h.step_pos.le (Int.natCast_nonneg _)
  · calc a.step * (points - 1 : Nat) ≤ 2 ^ 20 * 2 ^ 20 :=
          mul_le_mul h.step (by omega) (Int.natCast_nonneg _) (by decide)
      _ = 2 ^ 40 := by decide

/-- Counted in steps, a value on the grid lies between the first and the last point. -/
theorem between_position (hsmall : a.Small points)
    (hx : Between a.start (a.start + a.step * (points - 1 : Nat) : Int) x) :
    Between 0 (points - 1 : Nat) ((x - Scalar.ofInt a.start) / Scalar.ofInt a.step) := by
  obtain ⟨hspan, hlength⟩ := hsmall.span
  obtain ⟨hstart, hpos, hstep, hpoints⟩ := hsmall
  have hfirst := between_ofInt (v := a.start) (by omega)
  have hunit := between_ofInt (v := a.step) (by omega)
  have hvalue := toRat_ofInt (v := a.start) (by omega)
  have hstep' := toRat_ofInt (v := a.step) (by omega)
  have hpos' : (0 : Rat) < a.step := by exact_mod_cast hpos
  have hupper := hx.upper
  push_cast at hupper
  have hbehind : Between 0 ((a.step * (points - 1 : Nat) : Int) : Rat) (x - Scalar.ofInt a.start) := by
    refine (rounds_sub hx.finite hfirst.finite).between
      (by exact_mod_cast representable64 (n := 0) (by decide)) (representable64 (by omega)) ?_ ?_
    · rw [hvalue]
      linarith [hx.lower]
    · rw [hvalue]
      push_cast
      linarith
  refine (rounds_div hbehind.finite hunit.finite (by rw [hstep']; exact hpos'.ne')).between
    (by exact_mod_cast representable64 (n := 0) (by decide))
    (by exact_mod_cast representable64 (n := (points - 1 : Nat)) (by omega)) ?_ ?_
  · rw [hstep']
    exact div_nonneg hbehind.lower hpos'.le
  · rw [hstep', div_le_iff₀ hpos', mul_comm]
    have hend := hbehind.upper
    push_cast at hend
    exact hend

/-- The fraction of a place is at least zero and at most one, whatever was rounded. -/
theorem between_place (hsmall : a.Small points)
    (hx : Between a.start (a.start + a.step * (points - 1 : Nat) : Int) x) :
    Between 0 1 (a.place points h x).fraction := by
  have hpoints := hsmall.points
  have hposition := between_position hsmall hx
  have hwhole := wholePart_eq hposition (by omega)
  have hlow := Nat.floor_le hposition.lower
  have hhigh := Nat.lt_floor_add_one (toRat ((x - Scalar.ofInt a.start) / Scalar.ofInt a.step))
  have hend := hposition.upper
  show Between 0 1 ((x - Scalar.ofInt a.start) / Scalar.ofInt a.step - Scalar.ofInt
    (min (truncate 0 18446744073709551615 _).toNat (points - 2) : Nat))
  rw [hwhole]
  generalize (x - Scalar.ofInt a.start) / Scalar.ofInt a.step = position at *
  generalize ⌊toRat position⌋₊ = n at *
  have hindex := between_ofInt (v := (min n (points - 2) : Nat)) (by omega)
  have hvalue := toRat_ofInt (v := (min n (points - 2) : Nat)) (by omega)
  refine (rounds_sub hposition.finite hindex.finite).between
    (by exact_mod_cast representable64 (n := 0) (by decide))
    (by exact_mod_cast representable64 (n := 1) (by decide)) ?_ ?_
  · have hle : ((min n (points - 2) : Nat) : Rat) ≤ n := by exact_mod_cast Nat.min_le_left ..
    rw [hvalue, Int.cast_natCast]
    linarith
  · rw [hvalue, Int.cast_natCast]
    rcases Nat.le_total n (points - 2) with hinside | hlast
    · rw [Nat.min_eq_left hinside]
      linarith
    · -- The upper end of the grid belongs to the last cell.
      have hcell : ((points - 1 : Nat) : Rat) = (points - 2 : Nat) + 1 := by
        exact_mod_cast (show points - 1 = points - 2 + 1 by omega)
      rw [Nat.min_eq_right hlast]
      linarith

theorem between_fraction (hsmall : a.Small points) (hx : x.isNaN = false) :
    Between 0 1 (a.locate points h x).fraction := by
  obtain ⟨hspan, hlength⟩ := hsmall.span
  have hstart := hsmall.start
  have hfirst := between_ofInt (v := a.start) (by omega)
  have hlast := between_ofInt (v := a.start + a.step * (points - 1 : Nat)) (by omega)
  apply between_place hsmall
  have hle : (a.start : Rat) ≤ (a.start + a.step * (points - 1 : Nat) : Int) := by
    exact_mod_cast (show a.start ≤ a.start + a.step * (points - 1 : Nat) by omega)
  have hclamped := between_clamp hfirst.finite hlast.finite
    (hfirst.upper.trans (hle.trans hlast.lower)) hx
  exact hclamped.mono hfirst.lower hlast.upper

theorem small_distance : distanceAxis.Small 5 := ⟨by decide, by decide, by decide, by decide⟩

theorem small_velocity : velocityAxis.Small 4 := ⟨by decide, by decide, by decide, by decide⟩

end Axis

/-! ## The drop -/

/-- An exact integer that an entry of a table can be. -/
def Whole (v : Int) (x : Float) : Prop := v.natAbs ≤ 32768 ∧ Between v v x

theorem Whole.eq {v : Int} {x : Float} (h : Whole v x) : toRat x = v := h.2.eq

/-- Between two entries a straight line stays between them, also when it is rounded. -/
theorem between_blend {v w : Int} {x y f : Float} (hx : Whole v x) (hy : Whole w y)
    (hf : Between 0 1 f) : Between (min v w : Int) (max v w : Int) (x + f * (y - x)) := by
  have hv := hx.1
  have hw := hy.1
  have hspan : Between (w - v : Int) (w - v : Int) (y - x) := by
    have hrep : Representable Format.binary64 (w - v : Int) := representable64 (by omega)
    have hrounds := rounds_sub hy.2.finite hx.2.finite
    rw [hx.eq, hy.eq, ← Int.cast_sub] at hrounds
    exact hrounds.exact hrep
  have hlow := hf.lower
  have hhigh := hf.upper
  have hproduct : Between (min 0 (w - v) : Int) (max 0 (w - v) : Int) (f * (y - x)) := by
    refine (rounds_mul hf.finite hspan.finite).between (representable64 (by omega))
      (representable64 (by omega)) ?_ ?_
    · rw [hspan.eq, Int.cast_min, Int.cast_zero]
      generalize ((w - v : Int) : Rat) = d
      rcases le_total 0 d with hd | hd
      · rw [min_eq_left hd]
        exact mul_nonneg hlow hd
      · rw [min_eq_right hd]
        nlinarith
    · rw [hspan.eq, Int.cast_max, Int.cast_zero]
      generalize ((w - v : Int) : Rat) = d
      rcases le_total 0 d with hd | hd
      · rw [max_eq_right hd]
        exact mul_le_of_le_one_left hd hhigh
      · rw [max_eq_left hd]
        exact mul_nonpos_of_nonneg_of_nonpos hlow hd
  have hmin : v + min 0 (w - v) = min v w := by omega
  have hmax : v + max 0 (w - v) = max v w := by omega
  refine (rounds_add hx.2.finite hproduct.finite).between (representable64 (by omega))
    (representable64 (by omega)) ?_ ?_
  · rw [hx.eq, ← hmin, Int.cast_add]
    exact add_le_add_right hproduct.lower _
  · rw [hx.eq, ← hmax, Int.cast_add]
    exact add_le_add_right hproduct.upper _

namespace Ballistics

variable {d : Float}

theorem whole_int16 (v : Int16) : Whole v.toInt (Scalar.ofInt v.toInt) := by
  have hlow := v.minValue_le_toInt
  have hhigh := v.toInt_le
  have hleast : Int16.minValue.toInt = -32768 := rfl
  have hmost : Int16.maxValue.toInt = 32767 := rfl
  exact ⟨by omega, between_ofInt (by omega)⟩

theorem whole_drop (t : Table) {i : Nat} (hi : i < 5) :
    Whole t.drop[i].toInt (ofTable (α := Float) t).drops[i] := by
  unfold ofTable
  rw [Vector.getElem_map]
  exact whole_int16 _

theorem whole_lead (t : Table) {i j : Nat} (hi : i < 5) (hj : j < 4) :
    Whole t.lead[i][j].toInt (ofTable (α := Float) t).leads[i][j] := by
  unfold ofTable
  rw [Vector.getElem_map, Vector.getElem_map]
  exact whole_int16 _

theorem isNaN_drop (t : Table) (hd : d.isNaN = true) : ((ofTable t).drop d).isNaN = true :=
  isNaN_add (Or.inr (isNaN_mul (Or.inl (Axis.isNaN_fraction hd))))

theorem toInt32_drop_natAbs_le (t : Table) (d : Float) :
    (toInt32 ((ofTable t).drop d)).natAbs ≤ 32768 := by
  cases hd : d.isNaN with
  | true =>
    rw [toInt32_of_isNaN (isNaN_drop t hd)]
    exact Nat.zero_le _
  | false =>
    have hindex := (distanceAxis.locate 5 (by decide) d).index_lt
    have hhere := (whole_drop t (Nat.lt_of_succ_lt hindex)).1
    have hnext := (whole_drop t hindex).1
    have hdrop : Between _ _ ((ofTable t).drop d) :=
      between_blend (whole_drop t (Nat.lt_of_succ_lt hindex)) (whole_drop t hindex)
        (Axis.between_fraction Axis.small_distance hd)
    have hbetween := hdrop.mono (show ((-32768 : Int) : Rat) ≤ _ by exact_mod_cast (by omega))
      (show _ ≤ ((32768 : Int) : Rat) by exact_mod_cast (by omega))
    apply toInt32_natAbs_le_of_lt hbetween.finite
    have hlower := hbetween.lower
    have hupper := hbetween.upper
    push_cast at hlower hupper ⊢
    rw [abs_lt]
    constructor <;> linarith

end Ballistics

/-! ## The lead -/

/-- The other weight of a fraction exceeds what is left of one by a rounding error at most. -/
theorem between_rest {p : Float} (hp : Between 0 1 p) : Between 0 1 (Scalar.ofInt 1 - p) ∧
    toRat p + toRat (Scalar.ofInt 1 - p) ≤ 1 + 2 ^ (-52 : Int) := by
  have hone := between_ofInt (v := 1) (by decide)
  have hvalue := toRat_ofInt (v := 1) (by decide)
  have hlow := hp.lower
  have hhigh := hp.upper
  have hrounds := rounds_sub hone.finite hp.finite
  rw [hvalue, Int.cast_one] at hrounds
  have hnear := hrounds.near (k := 0) (by rw [abs_le, zpow_zero]; constructor <;> linarith)
    (by decide) (by decide)
  refine ⟨hrounds.between (by exact_mod_cast representable64 (n := 0) (by decide))
    (by exact_mod_cast representable64 (n := 1) (by decide)) (by linarith) (by linarith), ?_⟩
  have herror := (abs_le.mp hnear.2.2).2
  change toRat (Scalar.ofInt 1 - p) - _ ≤ 2 ^ (-52 : Int) at herror
  linarith

/-- A lead with two weights, and what its two roundings add. -/
theorem corner_le {a b l : Float} {w : Int} (ha : Between 0 1 a) (hb : Between 0 1 b)
    (hl : Whole w l) : (a * b * l).isFinite = true ∧
      |toRat (a * b * l)| ≤ 32768 * (toRat a * toRat b) + 1 / 8 := by
  have hsmall : |(w : Rat)| ≤ 32768 := by
    rw [← Int.cast_abs, Int.abs_eq_natAbs]
    exact_mod_cast hl.1
  have hab : 0 ≤ toRat a * toRat b := mul_nonneg ha.lower hb.lower
  have hone : toRat a * toRat b ≤ 1 := mul_le_one₀ ha.upper hb.lower hb.upper
  obtain ⟨hfinite, hweight, herror⟩ := (rounds_mul ha.finite hb.finite).near (k := 0)
    (by rw [abs_of_nonneg hab, zpow_zero]; exact hone) (by decide) (by decide)
  rw [zpow_zero] at hweight
  have hexact : |toRat (a * b) * w| ≤ |toRat (a * b)| * 32768 := by
    rw [abs_mul]
    exact mul_le_mul_of_nonneg_left hsmall (abs_nonneg _)
  have hrange : |toRat (a * b) * toRat l| ≤ 2 ^ (15 : Int) := by
    rw [hl.eq]
    refine le_trans hexact ?_
    norm_num
    linarith
  obtain ⟨hfinite', -, herror'⟩ := (rounds_mul hfinite hl.2.finite).near hrange
    (by decide) (by decide)
  rw [hl.eq] at herror'
  norm_num at herror herror'
  refine ⟨hfinite', ?_⟩
  have hpart := abs_sub_abs_le_abs_sub (toRat (a * b)) (toRat a * toRat b)
  have hwhole := abs_sub_abs_le_abs_sub (toRat (a * b * l)) (toRat (a * b) * w)
  rw [abs_of_nonneg hab] at hpart
  linarith

/-- A sum of bounded numbers, and what its rounding adds. -/
theorem sum_le {x y : Float} {m n : Rat} (hx : x.isFinite = true ∧ |toRat x| ≤ m)
    (hy : y.isFinite = true ∧ |toRat y| ≤ n) (h : m + n ≤ 262144) :
    (x + y).isFinite = true ∧ |toRat (x + y)| ≤ m + n + 1 / 8 := by
  have hexact : |toRat x + toRat y| ≤ m + n := (abs_add_le _ _).trans (add_le_add hx.2 hy.2)
  obtain ⟨hfinite, -, herror⟩ := (rounds_add hx.1 hy.1).near (k := 18)
    (by norm_num; linarith) (by decide) (by decide)
  norm_num at herror
  refine ⟨hfinite, ?_⟩
  have hpart := abs_sub_abs_le_abs_sub (toRat (x + y)) (toRat x + toRat y)
  linarith

/-- Blended between four entries, a lead is not larger by a pixel than an entry can be. -/
theorem lead_lt {p q l₁ l₂ l₃ l₄ : Float} {w₁ w₂ w₃ w₄ : Int} (hp : Between 0 1 p)
    (hq : Between 0 1 q) (hl₁ : Whole w₁ l₁) (hl₂ : Whole w₂ l₂) (hl₃ : Whole w₃ l₃)
    (hl₄ : Whole w₄ l₄) :
    let sum := (Scalar.ofInt 1 - p) * (Scalar.ofInt 1 - q) * l₁ + p * (Scalar.ofInt 1 - q) * l₂ +
      (Scalar.ofInt 1 - p) * q * l₃ + p * q * l₄
    sum.isFinite = true ∧ |toRat sum| < 32769 := by
  obtain ⟨hp', hpsum⟩ := between_rest hp
  obtain ⟨hq', hqsum⟩ := between_rest hq
  have h₁ := corner_le hp' hq' hl₁
  have h₂ := corner_le hp hq' hl₂
  have h₃ := corner_le hp' hq hl₃
  have h₄ := corner_le hp hq hl₄
  -- The four weights are the product of two sums, each of which exceeds one by little.
  have hweights : toRat (Scalar.ofInt 1 - p) * toRat (Scalar.ofInt 1 - q) +
      toRat p * toRat (Scalar.ofInt 1 - q) + toRat (Scalar.ofInt 1 - p) * toRat q +
      toRat p * toRat q ≤ (1 + 2 ^ (-52 : Int)) * (1 + 2 ^ (-52 : Int)) := by
    have hproduct := mul_le_mul hpsum hqsum (add_nonneg hq.lower hq'.lower)
      (by norm_num : (0 : Rat) ≤ 1 + 2 ^ (-52 : Int))
    linarith
  have hnonneg : ∀ {a b : Float}, Between 0 1 a → Between 0 1 b → 0 ≤ toRat a * toRat b :=
    fun ha hb => mul_nonneg ha.lower hb.lower
  have hn₂ := hnonneg hp hq'
  have hn₃ := hnonneg hp' hq
  have hn₄ := hnonneg hp hq
  norm_num at hweights
  obtain ⟨hfinite, hsum⟩ := sum_le (sum_le (sum_le h₁ h₂ (by linarith)) h₃ (by linarith)) h₄
    (by linarith)
  exact ⟨hfinite, by linarith⟩

namespace Ballistics

variable {d : Float}

theorem isNaN_lead_distance (t : Table) (v : Float) (hd : d.isNaN = true) :
    ((ofTable t).lead d v).isNaN = true := by
  have hfraction := Axis.isNaN_fraction (a := distanceAxis) (h := show 1 < 5 by decide) hd
  have hcorner : ∀ q z : Float, ((Scalar.ofInt 1 -
      (distanceAxis.locate 5 (by decide) d).fraction) * q * z).isNaN = true :=
    fun q z => isNaN_mul (Or.inl (isNaN_mul (Or.inl (isNaN_sub (Or.inr hfraction)))))
  exact isNaN_add (Or.inl (isNaN_add (Or.inl (isNaN_add (Or.inl (hcorner _ _))))))

theorem toInt32_lead_natAbs_le (t : Table) (d v : Float) :
    (toInt32 ((ofTable t).lead d v)).natAbs ≤ 32768 := by
  cases hd : d.isNaN with
  | true =>
    rw [toInt32_of_isNaN (isNaN_lead_distance t v hd)]
    exact Nat.zero_le _
  | false =>
    cases hv : v.isNaN with
    | true =>
      rw [toInt32_of_isNaN (isNaN_lead hv)]
      exact Nat.zero_le _
    | false =>
      have habs : (Scalar.magnitude v).isNaN = false := (isNaN_abs v).trans hv
      have hdistance := (distanceAxis.locate 5 (by decide) d).index_lt
      have hspeed := (velocityAxis.locate 4 (by decide) (Scalar.magnitude v)).index_lt
      have hnear := Nat.lt_of_succ_lt hdistance
      have hslow := Nat.lt_of_succ_lt hspeed
      have hlead : ((ofTable t).lead d v).isFinite = true ∧ |toRat ((ofTable t).lead d v)| < 32769 :=
        lead_lt (Axis.between_fraction Axis.small_distance hd)
          (Axis.between_fraction Axis.small_velocity habs) (whole_lead t hnear hslow)
          (whole_lead t hdistance hslow) (whole_lead t hnear hspeed) (whole_lead t hdistance hspeed)
      refine toInt32_natAbs_le_of_lt hlead.1 (hlead.2.trans_eq ?_)
      norm_num

end Ballistics

end FireControl.Calibration
