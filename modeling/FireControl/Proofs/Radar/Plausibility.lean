import FireControl.Proofs.Number.Bounds
import FireControl.Proofs.RingHistory
import FireControl.Radar.Intake

/-!
# Published distances are plausible

A point that is credible is farther away than the near limit, if not infinitely far, so that the sum
of `n` such coordinates is at least `n` times that limit: multiples of it are representable, and
rounding does not leave them (`over_total`). The mean and the binary32 number nearest to it are at
least the limit as well (`over_meanCoordinate`). A window of zeros and such means is therefore
positive from the first of them on, and it is at least the limit once the zeros are gone
(`Plausible.mean`).

Main statement: `distances_are_plausible`.
-/

namespace FireControl.Radar

open FireControl.Floating
open Float.Model (Format)

/-! ## Centroids -/

section Centroids

variable {ys : List Float32} {points : List Point}

theorem toRat32_nearLimit : toRat32 nearLimit = 6 := by
  have hunpack : nearLimit.toModel.unpack = .finite .positive (3 * 2 ^ 22) (-21) (by decide) := rfl
  exact toRat32_eq hunpack (by norm_num)

/-- Farther than the near limit, a number is at least that. -/
theorem over_of_nearLimit_lt {y : Float32} (h : nearLimit < y) : Over 6 y.toModel.unpack := by
  have hnumber : y.isNaN = false := by
    by_contra hnan
    exact not_lt_of_isNaN (by simpa using hnan) h
  rw [← toRat32_nearLimit]
  refine over_of_compare (canonical_float32 y) (canonical_float32 nearLimit) hnumber rfl ?_
  rw [compare_swap, lt_iff_compare.mp h]
  nofun

theorem over_of_credible {p : Point} (h : p ∈ credible points) :
    Over 6 p.position.y.toModel.unpack := by
  have hcredible := List.of_mem_filter h
  unfold Position.isCredible at hcredible
  simp only [Bool.and_eq_true, decide_eq_true_eq] at hcredible
  exact over_of_nearLimit_lt hcredible.2

/-- Each further coordinate adds six to what bounds the sum from below. -/
theorem over_total {k : Nat} {total : Float} (htotal : Over (6 * k) total.toModel.unpack)
    (hys : ∀ y ∈ ys, Over 6 y.toModel.unpack) (hfew : k + ys.length < 2 ^ 40) :
    Over (6 * (k + ys.length : Nat))
      (ys.foldl (fun total c => total + widen c) total).toModel.unpack := by
  -- The bound of the sum is a small integer at every step, and so it is representable.
  induction ys generalizing k total with
  | nil => exact htotal
  | cons y rest ih =>
    obtain ⟨hy, hrest⟩ := List.forall_mem_cons.mp hys
    rw [List.length_cons] at hfew ⊢
    have hwide : Over 6 (widen y).toModel.unpack :=
      over_fit hy (by exact_mod_cast representable64 (n := 6) (by decide))
    have hnext : (6 * (k + 1 : Nat) : ℚ) = 6 * k + 6 := by
      push_cast
      ring
    have hsum : Over (6 * (k + 1 : Nat)) (total + widen y).toModel.unpack := by
      rw [hnext]
      refine over_add (canonical_float total) (canonical_float (widen y)) htotal hwide ?_
      rw [← hnext]
      exact_mod_cast representable64 (n := 6 * (k + 1 : Nat)) (by omega)
    rw [← Nat.succ_add_eq_add_succ]
    exact ih hsum hrest (by omega)

theorem over_meanCoordinate (hne : ys ≠ []) (hys : ∀ y ∈ ys, Over 6 y.toModel.unpack)
    (hfew : ys.length < 2 ^ 40) : Over 6 (meanCoordinate ys).toModel.unpack := by
  have hnone : Over (6 * (0 : Nat)) (0 : Float).toModel.unpack := by
    show (6 * (0 : Nat) : ℚ) ≤ 0
    norm_num
  have htotal := over_total hnone hys (by omega)
  rw [Nat.zero_add] at htotal
  have hcount := between_ofNat (n := ys.length) (by omega)
  have hpos : (0 : ℚ) < toRat (Float.ofNat ys.length) := by
    rw [hcount.eq]
    exact_mod_cast List.length_pos_iff.mpr hne
  refine over_fit (over_div htotal hcount.finite hpos ?_ ?_) ?_
  · exact (congrArg (6 * ·) hcount.eq).le
  · exact_mod_cast representable64 (n := 6) (by decide)
  · exact_mod_cast representable32 (n := 6) (by decide)

theorem over_centroid {center : Position} (h : centroid (credible points) = some center)
    (hfew : points.length < 2 ^ 40) : Over 6 center.y.toModel.unpack := by
  unfold centroid at h
  split at h
  · cases h
  · next hne =>
    cases h
    apply over_meanCoordinate
    · simpa using hne
    · intro y hy
      obtain ⟨p, hp, rfl⟩ := List.mem_map.mp hy
      exact over_of_credible hp
    · rw [List.length_map]
      exact lt_of_le_of_lt (List.length_filter_le ..) hfew

end Centroids

/-! ## The window -/

section Window

variable {slots : List Float32} {x d : Float32}

/-- At least the near limit, a number does not compare below it. -/
theorem not_lt_nearLimit (h : Over 6 x.toModel.unpack) : ¬ x < nearLimit := by
  rw [lt_iff_compare]
  apply not_lt_of_over (canonical_float32 x) (canonical_float32 nearLimit) rfl
  show Over (toRat32 nearLimit) x.toModel.unpack
  rwa [toRat32_nearLimit]

/-- Whether a slot of the window holds what a centroid can have, and not a zero of the beginning. -/
def isFilled (x : Float32) : Bool := !decide (x < nearLimit)

theorem isFilled_of_over (h : Over 6 x.toModel.unpack) : isFilled x = true := by
  simp [isFilled, not_lt_nearLimit h]

/-- What a slot counts for in the sum. -/
theorem over_slot (h : Over 0 x.toModel.unpack) :
    Over (6 * (if isFilled x then 1 else 0 : Nat)) x.toModel.unpack := by
  split
  · next hfilled =>
    have hnot : ¬ x < nearLimit := by simpa [isFilled] using hfilled
    rw [Nat.cast_one, mul_one, ← toRat32_nearLimit]
    exact over_of_compare (canonical_float32 x) (canonical_float32 nearLimit) h.isNaN rfl
      (mt lt_iff_compare.mpr hnot)
  · rw [Nat.cast_zero, mul_zero]
    exact h

/-- The sum of a few slots is at least six for each that is filled. -/
theorem over_slots {k : Nat} {total : Float32} (htotal : Over (6 * k) total.toModel.unpack)
    (hslots : ∀ x ∈ slots, Over 0 x.toModel.unpack) (hfew : k + slots.length ≤ 2 ^ 20) :
    Over (6 * (k + slots.countP isFilled : Nat)) (slots.foldl (· + ·) total).toModel.unpack := by
  induction slots generalizing k total with
  | nil => exact htotal
  | cons x rest ih =>
    obtain ⟨hx, hrest⟩ := List.forall_mem_cons.mp hslots
    rw [List.length_cons] at hfew
    rw [List.countP_cons, Nat.add_comm (rest.countP isFilled), ← Nat.add_assoc]
    have hone : (if isFilled x = true then 1 else 0) ≤ 1 := by split <;> decide
    have hsum := over_add (canonical_float32 total) (canonical_float32 x) htotal (over_slot hx)
    rw [← mul_add, ← Nat.cast_add] at hsum
    generalize (if isFilled x = true then 1 else 0) = n at hone hsum ⊢
    refine ih (hsum ?_) hrest (by omega)
    exact_mod_cast representable32 (n := 6 * (k + n : Nat)) (by omega)

theorem over_mean {window : Ring Float32 5} {c : Nat}
    (hslots : ∀ x ∈ window.toList, Over 0 x.toModel.unpack)
    (hc : 5 * c ≤ 6 * window.toList.countP isFilled) (hsmall : c ≤ 2 ^ 20) :
    Over c window.mean.toModel.unpack := by
  have hneutral : Over (6 * (0 : Nat)) (-0.0 : Float32).toModel.unpack := by
    show (6 * (0 : Nat) : ℚ) ≤ 0
    norm_num
  have hsum := over_slots hneutral hslots (by rw [Ring.length_toList]; decide)
  rw [Nat.zero_add] at hsum
  have hcount : toRat32 (Float32.ofNat window.toList.length) = 5 := by
    rw [Ring.length_toList]
    have hunpack : (Float32.ofNat 5).toModel.unpack =
        .finite .positive (5 * 2 ^ 21) (-21) (by decide) := rfl
    exact toRat32_eq hunpack (by norm_num)
  have hfinite : (Float32.ofNat window.toList.length).isFinite = true := by
    rw [Ring.length_toList]
    rfl
  refine over_div hsum hfinite ?_ ?_ ?_
  · show 0 < toRat32 (Float32.ofNat window.toList.length)
    rw [hcount]
    norm_num
  · show (c : ℚ) * toRat32 (Float32.ofNat window.toList.length) ≤ _
    rw [hcount]
    exact_mod_cast (by omega : c * 5 ≤ 6 * window.toList.countP isFilled)
  · exact_mod_cast representable32 (n := c) (by omega)

end Window

/-! ## Runs -/

/-- Whether a cloud has a credible point. -/
def Cloud.survives (c : Cloud) : Bool := !(credible c.points).isEmpty

/-- The window remembers the centroids of the clouds that survived. -/
structure Plausible (e : DistanceEstimator) (centers : List Float32) : Prop where
  window : e.window.Remembers 0 centers
  centers : ∀ y ∈ centers, Over 6 y.toModel.unpack

section Runs

variable {e : DistanceEstimator} {centers : List Float32} {c : Cloud} {d : Float32}

theorem plausible_initial : Plausible {} [] :=
  ⟨Ring.remembers_filled 0 (by decide), fun _ h => by cases h⟩

theorem Plausible.slots (h : Plausible e centers) :
    ∀ x ∈ e.window.toList, Over 0 x.toModel.unpack := by
  intro x hx
  rcases h.window.mem_toList.mp hx with hrecent | ⟨-, rfl⟩
  · exact (h.centers x (List.mem_of_mem_take hrecent)).mono (by norm_num)
  · exact le_refl (0 : ℚ)

theorem Plausible.countP_isFilled (h : Plausible e centers) :
    min 5 centers.length ≤ e.window.toList.countP isFilled := by
  have hall : (centers.take 5).countP isFilled = min 5 centers.length := by
    rw [← List.length_take]
    refine List.countP_eq_length.mpr ?_
    intro y hy
    exact isFilled_of_over (h.centers y (List.mem_of_mem_take hy))
  -- The slots are counted from the newest one, although the ring keeps them from where it began.
  have hperm : e.window.toList.countP isFilled = e.window.newest.countP isFilled := by
    rw [Ring.newest, List.countP_reverse]
    exact (List.rotate_perm ..).symm.countP_eq _
  rw [hperm, h.window, List.take_append, List.countP_append, hall]
  exact Nat.le_add_right _ _

/-- The mean over the window is one at least when a cloud has survived, and six when five have. -/
theorem Plausible.mean (h : Plausible e centers) (hne : centers ≠ []) :
    Over (1 : Nat) e.window.mean.toModel.unpack ∧
      (5 ≤ centers.length → Over (6 : Nat) e.window.mean.toModel.unpack) := by
  have hcount := h.countP_isFilled
  have hpos := List.length_pos_iff.mpr hne
  constructor
  · exact over_mean h.slots (by omega) (by decide)
  · intro hfive
    exact over_mean h.slots (by omega) (by decide)

/-- A cloud that survives publishes the mean of the window with its centroid. -/
theorem Plausible.ingest (h : Plausible e centers) (hfew : c.points.length < 2 ^ 40) :
    (c.survives = false ∧ e.ingest c.points = (none, e)) ∨
      (c.survives = true ∧ ∃ y next, Plausible next (y :: centers) ∧
        e.ingest c.points = (some next.window.mean, next)) := by
  unfold DistanceEstimator.ingest
  cases hcenter : centroid (credible c.points) with
  | none =>
    refine Or.inl ⟨?_, rfl⟩
    unfold centroid at hcenter
    split at hcenter
    · next hempty => simp [Cloud.survives, hempty]
    · cases hcenter
  | some center =>
    have hnext : Plausible ⟨e.window.push center.y, some (e.window.push center.y).mean⟩
        (center.y :: centers) := by
      refine ⟨h.window.push center.y, ?_⟩
      exact List.forall_mem_cons.mpr ⟨over_centroid hcenter hfew, h.centers⟩
    refine Or.inr ⟨?_, center.y, _, hnext, rfl⟩
    · unfold centroid at hcenter
      split at hcenter
      · cases hcenter
      · next hne => simpa [Cloud.survives] using hne

/-- After every sequence of clouds the window remembers one centroid for each that survived. -/
theorem Plausible.ingestAll {clouds : List Cloud} (h : Plausible e centers)
    (hfew : ∀ c ∈ clouds, c.points.length < 2 ^ 40) :
    ∃ later, Plausible (e.ingestAll clouds).2 later ∧
      later.length = centers.length + clouds.countP Cloud.survives := by
  induction clouds generalizing e centers with
  | nil => exact ⟨centers, h, rfl⟩
  | cons c rest ih =>
    obtain ⟨hc, hrest⟩ := List.forall_mem_cons.mp hfew
    show ∃ later, Plausible ((e.ingest c.points).2.ingestAll rest).2 later ∧ _
    rcases h.ingest hc with ⟨hnone, hstep⟩ | ⟨hsome, y, next, hnext, hstep⟩
    · rw [hstep, List.countP_cons_of_neg (by simp [hnone])]
      exact ih h hrest
    · obtain ⟨later, hlater, hlength⟩ := ih hnext hrest
      rw [hstep, List.countP_cons_of_pos hsome]
      refine ⟨later, hlater, ?_⟩
      rw [hlength, List.length_cons]
      omega

/-- Whatever the coordinates of the points are, a published distance is a number and positive, and
from the fifth cloud with a credible point on it is six metres at least. -/
theorem distances_are_plausible {clouds : List Cloud}
    (hfew : ∀ c ∈ clouds, c.points.length < 2 ^ 40) (hlast : c.points.length < 2 ^ 40)
    (hd : ((DistanceEstimator.ingestAll {} clouds).2.ingest c.points).1 = some d) :
    d.isNaN = false ∧ 0 < d ∧ (4 ≤ clouds.countP Cloud.survives → 6 ≤ d) := by
  obtain ⟨centers, hcenters, hlength⟩ := plausible_initial.ingestAll hfew
  rcases hcenters.ingest hlast with ⟨-, hstep⟩ | ⟨-, y, next, hnext, hstep⟩
  · rw [hstep] at hd
    cases hd
  · rw [hstep] at hd
    cases hd
    obtain ⟨hone, hsix⟩ := hnext.mean (List.cons_ne_nil _ _)
    refine ⟨hone.isNaN, ?_, ?_⟩
    · rw [lt_iff_compare]
      refine lt_of_over (canonical_float32 0) (canonical_float32 _) rfl hone ?_
      show (0 : ℚ) < (1 : Nat)
      norm_num
    · intro hfive
      have hover := hsix (by rw [List.length_cons, hlength, List.length_nil]; omega)
      exact le_of_not_lt hover.isNaN rfl (not_lt_nearLimit (by exact_mod_cast hover))

end Runs

/-- A cloud of one point straight ahead. -/
def ahead (y : Float32) : Cloud := ⟨0, 0, [⟨⟨0, y, 0⟩, 0, 0⟩]⟩

/-- A point infinitely far away and one that has no distance are among the clouds. -/
theorem distances_are_plausible_infinite :
    ∃ (clouds : List Cloud) (c : Cloud) (d : Float32), (∀ c ∈ clouds, c.points.length < 2 ^ 40) ∧
      c.points.length < 2 ^ 40 ∧
      ((DistanceEstimator.ingestAll {} clouds).2.ingest c.points).1 = some d ∧
      d.isInf = true ∧ d.isNaN = false ∧ 0 < d ∧ 6 ≤ d := by
  have hfew : ∀ c ∈ [ahead 7, ahead (1 / 0), ahead (0 / 0), ahead 8, ahead 9],
      c.points.length < 2 ^ 40 := by decide
  have hlast : (ahead 10).points.length < 2 ^ 40 := by decide
  have hpublished : ((DistanceEstimator.ingestAll {} [ahead 7, ahead (1 / 0), ahead (0 / 0), ahead 8,
      ahead 9]).2.ingest (ahead 10).points).1.map Float32.isInf = some true := by decide +kernel
  obtain ⟨d, hd, hinfinite⟩ := Option.map_eq_some_iff.mp hpublished
  obtain ⟨hnumber, hpos, hsix⟩ := distances_are_plausible hfew hlast hd
  exact ⟨_, _, d, hfew, hlast, hd, hinfinite, hnumber, hpos, hsix (by decide +kernel)⟩

end FireControl.Radar
