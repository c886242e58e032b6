import FireControl.Proofs.Aim.Progress
import FireControl.Proofs.Number.Roots

/-!
# Centring is decided exactly

Whether a point is centred is computed in binary64, where the squares of large offsets, their sum
and the root are rounded. None of it changes the answer.

For a point inside the circle the squares and their sum are small integers and so are exact
(`squareSum_exact`). The sum is at most 22499, and its root at most `innerRadius`, which is a number
and less than the radius (`sqrt_below`). For any other point the squares may be cut off at 22500:
they are then small integers again, so that rounding does not go below them, and neither the sum nor
the root gets below what it has to reach (`squareSum_above`, `not_sqrt_below`).

Main statement: `centering_is_exact`.
-/

namespace FireControl.Aim

open FireControl.Floating
open Float.Model (Format)

/-- The computed sum of two squares. -/
def squareSum (v w : Int) : Float :=
  Float.ofInt v * Float.ofInt v + Float.ofInt w * Float.ofInt w

/-! ## Squares and their sum -/

section Squares

variable {v w : Int}

theorem natAbs_le_of_inInt32 (hv : Checked.InInt32 v) : v.natAbs ≤ 2 ^ 31 := by
  unfold Checked.InInt32 at hv
  omega

theorem sq_le_of_inInt32 (hv : Checked.InInt32 v) : v ^ 2 ≤ 2 ^ 62 := by
  have hsq : v.natAbs ^ 2 ≤ (2 ^ 31) ^ 2 := Nat.pow_le_pow_left (natAbs_le_of_inInt32 hv) 2
  rw [← Int.natAbs_sq]
  exact_mod_cast hsq

theorem rounds_square (hv : Checked.InInt32 v) : Rounds Format.binary64 ((v ^ 2 : Int) : ℚ)
    (Float.ofInt v * Float.ofInt v).toModel.unpack := by
  have hnear := natAbs_le_of_inInt32 hv
  have hexact := between_ofInt (v := v) (hnear.trans (by norm_num))
  have hrounds := rounds_mul hexact.finite hexact.finite
  rwa [hexact.eq, ← sq, ← Int.cast_pow] at hrounds

/-- A square may be cut off before it is rounded. -/
theorem between_square (hv : Checked.InInt32 v) :
    Between ((min (v ^ 2) 22500 : Int) : ℚ) (2 ^ 62) (Float.ofInt v * Float.ofInt v) := by
  have hnonneg := sq_nonneg v
  have hlimit : Representable Format.binary64 (2 ^ 62) := representable_two_pow (by decide)
  refine (rounds_square hv).between (representable64 ?_) hlimit ?_ ?_
  · omega
  · exact_mod_cast (min_le_left (v ^ 2) 22500 : min (v ^ 2) 22500 ≤ v ^ 2)
  · exact_mod_cast sq_le_of_inInt32 hv

/-- The computed sum is above everything that the cut off squares are above. -/
theorem squareSum_above (hv : Checked.InInt32 v) (hw : Checked.InInt32 w)
    (h : 22500 ≤ v ^ 2 + w ^ 2) : Between 22500 (2 ^ 64) (squareSum v w) := by
  have hleft := between_square hv
  have hright := between_square hw
  have hnonneg := sq_nonneg v
  have hnonneg' := sq_nonneg w
  have hcut : (22500 : ℚ) ≤ ((min (v ^ 2) 22500 : Int) : ℚ) + ((min (w ^ 2) 22500 : Int) : ℚ) := by
    exact_mod_cast (show 22500 ≤ min (v ^ 2) 22500 + min (w ^ 2) 22500 by omega)
  have hlimit : Representable Format.binary64 (2 ^ 64) := representable_two_pow (by decide)
  refine (rounds_add hleft.finite hright.finite).between ?_ hlimit ?_ ?_
  · exact_mod_cast representable64 (n := 22500) (by decide)
  · linarith [hleft.lower, hright.lower]
  · linarith [hleft.upper, hright.upper]

/-- Small squares and their sum are exact. -/
theorem squareSum_exact (hv : Checked.InInt32 v) (hw : Checked.InInt32 w)
    (h : v ^ 2 + w ^ 2 < 22500) :
    Between ((v ^ 2 + w ^ 2 : Int) : ℚ) ((v ^ 2 + w ^ 2 : Int) : ℚ) (squareSum v w) := by
  have hnonneg := sq_nonneg v
  have hnonneg' := sq_nonneg w
  have hleft := (rounds_square hv).exact (representable64 (by omega))
  have hright := (rounds_square hw).exact (representable64 (by omega))
  have hsum := rounds_add hleft.finite hright.finite
  rw [hleft.eq, hright.eq, ← Int.cast_add] at hsum
  exact hsum.exact (representable64 (by omega))

end Squares

/-! ## Roots -/

section Roots

variable {x : Float}

/-- A number just below the radius, and still above the root of 22499. -/
def innerRadius : ℚ := 76799 * 2 ^ (-9 : ℤ)

theorem toRat_centeredRadius : toRat centeredRadius = 150 := by
  have hunpack : centeredRadius.toModel.unpack =
      .finite .positive (75 * 2 ^ 46) (-45) (by decide) := rfl
  unfold toRat
  rw [hunpack, value_positive_eq]
  norm_num

theorem sqrt_below (h : Between 0 22499 x) : x.sqrt < centeredRadius := by
  have hinner : Representable Format.binary64 innerRadius :=
    ⟨76799, -9, by decide, by decide, by decide, by norm_num [innerRadius]⟩
  have hzero : Representable Format.binary64 0 := by
    exact_mod_cast representable64 (n := 0) (by decide)
  have hroot := rounds_sqrt h.finite h.lower
  have hbetween : Between 0 innerRadius x.sqrt := by
    refine between_of_bounds (hroot.lower 0 hzero ?_) (hroot.upper innerRadius hinner ?_ ?_)
    · rw [zero_pow two_ne_zero]
      exact h.lower
    · norm_num [innerRadius]
    · exact h.upper.trans (by norm_num [innerRadius])
  have hradius : Over 150 centeredRadius.toModel.unpack :=
    (over_iff (u := centeredRadius.toModel.unpack) rfl).mpr toRat_centeredRadius.ge
  rw [lt_iff]
  refine lt_of_over (canonical_float _) (canonical_float _) hbetween.finite hradius ?_
  exact hbetween.upper.trans_lt (by norm_num [innerRadius])

theorem not_sqrt_below {high : ℚ} (h : Between 22500 high x) : ¬ x.sqrt < centeredRadius := by
  have hradius : Representable Format.binary64 150 := by
    exact_mod_cast representable64 (n := 150) (by decide)
  have hroot := rounds_sqrt h.finite (le_trans (by norm_num) h.lower)
  have hover : Over 150 x.sqrt.toModel.unpack :=
    hroot.lower 150 hradius (le_trans (by norm_num) h.lower)
  rw [lt_iff]
  refine not_lt_of_over (canonical_float _) (canonical_float _) rfl ?_
  rwa [← toRat_centeredRadius] at hover

end Roots

/-! ## Points and boxes -/

theorem sqrt_squareSum_below_iff {v w : Int} (hv : Checked.InInt32 v) (hw : Checked.InInt32 w) :
    (squareSum v w).sqrt < centeredRadius ↔ v ^ 2 + w ^ 2 < 22500 := by
  constructor
  · intro hbelow
    by_contra hfar
    exact not_sqrt_below (squareSum_above hv hw (by omega)) hbelow
  · intro hnear
    have hnonneg : 0 ≤ v ^ 2 + w ^ 2 := add_nonneg (sq_nonneg v) (sq_nonneg w)
    refine sqrt_below ((squareSum_exact hv hw hnear).mono ?_ ?_)
    · exact_mod_cast hnonneg
    · exact_mod_cast (show v ^ 2 + w ^ 2 ≤ 22499 by omega)

/-- A point whose offsets fit their width is centred if its exact distance is below the radius. -/
theorem Pixel.isCentered_eq {p : Pixel} (hx : Checked.InInt32 (p.x - 400))
    (hy : Checked.InInt32 (p.y - 300)) :
    p.isCentered = .ok (decide ((p.x - 400) ^ 2 + (p.y - 300) ^ 2 < 22500)) := by
  refine Checked.bind_eq_ok.mpr ⟨_, Checked.int32_eq_ok.mpr ⟨hx, rfl⟩, ?_⟩
  refine Checked.bind_eq_ok.mpr ⟨_, Checked.int32_eq_ok.mpr ⟨hy, rfl⟩, ?_⟩
  exact congrArg Except.ok (decide_eq_decide.mpr (sqrt_squareSum_below_iff hx hy))

theorem Box.eq_of_pointDown {b : Box} {parts : Int} {p : Pixel} (h : b.pointDown parts = .ok p) :
    p = ⟨b.left + b.width.tdiv 2, b.top + b.height.tdiv parts⟩ := by
  obtain ⟨x, hx, h⟩ := Checked.bind_eq_ok.mp h
  obtain ⟨y, hy, h⟩ := Checked.bind_eq_ok.mp h
  obtain ⟨-, rfl⟩ := Checked.int32_eq_ok.mp hx
  obtain ⟨-, rfl⟩ := Checked.int32_eq_ok.mp hy
  exact (Checked.pure_eq_ok.mp h).symm

theorem Pixel.Near.isCentered_eq {p : Pixel} (h : p.Near) :
    p.isCentered = .ok (decide ((p.x - 400) ^ 2 + (p.y - 300) ^ 2 < 22500)) := by
  obtain ⟨hleft, hright, hup, hdown⟩ := h
  apply Pixel.isCentered_eq
  · constructor <;> omega
  · constructor <;> omega

/-- A box with moderate coordinates and sizes is centred exactly when its middle, with halves
dropped toward zero, is less than 150 pixels from the middle of the frame, as computed in integers and
without a root. It is then sighted with that middle as its centre. -/
theorem centering_is_exact {b : Box} (h : b.Moderate) :
    let x := b.left + b.width.tdiv 2
    let y := b.top + b.height.tdiv 2
    (b.center >>= Pixel.isCentered) = .ok (decide ((x - 400) ^ 2 + (y - 300) ^ 2 < 22500)) ∧
      Sighting.ofBox b =
        .ok (if (x - 400) ^ 2 + (y - 300) ^ 2 < 22500 then some ⟨b, ⟨x, y⟩⟩ else none) := by
  intro x y
  obtain ⟨p, hcenter, hnear⟩ := h.pointDown (Int.le_refl 2)
  obtain rfl := Box.eq_of_pointDown hcenter
  have hdecided := hnear.isCentered_eq
  refine ⟨Checked.bind_eq_ok.mpr ⟨_, hcenter, hdecided⟩, ?_⟩
  refine Checked.bind_eq_ok.mpr ⟨_, hcenter, Checked.bind_eq_ok.mpr ⟨_, hdecided, ?_⟩⟩
  simp only [decide_eq_true_eq]
  rfl

/-- A box of negative odd sizes whose middle is exactly 150 pixels away is not centred. One pixel to
the left it is. Nor is a box centred that is so far away that its distance is rounded. -/
theorem centering_is_exact_on_the_circle :
    (⟨491, 421, -3, -3⟩ : Box).Moderate ∧ Sighting.ofBox ⟨491, 421, -3, -3⟩ = .ok none ∧
      (⟨490, 421, -3, -3⟩ : Box).Moderate ∧
      Sighting.ofBox ⟨490, 421, -3, -3⟩ = .ok (some ⟨⟨490, 421, -3, -3⟩, ⟨489, 420⟩⟩) ∧
      (⟨1000000000, -1000000000, 999999999, -999999999⟩ : Box).Moderate ∧
      Sighting.ofBox ⟨1000000000, -1000000000, 999999999, -999999999⟩ = .ok none := by
  have hedge : (⟨491, 421, -3, -3⟩ : Box).Moderate :=
    ⟨by decide, by decide, by decide, by decide⟩
  have hinside : (⟨490, 421, -3, -3⟩ : Box).Moderate :=
    ⟨by decide, by decide, by decide, by decide⟩
  have hcorner : (⟨1000000000, -1000000000, 999999999, -999999999⟩ : Box).Moderate :=
    ⟨by decide, by decide, by decide, by decide⟩
  refine ⟨hedge, ?_, hinside, ?_, hcorner, ?_⟩
  · exact (centering_is_exact hedge).2.trans (by decide)
  · exact (centering_is_exact hinside).2.trans (by decide)
  · exact (centering_is_exact hcorner).2.trans (by decide)

end FireControl.Aim
