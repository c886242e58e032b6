import FireControl.Calibration.Interpolation
import FireControl.Proofs.Number.Magnitude

/-!
# The size of interpolated corrections

Whatever the distance and the angular velocity are, infinities included, clamping brings them onto
the grid, so the interpolation weights are small, and calibrated corrections are signed 16-bit
values. `drop_within` and `lead_within` bound the corrections far below the signed 32-bit range.
-/

namespace FireControl.Calibration

open FireControl.Floating

theorem scalar_within {k v : Int} (hv : v.natAbs ≤ 2 ^ k.toNat) (hlow : 0 ≤ k) (hhigh : k ≤ 52) :
    Within k (Scalar.ofInt v) := ofInt_within hv hlow hhigh

namespace Axis

theorem clamp_within {k : Int} {low high x : Float} (hlow : Within k low)
    {n : Nat} {f : Int} (hn : 0 < n) (hnormal : 2 ^ 52 ≤ n)
    (hunpack : high.toModel.unpack = .finite .positive n f hn) (hhigh : Within k high)
    (hnegative : ∀ m e hm, (Float.Model.UnpackedFloat.finite .negative m e hm).compare
      low.toModel.unpack = some .lt) : Within k (clamp low high x) := by
  have hless : ∀ a b : Float, (Scalar.less a b = true) = (a < b) := fun a b =>
    propext decide_eq_true_iff
  unfold clamp
  simp only [hless]
  by_cases hbelow : x < low
  · rw [if_pos hbelow]
    split
    · exact hhigh
    · exact hlow
  · rw [if_neg hbelow]
    split
    · exact hhigh
    · next habove => exact between_within hlow hn hnormal hunpack hhigh hnegative hbelow habove

/-- The part of a cell that lies below a value is small if the value is. -/
theorem place_within {i j : Int} {a : Axis} {points : Nat} {h : 1 < points} {x : Float}
    (hx : Within i x) (hi : 0 ≤ i) (hstart : a.start.natAbs ≤ 2 ^ i.toNat)
    (hstep : AtLeast j (Scalar.ofInt a.step)) (hpoints : points ≤ 2 ^ (i + 1 - j).toNat)
    (hlow : 0 ≤ i + 1 - j) (hhigh : i + 1 - j ≤ 51) (hmax : i ≤ 51) :
    Within (i + 1 - j + 1) (a.place points h x).fraction := by
  have hposition : Within (i + 1 - j) ((x - Scalar.ofInt a.start) / Scalar.ofInt a.step) :=
    div_within (sub_within hx (scalar_within hstart hi (by omega)) (by omega) (by omega)) hstep
      (by omega) (by omega)
  have hindex := (a.place points h x).index_lt
  refine sub_within hposition (scalar_within ?_ hlow (by omega)) (by omega) (by omega)
  exact le_trans (show (a.place points h x).index ≤ points by omega) hpoints

theorem distance_fraction_within (x : Float) :
    Within 5 (distanceAxis.locate 5 (by decide) x).fraction := by
  have hclamped : Within 5 (clamp (Scalar.ofInt 10 : Float) (Scalar.ofInt 30) x) :=
    clamp_within (scalar_within (by decide) (by decide) (by decide))
      (show 0 < 30 * 2 ^ 48 by decide) (by decide) (f := -48) rfl
      (scalar_within (by decide) (by decide) (by decide)) fun _ _ _ => rfl
  have hstep : AtLeast 2 (Scalar.ofInt 5 : Float) := by
    have hunpack : (Scalar.ofInt 5 : Float).toModel.unpack =
      .finite .positive (5 * 2 ^ 50) (-50) (by decide) := rfl
    unfold AtLeast
    rw [hunpack]
    exact ⟨by decide, by decide⟩
  exact place_within (a := distanceAxis) hclamped (by decide) (by decide) hstep (by decide)
    (by decide) (by decide) (by decide)

theorem velocity_fraction_within (x : Float) :
    Within 4 (velocityAxis.locate 4 (by decide) x).fraction := by
  have hclamped : Within 2 (clamp (Scalar.ofInt 0 : Float) (Scalar.ofInt 3) x) :=
    clamp_within (scalar_within (by decide) (by decide) (by decide))
      (show 0 < 3 * 2 ^ 51 by decide) (by decide) (f := -51) rfl
      (scalar_within (by decide) (by decide) (by decide)) fun _ _ _ => rfl
  have hstep : AtLeast 0 (Scalar.ofInt 1 : Float) := by
    have hunpack : (Scalar.ofInt 1 : Float).toModel.unpack =
      .finite .positive (2 ^ 52) (-52) (by decide) := rfl
    unfold AtLeast
    rw [hunpack]
    exact ⟨by decide, by decide⟩
  exact place_within (a := velocityAxis) hclamped (by decide) (by decide) hstep (by decide)
    (by decide) (by decide) (by decide)

end Axis

namespace Ballistics

open Axis

/-- Every correction of a table is a signed 16-bit value. -/
theorem int16_within (v : Int16) : Within 15 (Scalar.ofInt v.toInt) := by
  refine scalar_within ?_ (by decide) (by decide)
  have hlow := v.minValue_le_toInt
  have hhigh := v.toInt_le
  have hleast : Int16.minValue.toInt = -32768 := rfl
  have hmost : Int16.maxValue.toInt = 32767 := rfl
  show v.toInt.natAbs ≤ 32768
  omega

theorem drop_entry_within (t : Table) (i : Nat) (hi : i < 5) :
    Within 15 (ofTable (α := Float) t).drops[i] := by
  unfold ofTable
  rw [Vector.getElem_map]
  exact int16_within _

theorem lead_entry_within (t : Table) (i j : Nat) (hi : i < 5) (hj : j < 4) :
    Within 15 (ofTable (α := Float) t).leads[i][j] := by
  unfold ofTable
  rw [Vector.getElem_map, Vector.getElem_map]
  exact int16_within _

/-- The drop between two distances is bounded wherever in the cell the distance lies. -/
theorem drop_between_within (t : Table) (p : Place 5 Float) (hp : Within 5 p.fraction) :
    have := p.index_lt
    Within 22 ((ofTable t).drops[p.index] +
      p.fraction * ((ofTable t).drops[p.index + 1] - (ofTable t).drops[p.index])) := by
  have hindex := p.index_lt
  have hhere := drop_entry_within t p.index (by omega)
  have hspan := sub_within (drop_entry_within t (p.index + 1) hindex) hhere (by decide) (by decide)
  have hbase := hhere.mono (show (15 : Int) ≤ 21 by decide)
  exact add_within hbase (mul_within hp hspan (by decide) (by decide)) (by decide) (by decide)

theorem drop_within (t : Table) (distance : Float) : Within 22 ((ofTable t).drop distance) :=
  drop_between_within t _ (distance_fraction_within distance)

/-- One corner of a cell contributes its lead times two weights. -/
theorem corner_within {i j : Int} {t : Table} {v w : Float} {m n : Nat} (hm : m < 5) (hn : n < 4)
    (hv : Within i v) (hw : Within j w) (hi : 0 ≤ i) (hj : 0 ≤ j) (hsum : i + j ≤ 11) :
    Within 26 (v * w * (ofTable t).leads[m][n]) := by
  have hweight := mul_within hv hw (by omega) (by omega)
  exact (mul_within hweight (lead_entry_within t m n hm hn) (by omega) (by omega)).mono (by omega)

theorem lead_between_within (t : Table) (p : Place 5 Float) (q : Place 4 Float)
    (hp : Within 5 p.fraction) (hq : Within 4 q.fraction) :
    have := p.index_lt
    have := q.index_lt
    Within 29 (
      (Scalar.ofInt 1 - p.fraction) * (Scalar.ofInt 1 - q.fraction) *
          (ofTable t).leads[p.index][q.index] +
        p.fraction * (Scalar.ofInt 1 - q.fraction) * (ofTable t).leads[p.index + 1][q.index] +
        (Scalar.ofInt 1 - p.fraction) * q.fraction * (ofTable t).leads[p.index][q.index + 1] +
        p.fraction * q.fraction * (ofTable t).leads[p.index + 1][q.index + 1]) := by
  have hpi := p.index_lt
  have hqi := q.index_lt
  have hone : Within 4 (Scalar.ofInt 1 : Float) :=
    scalar_within (by decide) (by decide) (by decide)
  have hp' := sub_within (hone.mono (by decide)) hp (by decide) (by decide)
  have hq' := sub_within hone hq (by decide) (by decide)
  have h₁ : Within 26 _ := corner_within (t := t) (show p.index < 5 by omega)
    (show q.index < 4 by omega) hp' hq' (by decide) (by decide) (by decide)
  have h₂ : Within 26 _ := corner_within (t := t) hpi (show q.index < 4 by omega) hp hq'
    (by decide) (by decide) (by decide)
  have h₃ : Within 26 _ := corner_within (t := t) (show p.index < 5 by omega) hqi hp' hq
    (by decide) (by decide) (by decide)
  have h₄ : Within 26 _ := corner_within (t := t) hpi hqi hp hq (by decide) (by decide) (by decide)
  have hsum := add_within (add_within h₁ h₂ (by decide) (by decide))
    (h₃.mono (by decide)) (by decide) (by decide)
  exact add_within hsum (h₄.mono (by decide)) (by decide) (by decide)

theorem lead_within (t : Table) (distance velocity : Float) :
    Within 29 ((ofTable t).lead distance velocity) :=
  lead_between_within t _ _ (distance_fraction_within distance) (velocity_fraction_within _)

end Ballistics

end FireControl.Calibration
