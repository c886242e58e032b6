import FireControl.Aim.Controller
import FireControl.Proofs.Calibration.Corrections
import FireControl.Proofs.Number.Signs

/-!
# The lead at opposite velocities

The table gives a lead for the magnitude of a velocity, and the controller mirrors it for a rig that
turns to the left. `toInt32_signedLead_neg`: opposite velocities have opposite leads in whole pixels,
whatever the table, the distance and the velocity are, unless the velocity is zero. Nothing is lost on
the way: widening keeps the sign of a velocity, the integer part of an opposite number is opposite,
and a velocity that is not a number has a lead that is none, which counts as zero.
-/

namespace FireControl.Calibration

open FireControl.Floating

namespace Axis

theorem isNaN_clamp {low high x : Float} (hx : x.isNaN = true) : (clamp low high x).isNaN = true := by
  unfold clamp
  have hless : ∀ y z : Float, y.isNaN = true ∨ z.isNaN = true → Scalar.less y z = false :=
    fun y z h => decide_eq_false (not_lt_of_isNaN64 h)
  simp only [hless x low (Or.inl hx), hless high x (Or.inr hx), Bool.false_eq_true, if_false]
  exact hx

theorem isNaN_fraction {a : Axis} {points : Nat} {h : 1 < points} {x : Float}
    (hx : x.isNaN = true) : (a.locate points h x).fraction.isNaN = true := by
  have hplace : ∀ y : Float, y.isNaN = true → (a.place points h y).fraction.isNaN = true :=
    fun y hy => isNaN_sub (Or.inl (isNaN_div64 (Or.inl (isNaN_sub (Or.inl hy)))))
  exact hplace _ (isNaN_clamp hx)

end Axis

namespace Ballistics

variable {b : Ballistics Float} {d v : Float}

/-- The lead depends on the magnitude of the velocity alone. -/
theorem lead_neg (b : Ballistics Float) (d v : Float) : b.lead d (-v) = b.lead d v := by
  have hmagnitude : Scalar.magnitude (-v) = Scalar.magnitude v := abs_neg64 v
  simp only [lead, hmagnitude]

theorem isNaN_lead (hv : v.isNaN = true) : (b.lead d v).isNaN = true := by
  have habs : (Scalar.magnitude v).isNaN = true := (isNaN_abs v).trans hv
  have hfraction := Axis.isNaN_fraction (a := velocityAxis) (h := show 1 < 4 by decide) habs
  -- The weight of the first corner is not a number, and a sum with it is none either.
  have hcorner : ∀ p z : Float, (p * (Scalar.ofInt 1 -
      (velocityAxis.locate 4 (by decide) (Scalar.magnitude v)).fraction) * z).isNaN = true :=
    fun p z => isNaN_mul (Or.inl (isNaN_mul (Or.inr (isNaN_sub (Or.inr hfraction)))))
  exact isNaN_add (Or.inl (isNaN_add (Or.inl (isNaN_add (Or.inl (hcorner _ _))))))

end Ballistics

end FireControl.Calibration

namespace FireControl.Aim

open FireControl.Calibration (Ballistics Table)
open FireControl.Floating
open Float.Model.UnpackedFloat (Sign)

namespace Controller

section Lead

variable {b : Ballistics Float} {t : Table} {d w : Float} {v : Float32}

theorem signedLead_negative (hw : Signed .negative w.toModel.unpack) :
    signedLead b d w = -(b.lead d w) := if_pos (lt_zero_iff.mpr hw)

theorem signedLead_other (hw : ¬ Signed .negative w.toModel.unpack) :
    signedLead b d w = b.lead d w := if_neg (mt lt_zero_iff.mp hw)

theorem lead_widen_neg (b : Ballistics Float) (d : Float) (v : Float32) :
    b.lead d (widen (-v)) = b.lead d (widen v) := by
  rw [widen_neg, Ballistics.lead_neg]

/-- A velocity of zero has no direction, whatever its sign. -/
theorem signedLead_zero (hv : (v == 0) = true) :
    signedLead b d (widen (-v)) = signedLead b d (widen v) := by
  obtain ⟨s, hs⟩ := beq_zero_iff.mp hv
  have hs' : (-v).toModel.unpack = .zero (-s) := by
    rw [unpack_neg32, hs]
    rfl
  have hnone : ∀ r, ¬ Signed .negative (.zero r) := by
    rintro r ⟨⟩
  rw [signedLead_other (by rw [widen_zero hs']; exact hnone _), lead_widen_neg,
    signedLead_other (by rw [widen_zero hs]; exact hnone _)]

/-- Opposite velocities have opposite leads, in whole pixels. -/
theorem toInt32_signedLead_neg (hv : (v == 0) = false) :
    toInt32 (signedLead (.ofTable t) d (widen (-v))) =
      -(toInt32 (signedLead (.ofTable t) d (widen v))) := by
  have hwithin := Ballistics.lead_within t d (widen v)
  rcases signed_cases v.toModel.unpack with hnan | ⟨s, hzero⟩ | ⟨s, hs⟩
  · -- No lead is computed from what is not a number, and it counts as none.
    have hw : (widen v).isNaN = true := (isNaN_widen v).trans hnan
    have hnone : ∀ u : Float.Model.UnpackedFloat, u.isNaN = true → ¬ Signed .negative u := by
      rintro u hu (_ | _) <;> cases hu
    have hw' : (widen (-v)).toModel.unpack.isNaN = true := by
      rw [widen_neg, unpack_neg]
      revert hw
      show (widen v).toModel.unpack.isNaN = true → _
      cases (widen v).toModel.unpack <;> exact id
    rw [signedLead_other (hnone _ hw'), signedLead_other (hnone _ hw), lead_widen_neg,
      toInt32_of_isNaN (Ballistics.isNaN_lead hw)]
    rfl
  · rw [beq_zero_iff.mpr ⟨s, hzero⟩] at hv
    cases hv
  · have hwide := signed_widen hs
    have hwide' : Signed (-s) (widen (-v)).toModel.unpack := by
      rw [widen_neg, unpack_neg]
      exact hwide.neg
    have hunlike : ∀ u, Signed .positive u → ¬ Signed .negative u := by
      rintro u (_ | _) ⟨⟩
    cases s with
    | negative =>
      rw [signedLead_other (hunlike _ hwide'), signedLead_negative hwide, lead_widen_neg,
        toInt32_neg hwithin (by decide) (by decide), Int.neg_neg]
    | positive =>
      rw [signedLead_negative hwide', signedLead_other (hunlike _ hwide), lead_widen_neg,
        toInt32_neg hwithin (by decide) (by decide)]

end Lead

end Controller

end FireControl.Aim
