import FireControl.Proofs.Number.Bounds

/-!
# Square roots round faithfully

The root of a rational number need not be rational, so a bound of it is given by its square:
`RoundsRoot format x u` says that a number is on the same side of every representable bound as the
root of `x` is.

The bounds of a result depend on no more than the two neighbouring places that the root lies between,
or that it is the lower of them (`TellsRoot`). The same is told of every rational number between these
places, and for each bound of the root there is one that keeps the bound (`TellsRoot.exists_above`,
`TellsRoot.exists_below`). So what is known of rounded rational numbers holds of rounded roots
(`rounds_sqrt`).
-/

namespace FireControl.Floating

open Float.Model (Format UnpackedFloat totalExponent)
open Float.Model.UnpackedFloat

/-- A number that keeps the representable bounds of the root of `x`. -/
structure RoundsRoot (format : Format) (x : ℚ) (u : UnpackedFloat) : Prop where
  lower : ∀ c, Representable format c → c ^ 2 ≤ x → Over c u
  upper : ∀ c, Representable format c → 0 ≤ c → x ≤ c ^ 2 → Under c u

/-- What `m * 2 ^ e` with an accuracy tells of the root of a rational number. -/
inductive TellsRoot (x : ℚ) (m : ℕ) (e : ℤ) : Accuracy → Prop
  | exact : x = (m * 2 ^ e) ^ 2 → TellsRoot x m e .exact
  | inexact (o) : ((m : ℚ) * 2 ^ e) ^ 2 < x → x < ((m + 1) * 2 ^ e) ^ 2 →
      TellsRoot x m e (.inexact o)

section Neighbours

variable {x c : ℚ} {m : ℕ} {e : ℤ} {accuracy : Accuracy}

theorem place_nonneg (m : ℕ) (e : ℤ) : 0 ≤ (m : ℚ) * 2 ^ e :=
  mul_nonneg (Nat.cast_nonneg m) (zpow_pos_two e).le

/-- The middle between two neighbouring places. -/
theorem middle_mem (m : ℕ) (e : ℤ) : (m : ℚ) * 2 ^ e < (m + 1 / 2) * 2 ^ e ∧
    ((m : ℚ) + 1 / 2) * 2 ^ e < (m + 1) * 2 ^ e := by
  have hpos := zpow_pos_two e
  constructor <;> linarith

/-- A lower bound of the root bounds a rational number of which the same is told. -/
theorem TellsRoot.exists_above (h : TellsRoot x m e accuracy) (hx : c ^ 2 ≤ x) :
    ∃ q, Tells q m e accuracy ∧ c ≤ q := by
  cases h with
  | exact heq =>
    rw [heq] at hx
    exact ⟨_, .exact rfl, le_of_sq_le_sq hx (place_nonneg m e)⟩
  | inexact o hlow hhigh =>
    have hnext : c < (m + 1) * 2 ^ e :=
      lt_of_pow_lt_pow_left₀ 2 (by exact_mod_cast place_nonneg (m + 1) e) (hx.trans_lt hhigh)
    obtain ⟨hleft, hright⟩ := middle_mem m e
    refine ⟨max c ((m + 1 / 2) * 2 ^ e), .inexact o ?_ ?_, le_max_left ..⟩
    · exact lt_max_of_lt_right hleft
    · exact max_lt hnext hright

theorem TellsRoot.exists_below (h : TellsRoot x m e accuracy) (hc : 0 ≤ c) (hx : x ≤ c ^ 2) :
    ∃ q, Tells q m e accuracy ∧ q ≤ c := by
  cases h with
  | exact heq =>
    rw [heq] at hx
    exact ⟨_, .exact rfl, le_of_sq_le_sq hx hc⟩
  | inexact o hlow hhigh =>
    have hbefore : (m : ℚ) * 2 ^ e < c := lt_of_pow_lt_pow_left₀ 2 hc (hlow.trans_le hx)
    obtain ⟨hleft, hright⟩ := middle_mem m e
    refine ⟨min c ((m + 1 / 2) * 2 ^ e), .inexact o ?_ ?_, min_le_left ..⟩
    · exact lt_min hbefore hleft
    · exact min_lt_of_right_lt hright

end Neighbours

/-! ## The root of a significand -/

section Significands

variable {format : Format} {x : ℚ} {m : ℕ} {e t : ℤ} {accuracy : Accuracy}

/-- The integer root and its remainder tell of the root. -/
theorem tellsRoot_sqrt (n : ℕ) (t : ℤ) :
    TellsRoot (n * 2 ^ (2 * t)) n.sqrt t
      (if n - n.sqrt * n.sqrt = 0 then .exact
        else .inexact (if n - n.sqrt * n.sqrt ≤ n.sqrt then .lt else .gt)) := by
  have hbelow : n.sqrt * n.sqrt ≤ n := Nat.sqrt_le n
  have habove : n < (n.sqrt + 1) * (n.sqrt + 1) := Nat.lt_succ_sqrt n
  have hsquare : ∀ k : ℚ, (k * 2 ^ t) ^ 2 = k * k * 2 ^ (2 * t) := by
    intro k
    rw [two_mul, zpow_add₀ (by norm_num)]
    ring
  have hpos := zpow_pos_two (2 * t)
  split
  case isTrue hzero =>
    have heq : (n : ℚ) = n.sqrt * n.sqrt := by
      exact_mod_cast (show n = n.sqrt * n.sqrt by omega)
    refine .exact ?_
    rw [hsquare, ← heq]
  case isFalse hrest =>
    refine .inexact _ ?_ ?_
    · rw [hsquare]
      refine mul_lt_mul_of_pos_right ?_ hpos
      exact_mod_cast (show n.sqrt * n.sqrt < n by omega)
    · rw [hsquare]
      refine mul_lt_mul_of_pos_right ?_ hpos
      exact_mod_cast habove

/-- The root has the bits that rounding keeps. -/
theorem root_le_target (hm : 0 < m)
    (ht : t = min (e / 2) (format.targetExponent ((totalExponent m e + 1) / 2))) :
    t ≤ target format (m * 2 ^ (e - 2 * t).toNat).sqrt t := by
  have hlength : format.mantissaBits = 1 + format.mantissaBitsWithoutImplicit := rfl
  have hshift : t ≤ e / 2 := ht ▸ min_le_left ..
  have htarget : t ≤ max ((m.log2 + 1 + e + 1) / 2 - format.mantissaBits) format.minExponent :=
    ht ▸ min_le_right ..
  rw [target_eq]
  rcases le_or_gt t format.minExponent with hsmall | hlarge
  · exact le_max_of_le_right hsmall
  · -- The significand is shifted until it has twice as many bits as its root needs.
    have hfull : 2 ^ format.mantissaBitsWithoutImplicit ≤ (m * 2 ^ (e - 2 * t).toNat).sqrt := by
      rw [Nat.le_sqrt]
      calc 2 ^ format.mantissaBitsWithoutImplicit * 2 ^ format.mantissaBitsWithoutImplicit
          = 2 ^ (format.mantissaBitsWithoutImplicit + format.mantissaBitsWithoutImplicit) :=
            (Nat.pow_add ..).symm
        _ ≤ 2 ^ (m.log2 + (e - 2 * t).toNat) := Nat.pow_le_pow_right (by decide) (by omega)
        _ = 2 ^ m.log2 * 2 ^ (e - 2 * t).toNat := Nat.pow_add ..
        _ ≤ m * 2 ^ (e - 2 * t).toNat := Nat.mul_le_mul_right _ (Nat.log2_self_le hm.ne')
    have hlog := log2_le_log2_of_pow_le hfull
    omega

theorem roundsRoot_of_tells (h : TellsRoot x m e accuracy) (he : e ≤ target format m e) :
    RoundsRoot format x (UnpackedFloat.unpack format
      (UnpackedFloat.pack format (roundWithAccuracy format .positive m e accuracy))) := by
  have hrounds : ∀ {q}, Tells q m e accuracy → Rounds format q (UnpackedFloat.unpack format
      (UnpackedFloat.pack format (roundWithAccuracy format .positive m e accuracy))) := by
    intro q hq
    have hsigned := rounds_of_tells .positive hq he
    rwa [show ((Sign.positive.apply 1 : ℤ) : ℚ) = 1 from Int.cast_one, one_mul] at hsigned
  constructor
  · intro c hc hle
    obtain ⟨q, hq, hcq⟩ := h.exists_above hle
    exact (hrounds hq).lower c hc hcq
  · intro c hc hnonneg hle
    obtain ⟨q, hq, hqc⟩ := h.exists_below hnonneg hle
    exact (hrounds hq).upper c hc hqc

end Significands

/-! ## The root of a number -/

theorem roundsRoot_sqrtUnpacked {format : Format} {u : UnpackedFloat} (hfinite : u.isFinite = true)
    (hnonneg : 0 ≤ value u) : RoundsRoot format (value u) (UnpackedFloat.unpack format
      (UnpackedFloat.pack format (UnpackedFloat.sqrt format u))) := by
  cases u with
  | infinity | notANumber => cases hfinite
  | zero s =>
    have hzero : Rounds format 0 _ := rounds_zero s
    constructor
    · intro c hc hle
      exact hzero.lower c hc (sq_nonpos_iff c |>.mp hle).le
    · intro c hc hpos _
      exact hzero.upper c hc hpos
  | finite s m e hm =>
    cases s with
    | negative => exact absurd (value_negative m e hm) (not_lt.mpr hnonneg)
    | positive =>
      unfold UnpackedFloat.sqrt sqrtCore
      simp only [Nat.shiftLeft_eq]
      generalize ht : min (e.ediv 2) (format.targetExponent ((totalExponent m e + 1).ediv 2)) = t
      have hshift : 2 * t ≤ e := by
        have hle : t ≤ e / 2 := ht ▸ min_le_left ..
        omega
      have hvalue : value (.finite .positive m e hm) =
          (m * 2 ^ (e - 2 * t).toNat : ℕ) * 2 ^ (2 * t) := by
        rw [value_positive_eq, zpow_split hshift]
        push_cast
        ring
      rw [hvalue]
      exact roundsRoot_of_tells (tellsRoot_sqrt _ t) (root_le_target hm ht.symm)

theorem rounds_sqrt {x : Float} (hx : x.isFinite = true) (h : 0 ≤ toRat x) :
    RoundsRoot Format.binary64 (toRat x) x.sqrt.toModel.unpack :=
  roundsRoot_sqrtUnpacked hx h

end FireControl.Floating
