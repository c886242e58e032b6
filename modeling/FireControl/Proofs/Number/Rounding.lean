import FireControl.Number.Floating
import Mathlib.Data.Nat.Log
import Mathlib.Tactic.Ring

/-!
# Rounding stays below a power of two

`WithinUnpacked k u` says that an unpacked number is not infinite and, if it is finite, that it lies
between `-2 ^ k` and `2 ^ k`. A power of two is one of the numbers that rounding to binary64 may
return and rounding is monotone, so rounding cannot leave such a bound. The proof follows the shifts
of the rounding itself: a significand at most `b * 2 ^ n` is at most `b` after `n` shifts and the
rounding (`roundedMantissa_shiftRight_le`), and both shifts end below the bound (`shift_le`).
`roundWithAccuracy_within`, `normalize_within` and `pack_within` are the results that arithmetic
needs.
-/

namespace FireControl.Floating

open Float.Model
open Float.Model.UnpackedFloat

/-- Not infinite, and at most `2 ^ k` in magnitude. -/
def WithinUnpacked (k : Int) : UnpackedFloat → Prop
  | .infinity _ => False
  | .finite _ m e _ => e ≤ k ∧ m ≤ 2 ^ (k - e).toNat
  | _ => True

theorem withinUnpacked_finite {k e : Int} {m : Nat} {s : Sign} {hm : 0 < m} :
    WithinUnpacked k (.finite s m e hm) ↔ e ≤ k ∧ m ≤ 2 ^ (k - e).toNat := Iff.rfl

theorem WithinUnpacked.mono {k l : Int} {u : UnpackedFloat} (h : WithinUnpacked k u) (hkl : k ≤ l) :
    WithinUnpacked l u := by
  cases u with
  | finite s m e hpos =>
    exact ⟨le_trans h.1 hkl, le_trans h.2 (Nat.pow_le_pow_right (by decide) (by omega))⟩
  | infinity s => exact h
  | notANumber => trivial
  | zero s => trivial

/-! ## Shifting -/

theorem shiftRight_succ (em : ExtendedMantissa) (n : Nat) :
    em >>> (n + 1) = (em >>> n).shiftRightOne := rfl

theorem mantissa_shiftRight (em : ExtendedMantissa) (n : Nat) :
    (em >>> n).mantissa = em.mantissa / 2 ^ n := by
  induction n with
  | zero => exact (Nat.div_one _).symm
  | succ n ih =>
    rw [shiftRight_succ, Nat.pow_succ, ← Nat.div_div_eq_div_mul, ← ih]
    rfl

theorem exact_shiftRight (bound n : Nat) :
    (ExtendedMantissa.ofMantissaAndAccuracy (bound * 2 ^ n) .exact) >>> n =
      ⟨bound, false, false⟩ := by
  induction n generalizing bound with
  | zero => simp [ExtendedMantissa.ofMantissaAndAccuracy, HShiftRight.hShiftRight, Nat.repeat]
  | succ n ih =>
    have hsplit : bound * 2 ^ (n + 1) = bound * 2 * 2 ^ n := by ring
    rw [shiftRight_succ, hsplit, ih]
    simp [ExtendedMantissa.shiftRightOne]

theorem roundToNearestEven_le (m : Nat) (accuracy : Accuracy) :
    accuracy.roundToNearestEven m ≤ m + 1 := by
  cases accuracy with
  | exact => exact Nat.le_succ m
  | inexact o => cases o <;> simp only [Accuracy.roundToNearestEven] <;> omega

/-- `m` with the part behind it that `accuracy` tells of is at most `bound`. -/
def AtMost (bound m : Nat) (accuracy : Accuracy) : Prop :=
  m < bound ∨ (m = bound ∧ accuracy = .exact)

theorem roundedMantissa_shiftRight_le {bound n m : Nat} {accuracy : Accuracy}
    (h : AtMost (bound * 2 ^ n) m accuracy) :
    ((ExtendedMantissa.ofMantissaAndAccuracy m accuracy) >>> n).roundedMantissa ≤ bound := by
  rcases h with hlt | ⟨rfl, rfl⟩
  · have hm : ((ExtendedMantissa.ofMantissaAndAccuracy m accuracy) >>> n).mantissa < bound := by
      have hfield : (ExtendedMantissa.ofMantissaAndAccuracy m accuracy).mantissa = m := by
        unfold ExtendedMantissa.ofMantissaAndAccuracy
        split <;> rfl
      rw [mantissa_shiftRight, hfield]
      exact Nat.div_lt_of_lt_mul (by rwa [Nat.mul_comm])
    exact le_trans (roundToNearestEven_le _ _) hm
  · rw [exact_shiftRight]
    exact le_refl bound

theorem log2_le_of_le {m n : Nat} (h : m ≤ 2 ^ n) : m.log2 ≤ n := by
  by_cases hm : m = 0
  · rw [hm]
    exact Nat.zero_le n
  · calc m.log2 ≤ (2 ^ n).log2 := by
          rw [Nat.log2_eq_log_two, Nat.log2_eq_log_two]
          exact Nat.log_mono_right h
      _ = n := Nat.log2_two_pow

theorem targetExponent_eq (total : Int) :
    Format.binary64.targetExponent total = max (total - 53) (-1074) := rfl

/-- The first exponent of rounding and the shift to it stay below the bound. -/
theorem shift_le {k e : Int} {m : Nat} (hk : -1074 ≤ k) (he : e ≤ k)
    (hm : m ≤ 2 ^ (k - e).toNat) (shift : Nat)
    (hshift : shift = (Format.binary64.targetExponent (totalExponent m e) - e).toNat) :
    e + shift ≤ k ∧ 2 ^ (k - e).toNat = 2 ^ (k - (e + shift)).toNat * 2 ^ shift := by
  have hlog : m.log2 ≤ (k - e).toNat := log2_le_of_le hm
  have hle : e + shift ≤ k := by
    rw [hshift, targetExponent_eq, totalExponent]
    omega
  refine ⟨hle, ?_⟩
  rw [← Nat.pow_add]
  congr 1
  omega

theorem roundWithAccuracy_within {k e : Int} {m : Nat} {accuracy : Accuracy} (s : Sign)
    (hk : -1074 ≤ k) (he : e ≤ k) (hm : AtMost (2 ^ (k - e).toNat) m accuracy) :
    WithinUnpacked k (roundWithAccuracy Format.binary64 s m e accuracy) := by
  have hfirst : m ≤ 2 ^ (k - e).toNat := hm.elim Nat.le_of_lt fun h => h.1.le
  unfold roundWithAccuracy shiftToTargetExponent shiftToExponent
  dsimp only
  -- The shift to the target exponent; rounding up may call for a second one.
  generalize hn : (Format.binary64.targetExponent (totalExponent m e) - e).toNat = n
  obtain ⟨hle, hpow⟩ := shift_le hk he hfirst n hn.symm
  rw [hpow] at hm
  have hrounded := roundedMantissa_shiftRight_le hm
  generalize ((ExtendedMantissa.ofMantissaAndAccuracy m accuracy) >>> n).roundedMantissa = r
    at hrounded
  generalize hn' : (Format.binary64.targetExponent (totalExponent r (e + n)) - (e + n)).toNat = n'
  obtain ⟨hle', hpow'⟩ := shift_le hk hle hrounded n' hn'.symm
  by_cases hzero : (ExtendedMantissa.ofMantissaAndAccuracy r .exact >>> n').mantissa = 0
  · rw [dif_pos hzero]
    trivial
  · rw [dif_neg hzero]
    refine ⟨hle', ?_⟩
    rw [mantissa_shiftRight]
    exact Nat.div_le_of_le_mul (by rwa [Nat.mul_comm, ← hpow'])

/-! ## Rounding -/

theorem decreaseExponent_within {k e : Int} {m : Nat} (target : Int) (he : e ≤ k)
    (hm : m ≤ 2 ^ (k - e).toNat) :
    (decreaseExponent m e target).2 ≤ k ∧
      (decreaseExponent m e target).1 ≤ 2 ^ (k - (decreaseExponent m e target).2).toNat := by
  unfold decreaseExponent
  refine ⟨by dsimp only; omega, ?_⟩
  dsimp only
  rw [Nat.shiftLeft_eq]
  calc m * 2 ^ (e - target).toNat ≤ 2 ^ (k - e).toNat * 2 ^ (e - target).toNat :=
        Nat.mul_le_mul_right _ hm
    _ = 2 ^ (k - (e - (e - target).toNat)).toNat := by
        rw [← Nat.pow_add]
        congr 1
        omega

theorem atMost_exact {bound m : Nat} (h : m ≤ bound) : AtMost bound m .exact := by
  rcases Nat.lt_or_eq_of_le h with hlt | heq
  · exact Or.inl hlt
  · exact Or.inr ⟨heq, rfl⟩

theorem round_within {k e : Int} {m : Nat} (s : Sign) (hk : -1074 ≤ k) (he : e ≤ k)
    (hm : m ≤ 2 ^ (k - e).toNat) :
    WithinUnpacked k (UnpackedFloat.round Format.binary64 s m e) := by
  obtain ⟨he', hm'⟩ :=
    decreaseExponent_within (Format.binary64.targetExponent (totalExponent m e)) he hm
  exact roundWithAccuracy_within s hk he' (atMost_exact hm')

theorem normalize_within {k e m : Int} (zeroSign : Sign) (hk : -1074 ≤ k) (he : e ≤ k)
    (hm : m.natAbs ≤ 2 ^ (k - e).toNat) :
    WithinUnpacked k (UnpackedFloat.normalize Format.binary64 m e zeroSign) := by
  unfold UnpackedFloat.normalize
  split
  · exact round_within _ hk he (le_trans (by omega) hm)
  · trivial
  · exact round_within _ hk he (le_trans (by omega) hm)

/-! ## Packing -/

theorem exponentBias_eq : Format.binary64.exponentBias = 1023 := rfl

/-- The leading one of a normal significand. -/
theorem toNat_one_append {n : Nat} (m : BitVec n) : (1#1 ++ m).toNat = 2 ^ n + m.toNat := by
  rw [BitVec.toNat_append, ← Nat.shiftLeft_add_eq_or_of_lt m.isLt, Nat.shiftLeft_eq]
  exact congrArg (· + m.toNat) (Nat.one_mul _)

theorem significand_append (m : BitVec 52) : (1#1 ++ m).toNat = 2 ^ 52 + m.toNat :=
  toNat_one_append m

/-- Only the exponent field can take a word past the bound: a subnormal number stays below it. -/
theorem unpack_within {k : Int} {bits : BitVec Format.binary64.numBits}
    {x : BitVec Format.binary64.exponentBits} {m : BitVec 52} (hxbits : unpackExponent bits = x)
    (hmbits : unpackMantissa bits = m) (hk : -1022 ≤ k) (hx : x ≠ -1#11)
    (hm : x ≠ 0#11 → (x.toNat : Int) - 1075 ≤ k ∧
      2 ^ 52 + m.toNat ≤ 2 ^ (k - ((x.toNat : Int) - 1075)).toNat) :
    WithinUnpacked k (UnpackedFloat.unpack Format.binary64 bits) := by
  subst hxbits hmbits
  unfold UnpackedFloat.unpack
  dsimp only
  generalize unpackExponent bits = x at hx hm
  rw [if_neg hx]
  by_cases hzero : x = 0#11
  · rw [if_pos hzero]
    by_cases hm0 : unpackMantissa bits = 0#52
    · rw [dif_pos hm0]
      trivial
    · rw [dif_neg hm0]
      have hsub : ((x.toNat : Int) - (Format.binary64.exponentBias + (52 : Nat)) + 1) = -1074 := by
        rw [hzero, exponentBias_eq]
        rfl
      rw [withinUnpacked_finite, hsub]
      refine ⟨by omega, ?_⟩
      calc (unpackMantissa bits).toNat ≤ 2 ^ 52 := (unpackMantissa bits).isLt.le
        _ ≤ 2 ^ (k - -1074).toNat := Nat.pow_le_pow_right (by decide) (by omega)
  · rw [if_neg hzero]
    have hexp : (x.toNat : Int) - (Format.binary64.exponentBias + (52 : Nat)) =
        (x.toNat : Int) - 1075 := by
      rw [exponentBias_eq]
      omega
    rw [withinUnpacked_finite, hexp, significand_append]
    exact hm hzero

theorem normal_bounds {m : Nat} (hpos : 0 < m) (hbits : m.log2 = 52) : 2 ^ 52 ≤ m ∧ m < 2 ^ 53 := by
  constructor
  · rw [← hbits]
    exact Nat.log2_self_le hpos.ne'
  · have hlt := @Nat.lt_log2_self m
    rwa [hbits] at hlt

/-- A number that binary64 cannot hold exactly is packed as something smaller, so the bound holds
without the number being in canonical form. -/
theorem pack_within {k : Int} {u : UnpackedFloat} (hlow : -1022 ≤ k) (hhigh : k ≤ 971)
    (h : WithinUnpacked k u) : WithinUnpacked k (Float.Model.pack u).unpack := by
  unfold Float.Model.pack Float.Model.unpack
  cases u with
  | notANumber => trivial
  | infinity s => exact h.elim
  | zero s => cases s <;> trivial
  | finite s m e hpos =>
    obtain ⟨he, hm⟩ := h
    unfold UnpackedFloat.pack
    dsimp only
    have hfits : ¬ 2 ^ 11 ≤ (e + (1023 : Nat) + (52 : Nat)).toNat + 1 := by omega
    rw [exponentBias_eq, if_neg hfits]
    by_cases hlog : m.log2 + 1 = Format.binary64.mantissaBits
    · rw [if_pos hlog]
      have hbits : m.log2 = 52 := Nat.succ.inj hlog
      obtain ⟨hfloor, hceil⟩ := normal_bounds hpos hbits
      have hexp : (BitVec.ofNat 11 (e + (1023 : Nat) + (52 : Nat)).toNat).toNat =
          (e + (1023 : Nat) + (52 : Nat)).toNat := by
        rw [BitVec.toNat_ofNat]
        exact Nat.mod_eq_of_lt (by omega)
      apply unpack_within unpackExponent_packComponents unpackMantissa_packComponents hlow
      · intro hones
        rw [hones] at hexp
        change 2047 = _ at hexp
        omega
      · intro hne
        have hne' : (e + (1023 : Nat) + (52 : Nat)).toNat ≠ 0 := by
          intro hz
          rw [hz] at hne
          exact hne rfl
        have hback : (((e + (1023 : Nat) + (52 : Nat)).toNat : Nat) : Int) - 1075 = e := by omega
        rw [hexp, hback, BitVec.toNat_ofNat]
        refine ⟨he, ?_⟩
        have hsum : 2 ^ 52 + m % 2 ^ 52 = m := by omega
        rwa [hsum]
    · -- Anything else is packed as a subnormal number.
      rw [if_neg hlog]
      apply unpack_within unpackExponent_packComponents unpackMantissa_packComponents hlow
      · decide
      · intro hne
        exact absurd rfl hne

/-- What is read back from a packed number has at most 53 bits. -/
theorem significand_lt {v : Float.Model} {s : Sign} {m : Nat} {e : Int} {hm : 0 < m}
    (h : v.unpack = .finite s m e hm) : m < 2 ^ 53 := by
  unfold Float.Model.unpack UnpackedFloat.unpack at h
  have hlt : (@unpackMantissa Format.binary64 v.toBits.toBitVec).toNat < 2 ^ 52 :=
    (@unpackMantissa Format.binary64 v.toBits.toBitVec).isLt
  dsimp only at h
  by_cases hones : @unpackExponent Format.binary64 v.toBits.toBitVec = -1#11
  · rw [if_pos hones] at h
    by_cases hzero : @unpackMantissa Format.binary64 v.toBits.toBitVec = 0#52
    · rw [if_pos hzero] at h
      cases h
    · rw [if_neg hzero] at h
      cases h
  · rw [if_neg hones] at h
    by_cases hsub : @unpackExponent Format.binary64 v.toBits.toBitVec = 0#11
    · rw [if_pos hsub] at h
      by_cases hzero : @unpackMantissa Format.binary64 v.toBits.toBitVec = 0#52
      · rw [dif_pos hzero] at h
        cases h
      · rw [dif_neg hzero] at h
        obtain ⟨-, rfl, -⟩ := UnpackedFloat.finite.inj h
        omega
    · rw [if_neg hsub] at h
      obtain ⟨-, hsum, -⟩ := UnpackedFloat.finite.inj h
      rw [significand_append] at hsum
      omega

end FireControl.Floating
