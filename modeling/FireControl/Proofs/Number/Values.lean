import FireControl.Proofs.Number.Magnitude
import FireControl.Proofs.Number.Packing

/-!
# The values of numbers

A finite number stands for a rational number, its `value`. What is read from a word is canonical: its
significand has all the bits of the format, unless its exponent is the least one
(`canonical_unpack`). Packing leaves a canonical number alone, unless its exponent is beyond the
largest one, so that it overflows (`unpack_pack_finite`), and canonical numbers compare as their
values do (`compare_eq`).
-/

namespace FireControl.Floating

open Float.Model (Format UnpackedFloat)
open Float.Model.UnpackedFloat

/-- What a finite number stands for. Nothing else stands for a value, and counts as zero. -/
def value : UnpackedFloat → ℚ
  | .finite s m e _ => s.apply m * 2 ^ e
  | _ => 0

/-- A magnitude `m * 2 ^ e` in the one form that it has in a format. -/
structure Canonical (format : Format) (m : ℕ) (e : ℤ) : Prop where
  short : m < 2 ^ format.mantissaBits
  least : format.minExponent ≤ e
  full : format.minExponent < e → 2 ^ format.mantissaBitsWithoutImplicit ≤ m

/-- A number whose magnitude is canonical, if it has one. -/
def CanonicalUnpacked (format : Format) : UnpackedFloat → Prop
  | .finite _ m e _ => Canonical format m e
  | _ => True

/-- The exponent of the largest numbers. -/
def topExponent (format : Format) : ℤ := format.minExponent + 2 ^ format.exponentBits - 3

section Values

variable {u : UnpackedFloat}

theorem apply_cast (s : Sign) (m : ℕ) : ((s.apply m : ℤ) : ℚ) = s.apply 1 * m := by
  cases s <;> simp [Sign.apply]

theorem value_neg (u : UnpackedFloat) : value u.neg = -value u := by
  cases u with
  | finite s m e h =>
    show ((-s).apply m : ℚ) * 2 ^ e = -(s.apply m * 2 ^ e)
    rw [neg_apply]
    push_cast
    ring
  | infinity | notANumber | zero => exact (neg_zero (G := ℚ)).symm

theorem canonicalUnpacked_neg {format : Format} (h : CanonicalUnpacked format u) :
    CanonicalUnpacked format u.neg := by
  cases u <;> exact h

end Values

/-! ## Powers of two -/

section Powers

variable {format : Format} {e f : ℤ}

theorem two_pow_mantissaBits (format : Format) :
    2 ^ format.mantissaBits = 2 * 2 ^ format.mantissaBitsWithoutImplicit := by
  rw [Format.mantissaBits, Nat.add_comm, Nat.pow_succ, Nat.mul_comm]

theorem zpow_pos_two (e : ℤ) : (0 : ℚ) < 2 ^ e := zpow_pos (by norm_num) e

/-- The end of what an exponent reaches is at most where the full significands of a larger exponent
begin. -/
theorem reach_le (format : Format) (h : e < f) : (2 : ℚ) ^ format.mantissaBits * 2 ^ e ≤
    2 ^ format.mantissaBitsWithoutImplicit * 2 ^ f := by
  have hbits : (2 : ℚ) ^ format.mantissaBits = 2 * 2 ^ format.mantissaBitsWithoutImplicit := by
    exact_mod_cast two_pow_mantissaBits format
  calc (2 : ℚ) ^ format.mantissaBits * 2 ^ e
      = 2 ^ format.mantissaBitsWithoutImplicit * 2 ^ (e + 1) := by
        rw [hbits, zpow_add_one₀ (by norm_num)]
        ring
    _ ≤ 2 ^ format.mantissaBitsWithoutImplicit * 2 ^ f := by
        gcongr
        · norm_num
        · omega

end Powers

/-! ## Reading and packing -/

section Packing

variable {format : Format}

theorem bias_eq (format : Format) :
    (format.exponentBias : ℤ) + format.mantissaBitsWithoutImplicit = 1 - format.minExponent := by
  have hpow : 1 ≤ 2 ^ (format.exponentBits - 1) := Nat.one_le_two_pow
  unfold Format.exponentBias Format.minExponent Format.mantissaBits
  rw [Nat.cast_sub hpow]
  push_cast
  ring

theorem minExponent_neg (hbits : 1 < format.exponentBits) : format.minExponent < 0 := by
  have hpow : 2 ≤ 2 ^ (format.exponentBits - 1) := Nat.le_self_pow (by omega) 2
  have hm := format.hm
  unfold Format.minExponent Format.mantissaBits
  zify at hpow
  omega

theorem canonical_unpack (b : BitVec format.numBits) :
    CanonicalUnpacked format (UnpackedFloat.unpack format b) := by
  have hbias := bias_eq format
  have hmantissa := (unpackMantissa b).isLt
  have hlength := two_pow_mantissaBits format
  unfold UnpackedFloat.unpack
  dsimp only
  -- Exponents of all ones and of all zeros have readings of their own.
  by_cases hones : unpackExponent b = -1#_
  · rw [if_pos hones]
    split <;> trivial
  rw [if_neg hones]
  by_cases hsub : unpackExponent b = 0#_
  · rw [if_pos hsub]
    split
    · trivial
    · have hzero : (unpackExponent b).toNat = 0 := by rw [hsub, BitVec.toNat_ofNat, Nat.zero_mod]
      refine ⟨by omega, by omega, ?_⟩
      intro hlarge
      omega
  · rw [if_neg hsub]
    have hpos : 0 < (unpackExponent b).toNat :=
      Nat.pos_of_ne_zero fun hzero => hsub (BitVec.eq_of_toNat_eq (by simpa using hzero))
    refine ⟨?_, by omega, fun _ => ?_⟩
    · rw [toNat_one_append]
      omega
    · rw [toNat_one_append]
      omega

theorem toNat_ofNat_of_lt {w n : ℕ} (h : n < 2 ^ w) : (BitVec.ofNat w n).toNat = n := by
  rw [BitVec.toNat_ofNat]
  exact Nat.mod_eq_of_lt h

theorem ofNat_ne_zero {w n : ℕ} (hpos : 0 < n) (h : n < 2 ^ w) : BitVec.ofNat w n ≠ 0#_ := by
  intro hzero
  have hnat := congrArg BitVec.toNat hzero
  rw [toNat_ofNat_of_lt h, BitVec.toNat_ofNat, Nat.zero_mod] at hnat
  omega

theorem unpack_packComponents_normal {s : Sign} {m biased : ℕ}
    (hlow : 2 ^ format.mantissaBitsWithoutImplicit ≤ m) (hhigh : m < 2 ^ format.mantissaBits)
    (hpos : 0 < biased) (hfits : biased + 1 < 2 ^ format.exponentBits) (h : 0 < m) :
    UnpackedFloat.unpack format (packComponents format s (BitVec.ofNat _ biased)
      (BitVec.ofNat _ m)) = .finite s m (biased - (1 - format.minExponent)) h := by
  have hback : (BitVec.ofNat format.exponentBits biased).toNat = biased :=
    toNat_ofNat_of_lt (by omega)
  have hones : BitVec.ofNat format.exponentBits biased ≠ -1#_ := by
    intro hones
    have hnat := congrArg BitVec.toNat hones
    rw [hback, BitVec.neg_one_eq_allOnes, BitVec.toNat_allOnes] at hnat
    omega
  have hzero : BitVec.ofNat format.exponentBits biased ≠ 0#_ := ofNat_ne_zero hpos (by omega)
  have hmantissa : (1#1 ++ BitVec.ofNat format.mantissaBitsWithoutImplicit m).toNat = m := by
    have hlength := two_pow_mantissaBits format
    rw [toNat_one_append, BitVec.toNat_ofNat, Nat.mod_eq_sub_mod hlow,
      Nat.mod_eq_of_lt (by omega)]
    omega
  unfold UnpackedFloat.unpack
  simp only [unpackExponent_packComponents, unpackMantissa_packComponents,
    unpackSign_packComponents, Sign.ofBitVec_toBitVec, if_neg hones, if_neg hzero, hmantissa, hback,
    bias_eq format]

theorem unpack_packComponents_subnormal {s : Sign} {m : ℕ}
    (hhigh : m < 2 ^ format.mantissaBitsWithoutImplicit) (h : 0 < m) :
    UnpackedFloat.unpack format (packComponents format s 0#_ (BitVec.ofNat _ m)) =
      .finite s m format.minExponent h := by
  have hback : (BitVec.ofNat format.mantissaBitsWithoutImplicit m).toNat = m :=
    toNat_ofNat_of_lt hhigh
  have hne : BitVec.ofNat format.mantissaBitsWithoutImplicit m ≠ 0#_ := ofNat_ne_zero h hhigh
  have hexponent : ((0#_ : BitVec format.exponentBits).toNat : ℤ) - (1 - format.minExponent) + 1 =
      format.minExponent := by
    rw [BitVec.toNat_ofNat, Nat.zero_mod]
    omega
  unfold UnpackedFloat.unpack
  simp only [unpackExponent_packComponents, unpackMantissa_packComponents,
    unpackSign_packComponents, Sign.ofBitVec_toBitVec, if_neg zero_ne_ones, if_true, dif_neg hne,
    hback, bias_eq format, hexponent]

/-- Packing leaves a canonical number alone, unless its exponent is too large. -/
theorem unpack_pack_finite {s : Sign} {m : ℕ} {e : ℤ} (h : 0 < m) (hc : Canonical format m e) :
    UnpackedFloat.unpack format (UnpackedFloat.pack format (.finite s m e h)) =
      if topExponent format < e then .infinity s else .finite s m e h := by
  have hbias := bias_eq format
  have hleast := hc.least
  have htop : topExponent format = format.minExponent + 2 ^ format.exponentBits - 3 := rfl
  unfold UnpackedFloat.pack
  dsimp only
  generalize hbiased : (e + format.exponentBias + format.mantissaBitsWithoutImplicit).toNat = biased
  have hvalue : (biased : ℤ) = e + 1 - format.minExponent := by omega
  by_cases hfits : biased + 1 < 2 ^ format.exponentBits
  · have hsmall : ¬ topExponent format < e := by
      zify at hfits
      omega
    rw [if_neg (Nat.not_le.mpr hfits), if_neg hsmall]
    by_cases hnormal : 2 ^ format.mantissaBitsWithoutImplicit ≤ m
    · have hlog : m.log2 + 1 = format.mantissaBits := by
        rw [Format.mantissaBits, Nat.add_comm, Nat.add_left_cancel_iff, Nat.log2_eq_iff h.ne']
        refine ⟨hnormal, ?_⟩
        rw [Nat.add_comm]
        exact hc.short
      have hexponent : (biased : ℤ) - (1 - format.minExponent) = e := by omega
      rw [if_pos hlog, unpack_packComponents_normal hnormal hc.short (by omega) hfits h]
      simp only [hexponent]
    · -- A short significand is canonical with the least exponent only.
      have hlog : m.log2 + 1 ≠ format.mantissaBits := by
        have hlt := (Nat.log2_lt h.ne').mpr (Nat.lt_of_not_le hnormal)
        rw [Format.mantissaBits]
        omega
      have hexponent : e = format.minExponent := by
        by_contra hne
        exact hnormal (hc.full (by omega))
      rw [if_neg hlog, unpack_packComponents_subnormal (Nat.lt_of_not_le hnormal) h]
      simp only [hexponent]
  · have hlarge : topExponent format < e := by
      zify at hfits
      omega
    rw [if_pos (Nat.le_of_not_lt hfits), if_pos hlarge, unpack_packedInfinity]

end Packing

/-! ## Comparing -/

section Comparing

variable {format : Format} {m n : ℕ} {e f : ℤ}

/-- A larger exponent makes a larger number, since only the least exponent has short
significands. -/
theorem magnitude_lt (hm : Canonical format m e) (hn : Canonical format n f) (h : e < f) :
    (m : ℚ) * 2 ^ e < n * 2 ^ f := by
  have hshort : (m : ℚ) < 2 ^ format.mantissaBits := by exact_mod_cast hm.short
  have hfull : (2 : ℚ) ^ format.mantissaBitsWithoutImplicit ≤ n := by
    exact_mod_cast hn.full (lt_of_le_of_lt hm.least h)
  calc (m : ℚ) * 2 ^ e < 2 ^ format.mantissaBits * 2 ^ e :=
        mul_lt_mul_of_pos_right hshort (zpow_pos_two e)
    _ ≤ 2 ^ format.mantissaBitsWithoutImplicit * 2 ^ f := reach_le format h
    _ ≤ n * 2 ^ f := mul_le_mul_of_nonneg_right hfull (zpow_pos_two f).le

theorem compare_magnitude (hm : Canonical format m e) (hn : Canonical format n f) :
    (compare e f).then (compare m n) = compare ((m : ℚ) * 2 ^ e) (n * 2 ^ f) := by
  rcases lt_trichotomy e f with hlt | rfl | hgt
  · rw [compare_lt_iff_lt.mpr hlt, compare_lt_iff_lt.mpr (magnitude_lt hm hn hlt)]
    rfl
  · rw [compare_eq_iff_eq.mpr (rfl : e = e)]
    have hpos := zpow_pos_two e
    rcases lt_trichotomy m n with hlt | rfl | hgt
    · rw [compare_lt_iff_lt.mpr hlt, compare_lt_iff_lt.mpr]
      · rfl
      · exact mul_lt_mul_of_pos_right (by exact_mod_cast hlt) hpos
    · rw [compare_eq_iff_eq.mpr (rfl : m = m), compare_eq_iff_eq.mpr rfl]
      rfl
    · rw [compare_gt_iff_gt.mpr hgt, compare_gt_iff_gt.mpr]
      · rfl
      · exact mul_lt_mul_of_pos_right (by exact_mod_cast hgt) hpos
  · rw [compare_gt_iff_gt.mpr hgt, compare_gt_iff_gt.mpr (magnitude_lt hn hm hgt)]
    rfl

theorem value_positive (m : ℕ) (e : ℤ) (h : 0 < m) : 0 < value (.finite .positive m e h) :=
  mul_pos (Int.cast_pos.mpr (Int.natCast_pos.mpr h)) (zpow_pos_two e)

theorem value_negative (m : ℕ) (e : ℤ) (h : 0 < m) : value (.finite .negative m e h) < 0 := by
  have hpos := value_positive m e h
  have hneg := value_neg (.finite .positive m e h)
  change value (.finite .negative m e h) = _ at hneg
  linarith

theorem compare_neg (a b : ℚ) : compare (-a) (-b) = compare b a := by
  have hanti : StrictAnti fun x : ℚ => -x := fun _ _ h => neg_lt_neg h
  rw [← cmp_eq_compare, ← cmp_eq_compare]
  exact hanti.cmp_map_eq a b

/-- Canonical numbers compare as their values do. -/
theorem compare_eq {u v : UnpackedFloat} (hu : CanonicalUnpacked format u)
    (hv : CanonicalUnpacked format v) (hfu : u.isFinite = true) (hfv : v.isFinite = true) :
    UnpackedFloat.compare u v = some (compare (value u) (value v)) := by
  cases u with
  | infinity | notANumber => cases hfu
  | zero s =>
    cases v with
    | infinity | notANumber => cases hfv
    | zero t => exact congrArg some (compare_eq_iff_eq.mpr rfl).symm
    | finite t n f hn =>
      cases t with
      | positive => exact congrArg some (compare_lt_iff_lt.mpr (value_positive n f hn)).symm
      | negative => exact congrArg some (compare_gt_iff_gt.mpr (value_negative n f hn)).symm
  | finite s m e hm =>
    cases v with
    | infinity | notANumber => cases hfv
    | zero t =>
      cases s with
      | positive => exact congrArg some (compare_gt_iff_gt.mpr (value_positive m e hm)).symm
      | negative => exact congrArg some (compare_lt_iff_lt.mpr (value_negative m e hm)).symm
    | finite t n f hn =>
      have hpos := value_positive
      have hneg := value_negative
      cases s <;> cases t
      case positive.positive => exact congrArg some (compare_magnitude hu hv)
      case negative.positive =>
        exact congrArg some (compare_lt_iff_lt.mpr ((hneg m e hm).trans (hpos n f hn))).symm
      case positive.negative =>
        exact congrArg some (compare_gt_iff_gt.mpr ((hneg n f hn).trans (hpos m e hm))).symm
      case negative.negative =>
        have hflip : compare (value (.finite .negative m e hm)) (value (.finite .negative n f hn)) =
            compare ((n : ℚ) * 2 ^ f) (m * 2 ^ e) := by
          simp only [value, Sign.apply, Int.cast_neg, Int.cast_natCast, neg_mul]
          exact compare_neg _ _
        rw [hflip, ← compare_magnitude hv hu]
        show some ((compare e f).then (compare m n)).swap = _
        rw [Ordering.swap_then, ← Std.OrientedCmp.eq_swap, ← Std.OrientedCmp.eq_swap]

end Comparing

end FireControl.Floating
