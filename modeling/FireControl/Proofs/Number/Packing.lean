import FireControl.Proofs.Number.Exceptional
import FireControl.Proofs.Number.Rounding

/-!
# Words and numbers

A floating-point number is kept as a word that is unpacked for every operation and packed again.
`pack_unpack`: packing undoes unpacking on every valid word, in which not-a-number has one pattern
alone. `unpack_pack_neg`: packing treats both signs alike.
-/

namespace FireControl.Floating

open Float.Model
open Float.Model.UnpackedFloat

variable {format : Format}

theorem toBitVec_ofBitVec (b : BitVec 1) : (Sign.ofBitVec b).toBitVec = b := by
  revert b
  decide

/-- A word is put together again from its sign, its exponent and its mantissa. -/
theorem packComponents_unpack (b : BitVec format.numBits) :
    packComponents format (.ofBitVec (unpackSign b)) (unpackExponent b) (unpackMantissa b) = b := by
  have hm := format.hm
  have he := format.he
  simp only [packComponents, toBitVec_ofBitVec, unpackSign, unpackExponent, unpackMantissa,
    BitVec.extractLsb]
  ext i hi
  grind

theorem log2_one_append (m : BitVec format.mantissaBitsWithoutImplicit) :
    (1#1 ++ m).toNat.log2 = format.mantissaBitsWithoutImplicit := by
  have hm := m.isLt
  have hpow := Nat.pow_succ (n := 2) (m := format.mantissaBitsWithoutImplicit)
  rw [toNat_one_append, Nat.log2_eq_iff (by omega)]
  omega

/-- A number below the normal ones is unpacked at the least exponent, and packed without one. -/
theorem pack_unpack_subnormal (hbits : 1 < format.exponentBits) {b : BitVec format.numBits}
    (hsub : unpackExponent b = 0#_) :
    UnpackedFloat.pack format (UnpackedFloat.unpack format b) = b := by
  have hback := packComponents_unpack b
  have htwo := Nat.pow_lt_pow_right (show 1 < 2 by decide) hbits
  have hones : unpackExponent b ≠ -1#_ := by
    intro hones
    have hnat := congrArg BitVec.toNat (hsub.symm.trans hones)
    rw [BitVec.neg_one_eq_allOnes, BitVec.toNat_allOnes, BitVec.toNat_ofNat, Nat.zero_mod] at hnat
    omega
  rw [hsub] at hback
  unfold UnpackedFloat.unpack
  dsimp only
  rw [if_neg hones, if_pos hsub]
  by_cases hzero : unpackMantissa b = 0#_
  · rw [dif_pos hzero]
    rw [hzero] at hback
    exact hback
  · rw [dif_neg hzero, hsub]
    have hbiased : (((0#_ : BitVec format.exponentBits).toNat : Int) -
        (format.exponentBias + format.mantissaBitsWithoutImplicit) + 1 + format.exponentBias +
          format.mantissaBitsWithoutImplicit).toNat = 1 := by
      rw [BitVec.toNat_ofNat, Nat.zero_mod]
      omega
    have hfits : ¬ 2 ^ format.exponentBits ≤ 1 + 1 := by omega
    have hfew : (unpackMantissa b).toNat.log2 + 1 ≠ format.mantissaBits := by
      have hne : (unpackMantissa b).toNat ≠ 0 := fun hnat => hzero (BitVec.eq_of_toNat_eq hnat)
      have hlog := (Nat.log2_lt hne).mpr (unpackMantissa b).isLt
      unfold Format.mantissaBits
      omega
    unfold UnpackedFloat.pack
    dsimp only
    rw [hbiased, if_neg hfits, if_neg hfew, BitVec.ofNat_toNat, BitVec.setWidth_eq]
    exact hback

/-- A normal number is unpacked with its leading bit, and packed without it. -/
theorem pack_unpack_normal {b : BitVec format.numBits} (hones : unpackExponent b ≠ -1#_)
    (hsub : unpackExponent b ≠ 0#_) :
    UnpackedFloat.pack format (UnpackedFloat.unpack format b) = b := by
  have hexponent := (unpackExponent b).isLt
  unfold UnpackedFloat.unpack
  dsimp only
  rw [if_neg hones, if_neg hsub]
  have hbiased : (((unpackExponent b).toNat : Int) -
      (format.exponentBias + format.mantissaBitsWithoutImplicit) + format.exponentBias +
        format.mantissaBitsWithoutImplicit).toNat = (unpackExponent b).toNat := by omega
  have hfits : ¬ 2 ^ format.exponentBits ≤ (unpackExponent b).toNat + 1 := by
    intro hle
    apply hones
    apply BitVec.eq_of_toNat_eq
    rw [BitVec.neg_one_eq_allOnes, BitVec.toNat_allOnes]
    omega
  have hall : (1#1 ++ unpackMantissa b).toNat.log2 + 1 = format.mantissaBits := by
    rw [log2_one_append]
    exact Nat.add_comm _ _
  have hrest : BitVec.ofNat format.mantissaBitsWithoutImplicit (1#1 ++ unpackMantissa b).toNat =
      unpackMantissa b := by
    apply BitVec.eq_of_toNat_eq
    rw [BitVec.toNat_ofNat, toNat_one_append, Nat.add_mod_left,
      Nat.mod_eq_of_lt (unpackMantissa b).isLt]
  unfold UnpackedFloat.pack
  dsimp only
  rw [hbiased, if_neg hfits, if_pos hall, hrest, BitVec.ofNat_toNat, BitVec.setWidth_eq]
  exact packComponents_unpack b

/-- Packing undoes unpacking. -/
theorem pack_unpack (hbits : 1 < format.exponentBits) {b : BitVec format.numBits}
    (h : format.Valid b) : UnpackedFloat.pack format (UnpackedFloat.unpack format b) = b := by
  by_cases hsub : unpackExponent b = 0#_
  · exact pack_unpack_subnormal hbits hsub
  by_cases hones : unpackExponent b = -1#_
  case neg => exact pack_unpack_normal hones hsub
  have hback := packComponents_unpack b
  rw [hones] at hback
  unfold UnpackedFloat.unpack
  dsimp only
  rw [if_pos hones]
  by_cases hzero : unpackMantissa b = 0#_
  · rw [if_pos hzero]
    rw [hzero] at hback
    exact hback
  · rw [if_neg hzero]
    exact (h.eq_packedNaN hones hzero).symm

theorem unpack_packComponents_neg (s : Sign) (x : BitVec format.exponentBits)
    (m : BitVec format.mantissaBitsWithoutImplicit) :
    UnpackedFloat.unpack format (packComponents format (-s) x m) =
      (UnpackedFloat.unpack format (packComponents format s x m)).neg := by
  unfold UnpackedFloat.unpack
  simp only [unpackExponent_packComponents, unpackMantissa_packComponents,
    unpackSign_packComponents, Sign.ofBitVec_toBitVec]
  split
  · split <;> rfl
  · split
    · split <;> rfl
    · rfl

theorem unpack_pack_neg (u : UnpackedFloat) :
    UnpackedFloat.unpack format (UnpackedFloat.pack format u.neg) =
      (UnpackedFloat.unpack format (UnpackedFloat.pack format u)).neg := by
  cases u with
  | notANumber =>
    show UnpackedFloat.unpack format (packedNaN format) = _
    rw [show UnpackedFloat.pack format .notANumber = packedNaN format from rfl, unpack_packedNaN]
    rfl
  | infinity s => exact unpack_packComponents_neg ..
  | zero s => exact unpack_packComponents_neg ..
  | finite s m e h =>
    unfold UnpackedFloat.neg UnpackedFloat.pack
    dsimp only
    split
    · exact unpack_packComponents_neg ..
    · split
      · exact unpack_packComponents_neg ..
      · exact unpack_packComponents_neg ..

end FireControl.Floating
