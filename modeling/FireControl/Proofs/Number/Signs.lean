import FireControl.Proofs.Number.Magnitude
import FireControl.Proofs.Number.Packing

/-!
# Signs of numbers

Negation changes the sign of a number and nothing else: products and quotients of an opposite number
are opposite (`neg_mul32`, `neg_div32`), so is the wider number equal to it (`widen_neg`) and, as
long as it is small, its integer part (`toInt32_neg`). `Signed` tells the sign of a number other than
zero; widening keeps it (`signed_widen`), since a binary32 number has few bits and no small exponent,
so that it does not vanish in binary64.
-/

namespace FireControl.Floating

open Float.Model
open Float.Model.UnpackedFloat

variable {format : Format}

/-! ## Negation -/

section Negation

variable {u v : UnpackedFloat} {s : Sign}

theorem roundWithAccuracy_neg (s : Sign) (m : Nat) (e : Int) (accuracy : Accuracy) :
    roundWithAccuracy format (-s) m e accuracy = (roundWithAccuracy format s m e accuracy).neg := by
  unfold roundWithAccuracy
  dsimp only
  split <;> rfl

theorem neg_mul_sign (s t : Sign) : -s * t = -(s * t) := by cases s <;> cases t <;> rfl

theorem neg_div_sign (s t : Sign) : -s / t = -(s / t) := by cases s <;> cases t <;> rfl

theorem mulUnpacked_neg (u v : UnpackedFloat) :
    UnpackedFloat.mul format u.neg v = (UnpackedFloat.mul format u v).neg := by
  cases u with
  | notANumber => rfl
  | infinity s =>
    cases v with
    | notANumber | zero => rfl
    | infinity t | finite t => exact congrArg _ (neg_mul_sign s t)
  | zero s =>
    cases v with
    | notANumber | infinity => rfl
    | zero t | finite t => exact congrArg _ (neg_mul_sign s t)
  | finite s m e h =>
    cases v with
    | notANumber => rfl
    | zero t | infinity t => exact congrArg _ (neg_mul_sign s t)
    | finite t n f h' =>
      show roundWithAccuracy format (-s * t) _ _ _ = _
      rw [neg_mul_sign]
      exact roundWithAccuracy_neg ..

theorem divUnpacked_neg (u v : UnpackedFloat) :
    UnpackedFloat.div format u.neg v = (UnpackedFloat.div format u v).neg := by
  cases u with
  | notANumber => rfl
  | infinity s =>
    cases v with
    | notANumber | infinity => rfl
    | zero t | finite t => exact congrArg _ (neg_div_sign s t)
  | zero s =>
    cases v with
    | notANumber | zero => rfl
    | infinity t | finite t => exact congrArg _ (neg_div_sign s t)
  | finite s m e h =>
    cases v with
    | notANumber => rfl
    | zero t | infinity t => exact congrArg _ (neg_div_sign s t)
    | finite t n f h' =>
      show roundWithAccuracy format (-s / t) _ _ _ = _
      rw [neg_div_sign]
      exact roundWithAccuracy_neg ..

theorem fit_neg (u : UnpackedFloat) : fit format u.neg = (fit format u).neg := by
  cases u with
  | notANumber | infinity | zero => rfl
  | finite s m e h => exact roundWithAccuracy_neg ..

theorem abs_neg_unpacked (u : UnpackedFloat) : u.neg.abs = u.abs := by cases u <;> rfl

/-- What is read back from a packed number is negated by packing its negation. -/
theorem pack_neg_unpack_pack (hbits : 1 < format.exponentBits) (u : UnpackedFloat) :
    UnpackedFloat.pack format (UnpackedFloat.unpack format (UnpackedFloat.pack format u)).neg =
      UnpackedFloat.pack format u.neg := by
  rw [← unpack_pack_neg, pack_unpack hbits valid_pack]

theorem unpack_pack_neg_unpack (hbits : 1 < format.exponentBits) {b : BitVec format.numBits}
    (h : format.Valid b) :
    UnpackedFloat.unpack format (UnpackedFloat.pack format (UnpackedFloat.unpack format b).neg) =
      (UnpackedFloat.unpack format b).neg := by
  rw [unpack_pack_neg, pack_unpack hbits h]

end Negation

section Numbers

theorem unpack_neg32 (x : Float32) : (-x).toModel.unpack = x.toModel.unpack.neg :=
  unpack_pack_neg_unpack (by decide) x.toModel.valid

theorem unpack_neg (x : Float) : (-x).toModel.unpack = x.toModel.unpack.neg :=
  unpack_pack_neg_unpack (by decide) x.toModel.valid

theorem neg_packed32 (u : UnpackedFloat) :
    -(Float32.ofModel (.pack u)) = .ofModel (.pack u.neg) := by
  have h := @pack_neg_unpack_pack Format.binary32 (by decide) u
  apply congrArg Float32.ofModel
  exact (Float32.Model.mk.injEq ..).mpr (congrArg UInt32.ofBitVec h)

theorem neg_packed (u : UnpackedFloat) : -(Float.ofModel (.pack u)) = .ofModel (.pack u.neg) := by
  have h := @pack_neg_unpack_pack Format.binary64 (by decide) u
  apply congrArg Float.ofModel
  exact (Float.Model.mk.injEq ..).mpr (congrArg UInt64.ofBitVec h)

theorem neg_mul32 (x y : Float32) : -x * y = -(x * y) := by
  show Float32.ofModel (.pack (UnpackedFloat.mul _ (-x).toModel.unpack _)) = _
  rw [unpack_neg32, mulUnpacked_neg, ← neg_packed32]
  rfl

theorem neg_div32 (x y : Float32) : -x / y = -(x / y) := by
  show Float32.ofModel (.pack (UnpackedFloat.div _ (-x).toModel.unpack _)) = _
  rw [unpack_neg32, divUnpacked_neg, ← neg_packed32]
  rfl

theorem widen_neg (x : Float32) : widen (-x) = -(widen x) := by
  unfold widen
  rw [unpack_neg32, fit_neg, neg_packed]

theorem abs_neg64 (x : Float) : (-x).abs = x.abs := by
  show Float.ofModel (.pack (-x).toModel.unpack.abs) = _
  rw [unpack_neg, abs_neg_unpacked]
  rfl

end Numbers

/-! ## Not-a-number -/

theorem not_lt_of_isNaN64 {x y : Float} (h : x.isNaN = true ∨ y.isNaN = true) : ¬ x < y := by
  intro hlt
  have hsome := isSome_compare x.toModel.unpack y.toModel.unpack
  rw [lt_iff.mp hlt] at hsome
  have hnumbers : x.toModel.unpack.isNaN = false ∧ y.toModel.unpack.isNaN = false := by
    simpa using hsome.symm
  rcases h with h | h
  · cases hnumbers.1.symm.trans h
  · cases hnumbers.2.symm.trans h

theorem isNaN_abs (x : Float) : x.abs.isNaN = x.isNaN := by
  refine (keeps_unpack_pack ..).isNaN.trans ?_
  show x.toModel.unpack.abs.isNaN = x.toModel.unpack.isNaN
  cases x.toModel.unpack <;> rfl

theorem isNaN_widen (x : Float32) : (widen x).isNaN = x.isNaN := by
  have hkeeps := keeps_unpack_pack Format.binary64 (fit Format.binary64 x.toModel.unpack)
  refine hkeeps.isNaN.trans ?_
  show _ = x.toModel.unpack.isNaN
  cases x.toModel.unpack with
  | notANumber | infinity | zero => rfl
  | finite s m e h => exact keeps_roundWithAccuracy.isNaN

theorem toInt32_of_isNaN {x : Float} (hx : x.isNaN = true) : toInt32 x = 0 := by
  have hu : x.toModel.unpack.isNaN = true := hx
  unfold toInt32 truncate
  generalize x.toModel.unpack = u at hu
  cases u with
  | notANumber => rfl
  | infinity | zero | finite => cases hu

/-! ## Signs -/

/-- A number other than zero, with its sign. -/
inductive Signed (s : Sign) : UnpackedFloat → Prop
  | infinity : Signed s (.infinity s)
  | finite (m e h) : Signed s (.finite s m e h)

section Signs

variable {u v : UnpackedFloat} {s : Sign}

/-- Not-a-number, zero, or a number with a sign. -/
theorem signed_cases (u : UnpackedFloat) :
    u.isNaN = true ∨ (∃ s, u = .zero s) ∨ ∃ s, Signed s u := by
  cases u with
  | notANumber => exact Or.inl rfl
  | zero s => exact Or.inr (Or.inl ⟨s, rfl⟩)
  | infinity s => exact Or.inr (Or.inr ⟨s, .infinity⟩)
  | finite s m e h => exact Or.inr (Or.inr ⟨s, .finite m e h⟩)

theorem Signed.neg (h : Signed s u) : Signed (-s) u.neg := by
  cases h with
  | infinity => exact .infinity
  | finite m e h => exact .finite m e h

/-- Only numbers with a negative sign are below zero. -/
theorem lt_zero_iff {x : Float} : x < 0 ↔ Signed .negative x.toModel.unpack := by
  have hzero : (0 : Float).toModel.unpack = .zero .positive := rfl
  rw [lt_iff, hzero]
  generalize x.toModel.unpack = u
  constructor
  · intro h
    cases u with
    | notANumber | zero => cases h
    | infinity s =>
      cases s with
      | negative => exact .infinity
      | positive => cases h
    | finite s m e hm =>
      cases s with
      | negative => exact .finite m e hm
      | positive => cases h
  · intro h
    cases h <;> rfl

theorem beq_zero_iff {x : Float32} : (x == 0) = true ↔ ∃ s, x.toModel.unpack = .zero s := by
  have hzero : (0 : Float32).toModel.unpack = .zero .positive := rfl
  show (UnpackedFloat.compare x.toModel.unpack (0 : Float32).toModel.unpack == some .eq) = true ↔ _
  rw [beq_iff_eq, hzero]
  generalize x.toModel.unpack = u
  constructor
  · intro h
    cases u with
    | notANumber => cases h
    | zero s => exact ⟨s, rfl⟩
    | infinity s | finite s => cases s <;> cases h
  · rintro ⟨s, rfl⟩
    rfl

/-! ## Widening -/

/-- A significand of 53 bits is not rounded. -/
theorem roundWithAccuracy_full {m : Nat} {e : Int} (hm : m.log2 = 52) (he : -1074 ≤ e)
    (hpos : 0 < m) : roundWithAccuracy Format.binary64 s m e .exact = .finite s m e hpos := by
  have htarget : (Format.binary64.targetExponent (totalExponent m e) - e).toNat = 0 := by
    rw [targetExponent_eq, totalExponent, hm]
    omega
  have hkept : (ExtendedMantissa.ofMantissaAndAccuracy m .exact >>> 0).roundedMantissa = m := rfl
  have hstay : e + (0 : Nat) = e := Int.add_zero e
  unfold roundWithAccuracy shiftToTargetExponent shiftToExponent
  simp only [htarget, hkept, hstay]
  exact dif_neg hpos.ne'

theorem log2_shiftLeft {m : Nat} (hm : 0 < m) (n : Nat) : (m <<< n).log2 = m.log2 + n := by
  have hlow := Nat.log2_self_le hm.ne'
  have hhigh := @Nat.lt_log2_self m
  have hpos : 0 < m * 2 ^ n := Nat.mul_pos hm (Nat.two_pow_pos n)
  rw [Nat.shiftLeft_eq, Nat.log2_eq_iff hpos.ne', Nat.add_right_comm, Nat.pow_add, Nat.pow_add]
  exact ⟨Nat.mul_le_mul_right _ hlow, Nat.mul_lt_mul_of_pos_right hhigh (Nat.two_pow_pos n)⟩

/-- A number of at most 24 bits becomes one of 53 bits. -/
theorem round_short {m : Nat} {e : Int} (hm : 0 < m) (hshort : m < 2 ^ 24) (he : -150 ≤ e) :
    ∃ n h, UnpackedFloat.round Format.binary64 s m e = .finite s n (e + m.log2 - 52) h ∧
      n.log2 = 52 := by
  have hlog : m.log2 < 24 := (Nat.log2_lt hm.ne').mpr hshort
  have hshift : (e - Format.binary64.targetExponent (totalExponent m e)).toNat = 52 - m.log2 := by
    rw [targetExponent_eq, totalExponent]
    omega
  have hfull : (m <<< (52 - m.log2)).log2 = 52 := by
    rw [log2_shiftLeft hm]
    omega
  have hpos : 0 < m <<< (52 - m.log2) := by
    rw [Nat.shiftLeft_eq]
    exact Nat.mul_pos hm (Nat.two_pow_pos _)
  have hexponent : e - (52 - m.log2 : Nat) = e + m.log2 - 52 := by omega
  refine ⟨_, hpos, ?_, hfull⟩
  unfold UnpackedFloat.round decreaseExponent
  simp only [hshift, hexponent]
  exact roundWithAccuracy_full hfull (by omega) hpos

/-- A normal number keeps its sign in packing, and does not vanish. -/
theorem signed_unpack_pack {n : Nat} {e : Int} {h : 0 < n} (hn : n.log2 = 52) (he : -1074 ≤ e) :
    Signed s (UnpackedFloat.unpack Format.binary64
      (UnpackedFloat.pack Format.binary64 (.finite s n e h))) := by
  have hall : n.log2 + 1 = Format.binary64.mantissaBits := by
    rw [hn]
    rfl
  unfold UnpackedFloat.pack
  dsimp only
  rw [if_pos hall, exponentBias_eq]
  generalize hbiased : (e + (1023 : Nat) + (52 : Nat)).toNat = biased
  split
  · rw [unpack_packedInfinity]
    exact .infinity
  · next hfits =>
    have hfits' : biased + 1 < 2 ^ 11 := Nat.lt_of_not_le hfits
    have hback : (BitVec.ofNat 11 biased).toNat = biased := by
      rw [BitVec.toNat_ofNat]
      exact Nat.mod_eq_of_lt (by omega)
    have hne : ∀ c : BitVec 11, c.toNat ≠ biased → BitVec.ofNat 11 biased ≠ c := by
      rintro _ hc rfl
      exact hc hback
    have hones : BitVec.ofNat 11 biased ≠ -1#11 := hne _ (by change 2047 ≠ biased; omega)
    have hzero : BitVec.ofNat 11 biased ≠ 0#11 := hne _ (by change 0 ≠ biased; omega)
    unfold UnpackedFloat.unpack
    simp only [unpackExponent_packComponents, unpackMantissa_packComponents,
      unpackSign_packComponents, Sign.ofBitVec_toBitVec, if_neg hones, if_neg hzero]
    exact .finite ..

/-- What is read from a binary32 word has at most 24 bits, and no place behind the last one of the
format. -/
theorem unpack32_short {x : Float32} {m : Nat} {e : Int} {h : 0 < m}
    (hx : x.toModel.unpack = .finite s m e h) : m < 2 ^ 24 ∧ -150 ≤ e := by
  unfold Float32.Model.unpack UnpackedFloat.unpack at hx
  have hbias : Format.binary32.exponentBias = 127 := rfl
  have hmantissa : (@unpackMantissa Format.binary32 x.toModel.toBits.toBitVec).toNat < 2 ^ 23 :=
    (@unpackMantissa Format.binary32 x.toModel.toBits.toBitVec).isLt
  dsimp only at hx
  rw [hbias] at hx
  split at hx
  · split at hx <;> cases hx
  · split at hx
    · split at hx
      · cases hx
      · obtain ⟨-, rfl, rfl⟩ := UnpackedFloat.finite.inj hx
        omega
    · obtain ⟨-, hm, rfl⟩ := UnpackedFloat.finite.inj hx
      rw [toNat_one_append] at hm
      change 2 ^ 23 + _ = m at hm
      omega

/-- Widening keeps the sign of a number other than zero. -/
theorem signed_widen {x : Float32} (h : Signed s x.toModel.unpack) :
    Signed s (widen x).toModel.unpack := by
  show Signed s (UnpackedFloat.unpack Format.binary64
    (UnpackedFloat.pack Format.binary64 (fit Format.binary64 x.toModel.unpack)))
  generalize hu : x.toModel.unpack = u at h
  cases h with
  | infinity =>
    show Signed s (UnpackedFloat.unpack Format.binary64 (packedInfinity Format.binary64 s))
    rw [unpack_packedInfinity]
    exact .infinity
  | finite m e hm =>
    obtain ⟨hshort, he⟩ := unpack32_short hu
    obtain ⟨n, hn, hround, hfull⟩ := round_short (s := s) hm hshort he
    show Signed s (UnpackedFloat.unpack Format.binary64
      (UnpackedFloat.pack Format.binary64 (UnpackedFloat.round Format.binary64 s m e)))
    rw [hround]
    exact signed_unpack_pack hfull (by omega)

/-- Widening keeps zeros. -/
theorem widen_zero {x : Float32} (h : x.toModel.unpack = .zero s) :
    (widen x).toModel.unpack = .zero s := by
  show UnpackedFloat.unpack Format.binary64
    (UnpackedFloat.pack Format.binary64 (fit Format.binary64 x.toModel.unpack)) = _
  rw [h]
  exact unpack_packedZero ..

/-! ## Whole numbers -/

/-- The integer part of the opposite number is opposite. -/
theorem toInt32_neg {k : Int} {x : Float} (hx : Within k x) (hlow : 0 ≤ k) (hhigh : k ≤ 30) :
    toInt32 (-x) = -(toInt32 x) := by
  have hbound := toInt32_natAbs_le hx hlow
  have hpow : 2 ^ k.toNat ≤ 2 ^ 30 := Nat.pow_le_pow_right (by decide) (by omega)
  have hopposite : ∀ low high, (-x).toModel.unpack.toInt low high =
      -(x.toModel.unpack.toInt low high) := by
    intro low high
    unfold Within at hx
    rw [unpack_neg]
    generalize x.toModel.unpack = u at hx
    cases u with
    | notANumber => rfl
    | infinity s => exact hx.elim
    | zero s => rfl
    | finite s m e hm => exact neg_apply s _
  unfold toInt32 truncate at hbound ⊢
  rw [hopposite]
  omega

end Signs

end FireControl.Floating
