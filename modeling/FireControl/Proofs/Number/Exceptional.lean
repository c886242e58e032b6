import FireControl.Number.Floating
import Mathlib

/-!
# Infinities and not-a-number

`Keeps u v` says what rounding and packing leave of a number: its sign, and what it is unless it is
finite, which may also vanish or overflow (`keeps_unpack_pack`). So whatever is said about a result
without its magnitude is proved on unpacked numbers and holds of the packed ones:

* `Spoiled s`: not-a-number, or infinite with sign `s`. A sum stays so (`add_spoiled`), and the
  difference of two such numbers is not a number (`isNaN_sub_of_spoiled`).
* `NonNegative`: a number that is not below zero, as squares are (`mul_self_nonNegative`).

`le_of_not_lt` is the comparison of two numbers; a comparison with not-a-number always fails. An
operation is `Strict` if not-a-number spreads through it, as it does through all four (`isNaN_add`
and its companions in binary64).

The lemmas on packed words that these proofs begin with, such as `unpack_packedNaN`, are imported by
no part of Mathlib that is smaller than the whole.
-/

namespace FireControl.Floating

open Float.Model (Format UnpackedFloat)
open Float.Model.UnpackedFloat

/-- What rounding and packing leave of a number. -/
inductive Keeps : UnpackedFloat → UnpackedFloat → Prop
  | notANumber : Keeps .notANumber .notANumber
  | infinity (s) : Keeps (.infinity s) (.infinity s)
  | zero (s) : Keeps (.zero s) (.zero s)
  | rounded (s m e h n f h') : Keeps (.finite s m e h) (.finite s n f h')
  | vanished (s m e h) : Keeps (.finite s m e h) (.zero s)
  | overflowed (s m e h) : Keeps (.finite s m e h) (.infinity s)

/-! ## Rounding and packing -/

/-- Rounding keeps the sign, and a number may vanish in it; it is packing that overflows. -/
theorem keeps_roundWithAccuracy {format : Format} {s : Sign} {m : Nat} {e : Int}
    {accuracy : Accuracy} :
    Keeps (.finite s 1 0 Nat.one_pos) (roundWithAccuracy format s m e accuracy) := by
  unfold roundWithAccuracy
  dsimp only
  split
  · exact .vanished ..
  · exact .rounded ..

section Packing

variable {format : Format} {s : Sign} {x : BitVec format.exponentBits}
  {m : BitVec format.mantissaBitsWithoutImplicit}

theorem unpack_packedInfinity :
    UnpackedFloat.unpack format (packedInfinity format s) = .infinity s := by
  simp [UnpackedFloat.unpack, packedInfinity]

theorem zero_ne_ones : 0#_ ≠ (-1#_ : BitVec format.exponentBits) := by
  simp [Nat.ne_of_gt format.he]

/-- All exponents but the largest are those of finite numbers. -/
theorem keeps_of_ne_ones {n : Nat} {e : Int} {h : 0 < n} (hx : x ≠ -1#_) :
    Keeps (.finite s n e h) (UnpackedFloat.unpack format (packComponents format s x m)) := by
  unfold UnpackedFloat.unpack
  simp only [unpackExponent_packComponents, unpackMantissa_packComponents,
    unpackSign_packComponents, Sign.ofBitVec_toBitVec, if_neg hx]
  by_cases hzero : x = 0#_
  · rw [if_pos hzero]
    by_cases hm : m = 0#_
    · rw [dif_pos hm]
      exact .vanished ..
    · rw [dif_neg hm]
      exact .rounded ..
  · rw [if_neg hzero]
    exact .rounded ..

end Packing

theorem keeps_unpack_pack (format : Format) (u : UnpackedFloat) :
    Keeps u (UnpackedFloat.unpack format (UnpackedFloat.pack format u)) := by
  fun_cases UnpackedFloat.pack format u with
  | case1 =>
    rw [unpack_packedNaN]
    exact .notANumber
  | case2 s =>
    rw [unpack_packedInfinity]
    exact .infinity s
  | case3 s =>
    rw [unpack_packedZero]
    exact .zero s
  | case4 s m e h =>
    rw [unpack_packedInfinity]
    exact .overflowed ..
  | case5 s m e h bits biased hfits hnormal =>
    apply keeps_of_ne_ones
    intro hones
    have hnat := congrArg BitVec.toNat hones
    rw [BitVec.toNat_ofNat, Nat.mod_eq_of_lt (by omega), BitVec.neg_one_eq_allOnes,
      BitVec.toNat_allOnes] at hnat
    omega
  | case6 s m e h => exact keeps_of_ne_ones zero_ne_ones

/-! ## What is said without magnitudes -/

/-- Not-a-number, or infinite with the given sign. -/
inductive Spoiled (s : Sign) : UnpackedFloat → Prop
  | notANumber : Spoiled s .notANumber
  | infinity : Spoiled s (.infinity s)

/-- A number that is not below zero. -/
inductive NonNegative : UnpackedFloat → Prop
  | zero (s) : NonNegative (.zero s)
  | finite (m e h) : NonNegative (.finite .positive m e h)
  | infinity : NonNegative (.infinity .positive)

/-- A finite number above zero. -/
inductive Positive : UnpackedFloat → Prop
  | finite (m e h) : Positive (.finite .positive m e h)

section Kinds

variable {s : Sign} {u v : UnpackedFloat}

theorem Keeps.isNaN (h : Keeps u v) : v.isNaN = u.isNaN := by cases h <;> rfl

theorem Keeps.eq_infinity (h : Keeps (.infinity s) v) : v = .infinity s := by
  cases h
  rfl

theorem Keeps.eq_zero (h : Keeps (.zero s) v) : v = .zero s := by
  cases h
  rfl

theorem Keeps.spoiled (h : Keeps u v) (hu : Spoiled s u) : Spoiled s v := by
  cases hu <;> cases h <;> constructor

theorem Keeps.nonNegative (h : Keeps u v) (hu : NonNegative u) : NonNegative v := by
  cases hu <;> cases h <;> constructor

theorem Spoiled.neg (h : Spoiled s u) : Spoiled (-s) u.neg := by cases h <;> constructor

theorem NonNegative.isNaN (h : NonNegative u) : u.isNaN = false := by cases h <;> rfl

theorem exists_spoiled_iff : (∃ s, Spoiled s u) ↔ u.isFinite = false := by
  constructor
  · rintro ⟨s, h⟩
    cases h <;> rfl
  · intro h
    cases u with
    | notANumber => exact ⟨.positive, .notANumber⟩
    | infinity s => exact ⟨s, .infinity⟩
    | zero | finite => cases h

theorem forall_spoiled_iff : (∀ s, Spoiled s u) ↔ u.isNaN = true := by
  constructor
  · intro h
    -- An infinity has one of the signs alone.
    cases h .positive with
    | notANumber => rfl
    | infinity => cases h .negative
  · intro h s
    cases u with
    | notANumber => exact .notANumber
    | infinity | zero | finite => cases h

end Kinds

/-! ## Arithmetic -/

section Arithmetic

variable {format : Format} {s : Sign} {u v : UnpackedFloat}

theorem isNaN_normalize {m e : Int} : (UnpackedFloat.normalize format m e s).isNaN = false := by
  unfold UnpackedFloat.normalize
  split
  · exact keeps_roundWithAccuracy.isNaN
  · rfl
  · exact keeps_roundWithAccuracy.isNaN

theorem normalize_nonNegative {m e : Int} (hm : 0 ≤ m) :
    NonNegative (UnpackedFloat.normalize format m e s) := by
  unfold UnpackedFloat.normalize
  split
  case h_1 hlt => exact absurd (Int.compare_eq_lt.mp hlt) (Int.not_lt.mpr hm)
  case h_2 => exact .zero s
  case h_3 => exact keeps_roundWithAccuracy.nonNegative (.finite 1 0 Nat.one_pos)

theorem isNaN_add_of_isFinite (hu : u.isNaN = false) (hv : v.isFinite = true) :
    (UnpackedFloat.add format u v).isNaN = false := by
  cases u with
  | notANumber => cases hu
  | infinity s => cases v <;> first | rfl | cases hv
  | zero s =>
    cases v with
    | infinity | notANumber => cases hv
    | zero t => cases s <;> cases t <;> rfl
    | finite t m e h => rfl
  | finite s m e h =>
    cases v with
    | infinity | notANumber => cases hv
    | zero t => rfl
    | finite t m e h => exact isNaN_normalize

theorem add_spoiled (h : Spoiled s u ∨ Spoiled s v) :
    Spoiled s (UnpackedFloat.add format u v) := by
  rcases h with hu | hv
  · cases hu with
    | notANumber => cases v <;> exact .notANumber
    | infinity =>
      cases v with
      | notANumber => exact .notANumber
      | infinity t => cases s <;> cases t <;> constructor
      | zero | finite => exact .infinity
  · cases hv with
    | notANumber => cases u <;> exact .notANumber
    | infinity =>
      cases u with
      | notANumber => exact .notANumber
      | infinity t => cases s <;> cases t <;> constructor
      | zero | finite => exact .infinity

theorem add_nonNegative (hu : NonNegative u) (hv : NonNegative v) :
    NonNegative (UnpackedFloat.add format u v) := by
  cases hu with
  | zero s =>
    cases hv with
    | zero t => cases s <;> cases t <;> exact .zero _
    | finite m e h => exact .finite m e h
    | infinity => exact .infinity
  | finite m e h =>
    cases hv with
    | zero t => exact .finite m e h
    | finite n f h' =>
      apply normalize_nonNegative
      exact Int.add_nonneg (Int.natCast_nonneg _) (Int.natCast_nonneg _)
    | infinity => exact .infinity
  | infinity => cases hv <;> exact .infinity

theorem isNaN_sub_of_isFinite (hu : u.isFinite = true) (hv : v.isNaN = false) :
    (UnpackedFloat.sub format u v).isNaN = false := by
  cases u with
  | infinity | notANumber => cases hu
  | zero s =>
    cases v with
    | notANumber => cases hv
    | zero t => cases s <;> cases t <;> rfl
    | finite | infinity => rfl
  | finite s m e h =>
    cases v with
    | notANumber => cases hv
    | finite t m e h => exact isNaN_normalize
    | zero | infinity => rfl

/-- Infinities of one sign cancel to nothing that is a number. -/
theorem isNaN_sub_of_spoiled (hu : Spoiled s u) (hv : Spoiled s v) :
    (UnpackedFloat.sub format u v).isNaN = true := by
  cases hu <;> cases hv <;> cases s <;> rfl

/-- So do infinities of opposite signs in a sum. -/
theorem isNaN_add_of_spoiled (hu : Spoiled (-s) u) (hv : Spoiled s v) :
    (UnpackedFloat.add format u v).isNaN = true := by
  cases hu <;> cases hv <;> cases s <;> rfl

theorem isNaN_mul_self (hu : u.isNaN = true) : (UnpackedFloat.mul format u u).isNaN = true := by
  cases u <;> first | rfl | cases hu

theorem mul_self_nonNegative (hu : u.isNaN = false) :
    NonNegative (UnpackedFloat.mul format u u) := by
  cases u with
  | notANumber => cases hu
  | infinity s => cases s <;> exact .infinity
  | zero s => exact .zero _
  | finite s m e h =>
    have hsign : s * s = .positive := by cases s <;> rfl
    change NonNegative (roundWithAccuracy format (s * s) _ _ _)
    rw [hsign]
    exact keeps_roundWithAccuracy.nonNegative (.finite ..)

theorem isNaN_div (hv : Positive v) : (UnpackedFloat.div format u v).isNaN = u.isNaN := by
  cases hv
  cases u with
  | notANumber | zero | infinity => rfl
  | finite => exact keeps_roundWithAccuracy.isNaN

theorem div_spoiled (hu : Spoiled s u) (hv : Positive v) :
    Spoiled s (UnpackedFloat.div format u v) := by
  cases hv
  cases hu with
  | notANumber => exact .notANumber
  | infinity => cases s <;> exact .infinity

end Arithmetic

section Binary32

variable (x y : Float32)

theorem keeps_add : Keeps (UnpackedFloat.add Format.binary32 x.toModel.unpack y.toModel.unpack)
    (x + y).toModel.unpack := keeps_unpack_pack ..

theorem keeps_sub : Keeps (UnpackedFloat.sub Format.binary32 x.toModel.unpack y.toModel.unpack)
    (x - y).toModel.unpack := keeps_unpack_pack ..

theorem keeps_mul : Keeps (UnpackedFloat.mul Format.binary32 x.toModel.unpack y.toModel.unpack)
    (x * y).toModel.unpack := keeps_unpack_pack ..

theorem keeps_div : Keeps (UnpackedFloat.div Format.binary32 x.toModel.unpack y.toModel.unpack)
    (x / y).toModel.unpack := keeps_unpack_pack ..

end Binary32

section Binary64

variable {format : Format}

/-- An operation that gives a number only for numbers. -/
def Strict (op : UnpackedFloat → UnpackedFloat → UnpackedFloat) : Prop :=
  ∀ u v, u.isNaN = true ∨ v.isNaN = true → (op u v).isNaN = true

theorem strict_add : Strict (UnpackedFloat.add format) := by
  rintro u v (h | h) <;> cases u <;> cases v <;> first | rfl | cases h

theorem strict_sub : Strict (UnpackedFloat.sub format) := by
  rintro u v (h | h) <;> cases u <;> cases v <;> first | rfl | cases h

theorem strict_mul : Strict (UnpackedFloat.mul format) := by
  rintro u v (h | h) <;> cases u <;> cases v <;> first | rfl | cases h

theorem strict_div : Strict (UnpackedFloat.div format) := by
  rintro u v (h | h) <;> cases u <;> cases v <;> first | rfl | cases h

theorem Strict.packed {op : UnpackedFloat → UnpackedFloat → UnpackedFloat} (hop : Strict op)
    {x y : Float} (h : x.isNaN = true ∨ y.isNaN = true) :
    (Float.ofModel (.pack (op x.toModel.unpack y.toModel.unpack))).isNaN = true :=
  (keeps_unpack_pack ..).isNaN.trans (hop _ _ h)

variable {x y : Float}

theorem isNaN_add (h : x.isNaN = true ∨ y.isNaN = true) : (x + y).isNaN = true :=
  strict_add.packed h

theorem isNaN_sub (h : x.isNaN = true ∨ y.isNaN = true) : (x - y).isNaN = true :=
  strict_sub.packed h

theorem isNaN_mul (h : x.isNaN = true ∨ y.isNaN = true) : (x * y).isNaN = true :=
  strict_mul.packed h

theorem isNaN_div64 (h : x.isNaN = true ∨ y.isNaN = true) : (x / y).isNaN = true :=
  strict_div.packed h

end Binary64

/-! ## Comparisons -/

theorem compare_swap (u v : UnpackedFloat) :
    UnpackedFloat.compare v u = (UnpackedFloat.compare u v).map Ordering.swap := by
  cases u with
  | notANumber => cases v <;> rfl
  | infinity s =>
    cases v with
    | infinity t => cases s <;> cases t <;> rfl
    | notANumber | zero | finite => cases s <;> rfl
  | zero s =>
    cases v with
    | infinity t | finite t => cases t <;> rfl
    | zero | notANumber => rfl
  | finite s m e h =>
    cases v with
    | infinity t => cases s <;> cases t <;> rfl
    | zero | notANumber => cases s <;> rfl
    | finite t n f h' =>
      cases s <;> cases t
      case negative.positive | positive.negative => rfl
      case positive.positive | negative.negative =>
        simp only [UnpackedFloat.compare, Option.map_some, Ordering.swap_then,
          ← Std.OrientedCmp.eq_swap]

/-- Two numbers compare somehow; not-a-number does not compare. -/
theorem isSome_compare (u v : UnpackedFloat) :
    (UnpackedFloat.compare u v).isSome = (!u.isNaN && !v.isNaN) := by
  cases u with
  | notANumber => cases v <;> rfl
  | infinity s | finite s =>
    cases v with
    | infinity t | finite t => cases s <;> cases t <;> rfl
    | zero | notANumber => cases s <;> rfl
  | zero s =>
    cases v with
    | infinity t | finite t => cases t <;> rfl
    | zero | notANumber => rfl

variable {x y : Float32}

theorem lt_iff_compare :
    x < y ↔ x.toModel.unpack.compare y.toModel.unpack = some .lt := by
  change decide ((x.toModel.unpack.compare y.toModel.unpack == some .lt) = true) = true ↔ _
  rw [decide_eq_true_iff, beq_iff_eq]

theorem not_lt_of_isNaN (h : y.isNaN = true) : ¬ x < y := by
  rw [lt_iff_compare]
  intro hlt
  have hsome := isSome_compare x.toModel.unpack y.toModel.unpack
  rw [hlt, show y.toModel.unpack.isNaN = true from h] at hsome
  simp at hsome

theorem le_of_not_lt (hx : x.isNaN = false) (hy : y.isNaN = false) (h : ¬ x < y) : y ≤ x := by
  have hsome : (x.toModel.unpack.compare y.toModel.unpack).isSome = true := by
    rw [isSome_compare, show x.toModel.unpack.isNaN = false from hx,
      show y.toModel.unpack.isNaN = false from hy]
    rfl
  obtain ⟨o, ho⟩ := Option.isSome_iff_exists.mp hsome
  rw [lt_iff_compare, ho] at h
  change decide ((y.toModel.unpack.compare x.toModel.unpack).any (·.isLE) = true) = true
  rw [decide_eq_true_iff, compare_swap, ho]
  cases o with
  | lt => exact absurd rfl h
  | eq | gt => rfl

end FireControl.Floating
