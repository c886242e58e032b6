import FireControl.Proofs.Number.Faithful

/-!
# Operations round faithfully

Sums, differences, products and quotients of finite numbers keep the representable bounds of the exact
result (`rounds_add` and its companions), and so does a number that is fitted to another format
(`rounds_fit`). Each is first proved of unpacked numbers, where the significand that is computed tells
enough of the exact result to round it (`rounds_of_tells`).
-/

namespace FireControl.Floating

open Float.Model (Format UnpackedFloat totalExponent)
open Float.Model.UnpackedFloat

/-! ## Unpacked numbers -/

section Arithmetic

variable {format : Format} {u v : UnpackedFloat} {m n : ℕ} {e f : ℤ}

theorem rounds_self (hu : CanonicalUnpacked format u) (hfinite : u.isFinite = true) :
    Rounds format (value u) (UnpackedFloat.unpack format (UnpackedFloat.pack format u)) := by
  refine Rounds.pack ⟨?_, ?_⟩ hfinite hu
  · intro c _ hle
    exact (over_iff hfinite).mpr hle
  · intro c _ hle
    exact (under_iff hfinite).mpr hle

theorem rounds_addUnpacked (hu : CanonicalUnpacked format u) (hv : CanonicalUnpacked format v)
    (hfu : u.isFinite = true) (hfv : v.isFinite = true) :
    Rounds format (value u + value v) (UnpackedFloat.unpack format
      (UnpackedFloat.pack format (UnpackedFloat.add format u v))) := by
  cases u with
  | infinity | notANumber => cases hfu
  | zero s =>
    rw [show value (.zero s) = 0 from rfl, zero_add]
    cases v with
    | infinity | notANumber => cases hfv
    | zero t => cases s <;> cases t <;> exact rounds_zero _
    | finite t n f hn => exact rounds_self hv rfl
  | finite s m e hm =>
    cases v with
    | infinity | notANumber => cases hfv
    | zero t =>
      rw [show value (.zero t) = 0 from rfl, add_zero]
      exact rounds_self hu rfl
    | finite t n f hn =>
      -- Both significands are brought to the smaller exponent, where they are added.
      have hleft := decreaseExponent_value m e (min e f)
      have hright := decreaseExponent_value n f (min e f)
      have hexponent : ∀ k i, min e f ≤ i → (decreaseExponent k i (min e f)).2 = min e f := by
        intro k i hi
        unfold decreaseExponent
        dsimp only
        omega
      rw [hexponent m e (min_le_left ..)] at hleft
      rw [hexponent n f (min_le_right ..)] at hright
      have hsum : value (.finite s m e hm) + value (.finite t n f hn) =
          ((s.apply (decreaseExponent m e (min e f)).1 +
            t.apply (decreaseExponent n f (min e f)).1 : ℤ) : ℚ) * 2 ^ min e f := by
        simp only [value]
        rw [Int.cast_add, apply_cast s m, apply_cast t n, mul_assoc, mul_assoc, ← hleft, ← hright,
          apply_cast s, apply_cast t]
        ring
      rw [hsum]
      exact rounds_normalize ..

theorem rounds_subUnpacked (hu : CanonicalUnpacked format u) (hv : CanonicalUnpacked format v)
    (hfu : u.isFinite = true) (hfv : v.isFinite = true) :
    Rounds format (value u - value v) (UnpackedFloat.unpack format
      (UnpackedFloat.pack format (UnpackedFloat.sub format u v))) := by
  have hneg : v.neg.isFinite = true := by
    cases v <;> exact hfv
  rw [subUnpacked_eq_add, sub_eq_add_neg, ← value_neg]
  exact rounds_addUnpacked hu (canonicalUnpacked_neg hv) hfu hneg

/-- Above the least exponent a significand has all its bits. -/
theorem Canonical.log2 (h : Canonical format m e) (hm : 0 < m) :
    format.mantissaBitsWithoutImplicit ≤ m.log2 ∨ e = format.minExponent := by
  rcases eq_or_lt_of_le h.least with heq | hlt
  · exact Or.inr heq.symm
  · exact Or.inl ((Nat.le_log2 hm.ne').mpr (h.full hlt))

theorem product_le_target (hbits : 1 < format.exponentBits) (hm : Canonical format m e)
    (hn : Canonical format n f) (hmpos : 0 < m) (hnpos : 0 < n) :
    e + f ≤ target format (m * n) (e + f) := by
  have hleast := minExponent_neg hbits
  have hlength : format.mantissaBits = 1 + format.mantissaBitsWithoutImplicit := rfl
  have hleft : m.log2 ≤ (m * n).log2 := by
    rw [Nat.log2_eq_log_two, Nat.log2_eq_log_two]
    exact Nat.log_mono_right (Nat.le_mul_of_pos_right m hnpos)
  have hright : n.log2 ≤ (m * n).log2 := by
    rw [Nat.log2_eq_log_two, Nat.log2_eq_log_two]
    exact Nat.log_mono_right (Nat.le_mul_of_pos_left n hmpos)
  rw [target_eq]
  rcases hm.log2 hmpos with hlog | he
  · omega
  · rcases hn.log2 hnpos with hlog | hf
    · omega
    · omega

theorem apply_mul (s t : Sign) : (s * t).apply 1 = s.apply 1 * t.apply 1 := by
  cases s <;> cases t <;> rfl

theorem rounds_mulUnpacked (hbits : 1 < format.exponentBits) (hu : CanonicalUnpacked format u)
    (hv : CanonicalUnpacked format v) (hfu : u.isFinite = true) (hfv : v.isFinite = true) :
    Rounds format (value u * value v) (UnpackedFloat.unpack format
      (UnpackedFloat.pack format (UnpackedFloat.mul format u v))) := by
  cases u with
  | infinity | notANumber => cases hfu
  | zero s =>
    rw [show value (.zero s) = 0 from rfl, zero_mul]
    cases v with
    | infinity | notANumber => cases hfv
    | zero | finite => exact rounds_zero _
  | finite s m e hm =>
    cases v with
    | infinity | notANumber => cases hfv
    | zero t =>
      rw [show value (.zero t) = 0 from rfl, mul_zero]
      exact rounds_zero _
    | finite t n f hn =>
      have hproduct : value (.finite s m e hm) * value (.finite t n f hn) =
          (s * t).apply 1 * ((m * n : ℕ) * 2 ^ (e + f)) := by
        simp only [value]
        rw [apply_cast s m, apply_cast t n, apply_mul, zpow_add₀ (by norm_num)]
        push_cast
        ring
      rw [hproduct]
      exact rounds_of_tells _ (.exact rfl) (product_le_target hbits hu hv hm hn)

/-- The quotient has the bits that rounding keeps. -/
theorem quotient_le_target (hm : 0 < m) (hn : 0 < n) {t : ℤ}
    (ht : t = min (e - f) (format.targetExponent (totalExponent m e - totalExponent n f))) :
    t ≤ target format (m * 2 ^ (e - f - t).toNat / n) t := by
  have hlength : format.mantissaBits = 1 + format.mantissaBitsWithoutImplicit := rfl
  have htarget : t ≤ max (m.log2 + 1 + e - (n.log2 + 1 + f) - format.mantissaBits)
      format.minExponent := ht ▸ min_le_right ..
  have hshift : t ≤ e - f := ht ▸ min_le_left ..
  rw [target_eq]
  rcases le_or_gt t format.minExponent with hsmall | hlarge
  · exact le_max_of_le_right hsmall
  · -- The dividend is shifted so far that it has these bits even if the divisor is the largest
    -- number of its length.
    have hlow : 2 ^ format.mantissaBitsWithoutImplicit ≤ m * 2 ^ (e - f - t).toNat / n := by
      rw [Nat.le_div_iff_mul_le hn]
      calc 2 ^ format.mantissaBitsWithoutImplicit * n
          ≤ 2 ^ format.mantissaBitsWithoutImplicit * 2 ^ (n.log2 + 1) :=
            Nat.mul_le_mul_left _ Nat.lt_log2_self.le
        _ = 2 ^ (format.mantissaBitsWithoutImplicit + (n.log2 + 1)) := (Nat.pow_add ..).symm
        _ ≤ 2 ^ (m.log2 + (e - f - t).toNat) := Nat.pow_le_pow_right (by decide) (by omega)
        _ = 2 ^ m.log2 * 2 ^ (e - f - t).toNat := Nat.pow_add ..
        _ ≤ m * 2 ^ (e - f - t).toNat := Nat.mul_le_mul_right _ (Nat.log2_self_le hm.ne')
    have hlog := log2_le_log2_of_pow_le hlow
    omega

theorem tells_quotient (hn : 0 < n) {t : ℤ} (ht : t ≤ e - f) :
    Tells ((m * 2 ^ e : ℚ) / (n * 2 ^ f)) (m * 2 ^ (e - f - t).toNat / n) t
      (accuracyOfFraction (m * 2 ^ (e - f - t).toNat % n) n) := by
  have hn' : (0 : ℚ) < n := by exact_mod_cast hn
  have hpos := zpow_pos_two t
  have hx : (m * 2 ^ e : ℚ) / (n * 2 ^ f) =
      ((m * 2 ^ (e - f - t).toNat : ℕ) : ℚ) / n * 2 ^ t := by
    have hsplit : (2 : ℚ) ^ e = 2 ^ (e - f) * 2 ^ f := by
      rw [← zpow_add₀ (by norm_num), sub_add_cancel]
    have hf := (zpow_pos_two f).ne'
    rw [hsplit, zpow_split ht]
    push_cast
    field_simp
  rw [hx]
  generalize m * 2 ^ (e - f - t).toNat = total
  have hdiv : (total : ℚ) = n * (total / n : ℕ) + (total % n : ℕ) := by
    exact_mod_cast (Nat.div_add_mod total n).symm
  have hmod : ((total % n : ℕ) : ℚ) < n := by exact_mod_cast Nat.mod_lt total hn
  unfold accuracyOfFraction
  by_cases hzero : total % n = 0
  · rw [if_pos hzero]
    rw [hzero, Nat.cast_zero, add_zero] at hdiv
    refine .exact ?_
    rw [hdiv, mul_div_cancel_left₀ _ hn'.ne']
  · rw [if_neg hzero]
    have hrest : (0 : ℚ) < (total % n : ℕ) := by exact_mod_cast Nat.pos_of_ne_zero hzero
    refine .inexact _ ?_ ?_
    · refine mul_lt_mul_of_pos_right ?_ hpos
      rw [lt_div_iff₀ hn']
      linarith
    · refine mul_lt_mul_of_pos_right ?_ hpos
      rw [div_lt_iff₀ hn']
      linarith

theorem apply_div (s t : Sign) : (s / t).apply 1 = s.apply 1 * t.apply 1 := by
  cases s <;> cases t <;> rfl

theorem apply_mul_self (s : Sign) : (s.apply 1 : ℚ) * s.apply 1 = 1 := by
  cases s <;> norm_num [Sign.apply]

theorem rounds_divUnpacked (hfu : u.isFinite = true) (hfv : v.isFinite = true)
    (hv : value v ≠ 0) : Rounds format (value u / value v) (UnpackedFloat.unpack format
      (UnpackedFloat.pack format (UnpackedFloat.div format u v))) := by
  cases v with
  | infinity | notANumber => cases hfv
  | zero t => exact absurd rfl hv
  | finite t n f hn =>
    cases u with
    | infinity | notANumber => cases hfu
    | zero s =>
      rw [show value (.zero s) = 0 from rfl, zero_div]
      exact rounds_zero _
    | finite s m e hm =>
      have hquotient : value (.finite s m e hm) / value (.finite t n f hn) =
          (s / t).apply 1 * ((m * 2 ^ e) / (n * 2 ^ f)) := by
        have hinverse : (t.apply 1 : ℚ)⁻¹ = t.apply 1 :=
          inv_eq_of_mul_eq_one_left (apply_mul_self t)
        simp only [value]
        rw [apply_cast s m, apply_cast t n, apply_div, mul_assoc, mul_assoc, mul_div_mul_comm,
          div_eq_mul_inv (s.apply 1 : ℚ), hinverse]
        push_cast
        ring
      have htarget : min (e - f) (format.targetExponent (totalExponent m e - totalExponent n f)) ≤
          e - f := min_le_left ..
      rw [hquotient]
      unfold UnpackedFloat.div divCore
      simp only [Nat.shiftLeft_eq]
      exact rounds_of_tells _ (tells_quotient hn htarget) (quotient_le_target hm hn rfl)

theorem rounds_fit (hfu : u.isFinite = true) : Rounds format (value u) (UnpackedFloat.unpack format
    (UnpackedFloat.pack format (fit format u))) := by
  cases u with
  | infinity | notANumber => cases hfu
  | zero s => exact rounds_zero s
  | finite s m e hm =>
    have hvalue : value (.finite s m e hm) = s.apply 1 * (m * 2 ^ e) := by
      simp only [value]
      rw [apply_cast, mul_assoc]
    rw [hvalue]
    exact rounds_round s hm e

end Arithmetic

/-! ## Numbers in both widths -/

/-- The value of a binary64 number. -/
def toRat (x : Float) : ℚ := value x.toModel.unpack

/-- The value of a binary32 number. -/
def toRat32 (x : Float32) : ℚ := value x.toModel.unpack

theorem toRat32_eq {x : Float32} {m : ℕ} {e : ℤ} {h : 0 < m} {q : ℚ}
    (hx : x.toModel.unpack = .finite .positive m e h) (hq : (m : ℚ) * 2 ^ e = q) :
    toRat32 x = q := by
  unfold toRat32
  rw [hx]
  exact hq

theorem canonical_float (x : Float) : CanonicalUnpacked Format.binary64 x.toModel.unpack :=
  canonical_unpack _

theorem canonical_float32 (x : Float32) : CanonicalUnpacked Format.binary32 x.toModel.unpack :=
  canonical_unpack _

section Arithmetic64

variable {x y : Float} (hx : x.isFinite = true) (hy : y.isFinite = true)

include hx hy

theorem rounds_add : Rounds Format.binary64 (toRat x + toRat y) (x + y).toModel.unpack :=
  rounds_addUnpacked (canonical_float x) (canonical_float y) hx hy

theorem rounds_sub : Rounds Format.binary64 (toRat x - toRat y) (x - y).toModel.unpack :=
  rounds_subUnpacked (canonical_float x) (canonical_float y) hx hy

theorem rounds_mul : Rounds Format.binary64 (toRat x * toRat y) (x * y).toModel.unpack :=
  rounds_mulUnpacked (by decide) (canonical_float x) (canonical_float y) hx hy

theorem rounds_div (h : toRat y ≠ 0) :
    Rounds Format.binary64 (toRat x / toRat y) (x / y).toModel.unpack :=
  rounds_divUnpacked hx hy h

end Arithmetic64

section Arithmetic32

variable {x y : Float32} (hx : x.isFinite = true) (hy : y.isFinite = true)

include hx hy

theorem rounds_add32 : Rounds Format.binary32 (toRat32 x + toRat32 y) (x + y).toModel.unpack :=
  rounds_addUnpacked (canonical_float32 x) (canonical_float32 y) hx hy

theorem rounds_sub32 : Rounds Format.binary32 (toRat32 x - toRat32 y) (x - y).toModel.unpack :=
  rounds_subUnpacked (canonical_float32 x) (canonical_float32 y) hx hy

theorem rounds_div32 (h : toRat32 y ≠ 0) :
    Rounds Format.binary32 (toRat32 x / toRat32 y) (x / y).toModel.unpack :=
  rounds_divUnpacked hx hy h

end Arithmetic32

end FireControl.Floating
