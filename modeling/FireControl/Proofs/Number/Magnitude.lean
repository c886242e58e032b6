import FireControl.Proofs.Number.Rounding

/-!
# Magnitudes of binary64 numbers

`Within k x` bounds a number by a power of two. Each operation moves the bound by a known amount:
a sum needs one more bit (`add_within`), a product adds the exponents (`mul_within`), a quotient
subtracts them (`div_within`), and a number that compares between two others is bounded by the
larger (`between_within`). Not-a-number is within every bound: it becomes zero when a number is
turned into an integer (`toInt32_natAbs_le`).
-/

namespace FireControl.Floating

open Float.Model
open Float.Model.UnpackedFloat

/-- Not infinite, and at most `2 ^ k` in magnitude. -/
def Within (k : Int) (x : Float) : Prop := WithinUnpacked k x.toModel.unpack

def AtLeastUnpacked (k : Int) : UnpackedFloat → Prop
  | .finite _ m e _ => e ≤ k ∧ 2 ^ (k - e).toNat ≤ m
  | _ => False

/-- Finite, and at least `2 ^ k` in magnitude. -/
def AtLeast (k : Int) (x : Float) : Prop := AtLeastUnpacked k x.toModel.unpack

theorem Within.mono {k l : Int} {x : Float} (h : Within k x) (hkl : k ≤ l) : Within l x :=
  WithinUnpacked.mono h hkl

/-! ## Sums -/

theorem sign_apply_natAbs (s : Sign) (m : Nat) : (s.apply (m : Int)).natAbs = m := by
  cases s <;> simp [Sign.apply]

theorem aligned_within {k e : Int} {m : Nat} (f : Int) (he : e ≤ k)
    (hm : m ≤ 2 ^ (k - e).toNat) :
    (decreaseExponent m e (min e f)).1 ≤ 2 ^ (k - min e f).toNat := by
  have h := (decreaseExponent_within (min e f) he hm).2
  have hexp : (decreaseExponent m e (min e f)).2 = min e f := by
    simp only [decreaseExponent]
    omega
  rwa [hexp] at h

theorem double_pow {k e : Int} (h : e ≤ k) :
    2 ^ (k - e).toNat + 2 ^ (k - e).toNat = 2 ^ (k + 1 - e).toNat := by
  have hsucc : (k + 1 - e).toNat = (k - e).toNat + 1 := by omega
  rw [hsucc, Nat.pow_succ]
  omega

/-- Adding aligned significands needs one more bit. -/
theorem combine_within {k e f total : Int} {m n : Nat} (he : e ≤ k) (hf : f ≤ k)
    (hm : m ≤ 2 ^ (k - e).toNat) (hn : n ≤ 2 ^ (k - f).toNat) (hk : -1074 ≤ k)
    (htotal : total.natAbs ≤
      (decreaseExponent m e (min e f)).1 + (decreaseExponent n f (min e f)).1) :
    WithinUnpacked (k + 1) (UnpackedFloat.normalize Format.binary64 total (min e f) .positive) := by
  have hmin : min e f ≤ k := le_trans (min_le_left e f) he
  have hleft := aligned_within f he hm
  have hright := aligned_within e hf hn
  rw [min_comm f e] at hright
  refine normalize_within _ (by omega) (by omega) ?_
  rw [← double_pow hmin]
  exact le_trans htotal (Nat.add_le_add hleft hright)

theorem addUnpacked_within {k : Int} {u v : UnpackedFloat} (hu : WithinUnpacked k u)
    (hv : WithinUnpacked k v) (hk : -1074 ≤ k) :
    WithinUnpacked (k + 1) (UnpackedFloat.add Format.binary64 u v) := by
  cases u with
  | infinity s => exact hu.elim
  | notANumber => trivial
  | zero s =>
    cases v with
    | infinity t => exact hv.elim
    | notANumber => trivial
    | zero t => cases s <;> cases t <;> trivial
    | finite t n f hn => exact hv.mono (by omega)
  | finite s m e hm =>
    cases v with
    | infinity t => exact hv.elim
    | notANumber => trivial
    | zero t => exact hu.mono (by omega)
    | finite t n f hn =>
      apply combine_within hu.1 hv.1 hu.2 hv.2 hk
      refine le_trans (Int.natAbs_add_le _ _) ?_
      rw [sign_apply_natAbs, sign_apply_natAbs]
      rfl

theorem negUnpacked_within {k : Int} {u : UnpackedFloat} (hu : WithinUnpacked k u) :
    WithinUnpacked k u.neg := by
  cases u with
  | infinity s => exact hu.elim
  | finite s m e hm => exact hu
  | notANumber => trivial
  | zero s => trivial

theorem neg_apply (s : Sign) (m : Int) : (-s).apply m = -s.apply m := by
  cases s with
  | negative => exact (Int.neg_neg m).symm
  | positive => rfl

/-- Subtraction adds the negated number. -/
theorem subUnpacked_eq_add {format : Format} (u v : UnpackedFloat) :
    UnpackedFloat.sub format u v = UnpackedFloat.add format u v.neg := by
  cases u with
  | notANumber => rfl
  | infinity s =>
    cases v with
    | infinity t => cases s <;> cases t <;> rfl
    | _ => rfl
  | zero s =>
    cases v with
    | zero t => cases s <;> cases t <;> rfl
    | _ => rfl
  | finite s m e hm =>
    cases v with
    | finite t n f hn =>
      show UnpackedFloat.normalize _ (_ - t.apply _) _ _ =
        UnpackedFloat.normalize _ (_ + (-t).apply _) _ _
      rw [neg_apply, Int.sub_eq_add_neg]
    | _ => rfl

theorem add_within {k : Int} {x y : Float} (hx : Within k x) (hy : Within k y)
    (hlow : -1022 ≤ k) (hhigh : k ≤ 970) : Within (k + 1) (x + y) :=
  pack_within (by omega) (by omega) (addUnpacked_within hx hy (by omega))

theorem sub_within {k : Int} {x y : Float} (hx : Within k x) (hy : Within k y)
    (hlow : -1022 ≤ k) (hhigh : k ≤ 970) : Within (k + 1) (x - y) := by
  apply pack_within (by omega) (by omega)
  show WithinUnpacked (k + 1) (UnpackedFloat.sub Format.binary64 _ _)
  rw [subUnpacked_eq_add]
  exact addUnpacked_within hx (negUnpacked_within hy) (by omega)

/-! ## Products and quotients -/

theorem mulUnpacked_within {i j : Int} {u v : UnpackedFloat} (hu : WithinUnpacked i u)
    (hv : WithinUnpacked j v) (hlow : -1074 ≤ i + j) :
    WithinUnpacked (i + j) (UnpackedFloat.mul Format.binary64 u v) := by
  cases u with
  | infinity s => exact hu.elim
  | notANumber => trivial
  | zero s =>
    cases v with
    | infinity t => exact hv.elim
    | _ => trivial
  | finite s m e hm =>
    cases v with
    | infinity t => exact hv.elim
    | notANumber => trivial
    | zero t => trivial
    | finite t n f hn =>
      have he := hu.1
      have hf := hv.1
      apply roundWithAccuracy_within _ hlow (by omega)
      apply atMost_exact
      calc m * n ≤ 2 ^ (i - e).toNat * 2 ^ (j - f).toNat := Nat.mul_le_mul hu.2 hv.2
        _ = 2 ^ (i + j - (e + f)).toNat := by
          rw [← Nat.pow_add]
          congr 1
          omega

theorem mul_within {i j : Int} {x y : Float} (hx : Within i x) (hy : Within j y)
    (hlow : -1022 ≤ i + j) (hhigh : i + j ≤ 971) : Within (i + j) (x * y) :=
  pack_within hlow hhigh (mulUnpacked_within hx hy (by omega))

theorem log2_le_log2_of_pow_le {m n : Nat} (h : 2 ^ n ≤ m) : n ≤ m.log2 := by
  have hm : m ≠ 0 := (lt_of_lt_of_le (Nat.two_pow_pos n) h).ne'
  exact (Nat.le_log2 hm).mpr h

theorem quotient_atMost {bound m n : Nat} (h : m ≤ bound * n) :
    AtMost bound (m / n) (accuracyOfFraction (m % n) n) := by
  have hle : m / n ≤ bound := Nat.div_le_of_le_mul (by rwa [Nat.mul_comm])
  rcases Nat.lt_or_eq_of_le hle with hlt | heq
  · exact Or.inl hlt
  · -- A quotient that reaches the bound has no remainder.
    refine Or.inr ⟨heq, if_pos ?_⟩
    have hdiv := Nat.div_add_mod m n
    rw [heq, Nat.mul_comm] at hdiv
    omega

theorem divUnpacked_within {i j : Int} {u v : UnpackedFloat} (hu : WithinUnpacked i u)
    (hv : AtLeastUnpacked j v) (hlow : -1074 ≤ i - j) :
    WithinUnpacked (i - j) (UnpackedFloat.div Format.binary64 u v) := by
  cases v with
  | infinity t => exact hv.elim
  | notANumber => exact hv.elim
  | zero t => exact hv.elim
  | finite t n f hn =>
    cases u with
    | infinity s => exact hu.elim
    | notANumber => trivial
    | zero s => trivial
    | finite s m e hm =>
      obtain ⟨he, hm'⟩ := hu
      obtain ⟨hf, hn'⟩ := hv
      have hlogm := log2_le_of_le hm'
      have hlogn := log2_le_log2_of_pow_le hn'
      unfold UnpackedFloat.div divCore
      dsimp only
      generalize htarget : min (e - f) (Format.binary64.targetExponent
        (totalExponent m e - totalExponent n f)) = target
      have hleft : target ≤ e - f := by omega
      have hright : target ≤ i - j := by
        rw [targetExponent_eq, totalExponent, totalExponent] at htarget
        omega
      apply roundWithAccuracy_within _ hlow hright
      apply quotient_atMost
      rw [Nat.shiftLeft_eq]
      calc m * 2 ^ (e - f - target).toNat
          ≤ 2 ^ (i - e).toNat * 2 ^ (e - f - target).toNat := Nat.mul_le_mul_right _ hm'
        _ = 2 ^ (i - j - target).toNat * 2 ^ (j - f).toNat := by
          rw [← Nat.pow_add, ← Nat.pow_add]
          congr 1
          omega
        _ ≤ 2 ^ (i - j - target).toNat * n := Nat.mul_le_mul_left _ hn'

theorem div_within {i j : Int} {x y : Float} (hx : Within i x) (hy : AtLeast j y)
    (hlow : -1022 ≤ i - j) (hhigh : i - j ≤ 971) : Within (i - j) (x / y) :=
  pack_within hlow hhigh (divUnpacked_within hx hy (by omega))

/-! ## Signs and integers -/

theorem neg_within {k : Int} {x : Float} (hx : Within k x) (hlow : -1022 ≤ k) (hhigh : k ≤ 971) :
    Within k (-x) := pack_within hlow hhigh (negUnpacked_within hx)

theorem one_within : Within 0 (Float.ofBits 0x3FF0000000000000) := by
  have hunpack : (Float.ofBits 0x3FF0000000000000).toModel.unpack =
      .finite .positive (2 ^ 52) (-52) (by decide) := rfl
  unfold Within
  rw [hunpack]
  exact ⟨by decide, by decide⟩

theorem ofNat_within {k : Int} {n : Nat} (hn : n ≤ 2 ^ k.toNat) (hlow : 0 ≤ k) (hhigh : k ≤ 52) :
    Within k (Float.ofNat n) := by
  have hsmall : n < 2 ^ 53 :=
    calc n ≤ 2 ^ k.toNat := hn
      _ ≤ 2 ^ 52 := Nat.pow_le_pow_right (by decide) (by omega)
      _ < 2 ^ 53 := by decide
  have hproduct : Float.ofNat n = n.toUInt64.toFloat * Float.ofBits 0x3FF0000000000000 := by
    have hcases : n < 2 ^ 53 ∧ 0 ≤ 22 := ⟨hsmall, by decide⟩
    exact dif_pos hcases
  have hfactor : Within k n.toUInt64.toFloat := by
    refine pack_within (by omega) (by omega) ?_
    refine normalize_within _ (by omega) hlow ?_
    have hword : n.toUInt64.toNat = n := Nat.mod_eq_of_lt (lt_trans hsmall (by decide))
    rw [hword]
    simpa using hn
  rw [hproduct]
  have h := mul_within hfactor one_within (by omega) (by omega)
  rwa [Int.add_zero] at h

theorem ofInt_within {k v : Int} (hv : v.natAbs ≤ 2 ^ k.toNat) (hlow : 0 ≤ k) (hhigh : k ≤ 52) :
    Within k (Float.ofInt v) := by
  cases v with
  | ofNat n => exact ofNat_within hv hlow hhigh
  | negSucc n => exact neg_within (ofNat_within hv hlow hhigh) (by omega) (by omega)

theorem toInt32_natAbs_le {k : Int} {x : Float} (hx : Within k x) (hk : 0 ≤ k) :
    (toInt32 x).natAbs ≤ 2 ^ k.toNat := by
  have hint : (x.toModel.unpack.toInt (-2147483648) 2147483647).natAbs ≤ 2 ^ k.toNat := by
    unfold Within at hx
    generalize x.toModel.unpack = u at hx
    cases u with
    | infinity s => exact hx.elim
    | notANumber => exact Nat.zero_le _
    | zero s => exact Nat.zero_le _
    | finite s m e hm =>
      obtain ⟨he, hm'⟩ := hx
      unfold UnpackedFloat.toInt roundToInt shiftToExponent
      dsimp only
      rw [sign_apply_natAbs, mantissa_shiftRight]
      obtain ⟨he', hbound⟩ := decreaseExponent_within 0 he hm'
      generalize decreaseExponent m e 0 = d at he' hbound
      refine Nat.div_le_of_le_mul (le_trans hbound ?_)
      rw [← Nat.pow_add]
      exact Nat.pow_le_pow_right (by decide) (by omega)
  unfold toInt32 truncate
  have hone : 1 ≤ 2 ^ k.toNat := Nat.one_le_two_pow
  omega

/-! ## Comparisons -/

theorem lt_iff {x y : Float} :
    x < y ↔ x.toModel.unpack.compare y.toModel.unpack = some .lt := by
  show decide ((x.toModel.unpack.compare y.toModel.unpack == some .lt) = true) = true ↔ _
  rw [decide_eq_true_iff, beq_iff_eq]

theorem le_of_not_compare_lt {m n : Nat} {e f : Int}
    (h : ¬ (compare f e).then (compare n m) = .lt) : e < f ∨ (e = f ∧ m ≤ n) := by
  rcases lt_trichotomy e f with hlt | heq | hgt
  · exact Or.inl hlt
  · refine Or.inr ⟨heq, Nat.le_of_not_lt ?_⟩
    intro hnm
    apply h
    rw [heq, compare_eq_iff_eq.mpr rfl]
    exact compare_lt_iff_lt.mpr hnm
  · refine absurd ?_ h
    rw [compare_lt_iff_lt.mpr hgt]
    rfl

/-- A number with at most 53 bits that is not above a normal one is bounded as that one is. -/
theorem within_of_le_normal {k e f : Int} {m n : Nat} (hm : m < 2 ^ 53) (hnormal : 2 ^ 52 ≤ n)
    (hf : f ≤ k) (hn : n ≤ 2 ^ (k - f).toNat) (h : e < f ∨ (e = f ∧ m ≤ n)) :
    e ≤ k ∧ m ≤ 2 ^ (k - e).toNat := by
  rcases h with hlt | ⟨rfl, hle⟩
  · refine ⟨by omega, ?_⟩
    calc m ≤ 2 ^ 52 * 2 := by omega
      _ ≤ 2 ^ (k - f).toNat * 2 ^ (f - e).toNat := by
        apply Nat.mul_le_mul (le_trans hnormal hn)
        exact Nat.pow_le_pow_right (show 0 < 2 by decide) (show 1 ≤ (f - e).toNat by omega)
      _ = 2 ^ (k - e).toNat := by
        rw [← Nat.pow_add]
        congr 1
        omega
  · exact ⟨hf, le_trans hle hn⟩

/-- A number between a bound below that is not negative and a normal bound above. -/
theorem between_within {k : Int} {low high x : Float} (hlow : Within k low)
    {n : Nat} {f : Int} (hn : 0 < n) (hnormal : 2 ^ 52 ≤ n)
    (hunpack : high.toModel.unpack = .finite .positive n f hn) (hhigh : Within k high)
    (hnegative : ∀ m e hm, (UnpackedFloat.finite .negative m e hm).compare low.toModel.unpack =
      some .lt)
    (habove : ¬ x < low) (hbelow : ¬ high < x) : Within k x := by
  rw [lt_iff] at habove hbelow
  rw [hunpack] at hbelow
  unfold Within at hlow hhigh ⊢
  rw [hunpack] at hhigh
  cases hx : x.toModel.unpack with
  | notANumber => trivial
  | zero s => trivial
  | infinity s =>
    rw [hx] at habove hbelow
    cases s with
    | positive => exact hbelow rfl
    | negative =>
      cases hl : low.toModel.unpack with
      | infinity t => rw [hl] at hlow; exact hlow
      | notANumber =>
        have hfalse := hnegative n f hn
        rw [hl] at hfalse
        cases hfalse
      | zero t => rw [hl] at habove; exact habove rfl
      | finite t m e hm => rw [hl] at habove; cases t <;> exact habove rfl
  | finite s m e hm =>
    rw [hx] at habove hbelow
    cases s with
    | negative => exact (habove (hnegative m e hm)).elim
    | positive =>
      have hle := le_of_not_compare_lt fun h => hbelow (congrArg some h)
      exact within_of_le_normal (significand_lt hx) hnormal hhigh.1 hhigh.2 hle

end FireControl.Floating
