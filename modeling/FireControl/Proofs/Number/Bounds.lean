import FireControl.Proofs.Number.Operations

/-!
# Bounds of computed numbers

What faithful rounding says of a computation. Small integers are computed exactly (`between_ofInt`),
a result stays between representable bounds of the exact one (`Rounds.value_mem`), so that it is the
exact one if that is representable (`Rounds.value_eq`), and it differs from it by the last place of a
power of two that bounds it (`Rounds.error_le`). A number that compares as not below or not above
another is bounded by it (`over_of_not_lt`, `under_of_not_lt`), and its integer part is the floor of
its magnitude (`roundToInt_eq`).

Lower bounds hold of infinite numbers as well: they are added, divided and fitted to another format
(`over_add`, `over_div`, `over_fit`).
-/

namespace FireControl.Floating

open Float.Model (Format UnpackedFloat)
open Float.Model.UnpackedFloat

section Representable

variable {format : Format} {u : UnpackedFloat} {x low high : ℚ}

theorem representable64 {n : ℤ} (h : n.natAbs ≤ 2 ^ 53) : Representable Format.binary64 n :=
  ⟨n, 0, h, by decide, by decide, by simp⟩

theorem representable32 {n : ℤ} (h : n.natAbs ≤ 2 ^ 24) : Representable Format.binary32 n :=
  ⟨n, 0, h, by decide, by decide, by simp⟩

theorem representable_two_pow {k : ℕ} (hk : k < 971) : Representable Format.binary64 (2 ^ k) := by
  refine ⟨1, k, by decide, ?_, ?_, ?_⟩
  · change -1074 ≤ (k : ℤ)
    omega
  · change (k : ℤ) < 971
    omega
  · rw [Int.cast_one, one_mul, zpow_natCast]

/-- Finite, and between two bounds. -/
structure Between (low high : ℚ) (x : Float) : Prop where
  finite : x.isFinite = true
  lower : low ≤ toRat x
  upper : toRat x ≤ high

theorem between_of_bounds {x : Float} (hlow : Over low x.toModel.unpack)
    (hhigh : Under high x.toModel.unpack) : Between low high x := by
  have hfinite := isFinite_of_bounds hlow hhigh
  exact ⟨hfinite, (over_iff hfinite).mp hlow, (under_iff hfinite).mp hhigh⟩

theorem Between.mono {low' high' : ℚ} {x : Float} (h : Between low high x) (hlow : low' ≤ low)
    (hhigh : high ≤ high') : Between low' high' x :=
  ⟨h.finite, hlow.trans h.lower, h.upper.trans hhigh⟩

theorem Between.eq {x : Float} (h : Between low low x) : toRat x = low :=
  le_antisymm h.upper h.lower

/-- Rounding does not leave an interval whose ends are representable. -/
theorem Rounds.value_mem (h : Rounds format x u) (hlow : Representable format low)
    (hhigh : Representable format high) (hle : low ≤ x) (hge : x ≤ high) :
    u.isFinite = true ∧ low ≤ value u ∧ value u ≤ high := by
  have hover := h.lower low hlow hle
  have hunder := h.upper high hhigh hge
  have hfinite := isFinite_of_bounds hover hunder
  exact ⟨hfinite, (over_iff hfinite).mp hover, (under_iff hfinite).mp hunder⟩

theorem Rounds.between {y : Float} (h : Rounds Format.binary64 x y.toModel.unpack)
    (hlow : Representable Format.binary64 low) (hhigh : Representable Format.binary64 high)
    (hle : low ≤ x) (hge : x ≤ high) : Between low high y :=
  between_of_bounds (h.lower low hlow hle) (h.upper high hhigh hge)

/-- What is representable is not rounded. -/
theorem Rounds.value_eq (h : Rounds format x u) (hx : Representable format x) :
    u.isFinite = true ∧ value u = x := by
  obtain ⟨hfinite, hlower, hupper⟩ := h.value_mem hx hx le_rfl le_rfl
  exact ⟨hfinite, le_antisymm hupper hlower⟩

theorem Rounds.exact {y : Float} (h : Rounds Format.binary64 x y.toModel.unpack)
    (hx : Representable Format.binary64 x) : Between x x y := h.between hx hx le_rfl le_rfl

/-- The error of rounding is less than a last place of any power of two that bounds the number. -/
theorem Rounds.error_le {k : ℤ} (h : Rounds format x u) (hx : |x| ≤ 2 ^ k)
    (hlow : format.minExponent ≤ k - format.mantissaBitsWithoutImplicit)
    (hhigh : k - format.mantissaBitsWithoutImplicit < topExponent format) :
    u.isFinite = true ∧ |value u| ≤ 2 ^ k ∧
      |value u - x| ≤ 2 ^ (k - format.mantissaBitsWithoutImplicit) := by
  have hwidth := two_pow_mantissaBits format
  have hone := Nat.one_le_two_pow (n := format.mantissaBitsWithoutImplicit)
  have hbits : (2 : ℚ) ^ k = ((2 ^ format.mantissaBitsWithoutImplicit : ℕ) : ℤ) *
      2 ^ (k - format.mantissaBitsWithoutImplicit) := by
    have hplaces : (k - (k - format.mantissaBitsWithoutImplicit)).toNat =
        format.mantissaBitsWithoutImplicit := by omega
    rw [zpow_split (show k - format.mantissaBitsWithoutImplicit ≤ k by omega), hplaces]
    push_cast
    rfl
  generalize (2 : ℕ) ^ format.mantissaBitsWithoutImplicit = full at hwidth hone hbits
  generalize k - (format.mantissaBitsWithoutImplicit : ℤ) = t at hlow hhigh hbits
  have hpos := zpow_pos_two t
  have hplace : ∀ n : ℤ, n.natAbs ≤ 2 * full → Representable format (n * 2 ^ t) :=
    fun n hn => ⟨n, t, hwidth ▸ hn, hlow, hhigh, rfl⟩
  rw [hbits] at hx ⊢
  obtain ⟨hleast, hmost⟩ := abs_le.mp hx
  obtain ⟨hfinite, hlower, hupper⟩ := h.value_mem (hplace (-full) (by omega))
    (hplace full (by omega)) (by push_cast at hleast ⊢; linarith) hmost
  refine ⟨hfinite, abs_le.mpr ⟨by push_cast at hlower ⊢; linarith, hupper⟩, ?_⟩
  -- The number lies between two neighbouring places, which are both representable.
  have hfloor := Int.floor_le (x / 2 ^ t)
  have hnext := Int.lt_floor_add_one (x / 2 ^ t)
  have hfew : -(full : ℤ) ≤ ⌊x / 2 ^ t⌋ ∧ ⌊x / 2 ^ t⌋ ≤ full := by
    constructor
    · rw [Int.le_floor, le_div_iff₀ hpos, Int.cast_neg, neg_mul]
      exact hleast
    · have hle := hfloor.trans ((div_le_iff₀ hpos).mpr hmost)
      exact_mod_cast hle
  generalize ⌊x / 2 ^ t⌋ = n at hfloor hnext hfew
  rw [le_div_iff₀ hpos] at hfloor
  rw [div_lt_iff₀ hpos] at hnext
  obtain ⟨-, hbelow, habove⟩ := h.value_mem (hplace n (by omega)) (hplace (n + 1) (by omega))
    hfloor (by push_cast; exact hnext.le)
  push_cast at habove
  rw [abs_le]
  constructor <;> linarith

/-- The error of rounding in binary64. -/
theorem Rounds.near {k : ℤ} {y : Float} (h : Rounds Format.binary64 x y.toModel.unpack)
    (hx : |x| ≤ 2 ^ k) (hlow : -1022 ≤ k) (hhigh : k ≤ 1022) :
    y.isFinite = true ∧ |toRat y| ≤ 2 ^ k ∧ |toRat y - x| ≤ 2 ^ (k - 52) :=
  h.error_le hx (by change -1074 ≤ k - 52; omega) (by change k - 52 < 971; omega)

/-- The error of rounding in binary32. -/
theorem Rounds.near32 {k : ℤ} {y : Float32} (h : Rounds Format.binary32 x y.toModel.unpack)
    (hx : |x| ≤ 2 ^ k) (hlow : -126 ≤ k) (hhigh : k ≤ 126) :
    y.isFinite = true ∧ |toRat32 y| ≤ 2 ^ k ∧ |toRat32 y - x| ≤ 2 ^ (k - 23) :=
  h.error_le hx (by change -149 ≤ k - 23; omega) (by change k - 23 < 104; omega)

end Representable

/-! ## Integers -/

section Integers

theorem between_ofNat {n : ℕ} (hn : n ≤ 2 ^ 52) : Between n n (Float.ofNat n) := by
  have hsmall : n < 2 ^ 53 := lt_of_le_of_lt hn (by decide)
  have hproduct : Float.ofNat n = n.toUInt64.toFloat * Float.ofBits 0x3FF0000000000000 := by
    have hcases : n < 2 ^ 53 ∧ 0 ≤ 22 := ⟨hsmall, by decide⟩
    exact dif_pos hcases
  have hword : n.toUInt64.toNat = n := Nat.mod_eq_of_lt (lt_trans hsmall (by decide))
  have hrep : Representable Format.binary64 n := representable64 (n := n) (by omega)
  have hfactor : Between n n n.toUInt64.toFloat := by
    have hrounds : Rounds Format.binary64 _ n.toUInt64.toFloat.toModel.unpack :=
      rounds_normalize n.toUInt64.toNat 0 .positive
    rw [hword, Int.cast_natCast, zpow_zero, mul_one] at hrounds
    exact hrounds.exact hrep
  have hone : toRat (Float.ofBits 0x3FF0000000000000) = 1 := by
    have hunpack : (Float.ofBits 0x3FF0000000000000).toModel.unpack =
        .finite .positive (2 ^ 52) (-52) (by decide) := rfl
    unfold toRat
    rw [hunpack]
    norm_num [value, Sign.apply]
  have hrounds := rounds_mul hfactor.finite
    (show (Float.ofBits 0x3FF0000000000000).isFinite = true from rfl)
  rw [hfactor.eq, hone, mul_one, ← hproduct] at hrounds
  exact hrounds.exact hrep

theorem Between.neg {low high : ℚ} {x : Float} (h : Between low high x) :
    Between (-high) (-low) (-x) := by
  have hunpack := unpack_neg x
  have hvalue : toRat (-x) = -toRat x := by
    unfold toRat
    rw [hunpack, value_neg]
  refine ⟨?_, ?_, ?_⟩
  · show (-x).toModel.unpack.isFinite = true
    have hfinite : x.toModel.unpack.isFinite = true := h.finite
    rw [hunpack]
    cases hx : x.toModel.unpack <;> rw [hx] at hfinite <;> exact hfinite
  · rw [hvalue]
    exact neg_le_neg h.upper
  · rw [hvalue]
    exact neg_le_neg h.lower

/-- Integers of up to 52 bits are converted exactly. -/
theorem between_ofInt {v : ℤ} (hv : v.natAbs ≤ 2 ^ 52) : Between v v (Float.ofInt v) := by
  cases v with
  | ofNat n => exact between_ofNat hv
  | negSucc n =>
    have h := (between_ofNat (n := n + 1) hv).neg
    rw [Int.negSucc_eq]
    push_cast at h ⊢
    exact h

theorem toRat_ofInt {v : ℤ} (hv : v.natAbs ≤ 2 ^ 52) : toRat (Float.ofInt v) = v :=
  (between_ofInt hv).eq

/-- The integer part of a number has the floor of its magnitude. -/
theorem roundToInt_eq (s : Sign) (m : ℕ) (e : ℤ) :
    roundToInt s m e = s.apply ⌊(m : ℚ) * 2 ^ e⌋₊ := by
  have hvalue := decreaseExponent_value m e 0
  have hexponent : (decreaseExponent m e 0).2 ≤ 0 := by
    unfold decreaseExponent
    dsimp only
    omega
  unfold roundToInt shiftToExponent
  dsimp only
  rw [← hvalue, mantissa_shiftRight, mantissa_ofMantissaAndAccuracy]
  generalize decreaseExponent m e 0 = d at hexponent
  have hpow : (2 : ℚ) ^ d.2 = ((2 ^ (0 - d.2).toNat : ℕ) : ℚ)⁻¹ := by
    have hsplit := zpow_split hexponent
    rw [zpow_zero] at hsplit
    push_cast
    exact eq_inv_of_mul_eq_one_right hsplit.symm
  rw [hpow, ← div_eq_mul_inv, Nat.floor_div_natCast, Nat.floor_natCast]

/-- A number that is not negative has its floor as its integer part. -/
theorem wholePart_eq {x : Float} {n : ℕ} (h : Between 0 n x) (hn : n ≤ 2 ^ 53) :
    (truncate 0 18446744073709551615 x).toNat = ⌊toRat x⌋₊ := by
  have hfinite : x.toModel.unpack.isFinite = true := h.finite
  have hlower := h.lower
  have hfloor : ⌊toRat x⌋₊ ≤ n := by
    have hle := Nat.floor_le_floor h.upper
    rwa [Nat.floor_natCast] at hle
  have hint : x.toModel.unpack.toInt 0 18446744073709551615 = ⌊toRat x⌋₊ := by
    unfold toRat at hlower ⊢
    generalize x.toModel.unpack = u at hfinite hlower
    cases u with
    | infinity | notANumber => cases hfinite
    | zero s => exact (congrArg Nat.cast Nat.floor_zero).symm
    | finite s m e hm =>
      cases s with
      | positive => exact roundToInt_eq .positive m e
      | negative => exact absurd (value_negative m e hm) (not_lt.mpr hlower)
  unfold truncate
  rw [hint]
  omega

/-- A number nearer to zero than `n + 1` has an integer part within `n`. -/
theorem toInt32_natAbs_le_of_lt {x : Float} {n : ℕ} (hx : x.isFinite = true)
    (h : |toRat x| < n + 1) : (toInt32 x).natAbs ≤ n := by
  have hint : (x.toModel.unpack.toInt (-2147483648) 2147483647).natAbs ≤ n := by
    have hfinite : x.toModel.unpack.isFinite = true := hx
    unfold toRat at h
    generalize x.toModel.unpack = u at hfinite h
    cases u with
    | infinity | notANumber => cases hfinite
    | zero s => exact Nat.zero_le n
    | finite s m e hm =>
      have hnonneg : 0 ≤ (m : ℚ) * 2 ^ e := mul_nonneg (Nat.cast_nonneg m) (zpow_pos_two e).le
      have hmagnitude : |value (.finite s m e hm)| = m * 2 ^ e := by
        cases s with
        | positive => exact abs_of_nonneg hnonneg
        | negative => rw [value_negative_eq, abs_neg, abs_of_nonneg hnonneg]
      show (roundToInt s m e).natAbs ≤ n
      rw [roundToInt_eq, sign_apply_natAbs, ← Nat.lt_succ_iff, Nat.floor_lt hnonneg, ← hmagnitude]
      push_cast
      exact h
  unfold toInt32 truncate
  omega

end Integers

/-! ## Comparisons -/

section Comparisons

variable {format : Format} {u v : UnpackedFloat} {x y : Float}

theorem over_of_compare (hu : CanonicalUnpacked format u) (hv : CanonicalUnpacked format v)
    (hnumber : u.isNaN = false) (hfv : v.isFinite = true)
    (h : UnpackedFloat.compare u v ≠ some .lt) : Over (value v) u := by
  have hfinite : u.isFinite = true → Over (value v) u := by
    intro hfu
    rw [over_iff hfu]
    by_contra hlt
    apply h
    rw [compare_eq hu hv hfu hfv, compare_lt_iff_lt.mpr (not_le.mp hlt)]
  cases u with
  | notANumber => cases hnumber
  | infinity s =>
    cases s with
    | positive => rfl
    | negative => cases v <;> first | exact absurd rfl h | cases hfv
  | zero | finite => exact hfinite rfl

theorem under_of_compare (hu : CanonicalUnpacked format u) (hv : CanonicalUnpacked format v)
    (hnumber : u.isNaN = false) (hfv : v.isFinite = true)
    (h : UnpackedFloat.compare v u ≠ some .lt) : Under (value v) u := by
  have hfinite : u.isFinite = true → Under (value v) u := by
    intro hfu
    rw [under_iff hfu]
    by_contra hlt
    apply h
    rw [compare_eq hv hu hfv hfu, compare_lt_iff_lt.mpr (not_le.mp hlt)]
  cases u with
  | notANumber => cases hnumber
  | infinity s =>
    cases s with
    | negative => rfl
    | positive =>
      cases v with
      | infinity | notANumber => cases hfv
      | zero t | finite t => cases t <;> exact absurd rfl h
  | zero | finite => exact hfinite rfl

theorem over_of_not_lt (hx : x.isNaN = false) (hy : y.isFinite = true) (h : ¬ x < y) :
    Over (toRat y) x.toModel.unpack :=
  over_of_compare (canonical_float x) (canonical_float y) hx hy (mt lt_iff.mpr h)

theorem under_of_not_lt (hx : x.isNaN = false) (hy : y.isFinite = true) (h : ¬ y < x) :
    Under (toRat y) x.toModel.unpack :=
  under_of_compare (canonical_float x) (canonical_float y) hx hy (mt lt_iff.mpr h)

/-- A number below a lower bound of another one compares so. -/
theorem lt_of_over {c : ℚ} (hu : CanonicalUnpacked format u) (hv : CanonicalUnpacked format v)
    (hfu : u.isFinite = true) (h : Over c v) (hc : value u < c) :
    UnpackedFloat.compare u v = some .lt := by
  have hfinite : v.isFinite = true → UnpackedFloat.compare u v = some .lt := by
    intro hfv
    rw [compare_eq hu hv hfu hfv, compare_lt_iff_lt.mpr (hc.trans_le ((over_iff hfv).mp h))]
  cases v with
  | notANumber => cases h
  | infinity s =>
    cases h
    cases u <;> first | rfl | cases hfu
  | zero | finite => exact hfinite rfl

/-- A number does not compare below its lower bounds. -/
theorem not_lt_of_over (hu : CanonicalUnpacked format u) (hv : CanonicalUnpacked format v)
    (hfv : v.isFinite = true) (h : Over (value v) u) : UnpackedFloat.compare u v ≠ some .lt := by
  have hfinite : u.isFinite = true → UnpackedFloat.compare u v ≠ some .lt := by
    intro hfu hlt
    rw [compare_eq hu hv hfu hfv, Option.some_inj, compare_lt_iff_lt] at hlt
    exact absurd ((over_iff hfu).mp h) (not_le.mpr hlt)
  cases u with
  | notANumber => cases h
  | infinity s =>
    cases h
    cases v with
    | infinity | notANumber => cases hfv
    | zero t | finite t => cases t <;> nofun
  | zero | finite => exact hfinite rfl

end Comparisons

/-! ## Lower bounds, also of infinite numbers -/

section LowerBounds

variable {format : Format} {u v : UnpackedFloat} {a b c : ℚ}

/-- Packing leaves an infinity alone. -/
theorem over_packedInfinity (c : ℚ) :
    Over c (UnpackedFloat.unpack format (UnpackedFloat.pack format (.infinity .positive))) := by
  rw [show UnpackedFloat.pack format (.infinity .positive) = packedInfinity format .positive from rfl,
    unpack_packedInfinity]
  rfl

theorem finite_or_infinite (h : Over c u) : u.isFinite = true ∨ u = .infinity .positive := by
  cases u with
  | notANumber => cases h
  | infinity s => exact Or.inr (congrArg _ h)
  | zero | finite => exact Or.inl rfl

theorem over_add (hu : CanonicalUnpacked format u) (hv : CanonicalUnpacked format v)
    (ha : Over a u) (hb : Over b v) (h : Representable format (a + b)) :
    Over (a + b) (UnpackedFloat.unpack format
      (UnpackedFloat.pack format (UnpackedFloat.add format u v))) := by
  rcases finite_or_infinite ha with hfu | rfl
  · rcases finite_or_infinite hb with hfv | rfl
    · refine (rounds_addUnpacked hu hv hfu hfv).lower _ h ?_
      exact add_le_add ((over_iff hfu).mp ha) ((over_iff hfv).mp hb)
    · have hsum : UnpackedFloat.add format u (.infinity .positive) = .infinity .positive := by
        cases u <;> first | rfl | cases hfu
      rw [hsum]
      exact over_packedInfinity _
  · have hsum : UnpackedFloat.add format (.infinity .positive) v = .infinity .positive := by
      cases v with
      | notANumber => cases hb
      | infinity s => cases hb; rfl
      | zero | finite => rfl
    rw [hsum]
    exact over_packedInfinity _

theorem over_div (ha : Over a u) (hfv : v.isFinite = true) (hv : 0 < value v)
    (hc : c * value v ≤ a) (h : Representable format c) :
    Over c (UnpackedFloat.unpack format
      (UnpackedFloat.pack format (UnpackedFloat.div format u v))) := by
  rcases finite_or_infinite ha with hfu | rfl
  · refine (rounds_divUnpacked hfu hfv hv.ne').lower _ h ?_
    rw [le_div_iff₀ hv]
    exact hc.trans ((over_iff hfu).mp ha)
  · have hquotient : UnpackedFloat.div format (.infinity .positive) v = .infinity .positive := by
      cases v with
      | infinity | notANumber => cases hfv
      | zero s => exact absurd hv (lt_irrefl _)
      | finite s m e hm =>
        cases s with
        | positive => rfl
        | negative => exact absurd hv (value_negative m e hm).not_gt
    rw [hquotient]
    exact over_packedInfinity _

theorem over_fit (hc : Over c u) (h : Representable format c) :
    Over c (UnpackedFloat.unpack format (UnpackedFloat.pack format (fit format u))) := by
  rcases finite_or_infinite hc with hfu | rfl
  · exact (rounds_fit hfu).lower _ h ((over_iff hfu).mp hc)
  · exact over_packedInfinity _

end LowerBounds

end FireControl.Floating
