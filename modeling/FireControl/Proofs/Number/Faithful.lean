import FireControl.Proofs.Number.Signs
import FireControl.Proofs.Number.Values

/-!
# Faithful rounding

A bound that a format can represent is kept by rounding: `Rounds format x u` says that a number is on
the same side of every such bound as the rational number `x` that it stands for.

The proof follows the shifts of the rounding: whole multiples of the last place that is kept are
kept by the shift (`le_rounded`, `rounded_le`), and a bound with smaller places is a bound by a power
of two. Packing keeps the bounds even where it overflows (`Rounds.pack`).
-/

namespace FireControl.Floating

open Float.Model (Format UnpackedFloat totalExponent)
open Float.Model.UnpackedFloat

/-! ## Bounds -/

/-- A number that is at least `c`. -/
def Over (c : ℚ) : UnpackedFloat → Prop
  | .notANumber => False
  | .infinity s => s = .positive
  | .zero _ => c ≤ 0
  | .finite s m e _ => c ≤ s.apply m * 2 ^ e

/-- A number that is at most `c`. -/
def Under (c : ℚ) (u : UnpackedFloat) : Prop := Over (-c) u.neg

/-- A bound that a format has, in one form or another, below its largest numbers. -/
def Representable (format : Format) (c : ℚ) : Prop :=
  ∃ n t : ℤ, n.natAbs ≤ 2 ^ format.mantissaBits ∧ format.minExponent ≤ t ∧ t < topExponent format ∧
    c = n * 2 ^ t

/-- A number that keeps the representable bounds of `x`. -/
structure Rounds (format : Format) (x : ℚ) (u : UnpackedFloat) : Prop where
  lower : ∀ c, Representable format c → c ≤ x → Over c u
  upper : ∀ c, Representable format c → x ≤ c → Under c u

section Bounds

variable {format : Format} {u : UnpackedFloat} {c d x : ℚ}

theorem over_iff (h : u.isFinite = true) : Over c u ↔ c ≤ value u := by
  cases u with
  | infinity | notANumber => cases h
  | zero | finite => exact Iff.rfl

theorem neg_neg_unpacked (u : UnpackedFloat) : u.neg.neg = u := by
  have hsign : ∀ s : Sign, - -s = s := by
    intro s
    cases s <;> rfl
  cases u with
  | notANumber => rfl
  | infinity s | zero s => exact congrArg _ (hsign s)
  | finite s m e h => simp only [UnpackedFloat.neg, hsign]

theorem under_iff (h : u.isFinite = true) : Under c u ↔ value u ≤ c := by
  have hneg : u.neg.isFinite = true := by
    cases u <;> exact h
  rw [Under, over_iff hneg, value_neg]
  exact neg_le_neg_iff

theorem Over.mono (h : Over c u) (hd : d ≤ c) : Over d u := by
  cases u with
  | notANumber | infinity => exact h
  | zero | finite => exact le_trans hd h

theorem Under.mono (h : Under c u) (hd : c ≤ d) : Under d u := Over.mono h (neg_le_neg hd)

theorem Over.isNaN (h : Over c u) : u.isNaN = false := by
  cases u <;> first | rfl | cases h

/-- A number between two bounds is finite. -/
theorem isFinite_of_bounds (hover : Over c u) (hunder : Under d u) : u.isFinite = true := by
  cases u with
  | notANumber => cases hover
  | infinity s =>
    cases hover
    cases hunder
  | zero | finite => rfl

theorem Representable.neg (h : Representable format c) : Representable format (-c) := by
  obtain ⟨n, t, hn, hleast, htop, rfl⟩ := h
  refine ⟨-n, t, by rwa [Int.natAbs_neg], hleast, htop, ?_⟩
  push_cast
  ring

theorem Rounds.neg (h : Rounds format x u) : Rounds format (-x) u.neg := by
  constructor
  · intro c hc hle
    have hunder := h.upper (-c) hc.neg (by linarith)
    rwa [Under, neg_neg] at hunder
  · intro c hc hle
    rw [Under, neg_neg_unpacked]
    exact h.lower (-c) hc.neg (by linarith)

end Bounds

/-! ## Significands -/

section Significands

variable {format : Format} {m n b : ℕ} {e : ℤ} {accuracy : Accuracy} {s : Sign}

/-- The exponent that `m * 2 ^ e` is brought to. -/
def target (format : Format) (m : ℕ) (e : ℤ) : ℤ := format.targetExponent (totalExponent m e)

theorem target_eq (format : Format) (m : ℕ) (e : ℤ) :
    target format m e = max (m.log2 + 1 + e - format.mantissaBits) format.minExponent := rfl

/-- The significand that is left of `m * 2 ^ e` there, rounded. -/
def rounded (format : Format) (m : ℕ) (e : ℤ) (accuracy : Accuracy) : ℕ :=
  (ExtendedMantissa.ofMantissaAndAccuracy m accuracy >>> (target format m e - e).toNat).roundedMantissa

theorem mantissa_ofMantissaAndAccuracy (m : ℕ) (accuracy : Accuracy) :
    (ExtendedMantissa.ofMantissaAndAccuracy m accuracy).mantissa = m := by
  unfold ExtendedMantissa.ofMantissaAndAccuracy
  split <;> rfl

theorem le_roundToNearestEven (m : ℕ) (accuracy : Accuracy) :
    m ≤ accuracy.roundToNearestEven m := by
  cases accuracy with
  | exact => exact le_rfl
  | inexact o => cases o <;> simp only [Accuracy.roundToNearestEven] <;> omega

theorem le_roundedMantissa (h : b * 2 ^ n ≤ m) :
    b ≤ (ExtendedMantissa.ofMantissaAndAccuracy m accuracy >>> n).roundedMantissa := by
  refine le_trans ?_ (le_roundToNearestEven _ _)
  rw [mantissa_shiftRight, mantissa_ofMantissaAndAccuracy]
  exact (Nat.le_div_iff_mul_le (Nat.two_pow_pos n)).mpr h

theorem rounded_le_full : rounded format m e accuracy ≤ 2 ^ format.mantissaBits := by
  apply roundedMantissa_shiftRight_le
  left
  rw [← Nat.pow_add]
  refine lt_of_lt_of_le Nat.lt_log2_self (Nat.pow_le_pow_right (by decide) ?_)
  rw [target_eq]
  omega

/-- Above the least exponent all bits are used. -/
theorem full_le (he : e ≤ target format m e) (h : format.minExponent < target format m e) :
    2 ^ format.mantissaBitsWithoutImplicit * 2 ^ (target format m e - e).toNat ≤ m := by
  have hbits : format.mantissaBits = 1 + format.mantissaBitsWithoutImplicit := rfl
  have hm := format.hm
  rw [target_eq] at he h
  rw [← Nat.pow_add, target_eq]
  have hne : m ≠ 0 := by
    rintro rfl
    rw [Nat.log2_zero] at he h
    omega
  refine le_trans (Nat.pow_le_pow_right (by decide) ?_) (Nat.log2_self_le hne)
  omega

theorem shift_of_le (he : e ≤ target format m e) :
    shiftToTargetExponent format m e accuracy =
      (ExtendedMantissa.ofMantissaAndAccuracy m accuracy >>> (target format m e - e).toNat,
        target format m e) := by
  unfold shiftToTargetExponent shiftToExponent
  dsimp only
  rw [← target]
  congr 1
  omega

theorem target_of_short (hm : m < 2 ^ format.mantissaBits) (he : format.minExponent ≤ e) :
    target format m e ≤ e := by
  have hlog : m.log2 + 1 ≤ format.mantissaBits := by
    by_cases hzero : m = 0
    · rw [hzero, Nat.log2_zero, Format.mantissaBits]
      omega
    · exact (Nat.log2_lt hzero).mpr hm
  rw [target_eq]
  omega

/-- A significand that fits is not shifted again. -/
theorem shift_short (hm : m < 2 ^ format.mantissaBits) (he : format.minExponent ≤ e) :
    shiftToTargetExponent format m e .exact = (⟨m, false, false⟩, e) := by
  have hnone : (format.targetExponent (totalExponent m e) - e).toNat = 0 := by
    have htarget := target_of_short hm he
    unfold target at htarget
    omega
  unfold shiftToTargetExponent shiftToExponent
  simp only [hnone, Int.natCast_zero, add_zero]
  rfl

/-- One that was rounded up to a power of two is halved. -/
theorem shift_full (he : format.minExponent ≤ e) :
    shiftToTargetExponent format (2 ^ format.mantissaBits) e .exact =
      (⟨2 ^ format.mantissaBitsWithoutImplicit, false, false⟩, e + 1) := by
  have hone : (format.targetExponent (totalExponent (2 ^ format.mantissaBits) e) - e).toNat = 1 := by
    have htarget := target_eq format (2 ^ format.mantissaBits) e
    rw [Nat.log2_two_pow, target] at htarget
    omega
  have hsplit : 2 ^ format.mantissaBits = 2 ^ format.mantissaBitsWithoutImplicit * 2 ^ 1 := by
    rw [Format.mantissaBits, Nat.add_comm, Nat.pow_add]
  unfold shiftToTargetExponent shiftToExponent
  dsimp only
  rw [hone, hsplit, exact_shiftRight]
  rfl

/-- Rounding gives a canonical number, whose significand is the rounded one or half of it. -/
theorem roundWithAccuracy_value (accuracy : Accuracy) (s : Sign) (he : e ≤ target format m e) :
    (roundWithAccuracy format s m e accuracy).isFinite = true ∧
      CanonicalUnpacked format (roundWithAccuracy format s m e accuracy) ∧
      value (roundWithAccuracy format s m e accuracy) =
        s.apply (rounded format m e accuracy) * 2 ^ target format m e := by
  have hleast : format.minExponent ≤ target format m e := le_max_right _ _
  have hfull : format.minExponent < target format m e →
      2 ^ format.mantissaBitsWithoutImplicit ≤ rounded format m e accuracy :=
    fun h => le_roundedMantissa (full_le he h)
  have hhigh : rounded format m e accuracy ≤ 2 ^ format.mantissaBits := rounded_le_full
  have hfirst : (shiftToTargetExponent format m e accuracy).1.roundedMantissa =
      rounded format m e accuracy := by
    rw [shift_of_le he]
    rfl
  have hexponent : (shiftToTargetExponent format m e accuracy).2 = target format m e := by
    rw [shift_of_le he]
  unfold roundWithAccuracy
  simp only [hfirst, hexponent]
  generalize rounded format m e accuracy = r at *
  generalize target format m e = t at *
  -- The second shift does something only if the first rounding carried into one bit more.
  rcases Nat.lt_or_eq_of_le hhigh with hshort | rfl
  · simp only [shift_short hshort hleast]
    by_cases hzero : r = 0
    · subst hzero
      refine ⟨rfl, trivial, ?_⟩
      cases s <;> exact (zero_mul _).symm
    · simp only [dif_neg hzero]
      exact ⟨rfl, ⟨hshort, hleast, hfull⟩, rfl⟩
  · have hbits := two_pow_mantissaBits format
    have hpos := Nat.two_pow_pos format.mantissaBitsWithoutImplicit
    simp only [shift_full hleast, dif_neg hpos.ne']
    refine ⟨rfl, ⟨by omega, by omega, fun _ => le_rfl⟩, ?_⟩
    simp only [value, hbits]
    rw [apply_cast, apply_cast s (2 * _), zpow_add_one₀ (by norm_num)]
    push_cast
    ring

/-! ## What a rounded significand keeps -/

/-- What `m * 2 ^ e` with an accuracy tells of a rational number that is not negative. -/
inductive Tells (x : ℚ) (m : ℕ) (e : ℤ) : Accuracy → Prop
  | exact : x = m * 2 ^ e → Tells x m e .exact
  | inexact (o) : (m : ℚ) * 2 ^ e < x → x < (m + 1) * 2 ^ e → Tells x m e (.inexact o)

variable {x c : ℚ} {k : ℕ} {t : ℤ}

theorem zpow_split {d t : ℤ} (h : d ≤ t) : (2 : ℚ) ^ t = 2 ^ (t - d).toNat * 2 ^ d := by
  rw [← zpow_natCast, ← zpow_add₀ (by norm_num)]
  congr 1
  omega

theorem zpow_shift (k n : ℤ) : (2 : ℚ) ^ (k + n) = 2 ^ n * 2 ^ k := by
  rw [zpow_add₀ two_ne_zero, mul_comm]

theorem Tells.lower (h : Tells x m e accuracy) : (m : ℚ) * 2 ^ e ≤ x := by
  cases h with
  | exact hx => exact hx.ge
  | inexact o hlow hhigh => exact hlow.le

theorem Tells.upper (h : Tells x m e accuracy) : x < (m + 1) * 2 ^ e := by
  cases h with
  | exact hx =>
    rw [hx]
    have hpos := zpow_pos_two e
    linarith
  | inexact o hlow hhigh => exact hhigh

/-- A multiple of the last place that is not above the number is not above the rounded one. -/
theorem multiple_le_rounded (h : Tells x m e accuracy) (he : e ≤ target format m e)
    (hb : (b : ℚ) * 2 ^ target format m e ≤ x) : b ≤ rounded format m e accuracy := by
  apply le_roundedMantissa
  apply Nat.le_of_lt_succ
  have hlt := lt_of_le_of_lt hb h.upper
  rw [zpow_split he, ← mul_assoc] at hlt
  have hcast := lt_of_mul_lt_mul_right hlt (zpow_pos_two e).le
  exact_mod_cast hcast

theorem rounded_le_multiple (h : Tells x m e accuracy) (he : e ≤ target format m e)
    (hb : x ≤ b * 2 ^ target format m e) : rounded format m e accuracy ≤ b := by
  apply roundedMantissa_shiftRight_le
  rw [zpow_split he, ← mul_assoc] at hb
  have hpos := zpow_pos_two e
  cases h with
  | exact hx =>
    rw [hx] at hb
    have hcast := le_of_mul_le_mul_right hb hpos
    exact atMost_exact (by exact_mod_cast hcast)
  | inexact o hlow hhigh =>
    have hcast := lt_of_mul_lt_mul_right (lt_of_lt_of_le hlow hb) hpos.le
    exact Or.inl (by exact_mod_cast hcast)

/-- A representable bound is a multiple of the last place, or it is a power of two at most, and the
number is one at least. -/
theorem representable_cases (h : Tells x m e accuracy) (he : e ≤ target format m e)
    (hk : k ≤ 2 ^ format.mantissaBits) (ht : format.minExponent ≤ t) :
    (∃ b : ℕ, (k : ℚ) * 2 ^ t = b * 2 ^ target format m e) ∨
      ((k : ℚ) * 2 ^ t ≤ (2 ^ format.mantissaBitsWithoutImplicit : ℕ) * 2 ^ target format m e ∧
        ((2 ^ format.mantissaBitsWithoutImplicit : ℕ) : ℚ) * 2 ^ target format m e ≤ x) := by
  rcases le_or_gt (target format m e) t with hle | hgt
  · left
    refine ⟨k * 2 ^ (t - target format m e).toNat, ?_⟩
    rw [zpow_split hle]
    push_cast
    ring
  · right
    constructor
    · calc (k : ℚ) * 2 ^ t ≤ 2 ^ format.mantissaBits * 2 ^ t :=
            mul_le_mul_of_nonneg_right (by exact_mod_cast hk) (zpow_pos_two t).le
        _ ≤ 2 ^ format.mantissaBitsWithoutImplicit * 2 ^ target format m e := reach_le format hgt
        _ = _ := by push_cast; rfl
    · refine le_trans ?_ h.lower
      rw [zpow_split he, ← mul_assoc]
      refine mul_le_mul_of_nonneg_right ?_ (zpow_pos_two e).le
      exact_mod_cast full_le he (lt_of_le_of_lt ht hgt)

theorem le_rounded (h : Tells x m e accuracy) (he : e ≤ target format m e)
    (hk : k ≤ 2 ^ format.mantissaBits) (ht : format.minExponent ≤ t) (hle : (k : ℚ) * 2 ^ t ≤ x) :
    (k : ℚ) * 2 ^ t ≤ rounded format m e accuracy * 2 ^ target format m e := by
  have hpos := zpow_pos_two (target format m e)
  rcases representable_cases h he hk ht with ⟨b, hb⟩ | ⟨hsmall, hlarge⟩
  · rw [hb] at hle ⊢
    have hcast := multiple_le_rounded h he hle
    exact mul_le_mul_of_nonneg_right (by exact_mod_cast hcast) hpos.le
  · refine le_trans hsmall (mul_le_mul_of_nonneg_right ?_ hpos.le)
    exact_mod_cast multiple_le_rounded h he hlarge

theorem rounded_le (h : Tells x m e accuracy) (he : e ≤ target format m e)
    (hk : k ≤ 2 ^ format.mantissaBits) (ht : format.minExponent ≤ t) (hle : x ≤ (k : ℚ) * 2 ^ t) :
    (rounded format m e accuracy : ℚ) * 2 ^ target format m e ≤ k * 2 ^ t := by
  have hpos := zpow_pos_two (target format m e)
  rcases representable_cases h he hk ht with ⟨b, hb⟩ | ⟨hsmall, hlarge⟩
  · rw [hb] at hle ⊢
    have hcast := rounded_le_multiple h he hle
    exact mul_le_mul_of_nonneg_right (by exact_mod_cast hcast) hpos.le
  · -- The bound and the number are that power of two.
    have hx := le_antisymm (le_trans hle hsmall) hlarge
    refine le_trans (mul_le_mul_of_nonneg_right ?_ hpos.le) (le_trans hx.ge hle)
    exact_mod_cast rounded_le_multiple h he hx.le

end Significands

/-! ## Rounded numbers -/

section Rounding

variable {format : Format} {m : ℕ} {e : ℤ} {accuracy : Accuracy} {u : UnpackedFloat} {x c : ℚ}

theorem value_positive_eq (m : ℕ) (e : ℤ) (h : 0 < m) :
    value (.finite .positive m e h) = m * 2 ^ e := rfl

theorem value_negative_eq (m : ℕ) (e : ℤ) (h : 0 < m) :
    value (.finite .negative m e h) = -(m * 2 ^ e) := value_neg (.finite .positive m e h)

/-- A number that overflows is beyond every bound. -/
theorem Representable.abs_lt (h : Representable format c) (hm : Canonical format m e)
    (he : topExponent format < e) : |c| < m * 2 ^ e := by
  obtain ⟨n, t, hn, hleast, htop, rfl⟩ := h
  have habs : |(n : ℚ)| ≤ 2 ^ format.mantissaBits := by
    rw [← Int.cast_abs, Int.abs_eq_natAbs]
    exact_mod_cast hn
  have hfull : (2 : ℚ) ^ format.mantissaBitsWithoutImplicit ≤ m := by
    exact_mod_cast hm.full (by omega)
  rw [abs_mul, abs_of_pos (zpow_pos_two t)]
  calc |(n : ℚ)| * 2 ^ t ≤ 2 ^ format.mantissaBits * 2 ^ t :=
        mul_le_mul_of_nonneg_right habs (zpow_pos_two t).le
    _ ≤ 2 ^ format.mantissaBitsWithoutImplicit * 2 ^ topExponent format := reach_le format htop
    _ < 2 ^ format.mantissaBitsWithoutImplicit * 2 ^ e := by
        gcongr
        norm_num
    _ ≤ m * 2 ^ e := mul_le_mul_of_nonneg_right hfull (zpow_pos_two e).le

/-- Packing keeps the bounds of a rounded number, whether or not it overflows. -/
theorem Rounds.pack (h : Rounds format x u) (hfinite : u.isFinite = true)
    (hu : CanonicalUnpacked format u) :
    Rounds format x (UnpackedFloat.unpack format (UnpackedFloat.pack format u)) := by
  cases u with
  | infinity | notANumber => cases hfinite
  | zero s =>
    have hzero : UnpackedFloat.unpack format (UnpackedFloat.pack format (.zero s)) = .zero s :=
      unpack_packedZero ..
    rwa [hzero]
  | finite s m e hm =>
    rw [unpack_pack_finite hm hu]
    split
    case isFalse => exact h
    case isTrue he =>
      -- What overflows is farther from zero than every bound on its side.
      constructor
      · intro c hc hle
        cases s with
        | positive => rfl
        | negative =>
          have hover := (over_iff rfl).mp (h.lower c hc hle)
          rw [value_negative_eq] at hover
          have habs := hc.abs_lt hu he
          have hneg := neg_abs_le c
          linarith
      · intro c hc hle
        cases s with
        | negative => rfl
        | positive =>
          have hunder := (under_iff rfl).mp (h.upper c hc hle)
          rw [value_positive_eq] at hunder
          have habs := hc.abs_lt hu he
          have hself := le_abs_self c
          linarith

theorem rounds_positive (h : Tells x m e accuracy) (he : e ≤ target format m e) :
    Rounds format x (roundWithAccuracy format .positive m e accuracy) := by
  obtain ⟨hfinite, -, hvalue⟩ := roundWithAccuracy_value accuracy .positive he
  have hresult : value (roundWithAccuracy format .positive m e accuracy) =
      rounded format m e accuracy * 2 ^ target format m e := hvalue
  have hnonneg : 0 ≤ (rounded format m e accuracy : ℚ) * 2 ^ target format m e :=
    mul_nonneg (Nat.cast_nonneg _) (zpow_pos_two _).le
  have hx : 0 ≤ x := le_trans (mul_nonneg (Nat.cast_nonneg _) (zpow_pos_two _).le) h.lower
  constructor
  · rintro c ⟨n, t, hn, hleast, -, rfl⟩ hle
    rw [over_iff hfinite, hresult]
    -- A bound below zero holds of every number that is not negative.
    cases n with
    | ofNat k => exact le_rounded h he hn hleast hle
    | negSucc k =>
      have hneg : ((Int.negSucc k : ℤ) : ℚ) < 0 := by exact_mod_cast Int.negSucc_lt_zero k
      exact le_trans (mul_neg_of_neg_of_pos hneg (zpow_pos_two t)).le hnonneg
  · rintro c ⟨n, t, hn, hleast, -, rfl⟩ hle
    rw [under_iff hfinite, hresult]
    cases n with
    | ofNat k => exact rounded_le h he hn hleast hle
    | negSucc k =>
      have hneg : ((Int.negSucc k : ℤ) : ℚ) < 0 := by exact_mod_cast Int.negSucc_lt_zero k
      have hbelow := mul_neg_of_neg_of_pos hneg (zpow_pos_two t)
      linarith

/-- Rounding and packing keep bounds. -/
theorem rounds_of_tells (s : Sign) (h : Tells x m e accuracy) (he : e ≤ target format m e) :
    Rounds format (s.apply 1 * x) (UnpackedFloat.unpack format
      (UnpackedFloat.pack format (roundWithAccuracy format s m e accuracy))) := by
  have hpositive := rounds_positive h he
  have hsigned : Rounds format (s.apply 1 * x) (roundWithAccuracy format s m e accuracy) := by
    cases s with
    | positive => simpa [Sign.apply] using hpositive
    | negative =>
      have hneg : Rounds format (-x) (roundWithAccuracy format (-Sign.positive) m e accuracy) := by
        rw [roundWithAccuracy_neg]
        exact hpositive.neg
      have hsign : ((Sign.negative.apply 1 : ℤ) : ℚ) * x = -x := by simp [Sign.apply]
      rw [hsign]
      exact hneg
  obtain ⟨hfinite, hcanonical, -⟩ := roundWithAccuracy_value accuracy s he
  exact hsigned.pack hfinite hcanonical

theorem decreaseExponent_value (m : ℕ) (e t : ℤ) :
    ((decreaseExponent m e t).1 : ℚ) * 2 ^ (decreaseExponent m e t).2 = m * 2 ^ e := by
  unfold decreaseExponent
  dsimp only
  rw [Nat.shiftLeft_eq]
  push_cast
  rw [zpow_split (show e - (e - t).toNat ≤ e by omega)]
  have hcancel : (e - (e - (e - t).toNat)).toNat = (e - t).toNat := by omega
  rw [hcancel]
  ring

/-- A magnitude is brought to its own exponent before it is rounded. -/
theorem decreaseExponent_le (hm : 0 < m) (e : ℤ) :
    (decreaseExponent m e (target format m e)).2 ≤
      target format (decreaseExponent m e (target format m e)).1
        (decreaseExponent m e (target format m e)).2 := by
  have hsame : target format (decreaseExponent m e (target format m e)).1
      (decreaseExponent m e (target format m e)).2 = target format m e := by
    rw [target_eq format (decreaseExponent m e _).1]
    unfold decreaseExponent
    dsimp only
    rw [log2_shiftLeft hm, target_eq]
    omega
  rw [hsame]
  unfold decreaseExponent
  dsimp only
  omega

theorem rounds_round (s : Sign) (hm : 0 < m) (e : ℤ) :
    Rounds format (s.apply 1 * (m * 2 ^ e)) (UnpackedFloat.unpack format
      (UnpackedFloat.pack format (UnpackedFloat.round format s m e))) := by
  have htells := Tells.exact (decreaseExponent_value m e (target format m e)).symm
  exact rounds_of_tells s htells (decreaseExponent_le hm e)

theorem rounds_zero (s : Sign) : Rounds format 0
    (UnpackedFloat.unpack format (UnpackedFloat.pack format (.zero s))) := by
  apply Rounds.pack
  · constructor
    · intro c _ hle
      exact hle
    · intro c _ hle
      exact neg_nonpos.mpr hle
  · rfl
  · trivial

theorem rounds_normalize (total e : ℤ) (s : Sign) :
    Rounds format (total * 2 ^ e) (UnpackedFloat.unpack format
      (UnpackedFloat.pack format (UnpackedFloat.normalize format total e s))) := by
  unfold UnpackedFloat.normalize
  split
  case h_1 hlt =>
    have hneg := Int.compare_eq_lt.mp hlt
    have hround : Rounds format _ _ := rounds_round .negative (show 0 < (-total).toNat by omega) e
    have hcast : (((-total).toNat : ℕ) : ℚ) = -total := by
      exact_mod_cast Int.toNat_of_nonneg (show 0 ≤ -total by omega)
    rw [hcast] at hround
    simpa [Sign.apply] using hround
  case h_2 heq =>
    rw [Int.compare_eq_eq.mp heq, Int.cast_zero, zero_mul]
    exact rounds_zero s
  case h_3 hgt =>
    have hpos := Int.compare_eq_gt.mp hgt
    have hround : Rounds format _ _ := rounds_round .positive (show 0 < total.toNat by omega) e
    have hcast : ((total.toNat : ℕ) : ℚ) = total := by
      exact_mod_cast Int.toNat_of_nonneg (show 0 ≤ total by omega)
    rw [hcast] at hround
    simpa [Sign.apply] using hround

end Rounding

end FireControl.Floating
