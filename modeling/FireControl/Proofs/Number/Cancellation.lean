import FireControl.Proofs.Number.Bounds

/-!
# Exact differences of binary32 numbers

A finite number is a multiple of a power of two with fewer than `2 ^ 24` of them (`exists_place`). The
difference of two numbers is a multiple of the smaller of their places; it is representable, and so
computed exactly, if it is small enough: when one of the numbers is within half of the other
(`representable_sub_of_near`), or when both are close to the least numbers there are
(`Grid.representable`).

Other than zero, a number is told by its value (`eq_of_toRat32`).
-/

namespace FireControl.Floating

open Float.Model (Format UnpackedFloat)
open Float.Model.UnpackedFloat

/-! ## Values tell numbers -/

section Values

variable {format : Format} {u v : UnpackedFloat} {x y : Float32}

theorem unpack_eq_of_value (hu : CanonicalUnpacked format u) (hv : CanonicalUnpacked format v)
    (hfu : u.isFinite = true) (hfv : v.isFinite = true) (h : value u = value v)
    (hne : value u ≠ 0) : u = v := by
  cases u with
  | infinity | notANumber => cases hfu
  | zero => exact absurd rfl hne
  | finite s m e hm =>
    cases v with
    | infinity | notANumber => cases hfv
    | zero => exact absurd h hne
    | finite t n f hn =>
      have hsame : (m : ℚ) * 2 ^ e = n * 2 ^ f → e = f ∧ m = n := by
        intro hvalue
        have hcompare := compare_magnitude hu hv
        rw [hvalue, compare_eq_iff_eq.mpr rfl, Ordering.then_eq_eq] at hcompare
        exact ⟨compare_eq_iff_eq.mp hcompare.1, compare_eq_iff_eq.mp hcompare.2⟩
      have hpos := value_positive
      have hneg := value_negative
      cases s <;> cases t
      case positive.negative => exact absurd h ((hneg n f hn).trans (hpos m e hm)).ne'
      case negative.positive => exact absurd h ((hneg m e hm).trans (hpos n f hn)).ne
      case positive.positive =>
        obtain ⟨rfl, rfl⟩ := hsame h
        rfl
      case negative.negative =>
        rw [value_negative_eq, value_negative_eq, neg_inj] at h
        obtain ⟨rfl, rfl⟩ := hsame h
        rfl

theorem ofModel_pack_unpack (x : Float32) : Float32.ofModel (.pack x.toModel.unpack) = x :=
  congrArg Float32.ofModel <| (Float32.Model.mk.injEq ..).mpr <|
    congrArg UInt32.ofBitVec (pack_unpack (by decide) x.toModel.valid)

theorem eq_of_unpack (h : x.toModel.unpack = y.toModel.unpack) : x = y := by
  rw [← ofModel_pack_unpack x, h, ofModel_pack_unpack]

theorem eq_of_isNaN (hx : x.isNaN = true) (hy : y.isNaN = true) : x = y := by
  have hunpack : ∀ {z : Float32}, z.isNaN = true → z.toModel.unpack = .notANumber := by
    intro z hz
    change z.toModel.unpack.isNaN = true at hz
    cases hu : z.toModel.unpack <;> rw [hu] at hz <;> first | rfl | cases hz
  exact eq_of_unpack ((hunpack hx).trans (hunpack hy).symm)

/-- Other than zero, a number is told by its value. -/
theorem eq_of_toRat32 (hx : x.isFinite = true) (hy : y.isFinite = true)
    (h : toRat32 x = toRat32 y) (hne : toRat32 x ≠ 0) : x = y :=
  eq_of_unpack (unpack_eq_of_value (canonical_float32 x) (canonical_float32 y) hx hy h hne)

theorem exists_zero_of_toRat32 (hx : x.isFinite = true) (h : toRat32 x = 0) :
    ∃ s, x.toModel.unpack = .zero s := by
  change x.toModel.unpack.isFinite = true at hx
  unfold toRat32 at h
  cases hu : x.toModel.unpack with
  | infinity | notANumber => rw [hu] at hx; cases hx
  | zero s => exact ⟨s, rfl⟩
  | finite s m e hm =>
    rw [hu] at h
    cases s with
    | positive => exact absurd h (value_positive m e hm).ne'
    | negative => exact absurd h (value_negative m e hm).ne

end Values

/-! ## Places -/

section Places

variable {x y : Float32} {a b : ℚ}

/-- A finite number counts the places of one power of two, which is the least one if there are
none. -/
theorem exists_place (hx : x.isFinite = true) : ∃ n e : ℤ, toRat32 x = n * 2 ^ e ∧
    n.natAbs < 2 ^ 24 ∧ -149 ≤ e ∧ (n = 0 → e = -149) := by
  have hc := canonical_float32 x
  change x.toModel.unpack.isFinite = true at hx
  unfold toRat32
  generalize x.toModel.unpack = u at hx hc
  cases u with
  | infinity | notANumber => cases hx
  | zero s => exact ⟨0, -149, by simp [value], by decide, le_rfl, fun _ => rfl⟩
  | finite s m e hm =>
    refine ⟨s.apply m, e, rfl, ?_, hc.least, ?_⟩
    · rw [sign_apply_natAbs]
      exact hc.short
    · intro hzero
      have habs := sign_apply_natAbs s m
      rw [hzero] at habs
      exact absurd habs.symm hm.ne'

/-- A number that is not too large counts no place of the largest power. -/
theorem place_lt {n e k : ℤ} (hleast : n = 0 → e = -149) (hk : k < 104)
    (h : |(n : ℚ) * 2 ^ e| ≤ 2 ^ k) : e < 104 := by
  by_cases hzero : n = 0
  · rw [hleast hzero]
    decide
  · have hone : (1 : ℚ) ≤ |(n : ℚ)| := by exact_mod_cast Int.one_le_abs hzero
    rw [abs_mul, abs_of_pos (zpow_pos_two e)] at h
    have hle : (2 : ℚ) ^ e ≤ 2 ^ k := (le_mul_of_one_le_left (zpow_pos_two e).le hone).trans h
    exact ((zpow_le_zpow_iff_right₀ one_lt_two).mp hle).trans_lt hk

theorem representable_toRat32 {k : ℤ} (hx : x.isFinite = true) (hk : k < 104)
    (h : |toRat32 x| ≤ 2 ^ k) : Representable Format.binary32 (toRat32 x) := by
  obtain ⟨n, e, hplace, hn, he, hleast⟩ := exists_place hx
  rw [hplace] at h ⊢
  exact ⟨n, e, hn.le, he, place_lt hleast hk h, rfl⟩

theorem natAbs_le_of_places {n p t : ℤ} (h : |(n : ℚ) * 2 ^ t| ≤ |(p : ℚ) * 2 ^ t|) :
    n.natAbs ≤ p.natAbs := by
  rw [abs_mul, abs_mul] at h
  have hle := le_of_mul_le_mul_right h (abs_pos.mpr (zpow_pos_two t).ne')
  zify
  exact_mod_cast hle

/-- The difference of two numbers, one of them within half of the other, is representable. -/
theorem representable_sub_of_near {k : ℤ} (hx : x.isFinite = true) (hy : y.isFinite = true)
    (hk : k < 104) (hsmall : |toRat32 x| ≤ 2 ^ k)
    (hnear : 2 * |toRat32 x - toRat32 y| ≤ |toRat32 x|) :
    Representable Format.binary32 (toRat32 x - toRat32 y) := by
  obtain ⟨n, e, hplace, hn, he, hleast⟩ := exists_place hx
  obtain ⟨p, f, hplace', hp, hf, -⟩ := exists_place hy
  have hpos := abs_nonneg (toRat32 x - toRat32 y)
  have htop : e < 104 := place_lt hleast hk (hplace ▸ hsmall)
  -- The difference counts places of the smaller power, and is at most the number with that power.
  rcases le_total e f with hle | hle
  · have hdiff : toRat32 x - toRat32 y = ((n - p * 2 ^ (f - e).toNat : ℤ) : ℚ) * 2 ^ e := by
      rw [hplace, hplace', zpow_split hle]
      push_cast
      ring
    have hbound : |toRat32 x - toRat32 y| ≤ |toRat32 x| := by linarith
    rw [hdiff, hplace] at hbound
    exact ⟨_, e, (natAbs_le_of_places hbound).trans hn.le, he, htop, hdiff⟩
  · have hdiff : toRat32 x - toRat32 y = ((n * 2 ^ (e - f).toNat - p : ℤ) : ℚ) * 2 ^ f := by
      rw [hplace, hplace', zpow_split hle]
      push_cast
      ring
    have htriangle := abs_sub_abs_le_abs_sub (toRat32 x) (toRat32 y)
    have hbound : |toRat32 x - toRat32 y| ≤ |toRat32 y| := by linarith
    rw [hdiff, hplace'] at hbound
    exact ⟨_, f, (natAbs_le_of_places hbound).trans hp.le, hf, hle.trans_lt htop, hdiff⟩

/-- A multiple of the least number. -/
def Grid (a : ℚ) : Prop := ∃ n : ℤ, a = n * 2 ^ (-149 : ℤ)

theorem grid_toRat32 (hx : x.isFinite = true) : Grid (toRat32 x) := by
  obtain ⟨n, e, hplace, -, he, -⟩ := exists_place hx
  refine ⟨n * 2 ^ (e - -149).toNat, ?_⟩
  rw [hplace, zpow_split he]
  push_cast
  ring

theorem Grid.sub (ha : Grid a) (hb : Grid b) : Grid (a - b) := by
  obtain ⟨n, rfl⟩ := ha
  obtain ⟨p, rfl⟩ := hb
  exact ⟨n - p, by push_cast; ring⟩

theorem Grid.natCast_mul (ha : Grid a) (i : ℕ) : Grid (i * a) := by
  obtain ⟨n, rfl⟩ := ha
  exact ⟨i * n, by push_cast; ring⟩

theorem Grid.representable (ha : Grid a) (h : |a| ≤ 2 ^ (-125 : ℤ)) :
    Representable Format.binary32 a := by
  obtain ⟨n, rfl⟩ := ha
  refine ⟨n, -149, ?_, by decide, by decide, rfl⟩
  have hbound : |(n : ℚ) * 2 ^ (-149 : ℤ)| ≤ |((2 ^ 24 : ℤ) : ℚ) * 2 ^ (-149 : ℤ)| := by
    refine h.trans (le_of_eq ?_)
    norm_num
  exact natAbs_le_of_places hbound

end Places

end FireControl.Floating
