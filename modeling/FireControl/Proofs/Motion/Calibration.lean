import FireControl.Motion.Gyro
import FireControl.Proofs.Number.Cancellation

/-!
# What a calibration measures

A calibration reads the mean less the bias and puts the bias back, which undoes it only as far as
binary32 numbers do: the reading is a number only if the bias is finite (`isNaN_reading`), and it is
off by what is rounded away in the subtraction (`near_reading`). The sum of the five readings and
their average are off by a few places more (`near_total`, `near_average`).

A bias that is subtracted without rounding `Cancels`: then the reading is the mean. No bias at all
does, and so does every one within half of the mean.
-/

namespace FireControl.Motion.Gyro

open Float.Model (Format UnpackedFloat)
open Float.Model.UnpackedFloat
open Floating

/-- What the mean yaw rate `m` is read as with the bias `b`. -/
def reading (m b : Float32) : Float32 := m - b + b

/-- The sum of `n` equal readings. -/
def total (x : Float32) (n : ℕ) : Float32 :=
  (List.replicate n x).foldl (· + ·) (Averaging.ofNat 0)

/-- The average of equal readings. -/
def average (x : Float32) : Float32 :=
  total x calibrationRounds / Averaging.ofNat calibrationRounds

/-- The bias that a calibration measures after the bias `b`. -/
def measured (g : Gyro Float32) (b : Float32) : Float32 := { g with bias := b }.calibrate.bias

variable {g : Gyro Float32} {m b x y : Float32} {n : ℕ} {s : Sign} {k : ℤ}

theorem measured_eq (g : Gyro Float32) (b : Float32) :
    g.measured b = average (reading g.window.mean b) := rfl

theorem total_succ (x : Float32) (n : ℕ) : total x (n + 1) = total x n + x := by
  unfold total
  rw [List.replicate_succ', List.foldl_append]
  rfl

theorem total_zero (x : Float32) : total x 0 = Averaging.ofNat 0 := rfl

theorem unpack_ofNat_zero : (Averaging.ofNat 0 : Float32).toModel.unpack = .zero .positive := rfl

theorem unpack_ofNat_five : (Averaging.ofNat calibrationRounds : Float32).toModel.unpack =
    .finite .positive 10485760 (-21) (by decide) := rfl

theorem toRat32_ofNat_five : toRat32 (Averaging.ofNat calibrationRounds) = 5 :=
  toRat32_eq unpack_ofNat_five (by norm_num)

/-! ## Readings that are no numbers -/

section NotANumber

/-- A reading is a number exactly for a mean that is one and a bias that is finite. -/
theorem isNaN_reading : (reading m b).isNaN = true ↔ m.isNaN = true ∨ b.isFinite = false := by
  have hsub : Keeps (UnpackedFloat.add Format.binary32 m.toModel.unpack b.toModel.unpack.neg)
      (m - b).toModel.unpack := subUnpacked_eq_add m.toModel.unpack _ ▸ keeps_sub m b
  have hsum := (keeps_add (m - b) b).isNaN
  change ((m - b + b).toModel.unpack).isNaN = true ↔ _
  rw [hsum]
  constructor
  · intro hnan
    by_contra hnone
    obtain ⟨hm, hb⟩ := not_or.mp hnone
    have hfinite : b.toModel.unpack.isFinite = true := Bool.of_not_eq_false hb
    have hneg : b.toModel.unpack.neg.isFinite = true := by
      cases hu : b.toModel.unpack <;> rw [hu] at hfinite <;> exact hfinite
    have hdifference : (m - b).toModel.unpack.isNaN = false :=
      hsub.isNaN.trans (isNaN_add_of_isFinite (Bool.eq_false_iff.mpr hm) hneg)
    rw [isNaN_add_of_isFinite hdifference hfinite] at hnan
    cases hnan
  · rintro (hm | hb)
    · apply strict_add
      exact .inl (hsub.isNaN.trans (strict_add _ _ (.inl hm)))
    · -- The bias has the other sign when it is put back.
      obtain ⟨s, hs⟩ := exists_spoiled_iff.mpr hb
      exact isNaN_add_of_spoiled (hsub.spoiled (add_spoiled (.inr hs.neg))) hs

theorem total_infinite (hx : x.toModel.unpack = .infinity s) (n : ℕ) :
    (total x n).toModel.unpack = .zero .positive ∨ (total x n).toModel.unpack = .infinity s := by
  induction n with
  | zero => exact .inl (total_zero x ▸ unpack_ofNat_zero)
  | succ n ih =>
    have hkeeps := keeps_add (total x n) x
    have hsum : UnpackedFloat.add Format.binary32 (total x n).toModel.unpack x.toModel.unpack =
        .infinity s := by
      rcases ih with h | h <;> rw [h, hx]
      · rfl
      · cases s <;> rfl
    rw [hsum] at hkeeps
    rw [total_succ]
    exact .inr hkeeps.eq_infinity

theorem isNaN_total_of_isFinite (hx : x.isFinite = true) (n : ℕ) :
    (total x n).isNaN = false := by
  induction n with
  | zero => exact total_zero x ▸ congrArg _ unpack_ofNat_zero
  | succ n ih =>
    rw [total_succ]
    exact (keeps_add ..).isNaN.trans (isNaN_add_of_isFinite ih hx)

theorem isNaN_total (x : Float32) (n : ℕ) : (total x (n + 1)).isNaN = x.isNaN := by
  have hnan : x.isNaN = x.toModel.unpack.isNaN := rfl
  have hfinite : x.isFinite = x.toModel.unpack.isFinite := rfl
  cases hx : x.toModel.unpack with
  | notANumber =>
    rw [total_succ, hnan, hx]
    exact (keeps_add ..).isNaN.trans (strict_add _ _ (.inr (congrArg _ hx)))
  | infinity s =>
    rw [hnan, hx]
    show (total x (n + 1)).toModel.unpack.isNaN = false
    rcases total_infinite hx (n + 1) with h | h <;> rw [h] <;> rfl
  | zero | finite =>
    rw [hx] at hnan hfinite
    exact (isNaN_total_of_isFinite hfinite _).trans hnan.symm

theorem isNaN_average (x : Float32) : (average x).isNaN = x.isNaN := by
  refine ((keeps_div ..).isNaN.trans (isNaN_div ?_)).trans (isNaN_total x 4)
  rw [unpack_ofNat_five]
  exact .finite ..

end NotANumber

/-! ## The error of a calibration -/

section Error

variable (hlow : -127 ≤ k) (hhigh : k ≤ 122)

include hlow hhigh

theorem near_reading (hm : m.isFinite = true) (hb : b.isFinite = true)
    (hmean : |toRat32 m| ≤ 2 ^ k) (hbias : |toRat32 b| ≤ 2 ^ k) :
    (reading m b).isFinite = true ∧ |toRat32 (reading m b)| ≤ 2 * 2 ^ k ∧
      |toRat32 (reading m b) - toRat32 m| ≤ 1 / 2097152 * 2 ^ k := by
  have hpos := zpow_pos_two k
  have hone : (2 : ℚ) ^ (k + 1) = 2 * 2 ^ k := by rw [zpow_shift, zpow_one]
  have hplace : (2 : ℚ) ^ (k + 1 - 23) = 1 / 4194304 * 2 ^ k := by
    rw [show k + 1 - 23 = k + -22 by ring, zpow_shift]
    norm_num
  obtain ⟨hfinite, -, herror⟩ := (rounds_sub32 hm hb).near32 (k := k + 1)
    (by rw [hone]; linarith [abs_sub (toRat32 m) (toRat32 b)]) (by omega) (by omega)
  rw [hplace] at herror
  rw [abs_le] at hmean hbias herror
  obtain ⟨hfinite', hbound, herror'⟩ := (rounds_add32 hfinite hb).near32 (k := k + 1)
    (by rw [hone, abs_le]; constructor <;> linarith) (by omega) (by omega)
  rw [hone] at hbound
  rw [hplace, abs_le] at herror'
  refine ⟨hfinite', hbound, ?_⟩
  rw [abs_le]
  unfold reading
  constructor <;> linarith

theorem near_total (hx : x.isFinite = true) (hbound : |toRat32 x| ≤ 2 * 2 ^ k) (hn : n ≤ 5) :
    (total x n).isFinite = true ∧
      |toRat32 (total x n) - n * toRat32 x| ≤ n * (1 / 524288 * 2 ^ k) := by
  have hpos := zpow_pos_two k
  induction n with
  | zero =>
    rw [total_zero]
    refine ⟨congrArg _ unpack_ofNat_zero, ?_⟩
    have hzero : toRat32 (Averaging.ofNat 0) = 0 := congrArg _ unpack_ofNat_zero
    simp [hzero]
  | succ n ih =>
    obtain ⟨hfinite, herror⟩ := ih (by omega)
    have hfew : (n : ℚ) ≤ 4 := by exact_mod_cast (show n ≤ 4 by omega)
    have hlimit : (2 : ℚ) ^ (k + 4) = 16 * 2 ^ k := by
      rw [zpow_shift]
      norm_num
    have hplace : (2 : ℚ) ^ (k + 4 - 23) = 1 / 524288 * 2 ^ k := by
      rw [show k + 4 - 23 = k + -19 by ring, zpow_shift]
      norm_num
    have hgap : n * (1 / 524288 * 2 ^ k) ≤ 4 * (1 / 524288 * 2 ^ k : ℚ) :=
      mul_le_mul_of_nonneg_right hfew (by positivity)
    have hmultiple : |(n + 1) * toRat32 x| ≤ 5 * (2 * 2 ^ k) := by
      rw [abs_mul, abs_of_nonneg (by positivity)]
      exact mul_le_mul (by linarith) hbound (abs_nonneg _) (by norm_num)
    have hsum : |toRat32 (total x n) + toRat32 x| ≤ 2 ^ (k + 4) :=
      calc |toRat32 (total x n) + toRat32 x|
          = |toRat32 (total x n) - n * toRat32 x + (n + 1) * toRat32 x| := by congr 1; ring
        _ ≤ |toRat32 (total x n) - n * toRat32 x| + |(n + 1) * toRat32 x| := abs_add_le _ _
        _ ≤ 2 ^ (k + 4) := by rw [hlimit]; linarith
    obtain ⟨hfinite', -, herror'⟩ :=
      (rounds_add32 hfinite hx).near32 hsum (by omega) (by omega)
    rw [hplace] at herror'
    rw [total_succ]
    refine ⟨hfinite', ?_⟩
    push_cast
    rw [abs_le] at herror herror' ⊢
    constructor <;> linarith

theorem near_average (hx : x.isFinite = true) (hbound : |toRat32 x| ≤ 2 * 2 ^ k) :
    (average x).isFinite = true ∧
      |toRat32 (average x) - toRat32 x| ≤ 5 / 2097152 * 2 ^ k := by
  have hpos := zpow_pos_two k
  obtain ⟨hfinite, herror⟩ := near_total hlow hhigh hx hbound (n := calibrationRounds) le_rfl
  have hrounds : ((calibrationRounds : ℕ) : ℚ) = 5 := by norm_num [calibrationRounds]
  have hlimit : (2 : ℚ) ^ (k + 2) = 4 * 2 ^ k := by
    rw [zpow_shift]
    norm_num
  have hplace : (2 : ℚ) ^ (k + 2 - 23) = 1 / 2097152 * 2 ^ k := by
    rw [show k + 2 - 23 = k + -21 by ring, zpow_shift]
    norm_num
  have hdiv := rounds_div32 hfinite (congrArg _ unpack_ofNat_five)
    (by rw [toRat32_ofNat_five]; norm_num)
  rw [toRat32_ofNat_five] at hdiv
  rw [hrounds] at herror
  rw [abs_le] at herror hbound
  obtain ⟨hfinite', -, herror'⟩ := hdiv.near32 (k := k + 2)
    (by rw [hlimit, abs_le]; constructor <;> linarith) (by omega) (by omega)
  rw [hplace, abs_le] at herror'
  refine ⟨hfinite', ?_⟩
  rw [abs_le]
  unfold average
  constructor <;> linarith

/-- What is measured is off by no more than places of the larger of the mean and the bias. -/
theorem near_measured (hm : g.window.mean.isFinite = true) (hb : b.isFinite = true)
    (hmean : |toRat32 g.window.mean| ≤ 2 ^ k) (hbias : |toRat32 b| ≤ 2 ^ k) :
    (g.measured b).isFinite = true ∧
      |toRat32 (g.measured b) - toRat32 g.window.mean| ≤ 2 ^ (k - 18) := by
  have hpos := zpow_pos_two k
  have hplace : (2 : ℚ) ^ (k - 18) = 1 / 262144 * 2 ^ k := by
    rw [sub_eq_add_neg, zpow_shift]
    norm_num
  obtain ⟨hfinite, hbound, herror⟩ := near_reading hlow hhigh hm hb hmean hbias
  obtain ⟨hfinite', herror'⟩ := near_average hlow hhigh hfinite hbound
  rw [← measured_eq] at hfinite' herror'
  refine ⟨hfinite', ?_⟩
  rw [hplace]
  rw [abs_le] at herror herror' ⊢
  constructor <;> linarith

end Error

/-! ## Biases that cancel -/

section Cancelling

/-- The bias is subtracted from the mean without rounding. -/
structure Cancels (m b : Float32) : Prop where
  bias : b.isFinite = true
  finite : (m - b).isFinite = true
  exact : toRat32 (m - b) = toRat32 m - toRat32 b

theorem cancels_of_representable (hm : m.isFinite = true) (hb : b.isFinite = true)
    (h : Representable Format.binary32 (toRat32 m - toRat32 b)) : Cancels m b := by
  obtain ⟨hfinite, hvalue⟩ := (rounds_sub32 hm hb).value_eq h
  exact ⟨hb, hfinite, hvalue⟩

theorem toRat32_zero : toRat32 0 = 0 := congrArg value unpack_ofNat_zero

theorem cancels_zero (hm : m.isFinite = true) (hk : k < 104) (h : |toRat32 m| ≤ 2 ^ k) :
    Cancels m 0 := by
  refine cancels_of_representable hm rfl ?_
  rw [toRat32_zero, sub_zero]
  exact representable_toRat32 hm hk h

/-- From zero every bias is subtracted without rounding. -/
theorem cancels_of_zero (hm : m.toModel.unpack = .zero s) (hb : b.isFinite = true) :
    Cancels m b := by
  have hvalue : toRat32 m = 0 := congrArg value hm
  change b.toModel.unpack.isFinite = true at hb
  cases hu : b.toModel.unpack with
  | infinity | notANumber => rw [hu] at hb; cases hb
  | zero t =>
    have hvalue' : toRat32 b = 0 := congrArg value hu
    refine cancels_of_representable (congrArg _ hm) hb ?_
    rw [hvalue, hvalue', sub_zero]
    exact representable32 (n := 0) (by decide)
  | finite t n e hn =>
    have hsub : UnpackedFloat.sub Format.binary32 m.toModel.unpack b.toModel.unpack =
        b.toModel.unpack.neg := by
      rw [hm, hu]
      rfl
    have hunpack : (m - b).toModel.unpack = b.toModel.unpack.neg := by
      show UnpackedFloat.unpack _ (UnpackedFloat.pack _ (UnpackedFloat.sub _ _ _)) = _
      rw [hsub]
      exact unpack_pack_neg_unpack (by decide) b.toModel.valid
    refine ⟨hb, ?_, ?_⟩
    · show (m - b).toModel.unpack.isFinite = true
      rw [hunpack, hu]
      rfl
    · unfold toRat32 at hvalue ⊢
      rw [hunpack, value_neg, hvalue, zero_sub]

theorem Cancels.reading (h : Cancels m b) (hm : Representable Format.binary32 (toRat32 m)) :
    (reading m b).isFinite = true ∧ toRat32 (reading m b) = toRat32 m := by
  have hrounds := rounds_add32 h.finite h.bias
  rw [h.exact, sub_add_cancel] at hrounds
  exact hrounds.value_eq hm

theorem total_of_zero (hx : x.toModel.unpack = .zero s) (n : ℕ) :
    total x n = Averaging.ofNat 0 := by
  induction n with
  | zero => rfl
  | succ n ih =>
    rw [total_succ, ih]
    apply eq_of_unpack
    have hkeeps := keeps_add (Averaging.ofNat 0) x
    have hsum : UnpackedFloat.add Format.binary32 (Averaging.ofNat 0 : Float32).toModel.unpack
        x.toModel.unpack = .zero .positive := by
      rw [unpack_ofNat_zero, hx]
      cases s <;> rfl
    rw [hsum] at hkeeps
    exact hkeeps.eq_zero.trans unpack_ofNat_zero.symm

/-- Equal values have equal averages, whatever the sign of a zero. -/
theorem average_congr (hx : x.isFinite = true) (hy : y.isFinite = true)
    (h : toRat32 x = toRat32 y) : average x = average y := by
  by_cases hzero : toRat32 x = 0
  · obtain ⟨s, hs⟩ := exists_zero_of_toRat32 hx hzero
    obtain ⟨t, ht⟩ := exists_zero_of_toRat32 hy (h ▸ hzero)
    unfold average
    rw [total_of_zero hs, total_of_zero ht]
  · rw [eq_of_toRat32 hx hy h hzero]

theorem measured_congr {b' : Float32} (h : Cancels g.window.mean b) (h' : Cancels g.window.mean b')
    (hm : Representable Format.binary32 (toRat32 g.window.mean)) :
    g.measured b = g.measured b' := by
  obtain ⟨hfinite, hvalue⟩ := h.reading hm
  obtain ⟨hfinite', hvalue'⟩ := h'.reading hm
  rw [measured_eq, measured_eq]
  exact average_congr hfinite hfinite' (hvalue.trans hvalue'.symm)

/-- Equal numbers are added exactly if all their sums are representable. -/
theorem sum_exact (start : Float32) (hstart : start.isFinite = true) (hzero : toRat32 start = 0)
    (hx : x.isFinite = true) (hsums : ∀ i ≤ n, Representable Format.binary32 (i * toRat32 x)) :
    let sum := (List.replicate n x).foldl (· + ·) start
    sum.isFinite = true ∧ toRat32 sum = n * toRat32 x := by
  induction n with
  | zero => exact ⟨hstart, by rw [Nat.cast_zero, zero_mul]; exact hzero⟩
  | succ n ih =>
    obtain ⟨hfinite, hvalue⟩ := ih fun i hi => hsums i (Nat.le_succ_of_le hi)
    have hrounds := rounds_add32 hfinite hx
    rw [hvalue, ← add_one_mul, ← Nat.cast_succ] at hrounds
    rw [List.replicate_succ', List.foldl_append]
    exact hrounds.value_eq (hsums (n + 1) le_rfl)

/-- Five numbers that are close to the least one are added exactly. -/
theorem total_exact (hx : x.isFinite = true) (hsmall : |toRat32 x| ≤ 2 ^ (-128 : ℤ)) (hn : n ≤ 5) :
    (total x n).isFinite = true ∧ toRat32 (total x n) = n * toRat32 x := by
  refine sum_exact _ (congrArg _ unpack_ofNat_zero) (congrArg value unpack_ofNat_zero) hx ?_
  intro i hi
  refine ((grid_toRat32 hx).natCast_mul i).representable ?_
  have hfew : (i : ℚ) ≤ 5 := by exact_mod_cast hi.trans hn
  rw [abs_mul, Nat.abs_cast]
  refine (mul_le_mul hfew hsmall (abs_nonneg _) (by norm_num)).trans ?_
  norm_num

theorem average_exact (hx : x.isFinite = true) (hsmall : |toRat32 x| ≤ 2 ^ (-128 : ℤ)) :
    (average x).isFinite = true ∧ toRat32 (average x) = toRat32 x := by
  obtain ⟨hfinite, hvalue⟩ := total_exact hx hsmall (n := calibrationRounds) le_rfl
  have hrounds : ((calibrationRounds : ℕ) : ℚ) = 5 := by norm_num [calibrationRounds]
  have hdiv := rounds_div32 hfinite (congrArg _ unpack_ofNat_five)
    (by rw [toRat32_ofNat_five]; norm_num)
  rw [hvalue, toRat32_ofNat_five, hrounds, mul_div_cancel_left₀ _ (by norm_num)] at hdiv
  exact hdiv.value_eq ((grid_toRat32 hx).representable (hsmall.trans (by norm_num)))

theorem measured_exact (hm : g.window.mean.isFinite = true) (hb : b.isFinite = true)
    (hmean : |toRat32 g.window.mean| ≤ 2 ^ (-128 : ℤ)) (hbias : |toRat32 b| ≤ 2 ^ (-128 : ℤ)) :
    (g.measured b).isFinite = true ∧ toRat32 (g.measured b) = toRat32 g.window.mean := by
  have hsmall : |toRat32 g.window.mean - toRat32 b| ≤ 2 ^ (-125 : ℤ) := by
    refine (abs_sub _ _).trans ((add_le_add hmean hbias).trans ?_)
    norm_num
  have hgrid := grid_toRat32 hm
  obtain ⟨hfinite, hvalue⟩ := (cancels_of_representable hm hb
    ((hgrid.sub (grid_toRat32 hb)).representable hsmall)).reading
      (hgrid.representable (hmean.trans (by norm_num)))
  rw [measured_eq, ← hvalue]
  exact average_exact hfinite (hvalue ▸ hmean)

end Cancelling

/-! ## Calibrating again -/

/-- After a bias that is not too large beside the mean, a calibration measures one that is close to
the mean. -/
theorem measured_close (hm : g.window.mean.isFinite = true) (hb : b.isFinite = true)
    (hmean : |toRat32 g.window.mean| ≤ 2 ^ (100 : ℤ))
    (hbias : |toRat32 b| ≤ 65536 * |toRat32 g.window.mean|) :
    (g.measured b).isFinite = true ∧
      2 * |toRat32 g.window.mean - toRat32 (g.measured b)| ≤ |toRat32 g.window.mean| := by
  rcases le_or_gt |toRat32 g.window.mean| (2 ^ (-144 : ℤ)) with htiny | hlarge
  · obtain ⟨hfinite, hvalue⟩ := measured_exact hm hb (htiny.trans (by norm_num))
      (hbias.trans ((mul_le_mul_of_nonneg_left htiny (by norm_num)).trans (by norm_num)))
    refine ⟨hfinite, ?_⟩
    rw [hvalue, sub_self, abs_zero, mul_zero]
    exact abs_nonneg _
  · have hpos : 0 < |toRat32 g.window.mean| := (zpow_pos_two _).trans hlarge
    -- The mean lies between two powers of two, and the bias below one that is a little larger.
    have hbelow := Int.zpow_log_le_self (b := 2) one_lt_two hpos
    have habove := Int.lt_zpow_succ_log_self (b := 2) one_lt_two |toRat32 g.window.mean|
    generalize Int.log 2 |toRat32 g.window.mean| = j at hbelow habove
    rw [Nat.cast_ofNat] at hbelow habove
    have hlow : -144 < j + 1 :=
      (zpow_lt_zpow_iff_right₀ one_lt_two).mp (hlarge.trans habove)
    have hhigh : j ≤ 100 := (zpow_le_zpow_iff_right₀ one_lt_two).mp (hbelow.trans hmean)
    have hwide : (2 : ℚ) ^ (j + 17) = 65536 * 2 ^ (j + 1) := by
      rw [show j + 17 = j + 1 + 16 by ring, zpow_shift]
      norm_num
    have hnarrow : (2 : ℚ) ^ (j + 17 - 18) = 1 / 2 * 2 ^ j := by
      rw [show j + 17 - 18 = j + -1 by ring, zpow_shift]
      norm_num
    obtain ⟨hfinite, herror⟩ := near_measured (k := j + 17) (by omega) (by omega) hm hb
      (by linarith) (by linarith)
    rw [abs_sub_comm] at herror
    exact ⟨hfinite, by linarith⟩

/-! ## Biases that last -/

section Lasting

/-- The bias `2 ^ 126`. -/
def huge : Float32 := .ofBits 0x7E800000

theorem toRat32_huge : toRat32 huge = 2 ^ (126 : ℤ) := by
  have hunpack : huge.toModel.unpack = .finite .positive 8388608 103 (by decide) := rfl
  exact toRat32_eq hunpack (by norm_num)

/-- A mean that is much smaller does not survive beside it. -/
theorem reading_huge (hm : m.isFinite = true) (hmean : |toRat32 m| ≤ 2 ^ (100 : ℤ)) :
    ∃ n : ℤ, n.natAbs ≤ 2 ∧ (reading m huge).isFinite = true ∧
      toRat32 (reading m huge) = n * 2 ^ (102 : ℤ) := by
  have hlow : Representable Format.binary32 ((-(2 ^ 23 + 1) : ℤ) * 2 ^ (103 : ℤ)) :=
    ⟨_, 103, by decide, by decide, by decide, rfl⟩
  have hhigh : Representable Format.binary32 ((-2 ^ 24 + 1 : ℤ) * 2 ^ (102 : ℤ)) :=
    ⟨_, 102, by decide, by decide, by decide, rfl⟩
  have hrounds := rounds_sub32 hm (show huge.isFinite = true from rfl)
  rw [toRat32_huge] at hrounds
  rw [abs_le] at hmean
  norm_num at hmean
  obtain ⟨hfinite, hlower, hupper⟩ := hrounds.value_mem hlow hhigh
    (by norm_num; linarith) (by norm_num; linarith)
  change _ ≤ toRat32 (m - huge) at hlower
  change toRat32 (m - huge) ≤ _ at hupper
  -- The difference is so large that its places are, too.
  obtain ⟨n, e, hplace, hn, -⟩ := exists_place hfinite
  have hlarge : 102 ≤ e := by
    have hcount : |(n : ℚ)| ≤ 2 ^ 24 := by
      rw [← Int.cast_abs, Int.abs_eq_natAbs]
      exact_mod_cast hn.le
    have hmagnitude : 2 ^ (125 : ℤ) < |toRat32 (m - huge)| := by
      rw [abs_of_neg (hupper.trans_lt (by norm_num))]
      norm_num at hupper ⊢
      linarith
    have hpower : (2 : ℚ) ^ (125 : ℤ) < 2 ^ (24 + e) := by
      calc (2 : ℚ) ^ (125 : ℤ) < |(n : ℚ)| * 2 ^ e := by
            rwa [hplace, abs_mul, abs_of_pos (zpow_pos_two e)] at hmagnitude
        _ ≤ 2 ^ 24 * 2 ^ e := mul_le_mul_of_nonneg_right hcount (zpow_pos_two e).le
        _ = 2 ^ (24 + e) := by
          rw [zpow_shift, mul_comm]
          norm_num
    have := (zpow_lt_zpow_iff_right₀ one_lt_two).mp hpower
    omega
  have hsum : toRat32 (m - huge) + 2 ^ (126 : ℤ) =
      ((n * 2 ^ (e - 102).toNat + 2 ^ 24 : ℤ) : ℚ) * 2 ^ (102 : ℤ) := by
    rw [hplace, zpow_split hlarge]
    push_cast
    ring
  have hfew : (n * 2 ^ (e - 102).toNat + 2 ^ 24).natAbs ≤ (2 : ℤ).natAbs := by
    refine natAbs_le_of_places (t := 102) ?_
    rw [← hsum]
    norm_num at hlower hupper ⊢
    exact abs_le.mpr ⟨by linarith, by linarith⟩
  have hadd := rounds_add32 hfinite (show huge.isFinite = true from rfl)
  rw [toRat32_huge, hsum] at hadd
  obtain ⟨hfinite', hvalue⟩ := hadd.value_eq
    ⟨_, 102, hfew.trans (by decide), by decide, by decide, rfl⟩
  exact ⟨_, hfew, hfinite', hvalue⟩

/-- After it a calibration measures nothing of the mean. -/
theorem measured_huge (hm : g.window.mean.isFinite = true)
    (hmean : |toRat32 g.window.mean| ≤ 2 ^ (100 : ℤ)) (hne : toRat32 g.window.mean ≠ 0) :
    g.measured huge ≠ g.measured 0 := by
  intro hsame
  obtain ⟨-, hclose⟩ := measured_close hm (show (0 : Float32).isFinite = true from rfl) hmean
    (by rw [toRat32_zero, abs_zero]; positivity)
  rw [← hsame] at hclose
  obtain ⟨n, hn, hfinite, hvalue⟩ := reading_huge hm hmean
  have hpos := abs_pos.mpr hne
  by_cases hzero : n = 0
  · -- The bias has swallowed the mean.
    rw [hzero, Int.cast_zero, zero_mul] at hvalue
    obtain ⟨-, haverage⟩ := average_exact hfinite (by rw [hvalue, abs_zero]; positivity)
    rw [measured_eq, haverage, hvalue, sub_zero] at hclose
    linarith
  · have hone : (1 : ℚ) ≤ |(n : ℚ)| := by exact_mod_cast Int.one_le_abs hzero
    have htwo : |(n : ℚ)| ≤ 2 := by
      rw [← Int.cast_abs, Int.abs_eq_natAbs]
      exact_mod_cast hn
    have hreading : |toRat32 (reading g.window.mean huge)| = |(n : ℚ)| * 2 ^ (102 : ℤ) := by
      rw [hvalue, abs_mul, abs_of_pos (zpow_pos_two _)]
    obtain ⟨-, herror⟩ := near_average (k := 102) (by decide) (by decide) hfinite
      (by rw [hreading]; exact mul_le_mul_of_nonneg_right htwo (zpow_pos_two _).le)
    rw [← measured_eq] at herror
    have htriangle := abs_sub_abs_le_abs_sub (toRat32 (reading g.window.mean huge))
      (toRat32 (g.measured huge))
    have htriangle' := abs_sub_abs_le_abs_sub (toRat32 (g.measured huge))
      (toRat32 g.window.mean)
    have hlarge : (2 : ℚ) ^ (102 : ℤ) ≤ |toRat32 (reading g.window.mean huge)| := by
      rw [hreading]
      exact le_mul_of_one_le_left (zpow_pos_two _).le hone
    rw [abs_sub_comm] at herror htriangle'
    norm_num at hmean hlarge herror
    linarith

end Lasting

/-- What a calibration makes of an earlier bias. It measures the same after all of them only if the
mean is not a number: after a bias that is not finite it measures no number, so that this bias is
never got rid of. For a finite mean of at most `2 ^ 100` it measures the same after all
finite biases only if the mean is zero. Otherwise what is measured is off by at most some of the last
places of the larger of the mean and the earlier bias. It is what is measured without an earlier bias
if that one is subtracted from the mean without rounding; and unless that one is more than 65536
times the mean, the second of two calibrations measures it. -/
theorem calibration_forgets_bias_iff (g : Gyro Float32) :
    ((∀ b b', g.measured b = g.measured b') ↔ g.window.mean.isNaN = true) ∧
    (∀ b, (g.measured b).isNaN = true ↔ g.window.mean.isNaN = true ∨ b.isFinite = false) ∧
    (g.window.mean.isFinite = true → |toRat32 g.window.mean| ≤ 2 ^ (100 : ℤ) →
      ((∀ b : Float32, b.isFinite = true → g.measured b = g.measured 0) ↔
        toRat32 g.window.mean = 0) ∧
      (∀ (b : Float32) (k : ℤ), -127 ≤ k → k ≤ 122 → b.isFinite = true →
        |toRat32 g.window.mean| ≤ 2 ^ k → |toRat32 b| ≤ 2 ^ k → (g.measured b).isFinite = true ∧
          |toRat32 (g.measured b) - toRat32 g.window.mean| ≤ 2 ^ (k - 18)) ∧
      (∀ b, Cancels g.window.mean b → g.measured b = g.measured 0) ∧
      ∀ b : Float32, b.isFinite = true → |toRat32 b| ≤ 65536 * |toRat32 g.window.mean| →
        { g with bias := b }.calibrate.calibrate.bias = g.measured 0) := by
  have hnan : ∀ b, (g.measured b).isNaN = true ↔
      g.window.mean.isNaN = true ∨ b.isFinite = false := by
    intro b
    rw [measured_eq, isNaN_average]
    exact isNaN_reading
  refine ⟨⟨?_, ?_⟩, hnan, ?_⟩
  · intro hsame
    have hinfinite : (g.measured (Float32.ofBits 0x7F800000)).isNaN = true :=
      (hnan _).mpr (.inr rfl)
    rw [hsame _ 0] at hinfinite
    exact ((hnan 0).mp hinfinite).resolve_right nofun
  · intro hmean b b'
    exact eq_of_isNaN ((hnan b).mpr (.inl hmean)) ((hnan b').mpr (.inl hmean))
  intro hm hmean
  have hrep := representable_toRat32 hm (by norm_num) hmean
  have hcancels : ∀ b, Cancels g.window.mean b → g.measured b = g.measured 0 :=
    fun b hb => measured_congr hb (cancels_zero hm (by norm_num) hmean) hrep
  refine ⟨⟨?_, ?_⟩, fun b k hlow hhigh hb => near_measured hlow hhigh hm hb, hcancels, ?_⟩
  · intro hsame
    by_contra hne
    exact measured_huge hm hmean hne (hsame huge rfl)
  · intro hzero b hb
    obtain ⟨s, hs⟩ := exists_zero_of_toRat32 hm hzero
    exact hcancels b (cancels_of_zero hs hb)
  · intro b hb hbias
    obtain ⟨hfinite, hclose⟩ := measured_close hm hb hmean hbias
    exact hcancels _ (cancels_of_representable hm hfinite
      (representable_sub_of_near hm hfinite (by norm_num) hmean hclose))

/-- Three quarters of a degree per second. -/
def slow : Float32 := .ofBits 0x3F400000

theorem toRat32_slow : toRat32 slow = 3 / 4 := by
  have hunpack : slow.toModel.unpack = .finite .positive 12582912 (-24) (by decide) := rfl
  exact toRat32_eq hunpack (by norm_num)

/-- A rig that has turned at that rate all the time. -/
def steady : Gyro Float32 :=
  { window := .filled slow (Nat.zero_lt_succ 549), bias := Averaging.ofNat 0 }

theorem mean_steady : steady.window.mean = slow := by
  have hsums : ∀ i : ℕ, i ≤ 550 → Representable Format.binary32 (i * toRat32 slow) := by
    intro i hi
    rw [toRat32_slow]
    refine ⟨3 * i, -2, ?_, by decide, by decide, ?_⟩
    · change _ ≤ 2 ^ 24
      omega
    · push_cast
      ring
  have hunpack : (Averaging.ofNat 550 : Float32).toModel.unpack =
      .finite .positive 9011200 (-14) (by decide) := rfl
  have hlength : toRat32 (Averaging.ofNat 550) = 550 := toRat32_eq hunpack (by norm_num)
  have hmean : steady.window.mean = Average.sum (List.replicate 550 slow) / Averaging.ofNat 550 := by
    show Average.mean steady.window.toList = _
    rw [steady, Ring.toList_filled, Average.mean, List.length_replicate]
  have hslow : slow.isFinite = true := rfl
  have hsum : (Average.sum (List.replicate 550 slow)).isFinite = true ∧
      toRat32 (Average.sum (List.replicate 550 slow)) = (550 : ℕ) * toRat32 slow :=
    sum_exact Averaging.neutral rfl rfl hslow hsums
  rw [hmean]
  generalize Average.sum (List.replicate 550 slow) = sum at hsum
  have hdiv := rounds_div32 hsum.1 (congrArg _ hunpack) (by rw [hlength]; norm_num)
  have hquotient : ((550 : ℕ) : ℚ) * toRat32 slow / 550 = toRat32 slow := by
    push_cast
    exact mul_div_cancel_left₀ _ (by norm_num)
  rw [hsum.2, hlength, hquotient] at hdiv
  obtain ⟨hfinite, hvalue⟩ := hdiv.value_eq (by simpa using hsums 1 (by decide))
  have hne : toRat32 slow ≠ 0 := by
    rw [toRat32_slow]
    norm_num
  exact (eq_of_toRat32 hslow hfinite hvalue.symm hne).symm

/-- Its rate is measured without an earlier bias and, in the second of two calibrations, after a bias
of ten; after a bias of a thousand million it is zero that is measured, and after an infinite one no
number. -/
theorem calibration_forgets_bias_iff_steady :
    steady.measured 0 = slow ∧
    { steady with bias := .ofBits 0x41200000 }.calibrate.calibrate.bias = slow ∧
    steady.measured (.ofBits 0x4E6E6B28) = 0 ∧
    (steady.measured (.ofBits 0x7F800000)).isNaN = true := by
  have hnone : steady.measured 0 = slow := by
    rw [measured_eq, mean_steady]
    decide +kernel
  have hlarge : steady.measured (.ofBits 0x4E6E6B28) = 0 := by
    rw [measured_eq, mean_steady]
    decide +kernel
  have hten : toRat32 (Float32.ofBits 0x41200000) = 10 := by
    have hunpack : (Float32.ofBits 0x41200000).toModel.unpack =
        .finite .positive 10485760 (-20) (by decide) := rfl
    exact toRat32_eq hunpack (by norm_num)
  obtain ⟨-, hnan, hfinite⟩ := calibration_forgets_bias_iff steady
  rw [mean_steady, toRat32_slow] at hfinite
  obtain ⟨-, -, -, htwice⟩ := hfinite rfl (by norm_num [abs_of_pos])
  refine ⟨hnone, ?_, hlarge, (hnan _).mpr (.inr rfl)⟩
  exact (htwice _ rfl (by rw [hten]; norm_num [abs_of_pos])).trans hnone

end FireControl.Motion.Gyro
