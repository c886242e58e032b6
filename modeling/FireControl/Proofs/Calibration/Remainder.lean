import FireControl.Calibration.Checksum
import Mathlib.Data.List.Iterate
import Mathlib.Data.List.Nodup

/-!
# Differences in the checksum register

Bits enter the register one at a time, and what they leave in it is linear: after two bit strings of
one length, the registers differ by what the difference of the strings leaves in a register of zeros
(`foldl_enter_xor`). So two strings end in one register just when their difference leaves nothing,
whatever the strings are. A difference that leaves nothing is neither a burst of at most 32 bits
(`not_mem_of_burst`) nor up to three bits within 432 (`not_mem_of_sparse`), which are as many as the
bits of a file.

The first rests on the highest coefficient of the polynomial: a register that `n` bits can clear is
below `2 ^ n` (`toNat_lt_of_cleared`), and a bit that has just entered leaves one at `2 ^ 31` or
above. The second rests on the powers of the shift, which are pairwise different in a window of
fifteen bits.
-/

namespace FireControl.Calibration.Register

/-! ## Shifts -/

@[simp] theorem shift_zero : shift 0 = 0 := rfl

theorem shift_of_even {r : Register} (h : r.getLsbD 0 = false) : shift r = r >>> 1 := by
  rw [shift, feedback, h]
  simp

theorem shift_of_odd {r : Register} (h : r.getLsbD 0 = true) :
    shift r = r >>> 1 ^^^ polynomial := by
  rw [shift, feedback, h]
  simp

theorem getLsbD_zero (r : Register) : r.getLsbD 0 = decide (r.toNat % 2 = 1) := by
  rw [BitVec.getLsbD, Nat.testBit_zero]

/-- The polynomial has its highest bit set, and nothing else gets there. -/
theorem le_toNat_shift {r : Register} (h : r.getLsbD 0 = true) :
    Nat.pow 2 31 ≤ (shift r).toNat := by
  have hpolynomial : polynomial.msb = true := by decide
  have htop : (shift r).msb = true := by
    rw [shift_of_odd h, BitVec.msb_xor, BitVec.msb_ushiftRight, hpolynomial]
    rfl
  have := BitVec.msb_eq_true_iff_two_mul_ge.mp htop
  simp only [Nat.pow_eq]
  omega

theorem toNat_shift_of_even {r : Register} (h : r.getLsbD 0 = false) :
    (shift r).toNat = r.toNat / 2 := by
  rw [shift_of_even h, BitVec.toNat_ushiftRight, Nat.shiftRight_eq_div_pow]

theorem eq_zero_of_shift {r : Register} (h : shift r = 0) : r = 0 := by
  cases hbit : r.getLsbD 0 with
  | true =>
    have := le_toNat_shift hbit
    rw [h] at this
    simp at this
  | false =>
    have hhalf : 0 = r.toNat / 2 := by
      rw [← toNat_shift_of_even hbit, h]
      rfl
    rw [getLsbD_zero, decide_eq_false_iff_not] at hbit
    apply BitVec.eq_of_toNat_eq
    change r.toNat = 0
    omega

theorem iterate_shift_xor (n : Nat) (a b : Register) :
    shift^[n] (a ^^^ b) = shift^[n] a ^^^ shift^[n] b := by
  induction n generalizing a b with
  | zero => rfl
  | succ n ih => rw [Function.iterate_succ_apply, shift_xor, ih]; rfl

theorem eq_zero_of_iterate_shift {n : Nat} {r : Register} (h : shift^[n] r = 0) : r = 0 := by
  induction n generalizing r with
  | zero => exact h
  | succ n ih => exact eq_zero_of_shift (ih h)

@[simp] theorem iterate_shift_zero (n : Nat) : shift^[n] 0 = 0 :=
  Function.iterate_fixed shift_zero n

/-! ## Bits entering -/

/-- The register after one bit has entered it and one has left. -/
def enter (r : Register) (bit : Bool) : Register := shift (r ^^^ if bit then 1 else 0)

@[simp] theorem enter_false (r : Register) : enter r false = shift r := by
  simp [enter]

theorem enter_xor (r s : Register) (a b : Bool) :
    enter (r ^^^ s) (a ^^ b) = enter r a ^^^ enter s b := by
  unfold enter
  rw [← shift_xor]
  congr 1
  have hbits : (if a ^^ b then 1 else 0 : Register) =
      (if a then 1 else 0) ^^^ if b then 1 else 0 := by
    cases a <;> cases b <;> rfl
  rw [hbits]
  ac_rfl

/-- What two strings leave differs by what their difference leaves. -/
theorem foldl_enter_xor {a b : List Bool} (h : a.length = b.length) (r s : Register) :
    (List.zipWith (· ^^ ·) a b).foldl enter (r ^^^ s) = a.foldl enter r ^^^ b.foldl enter s := by
  induction a generalizing b r s with
  | nil => cases List.length_eq_zero_iff.mp h.symm; rfl
  | cons x a ih =>
    cases b with
    | nil => cases h
    | cons y b =>
      simp only [List.zipWith_cons_cons, List.foldl_cons, enter_xor]
      exact ih (Nat.succ.inj h) ..

/-- A bit enters at the low end, and what stands above it moves down. -/
theorem shift_xor_eq_enter (r x : Register) :
    shift (r ^^^ x) = enter r (x.getLsbD 0) ^^^ x >>> 1 := by
  have hx : shift x = shift (if x.getLsbD 0 then 1 else 0) ^^^ x >>> 1 := by
    cases h : x.getLsbD 0 with
    | false => rw [shift_of_even h]; exact (BitVec.zero_xor).symm
    | true => rw [shift_of_odd h, BitVec.xor_comm]; rfl
  rw [shift_xor, hx, enter, shift_xor]
  ac_rfl

/-- Shifting a sum `n` times is entering the low bits of one part into the other. -/
theorem iterate_shift_xor_eq_foldl (n : Nat) (r x : Register) :
    shift^[n] (r ^^^ x) = ((List.range n).map x.getLsbD).foldl enter r ^^^ x >>> n := by
  induction n with
  | zero => simp
  | succ n ih =>
    rw [Function.iterate_succ_apply', ih, shift_xor_eq_enter, List.range_succ, List.map_append,
      List.foldl_append, BitVec.shiftRight_add]
    simp

theorem foldl_enter_of_not_mem {d : List Bool} (h : true ∉ d) (r : Register) :
    d.foldl enter r = shift^[d.length] r := by
  induction d generalizing r with
  | nil => rfl
  | cons bit d ih =>
    obtain ⟨hbit, hd⟩ := not_or.mp (mt List.mem_cons.mpr h)
    rw [List.foldl_cons, ih hd, eq_false_of_ne_true (Ne.symm hbit), enter_false]
    rfl

/-! ## Bursts -/

/-- What `n` bits can clear is below `2 ^ n`. -/
theorem toNat_lt_of_cleared {d : List Bool} {r : Register} (h : d.foldl enter r = 0) :
    r.toNat < Nat.pow 2 d.length := by
  induction d generalizing r with
  | nil =>
    obtain rfl : r = 0 := h
    decide
  | cons bit d ih =>
    have hnext : (shift (r ^^^ if bit then 1 else 0)).toNat < Nat.pow 2 d.length := ih h
    have hpow : Nat.pow 2 (bit :: d).length = 2 * Nat.pow 2 d.length := Nat.pow_succ'
    have hhalf : (r ^^^ if bit then 1 else 0).toNat / 2 = r.toNat / 2 := by
      cases bit <;> simp [Nat.xor_div_two]
    cases hbit : (r ^^^ if bit then 1 else 0).getLsbD 0 with
    | true =>
      -- No fewer than 32 bits clear such a register, and every register is below `2 ^ 32`.
      have := le_toNat_shift hbit
      have := r.isLt
      simp only [Nat.pow_eq] at *
      omega
    | false =>
      rw [toNat_shift_of_even hbit, hhalf] at hnext
      omega

theorem not_mem_of_short {d : List Bool} (hlength : d.length ≤ 32) (h : d.foldl enter 0 = 0) :
    true ∉ d := by
  induction d with
  | nil => exact List.not_mem_nil
  | cons bit d ih =>
    rw [List.length_cons] at hlength
    cases bit with
    | false =>
      have := ih (Nat.le_of_succ_le hlength) h
      simpa using this
    | true =>
      have hlt : polynomial.toNat < Nat.pow 2 d.length := toNat_lt_of_cleared h
      have hle : Nat.pow 2 d.length ≤ Nat.pow 2 31 :=
        Nat.pow_le_pow_right Nat.two_pos (Nat.le_of_succ_le_succ hlength)
      exact absurd (Nat.lt_of_lt_of_le hlt hle) (by decide)

theorem eq_zero_of_cleared {d : List Bool} {r : Register} (hd : true ∉ d)
    (h : d.foldl enter r = 0) : r = 0 := by
  rw [foldl_enter_of_not_mem hd] at h
  exact eq_zero_of_iterate_shift h

/-- A burst leaves something in the register, wherever in a string it is. -/
theorem not_mem_of_burst {front d back : List Bool} (hfront : true ∉ front) (hback : true ∉ back)
    (hlength : d.length ≤ 32) (h : (front ++ d ++ back).foldl enter 0 = 0) : true ∉ d := by
  rw [List.foldl_append, List.foldl_append, foldl_enter_of_not_mem hfront, iterate_shift_zero] at h
  exact not_mem_of_short hlength (eq_zero_of_cleared hback h)

/-! ## Scattered bits -/

/-- Bits 6 to 20 of the register. -/
def window (r : Register) : BitVec 15 := r.extractLsb' 6 15

theorem window_xor (a b : Register) : window (a ^^^ b) = window a ^^^ window b :=
  BitVec.extractLsb'_xor

/-- Every place of the list is new to those before it and to the bits of `seen`. -/
def fresh : Nat → List Nat → Bool
  | _, [] => true
  | seen, place :: rest => !seen.testBit place && fresh (seen ||| 1 <<< place) rest

theorem nodup_of_fresh {seen : Nat} {places : List Nat} (h : fresh seen places = true) :
    places.Nodup ∧ ∀ place ∈ places, seen.testBit place = false := by
  induction places generalizing seen with
  | nil => simp
  | cons place rest ih =>
    simp only [fresh, Bool.and_eq_true, Bool.not_eq_true'] at h
    obtain ⟨hnew, hrest⟩ := h
    obtain ⟨hnodup, hseen⟩ := ih hrest
    simp only [Nat.testBit_or, Bool.or_eq_false_iff] at hseen
    refine ⟨List.nodup_cons.mpr ⟨?_, hnodup⟩, ?_⟩
    · intro hmem
      have := (hseen place hmem).2
      simp [Nat.testBit_shiftLeft] at this
    · intro p hp
      rcases List.mem_cons.mp hp with rfl | hp
      · exact hnew
      · exact (hseen p hp).1

/-- A window of fifteen bits tells 432 powers of the shift apart. -/
theorem nodup_windows :
    ((List.range 432).map fun i => (window (shift^[i] 1)).toNat).Nodup := by
  -- One scan that marks the places it has seen, since comparing every two of them takes too long.
  have hfresh : fresh 0 ((List.iterate shift 1 432).map fun r => (window r).toNat) = true := by
    decide +kernel
  rw [← List.range_map_iterate, List.map_map] at hfresh
  exact (nodup_of_fresh hfresh).1

/-- Two powers of the shift differ in more than the lowest bit. -/
theorem window_powers {i j : Nat} (hij : i < j) (hj : j < 432) :
    window (shift^[i] 1 ^^^ shift^[j] 1) ≠ 0 := by
  intro h
  have hwindow : window (shift^[i] 1) = window (shift^[j] 1) := by
    rw [window_xor] at h
    exact BitVec.xor_eq_zero_iff.mp h
  have hi := List.mem_range.mpr (Nat.lt_trans hij hj)
  have heq := List.inj_on_of_nodup_map nodup_windows hi (List.mem_range.mpr hj)
    (congrArg BitVec.toNat hwindow)
  exact Nat.ne_of_lt hij heq

/-- A difference, from its first bit on. -/
theorem foldl_enter_first {d : List Bool} (h : true ∈ d) :
    ∃ (i : Nat) (rest : List Bool), i + 1 + rest.length = d.length ∧
      rest.count true + 1 = d.count true ∧
      ∀ r, d.foldl enter r = rest.foldl enter (shift (shift^[i] r ^^^ 1)) := by
  obtain ⟨before, rest, rfl, hbefore⟩ := List.eq_append_cons_of_mem h
  refine ⟨before.length, rest, ?_, ?_, ?_⟩
  · simp; omega
  · simp [List.count_eq_zero_of_not_mem hbefore]
  · intro r
    rw [List.foldl_append, foldl_enter_of_not_mem hbefore]
    rfl

/-- Up to three bits leave something in the register, wherever within 432 bits they are. -/
theorem not_mem_of_sparse {d : List Bool} (hlength : d.length ≤ 432) (hcount : d.count true ≤ 3)
    (h : d.foldl enter 0 = 0) : true ∉ d := by
  intro hd
  obtain ⟨i, d₁, hlength₁, hcount₁, hfirst₁⟩ := foldl_enter_first hd
  rw [hfirst₁, iterate_shift_zero] at h
  -- One bit leaves the polynomial, two leave the sum of two powers of the shift and three that of
  -- three, after as many more shifts as the string has bits left.
  by_cases hd₁ : true ∈ d₁
  case neg => exact absurd (eq_zero_of_cleared hd₁ h) (by decide)
  obtain ⟨j, d₂, hlength₂, hcount₂, hfirst₂⟩ := foldl_enter_first hd₁
  have htwo : shift^[j] (shift (0 ^^^ 1)) = shift^[j + 1] 1 := rfl
  rw [hfirst₂, htwo] at h
  by_cases hd₂ : true ∈ d₂
  case neg =>
    have hsum : shift^[j + 1] 1 ^^^ 1 = 0 := eq_zero_of_shift (eq_zero_of_cleared hd₂ h)
    apply window_powers (Nat.zero_lt_succ j) (by omega)
    rw [Function.iterate_zero_apply, BitVec.xor_comm, hsum]
    rfl
  obtain ⟨k, d₃, hlength₃, hcount₃, hfirst₃⟩ := foldl_enter_first hd₂
  have hd₃ : true ∉ d₃ := List.count_eq_zero.mp (by omega)
  rw [hfirst₃] at h
  have hsum : shift^[k + 1] (shift^[j + 1] 1 ^^^ 1) ^^^ 1 = 0 :=
    eq_zero_of_shift (eq_zero_of_cleared hd₃ h)
  have hpowers : shift^[k + 1] 1 ^^^ shift^[k + 1 + (j + 1)] 1 = 1 := by
    calc shift^[k + 1] 1 ^^^ shift^[k + 1 + (j + 1)] 1
        = shift^[k + 1] (shift^[j + 1] 1 ^^^ 1) := by
          rw [iterate_shift_xor, BitVec.xor_comm, Function.iterate_add_apply (m := k + 1)]
      _ = 1 := BitVec.xor_eq_zero_iff.mp hsum
  have hlt : k + 1 < k + 1 + (j + 1) := by omega
  apply window_powers hlt (by omega)
  rw [hpowers]
  rfl

end FireControl.Calibration.Register
