import FireControl.Proofs.Calibration.Persistence
import FireControl.Proofs.Calibration.Remainder

/-!
# Small corruptions of a calibration file

In a file that passes its check, the payload and the stored checksum behind it lead the register to
one and the same value (`foldl_feed_checked`). So where two files pass, the difference of their
bits, in that order, leaves nothing in a register of zeros (`cleared_of_passes`). Four bytes in a
row and three bits anywhere are differences that always leave something, and a file that differs so
little from that of a table is refused.
-/

namespace FireControl

namespace Bytes

/-- The bits of a byte string, the least significant bit of each byte first. -/
def bits (bytes : Bytes) : List Bool := bytes.flatMap fun b => (List.range 8).map b.toNat.testBit

/-- Bit by bit, whether two byte strings differ. -/
def flips (a b : Bytes) : List Bool := List.zipWith (· ^^ ·) a.bits b.bits

theorem bits_cons (b : UInt8) (rest : Bytes) :
    bits (b :: rest) = (List.range 8).map b.toNat.testBit ++ rest.bits := List.flatMap_cons

theorem bits_append (a b : Bytes) : (a ++ b).bits = a.bits ++ b.bits := List.flatMap_append

@[simp] theorem length_bits (bytes : Bytes) : bytes.bits.length = 8 * bytes.length := by
  induction bytes with
  | nil => rfl
  | cons b rest ih =>
    rw [bits_cons, List.length_append, ih, List.length_cons, List.length_map, List.length_range]
    omega

/-- The bits are those of the number in the bytes, the lowest first. -/
theorem bits_eq_range (bytes : Bytes) :
    bytes.bits = (List.range (8 * bytes.length)).map (toNat bytes).testBit := by
  induction bytes with
  | nil => rfl
  | cons b rest ih =>
    have hbit : ∀ i, (toNat (b :: rest)).testBit i =
        if i < 8 then b.toNat.testBit i else (toNat rest).testBit (i - 8) := by
      intro i
      rw [toNat, Nat.add_comm]
      exact Nat.testBit_two_pow_mul_add (toNat rest) b.toNat_lt i
    rw [bits_cons, ih, List.length_cons, Nat.mul_succ, Nat.add_comm, List.range_add,
      List.map_append, List.map_map]
    congr 1
    · apply List.map_congr_left
      intro i hi
      rw [hbit, if_pos (List.mem_range.mp hi)]
    · apply List.map_congr_left
      intro i _
      simp [hbit]

theorem testBit_of_length_le {bytes : Bytes} {i : Nat} (h : 8 * bytes.length ≤ i) :
    (toNat bytes).testBit i = false := by
  apply Nat.testBit_lt_two_pow
  calc toNat bytes
      < Nat.pow 256 bytes.length := toNat_lt bytes
    _ = 2 ^ (8 * bytes.length) := by rw [Nat.pow_mul]; rfl
    _ ≤ 2 ^ i := Nat.pow_le_pow_right Nat.two_pos h

theorem eq_of_bits {a b : Bytes} (h : a.bits = b.bits) : a = b := by
  have hlength : a.length = b.length := by
    have height := congrArg List.length h
    rw [length_bits, length_bits] at height
    omega
  rw [bits_eq_range, bits_eq_range, hlength] at h
  have hnumber : toNat a = toNat b := by
    apply Nat.eq_of_testBit_eq
    intro i
    by_cases hi : i < 8 * b.length
    · exact List.map_inj_left.mp h i (List.mem_range.mpr hi)
    · rw [testBit_of_length_le (by omega), testBit_of_length_le (by omega)]
  rw [← ofNat_toNat a, ← ofNat_toNat b, hlength, hnumber]

theorem length_flips {a b : Bytes} (h : a.length = b.length) :
    (flips a b).length = 8 * a.length := by
  simp [flips, h]

theorem flips_append {a b : Bytes} (h : a.length = b.length) (c d : Bytes) :
    flips (a ++ c) (b ++ d) = flips a b ++ flips c d := by
  rw [flips, bits_append, bits_append]
  exact List.zipWith_append (by simp [h])

theorem not_mem_flips_self (a : Bytes) : true ∉ flips a a := by
  simp [flips, List.zipWith_self]

/-- Where nothing is flipped, nothing differs. -/
theorem eq_of_not_mem_flips {a b : Bytes} (hlength : a.length = b.length)
    (h : true ∉ flips a b) : a = b := by
  apply eq_of_bits
  apply List.ext_getElem (by simp [hlength])
  intro i hi hi'
  have hflip : (a.bits[i] ^^ b.bits[i]) ∈ flips a b := by
    rw [← List.getElem_zipWith (f := (· ^^ ·)) (h := by simp_all)]
    exact List.getElem_mem _
  have hsame : (a.bits[i] ^^ b.bits[i]) = false :=
    eq_false_of_ne_true fun htrue => h (htrue ▸ hflip)
  simpa using hsame

end Bytes

namespace Calibration

namespace Register

/-- A byte enters bit by bit. -/
theorem feed_eq_foldl (r : Register) (b : UInt8) :
    feed r b = ((List.range 8).map b.toNat.testBit).foldl enter r := by
  have hbits : (List.range 8).map (b.toBitVec.zeroExtend 32).getLsbD =
      (List.range 8).map b.toNat.testBit := by
    apply List.map_congr_left
    intro i hi
    have := List.mem_range.mp hi
    rw [BitVec.zeroExtend, BitVec.getLsbD_setWidth, decide_eq_true (by omega), Bool.true_and]
    rfl
  have hhigh : b.toBitVec.zeroExtend 32 >>> 8 = 0 := by
    apply BitVec.eq_of_toNat_eq
    have := b.toNat_lt
    simp [Nat.shiftRight_eq_div_pow]
    omega
  calc feed r b
      = shift^[8] (r ^^^ b.toBitVec.zeroExtend 32) := rfl
    _ = ((List.range 8).map b.toNat.testBit).foldl enter r := by
      rw [iterate_shift_xor_eq_foldl, hbits, hhigh]
      exact BitVec.xor_zero

theorem foldl_feed (bytes : Bytes) (r : Register) :
    bytes.foldl feed r = bytes.bits.foldl enter r := by
  induction bytes generalizing r with
  | nil => rfl
  | cons b rest ih =>
    rw [List.foldl_cons, ih, Bytes.bits_cons, List.foldl_append, feed_eq_foldl]

/-- Four bytes enter as one word. -/
theorem foldl_feed_word {bytes : Bytes} (h : bytes.length = 4) (r : Register) :
    bytes.foldl feed r = shift^[32] (r ^^^ (Bytes.toWord bytes).toBitVec) := by
  have hbits : bytes.bits = (List.range 32).map (Bytes.toWord bytes).toBitVec.getLsbD := by
    rw [Bytes.bits_eq_range, h]
    apply List.map_congr_left
    intro i hi
    have := List.mem_range.mp hi
    rw [Bytes.toWord, UInt32.toBitVec_ofNat', BitVec.getLsbD_ofNat, decide_eq_true (by omega),
      Bool.true_and]
  have hhigh : (Bytes.toWord bytes).toBitVec >>> 32 = 0 := BitVec.ushiftRight_eq_zero (by decide)
  rw [iterate_shift_xor_eq_foldl, hhigh, foldl_feed, hbits]
  exact BitVec.xor_zero.symm

end Register

/-! ## Files that pass -/

/-- A file in the order in which its check goes through it. -/
def checked (file : Bytes) : Bytes := file.drop 4 ++ file.take 4

/-- The stored checksum is that of the payload. -/
def Passes (file : Bytes) : Prop := Bytes.toWord (file.take 4) = checksum (file.drop 4)

/-- Every file that passes leads to one register. -/
theorem foldl_feed_checked {file : Bytes} (hlength : 4 ≤ file.length) (h : Passes file) :
    (checked file).foldl Register.feed (BitVec.allOnes 32) =
      Register.shift^[32] (BitVec.allOnes 32) := by
  have hstored : (file.take 4).length = 4 := by simpa using hlength
  rw [checked, List.foldl_append, Register.foldl_feed_word hstored, h, checksum]
  congr 1
  change _ ^^^ ~~~_ = _
  rw [← BitVec.xor_allOnes, ← BitVec.xor_assoc, BitVec.xor_self, BitVec.zero_xor]

/-- The difference of two files that pass leaves nothing in a register of zeros. -/
theorem cleared_of_passes {a b : Bytes} (hlength : a.length = b.length) (hfour : 4 ≤ a.length)
    (ha : Passes a) (hb : Passes b) :
    (Bytes.flips (checked a) (checked b)).foldl Register.enter 0 = 0 := by
  have hbits : (checked a).bits.length = (checked b).bits.length := by
    simp [checked, hlength]
  calc (Bytes.flips (checked a) (checked b)).foldl Register.enter 0
      = (Bytes.flips (checked a) (checked b)).foldl Register.enter
          (BitVec.allOnes 32 ^^^ BitVec.allOnes 32) := rfl
    _ = Register.shift^[32] (BitVec.allOnes 32) ^^^ Register.shift^[32] (BitVec.allOnes 32) := by
      rw [Bytes.flips, Register.foldl_enter_xor hbits, ← Register.foldl_feed, ← Register.foldl_feed,
        foldl_feed_checked hfour ha, foldl_feed_checked (hlength ▸ hfour) hb]
    _ = 0 := BitVec.xor_self

/-! ## Small corruptions -/

/-- A small difference between two files of one length. -/
inductive Slight (a b : Bytes) : Prop
  /-- Up to four bytes of the payload in a row. -/
  | payload (start : Nat) (after : 4 ≤ start) (before : a.take start = b.take start)
      (beyond : a.drop (start + 4) = b.drop (start + 4))
  /-- The stored checksum. -/
  | stored (same : a.drop 4 = b.drop 4)
  /-- Up to three bits anywhere. -/
  | bits (few : (Bytes.flips a b).count true ≤ 3)

section Differences
variable {a b : Bytes}

theorem eq_of_checked (hlength : a.length = b.length) (h : checked a = checked b) : a = b := by
  obtain ⟨hpayload, hstored⟩ := List.append_inj h (by simp [hlength])
  rw [← List.take_append_drop 4 a, hstored, hpayload, List.take_append_drop]

/-- A file around four bytes of its payload. -/
theorem checked_eq_around {start : Nat} (h : 4 ≤ start) (file : Bytes) :
    checked file = (file.take start).drop 4 ++ (file.drop start).take 4 ++
      (file.drop (start + 4) ++ (file.take start).take 4) := by
  have hpayload : file.drop 4 = (file.take start).drop 4 ++ file.drop start := by
    have hdrop : file.drop start = (file.drop 4).drop (start - 4) := by
      rw [List.drop_drop, Nat.add_sub_cancel' h]
    rw [List.drop_take, hdrop, List.take_append_drop]
  have hwindow : (file.drop start).take 4 ++ file.drop (start + 4) = file.drop start := by
    rw [← List.drop_drop, List.take_append_drop]
  have hstored : (file.take start).take 4 = file.take 4 := by
    rw [List.take_take, Nat.min_eq_left h]
  calc checked file
      = (file.take start).drop 4 ++ file.drop start ++ file.take 4 := by rw [checked, hpayload]
    _ = (file.take start).drop 4 ++ ((file.drop start).take 4 ++ file.drop (start + 4)) ++
        (file.take start).take 4 := by rw [hwindow, hstored]
    _ = (file.take start).drop 4 ++ (file.drop start).take 4 ++
        (file.drop (start + 4) ++ (file.take start).take 4) := by simp only [List.append_assoc]

/-- Four bytes do not change alone. -/
theorem eq_of_burst {front back : Bytes} (hlength : a.length = b.length) (hfour : a.length ≤ 4)
    (h : (Bytes.flips (front ++ a ++ back) (front ++ b ++ back)).foldl Register.enter 0 = 0) :
    a = b := by
  rw [Bytes.flips_append (by simp [hlength]), Bytes.flips_append rfl] at h
  apply Bytes.eq_of_not_mem_flips hlength
  apply Register.not_mem_of_burst (Bytes.not_mem_flips_self _) (Bytes.not_mem_flips_self _) ?_ h
  rw [Bytes.length_flips hlength]
  omega

theorem count_flips_checked (hlength : a.length = b.length) :
    (Bytes.flips (checked a) (checked b)).count true = (Bytes.flips a b).count true := by
  have hsplit : Bytes.flips a b = Bytes.flips (a.take 4) (b.take 4) ++
      Bytes.flips (a.drop 4) (b.drop 4) := by
    rw [← Bytes.flips_append (by simp [hlength]), List.take_append_drop, List.take_append_drop]
  rw [checked, checked, Bytes.flips_append (by simp [hlength]), hsplit, List.count_append,
    List.count_append, Nat.add_comm]

/-- Of files that differ slightly, at most one passes. -/
theorem eq_of_slight (hlength : a.length = b.length) (hfour : 4 ≤ a.length)
    (hfits : a.length ≤ 54) (h : Slight a b) (ha : Passes a) (hb : Passes b) : a = b := by
  have hcleared := cleared_of_passes hlength hfour ha hb
  apply eq_of_checked hlength
  cases h with
  | payload start hafter hbefore hbeyond =>
    rw [checked_eq_around hafter, checked_eq_around hafter, hbefore, hbeyond] at hcleared ⊢
    rw [eq_of_burst (by simp [hlength]) (by simp) hcleared]
  | stored hsame =>
    rw [checked, checked, hsame, ← List.append_nil (_ ++ a.take 4),
      ← List.append_nil (_ ++ b.take 4)] at hcleared
    rw [checked, checked, hsame, eq_of_burst (by simp [hlength]) (by simp) hcleared]
  | bits hfew =>
    have hchecked : (checked a).length = (checked b).length := by simp [checked, hlength]
    apply Bytes.eq_of_not_mem_flips hchecked
    apply Register.not_mem_of_sparse ?_ ?_ hcleared
    · rw [Bytes.length_flips hchecked]
      simp [checked]
      omega
    · rwa [count_flips_checked hlength]

end Differences

/-- The fault that names both checksums of a file, the stored one and that of its payload. -/
def mismatch (file : Bytes) : Fault :=
  .checksumMismatch (Bytes.toWord (file.take 4)) (checksum (file.drop 4))

theorem decode_of_not_passes {file : Bytes} (hlength : file.length = Table.fileLength)
    (h : ¬ Passes file) : Table.decode file = .error (mismatch file) := by
  rw [Table.decode, if_neg (by simp [hlength])]
  exact if_pos h

theorem passes_encode (t : Table) : Passes t.encode := by
  simp [Passes, Table.encode, Table.checksum]

/-- A file that differs slightly from the file of a table is refused for its checksum. A store is
not opened on it, or opened blank. -/
theorem slight_corruption_is_refused (t : Table) {file : Bytes}
    (hlength : file.length = Table.fileLength) (hne : file ≠ t.encode)
    (h : Slight t.encode file) :
    ¬ Passes file ∧ Table.decode file = .error (mismatch file) ∧
      ∀ (files : FileSystem) (path : String), files.read path = .ok file →
        Store.open? files path = .error (mismatch file) ∧
          Store.openOrBlank files path = (.ofTable path {}, some (mismatch file)) := by
  have hpasses : ¬ Passes file := by
    intro hfile
    apply hne
    have hsame : t.encode.length = file.length := by rw [hlength, t.length_encode]
    exact (eq_of_slight hsame (by simp [Table.fileLength]) (by simp [Table.fileLength]) h
      (passes_encode t) hfile).symm
  have hdecode := decode_of_not_passes hlength hpasses
  refine ⟨hpasses, hdecode, ?_⟩
  intro files path hread
  have hopen : Store.open? files path = .error (mismatch file) := by
    rw [Store.open?, Store.load, hread]
    simp only [hdecode]
    rfl
  exact ⟨hopen, openOrBlank_of_error hopen⟩

/-- One bit of the stored checksum and two far apart in the payload. -/
theorem slight_corruption_is_refused_three_bits :
    ∃ (t : Table) (file : Bytes) (files : FileSystem),
      (Bytes.flips t.encode file).count true = 3 ∧ files.read "cal" = .ok file ∧
        Store.open? files "cal" = .error (.checksumMismatch 0xFE27B417 0x57FCD54E) ∧
        Store.openOrBlank files "cal" =
          (.ofTable "cal" {}, some (.checksumMismatch 0xFE27B417 0x57FCD54E)) := by
  let t : Table := { drop := #v[30, 28, 25, 21, -16] }
  let file := ((t.encode.modify 0 (· ^^^ 1)).modify 17 (· ^^^ 0x80)).modify 53 (· ^^^ 8)
  have hcount : (Bytes.flips t.encode file).count true = 3 := by decide +kernel
  have hfault : mismatch file = .checksumMismatch 0xFE27B417 0x57FCD54E := by decide +kernel
  have hwrite : FileSystem.empty.write "cal" file = (.ok (), .put .empty ["cal"] (.file file)) :=
    FileSystem.write_plain plain_cal rfl (by decide) file
  have hread : (FileSystem.empty.write "cal" file).2.read "cal" = .ok file :=
    FileSystem.read_write (congrArg Prod.fst hwrite)
  have hlength : file.length = Table.fileLength := by simp [file]
  have hne : file ≠ t.encode := by decide +kernel
  obtain ⟨-, -, hrefused⟩ :=
    slight_corruption_is_refused t hlength hne (.bits (Nat.le_of_eq hcount))
  rw [hfault] at hrefused
  exact ⟨t, file, _, hcount, hread, hrefused _ _ hread⟩

end Calibration
end FireControl
