/-!
# Byte strings and little-endian words

A byte string is a list of bytes. Every number on the wire is written least significant byte first:
`Bytes.ofNat w n` writes `n` in `w` bytes, `Bytes.toNat` reads them back, and `toNat_ofNat` and
`ofNat_toNat` say that the two agree in both directions. Words are read and written through their
natural value, so that every bit pattern survives.
-/

namespace FireControl

abbrev Bytes := List UInt8

namespace Bytes

/-- The `width` low-order bytes of `n`, least significant first. -/
def ofNat : Nat → Nat → Bytes
  | 0, _ => []
  | width + 1, n => UInt8.ofNat n :: ofNat width (n / 256)

/-- The number written least significant byte first. -/
def toNat : Bytes → Nat
  | [] => 0
  | b :: rest => b.toNat + 256 * toNat rest

def ofWord (w : UInt32) : Bytes := ofNat 4 w.toNat

def toWord (bytes : Bytes) : UInt32 := UInt32.ofNat (toNat bytes)

/-- The two bytes of a signed 16-bit value, in two's complement. -/
def ofInt16 (v : Int16) : Bytes := ofNat 2 v.toUInt16.toNat

/-- The signed 16-bit value in two bytes. -/
def toInt16 (bytes : Bytes) : Int16 := (UInt16.ofNat (toNat bytes)).toInt16

/-- The first `count` bytes and the bytes after them; `none` if there are fewer than `count`. -/
def take? (count : Nat) (bytes : Bytes) : Option (Bytes × Bytes) :=
  let front := bytes.take count
  if front.length < count then none else some (front, bytes.drop count)

/-- Splits off pieces of `stride` bytes; what is left at the end is dropped. -/
def chunks (stride : Nat) : Nat → Bytes → List Bytes
  | 0, _ => []
  | count + 1, bytes => bytes.take stride :: chunks stride count (bytes.drop stride)

@[simp] theorem length_ofNat (width n : Nat) : (ofNat width n).length = width := by
  induction width generalizing n with
  | zero => rfl
  | succ width ih => simp [ofNat, ih]

theorem toNat_ofNat (width n : Nat) : toNat (ofNat width n) = n % Nat.pow 256 width := by
  induction width generalizing n with
  | zero => simp [ofNat, toNat, Nat.mod_one]
  | succ width ih =>
    simp only [ofNat, toNat, ih, UInt8.toNat_ofNat', Nat.pow_eq, Nat.pow_succ']
    exact (Nat.mod_mul ..).symm

theorem toNat_lt (bytes : Bytes) : toNat bytes < Nat.pow 256 bytes.length := by
  induction bytes with
  | nil => simp [toNat]
  | cons b rest ih =>
    have := b.toNat_lt
    simp only [toNat, List.length_cons, Nat.pow_eq, Nat.pow_succ] at ih ⊢
    omega

theorem ofNat_toNat (bytes : Bytes) : ofNat bytes.length (toNat bytes) = bytes := by
  induction bytes with
  | nil => rfl
  | cons b rest ih =>
    have hb := b.toNat_lt
    have hdiv : (b.toNat + 256 * toNat rest) / 256 = toNat rest := by omega
    have hmod : UInt8.ofNat (b.toNat + 256 * toNat rest) = b := by
      apply UInt8.toNat_inj.mp
      simp only [UInt8.toNat_ofNat']
      omega
    simp [ofNat, toNat, hdiv, hmod, ih]

@[simp] theorem length_ofWord (w : UInt32) : (ofWord w).length = 4 := length_ofNat ..

@[simp] theorem length_ofInt16 (v : Int16) : (ofInt16 v).length = 2 := length_ofNat ..

@[simp] theorem toWord_ofWord (w : UInt32) : toWord (ofWord w) = w := by
  apply UInt32.toNat_inj.mp
  have := w.toNat_lt
  simp only [toWord, ofWord, toNat_ofNat, UInt32.toNat_ofNat', Nat.pow_eq]
  omega

@[simp] theorem toInt16_ofInt16 (v : Int16) : toInt16 (ofInt16 v) = v := by
  have h : UInt16.ofNat (toNat (ofInt16 v)) = v.toUInt16 := by
    apply UInt16.toNat_inj.mp
    have := v.toUInt16.toNat_lt
    simp only [ofInt16, toNat_ofNat, UInt16.toNat_ofNat', Nat.pow_eq]
    omega
  simp [toInt16, h]

theorem ofWord_toWord {bytes : Bytes} (h : bytes.length = 4) : ofWord (toWord bytes) = bytes := by
  have hlt := toNat_lt bytes
  have hround := ofNat_toNat bytes
  rw [h] at hlt hround
  unfold ofWord toWord
  rwa [UInt32.toNat_ofNat', Nat.mod_eq_of_lt hlt]

theorem ofInt16_toInt16 {bytes : Bytes} (h : bytes.length = 2) :
    ofInt16 (toInt16 bytes) = bytes := by
  have hlt := toNat_lt bytes
  have hround := ofNat_toNat bytes
  rw [h] at hlt hround
  unfold ofInt16 toInt16
  rwa [UInt16.toUInt16_toInt16, UInt16.toNat_ofNat', Nat.mod_eq_of_lt hlt]

/-- Entries of one width take that width each. -/
theorem length_flatMap {α : Type} {write : α → Bytes} {width : Nat}
    (h : ∀ entry, (write entry).length = width) (entries : List α) :
    (entries.flatMap write).length = width * entries.length := by
  induction entries with
  | nil => rfl
  | cons entry entries ih =>
    rw [List.flatMap_cons, List.length_append, h, ih, List.length_cons, Nat.mul_succ, Nat.add_comm]

theorem take?_eq_some {count : Nat} {bytes front rest : Bytes} :
    take? count bytes = some (front, rest) ↔ bytes = front ++ rest ∧ front.length = count := by
  unfold take?
  constructor
  · intro h
    simp only at h
    split at h
    · cases h
    · simp only [Option.some.injEq, Prod.mk.injEq] at h
      obtain ⟨rfl, rfl⟩ := h
      refine ⟨(List.take_append_drop ..).symm, ?_⟩
      have := List.length_take_le count bytes
      omega
  · rintro ⟨rfl, rfl⟩
    simp

theorem take?_eq_none {count : Nat} {bytes : Bytes} :
    take? count bytes = none ↔ bytes.length < count := by
  unfold take?
  simp only [List.length_take]
  split
  · exact ⟨fun _ => by omega, fun _ => rfl⟩
  · exact ⟨nofun, fun h => by omega⟩

end Bytes

end FireControl
