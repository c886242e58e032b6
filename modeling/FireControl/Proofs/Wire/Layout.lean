import Mathlib.Algebra.Ring.Nat
import FireControl.Wire.Frame

/-!
# The layout of headers, records and frames

Reading has a closed form once there are enough bytes: a header's fields are the eight words after
the magic word (`Header.readFields_eq`) and a frame is what its stated length covers
(`Frame.decode_eq_ok`). Writing and reading agree (`Record.walk_encode`, `Frame.records_sent`):
what was encoded is read back, whatever follows it.
-/

namespace FireControl.Wire

/-! ## Reading off the front -/

theorem read_append {front rest : Bytes} :
    read front.length (front ++ rest) = .ok (front, rest) := by
  have hsplit : (front ++ rest).take? front.length = some (front, rest) :=
    Bytes.take?_eq_some.mpr ⟨rfl, rfl⟩
  unfold read
  rw [hsplit]

theorem read_of_le {count : Nat} {bytes : Bytes} (h : count ≤ bytes.length) :
    read count bytes = .ok (bytes.take count, bytes.drop count) := by
  have hsplit := @read_append (bytes.take count) (bytes.drop count)
  rwa [List.take_append_drop, List.length_take_of_le h] at hsplit

theorem readWord_of_le {bytes : Bytes} (h : 4 ≤ bytes.length) :
    readWord bytes = .ok (Bytes.toWord (bytes.take 4), bytes.drop 4) := by
  unfold readWord
  rw [read_of_le h]
  rfl

theorem readWord_ofWord (w : UInt32) (rest : Bytes) :
    readWord (Bytes.ofWord w ++ rest) = .ok (w, rest) := by
  have hread : read 4 (Bytes.ofWord w ++ rest) = .ok (Bytes.ofWord w, rest) := by
    have h := @read_append (Bytes.ofWord w) rest
    rwa [Bytes.length_ofWord] at h
  unfold readWord
  rw [hread]
  simp [Except.map]

/-! ## Headers -/

/-- The word that starts `offset` bytes into `bytes`. -/
def wordAt (offset : Nat) (bytes : Bytes) : UInt32 := Bytes.toWord ((bytes.drop offset).take 4)

theorem wordAt_append {offset : Nat} {front : Bytes} (rest : Bytes)
    (h : offset + 4 ≤ front.length) : wordAt offset (front ++ rest) = wordAt offset front := by
  unfold wordAt
  rw [List.drop_append_of_le_length (by omega), List.take_append_of_le_length]
  rw [List.length_drop]
  omega

namespace Header

/-- The header with the fields that follow the magic word. -/
def ofFields (fields : Bytes) : Header :=
  { version := wordAt 0 fields
    totalLength := wordAt 4 fields
    platform := wordAt 8 fields
    frameNumber := wordAt 12 fields
    cycles := wordAt 16 fields
    detectedObjects := wordAt 20 fields
    recordCount := wordAt 24 fields
    subframeNumber := wordAt 28 fields }

theorem readFields_eq {fields : Bytes} (h : 32 ≤ fields.length) :
    readFields fields = .ok (ofFields fields, fields.drop 32) := by
  have hword : ∀ offset, offset + 4 ≤ 32 → readWord (fields.drop offset) =
      .ok (wordAt offset fields, fields.drop (offset + 4)) := by
    intro offset hoffset
    rw [readWord_of_le (by rw [List.length_drop]; omega), List.drop_drop]
    rfl
  have hfirst : readWord fields = .ok (wordAt 0 fields, fields.drop 4) := hword 0 (by decide)
  unfold readFields
  simp only [hfirst, hword, bind, Except.bind, Nat.reduceAdd, Nat.reduceLeDiff]
  rfl

theorem ofFields_append {fields : Bytes} (rest : Bytes) (h : fields.length = 32) :
    ofFields (fields ++ rest) = ofFields fields := by
  unfold ofFields
  simp only [wordAt_append rest, h, Nat.reduceAdd, Nat.reduceLeDiff]

theorem decode_magic (rest : Bytes) : decode (magic ++ rest) = readFields rest := by
  unfold decode
  rw [read_append]
  rfl

theorem readFields_encode (h : Header) (rest : Bytes) :
    readFields (h.fields.flatMap Bytes.ofWord ++ rest) = .ok (h, rest) := by
  unfold readFields fields
  simp only [List.flatMap_cons, List.flatMap_nil, List.append_assoc, readWord_ofWord, bind,
    Except.bind]
  rfl

theorem length_encodeFields (h : Header) : (h.fields.flatMap Bytes.ofWord).length = 32 := by
  simp [fields]

theorem ofFields_encode (h : Header) : ofFields (h.fields.flatMap Bytes.ofWord) = h := by
  have hread := readFields_encode h []
  rw [List.append_nil, readFields_eq (Nat.le_of_eq (length_encodeFields h).symm)] at hread
  exact congrArg Prod.fst (Except.ok.inj hread)

theorem length_encode (h : Header) : h.encode.length = 40 := by
  unfold encode
  rw [List.length_append, length_encodeFields]
  rfl

theorem bodyLength_eq_ok {h : Header} {limit n : Nat} :
    h.bodyLength limit = .ok n ↔
      40 ≤ h.totalLength.toNat ∧ h.totalLength.toNat ≤ limit ∧ n + 40 = h.totalLength.toNat := by
  have hforty : headerLength = 40 := rfl
  unfold bodyLength
  split
  · simp only [reduceCtorEq, false_iff]
    omega
  · simp only [Except.ok.injEq]
    omega

theorem bodyLength_eq_error {h : Header} {limit : Nat} {e : FrameError}
    (herror : h.bodyLength limit = .error e) :
    h.totalLength.toNat < 40 ∨ limit < h.totalLength.toNat := by
  unfold bodyLength at herror
  split at herror
  · next hrange => exact hrange
  · cases herror

end Header

/-! ## Records -/

namespace Record

/-- The length word states the length of a payload that is not too long for it. -/
theorem decode_encode {r : Record} (h : r.payload.length < 2 ^ 32) (rest : Bytes) :
    decode (r.encode ++ rest) = .ok (r, rest) := by
  have hlength : r.length.toNat = r.payload.length := by
    unfold length
    rw [UInt32.toNat_ofNat']
    exact Nat.mod_eq_of_lt h
  unfold decode encode
  simp only [List.append_assoc, readWord_ofWord, bind, Except.bind, hlength, read_append]
  rfl

theorem length_encode (r : Record) : r.encode.length = 8 + r.payload.length := by
  unfold encode
  simp only [List.length_append, Bytes.length_ofWord]

theorem ofCount_ofNat {n : Nat} (h : n < 2 ^ 32) :
    Due.ofCount (UInt32.ofNat n) = .untilEnd ∨ Due.ofCount (UInt32.ofNat n) = .counted n := by
  have hcount : (UInt32.ofNat n).toNat = n := by
    rw [UInt32.toNat_ofNat']
    exact Nat.mod_eq_of_lt h
  unfold Due.ofCount
  split
  · exact Or.inl rfl
  · exact Or.inr (congrArg Due.counted hcount)

/-- Walking through encoded records gives them back. Padding may follow where they are counted. -/
theorem walk_encode {records : List Record} (h : ∀ r ∈ records, r.payload.length < 2 ^ 32)
    {due : Due} {padding : Bytes} (index : Nat)
    (hdue : (due = .untilEnd ∧ padding = []) ∨ due = .counted records.length) :
    walk due index (records.flatMap encode ++ padding) = records.map .ok := by
  induction records generalizing due index with
  | nil =>
    rw [List.flatMap_nil, walk, if_pos]
    · rfl
    · rcases hdue with ⟨rfl, rfl⟩ | rfl <;> rfl
  | cons r records ih =>
    have hnext : (due.next = .untilEnd ∧ padding = []) ∨ due.next = .counted records.length := by
      rcases hdue with ⟨rfl, hpadding⟩ | rfl
      · exact Or.inl ⟨rfl, hpadding⟩
      · exact Or.inr rfl
    have hmore : ¬ due.isOver ((r :: records).flatMap encode ++ padding) = true := by
      rcases hdue with ⟨rfl, -⟩ | rfl
      · intro hover
        change ((r :: records).flatMap encode ++ padding).isEmpty = true at hover
        have hempty := congrArg List.length (List.isEmpty_iff.mp hover)
        rw [List.flatMap_cons, List.length_append, List.length_append, length_encode,
          List.length_nil] at hempty
        omega
      · simp [Due.isOver]
    have hdecode := decode_encode (h r List.mem_cons_self) (records.flatMap encode ++ padding)
    rw [← List.append_assoc] at hdecode
    rw [walk, if_neg hmore]
    split
    · next e herror =>
      rw [List.flatMap_cons, hdecode] at herror
      cases herror
    · next r' rest hok =>
      rw [List.flatMap_cons, hdecode] at hok
      cases hok
      rw [ih (fun x hx => h x (List.mem_cons_of_mem _ hx)) (index + 1) hnext]
      rfl

end Record

/-! ## Frames -/

namespace Frame

/-- A frame read off the front is what its stated length covers. -/
theorem decode_eq_ok {fields rest : Bytes} {limit n : Nat} (hfields : fields.length = 32)
    (hlength : (Header.ofFields fields).bodyLength limit = .ok n) (hrest : n ≤ rest.length) :
    decode (magic ++ fields ++ rest) limit = .ok ⟨Header.ofFields fields, rest.take n⟩ := by
  have hread : Header.readFields (fields ++ rest) = .ok (Header.ofFields fields, rest) := by
    rw [Header.readFields_eq (by rw [List.length_append]; omega)]
    rw [Header.ofFields_append rest hfields, List.drop_append_of_le_length (by omega),
      List.drop_of_length_le (by omega), List.nil_append]
  unfold decode
  simp only [List.append_assoc, Header.decode_magic, hread, hlength, read_of_le hrest, bind,
    Except.bind]
  rfl

/-- The header of an encoded frame. -/
def headerOf (frameNumber cycles : UInt32) (records : List Record) : Header :=
  { version := 0
    totalLength := UInt32.ofNat (headerLength + (records.flatMap Record.encode).length)
    platform := 0
    frameNumber
    cycles
    detectedObjects := 0
    recordCount := UInt32.ofNat records.length
    subframeNumber := 0 }

/-- The frame that is encoded. -/
def sent (frameNumber cycles : UInt32) (records : List Record) : Frame :=
  ⟨headerOf frameNumber cycles records, records.flatMap Record.encode⟩

theorem encode_eq (frameNumber cycles : UInt32) (records : List Record) :
    encode frameNumber cycles records =
      (headerOf frameNumber cycles records).encode ++ records.flatMap Record.encode := rfl

theorem length_encode (frameNumber cycles : UInt32) (records : List Record) :
    (encode frameNumber cycles records).length = 40 + (records.flatMap Record.encode).length := by
  rw [encode_eq, List.length_append, Header.length_encode]

theorem length_body_le {r : Record} {records : List Record} (hr : r ∈ records) :
    r.payload.length ≤ (records.flatMap Record.encode).length := by
  obtain ⟨before, after, rfl⟩ := List.append_of_mem hr
  have hlength := Record.length_encode r
  simp only [List.flatMap_append, List.flatMap_cons, List.length_append]
  omega

/-- A record takes at least eight bytes. -/
theorem count_le (records : List Record) :
    records.length ≤ (records.flatMap Record.encode).length := by
  induction records with
  | nil => exact Nat.le_refl 0
  | cons r records ih =>
    have hlength := Record.length_encode r
    simp only [List.flatMap_cons, List.length_append, List.length_cons]
    omega

theorem payload_lt {records : List Record} (h : (records.flatMap Record.encode).length < 2 ^ 32) :
    ∀ r ∈ records, r.payload.length < 2 ^ 32 :=
  fun _ hr => Nat.lt_of_le_of_lt (length_body_le hr) h

section Sent
variable {frameNumber cycles : UInt32} {records : List Record}
  (h : (encode frameNumber cycles records).length < 2 ^ 32)
include h

/-- A length that fits a word is the one that the header states. -/
theorem totalLength_headerOf : (headerOf frameNumber cycles records).totalLength.toNat =
    40 + (records.flatMap Record.encode).length := by
  rw [length_encode] at h
  show (UInt32.ofNat (40 + (records.flatMap Record.encode).length)).toNat = _
  rw [UInt32.toNat_ofNat']
  exact Nat.mod_eq_of_lt h

/-- The records of a frame as it was encoded are the records that were encoded. -/
theorem records_sent : (sent frameNumber cycles records).records = records.map .ok := by
  have hbody : (records.flatMap Record.encode).length < 2 ^ 32 := by
    rw [length_encode] at h
    omega
  have hdue := Record.ofCount_ofNat (Nat.lt_of_le_of_lt (count_le records) hbody)
  have hwalk := @Record.walk_encode records (payload_lt hbody) _ [] 0
    (hdue.imp_left fun h => ⟨h, rfl⟩)
  rwa [List.append_nil] at hwalk

end Sent

end Frame

end FireControl.Wire
