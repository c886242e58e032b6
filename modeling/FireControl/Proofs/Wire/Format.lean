import FireControl.Proofs.Wire.FirstRecords

/-!
# The format of a frame

Frames are accepted exactly where the bytes have their format (`decode_iff_framed`), and an accepted
frame, encoded again, is what its stated length covers. `decodes_exactly_the_format` says this of
any bytes, together with what the walk through the records of such a frame finds;
`decodes_what_was_encoded` says that encoded records are found again, also when they are not counted
and when padding follows them.
-/

namespace FireControl.Wire

/-- The bytes start with a magic word and a whole header, which states a length that covers the
header, stays within the limit and does not go beyond the bytes. -/
structure Framed (limit : Nat) (bytes : Bytes) : Prop where
  header : 40 ≤ bytes.length
  magic : magic <+: bytes
  low : 40 ≤ (wordAt 12 bytes).toNat
  high : (wordAt 12 bytes).toNat ≤ limit
  whole : (wordAt 12 bytes).toNat ≤ bytes.length

namespace Header

theorem wordAt_encode (h : Header) (rest : Bytes) :
    wordAt 12 (h.encode ++ rest) = h.totalLength := by
  have hword : ((h.encode ++ rest).drop 12).take 4 = Bytes.ofWord h.totalLength := rfl
  unfold wordAt
  rw [hword, Bytes.toWord_ofWord]

/-- Whole headers are what a header encodes. -/
theorem exists_encode {bytes : Bytes} (hmagic : magic <+: bytes) (hlength : 40 ≤ bytes.length) :
    ∃ (h : Header) (rest : Bytes), bytes = h.encode ++ rest := by
  obtain ⟨behind, rfl⟩ := hmagic
  have hbehind : 32 ≤ behind.length := by
    rw [List.length_append, show magic.length = 8 from rfl] at hlength
    omega
  have hfields := readFields_eq_ok.mp (readFields_eq hbehind)
  refine ⟨ofFields behind, behind.drop 32, ?_⟩
  rw [encode, List.append_assoc, ← hfields]

/-- What follows a decoded header is inside the bytes. -/
theorem rest_of_decode {bytes rest : Bytes} {h : Header} (hread : decode bytes = .ok (h, rest)) :
    40 ≤ bytes.length ∧ rest = bytes.drop 40 := by
  obtain rfl := decode_eq_ok.mp hread
  have hlength := h.length_encode
  refine ⟨?_, ?_⟩
  · rw [List.length_append]
    omega
  · rw [← hlength, List.drop_left]

end Header

namespace Frame

variable {bytes : Bytes} {limit : Nat} {f : Frame}

theorem decode_eq_ok_iff : decode bytes limit = .ok f ↔
    (∃ rest, bytes = f.header.encode ++ (f.body ++ rest)) ∧
      f.body.length + 40 = f.header.totalLength.toNat ∧ f.header.totalLength.toNat ≤ limit := by
  constructor
  · intro hread
    unfold decode at hread
    obtain ⟨⟨header, behind⟩, hheader, hread⟩ := bind_eq_ok.mp hread
    obtain ⟨length, hlength, hread⟩ := bind_eq_ok.mp hread
    obtain ⟨⟨body, rest⟩, hbody, hread⟩ := bind_eq_ok.mp hread
    cases hread
    obtain ⟨hbytes, rfl⟩ := read_eq_ok.mp hbody
    obtain ⟨-, hlimit, hsum⟩ := Header.bodyLength_eq_ok.mp hlength
    exact ⟨⟨rest, by rw [Header.decode_eq_ok.mp hheader, hbytes]⟩, hsum, hlimit⟩
  · rintro ⟨⟨rest, rfl⟩, hsum, hlimit⟩
    have hlength : f.header.bodyLength limit = .ok f.body.length :=
      Header.bodyLength_eq_ok.mpr ⟨by omega, hlimit, hsum⟩
    unfold decode
    simp only [Header.decode_eq_ok.mpr rfl, hlength, read_append, bind, Except.bind]
    rfl

theorem decode_iff_framed : (∃ f, decode bytes limit = .ok f) ↔ Framed limit bytes := by
  constructor
  · rintro ⟨f, hread⟩
    obtain ⟨⟨rest, rfl⟩, hsum, hlimit⟩ := decode_eq_ok_iff.mp hread
    have hlength := f.header.length_encode
    have hword := f.header.wordAt_encode (f.body ++ rest)
    refine ⟨?_, ?_, ?_, ?_, ?_⟩
    · rw [List.length_append]
      omega
    · rw [Header.encode, List.append_assoc]
      exact List.prefix_append _ _
    · rw [hword]
      omega
    · rw [hword]
      exact hlimit
    · rw [hword, List.length_append, List.length_append]
      omega
  · rintro ⟨hheader, hmagic, hlow, hhigh, hwhole⟩
    obtain ⟨h, behind, rfl⟩ := Header.exists_encode hmagic hheader
    have hlength := h.length_encode
    rw [h.wordAt_encode] at hlow hhigh hwhole
    rw [List.length_append] at hwhole
    have hbody : (behind.take (h.totalLength.toNat - 40)).length = h.totalLength.toNat - 40 :=
      List.length_take_of_le (by omega)
    refine ⟨⟨h, behind.take (h.totalLength.toNat - 40)⟩,
      decode_eq_ok_iff.mpr ⟨⟨behind.drop (h.totalLength.toNat - 40), ?_⟩, ?_, hhigh⟩⟩
    · rw [List.take_append_drop]
    · show (behind.take (h.totalLength.toNat - 40)).length + 40 = h.totalLength.toNat
      omega

/-- An accepted frame is what its stated length covers. -/
theorem encode_of_decode (h : decode bytes limit = .ok f) :
    f.header.encode ++ f.body = bytes.take f.header.totalLength.toNat := by
  obtain ⟨⟨rest, rfl⟩, hsum, -⟩ := decode_eq_ok_iff.mp h
  have hlength : (f.header.encode ++ f.body).length = f.header.totalLength.toNat := by
    rw [List.length_append, Header.length_encode]
    omega
  rw [← List.append_assoc, ← hlength, List.take_left]

theorem decode_append (h : decode bytes limit = .ok f) (extra : Bytes) :
    decode (bytes ++ extra) limit = .ok f := by
  obtain ⟨⟨rest, rfl⟩, hlengths⟩ := decode_eq_ok_iff.mp h
  refine decode_eq_ok_iff.mpr ⟨⟨rest ++ extra, ?_⟩, hlengths⟩
  simp only [List.append_assoc]

/-! ## The records of a frame -/

/-- The records that the walk through the body finds. -/
def carried (f : Frame) : List Record := f.records.filterMap Except.toOption

/-- What is left of the body behind them. -/
def leftover (f : Frame) : Bytes := f.body.drop (f.carried.flatMap Record.encode).length

/-- One more record is due behind them: the count is not reached, or, without one, the body is not
used up. -/
def MoreDue (f : Frame) : Prop :=
  if f.header.recordCount = 0 then f.leftover ≠ []
  else f.carried.length < f.header.recordCount.toNat

/-- The fault of the record that is due next. -/
def shortage (f : Frame) : FrameError :=
  .truncatedRecord f.carried.length (Record.shortfall f.leftover).1 (Record.shortfall f.leftover).2

theorem isOver_iff (f : Frame) : ((Record.Due.ofCount f.header.recordCount).after
    f.carried.length).isOver f.leftover = true ↔ ¬ f.MoreDue := by
  rw [f.isOver_after]
  unfold MoreDue Over
  split
  · exact Decidable.not_not.symm
  · exact Nat.not_lt.symm

theorem filterMap_ok (found : List Record) :
    (found.map (.ok : Record → Except FrameError Record)).filterMap Except.toOption = found := by
  induction found with
  | nil => rfl
  | cons r found ih => exact congrArg (r :: ·) ih

/-- The walk finds the records in front of the body. It ends where none is due, or with the fault of
one that is due where the bytes are too short for it. -/
theorem records_end (f : Frame) :
    f.body = f.carried.flatMap Record.encode ++ f.leftover ∧
      ((¬ f.MoreDue ∧ f.records = f.carried.map .ok) ∨
        (f.MoreDue ∧ Record.TooShort f.leftover ∧
          f.records = f.carried.map .ok ++ [.error f.shortage])) := by
  obtain ⟨found, left, hbody, hends⟩ :=
    Record.walk_ends (.ofCount f.header.recordCount) 0 f.body
  change Record.Ends _ _ _ _ f.records at hends
  have hcarried : f.carried = found := by
    unfold carried
    generalize f.records = items at hends ⊢
    cases hends with
    | finished => exact filterMap_ok found
    | short =>
      rw [List.filterMap_append, filterMap_ok]
      exact List.append_nil found
  have hleft : f.leftover = left := by
    unfold leftover
    rw [hcarried, hbody, List.drop_left]
  have hover := f.isOver_iff
  subst hcarried hleft
  refine ⟨hbody, ?_⟩
  generalize f.records = items at hends ⊢
  cases hends with
  | finished hnone => exact Or.inl ⟨hover.mp hnone, rfl⟩
  | short hmore hshort =>
    refine Or.inr ⟨?_, hshort, ?_⟩
    · by_contra hnone
      rw [hover.mpr hnone] at hmore
      cases hmore
    · rw [shortage, Nat.zero_add]

theorem length_records_le (h : f.header.recordCount ≠ 0) :
    f.records.length ≤ f.header.recordCount.toNat := by
  unfold records Record.Due.ofCount
  rw [if_neg h]
  exact Record.length_walk_le rfl 0 f.body

/-- The records can be called for one by one: nothing overflows, and nothing follows the last
item. -/
theorem items_ofFrame (h : f.body.length < 4294967296) (n : Nat) :
    (Cursor.ofFrame f).items (f.records.length + n) =
      .ok (f.records.map some ++ List.replicate n none) := by
  have hdue : (Cursor.ofFrame f).due = .ofCount f.header.recordCount := by
    unfold Cursor.ofFrame Cursor.due Record.Due.ofCount
    by_cases hzero : f.header.recordCount = 0
    · simp only [if_pos hzero]
    · simp only [if_neg hzero, Nat.sub_zero]
  have hbounded : (Cursor.ofFrame f).Bounded := by
    intro _
    show 0 + f.body.length < 4294967296
    omega
  have hitems := Cursor.items_eq hbounded rfl n
  rw [hdue] at hitems
  exact hitems

end Frame

/-- Bytes are accepted as a frame exactly where they have its format; a frame's header and body are
then the bytes that its length covers, whatever follows them. Called for one by one, its records
come to an end, after which nothing comes. Those found, encoded again, stand at the front of the
body; there are no more of them than the header counts. A fault is the last item and names the index
behind the records found: it comes exactly where one more record is due and the bytes left are too
short for it. -/
theorem decodes_exactly_the_format (bytes : Bytes) (limit : Nat) :
    ((∃ f, Frame.decode bytes limit = .ok f) ↔ Framed limit bytes) ∧
    (∀ header rest, Header.decode bytes = .ok (header, rest) →
      40 ≤ bytes.length ∧ rest = bytes.drop 40) ∧
    ∀ f, Frame.decode bytes limit = .ok f →
      f.header.encode ++ f.body = bytes.take f.header.totalLength.toNat ∧
      (∀ extra, Frame.decode (bytes ++ extra) limit = .ok f) ∧
      (∀ n, (Cursor.ofFrame f).items (f.records.length + n) =
        .ok (f.records.map some ++ List.replicate n none)) ∧
      f.carried.flatMap Record.encode <+: f.body ∧
      (f.header.recordCount ≠ 0 → f.records.length ≤ f.header.recordCount.toNat) ∧
      ((∃ e, .error e ∈ f.records) ↔ f.MoreDue ∧ Record.TooShort f.leftover) ∧
      ((∃ e, .error e ∈ f.records) → f.records = f.carried.map .ok ++ [.error f.shortage]) ∧
      ((∀ e, .error e ∉ f.records) → f.records = f.carried.map .ok ∧ ¬ f.MoreDue) := by
  refine ⟨Frame.decode_iff_framed, fun _ _ => Header.rest_of_decode, ?_⟩
  intro f hread
  obtain ⟨hbody, hend⟩ := f.records_end
  have hlength : f.body.length < 4294967296 := by
    have hsum := (Frame.decode_eq_ok_iff.mp hread).2.1
    have hlt := f.header.totalLength.toNat_lt
    omega
  have hnone : ∀ e, .error e ∉ f.carried.map (.ok : Record → Except FrameError Record) := by
    intro e hmem
    obtain ⟨r, -, hr⟩ := List.mem_map.mp hmem
    cases hr
  refine ⟨Frame.encode_of_decode hread, Frame.decode_append hread, Frame.items_ofFrame hlength,
    ⟨f.leftover, hbody.symm⟩, Frame.length_records_le, ?_⟩
  rcases hend with ⟨hover, hrecords⟩ | ⟨hmore, hshort, hrecords⟩
  · refine ⟨⟨?_, ?_⟩, ?_, ?_⟩
    · rintro ⟨e, he⟩
      rw [hrecords] at he
      exact absurd he (hnone e)
    · exact fun h => absurd h.1 hover
    · rintro ⟨e, he⟩
      rw [hrecords] at he
      exact absurd he (hnone e)
    · exact fun _ => ⟨hrecords, hover⟩
  · have herror : .error f.shortage ∈ f.records := by
      rw [hrecords]
      exact List.mem_append_right _ (List.mem_singleton_self _)
    exact ⟨⟨fun _ => ⟨hmore, hshort⟩, fun _ => ⟨_, herror⟩⟩, fun _ => hrecords,
      fun h => absurd herror (h _)⟩

/-- Of three records that the header counts, the second is cut in front of its payload; a magic word
follows the frame. -/
theorem decodes_exactly_the_format_cut :
    let f : Frame :=
      ⟨⟨0, 57, 0, 7, 0, 0, 3, 0⟩, Record.encode ⟨1, [5]⟩ ++ (Bytes.ofWord 2 ++ Bytes.ofWord 64)⟩
    let items := [.ok ⟨1, [5]⟩, .error (.truncatedRecord 1 64 0)]
    Frame.decode (f.header.encode ++ f.body ++ magic) 124 = .ok f ∧ f.records = items ∧
      f.MoreDue ∧ (Cursor.ofFrame f).items 4 = .ok (items.map some ++ [none, none]) := by
  intro f items
  have hread : Frame.decode (f.header.encode ++ f.body) 124 = .ok f :=
    Frame.decode_eq_ok_iff.mpr ⟨⟨[], by rw [List.append_nil]⟩, by decide, by decide⟩
  have hrecords : f.records = items := by cbv
  obtain ⟨-, -, hall⟩ := decodes_exactly_the_format (f.header.encode ++ f.body) 124
  obtain ⟨-, happend, hitems, -, -, hfault, -⟩ := hall f hread
  refine ⟨happend magic, hrecords, ?_, ?_⟩
  · have hlast : .error (.truncatedRecord 1 64 0) ∈ f.records := by
      rw [hrecords]
      exact List.mem_cons_of_mem _ (List.mem_singleton_self _)
    exact (hfault.mp ⟨_, hlast⟩).1
  · have hcalls := hitems 2
    rw [hrecords] at hcalls
    exact hcalls

/-! ## Encoded frames -/

/-- The bytes with another word at the offset. -/
def overwrite (offset : Nat) (w : UInt32) (bytes : Bytes) : Bytes :=
  bytes.take offset ++ Bytes.ofWord w ++ bytes.drop (offset + 4)

theorem overwrite_totalLength (h : Header) (body : Bytes) (w : UInt32) :
    overwrite 12 w (h.encode ++ body) = { h with totalLength := w }.encode ++ body := rfl

theorem overwrite_recordCount (h : Header) (body : Bytes) (w : UInt32) :
    overwrite 32 w (h.encode ++ body) = { h with recordCount := w }.encode ++ body := rfl

namespace Frame

theorem length_body_eq (records : List Record) :
    (records.flatMap Record.encode).length = (records.map fun r => 8 + r.payload.length).sum := by
  induction records with
  | nil => rfl
  | cons r records ih =>
    rw [List.flatMap_cons, List.length_append, ih, Record.length_encode, List.map_cons,
      List.sum_cons]

theorem decode_encoded {h : Header} {body : Bytes} {limit : Nat}
    (hlength : h.totalLength.toNat = 40 + body.length) (hlimit : 40 + body.length ≤ limit)
    (extra : Bytes) : decode (h.encode ++ body ++ extra) limit = .ok ⟨h, body⟩ := by
  apply decode_eq_ok_iff.mpr
  exact ⟨⟨extra, List.append_assoc ..⟩, by rw [hlength, Nat.add_comm], hlength ▸ hlimit⟩

theorem decode_sent {frameNumber cycles : UInt32} {records : List Record} {limit : Nat}
    (hword : (encode frameNumber cycles records).length < 2 ^ 32)
    (hlimit : (encode frameNumber cycles records).length ≤ limit) (extra : Bytes) :
    decode (encode frameNumber cycles records ++ extra) limit =
      .ok (sent frameNumber cycles records) := by
  rw [length_encode] at hlimit
  exact decode_encoded (totalLength_headerOf hword) hlimit extra

section Sent
variable {records : List Record} (h : (records.flatMap Record.encode).length < 2 ^ 32)
include h

/-- Without a count, the records are those that fill the body. -/
theorem records_uncounted {header : Header} (hcount : header.recordCount = 0) :
    (⟨header, records.flatMap Record.encode⟩ : Frame).records = records.map .ok := by
  have hwalk := @Record.walk_encode records (payload_lt h) .untilEnd [] 0 (Or.inl ⟨rfl, rfl⟩)
  rw [List.append_nil] at hwalk
  show Record.walk (.ofCount header.recordCount) 0 _ = _
  rw [hcount]
  exact hwalk

/-- Counted records are found in front of any padding. -/
theorem records_padded {header : Header} (hcount : header.recordCount = UInt32.ofNat records.length)
    (hsome : records ≠ []) (padding : Bytes) :
    (⟨header, records.flatMap Record.encode ++ padding⟩ : Frame).records = records.map .ok := by
  -- There is a record, so that the count is not the zero of records that are not counted.
  have hpos : records.length ≠ 0 := fun hzero => hsome (List.length_eq_zero_iff.mp hzero)
  have hnumber : (UInt32.ofNat records.length).toNat = records.length := by
    rw [UInt32.toNat_ofNat']
    exact Nat.mod_eq_of_lt (Nat.lt_of_le_of_lt (count_le records) h)
  have hdue : Record.Due.ofCount (UInt32.ofNat records.length) = .counted records.length := by
    unfold Record.Due.ofCount
    rw [if_neg ?_, hnumber]
    intro hzero
    rw [hzero] at hnumber
    exact hpos hnumber.symm
  show Record.walk (.ofCount header.recordCount) 0 _ = _
  rw [hcount, hdue]
  exact Record.walk_encode (payload_lt h) 0 (Or.inr rfl)

end Sent

end Frame

/-- A frame that was encoded is decoded with its number and time, its length and its records,
whatever follows it. The records come back, too, when the header does not count them, and, if there
are any, when the header counts them and padding that its length covers follows them. -/
theorem decodes_what_was_encoded {frameNumber cycles : UInt32} {records : List Record} {limit : Nat}
    (hfits : 40 + (records.map fun r => 8 + r.payload.length).sum ≤ min limit 4294967295)
    (extra : Bytes) :
    let encoded := Frame.encode frameNumber cycles records
    let length := 40 + (records.map fun r => 8 + r.payload.length).sum
    encoded.length = length ∧
    (∃ f, Frame.decode (encoded ++ extra) limit = .ok f ∧ f.header.frameNumber = frameNumber ∧
      f.header.cycles = cycles ∧ f.header.totalLength.toNat = length ∧
      f.body.length = length - 40 ∧ f.records = records.map .ok) ∧
    (∃ f, Frame.decode (overwrite 32 0 encoded ++ extra) limit = .ok f ∧
      f.header.recordCount = 0 ∧ f.records = records.map .ok) ∧
    (records ≠ [] → ∀ padding, length + padding.length ≤ min limit 4294967295 →
      ∃ f, Frame.decode (overwrite 12 (UInt32.ofNat (length + padding.length)) encoded ++
          (padding ++ extra)) limit = .ok f ∧
        f.header.recordCount.toNat = records.length ∧
        f.body.length = length - 40 + padding.length ∧ f.records = records.map .ok) := by
  intro encoded length
  have hbody := Frame.length_body_eq records
  have hlt : (records.flatMap Record.encode).length < 2 ^ 32 := by omega
  have htotal : ∀ n, n ≤ min limit 4294967295 → (UInt32.ofNat n).toNat = n := by
    intro n hn
    rw [UInt32.toNat_ofNat']
    exact Nat.mod_eq_of_lt (by omega)
  have hencoded : encoded =
      (Frame.headerOf frameNumber cycles records).encode ++ records.flatMap Record.encode := rfl
  have hlength : encoded.length = length := by
    rw [hencoded, List.length_append, Header.length_encode, hbody]
  have hstated : (Frame.headerOf frameNumber cycles records).totalLength.toNat =
      40 + (records.flatMap Record.encode).length := htotal _ (hbody ▸ hfits)
  refine ⟨hlength, ?_, ?_, ?_⟩
  · refine ⟨_, Frame.decode_encoded hstated (by omega) extra, rfl, rfl, ?_, ?_, ?_⟩
    · rw [hstated, hbody]
    · show (records.flatMap Record.encode).length = length - 40
      omega
    · exact Frame.records_sent (show encoded.length < 2 ^ 32 by omega)
  · have hstated' : ({ Frame.headerOf frameNumber cycles records with recordCount := 0 } :
        Header).totalLength.toNat = 40 + (records.flatMap Record.encode).length := hstated
    rw [hencoded, overwrite_recordCount]
    exact ⟨_, Frame.decode_encoded hstated' (by omega) extra, rfl, Frame.records_uncounted hlt rfl⟩
  · intro hsome padding hpadded
    have hstated' : ({ Frame.headerOf frameNumber cycles records with
        totalLength := UInt32.ofNat (length + padding.length) } : Header).totalLength.toNat =
          40 + (records.flatMap Record.encode ++ padding).length := by
      rw [List.length_append, hbody, ← Nat.add_assoc]
      exact htotal _ hpadded
    have hcount := Frame.count_le records
    rw [hencoded, overwrite_totalLength, ← List.append_assoc, List.append_assoc _ _ padding]
    refine ⟨_, Frame.decode_encoded hstated' ?_ extra, htotal records.length (by omega), ?_,
      Frame.records_padded hlt rfl hsome padding⟩
    · rw [List.length_append, hbody, ← Nat.add_assoc]
      omega
    · show (records.flatMap Record.encode ++ padding).length = _
      rw [List.length_append]
      omega

/-- A frame with a magic word and nothing as payloads, with two bytes of padding. -/
theorem decodes_what_was_encoded_padded :
    let records : List Record := [⟨1000, magic⟩, ⟨7, []⟩]
    40 + (records.map fun r => 8 + r.payload.length).sum ≤ min 124 4294967295 ∧ records ≠ [] ∧
      ∃ f, Frame.decode (overwrite 12 66 (Frame.encode 7 9 records) ++ ([0, 9] ++ magic)) 124 =
          .ok f ∧ f.body.length = 26 ∧ f.records = records.map .ok := by
  intro records
  have hfits : 40 + (records.map fun r => 8 + r.payload.length).sum ≤ min 124 4294967295 := by
    decide
  obtain ⟨-, -, -, hpadded⟩ := @decodes_what_was_encoded 7 9 records 124 hfits magic
  obtain ⟨f, hread, -, hbody, hrecords⟩ := hpadded (List.cons_ne_nil _ _) [0, 9] (by decide)
  exact ⟨hfits, List.cons_ne_nil _ _, f, hread, hbody, hrecords⟩

end FireControl.Wire
