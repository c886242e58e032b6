import FireControl.Bytes

/-!
# Frames and their records

A frame is a forty-byte header, which starts with a magic word and states the length of the whole
frame, and a body. The body is a sequence of records, each a type word, a length word and that many
bytes of payload. A header that counts its records ends the walk through the body at that count and
lets padding follow; a count of zero means that the records fill the body.

`Frame.decode` accepts a frame at the front of a byte string, `Frame.encode` builds one from its
records, and `Frame.records` walks through a body up to its end or its first fault.
-/

namespace FireControl.Wire

/-- The bytes every frame starts with. -/
def magic : Bytes := [2, 1, 4, 3, 6, 5, 8, 7]

/-- The length of a header, the magic word included. -/
def headerLength : Nat := 40

/-- Why bytes are not a frame, or a body is not a sequence of records. -/
inductive FrameError where
  | badMagic
  | truncated (needed available : Nat)
  | lengthOutOfRange (totalLength : UInt32) (limit : Nat)
  | truncatedRecord (index needed available : Nat)
  deriving DecidableEq, Repr

def FrameError.name : FrameError → String
  | .badMagic => "BadMagic"
  | .truncated _ _ => "Truncated"
  | .lengthOutOfRange _ _ => "LengthOutOfRange"
  | .truncatedRecord _ _ _ => "TruncatedRecord"

def FrameError.message : FrameError → String
  | .badMagic => "frame does not start with the magic word"
  | .truncated needed available => s!"need {needed} bytes, only {available} available"
  | .lengthOutOfRange totalLength limit =>
    s!"total length {totalLength.toNat} outside [40, {limit}]"
  | .truncatedRecord index needed available =>
    s!"record {index} truncated: needs {needed} bytes, {available} left"

/-- Takes exactly `count` bytes off the front. -/
def read (count : Nat) (bytes : Bytes) : Except FrameError (Bytes × Bytes) :=
  match bytes.take? count with
  | some split => .ok split
  | none => .error (.truncated count bytes.length)

/-- Takes a word off the front. -/
def readWord (bytes : Bytes) : Except FrameError (UInt32 × Bytes) :=
  (read 4 bytes).map fun (front, rest) => (front.toWord, rest)

/-- The fields of a frame header in wire order. -/
structure Header where
  version : UInt32
  /-- The length of the whole frame, header included. -/
  totalLength : UInt32
  platform : UInt32
  frameNumber : UInt32
  /-- The sensor's cycle counter when the frame was captured. -/
  cycles : UInt32
  detectedObjects : UInt32
  /-- The number of records, or zero when the records fill the body. -/
  recordCount : UInt32
  subframeNumber : UInt32
  deriving DecidableEq, Repr

namespace Header

/-- The fields in wire order. -/
def fields (h : Header) : List UInt32 :=
  [h.version, h.totalLength, h.platform, h.frameNumber, h.cycles, h.detectedObjects,
    h.recordCount, h.subframeNumber]

def encode (h : Header) : Bytes := magic ++ h.fields.flatMap Bytes.ofWord

/-- Reads the fields that follow the magic word. -/
def readFields (bytes : Bytes) : Except FrameError (Header × Bytes) := do
  let (version, rest) ← readWord bytes
  let (totalLength, rest) ← readWord rest
  let (platform, rest) ← readWord rest
  let (frameNumber, rest) ← readWord rest
  let (cycles, rest) ← readWord rest
  let (detectedObjects, rest) ← readWord rest
  let (recordCount, rest) ← readWord rest
  let (subframeNumber, rest) ← readWord rest
  return (⟨version, totalLength, platform, frameNumber, cycles, detectedObjects, recordCount,
    subframeNumber⟩, rest)

/-- Reads a header off the front: the magic word is judged before the fields are read. -/
def decode (bytes : Bytes) : Except FrameError (Header × Bytes) := do
  let (front, rest) ← read magic.length bytes
  if front = magic then readFields rest else .error .badMagic

/-- The number of bytes after the header, if the stated length covers the header and stays within
`limit`. -/
def bodyLength (h : Header) (limit : Nat) : Except FrameError Nat :=
  if h.totalLength.toNat < headerLength ∨ limit < h.totalLength.toNat then
    .error (.lengthOutOfRange h.totalLength limit)
  else .ok (h.totalLength.toNat - headerLength)

end Header

/-- A type word and the payload it announces. -/
structure Record where
  kind : UInt32
  payload : Bytes
  deriving DecidableEq, Repr

namespace Record

/-- The number of bytes before a payload. -/
def frontLength : Nat := 8

/-- The payload length as the record states it. -/
def length (r : Record) : UInt32 := UInt32.ofNat r.payload.length

/-- Type, length and payload. -/
def encode (r : Record) : Bytes := Bytes.ofWord r.kind ++ Bytes.ofWord r.length ++ r.payload

/-- Reads one record off the front. -/
def decode (bytes : Bytes) : Except FrameError (Record × Bytes) := do
  let (kind, rest) ← readWord bytes
  let (length, rest) ← readWord rest
  let (payload, rest) ← read length.toNat rest
  return (⟨kind, payload⟩, rest)

/-- A shortage met while reading record `index`. -/
def shortage (index : Nat) : FrameError → FrameError
  | .truncated needed available => .truncatedRecord index needed available
  | other => other

theorem readWord_shortens {bytes rest : Bytes} {w : UInt32} (h : readWord bytes = .ok (w, rest)) :
    bytes.length = rest.length + 4 := by
  unfold readWord read at h
  split at h
  · next split hs =>
    obtain ⟨front, tail⟩ := split
    obtain ⟨rfl, hlen⟩ := Bytes.take?_eq_some.mp hs
    simp only [Except.map, Except.ok.injEq, Prod.mk.injEq] at h
    obtain ⟨-, rfl⟩ := h
    simp [hlen]; omega
  · simp [Except.map] at h

theorem read_shortens {count : Nat} {bytes front rest : Bytes}
    (h : read count bytes = .ok (front, rest)) : bytes.length = rest.length + count := by
  unfold read at h
  split at h
  · next split hs =>
    cases h
    obtain ⟨rfl, hlen⟩ := Bytes.take?_eq_some.mp hs
    simp [hlen]; omega
  · cases h

theorem decode_shortens {bytes rest : Bytes} {r : Record} (h : decode bytes = .ok (r, rest)) :
    rest.length + frontLength ≤ bytes.length := by
  unfold decode at h
  cases h1 : readWord bytes with
  | error e => simp [h1, bind, Except.bind] at h
  | ok p1 =>
    obtain ⟨kind, rest1⟩ := p1
    cases h2 : readWord rest1 with
    | error e => simp [h1, h2, bind, Except.bind] at h
    | ok p2 =>
      obtain ⟨length, rest2⟩ := p2
      cases h3 : read length.toNat rest2 with
      | error e => simp [h1, h2, h3, bind, Except.bind] at h
      | ok p3 =>
        obtain ⟨payload, rest3⟩ := p3
        simp only [h1, h2, h3, bind, Except.bind, pure, Except.pure, Except.ok.injEq,
          Prod.mk.injEq] at h
        obtain ⟨-, rfl⟩ := h
        have := readWord_shortens h1
        have := readWord_shortens h2
        have := read_shortens h3
        simp only [frontLength]
        omega

/-- The records still due: a number of them, or as many as fill the body. -/
inductive Due where
  | counted (remaining : Nat)
  | untilEnd
  deriving DecidableEq, Repr

namespace Due

/-- The records a header announces. -/
def ofCount (count : UInt32) : Due :=
  if count = 0 then .untilEnd else .counted count.toNat

/-- Whether no further record is due before `bytes`. -/
def isOver : Due → Bytes → Bool
  | .counted remaining, _ => remaining == 0
  | .untilEnd, bytes => bytes.isEmpty

/-- What is due after one more record. -/
def next : Due → Due
  | .counted remaining => .counted (remaining - 1)
  | .untilEnd => .untilEnd

end Due

/-- Walks through a body from record `index` on; a fault ends the walk. -/
def walk (due : Due) (index : Nat) (bytes : Bytes) : List (Except FrameError Record) :=
  if due.isOver bytes then []
  else
    match h : decode bytes with
    | .error e => [.error (shortage index e)]
    | .ok (r, rest) => .ok r :: walk due.next (index + 1) rest
-- Even a record without payload takes its eight bytes.
termination_by bytes.length
decreasing_by
  have := decode_shortens h
  simp only [frontLength] at this
  omega

end Record

/-- A header and the bytes it announces. -/
structure Frame where
  header : Header
  body : Bytes
  deriving DecidableEq, Repr

namespace Frame

/-- Reads a frame of at most `limit` bytes off the front of `bytes`. -/
def decode (bytes : Bytes) (limit : Nat) : Except FrameError Frame := do
  let (header, rest) ← Header.decode bytes
  let length ← header.bodyLength limit
  let (body, _) ← read length rest
  return ⟨header, body⟩

/-- The records of the body, ending with an error if the walk meets one. -/
def records (f : Frame) : List (Except FrameError Record) :=
  Record.walk (.ofCount f.header.recordCount) 0 f.body

/-- The bytes of a frame that carries exactly the given records. -/
def encode (frameNumber cycles : UInt32) (records : List Record) : Bytes :=
  let body := records.flatMap Record.encode
  let header : Header :=
    { version := 0
      totalLength := UInt32.ofNat (headerLength + body.length)
      platform := 0
      frameNumber
      cycles
      detectedObjects := 0
      recordCount := UInt32.ofNat records.length
      subframeNumber := 0 }
  header.encode ++ body

end Frame

end FireControl.Wire
