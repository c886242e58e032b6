import FireControl.Bytes
import FireControl.IoFault

/-!
# Uploading a radar profile

A profile is a text of commands, one per line. Each command is written to the control port with a
carriage return and flushed, and then at most five reads look at up to 250 bytes of reply for the
word `Done`. A command that is not acknowledged is passed over; any failure of the port ends the
upload. A port keeps a record of what happened at it, so that the order of writes, flushes and reads
can be told.
-/

namespace FireControl.Link

/-- What one write to a port does. -/
inductive WriteStep where
  | fail (fault : IoFault)
  /-- Takes no more bytes than this. -/
  | accept (atMost : Nat)
  deriving DecidableEq, Repr

/-- One thing that happened at a port. -/
inductive Contact where
  /-- A write that took the first of the bytes it was offered and left the rest. -/
  | took (bytes rest : Bytes)
  /-- A write of these bytes that failed. -/
  | refused (offered : Bytes) (fault : IoFault)
  /-- A flush, which may have failed. -/
  | flushed (fault : Option IoFault)
  /-- A read of at most so many bytes, with its result. -/
  | heard (size : Nat) (result : Except IoFault Bytes)

namespace Contact

/-- The bytes that reached the port. -/
def bytes : Contact → Bytes
  | took bytes _ => bytes
  | _ => []

def isFlush : Contact → Bool
  | flushed _ => true
  | _ => false

end Contact

/-- A control port: what its next reads, writes and flushes will do, and what happened so far. -/
structure Port where
  /-- One reply per read; after the last a read returns nothing. -/
  replies : List (Except IoFault Bytes)
  /-- What the next writes do. Later writes take all they can. -/
  writes : List WriteStep := []
  /-- The most that one write takes, if there is such a limit. -/
  chunk : Option Nat := none
  /-- The bytes that the port still takes altogether, if there is such a limit. -/
  room : Option Nat := none
  /-- Whether the next flushes fail. Later flushes do not. -/
  flushes : List (Option IoFault) := []
  /-- In the order in which it happened. -/
  contacts : List Contact := []

structure UploadReport where
  sent : Nat := 0
  acknowledged : Nat := 0
  deriving DecidableEq, Repr

namespace Port

/-- A number held down by a limit, if there is one. -/
def limited (n : Nat) : Option Nat → Nat
  | none => n
  | some limit => min n limit

/-- The port after one thing more has happened. -/
def note (p : Port) (c : Contact) : Port := { p with contacts := p.contacts ++ [c] }

/-- All bytes that reached the port. -/
def written (p : Port) : Bytes := p.contacts.flatMap Contact.bytes

def flushCalls (p : Port) : Nat := p.contacts.countP Contact.isFlush

/-- Takes bytes off the front of `bytes`, `n` at most; the result is what was not taken. -/
def accept (p : Port) (bytes : Bytes) (n : Nat) : Bytes × Port :=
  let n := limited (limited n p.chunk) p.room
  (bytes.drop n,
    { p with room := p.room.map (· - (bytes.take n).length) }.note
      (.took (bytes.take n) (bytes.drop n)))

def write (p : Port) (bytes : Bytes) : Except IoFault Bytes × Port :=
  match p.writes with
  | [] =>
    let (rest, p) := p.accept bytes bytes.length
    (.ok rest, p)
  | .fail fault :: later => (.error fault, { p with writes := later }.note (.refused bytes fault))
  | .accept n :: later =>
    let (rest, p) := { p with writes := later }.accept bytes n
    (.ok rest, p)

/-- The fault of a write that takes nothing. -/
def nothingTaken : IoFault := ⟨.writeZero, "failed to write whole buffer"⟩

theorem writes_accept (p : Port) (bytes : Bytes) (n : Nat) :
    (p.accept bytes n).2.writes = p.writes := rfl

/-- A failing write uses up one of the steps. -/
theorem write_error {p p' : Port} {bytes : Bytes} {fault : IoFault}
    (h : p.write bytes = (.error fault, p')) : p'.writes.length < p.writes.length := by
  unfold write at h
  split at h
  · simp at h
  · next hw => simp only [Prod.mk.injEq] at h; obtain ⟨-, rfl⟩ := h; simp [note, hw]
  · simp at h

/-- A write adds no steps. -/
theorem write_ok {p p' : Port} {bytes rest : Bytes} (h : p.write bytes = (.ok rest, p')) :
    p'.writes.length ≤ p.writes.length := by
  unfold write at h
  split at h
  · simp only [Prod.mk.injEq] at h; obtain ⟨-, rfl⟩ := h; simp [writes_accept]
  · simp at h
  · next hw =>
    simp only [Prod.mk.injEq] at h; obtain ⟨-, rfl⟩ := h
    simp [writes_accept, hw]

/-- Writes until nothing is left. An interrupted write is repeated, and one that takes nothing is a
fault. -/
def writeAll (p : Port) (bytes : Bytes) : Except IoFault Unit × Port :=
  if bytes.isEmpty then (.ok (), p)
  else
    match _hwrite : p.write bytes with
    | (.error fault, p') =>
      if fault.kind = .interrupted then writeAll p' bytes else (.error fault, p')
    | (.ok rest, p') =>
      if _hshorter : rest.length < bytes.length then writeAll p' rest else (.error nothingTaken, p')
-- A failing write uses up a step, and any other takes some of the bytes.
termination_by (p.writes.length, bytes.length)
decreasing_by
  · exact Prod.Lex.left _ _ (write_error _hwrite)
  · rcases Nat.lt_or_eq_of_le (write_ok _hwrite) with hw | hw
    · exact Prod.Lex.left _ _ hw
    · rw [hw]; exact Prod.Lex.right _ _hshorter

def flush (p : Port) : Except IoFault Unit × Port :=
  let p' := { p with flushes := p.flushes.tail }
  match p.flushes with
  | some fault :: _ => (.error fault, p'.note (.flushed (some fault)))
  | _ => (.ok (), p'.note (.flushed none))

/-- One read into a buffer of `size` bytes: a reply that is longer loses its end. -/
def read (p : Port) (size : Nat) : Except IoFault Bytes × Port :=
  let result := (p.replies.head?.getD (.ok [])).map (·.take size)
  (result, { p with replies := p.replies.tail }.note (.heard size result))

end Port

/-- The word that acknowledges a command: `Done`. -/
def acknowledgement : Bytes := [68, 111, 110, 101]

/-- Whether `word` occurs in a byte string, all in one piece. -/
def occursIn (word : Bytes) : Bytes → Bool
  | [] => word.isEmpty
  | b :: rest => word.isPrefixOf (b :: rest) || occursIn word rest

/-- Bytes of reply looked at per command. -/
def replyLimit : Nat := 250

/-- Reads per command. -/
def replyReads : Nat := 5

/-- Looks for the acknowledgement, with so many reads left and so much of the reply read. -/
def awaitReply : Nat → Bytes → Port → Except IoFault Bool × Port
  | 0, _, p => (.ok false, p)
  | reads + 1, reply, p =>
    if replyLimit ≤ reply.length then (.ok false, p)
    else
      match p.read (replyLimit - reply.length) with
      | (.error fault, p) => (.error fault, p)
      | (.ok more, p) =>
        if occursIn acknowledgement (reply ++ more) then (.ok true, p)
        else awaitReply reads (reply ++ more) p

/-- Writes a command with its carriage return, and flushes. -/
def send (command : Bytes) (p : Port) : Except IoFault Unit × Port :=
  match p.writeAll command with
  | (.error fault, p) => (.error fault, p)
  | (.ok (), p) =>
    match p.writeAll [13] with
    | (.error fault, p) => (.error fault, p)
    | (.ok (), p) => p.flush

/-- Uploads commands one after the other, adding to a report. -/
def uploadFrom (report : UploadReport) : List Bytes → Port → Except IoFault UploadReport × Port
  | [], p => (.ok report, p)
  | command :: later, p =>
    match send command p with
    | (.error fault, p) => (.error fault, p)
    | (.ok (), p) =>
      match awaitReply replyReads [] p with
      | (.error fault, p) => (.error fault, p)
      | (.ok done, p) =>
        uploadFrom ⟨report.sent + 1, report.acknowledged + if done then 1 else 0⟩ later p

def upload (commands : List Bytes) (p : Port) : Except IoFault UploadReport × Port :=
  uploadFrom {} commands p

/-- The lines of a text. Each ends with a line feed, or a carriage return and a line feed, which do
not belong to it; a last line may lack its end. -/
def splitLines : List Char → List Char → List (List Char)
  | [], [] => []
  | [], line => [line.reverse]
  | '\n' :: rest, '\r' :: line => line.reverse :: splitLines rest []
  | '\n' :: rest, line => line.reverse :: splitLines rest []
  | c :: rest, line => splitLines rest (c :: line)

/-- The commands in a profile; its bytes have to be UTF-8. -/
def readCommands (content : Bytes) : Except IoKind (List String) :=
  match String.fromUTF8? ⟨content.toArray⟩ with
  | none => .error .invalidData
  | some text => .ok ((splitLines text.toList []).map String.ofList)

end FireControl.Link
