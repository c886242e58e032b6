import FireControl.Number.Checked
import FireControl.Wire.Frame

/-!
# Walking through a body one record at a time

A cursor stands somewhere in the body of a frame and gives one record for each call, with a 32-bit
index that counts the calls. It gives nothing more once the announced number of records is reached
or the body is used up, and nothing after a fault.
-/

namespace FireControl.Wire

structure Cursor where
  /-- What has not been read of the body. -/
  rest : Bytes
  /-- The index of the next record. -/
  index : Nat
  /-- The number of records announced; without one they fill the body. -/
  count : Option UInt32
  /-- Whether a fault ended the walk. -/
  stopped : Bool
  deriving DecidableEq, Repr

namespace Cursor

/-- Before the first record of a frame. -/
def ofFrame (f : Frame) : Cursor :=
  { rest := f.body
    index := 0
    count := if f.header.recordCount = 0 then none else some f.header.recordCount
    stopped := false }

/-- Whether all records announced have been read. -/
def isOver (c : Cursor) : Bool :=
  match c.count with
  | some count => count.toNat ≤ c.index
  | none => c.rest.isEmpty

/-- What a read that runs short leaves: the words before the shortage are gone. -/
def leftByFault (bytes : Bytes) : Bytes :=
  if bytes.length < 4 then bytes
  else if bytes.length < Record.frontLength then bytes.drop 4
  else bytes.drop Record.frontLength

/-- The next record, if one is due, and the cursor behind it. -/
def next (c : Cursor) : Checked (Option (Except FrameError Record) × Cursor) :=
  if c.stopped || c.isOver then .ok (none, c)
  else do
    let index ← Checked.nat32 .add (c.index + 1)
    match Record.decode c.rest with
    | .ok (r, rest) => return (some (.ok r), { c with rest, index })
    | .error e =>
      return (some (.error (Record.shortage c.index e)),
        { c with rest := leftByFault c.rest, index, stopped := true })

/-- What a number of calls in a row give. -/
def items : Nat → Cursor → Checked (List (Option (Except FrameError Record)))
  | 0, _ => .ok []
  | n + 1, c => do
    let (item, c) ← c.next
    let later ← items n c
    return item :: later

end Cursor

end FireControl.Wire
