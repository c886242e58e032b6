import FireControl.Calibration.Store
import FireControl.Operator
import FireControl.Ring

/-!
# Editing the calibration with the rotary encoder

The operator selects a cell, turns the wheel and clicks to commit. Fast turning makes larger steps:
with more than ten wheel events in the last 1250 milliseconds a step is 5, otherwise 1. The wheel
remembers fifteen events, so a step of 15, which takes more than fifteen, does not happen.

A commit writes one cell, or the cells of every distance when a single measurement is to calibrate
the whole range, and builds the interpolators anew.
-/

namespace FireControl.Calibration

/-- What the editor makes of an operator input. -/
inductive EditOutcome where
  | ignored
  | adjusted (value step : Int16)
  | committed (cell : Cell) (value : Int16)
  deriving DecidableEq, Repr

/-- The selected cell, its pending value, and the recent wheel events. -/
structure Editor where
  cell : Option Cell := none
  value : Int16 := 0
  wheel : Ring (Option Nat) 15 := .filled none (by decide)
  /-- Whether a commit writes every distance. -/
  allDistances : Bool := false

namespace Editor

/-- Wheel events count for this long, in milliseconds. -/
def wheelWindow : Nat := 1250

/-- The step for a number of recent wheel events. -/
def stepFor (recent : Nat) : Int16 :=
  if 15 < recent then 15 else if 10 < recent then 5 else 1

/-- Selects a cell. Where the table has no such cell nothing changes. -/
def start (e : Editor) (c : Cell) (s : Store) : Except NoSuchCell Int16 × Editor :=
  match s.get c with
  | .error fault => (.error fault, e)
  | .ok value => (.ok value, { e with cell := some c, value })

/-- Gives up the selection. -/
def cancel (e : Editor) : Editor := { e with cell := none }

/-- Switches whether a commit writes every distance. -/
def toggle (e : Editor) : Editor := { e with allDistances := !e.allDistances }

def noteTurn (e : Editor) (now : Nat) : Editor := { e with wheel := e.wheel.push (some now) }

/-- The step that the recent wheel events ask for. -/
def step (e : Editor) (now : Nat) : Int16 := stepFor (e.wheel.countSince (now - wheelWindow))

/-- Changes the pending value by `sign` steps, within the range of values. -/
def turn (e : Editor) (sign : Int) (now : Nat) : EditOutcome × Editor :=
  let e := e.noteTurn now
  let step := e.step now
  let value := Int16.ofIntClamp (e.value.toInt + sign * step.toInt)
  (.adjusted value step, { e with value })

/-- The cells that a commit of `c` writes. -/
def targets (e : Editor) (c : Cell) : List Cell :=
  if e.allDistances then (List.range distancePoints).map fun d => { c with distance := d } else [c]

/-- Writes a value to cells one after the other, up to the first that the table does not have. -/
def writeAll (value : Int16) : List Cell → Store → Except NoSuchCell Unit × Store
  | [], s => (.ok (), s)
  | c :: later, s =>
    match s.set c value with
    | .error fault => (.error fault, s)
    | .ok s => writeAll value later s

/-- Writes the pending value and ends the edit. -/
def commit (e : Editor) (c : Cell) (s : Store) : Except NoSuchCell EditOutcome × Editor × Store :=
  match writeAll e.value (e.targets c) s with
  | (.error fault, s) => (.error fault, e, s)
  | (.ok (), s) => (.ok (.committed c e.value), { e with cell := none }, s.rebuild)

/-- The effect of an operator input. Without a selected cell there is none. -/
def handle (e : Editor) (input : OperatorInput) (now : Nat) (s : Store) :
    Except NoSuchCell EditOutcome × Editor × Store :=
  match e.cell with
  | none => (.ok .ignored, e, s)
  | some c =>
    match input with
    | .rotaryRight =>
      let (outcome, e) := e.turn 1 now
      (.ok outcome, e, s)
    | .rotaryLeft =>
      let (outcome, e) := e.turn (-1) now
      (.ok outcome, e, s)
    | .rotaryButton => e.commit c s
    | .button0 => (.ok .ignored, e, s)
    | .button1 => (.ok .ignored, e, s)

end Editor

end FireControl.Calibration
