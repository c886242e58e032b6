import FireControl.Decimal.Layout
import FireControl.Radar.Cloud

/-!
# The point log

For the study of reflections every point of every cloud can be logged: a header line, and a line per
point with the time of arrival, the frame number and the coordinates in the order x, z, y. A device
that has no room left takes no further line.
-/

namespace FireControl.Radar

/-- One logged point. -/
structure LogRow where
  /-- In milliseconds. -/
  time : Nat
  frameNumber : UInt32
  position : Position

/-- A log in memory or on a device. -/
structure PointLog where
  /-- The logged points, latest first. -/
  rows : List LogRow := []
  /-- The rows that the device still takes, if there is such a limit. -/
  room : Option Nat := none

namespace PointLog

/-- The names of the columns; the coordinates share one. -/
def headerColumns : List String := ["TIME(mS)", "frame", "X,Z,Y"]

/-- The first line. -/
def header : String := ", ".intercalate headerColumns

/-- Coordinates are written without an exponent, and whole numbers without a point. -/
def coordinate : Decimal.Layout :=
  { positional := none, plus := "", wholeEnd := "", tie := .up, infinite := "inf", notANumber := "NaN" }

end PointLog

def LogRow.columns (r : LogRow) : List String :=
  [Decimal.natText r.time, Decimal.natText r.frameNumber.toNat,
    PointLog.coordinate.text32 r.position.x, PointLog.coordinate.text32 r.position.z,
    PointLog.coordinate.text32 r.position.y]

def LogRow.text (r : LogRow) : String := ", ".intercalate r.columns

namespace PointLog

/-- Adds a row, if there is room. -/
def add (l : PointLog) (r : LogRow) : Option PointLog :=
  match l.room with
  | none => some { l with rows := r :: l.rows }
  | some 0 => none
  | some (room + 1) => some { rows := r :: l.rows, room := some room }

/-- Adds a cloud point by point; none if the device takes no more. -/
def write (l : PointLog) (time : Nat) (c : Cloud) : Option PointLog :=
  c.points.foldlM (fun l p => l.add ⟨time, c.frameNumber, p.position⟩) l

def lines (l : PointLog) : List String := header :: l.rows.reverse.map LogRow.text

/-- The log as one text; every line is ended. -/
def text (l : PointLog) : String := String.join (l.lines.map (· ++ "\n"))

end PointLog

end FireControl.Radar
