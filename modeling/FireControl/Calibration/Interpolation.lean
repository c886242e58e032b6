import FireControl.Calibration.Table
import FireControl.Number.Floating

/-!
# Interpolated drop and lead

Corrections between grid points are linear in the distance for the drop, and linear in the distance
and in the angular velocity for the lead. Outside the grid the nearest edge counts, and the lead
depends on the magnitude of the velocity alone.

The rules are stated once over any `Scalar`, the arithmetic they need: binary64 numbers for the
program, and rational numbers for the law it approximates.
-/

namespace FireControl.Calibration

/-- The arithmetic that interpolation needs. -/
class Scalar (α : Type) extends Add α, Sub α, Mul α, Div α where
  ofInt : Int → α
  magnitude : α → α
  less : α → α → Bool
  /-- The number of whole units in a value that is not negative. -/
  wholePart : α → Nat

instance : Scalar Float where
  ofInt := Float.ofInt
  magnitude := Float.abs
  less a b := decide (a < b)
  wholePart x := (Floating.truncate 0 18446744073709551615 x).toNat

instance : Scalar Rat where
  ofInt v := v
  magnitude x := if x < 0 then -x else x
  less a b := decide (a < b)
  wholePart x := x.floor.toNat

/-- A uniform grid: its first point and its step. -/
structure Axis where
  start : Int
  step : Int

/-- Distances of 10, 15, 20, 25 and 30 metres. -/
def distanceAxis : Axis := ⟨10, 5⟩

/-- Angular velocities of 0, 1, 2 and 3 metres per second. -/
def velocityAxis : Axis := ⟨0, 1⟩

/-- The grid point with an index. -/
def Axis.point (α : Type) [Scalar α] (a : Axis) (i : Nat) : α :=
  Scalar.ofInt a.start + Scalar.ofInt a.step * Scalar.ofInt i

/-- The grid cell of a position between grid points, and where in the cell it lies: zero at its
lower edge and one at its upper edge. -/
structure Place (points : Nat) (α : Type) where
  index : Nat
  index_lt : index + 1 < points
  fraction : α

namespace Axis

variable {α : Type} [Scalar α]

/-- The value, or the nearer end of the range it lies outside of. -/
def clamp (low high x : α) : α :=
  let x := if Scalar.less x low then low else x
  if Scalar.less high x then high else x

/-- The place of a value that lies on the grid; the upper end belongs to the last cell. -/
def place (a : Axis) (points : Nat) (h : 1 < points) (x : α) : Place points α :=
  let position := (x - Scalar.ofInt a.start) / Scalar.ofInt a.step
  let index := min (Scalar.wholePart position) (points - 2)
  ⟨index, by omega, position - Scalar.ofInt index⟩

/-- The place of any value, brought onto the grid. -/
def locate (a : Axis) (points : Nat) (h : 1 < points) (x : α) : Place points α :=
  a.place points h
    (clamp (Scalar.ofInt a.start) (Scalar.ofInt (a.start + a.step * (points - 1 : Nat))) x)

end Axis

/-- The corrections at every grid point, as numbers to compute with. -/
structure Ballistics (α : Type) where
  drops : Vector α 5
  leads : Vector (Vector α 4) 5

namespace Ballistics

variable {α : Type} [Scalar α]

def ofTable (t : Table) : Ballistics α :=
  { drops := t.drop.map fun v => Scalar.ofInt v.toInt
    leads := t.lead.map fun row => row.map fun v => Scalar.ofInt v.toInt }

/-- The downward correction at a distance. -/
def drop (b : Ballistics α) (distance : α) : α :=
  let p := distanceAxis.locate 5 (by decide) distance
  have := p.index_lt
  b.drops[p.index] + p.fraction * (b.drops[p.index + 1] - b.drops[p.index])

/-- The sideways correction at a distance and angular velocity, for a target moving right. -/
def lead (b : Ballistics α) (distance velocity : α) : α :=
  let p := distanceAxis.locate 5 (by decide) distance
  let q := velocityAxis.locate 4 (by decide) (Scalar.magnitude velocity)
  have := p.index_lt
  have := q.index_lt
  let one : α := Scalar.ofInt 1
  (one - p.fraction) * (one - q.fraction) * b.leads[p.index][q.index] +
    p.fraction * (one - q.fraction) * b.leads[p.index + 1][q.index] +
    (one - p.fraction) * q.fraction * b.leads[p.index][q.index + 1] +
    p.fraction * q.fraction * b.leads[p.index + 1][q.index + 1]

end Ballistics

end FireControl.Calibration
