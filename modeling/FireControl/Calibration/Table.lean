/-!
# The calibration table

Pixel corrections measured on a grid: the drop of the shot at five distances, and the lead at five
distances and four angular velocities. A cell that the grid does not have is an error that names it;
the drop does not depend on the velocity index, so that index is not judged for it.
-/

namespace FireControl.Calibration

/-- Which correction a cell holds. -/
inductive Kind where
  /-- Downward, by distance. -/
  | drop
  /-- Sideways, by distance and angular velocity. -/
  | lead
  deriving DecidableEq, Repr

def Kind.name : Kind → String
  | .drop => "Drop"
  | .lead => "Lead"

/-- Grid points along the distance axis. -/
def distancePoints : Nat := 5

/-- Grid points along the velocity axis. -/
def velocityPoints : Nat := 4

/-- The address of one value: what it corrects, and its grid indices. -/
structure Cell where
  kind : Kind
  distance : Nat
  velocity : Nat
  deriving DecidableEq, Repr

/-- The table has no such cell. -/
structure NoSuchCell where
  cell : Cell
  deriving DecidableEq, Repr

/-- The text of that error. -/
def NoSuchCell.message (e : NoSuchCell) : String :=
  s!"no {e.cell.kind.name} calibration point at distance index {e.cell.distance}" ++
    s!", velocity index {e.cell.velocity}"

/-- The corrections at every grid point. -/
structure Table where
  drop : Vector Int16 5 := .replicate 5 0
  lead : Vector (Vector Int16 4) 5 := .replicate 5 (.replicate 4 0)
  deriving DecidableEq, Repr

namespace Table

def get (t : Table) (c : Cell) : Except NoSuchCell Int16 :=
  if hd : c.distance < 5 then
    match c.kind with
    | .drop => .ok t.drop[c.distance]
    | .lead =>
      if hv : c.velocity < 4 then .ok t.lead[c.distance][c.velocity] else .error ⟨c⟩
  else .error ⟨c⟩

/-- The table with one cell overwritten. -/
def set (t : Table) (c : Cell) (value : Int16) : Except NoSuchCell Table :=
  if hd : c.distance < 5 then
    match c.kind with
    | .drop => .ok { t with drop := t.drop.set c.distance value }
    | .lead =>
      if hv : c.velocity < 4 then
        .ok { t with lead := t.lead.set c.distance (t.lead[c.distance].set c.velocity value) }
      else .error ⟨c⟩
  else .error ⟨c⟩

/-- All values: the drops, then the leads distance by distance. -/
def values (t : Table) : List Int16 := t.drop.toList ++ t.lead.toList.flatMap Vector.toList

/-- Overwriting fails exactly where reading does. -/
theorem get_eq_error_iff {t : Table} {c : Cell} {value : Int16} {e : NoSuchCell} :
    t.get c = .error e ↔ t.set c value = .error e := by
  unfold get set
  split
  · split
    · simp
    · split <;> simp
  · simp

/-- A cell reads back what was written to it. -/
theorem get_set {t t' : Table} {c : Cell} {value : Int16} (h : t.set c value = .ok t') :
    t'.get c = .ok value := by
  unfold set at h
  unfold get
  split at h
  · next hd =>
    simp only [hd, dite_true]
    split at h
    · next hk => cases h; simp
    · next hk =>
      split at h
      · next hv => cases h; simp [hv]
      · cases h
  · cases h

end Table

end FireControl.Calibration
