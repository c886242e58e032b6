import FireControl.Calibration.File
import FireControl.Calibration.Interpolation
import FireControl.FileSystem

/-!
# The calibration store

A store holds the table being edited, the interpolators built from it the last time that was asked
for, and the path of its file. The three move separately: setting a value touches the table alone,
`rebuild` brings the interpolators up to date, and `save` writes the table as it is.
-/

namespace FireControl.Calibration

/-- A table, its interpolators and the path of its file. -/
structure Store where
  path : String
  table : Table
  ballistics : Ballistics Float

namespace Store

/-- A store for a table, without a look at the file. -/
def ofTable (path : String) (table : Table) : Store := ⟨path, table, .ofTable table⟩

def load (fs : FileSystem) (path : String) : Except Fault Table :=
  match fs.read path with
  | .error kind => .error (.io kind)
  | .ok bytes => Table.decode bytes

/-- The store of the file at a path. -/
def open? (fs : FileSystem) (path : String) : Except Fault Store :=
  (load fs path).map (ofTable path)

/-- The store of the file at a path, or of the blank table together with the reason. -/
def openOrBlank (fs : FileSystem) (path : String) : Store × Option Fault :=
  match load fs path with
  | .ok table => (ofTable path table, none)
  | .error fault => (ofTable path {}, some fault)

def get (s : Store) (c : Cell) : Except NoSuchCell Int16 := s.table.get c

/-- Overwrites a cell of the table; the interpolators keep the old value. -/
def set (s : Store) (c : Cell) (value : Int16) : Except NoSuchCell Store :=
  (s.table.set c value).map fun table => { s with table }

/-- Builds the interpolators from the table. -/
def rebuild (s : Store) : Store := { s with ballistics := .ofTable s.table }

/-- Writes the table to the store's file. -/
def save (s : Store) (fs : FileSystem) : Except Fault Unit × FileSystem :=
  let (result, fs) := fs.write s.path s.table.encode
  (result.mapError .io, fs)

@[simp] theorem ballistics_ofTable (path : String) (t : Table) :
    (ofTable path t).ballistics = .ofTable (ofTable path t).table := rfl

@[simp] theorem ballistics_rebuild (s : Store) :
    s.rebuild.ballistics = .ofTable s.rebuild.table := rfl

end Store

end FireControl.Calibration
