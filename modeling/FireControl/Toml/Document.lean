/-!
# TOML documents

A document is a table of named entries; an entry is a value, a table, or a list of tables. Nothing is
defined twice: a key is assigned once, a table is opened once by its header, and a table built from
dotted keys takes dotted keys alone. A header may pass through tables that do not exist yet; such a
table can still be opened later.

Of values that no setting can have (dates, lists, inline tables) only their presence is kept, and of a
list of tables only the newest one, which further headers can still extend.
-/

namespace FireControl.Toml

/-- A value. -/
inductive Scalar where
  | text (s : String)
  | integer (v : Int)
  | real (x : Float)
  | bool (b : Bool)
  /-- A date, a time, a list or an inline table. -/
  | other

/-- How a table came to be. -/
inductive Origin where
  /-- Opened by its own header. -/
  | opened
  /-- Passed through by the header of a table below it. -/
  | passed
  /-- Built from a dotted key. -/
  | dotted
  deriving DecidableEq, Repr

/-- What a name in a table stands for. -/
inductive Item where
  | value (v : Scalar)
  | table (origin : Origin) (entries : List (String × Item))
  /-- A list of tables, with the entries of the newest. -/
  | tables (newest : List (String × Item))

abbrev Entries := List (String × Item)

namespace Entries

/-- Puts an item under a name, in place of the one that was there. -/
def put (name : String) (item : Item) : Entries → Entries
  | [] => [(name, item)]
  | (n, i) :: later => if n = name then (name, item) :: later else (n, i) :: put name item later

/-- Changes the table at the end of a path of names, as headers do: the last of a list of tables is
meant by its name, and a missing table is passed through. -/
def atPath (f : Entries → Option Entries) : List String → Entries → Option Entries
  | [], entries => f entries
  | name :: path, entries =>
    match entries.lookup name with
    | none => (atPath f path []).map fun below => entries.put name (.table .passed below)
    | some (.table origin below) =>
      (atPath f path below).map fun below => entries.put name (.table origin below)
    | some (.tables newest) =>
      (atPath f path newest).map fun newest => entries.put name (.tables newest)
    | some (.value _) => none

def openTable (name : String) (entries : Entries) : Option Entries :=
  match entries.lookup name with
  | none => some (entries.put name (.table .opened []))
  | some (.table .passed below) => some (entries.put name (.table .opened below))
  | some _ => none

/-- Adds a table to a list of tables. -/
def addTable (name : String) (entries : Entries) : Option Entries :=
  match entries.lookup name with
  | none => some (entries.put name (.tables []))
  | some (.tables _) => some (entries.put name (.tables []))
  | some _ => none

/-- Assigns a value to a name that has none. -/
def assign (name : String) (v : Scalar) (entries : Entries) : Option Entries :=
  match entries.lookup name with
  | none => some (entries.put name (.value v))
  | some _ => none

/-- Assigns a value to a dotted key. The table it ends in has to be one that dotted keys built. -/
def assignDotted (name : String) (v : Scalar) : List String → Entries → Option Entries
  | [], entries => entries.assign name v
  | step :: path, entries =>
    match entries.lookup step with
    | none =>
      (assignDotted name v path []).map fun below => entries.put step (.table .dotted below)
    | some (.table .dotted below) =>
      (assignDotted name v path below).map fun below => entries.put step (.table .dotted below)
    -- The key may lead through such a table, but not end in it.
    | some (.table .passed below) =>
      if path.isEmpty then none
      else
        (assignDotted name v path below).map fun below => entries.put step (.table .passed below)
    | some (.tables newest) =>
      if path.isEmpty then none
      else (assignDotted name v path newest).map fun newest => entries.put step (.tables newest)
    | some (.table .opened _) => none
    | some (.value _) => none

/-- Assigns a value to a key: its last part names the value, and the parts before it lead there. -/
def assignKey (key : List String) (v : Scalar) (entries : Entries) : Option Entries :=
  match key.getLast? with
  | none => none
  | some name => entries.assignDotted name v key.dropLast

end Entries

end FireControl.Toml
