import FireControl.Interchange.Numeral
import FireControl.Interchange.Quoted

/-!
# Interchange values

Values are exchanged as text: null, truth values, numerals, quoted texts, lists in brackets, and
records of named members in braces, with blanks, tabs and line ends between them. Reading yields the
members in the order in which they stand, repeated ones included, and leaves numerals and texts as
they are written, so that only those in use have to make sense.
-/

namespace FireControl.Interchange

/-- A value as it is written. -/
inductive Value where
  | null
  | bool (b : Bool)
  | number (n : Numeral)
  | text (pieces : List Piece)
  | list (items : List Value)
  | record (members : List (List Piece × Value))

namespace Value

/-- Whether a character may stand between the parts of a value. -/
def isSpace (c : Char) : Bool := c == ' ' || c == '\t' || c == '\n' || c == '\r'

/-- A text without the spaces at its front. -/
def skip (cs : List Char) : List Char := cs.dropWhile isSpace

/-- Reads the name of a member and the colon behind it. -/
def readName (cs : List Char) : Option (List Piece × List Char) :=
  match skip cs with
  | '"' :: rest =>
    match Piece.readAll rest with
    | some (name, rest) =>
      match skip rest with
      | ':' :: rest => some (name, rest)
      | _ => none
    | none => none
  | _ => none

mutual

/-- Reads a value. The first argument bounds the depth of the recursion. -/
def read : Nat → List Char → Option (Value × List Char)
  | 0, _ => none
  | fuel + 1, cs =>
    match skip cs with
    | 'n' :: 'u' :: 'l' :: 'l' :: rest => some (.null, rest)
    | 't' :: 'r' :: 'u' :: 'e' :: rest => some (.bool true, rest)
    | 'f' :: 'a' :: 'l' :: 's' :: 'e' :: rest => some (.bool false, rest)
    | '"' :: rest => (Piece.readAll rest).map fun (pieces, rest) => (.text pieces, rest)
    | '[' :: rest =>
      match skip rest with
      | ']' :: rest => some (.list [], rest)
      | rest => (readItems fuel rest).map fun (items, rest) => (.list items, rest)
    | '\x7b' :: rest =>
      match skip rest with
      | '\x7d' :: rest => some (.record [], rest)
      | rest => (readMembers fuel rest).map fun (members, rest) => (.record members, rest)
    | rest => (Numeral.read rest).map fun (n, rest) => (.number n, rest)

def readItems : Nat → List Char → Option (List Value × List Char)
  | 0, _ => none
  | fuel + 1, cs => do
    let (item, rest) ← read fuel cs
    match skip rest with
    | ',' :: rest =>
      let (items, rest) ← readItems fuel rest
      return (item :: items, rest)
    | ']' :: rest => return ([item], rest)
    | _ => none

def readMembers : Nat → List Char → Option (List (List Piece × Value) × List Char)
  | 0, _ => none
  | fuel + 1, cs => do
    let (name, rest) ← readName cs
    let (value, rest) ← read fuel rest
    match skip rest with
    | ',' :: rest =>
      let (members, rest) ← readMembers fuel rest
      return ((name, value) :: members, rest)
    | '\x7d' :: rest => return ([(name, value)], rest)
    | _ => none

end

/-- The value that a whole text holds; every level of it takes at least one character. -/
def ofText? (s : String) : Option Value :=
  match read (2 * s.length + 2) s.toList with
  | some (v, rest) => if (skip rest).isEmpty then some v else none
  | none => none

/-- The members of a record with their names put together. -/
def namedMembers? (members : List (List Piece × Value)) : Option (List (String × Value)) :=
  members.mapM fun (name, value) => (Piece.text? name).map (·, value)

/-- The only member of a name. -/
def only? (members : List (String × Value)) (name : String) : Option Value :=
  match members.filter (·.1 == name) with
  | [(_, value)] => some value
  | _ => none

/-- The values of the named fields, in that order: from a record that has each of them once and may
have others, or from a list with exactly these values. -/
def fields? (names : List String) : Value → Option (List Value)
  | .record members => do
    let members ← namedMembers? members
    names.mapM (only? members)
  | .list items => if items.length = names.length then some items else none
  | _ => none

def items? : Value → Option (List Value)
  | .list items => some items
  | _ => none

/-- A choice: its name alone as a text, or a record with one member, the name and what belongs to
it. -/
def choice? : Value → Option (String × Option Value)
  | .text name => (Piece.text? name).map (·, none)
  | .record [(name, value)] => (Piece.text? name).map (·, some value)
  | _ => none

end Value

/-- The text of a record with the given members. -/
def recordText (members : List (String × String)) : String :=
  "\x7b" ++ ",".intercalate (members.map fun (name, value) => quoted name ++ ":" ++ value) ++ "\x7d"

/-- The text of a list with the given items. -/
def listText (items : List String) : String := "[" ++ ",".intercalate items ++ "]"

end FireControl.Interchange
