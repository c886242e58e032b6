import FireControl.Toml.Quoted
import FireControl.Toml.Scalar

/-!
# Reading TOML

A document is a sequence of lines: assignments of values to keys, headers that open a table for the
assignments below them, and comments. A value takes the rest of its line, but lists and texts in
three quotes may go on over further lines.
-/

namespace FireControl.Toml

open FireControl.Toml.Quoted (isPlain isSpace afterLineEnd?)

/-- A text without the blanks at its front. -/
def skipSpaces (cs : List Char) : List Char := cs.dropWhile isSpace

/-- The text behind a comment, if one comes first. -/
def skipComment (cs : List Char) : List Char :=
  match cs with
  | '#' :: rest => rest.dropWhile isPlain
  | _ => cs

/-- The text behind the end of a line, before which only blanks and a comment may stand. -/
def endLine (cs : List Char) : Option (List Char) :=
  match skipComment (skipSpaces cs) with
  | [] => some []
  | rest => afterLineEnd? rest

/-- Passes over blanks, comments and line ends. The first argument bounds the recursion. -/
def skipLines : Nat → List Char → List Char
  | 0, cs => cs
  | fuel + 1, cs =>
    let rest := skipComment (skipSpaces cs)
    match afterLineEnd? rest with
    | some rest => skipLines fuel rest
    | none => rest

/-- Whether a character can stand in an unquoted key. -/
def isKeyChar (c : Char) : Bool := c.isAlphanum || c == '-' || c == '_'

def readKeyPart (cs : List Char) : Option (String × List Char) :=
  match Quoted.read false cs with
  | some found => some found
  | none =>
    match cs.takeWhile isKeyChar with
    | [] => none
    | name => some (String.ofList name, cs.dropWhile isKeyChar)

/-- Reads a key: parts with points between them, and blanks around them. The first argument bounds
the recursion. -/
def readKey : Nat → List Char → Option (List String × List Char)
  | 0, _ => none
  | fuel + 1, cs => do
    let (part, rest) ← readKeyPart (skipSpaces cs)
    match skipSpaces rest with
    | '.' :: rest =>
      let (parts, rest) ← readKey fuel rest
      return (part :: parts, rest)
    | rest => return ([part], rest)

/-- Lists and inline tables are nested less deep than this, and keys have fewer parts. -/
def nestingLimit : Nat := 80

mutual

/-- Reads a value with a number of levels around it. The first argument bounds the recursion. -/
def readValue : Nat → Nat → List Char → Option (Scalar × List Char)
  | 0, _, _ => none
  | fuel + 1, depth, cs =>
    match cs with
    | '[' :: rest =>
      if depth + 1 < nestingLimit then (readItems fuel (depth + 1) rest).map (.other, ·) else none
    | '\x7b' :: rest =>
      if depth + 1 < nestingLimit then
        match skipSpaces rest with
        | '\x7d' :: rest => some (.other, rest)
        | rest => (readPairs fuel (depth + 1) [] rest).map (.other, ·)
      else none
    | '"' :: _ => (Quoted.read true cs).map fun (s, rest) => (.text s, rest)
    | '\'' :: _ => (Quoted.read true cs).map fun (s, rest) => (.text s, rest)
    | _ => Scalar.read cs

/-- Passes over the items of a list up to its closing bracket. -/
def readItems : Nat → Nat → List Char → Option (List Char)
  | 0, _, _ => none
  | fuel + 1, depth, cs =>
    match skipLines cs.length cs with
    | ']' :: rest => some rest
    | rest => do
      let (_, rest) ← readValue fuel depth rest
      match skipLines rest.length rest with
      | ',' :: rest => readItems fuel depth rest
      | ']' :: rest => some rest
      | _ => none

/-- Passes over the assignments of an inline table up to its closing brace. Nothing is assigned
twice. -/
def readPairs : Nat → Nat → Entries → List Char → Option (List Char)
  | 0, _, _, _ => none
  | fuel + 1, depth, entries, cs => do
    let (key, rest) ← readKey (nestingLimit - 1) cs
    match rest with
    | '=' :: rest =>
      let (v, rest) ← readValue fuel depth (skipSpaces rest)
      let entries ← entries.assignKey key v
      match skipSpaces rest with
      | ',' :: rest => readPairs fuel depth entries rest
      | '\x7d' :: rest => some rest
      | _ => none
    | _ => none

end

/-- The document so far, and the path of the table whose header was read last. -/
structure Progress where
  root : Entries := []
  path : List String := []

/-- Takes in a key and its value. -/
def Progress.assign (p : Progress) (key : List String) (v : Scalar) : Option Progress :=
  (Entries.atPath (Entries.assignKey key v) p.path p.root).map fun root => { p with root }

def Progress.header (p : Progress) (isList : Bool) (key : List String) : Option Progress := do
  let name ← key.getLast?
  let f := if isList then Entries.addTable name else Entries.openTable name
  let root ← Entries.atPath f key.dropLast p.root
  return { root, path := key }

/-- Reads an assignment off the front of a line. -/
def readAssignment (p : Progress) (cs : List Char) : Option (Progress × List Char) := do
  let (key, rest) ← readKey (nestingLimit - 1) cs
  match rest with
  | '=' :: rest =>
    let (v, rest) ← readValue (rest.length + 1) 0 (skipSpaces rest)
    return (← p.assign key v, rest)
  | _ => none

/-- Reads a header off the front of a line. -/
def readHeader (p : Progress) (cs : List Char) : Option (Progress × List Char) :=
  match cs with
  | '[' :: '[' :: rest => do
    let (key, rest) ← readKey (nestingLimit - 1) rest
    match rest with
    | ']' :: ']' :: rest => return (← p.header true key, rest)
    | _ => none
  | '[' :: rest => do
    let (key, rest) ← readKey (nestingLimit - 1) rest
    match rest with
    | ']' :: rest => return (← p.header false key, rest)
    | _ => none
  | _ => none

/-- Reads line after line. The first argument bounds the recursion. -/
def readLines : Nat → Progress → List Char → Option Entries
  | 0, _, _ => none
  | fuel + 1, p, cs =>
    match skipLines cs.length cs with
    | [] => some p.root
    | '[' :: rest => do
      let (p, rest) ← readHeader p ('[' :: rest)
      readLines fuel p (← endLine rest)
    | rest => do
      let (p, rest) ← readAssignment p rest
      readLines fuel p (← endLine rest)

/-- The document in a text; a byte-order mark may come first. -/
def ofText? (s : String) : Option Entries :=
  let cs := match s.toList with
    | '\uFEFF' :: rest => rest
    | cs => cs
  readLines (cs.length + 1) {} cs

end FireControl.Toml
