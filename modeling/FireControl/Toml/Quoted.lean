import FireControl.Number.Checked
import FireControl.Text.Digits

/-!
# Quoted TOML texts

A text stands between double quotes, where a backslash starts an escape, or between single quotes,
where every character stands for itself. Three quotes in place of one let the text run over several
lines; a line end right behind them does not belong to it, and up to two quotes may stand in it or at
its end.

To choose how a text is quoted, the writer counts its runs of quotes in eight bits, so a text with a
longer run is not written (`countedRun_eq_ok`).
-/

namespace FireControl.Toml.Quoted

/-- Whether a character may stand in a text or a comment as it is. -/
def isPlain (c : Char) : Bool := c == '\t' || (0x20 ≤ c.toNat && c.toNat != 0x7F)

/-- Whether a character is a blank within a line. -/
def isSpace (c : Char) : Bool := c == ' ' || c == '\t'

/-- The text behind a line end, if one comes first. -/
def afterLineEnd? : List Char → Option (List Char)
  | '\n' :: rest => some rest
  | '\r' :: '\n' :: rest => some rest
  | _ => none

def ofCodePoint? (n : Nat) : Option Char := if n.isValidChar then some (Char.ofNat n) else none

/-- Reads what follows a backslash. -/
def readEscape : List Char → Option (Char × List Char)
  | 'b' :: rest => some ('\x08', rest)
  | 't' :: rest => some ('\t', rest)
  | 'n' :: rest => some ('\n', rest)
  | 'f' :: rest => some ('\x0c', rest)
  | 'r' :: rest => some ('\r', rest)
  | '"' :: rest => some ('"', rest)
  | '\\' :: rest => some ('\\', rest)
  | 'u' :: rest => do
    let (n, rest) ← Text.fixedNumber? 16 4 rest
    return (← ofCodePoint? n, rest)
  | 'U' :: rest => do
    let (n, rest) ← Text.fixedNumber? 16 8 rest
    return (← ofCodePoint? n, rest)
  | _ => none

/-- Passes over blanks and line ends. -/
def skipBlankLines (cs : List Char) : List Char :=
  cs.dropWhile fun c => isSpace c || c == '\n' || c == '\r'

/-- Whether a text holds a carriage return that ends no line. -/
def hasLoneReturn : List Char → Bool
  | [] => false
  | '\r' :: '\n' :: rest => hasLoneReturn rest
  | c :: rest => c == '\r' || hasLoneReturn rest

/-- The text behind an escaped line end: further blanks and line ends go with it. -/
def afterEscapedLineEnd? (cs : List Char) : Option (List Char) := do
  let rest ← afterLineEnd? (cs.dropWhile isSpace)
  let kept := skipBlankLines rest
  if hasLoneReturn (rest.take (rest.length - kept.length)) then none else some kept

/-- How a text is quoted. -/
structure Style where
  quote : Char
  /-- Whether a backslash starts an escape. -/
  escapes : Bool
  /-- Whether the text may run over several lines. -/
  multiline : Bool
  deriving DecidableEq, Repr

/-- Reads up to the closing quotes. The first argument bounds the recursion. -/
def readContent (s : Style) : Nat → List Char → Option (List Char × List Char)
  | 0, _ => none
  | _ + 1, [] => none
  | fuel + 1, c :: rest =>
    let more (front : List Char) (rest : List Char) : Option (List Char × List Char) :=
      (readContent s fuel rest).map fun (text, rest) => (front ++ text, rest)
    if c = s.quote then
      if s.multiline then
        let run := ((c :: rest).takeWhile (· == s.quote)).length
        if run < 3 then more [c] rest
        else
          -- The last three of the run close the text, and up to two before them belong to it.
          let closing := min run 5
          some (List.replicate (closing - 3) c, (c :: rest).drop closing)
      else some ([], rest)
    else if c = '\\' ∧ s.escapes then
      match if s.multiline then afterEscapedLineEnd? rest else none with
      | some rest => more [] rest
      | none =>
        match readEscape rest with
        | some (escaped, rest) => more [escaped] rest
        | none => none
    else
      match if s.multiline then afterLineEnd? (c :: rest) else none with
      | some rest => more ['\n'] rest
      | none => if isPlain c then more [c] rest else none

/-- Reads a text that starts with a quote. Keys and inner texts may be kept to one line. -/
def read (multiline : Bool) (cs : List Char) : Option (String × List Char) :=
  match cs with
  | [] => none
  | quote :: rest =>
    if quote = '"' ∨ quote = '\'' then
      let isTriple := multiline && rest.take 2 == [quote, quote]
      let style : Style := { quote, escapes := quote = '"', multiline := isTriple }
      let content := if isTriple then (afterLineEnd? (rest.drop 2)).getD (rest.drop 2) else rest
      (readContent style (content.length + 1) content).map fun (text, rest) =>
        (String.ofList text, rest)
    else none

/-! ## Writing -/

/-- The length of the longest run of a character. -/
def longestRun (c : Char) (cs : List Char) : Nat :=
  (cs.foldl (fun (longest, current) d =>
    let current := if d = c then current + 1 else 0
    (max longest current, current)) (0, 0)).1

/-- The length of the longest run of a character, if eight bits hold it. -/
def countedRun (c : Char) (cs : List Char) : Checked Nat := Checked.nat8 .add (longestRun c cs)

theorem countedRun_eq_ok {c : Char} {cs : List Char} {n : Nat} :
    countedRun c cs = .ok n ↔ longestRun c cs < 256 ∧ n = longestRun c cs := Checked.nat8_eq_ok

/-- Whether a text needs escapes whatever its style: it holds a control character other than a tab or
a line feed. -/
def needsCodes (cs : List Char) : Bool := cs.any fun c => c != '\n' && !isPlain c

/-- The style a text is written in: double quotes where it needs no escape for a quote, a backslash
or a line feed; else single quotes, three double quotes or three single quotes, the first that do
without escapes; else escapes, on several lines if there is a line feed. -/
def styleOf (cs : List Char) : Checked Style := do
  let newline := cs.contains '\n'
  let backslash := cs.contains '\\'
  let codes := needsCodes cs
  let doubles ← countedRun '"' cs
  let singles ← countedRun '\'' cs
  return (
    if !codes && !backslash && doubles == 0 && !newline then ⟨'"', true, false⟩
    else if !codes && singles == 0 && !newline then ⟨'\'', false, false⟩
    else if !codes && !backslash && doubles ≤ 2 then ⟨'"', true, true⟩
    else if !codes && singles ≤ 2 then ⟨'\'', false, true⟩
    else ⟨'"', true, newline⟩)

/-- A character with an escape where it needs one; quotes are looked after elsewhere. -/
def escaped (s : Style) (c : Char) : List Char :=
  match c with
  | '\x08' => ['\\', 'b']
  | '\t' => ['\\', 't']
  | '\n' => if s.multiline then ['\n'] else ['\\', 'n']
  | '\x0c' => ['\\', 'f']
  | '\r' => ['\\', 'r']
  | '\\' => ['\\', '\\']
  | c => if isPlain c then [c] else '\\' :: 'u' :: (Text.hexText 4 c.toNat).toList.map Char.toUpper

/-- The characters between the quotes: of a run of quotes the first ones stay as they are, as many as
cannot close the text. -/
def content (s : Style) (run : Nat) : List Char → List Char
  | [] => []
  | c :: rest =>
    if c = s.quote then
      if (if s.multiline then 2 else 0) ≤ run then '\\' :: c :: content s 0 rest
      else c :: content s (run + 1) rest
    else escaped s c ++ content s 0 rest

def quoted (s : Style) (cs : List Char) : List Char :=
  let mark := List.replicate (if s.multiline then 3 else 1) s.quote
  let lead := if s.multiline && cs.contains '\n' then ['\n'] else []
  mark ++ lead ++ (if s.escapes then content s 0 cs else cs) ++ mark

def write (text : String) : Checked String :=
  (styleOf text.toList).map fun s => String.ofList (quoted s text.toList)

end FireControl.Toml.Quoted
