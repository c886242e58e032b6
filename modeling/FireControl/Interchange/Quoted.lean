import FireControl.Text.Digits

/-!
# Quoted texts

A text stands between double quotes. Quotes, backslashes and control characters are escaped; a
character may also be given by the four hexadecimal digits of its UTF-16 units. A reader takes a
quoted text apart into pieces, each a character or a unit, and `decode?` puts the pieces together: a
high unit needs a low one right behind it, and a low one may not stand alone. Texts that nobody looks
at are not put together, so their units need not fit.
-/

namespace FireControl.Interchange

/-- A piece of a quoted text. -/
inductive Piece where
  | char (c : Char)
  /-- A UTF-16 unit. -/
  | unit (u : Nat)
  deriving DecidableEq, Repr

namespace Piece

/-- The character that a one-letter escape stands for. -/
def ofEscape? : Char → Option Char
  | '"' => some '"'
  | '\\' => some '\\'
  | '/' => some '/'
  | 'b' => some '\x08'
  | 'f' => some '\x0c'
  | 'n' => some '\n'
  | 'r' => some '\r'
  | 't' => some '\t'
  | _ => none

/-- Reads pieces up to the closing quote; the second component is what follows it. Control
characters may not stand unescaped. -/
def readAll : List Char → Option (List Piece × List Char)
  | [] => none
  | '"' :: rest => some ([], rest)
  | '\\' :: 'u' :: a :: b :: c :: d :: rest => do
    let u ← Text.number? 16 [a, b, c, d]
    let (pieces, rest) ← readAll rest
    return (.unit u :: pieces, rest)
  | '\\' :: e :: rest => do
    let c ← ofEscape? e
    let (pieces, rest) ← readAll rest
    return (.char c :: pieces, rest)
  | c :: rest =>
    if c.toNat < 0x20 ∨ c = '\\' then none
    else do
      let (pieces, rest) ← readAll rest
      return (.char c :: pieces, rest)

/-- The character of a pair of a high and a low unit. -/
def ofPair (high low : Nat) : Char := Char.ofNat (0x10000 + (high - 0xD800) * 0x400 + (low - 0xDC00))

/-- Puts pieces together. -/
def decode? : List Piece → Option (List Char)
  | [] => some []
  | .char c :: later => (decode? later).map (c :: ·)
  | .unit u :: later =>
    if 0xDC00 ≤ u ∧ u ≤ 0xDFFF then none
    else if 0xD800 ≤ u ∧ u < 0xDC00 then
      match later with
      | .unit low :: later =>
        if 0xDC00 ≤ low ∧ low ≤ 0xDFFF then (decode? later).map (ofPair u low :: ·) else none
      | _ => none
    else (decode? later).map (Char.ofNat u :: ·)

def text? (pieces : List Piece) : Option String := (decode? pieces).map String.ofList

end Piece

/-- A character as it is written between quotes. -/
def escaped (c : Char) : List Char :=
  match c with
  | '"' => ['\\', '"']
  | '\\' => ['\\', '\\']
  | '\x08' => ['\\', 'b']
  | '\x0c' => ['\\', 'f']
  | '\n' => ['\\', 'n']
  | '\r' => ['\\', 'r']
  | '\t' => ['\\', 't']
  | c => if c.toNat < 0x20 then '\\' :: 'u' :: (Text.hexText 4 c.toNat).toList else [c]

def quoted (s : String) : String := "\"" ++ String.ofList (s.toList.flatMap escaped) ++ "\""

end FireControl.Interchange
