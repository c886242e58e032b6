import FireControl.Calendar.Date
import FireControl.Text.Digits
import FireControl.Toml.Document

/-!
# Bare TOML values

Truth values, integers, real numbers, dates and times are written without quotes, as one run of
characters. Underscores may stand between digits. A decimal integer has no leading zero; integers of
other bases have no sign; every integer fits 64 bits with a sign. A real number is the nearest
binary64 number; one too large to be finite is refused, though not a negative one.
-/

namespace FireControl.Toml.Scalar

open FireControl.Calendar (Date)

/-- Takes out the underscores of a run of digits: each stands between two digits. -/
def ungrouped? (isDigit : Char → Bool) : List Char → Option (List Char)
  | [] => none
  | [c] => if isDigit c then some [c] else none
  | c :: '_' :: rest => if isDigit c then (ungrouped? isDigit rest).map (c :: ·) else none
  | c :: rest => if isDigit c then (ungrouped? isDigit rest).map (c :: ·) else none

/-- The sign of a number, true for a minus, and the text behind it. -/
def splitSign : List Char → Bool × List Char
  | '+' :: rest => (false, rest)
  | '-' :: rest => (true, rest)
  | rest => (false, rest)

/-- An integer of 64 bits with a sign. -/
def integer? (v : Int) : Option Scalar :=
  if -9223372036854775808 ≤ v ∧ v ≤ 9223372036854775807 then some (.integer v) else none

/-- Decimal digits without a zero in front of others. -/
def plainDigits? (cs : List Char) : Option (List Char) := do
  let digits ← ungrouped? Char.isDigit cs
  if digits.head? = some '0' ∧ 1 < digits.length then none else some digits

/-- A number in digits of a base. -/
def inBase? (base : Nat) (cs : List Char) : Option Scalar := do
  let digits ← ungrouped? (fun c => (Text.digitValue? base c).isSome) cs
  integer? (← Text.number? base digits)

def readInteger (cs : List Char) : Option Scalar :=
  match cs with
  | '0' :: 'x' :: rest => inBase? 16 rest
  | '0' :: 'o' :: rest => inBase? 8 rest
  | '0' :: 'b' :: rest => inBase? 2 rest
  | _ => do
    let (negative, rest) := splitSign cs
    let n ← Text.number? 10 (← plainDigits? rest)
    integer? (if negative then -(n : Int) else n)

/-- The nearest binary64 number to `significand * 10 ^ exponent`. Beyond a certain size the number is
infinite or zero in any case. -/
def nearest (significand : Nat) (exponent : Int) : Float :=
  let position := exponent + (Nat.toDigits 10 significand).length
  if significand = 0 ∨ position < -400 then 0
  -- Beyond the 309 digits of the greatest number.
  else if 400 < position then 1 / 0
  else if 0 ≤ exponent then Float.ofScientific significand false exponent.toNat
  else Float.ofScientific significand true exponent.natAbs

/-- The exponent of a real number, behind its letter. -/
def readExponent (cs : List Char) : Option Int := do
  let (negative, rest) := splitSign cs
  let n ← Text.number? 10 (← ungrouped? Char.isDigit rest)
  return if negative then -(n : Int) else n

/-- The words for numbers without digits. -/
def readWord (negative : Bool) (cs : List Char) : Option Scalar :=
  if cs = "inf".toList then some (.real (if negative then -1 / 0 else 1 / 0))
  else if cs = "nan".toList then some (.real (0 / 0))
  else none

/-- The magnitude of a real number with a point or an exponent. -/
def readMagnitude (cs : List Char) : Option Float := do
  let isMark (c : Char) : Bool := c == 'e' || c == 'E'
  let front := cs.takeWhile (!isMark ·)
  let exponent ← match cs.dropWhile (!isMark ·) with
    | [] => some 0
    | _ :: rest => readExponent rest
  let whole ← plainDigits? (front.takeWhile (· != '.'))
  let fraction ← match front.dropWhile (· != '.') with
    | [] => some []
    | _ :: rest => ungrouped? Char.isDigit rest
  let significand ← Text.number? 10 (whole ++ fraction)
  return nearest significand (exponent - (fraction.length : Int))

def readReal (cs : List Char) : Option Scalar :=
  let (negative, rest) := splitSign cs
  match readWord negative rest with
  | some v => some v
  | none =>
    if rest.any fun c => c == '.' || c == 'e' || c == 'E' then do
      let x ← readMagnitude rest
      if x.isInf && !negative then none else some (.real (if negative then -x else x))
    else none

/-- A separator in front of a number of two digits. -/
def readPart (mark : Char) (cs : List Char) : Option (Nat × List Char) :=
  match cs with
  | c :: rest => if c = mark then Text.fixedNumber? 10 2 rest else none
  | [] => none

/-- Reads a date off the front of a text. -/
def readDate (cs : List Char) : Option (List Char) := do
  let (year, rest) ← Text.fixedNumber? 10 4 cs
  let (month, rest) ← readPart '-' rest
  let (day, rest) ← readPart '-' rest
  if (Date.mk year month day).isValid then some rest else none

/-- Passes over the decimals of a second. -/
def readDecimals : List Char → Option (List Char)
  | '.' :: rest =>
    match Text.takeDigits rest with
    | ([], _) => none
    | (_, rest) => some rest
  | rest => some rest

/-- Reads a time of day off the front of a text. -/
def readTime (cs : List Char) : Option (List Char) := do
  let (hour, rest) ← Text.fixedNumber? 10 2 cs
  let (minute, rest) ← readPart ':' rest
  let (second, rest) ← readPart ':' rest
  if hour ≤ 23 ∧ minute ≤ 59 ∧ second ≤ 60 then readDecimals rest else none

/-- Whether a text is nothing, or an offset from universal time. -/
def isOffset : List Char → Bool
  | [] => true
  | ['Z'] => true
  | ['z'] => true
  | sign :: rest =>
    (sign == '+' || sign == '-') &&
      match Text.fixedNumber? 10 2 rest with
      | some (hours, rest) =>
        match readPart ':' rest with
        | some (minutes, rest) => decide (hours ≤ 23 ∧ minutes ≤ 59) && rest.isEmpty
        | none => false
      | none => false

/-- Whether a text is a time of day with or without an offset. -/
def isTime (cs : List Char) (offset : Bool) : Bool :=
  match readTime cs with
  | none => false
  | some rest => if offset then isOffset rest else rest.isEmpty

/-- A date, a time, or both with a letter or a blank between them. -/
def readMoment (cs : List Char) : Option Scalar :=
  let found := match readDate cs with
    | none => isTime cs false
    | some [] => true
    | some (mark :: rest) => (mark == 'T' || mark == 't' || mark == ' ') && isTime rest true
  if found then some .other else none

/-- The value of a run of characters. -/
def ofRun? (cs : List Char) : Option Scalar :=
  if cs = "true".toList then some (.bool true)
  else if cs = "false".toList then some (.bool false)
  else (readMoment cs).or ((readInteger cs).or (readReal cs))

/-- Whether a character can belong to a bare value. -/
def isRunChar (c : Char) : Bool :=
  c.isAlphanum || c == '+' || c == '-' || c == '_' || c == '.' || c == ':'

/-- Reads a bare value off the front of a text. A date may be followed by a blank and a time. -/
def read (cs : List Char) : Option (Scalar × List Char) :=
  let run := cs.takeWhile isRunChar
  let rest := cs.dropWhile isRunChar
  let longer := match rest with
    | ' ' :: rest =>
      let time := rest.takeWhile isRunChar
      (readMoment (run ++ ' ' :: time)).map (·, rest.dropWhile isRunChar)
    | _ => none
  longer.or ((ofRun? run).map (·, rest))

end FireControl.Toml.Scalar
