import FireControl.Number.Floating
import FireControl.Text.Digits

/-!
# Numerals

A numeral is an integer if it shows neither a point nor an exponent and fits 64 bits; any other is
read as a binary64 number. Its digits are gathered in a 64-bit significand. From the first digit that
no longer fits, digits before the point only raise the power of ten, and digits behind it are
dropped. Significand and power of ten are rounded one after the other, so the result may miss the
nearest number by a little. A number too large for the format is refused.
-/

namespace FireControl.Interchange

/-- A numeral as it is written. -/
structure Numeral where
  negative : Bool
  /-- Most significant first, like the other digits. -/
  whole : List Nat
  /-- The digits behind the point, if there is one. -/
  fraction : Option (List Nat) := none
  /-- Whether the exponent is negative, and its digits. -/
  exponent : Option (Bool × List Nat) := none
  deriving DecidableEq, Repr

/-- What a numeral means. -/
inductive Amount where
  | integer (v : Int)
  | real (x : Float)

namespace Numeral

/-- Reads at least one digit. -/
def readDigits (cs : List Char) : Option (List Nat × List Char) :=
  match Text.takeDigits cs with
  | ([], _) => none
  | found => some found

/-- Reads the part behind the whole digits, if a point follows. -/
def readFraction (cs : List Char) : Option (Option (List Nat) × List Char) :=
  match cs with
  | '.' :: rest => (readDigits rest).map fun (digits, rest) => (some digits, rest)
  | _ => some (none, cs)

/-- Whether a character announces an exponent. -/
def isExponentMark (c : Char) : Bool := c == 'e' || c == 'E'

/-- The sign of an exponent; true for a minus. -/
def readSign : List Char → Bool × List Char
  | '+' :: rest => (false, rest)
  | '-' :: rest => (true, rest)
  | rest => (false, rest)

/-- Reads an exponent, if one is announced. -/
def readExponent (cs : List Char) : Option (Option (Bool × List Nat) × List Char) :=
  match cs with
  | [] => some (none, [])
  | c :: rest =>
    if isExponentMark c then
      let (negative, rest) := readSign rest
      (readDigits rest).map fun (digits, rest) => (some (negative, digits), rest)
    else some (none, cs)

/-- Reads a numeral without its minus sign. A zero at the front stands alone. -/
def readUnsigned (negative : Bool) (cs : List Char) : Option (Numeral × List Char) := do
  let (whole, rest) ← readDigits cs
  if whole.head? = some 0 ∧ 1 < whole.length then none
  let (fraction, rest) ← readFraction rest
  let (exponent, rest) ← readExponent rest
  return (⟨negative, whole, fraction, exponent⟩, rest)

/-- Reads a numeral off the front of a text. -/
def read (cs : List Char) : Option (Numeral × List Char) :=
  match cs with
  | '-' :: rest => readUnsigned true rest
  | _ => readUnsigned false cs

/-- Significands stay below this. -/
def significandLimit : Nat := 18446744073709551616

/-- Adds digits to a significand while they fit; the rest is left over. -/
def gather (significand : Nat) : List Nat → Nat × List Nat
  | [] => (significand, [])
  | d :: later =>
    if significand * 10 + d < significandLimit then gather (significand * 10 + d) later
    else (significand, d :: later)

/-- A power of ten, rounded. -/
def power (n : Nat) : Float := Float.ofScientific 1 false n

/-- Powers of ten go up to this one. -/
def greatestPower : Nat := 308

/-- `x * 10 ^ exponent`, in steps that are each rounded; none if it is too large. -/
def scale (x : Float) (exponent : Int) : Option Float :=
  if exponent.natAbs ≤ greatestPower then
    if 0 ≤ exponent then
      let y := x * power exponent.toNat
      if y.isInf then none else some y
    else some (x / power exponent.natAbs)
  else if x == 0 then some x
  else if 0 ≤ exponent then none
  else scale (x / power greatestPower) (exponent + greatestPower)
termination_by exponent.natAbs
decreasing_by simp only [greatestPower] at *; omega

/-- An exponent that fits 32 bits has at most this value. -/
def exponentLimit : Nat := 2147483647

/-- The magnitude of a significand with a power of ten and a written exponent. -/
def magnitude (significand : Nat) (shift : Int) : Option (Bool × List Nat) → Option Float
  | none => scale (Float.ofNat significand) shift
  | some (negative, digits) =>
    let exponent := Text.ofDigits 10 digits
    if exponentLimit < exponent then
      if significand ≠ 0 ∧ !negative then none else some 0
    else
      scale (Float.ofNat significand) (if negative then shift - exponent else shift + exponent)

/-- The number with a magnitude. -/
def signed (n : Numeral) (x : Float) : Amount := .real (if n.negative then -x else x)

/-- The integer with a significand, unless it is a negative zero or below the signed 64-bit range. -/
def integer (n : Numeral) (significand : Nat) : Amount :=
  if !n.negative then .integer significand
  else if significand = 0 ∨ 9223372036854775808 < significand then n.signed (Float.ofNat significand)
  else .integer (-(significand : Int))

def amount? (n : Numeral) : Option Amount :=
  let (significand, left) := gather 0 n.whole
  match n.fraction with
  | none =>
    if left.isEmpty && n.exponent.isNone then some (n.integer significand)
    else (magnitude significand left.length n.exponent).map n.signed
  | some fraction =>
    -- Digits dropped behind the point do not move it.
    let (significand, dropped) := gather significand fraction
    let used : Int := fraction.length - dropped.length
    (magnitude significand (left.length - used) n.exponent).map n.signed

end Numeral

namespace Amount

/-- The nearest binary32 number: an integer is rounded once. -/
def toFloat32 : Amount → Float32
  | .integer v => Floating.ofScaled v 0
  | .real x => Floating.narrow x

/-- The integer, if it is one and lies in a range. -/
def within? (low high : Int) : Amount → Option Int
  | .integer v => if low ≤ v ∧ v ≤ high then some v else none
  | .real _ => none

end Amount

end FireControl.Interchange
