import FireControl.Decimal.Shortest

/-!
# Writing a floating-point number

A number is written with the digits of `Decimal.shortest`. What the formats differ in is one record,
`Layout`: where positional writing ends and an exponent begins, how that exponent is signed, whether a
whole number shows a fraction, which digit an exact tie takes, and the words for what has no digits.
-/

namespace FireControl.Decimal

open Float.Model (Format UnpackedFloat)

/-- How one output format writes its numbers. Position `p` means `10 ^ (p - 1) ≤ number < 10 ^ p`. -/
structure Layout where
  /-- The least and greatest position written without an exponent; `none` for all positions. -/
  positional : Option (Int × Int)
  /-- Written before the digits of an exponent that is not negative. -/
  plus : String
  /-- Written after a whole number. -/
  wholeEnd : String
  tie : Tie
  infinite : String
  notANumber : String

/-- The decimal digits of a natural number. -/
def natText (n : Nat) : String := String.ofList (Nat.toDigits 10 n)

/-- The decimal digits of an integer, with a minus sign when negative. -/
def intText (v : Int) : String := (if v < 0 then "-" else "") ++ natText v.natAbs

/-- Without an exponent: zeros fill up to the point, or from the point to the first digit. -/
def positionalText (wholeEnd : String) (d : Digits) : String :=
  let digits := natText d.coefficient
  if 0 ≤ d.exponent then
    digits ++ String.ofList (List.replicate d.exponent.toNat '0') ++ wholeEnd
  else
    let places := (-d.exponent).toNat
    let padded := List.replicate (places + 1 - digits.length) '0' ++ digits.toList
    String.ofList (padded.take (padded.length - places)) ++ "."
      ++ String.ofList (padded.drop (padded.length - places))

/-- One digit, a point if more follow, and the exponent. -/
def exponentText (plus : String) (d : Digits) : String :=
  let digits := Nat.toDigits 10 d.coefficient
  let exponent := d.exponent + digits.length - 1
  String.ofList (digits.take 1)
    ++ (if 1 < digits.length then "." ++ String.ofList (digits.drop 1) else "")
    ++ "e" ++ (if 0 ≤ exponent then plus else "") ++ intText exponent

def Layout.digitsText (l : Layout) (d : Digits) : String :=
  let position := d.exponent + (Nat.toDigits 10 d.coefficient).length
  match l.positional with
  | none => positionalText l.wholeEnd d
  | some (least, greatest) =>
    if least ≤ position ∧ position ≤ greatest then positionalText l.wholeEnd d
    else exponentText l.plus d

/-- A minus sign for a negative number. -/
def signText : Float.Model.UnpackedFloat.Sign → String
  | .positive => ""
  | .negative => "-"

/-- The text of a number of the given binary format. -/
def Layout.text (l : Layout) (format : Format) : UnpackedFloat → String
  | .notANumber => l.notANumber
  | .infinity sign => signText sign ++ l.infinite
  | .zero sign => signText sign ++ "0" ++ l.wholeEnd
  | .finite sign significand exponent _ =>
    signText sign ++ l.digitsText (shortest format l.tie significand exponent)

def Layout.text32 (l : Layout) (x : Float32) : String := l.text Format.binary32 x.toModel.unpack

def Layout.text64 (l : Layout) (x : Float) : String := l.text Format.binary64 x.toModel.unpack

end FireControl.Decimal
