import FireControl.Calendar.Date
import FireControl.Text.Blank
import FireControl.Text.Digits

/-!
# Timestamps

A timestamp is a date and a time of day in universal time, down to the nanosecond; a leap second is
the sixtieth second of its minute. Reading is lenient about blanks and the letter between date and
time, and brings a time with another offset to universal time. Writing takes as many decimals of a
second as are needed, in groups of three.
-/

namespace FireControl.Calendar

open FireControl.Text (trimStart)

/-- A moment in universal time. -/
structure Timestamp where
  date : Date
  /-- The second of the day, not counting a leap second. -/
  second : Nat
  /-- A billion and more within a leap second. -/
  nanosecond : Nat := 0
  deriving DecidableEq, Repr

namespace Timestamp

/-- Reads one to `width` digits behind blanks. -/
def readNumber (width : Nat) (cs : List Char) : Option (Nat × List Char) :=
  let cs := trimStart cs
  let digits := (Text.takeDigits cs).1.take width
  if digits.isEmpty then none else some (Text.ofDigits 10 digits, cs.drop digits.length)

/-- Reads any number of digits, but at least one. -/
def readLong (cs : List Char) : Option (Nat × List Char) :=
  match Text.takeDigits cs with
  | ([], _) => none
  | (digits, rest) => some (Text.ofDigits 10 digits, rest)

/-- Reads a year: four digits at most, unless a sign stands before them. -/
def readYear (cs : List Char) : Option (Int × List Char) :=
  match trimStart cs with
  | '-' :: rest => (readLong rest).map fun (n, rest) => (-(n : Int), rest)
  | '+' :: rest => (readLong rest).map fun (n, rest) => ((n : Int), rest)
  | rest => (readNumber 4 rest).map fun (n, rest) => ((n : Int), rest)

/-- Reads a character behind blanks. -/
def readMark (mark : Char) (cs : List Char) : Option (List Char) :=
  match trimStart cs with
  | c :: rest => if c = mark then some rest else none
  | [] => none

/-- Years that dates may have. -/
def yearRange : Int × Int := (-262143, 262142)

def isYear (year : Int) : Bool := yearRange.1 ≤ year && year ≤ yearRange.2

def readDate (cs : List Char) : Option (Date × List Char) := do
  let (year, rest) ← readYear cs
  let (month, rest) ← readNumber 2 (← readMark '-' rest)
  let (day, rest) ← readNumber 2 (← readMark '-' rest)
  let date : Date := { year, month, day }
  if isYear year && date.isValid then some (date, rest) else none

/-- Reads decimals of a second as nanoseconds; those beyond the ninth are dropped. -/
def readDecimals (cs : List Char) : Option (Nat × List Char) :=
  match cs with
  | '.' :: rest =>
    match Text.takeDigits rest with
    | ([], _) => none
    | (digits, rest) =>
      let kept := digits.take 9
      some (Text.ofDigits 10 (kept ++ List.replicate (9 - kept.length) 0), rest)
  | _ => some (0, cs)

def nanosPerSecond : Nat := 1000000000

/-- Reads a time of day as seconds and nanoseconds. -/
def readTime (cs : List Char) : Option (Nat × Nat × List Char) := do
  let (hour, rest) ← readNumber 2 cs
  let (minute, rest) ← readNumber 2 (← readMark ':' rest)
  let (second, rest) ← readNumber 2 (← readMark ':' rest)
  let (nanosecond, rest) ← readDecimals rest
  if 23 < hour ∨ 59 < minute ∨ 60 < second then none
  -- A leap second is kept as the second before it with a billion nanoseconds more.
  let leap := second = 60
  return (hour * 3600 + minute * 60 + (if leap then 59 else second),
    nanosecond + (if leap then nanosPerSecond else 0), rest)

/-- Whether the first three letters are `UTC`, in either case. -/
def isUniversal (cs : List Char) : Bool := (cs.take 3).map Char.toUpper == ['U', 'T', 'C']

/-- Reads the hours and minutes of an offset, as seconds. -/
def readOffset (cs : List Char) : Option (Nat × List Char) := do
  let (hours, rest) ← Text.fixedNumber? 10 2 cs
  let rest := rest.dropWhile fun c => c == ':' || Text.isBlank c
  let (minutes, rest) ← Text.fixedNumber? 10 2 rest
  if 59 < minutes then none else return (hours * 3600 + minutes * 60, rest)

/-- Reads a zone: its offset from universal time in seconds. -/
def readZone (cs : List Char) : Option (Int × List Char) :=
  let cs := trimStart cs
  if isUniversal cs then some (0, cs.drop 3)
  else
    match cs with
    | 'Z' :: rest => some (0, rest)
    | 'z' :: rest => some (0, rest)
    | '+' :: rest => (readOffset rest).map fun (n, rest) => ((n : Int), rest)
    | '-' :: rest => (readOffset rest).map fun (n, rest) => (-(n : Int), rest)
    | '\u2212' :: rest => (readOffset rest).map fun (n, rest) => (-(n : Int), rest)
    | _ => none

def secondsPerDay : Int := 86400

/-- The moment of a local date and time at an offset. -/
def ofLocal (date : Date) (second nanosecond : Nat) (offset : Int) : Option Timestamp :=
  let total := date.toDayNumber * secondsPerDay + second - offset
  let date := Date.ofDayNumber (total / secondsPerDay)
  if offset.natAbs < 86400 ∧ isYear date.year = true then
    some { date, second := (total % secondsPerDay).toNat, nanosecond }
  else none

def ofText? (s : String) : Option Timestamp := do
  let (date, rest) ← readDate s.toList
  let rest ← match rest with
    | 'T' :: rest => some rest
    | 't' :: rest => some rest
    | ' ' :: rest => some rest
    | _ => none
  let (second, nanosecond, rest) ← readTime rest
  let (offset, rest) ← readZone rest
  if (trimStart rest).isEmpty then ofLocal date second nanosecond offset else none

/-- A year: four digits, and a sign and five at least where four do not do. -/
def yearText (year : Int) : String :=
  if 0 ≤ year ∧ year ≤ 9999 then Text.paddedText 4 year.toNat
  else (if year < 0 then "-" else "+") ++ Text.paddedText 4 year.natAbs

/-- Decimals of a second, in groups of three. -/
def decimalsText (nanosecond : Nat) : String :=
  if nanosecond = 0 then ""
  else if nanosecond % 1000000 = 0 then "." ++ Text.paddedText 3 (nanosecond / 1000000)
  else if nanosecond % 1000 = 0 then "." ++ Text.paddedText 6 (nanosecond / 1000)
  else "." ++ Text.paddedText 9 nanosecond

def text (t : Timestamp) : String :=
  let leap := nanosPerSecond ≤ t.nanosecond
  let second := t.second % 60 + (if leap then 1 else 0)
  let nanosecond := if leap then t.nanosecond - nanosPerSecond else t.nanosecond
  yearText t.date.year ++ "-" ++ Text.paddedText 2 t.date.month ++ "-" ++ Text.paddedText 2 t.date.day
    ++ "T" ++ Text.paddedText 2 (t.second / 3600) ++ ":" ++ Text.paddedText 2 (t.second / 60 % 60)
    ++ ":" ++ Text.paddedText 2 second ++ decimalsText nanosecond ++ "Z"

end Timestamp

end FireControl.Calendar
