/-!
# Dates of the proleptic Gregorian calendar

A date is a year, a month and a day of that month. `toDayNumber` counts days from the first of March
of the year zero, and `ofDayNumber` goes back.
-/

namespace FireControl.Calendar

structure Date where
  year : Int
  month : Nat
  day : Nat
  deriving DecidableEq, Repr

/-- Whether a year has a 29th of February. -/
def isLeap (year : Int) : Bool := year % 4 == 0 && (year % 100 != 0 || year % 400 == 0)

def daysIn (year : Int) (month : Nat) : Nat :=
  if month = 2 then (if isLeap year then 29 else 28)
  else if month = 4 ∨ month = 6 ∨ month = 9 ∨ month = 11 then 30
  else 31

namespace Date

/-- Whether the calendar has the date. -/
def isValid (d : Date) : Bool :=
  1 ≤ d.month && d.month ≤ 12 && 1 ≤ d.day && d.day ≤ daysIn d.year d.month

/-- Years are counted from March, so that the leap day comes last. -/
def marchYear (d : Date) : Int := if d.month ≤ 2 then d.year - 1 else d.year

/-- Months since March. -/
def marchMonth (d : Date) : Nat := if d.month ≤ 2 then d.month + 9 else d.month - 3

/-- The number of days before the first of a month, counted from the first of March. -/
def daysBefore (marchMonth : Nat) : Nat := (153 * marchMonth + 2) / 5

/-- The number of days since the first of March of the year zero. -/
def toDayNumber (d : Date) : Int :=
  let y := d.marchYear
  365 * y + y / 4 - y / 100 + y / 400 + (daysBefore d.marchMonth : Int) + d.day - 1

/-- Days in four hundred years. -/
def eraLength : Int := 146097

def ofDayNumber (n : Int) : Date :=
  let era := n / eraLength
  let day := (n % eraLength).toNat
  -- Without the leap days gone by, every year has 365 days.
  let year := (day - day / 1460 + day / 36524 - day / 146096) / 365
  let dayOfYear := day - (365 * year + year / 4 - year / 100)
  let marchMonth := (5 * dayOfYear + 2) / 153
  let month := if marchMonth < 10 then marchMonth + 3 else marchMonth - 9
  { year := era * 400 + year + (if month ≤ 2 then 1 else 0)
    month
    day := dayOfYear - daysBefore marchMonth + 1 }

end Date

end FireControl.Calendar
