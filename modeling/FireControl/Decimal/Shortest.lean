/-!
# The fewest decimal digits that read back

A binary floating-point number stands for every real number that rounds to it: those between the
midpoints to its two neighbours, the midpoints included when its significand is even. `shortest`
tries decimal grids of one, two, … significant digits, and on each grid only the two points that
enclose the number; the first grid with a point in the interval gives the answer, and of two such
points the nearer one. `mem_of_point` says that nothing is missed: when any point of a grid lies in
the interval, one of the two enclosing points does.
-/

namespace FireControl.Decimal

open Float.Model (Format UnpackedFloat)

/-- What to do when both enclosing points are equally near. -/
inductive Tie where
  /-- Take the larger point. -/
  | up
  /-- Take the point with the even last digit. -/
  | even
  deriving DecidableEq, Repr

/-- `coefficient * 10 ^ exponent`. -/
structure Digits where
  coefficient : Nat
  exponent : Int
  deriving DecidableEq, Repr

/-- A positive number and the ends of the interval that rounds to it, over a common denominator. -/
structure Interval where
  low : Nat
  value : Nat
  high : Nat
  denominator : Nat
  closed : Bool
  deriving DecidableEq, Repr

namespace Interval

/-- The interval of `significand * 2 ^ exponent`. Just above a power of two the neighbour below is
only half as far away, except at the smallest exponent. -/
def ofFinite (format : Format) (significand : Nat) (exponent : Int) : Interval :=
  let halfBelow :=
    significand = Nat.pow 2 format.mantissaBitsWithoutImplicit ∧ format.minExponent < exponent
  -- In quarters of the last place both half distances are whole numbers.
  let scale := Nat.pow 2 (exponent - 2).toNat
  { low := (4 * significand - if halfBelow then 1 else 2) * scale
    value := 4 * significand * scale
    high := (4 * significand + 2) * scale
    denominator := Nat.pow 2 (2 - exponent).toNat
    closed := significand % 2 = 0 }

/-- Whether `point / denominator` rounds to the number. -/
def Contains (i : Interval) (point : Nat) : Prop :=
  if i.closed then i.low ≤ point ∧ point ≤ i.high else i.low < point ∧ point < i.high

instance (i : Interval) (point : Nat) : Decidable (i.Contains point) := by
  unfold Contains; infer_instance

/-- The same number and interval, multiplied by `factor`. -/
def scale (i : Interval) (factor : Nat) : Interval :=
  { i with low := i.low * factor, value := i.value * factor, high := i.high * factor }

/-- The multiple of `step` to write for the number, if one of the two around it is in the interval:
the one that is, or the nearer of both. -/
def onGrid (i : Interval) (tie : Tie) (step : Nat) : Option Nat :=
  let below := i.value / step
  let above := below + 1
  match decide (i.Contains (below * step)), decide (i.Contains (above * step)) with
  | false, false => none
  | true, false => some below
  | false, true => some above
  | true, true =>
    match compare (i.value - below * step) (above * step - i.value), tie with
    | .lt, _ => some below
    | .gt, _ => some above
    | .eq, .up => some above
    | .eq, .even => some (if below % 2 = 0 then below else above)

/-- If some multiple of `step` is in the interval and the number itself is, so is one of the two
multiples around the number. -/
theorem mem_of_point {i : Interval} {step c : Nat} (hs : 0 < step) (hc : i.Contains (c * step))
    (hv : i.Contains i.value) :
    i.Contains (i.value / step * step) ∨ i.Contains ((i.value / step + 1) * step) := by
  have hdiv := Nat.div_add_mod i.value step
  have hmod := Nat.mod_lt i.value hs
  have hcomm : i.value / step * step = step * (i.value / step) := Nat.mul_comm ..
  rcases Nat.lt_or_ge (i.value / step) c with h | h
  · right
    have hle : (i.value / step + 1) * step ≤ c * step := Nat.mul_le_mul_right _ h
    have hsucc : (i.value / step + 1) * step = i.value / step * step + step := Nat.succ_mul ..
    unfold Contains at *
    split <;> simp_all <;> omega
  · left
    have hle : c * step ≤ i.value / step * step := Nat.mul_le_mul_right _ h
    unfold Contains at *
    split <;> simp_all <;> omega

/-- The number of decimal places before the first nonzero digit of `value / denominator < 1`. -/
def leadingZeros (denominator : Nat) : Nat → Nat → Nat
  | 0, _ => 0
  | fuel + 1, value =>
    if denominator ≤ value * 10 then 0 else leadingZeros denominator fuel (value * 10) + 1

/-- The position `p` of the number: `10 ^ (p - 1) ≤ number < 10 ^ p`. -/
def position (i : Interval) : Int :=
  if i.denominator ≤ i.value then (Nat.toDigits 10 (i.value / i.denominator)).length
  else -(leadingZeros i.denominator i.denominator.log2 i.value : Int)

/-- Tries grids of `count`, `count + 1`, … significant digits. -/
def search (i : Interval) (tie : Tie) (position : Int) : Nat → Nat → Digits
  | 0, _ => ⟨0, 0⟩
  | fuel + 1, count =>
    let exponent := position - count
    let step := i.denominator * Nat.pow 10 exponent.toNat
    match (i.scale (Nat.pow 10 (-exponent).toNat)).onGrid tie step with
    | some c => ⟨c, exponent⟩
    | none => search i tie position fuel (count + 1)

end Interval

/-- Moves trailing zeros of the coefficient into the exponent. -/
def Digits.strip : Nat → Digits → Digits
  | 0, d => d
  | fuel + 1, d =>
    if d.coefficient % 10 = 0 ∧ d.coefficient ≠ 0 then
      strip fuel ⟨d.coefficient / 10, d.exponent + 1⟩
    else d

/-- The fewest digits that read back as `significand * 2 ^ exponent` in `format`. Seventeen digits
always suffice for binary64, and nine for binary32. -/
def shortest (format : Format) (tie : Tie) (significand : Nat) (exponent : Int) : Digits :=
  let i := Interval.ofFinite format significand exponent
  (i.search tie i.position 17 1).strip 17

end FireControl.Decimal
