import FireControl.Number.Floating

/-!
# Sine, cosine and arctangent of binary32 numbers

Each function computes a fixed-point approximation with `places` binary places in integer arithmetic
and rounds it once to binary32. A binary32 argument is a multiple of `2 ^ -149` and stays below
`2 ^ 128`, so with 320 places the argument is exact, the error of the approximation is far below the
distance of any value from the midpoint of two neighbouring binary32 numbers, and the result is the
binary32 number nearest to the true value.

The sign of a zero argument is kept, an infinite argument has no sine or cosine, and the arctangent
of an infinity is a quarter turn.
-/

namespace FireControl.Trigonometry

open FireControl.Floating

/-- Binary places carried by the fixed-point numbers of this module. -/
def places : Nat := 320

/-- The fixed-point number one. -/
def one : Int := Int.pow 2 places

/-- The first 512 binary places of π, as an integer. -/
def piPlaces512 : Int :=
  0x3243f6a8885a308d313198a2e03707344a4093822299f31d0082efa98ec4e6c89452821e638d01377be5466cf34e90c6cc0ac29b7c97c50dd3f84d5b5b5470917

/-- The product of two fixed-point numbers. -/
def mul (a b : Int) : Int := (a * b) / one

/-- The fixed-point value of a scaled number. -/
def ofScaled (d : Scaled) : Int :=
  if 0 ≤ d.exponent + places then d.significand * Int.pow 2 (d.exponent + places).toNat
  else d.significand / Int.pow 2 (-(d.exponent + places)).toNat

/-- An angle brought within an eighth of a turn: the number of quarter turns taken away, and what
is left in fixed point. -/
structure Reduced where
  quarters : Int
  rest : Int

/-- Takes away the nearest whole number of quarter turns. The angle is scaled to the places of π,
where it is an integer, and doubled so that a quarter turn is `piPlaces512`. -/
def Reduced.ofScaled (d : Scaled) : Reduced :=
  -- The least exponent is -149, so the shift is to the left and loses nothing.
  let angle := 2 * d.significand * Int.pow 2 (d.exponent + 512).toNat
  let quarters := (2 * angle + piPlaces512) / (2 * piPlaces512)
  ⟨quarters, (angle - quarters * piPlaces512) / Int.pow 2 (513 - places)⟩

/-- The alternating series `t - t·s/((k+1)(k+2)) + …` with `s` the square of the angle: with
`k = 1` and `t` the angle it is the sine, with `k = 0` and `t = 1` the cosine. -/
def alternating (square : Int) : Nat → Int → Int → Int
  | 0, _, _ => 0
  | terms + 1, k, term =>
    term + alternating square terms (k + 2) (-(mul term square) / ((k + 1) * (k + 2)))

/-- Terms after which the series no longer changes at `places` places. -/
def seriesTerms : Nat := 40

def smallSine (angle : Int) : Int := alternating (mul angle angle) seriesTerms 1 angle

def smallCosine (angle : Int) : Int := alternating (mul angle angle) seriesTerms 0 one

/-- The sine after `quarters` quarter turns more. -/
def Reduced.sine (r : Reduced) : Int :=
  match r.quarters % 4 with
  | 0 => smallSine r.rest
  | 1 => smallCosine r.rest
  | 2 => -(smallSine r.rest)
  | _ => -(smallCosine r.rest)

/-- The cosine is the sine a quarter turn ahead. -/
def Reduced.cosine (r : Reduced) : Int := ({ r with quarters := r.quarters + 1 } : Reduced).sine

def round (value : Int) : Float32 := Floating.ofScaled value (-(places : Int))

/-- The sine of an angle in radians. -/
def sin (x : Float32) : Float32 :=
  match scaled? x with
  | some d => if d.significand = 0 then x else round (Reduced.ofScaled d).sine
  | none => x - x

/-- The cosine of an angle in radians. -/
def cos (x : Float32) : Float32 :=
  match scaled? x with
  | some d => round (Reduced.ofScaled d).cosine
  | none => x - x

/-- The series `t/k - t·s/(k+2) + …` of the arctangent, with `s` the square of the tangent. -/
def arctangentSeries (square : Int) : Nat → Int → Int → Int
  | 0, _, _ => 0
  | terms + 1, k, power =>
    power / k + arctangentSeries square terms (k + 2) (-(mul power square))

/-- The tangent of half the angle whose tangent is `t`. -/
def halfTangent (t : Int) : Int :=
  t * one / (one + Int.ofNat (Nat.sqrt (one * one + t * t).toNat))

/-- The arctangent of a fixed-point number between -1 and 1: four halvings bring the tangent below
a sixteenth, where the series gains eight places a term. -/
def smallArctangent (t : Int) : Int :=
  let u := halfTangent (halfTangent (halfTangent (halfTangent t)))
  16 * arctangentSeries (mul u u) seriesTerms 1 u

/-- Half of π in fixed point. -/
def quarterTurn : Int := piPlaces512 / Int.pow 2 (513 - places)

/-- The arctangent of a positive scaled number; above one it is what the reciprocal leaves of a
quarter turn. -/
def arctangentOfPositive (d : Scaled) : Int :=
  let t := Trigonometry.ofScaled d
  if t ≤ one then smallArctangent t else quarterTurn - smallArctangent (one * one / t)

/-- The angle in radians with the given tangent. -/
def atan (x : Float32) : Float32 :=
  match scaled? x with
  | some d =>
    if d.significand = 0 then x
    else if 0 < d.significand then round (arctangentOfPositive d)
    else round (-(arctangentOfPositive { d with significand := -d.significand }))
  | none => if x.isNaN then x else if 0 < x then round quarterTurn else round (-quarterTurn)

end FireControl.Trigonometry
