import FireControl.Ring

/-!
# The yaw-rate window

The last 550 yaw rates, in degrees per second, tell how steadily the rig turns: their variance, and
their mean less the bias measured while the rig stood still. Like the window itself, all of it is
stated over any arithmetic with `Averaging`.
-/

namespace FireControl.Motion

/-- Mean and variance of the yaw rate. -/
structure Rotation (α : Type) where
  mean : α
  variance : α

/-- The yaw rates and the bias. -/
structure Gyro (α : Type) where
  window : Ring α 550
  /-- The mean yaw rate of a rig at rest. -/
  bias : α

namespace Gyro

variable {α : Type} [Averaging α]

/-- A window of zeros, and no bias. -/
def blank : Gyro α :=
  { window := .filled (Averaging.ofNat 0) (by decide), bias := Averaging.ofNat 0 }

/-- Stores one yaw rate. -/
def record (g : Gyro α) (rate : α) : Gyro α := { g with window := g.window.push rate }

/-- Mean and variance over the whole window. -/
def rotation (g : Gyro α) : Rotation α :=
  { mean := g.window.mean - g.bias, variance := g.window.variance }

/-- Readings averaged by a calibration. -/
def calibrationRounds : Nat := 5

/-- The mean yaw rate with the bias put back. -/
def rawMean (g : Gyro α) : α := g.rotation.mean + g.bias

/-- Measures the bias anew: the average of five readings of the raw mean. -/
def calibrate (g : Gyro α) : Gyro α :=
  let total := (List.replicate calibrationRounds g.rawMean).foldl (· + ·) (Averaging.ofNat 0)
  { g with bias := total / Averaging.ofNat calibrationRounds }

end Gyro

end FireControl.Motion
