import FireControl.Motion.Gyro
import FireControl.Number.Trigonometry
import FireControl.Wire.SensorMessage

/-!
# Attitude from motion samples

A sample with an acceleration beyond the limit is a glitch and leaves no trace but a count. Any other
sample enters five-sample windows, from which the attitude follows, and its yaw rate enters the
yaw-rate window. A channel that is not a number is not beyond any limit and passes.
-/

namespace FireControl.Motion

open FireControl.Wire (MotionSample)

/-- Degrees in a radian, to the precision the sensors deserve. -/
def degreesPerRadian : Float32 := 57.2958

/-- How samples are judged and signed. -/
structure Config where
  maxAcceleration : Float32 := 30
  /-- Whether the yaw rate changes sign, so that clockwise turns read positive. -/
  invertYaw : Bool := true

/-- Pitch, roll and rate of rotation, in degrees. -/
structure Attitude where
  pitch : Float32
  roll : Float32
  rotation : Float32

/-- The smoothing windows of one sensor, its yaw-rate window and its glitch count. -/
structure Estimator where
  ax : Ring Float32 5 := .filled 0 (by decide)
  ay : Ring Float32 5 := .filled 0 (by decide)
  az : Ring Float32 5 := .filled 0 (by decide)
  yawRate : Ring Float32 5 := .filled 0 (by decide)
  gyro : Gyro Float32 := .blank
  rejected : Nat := 0

/-- Whether a sample exceeds the acceleration limit on any axis. -/
def isGlitch (config : Config) (s : MotionSample) : Bool :=
  (Float32.ofBits s.ax).abs > config.maxAcceleration ||
    (Float32.ofBits s.ay).abs > config.maxAcceleration ||
    (Float32.ofBits s.az).abs > config.maxAcceleration

namespace Estimator

/-- Lets an accepted sample into every window. -/
def absorb (config : Config) (e : Estimator) (s : MotionSample) : Estimator :=
  let rate := Float32.ofBits s.yawRate
  let yaw := if config.invertYaw then -rate else rate
  { e with
    ax := e.ax.push (.ofBits s.ax)
    ay := e.ay.push (.ofBits s.ay)
    az := e.az.push (.ofBits s.az)
    yawRate := e.yawRate.push yaw
    gyro := e.gyro.record (yaw * degreesPerRadian) }

/-- The attitude that the smoothing windows show. -/
def attitude (e : Estimator) : Attitude :=
  { pitch := Trigonometry.atan (e.ay.mean / e.az.mean) * degreesPerRadian
    roll := Trigonometry.atan (e.ax.mean / e.az.mean) * degreesPerRadian
    rotation := e.yawRate.mean * degreesPerRadian }

/-- Processes one sample; the result is the new attitude, or none for a glitch. -/
def ingest (config : Config) (e : Estimator) (s : MotionSample) : Option Attitude × Estimator :=
  if isGlitch config s then (none, { e with rejected := e.rejected + 1 })
  else
    let e := e.absorb config s
    (some e.attitude, e)

end Estimator

end FireControl.Motion
