import FireControl.Operator
import FireControl.Wire.PointCloud

/-!
# Sensor-board messages

The sensor board sends one record per frame: a motion sample or an operator input. Only the first
record counts. A frame without a record, a record of another type and an unknown input code carry no
message; a record that is cut short is an error.
-/

namespace FireControl.Wire

/-- One sample of the motion sensor: linear acceleration, angular rates of pitch, roll and yaw, and
the board's cycle counter. -/
structure MotionSample where
  ax : FloatBits
  ay : FloatBits
  az : FloatBits
  pitchRate : FloatBits
  rollRate : FloatBits
  yawRate : FloatBits
  cycles : UInt32
  deriving DecidableEq, Repr

inductive SensorMessage where
  | motion (sample : MotionSample)
  | input (input : OperatorInput)
  deriving DecidableEq, Repr

namespace SensorMessage

/-- The record type of a motion sample. -/
def motionKind : UInt32 := 0

/-- The record type of an operator input. -/
def inputKind : UInt32 := 1

/-- Reads a motion sample off the front of a payload. -/
def readMotion (payload : Bytes) : Except FrameError MotionSample := do
  let (ax, rest) ← readWord payload
  let (ay, rest) ← readWord rest
  let (az, rest) ← readWord rest
  let (pitchRate, rest) ← readWord rest
  let (rollRate, rest) ← readWord rest
  let (yawRate, rest) ← readWord rest
  let (cycles, _) ← readWord rest
  return ⟨ax, ay, az, pitchRate, rollRate, yawRate, cycles⟩

/-- The message in a record, if it holds one. -/
def ofRecord (r : Record) : Except FrameError (Option SensorMessage) :=
  if r.kind = motionKind then (readMotion r.payload).map (some ∘ .motion)
  else if r.kind = inputKind then
    (readWord r.payload).map fun (code, _) => (OperatorInput.ofCode? code).map .input
  else .ok none

/-- The message of a sensor-board frame, if it carries one. -/
def ofFrame (f : Frame) : Except FrameError (Option SensorMessage) :=
  match f.records with
  | [] => .ok none
  | .error cause :: _ => .error cause
  | .ok first :: _ => ofRecord first

def toRecord : SensorMessage → Record
  | .motion s =>
    ⟨motionKind, Bytes.ofWord s.ax ++ Bytes.ofWord s.ay ++ Bytes.ofWord s.az ++
      Bytes.ofWord s.pitchRate ++ Bytes.ofWord s.rollRate ++ Bytes.ofWord s.yawRate ++
      Bytes.ofWord s.cycles⟩
  | .input i => ⟨inputKind, Bytes.ofWord i.code⟩

def encode (frameNumber cycles : UInt32) (m : SensorMessage) : Bytes :=
  Frame.encode frameNumber cycles [m.toRecord]

end SensorMessage

end FireControl.Wire
