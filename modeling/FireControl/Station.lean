import FireControl.Aim.Controller
import FireControl.Calibration.Editor
import FireControl.Motion.Sharing
import FireControl.Radar.Intake

/-!
# The fire-control station

All parts at one place: the radar and its distance, the motion sensor, the calibration with its
editor, and the aim controller with the box it was offered last. Each operation is given its time and
touches its own parts; the controller alone reads the others, through `Station.readings`.
-/

namespace FireControl

open FireControl.Aim (Box Controller Readings Tick)
open FireControl.Calibration (EditOutcome Editor NoSuchCell)

/-- The parts of a station. -/
structure Station where
  motionConfig : Motion.Config := {}
  radar : Radar.Intake := {}
  distance : Radar.DistanceEstimator := {}
  motion : Motion.Writer := {}
  store : Calibration.Store
  editor : Editor := {}
  controller : Controller := {}
  /-- The newest box that no step has used. -/
  offered : Option Box := none

namespace Station

/-- What the controller is told about the other parts. An unknown distance counts as zero. -/
def readings (s : Station) (now : Nat) : Readings :=
  { distance := s.distance.distance.getD 0
    radarAlive := s.radar.health.isAlive now
    rotation := s.motion.gyro.rotation }

def hearRadar (s : Station) (now : Nat) (f : Wire.Frame) : Checked (Radar.Flow × Station) :=
  (s.radar.handle now f).map fun (flow, radar) => (flow, { s with radar })

/-- Updates the distance with every waiting cloud; the result holds the distances on the way. -/
def measure (s : Station) : List Float32 × Station :=
  let (distances, distance, radar) := s.radar.tick s.distance
  (distances, { s with distance, radar })

/-- Processes a motion sample, perhaps while somebody reads the yaw-rate window. -/
def move (s : Station) (sample : Wire.MotionSample) (busy : Bool := false) :
    Option Motion.Attitude × Station :=
  let (attitude, motion) := s.motion.ingest s.motionConfig sample busy
  (attitude, { s with motion })

/-- Measures the bias of the yaw rate. -/
def calibrateGyro (s : Station) : Station :=
  { s with motion := { s.motion with gyro := s.motion.gyro.calibrate } }

def operate (s : Station) (input : OperatorInput) (now : Nat) :
    Except NoSuchCell EditOutcome × Station :=
  let (outcome, editor, store) := s.editor.handle input now s.store
  (outcome, { s with editor, store })

/-- Offers a box to the controller in place of any it has not used. -/
def offer (s : Station) (box : Box) : Station := { s with offered := some box }

/-- One step of the controller. -/
def tick (s : Station) (now : Nat) : Checked (Tick × Station) := do
  let (tick, controller, offered) ←
    s.controller.step now s.offered (s.readings now) s.store.ballistics
  return (tick, { s with controller, offered })

end Station

end FireControl
