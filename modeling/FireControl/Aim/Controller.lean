import FireControl.Aim.Overlay
import FireControl.Calibration.Interpolation
import FireControl.Motion.Attitude
import FireControl.Ring

/-!
# The aim controller

The controller locks onto a target that was centred in more than twenty frames of the last second and
a half, tracks it for a second and a half, and then decides: with at least twenty centred frames
while tracking, a steady rig and a live radar it fires, otherwise it fails and says why. It fires for
five seconds and sulks for one after a failure, and then seeks again.

Each step is given the time, a detection if there is a new one, the readings of the other sensors
and the interpolated corrections. A rejected attempt leaves detections alone: `step` hands an unused
one back.
-/

namespace FireControl.Aim

open FireControl.Calibration (Ballistics)
open FireControl.Motion (Rotation)

/-- Centred frames count towards the lock for this long, in milliseconds. -/
def lockWindow : Nat := 1500

/-- How long tracking lasts. -/
def trackDuration : Nat := 1500

/-- Fewer centred frames than this while tracking are too few. -/
def trackMinimum : Nat := 20

/-- A yaw-rate variance above this is too unsteady. -/
def maxVariance : Float32 := 15

/-- The pause after a rejected attempt. -/
def failCooldown : Nat := 1000

/-- How long the controller keeps firing. -/
def fireCooldown : Nat := 5000

/-- What the other sensors say at the time of a step. -/
structure Readings where
  distance : Float32
  radarAlive : Bool
  rotation : Rotation Float32

/-- The phase of the controller with what belongs to it alone. -/
inductive Phase where
  /-- With the number of centred frames in the lock window. -/
  | lock (recent : Nat)
  /-- Up to a deadline, with the number of centred frames so far. -/
  | track (deadline centered : Nat)
  /-- Up to a deadline. -/
  | fire (deadline : Nat)
  /-- Up to a deadline. -/
  | fail (deadline : Nat)
  deriving DecidableEq, Repr

def Phase.state : Phase → State
  | .lock _ => .lock
  | .track _ _ => .track
  | .fire _ => .fire
  | .fail _ => .fail

structure AimPoints where
  target : Pixel
  corrected : Pixel
  deriving DecidableEq, Repr

/-- The controller between steps. -/
structure Controller where
  phase : Phase := .lock 0
  /-- The times of the latest centred frames seen while locking. -/
  history : Ring (Option Nat) 40 := .filled none (by decide)
  /-- The reasons found at the last decision. -/
  reasons : FailReasons := .empty
  /-- The rotation found at the last decision. -/
  rotation : Rotation Float32 := ⟨0, 0⟩
  /-- The last centred box seen while tracking. -/
  sighting : Option Sighting := none
  angularVelocity : Float32 := 0
  distance : Float32 := 0
  /-- Where to aim while firing. -/
  target : Pixel := .frameCenter

/-- What one step shows. -/
structure Tick where
  overlay : Overlay
  aim : Option AimPoints
  outcome : Option Outcome

namespace Controller

/-- Notes a centred frame. -/
def noteCentered (c : Controller) (now : Nat) : Option Sighting → Controller
  | none => c
  | some _ => { c with history := c.history.push (some now) }

/-- A step while locking. -/
def lock (c : Controller) (now : Nat) (offer : Option Box) : Checked Controller := do
  let c := c.noteCentered now (← Sighting.ofOffer offer)
  let recent := c.history.countSince (now - lockWindow)
  if framesToLock < recent then
    let deadline ← Checked.nat64 .add (now + trackDuration)
    return { c with phase := .track deadline 0 }
  else return { c with phase := .lock recent }

/-- Counts a centred frame while tracking. -/
def evidence (c : Controller) (centered : Nat) : Option Sighting → Checked (Nat × Controller)
  | none => .ok (centered, c)
  | some s => (Checked.nat32 .add (centered + 1)).map fun n => (n, { c with sighting := some s })

/-- The reasons against firing. A variance that is not a number is above no limit. -/
def judge (centered : Nat) (r : Readings) : FailReasons :=
  .collect (centered < trackMinimum) (r.rotation.variance > maxVariance) (!r.radarAlive)

/-- The aim point of the last sighting. -/
def solutionTarget (c : Controller) : Checked Pixel :=
  match c.sighting with
  | none => .ok .frameCenter
  | some s => s.box.aimPoint

/-- The end of tracking. -/
def decide (c : Controller) (now centered : Nat) (r : Readings) :
    Checked (Outcome × Controller) := do
  let reasons := judge centered r
  let c := { c with rotation := r.rotation, reasons }
  if reasons ≠ .empty then
    let deadline ← Checked.nat64 .add (now + failCooldown)
    return (.failed reasons, { c with phase := .fail deadline })
  else
    let deadline ← Checked.nat64 .add (now + fireCooldown)
    let angularVelocity := r.rotation.mean / Motion.degreesPerRadian * r.distance
    let target ← c.solutionTarget
    return (.fired r.distance angularVelocity,
      { c with phase := .fire deadline, angularVelocity, distance := r.distance, target })

/-- The signed lead: mirrored when the rig turns to the left. -/
def signedLead (b : Ballistics Float) (distance velocity : Float) : Float :=
  if velocity < 0 then -(b.lead distance velocity) else b.lead distance velocity

/-- The aim point shifted by the lead and raised by the drop, in whole pixels. -/
def aimPoints (c : Controller) (b : Ballistics Float) : Checked AimPoints := do
  let distance := Floating.widen c.distance
  let velocity := Floating.widen c.angularVelocity
  let lead := Floating.toInt32 (signedLead b distance velocity)
  let drop := Floating.toInt32 (b.drop distance)
  let x ← Checked.int32 .add (c.target.x + lead)
  let y ← Checked.int32 .subtract (c.target.y - drop)
  return ⟨c.target, ⟨x, y⟩⟩

/-- A step while tracking: nothing is decided up to the deadline. -/
def track (c : Controller) (deadline centered now : Nat) (offer : Option Box) (r : Readings)
    (b : Ballistics Float) : Checked (Option AimPoints × Option Outcome × Controller) := do
  let (centered, c) ← c.evidence centered (← Sighting.ofOffer offer)
  if now ≤ deadline then return (none, none, { c with phase := .track deadline centered })
  else
    let (outcome, c) ← c.decide now centered r
    match c.phase with
    | .fire _ => return (some (← c.aimPoints b), some outcome, c)
    | _ => return (none, some outcome, c)

/-- Follows an offered box while firing. -/
def follow (c : Controller) : Option Box → Checked Controller
  | none => .ok c
  | some box => box.aimPoint.map fun target => { c with target }

/-- Seeks again once a deadline has passed. -/
def leaveAfter (c : Controller) (deadline now : Nat) : Controller :=
  if deadline < now then { c with phase := .lock 0 } else c

/-- A step while firing. -/
def fire (c : Controller) (deadline now : Nat) (offer : Option Box) (b : Ballistics Float) :
    Checked (AimPoints × Controller) := do
  let c ← c.follow offer
  let aim ← c.aimPoints b
  return (aim, c.leaveAfter deadline now)

def overlay (c : Controller) : Checked Overlay :=
  let recent := match c.phase with
    | .lock recent => recent
    | _ => 0
  Overlay.build c.phase.state recent c.reasons c.angularVelocity c.distance

/-- One step. The last component is the offered box, unless the step made use of it. -/
def step (c : Controller) (now : Nat) (offer : Option Box) (r : Readings) (b : Ballistics Float) :
    Checked (Tick × Controller × Option Box) := do
  match c.phase with
  | .lock _ =>
    let c ← c.lock now offer
    return (⟨← c.overlay, none, none⟩, c, none)
  | .track deadline centered =>
    let (aim, outcome, c) ← c.track deadline centered now offer r b
    return (⟨← c.overlay, aim, outcome⟩, c, none)
  | .fire deadline =>
    let (aim, c) ← c.fire deadline now offer b
    return (⟨← c.overlay, some aim, none⟩, c, none)
  | .fail deadline =>
    let c := c.leaveAfter deadline now
    return (⟨← c.overlay, none, none⟩, c, offer)

end Controller

end FireControl.Aim
