import FireControl.Exchange.Queue
import FireControl.Radar.Distance
import FireControl.Radar.Health
import FireControl.Radar.PointLog

/-!
# From radar frames to distances

The link hands over frames as they come; the distance is updated now and then. Between the two stands
a queue of eight clouds. A frame that holds a cloud counts for the radar's health, whether or not the
queue has room for the cloud; one that holds none, or a damaged one, counts for nothing. A point log
that fails is given up, which changes nothing else.
-/

namespace FireControl.Radar

open FireControl.Exchange (Queue)
open FireControl.Wire (Frame PointCloud)

/-- What a frame handler tells the link. -/
inductive Flow where
  | goOn
  /-- The receiving side is gone. -/
  | stop
  deriving DecidableEq, Repr

/-- Clouds that may wait. -/
def queueCapacity : Nat := 8

/-- The radar's health, the waiting clouds and the point log, if points are logged. -/
structure Intake where
  health : Health := {}
  clouds : Queue Cloud := { capacity := queueCapacity }
  log : Option PointLog := none

namespace Intake

def accept (i : Intake) (now : Nat) (c : PointCloud) : Checked (Flow × Intake) := do
  let health ← i.health.record now c.detections.length
  let cloud := Cloud.ofWire c
  let log := i.log.bind fun l => l.write now cloud
  let (sent, clouds) := i.clouds.send cloud
  return (if sent = .closed then .stop else .goOn, { health, clouds, log })

def handle (i : Intake) (now : Nat) (f : Frame) : Checked (Flow × Intake) :=
  match PointCloud.ofFrame f with
  | .ok (some c) => i.accept now c
  | .ok none => .ok (.goOn, i)
  | .error _ => .ok (.goOn, i)

end Intake

/-- Feeds clouds one after the other; the result holds the distances that came out. -/
def DistanceEstimator.ingestAll (e : DistanceEstimator) : List Cloud → List Float32 × DistanceEstimator
  | [] => ([], e)
  | c :: later =>
    let (distance, e) := e.ingest c.points
    let (distances, e) := e.ingestAll later
    (distance.toList ++ distances, e)

/-- Feeds everything that waits. -/
def Intake.tick (i : Intake) (e : DistanceEstimator) : List Float32 × DistanceEstimator × Intake :=
  let (waiting, clouds) := i.clouds.drain
  let (distances, e) := e.ingestAll waiting
  (distances, e, { i with clouds })

end FireControl.Radar
