import FireControl.Exchange.Bus
import FireControl.Station
import FireControl.Wire.SensorMessage

/-!
# A station at work

A session runs a station as four tasks that take turns: the radar task, the motion task, the aim task
and the calibration task. Links and operators hand over frames and commands at any moment; the tasks
see them when the session settles, and then work until nothing waits. Everything happens within the
first moments after the start, so every time is zero, the radar has not proved itself alive and no
tracking comes to an end.

A task ends when its input is gone, or when shutdown is requested: in its last turn it still handles
what it was about to handle, which for the calibration task is a single event.
-/

namespace FireControl

open FireControl.Calibration (Cell Fault)
open FireControl.Exchange (Bus Queue)
open FireControl.Radar (Flow)
open FireControl.Wire (Frame MotionSample SensorMessage)

/-- Motion samples that may wait. -/
def sampleCapacity : Nat := 256

/-- A request to the calibration task that does not come from the operator's wheel. -/
inductive EditCommand where
  | start (cell : Cell)
  | cancel
  | toggle
  | save
  deriving DecidableEq, Repr

/-- The tasks that are still there. -/
structure Tasks where
  radar : Bool := true
  motion : Bool := true
  aim : Bool := true
  calibration : Bool := true
  deriving DecidableEq, Repr

/-- The newest results, as far as there are any. -/
structure Results where
  distance : Option Float32 := none
  attitude : Option Motion.Attitude := none
  overlay : Option Aim.Overlay := none
  aim : Option Aim.AimPoints := none

/-- A station with its tasks, queues and files. -/
structure Session where
  station : Station
  samples : Queue MotionSample := { capacity := sampleCapacity }
  bus : Bus
  files : FileSystem
  results : Results := {}
  tasks : Tasks := {}
  /-- Whether the tasks have had their first turn. -/
  hasStarted : Bool := false
  shutdown : Bool := false
  /-- Whether the outside still holds its ends: the box feed, the results and the command line. -/
  isHeld : Bool := true

namespace Session

/-- Every event happens at the start. -/
def now : Nat := 0

/-- The bus receiver of the calibration task. -/
def editorReceiver : Nat := 0

/-- The bus receiver of an observer of operator events. -/
def operatorObserver : Nat := 1

/-- The bus receiver of an observer of alerts. -/
def alertObserver : Nat := 2

/-- A bus with the three receivers. -/
def observedBus : Bus :=
  (((Bus.default.subscribe .operator).2.subscribe .operator).2.subscribe .systemAlerts).2

/-- A session before its first turn. -/
def start (station : Station) (files : FileSystem) : Session :=
  { station, files, bus := observedBus }

/-- Handles a frame of the radar link, unless the link is gone. -/
def hearRadar (s : Session) (f : Frame) : Checked (Flow × Session) :=
  if s.station.radar.clouds.hasSender then
    (s.station.hearRadar now f).map fun (flow, station) => (flow, { s with station })
  else .ok (.stop, s)

/-- Publishes an event. It is no matter if nobody listens. -/
def publish (s : Session) (topic : Topic) (source : String) (payload : Payload) : Session :=
  { s with bus := (s.bus.publish topic { source, payload }).2 }

/-- Handles a frame of the sensor-board link. A damaged one counts for nothing. -/
def hearSensor (s : Session) (f : Frame) : Flow × Session :=
  match SensorMessage.ofFrame f with
  | .ok (some (.motion sample)) =>
    let (sent, samples) := s.samples.send sample
    (if sent = .closed then .stop else .goOn, { s with samples })
  | .ok (some (.input i)) => (.goOn, s.publish .operator "scope-runtime::sensor" (.input i))
  | .ok none => (.goOn, s)
  | .error _ => (.goOn, s)

/-- Offers a box, unless the feed was dropped. -/
def offer (s : Session) (box : Aim.Box) : Session :=
  if s.isHeld then { s with station := s.station.offer box } else s

def endRadar (s : Session) : Session :=
  { s with
    tasks := { s.tasks with radar := false }
    station.radar.clouds := s.station.radar.clouds.dropReceiver }

def radarTurn (s : Session) : Session :=
  let (distances, station) := s.station.measure
  let s := { s with station, results.distance := distances.getLast?.or s.results.distance }
  if s.shutdown || !s.station.radar.clouds.hasSender then s.endRadar else s

/-- Processes a motion sample and keeps the attitude. Nobody reads the yaw-rate window during this
turn. -/
def move (s : Session) (sample : MotionSample) : Session :=
  let (attitude, station) := s.station.move sample false
  { s with station, results.attitude := attitude.or s.results.attitude }

def endMotion (s : Session) : Session :=
  { s with tasks := { s.tasks with motion := false }, samples := s.samples.dropReceiver }

def motionTurn (s : Session) : Session :=
  let (waiting, samples) := s.samples.drain
  let s := waiting.foldl move { s with samples }
  if s.shutdown then s.endMotion else s

def endAim (s : Session) : Session := { s with tasks := { s.tasks with aim := false } }

/-- A turn of the aim task: a step that uses the newest box shows all there is to see, for without a
new box further steps change nothing. A step that overflows ends the task. -/
def aimTurn (s : Session) : Session :=
  match s.station.tick now with
  | .error _ => s.endAim
  | .ok (tick, station) =>
    let s := { s with
      station
      results := { s.results with overlay := some tick.overlay, aim := tick.aim.or s.results.aim } }
    let s := match tick.outcome with
      | none => s
      | some outcome => s.publish .aimEvents "scope-runtime::aim" (.aimOutcome outcome)
    if s.shutdown then s.endAim else s

/-- Reports a fault of the calibration. -/
def alert (s : Session) (fault : Fault) : Session :=
  s.publish .systemAlerts "scope-runtime::calibration" (.calibrationFault fault.message)

/-- Lets the calibration task handle an event. -/
def handleEvent (s : Session) (e : Event) : Session :=
  match e.payload with
  | .input i =>
    match s.station.operate i now with
    | (.ok _, station) => { s with station }
    | (.error fault, station) => { s with station }.alert (.noSuchCell fault)
  | _ => s

def endCalibration (s : Session) : Session :=
  { s with tasks := { s.tasks with calibration := false }, bus := s.bus.leave editorReceiver }

/-- Lets the calibration task handle all events that wait. -/
def handleEvents (s : Session) : Session :=
  let (events, bus) := s.bus.drain editorReceiver
  events.foldl handleEvent { s with bus }

/-- The last event that the calibration task handles. -/
def handleLastEvent (s : Session) : Session :=
  match s.bus.receive editorReceiver with
  | (.event e, bus) => { s with bus }.handleEvent e
  | (_, bus) => { s with bus }

def calibrationTurn (s : Session) : Session :=
  if s.shutdown then s.handleLastEvent.endCalibration
  else if !s.isHeld then s.endCalibration
  else s.handleEvents

/-- A turn of a task, if the task is still there. -/
def turn (s : Session) (isThere : Tasks → Bool) (f : Session → Session) : Session :=
  if isThere s.tasks then f s else s

def endAll (s : Session) : Session := s.endRadar.endMotion.endAim.endCalibration

/-- Lets the tasks work until nothing waits. Tasks that were never started before shutdown end
without a turn. -/
def settle (s : Session) : Session :=
  if s.shutdown && !s.hasStarted then s.endAll
  else
    let s := { s with hasStarted := true }
    -- As long as no tracking ends, the aim task looks at nothing the others produce, and the order
    -- of the turns is not seen from outside.
    let s := s.turn (·.radar) radarTurn
    let s := s.turn (·.motion) motionTurn
    let s := s.turn (·.calibration) calibrationTurn
    s.turn (·.aim) aimTurn

/-- Lets the calibration task carry out a command. -/
def perform (s : Session) : EditCommand → Session
  | .start c =>
    match s.station.editor.start c s.station.store with
    | (.ok _, editor) => { s with station.editor := editor }
    | (.error fault, editor) => { s with station.editor := editor }.alert (.noSuchCell fault)
  | .cancel => { s with station.editor := s.station.editor.cancel }
  | .toggle => { s with station.editor := s.station.editor.toggle }
  | .save =>
    match s.station.store.save s.files with
    | (.ok (), files) => { s with files }
    | (.error fault, files) => { s with files }.alert fault

/-- Sends a command to the settled session; the result says whether somebody took it. -/
def command (s : Session) (c : EditCommand) : Bool × Session :=
  let s := s.settle
  if s.isHeld && s.tasks.calibration then (true, (s.perform c).settle) else (false, s)

/-- The radar link goes, and its log is complete. -/
def dropRadar (s : Session) : Session :=
  { s with station.radar.clouds := s.station.radar.clouds.dropSender }

/-- The outside lets go of its ends. What was offered is lost. -/
def dropHandles (s : Session) : Session := { s with isHeld := false, station.offered := none }

/-- The results that the outside still sees. -/
def shown (s : Session) : Results := if s.isHeld then s.results else {}

def requestShutdown (s : Session) : Session := { s with shutdown := true }

/-- What an observer of operator events missed since it looked last, newest ones only. -/
def operatorEvents (s : Session) : List Event × Session :=
  let (events, bus) := s.bus.drain operatorObserver
  (events, { s with bus })

/-- The alerts since an observer looked last. -/
def alerts (s : Session) : List Event × Session :=
  let (events, bus) := s.bus.drain alertObserver
  (events, { s with bus })

end Session

end FireControl
