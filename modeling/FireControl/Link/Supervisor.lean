import FireControl.Exchange.Bus
import FireControl.Wire.Receiver

/-!
# Link supervision

A supervisor keeps a link alive: it opens the device, hands every frame to a handler, and opens the
device anew when the link stalls or fails. A stall is reported on the system-alert topic. Every
session starts with a receiver of its own, so nothing of one session is left in the next.

Shutdown may be asked for while the device is opened, during a read, or by the handler. The request
is looked at before every open and before every frame. A handler may also stop the link on the spot.
-/

namespace FireControl.Link

open FireControl.Wire (Delivery Frame LinkFault Receiver Source)

/-- A link's name, the limits of its receivers, and its pause before a reopening. -/
structure Config where
  /-- Names the link in alerts. -/
  name : String
  receiver : Receiver.Config
  /-- In milliseconds. -/
  reopenDelay : Nat := 3000
  deriving DecidableEq, Repr

/-- The link to the radar's data port. -/
def Config.radar : Config := { name := "radar", receiver := .radar }

def Config.sensorBoard : Config := { name := "sensor-board", receiver := .sensorBoard }

/-- What opening a device comes to. -/
inductive Opening where
  | refused (kind : IoKind)
  /-- With what the device will deliver in this session. -/
  | opened (deliveries : List Delivery)
  deriving DecidableEq, Repr

/-- One attempt to open a device, and whether somebody asks for shutdown meanwhile. -/
structure Attempt where
  opening : Opening
  shutdown : Bool := false
  deriving DecidableEq, Repr

/-- A silent device, opened while shutdown is asked for. -/
def Attempt.final : Attempt := { opening := .opened [], shutdown := true }

/-- What a handler wants after a frame. -/
structure Verdict where
  /-- Stop the link at once. -/
  stop : Bool := false
  shutdown : Bool := false
  deriving DecidableEq, Repr

/-- A handler decides by all frames it was given so far, latest first. -/
abbrev Handler := List Frame → Verdict

/-- What a supervisor did. -/
structure Report where
  /-- Successful openings. -/
  sessions : Nat := 0
  /-- Sessions that ended with a stall. -/
  resets : Nat := 0
  /-- Failed openings, and sessions that ended with a failed read. -/
  ioFailures : Nat := 0
  /-- Frames handed to the handler. -/
  frames : Nat := 0
  deriving DecidableEq, Repr

/-- Why a session ended. -/
inductive Ending where
  | stopped
  | stalled (emptyReads : Nat)
  | failed (fault : IoFault)
  deriving DecidableEq, Repr

/-- A session after its end. -/
structure Session where
  ending : Ending
  /-- All frames handed to the handler so far, latest first. -/
  frames : List Frame
  /-- The source with what was not read. -/
  source : Source
  /-- Whether the handler asked for shutdown. -/
  shutdown : Bool
  deriving DecidableEq, Repr

def Session.run (config : Receiver.Config) (handler : Handler) (frames : List Frame)
    (shutdown : Bool) (r : Receiver) (source : Source) : Checked Session :=
  if shutdown || source.shutdownRequested then .ok ⟨.stopped, frames, source, shutdown⟩
  else
    match _hnext : r.next config source with
    | (.ok f, r', source') =>
      let verdict := handler (f :: frames)
      if verdict.stop then .ok ⟨.stopped, f :: frames, source', verdict.shutdown⟩
      else run config handler (f :: frames) verdict.shutdown r' source'
    | (.error (.stalled n), _, source') => .ok ⟨.stalled n, frames, source', shutdown⟩
    | (.error (.failed fault), _, source') => .ok ⟨.failed fault, frames, source', shutdown⟩
    | (.error (.overflow cause), _, _) => .error cause
-- Every frame uses up some of the bytes that are still to come.
termination_by r.remaining source
decreasing_by exact Receiver.next_remaining _hnext

/-- A supervisor between sessions. -/
structure Supervisor where
  report : Report := {}
  /-- All frames handed to the handler so far, latest first. -/
  frames : List Frame := []
  /-- Where stalls are reported, if anywhere. -/
  bus : Option Exchange.Bus := none
  /-- Whether shutdown was asked for or the handler stopped the link. -/
  isOver : Bool := false

namespace Supervisor

/-- The report of a stall. -/
def resetEvent (config : Config) (emptyReads : Nat) : Event :=
  { source := "scope-middleware::link::" ++ config.name
    payload := .linkReset config.name (UInt32.ofNat emptyReads) }

/-- Publishes the report of a stall. It is no matter if nobody listens. -/
def alert (config : Config) (emptyReads : Nat) (s : Supervisor) : Supervisor :=
  { s with bus := s.bus.map fun b => (b.publish .systemAlerts (resetEvent config emptyReads)).2 }

def note (config : Config) (s : Supervisor) (session : Session) : Supervisor :=
  let s :=
    { s with
      frames := session.frames
      report := { s.report with
        sessions := s.report.sessions + 1
        frames := session.frames.length }
      isOver := s.isOver || session.shutdown || session.source.shutdownRequested ||
        session.ending == .stopped }
  match session.ending with
  | .stopped => s
  | .stalled n => alert config n { s with report.resets := s.report.resets + 1 }
  | .failed _ => { s with report.ioFailures := s.report.ioFailures + 1 }

/-- Makes one attempt to open the device, and runs the session if it succeeds. -/
def attempt (config : Config) (handler : Handler) (s : Supervisor) (a : Attempt) :
    Checked Supervisor :=
  match a.opening with
  | .refused _ =>
    .ok { s with report.ioFailures := s.report.ioFailures + 1, isOver := s.isOver || a.shutdown }
  | .opened deliveries =>
    (Session.run config.receiver handler s.frames a.shutdown {} { pending := deliveries }).map
      (s.note config)

/-- Makes one attempt after the other until the link is over. After the last of them a silent device
is opened and shutdown is asked for. -/
def run (config : Config) (handler : Handler) (s : Supervisor) :
    List Attempt → Checked Supervisor
  | [] => if s.isOver then .ok s else s.attempt config handler .final
  | a :: later =>
    if s.isOver then .ok s
    else do
      let s ← s.attempt config handler a
      s.run config handler later

end Supervisor

end FireControl.Link
