import FireControl.Aim.Controller
import FireControl.Aim.ReasonText
import FireControl.Calendar.Timestamp
import FireControl.Calibration.Table
import FireControl.Event
import FireControl.Interchange.Form
import FireControl.Interchange.Identifier
import FireControl.Motion.Attitude
import FireControl.Radar.Cloud

/-!
# Forms of the station's data

Every value that the parts hand to the outside has a form: a record with its fields in a fixed order,
or a choice by name. Clouds and events that leave the station carry the moment of their origin, and
an event has an identifier of its own.
-/

namespace FireControl.Interchange

open FireControl.Aim (AimPoints Box FailReasons Outcome Overlay Pixel ProgressBar State)
open FireControl.Calendar (Timestamp)
open FireControl.Calibration (Cell Kind Table)
open FireControl.Motion (Attitude Rotation)
open FireControl.Radar (Point Position)
open FireControl.Wire (MotionSample)
open Form

/-- A radar detection in the sensor's own coordinates. -/
structure Spherical where
  range : Float32
  azimuth : Float32
  elevation : Float32
  velocity : Float32

/-- A cloud as it leaves the station. -/
structure StampedCloud where
  points : List Point
  frameNumber : UInt32
  cycles : UInt32
  timestamp : Timestamp

/-- An event as it leaves the station. -/
structure StampedEvent where
  identifier : Identifier
  timestamp : Timestamp
  event : Event

/-! ## Radar -/

instance : Form Spherical where
  ofValue? v := do
    let [r, a, e, s] ← v.fields? ["range", "azimuth", "elevation", "velocity"] | none
    return ⟨← ofValue? r, ← ofValue? a, ← ofValue? e, ← ofValue? s⟩
  text p := recordText [("range", text p.range), ("azimuth", text p.azimuth),
    ("elevation", text p.elevation), ("velocity", text p.velocity)]

instance : Form Position where
  ofValue? v := do
    let [x, y, z] ← v.fields? ["x", "y", "z"] | none
    return ⟨← ofValue? x, ← ofValue? y, ← ofValue? z⟩
  text p := recordText [("x", text p.x), ("y", text p.y), ("z", text p.z)]

instance : Form Point where
  ofValue? v := do
    let [x, y, z, snr, noise] ← v.fields? ["x", "y", "z", "snr", "noise"] | none
    return ⟨⟨← ofValue? x, ← ofValue? y, ← ofValue? z⟩, ← ofValue? snr, ← ofValue? noise⟩
  text p := recordText [("x", text p.position.x), ("y", text p.position.y),
    ("z", text p.position.z), ("snr", text p.snr), ("noise", text p.noise)]

instance : Form Timestamp where
  ofValue? v := (ofValue? v).bind Timestamp.ofText?
  text t := quoted t.text

instance : Form StampedCloud where
  ofValue? v := do
    let [points, frame, cycles, time] ←
      v.fields? ["points", "frame_number", "time_cpu_cycles", "timestamp"] | none
    return ⟨← ofValue? points, ← ofValue? frame, ← ofValue? cycles, ← ofValue? time⟩
  text c := recordText [("points", text c.points), ("frame_number", text c.frameNumber),
    ("time_cpu_cycles", text c.cycles), ("timestamp", text c.timestamp)]

/-! ## Motion -/

/-- A channel of a motion sample. -/
def channel? (v : Value) : Option Wire.FloatBits := (ofValue? v).map Float32.toBits

/-- The text of a channel of a motion sample. -/
def channelText (bits : Wire.FloatBits) : String := text (Float32.ofBits bits)

instance : Form MotionSample where
  ofValue? v := do
    let [ax, ay, az, p, r, y, cycles] ←
      v.fields? ["a_x", "a_y", "a_z", "r_p", "r_r", "r_y", "cpu_cycles"] | none
    return ⟨← channel? ax, ← channel? ay, ← channel? az, ← channel? p, ← channel? r, ← channel? y,
      ← ofValue? cycles⟩
  text s := recordText [("a_x", channelText s.ax), ("a_y", channelText s.ay),
    ("a_z", channelText s.az), ("r_p", channelText s.pitchRate), ("r_r", channelText s.rollRate),
    ("r_y", channelText s.yawRate), ("cpu_cycles", text s.cycles)]

instance : Form Attitude where
  ofValue? v := do
    let [pitch, roll, rotation] ← v.fields? ["pitch", "roll", "rotation"] | none
    return ⟨← ofValue? pitch, ← ofValue? roll, ← ofValue? rotation⟩
  text a := recordText [("pitch", text a.pitch), ("roll", text a.roll),
    ("rotation", text a.rotation)]

instance : Form (Rotation Float32) where
  ofValue? v := do
    let [mean, variance] ← v.fields? ["mean_rotation", "variance_rotation"] | none
    return ⟨← ofValue? mean, ← ofValue? variance⟩
  text r := recordText [("mean_rotation", text r.mean), ("variance_rotation", text r.variance)]

/-! ## Aiming -/

instance : Form Pixel where
  ofValue? v := do
    let [x, y] ← v.fields? ["x", "y"] | none
    return ⟨← int32? x, ← int32? y⟩
  text p := recordText [("x", Decimal.intText p.x), ("y", Decimal.intText p.y)]

instance : Form Box where
  ofValue? v := do
    let [left, top, width, height] ← v.fields? ["left", "top", "width", "height"] | none
    return ⟨← int32? left, ← int32? top, ← int32? width, ← int32? height⟩
  text b := recordText [("left", Decimal.intText b.left), ("top", Decimal.intText b.top),
    ("width", Decimal.intText b.width), ("height", Decimal.intText b.height)]

instance : Form AimPoints where
  ofValue? v := do
    let [target, corrected] ← v.fields? ["aim_target", "corrected"] | none
    return ⟨← ofValue? target, ← ofValue? corrected⟩
  text a := recordText [("aim_target", text a.target), ("corrected", text a.corrected)]

instance : Form ProgressBar where
  ofValue? v := do
    let [width, height, percent, topLeft] ←
      v.fields? ["width", "height", "percentage_complete", "top_left"] | none
    return ⟨← int32? width, ← int32? height, ← int32? percent, ← ofValue? topLeft⟩
  text p := recordText [("width", Decimal.intText p.width), ("height", Decimal.intText p.height),
    ("percentage_complete", Decimal.intText p.percent), ("top_left", text p.topLeft)]

instance : Form State where
  ofValue? := named? State.all State.name
  text s := quoted s.name

instance : Form Overlay where
  ofValue? v := do
    let [state, label, column, progress, velocity, distance] ←
      v.fields? ["state", "status_text", "text_x_offset", "progress", "angular_velocity",
        "distance"] | none
    return ⟨← ofValue? state, ← ofValue? label, ← int32? column, ← ofValue? progress,
      ← ofValue? velocity, ← ofValue? distance⟩
  text o := recordText [("state", text o.state), ("status_text", text o.text),
    ("text_x_offset", Decimal.intText o.column), ("progress", text o.progress),
    ("angular_velocity", text o.angularVelocity), ("distance", text o.distance)]

instance : Form FailReasons where
  ofValue? v := (ofValue? v).bind FailReasons.ofText?
  text r := quoted r.text

instance : Form Outcome where
  ofValue? v := do
    let (name, some rest) ← v.choice? | none
    match name with
    | "Fired" =>
      let [distance, velocity] ← rest.fields? ["distance", "angular_velocity"] | none
      return .fired (← ofValue? distance) (← ofValue? velocity)
    | "Failed" =>
      let [reasons] ← rest.fields? ["reasons"] | none
      return .failed (← ofValue? reasons)
    | _ => none
  text
    | .fired distance velocity =>
      recordText [("Fired", recordText [("distance", text distance),
        ("angular_velocity", text velocity)])]
    | .failed reasons => recordText [("Failed", recordText [("reasons", text reasons)])]

/-! ## Calibration -/

instance : Form Kind where
  ofValue? := named? [.drop, .lead] Kind.name
  text k := quoted k.name

instance : Form Cell where
  ofValue? v := do
    let [kind, distance, velocity] ← v.fields? ["kind", "distance", "velocity"] | none
    return ⟨← ofValue? kind, ← nat64? distance, ← nat64? velocity⟩
  text c := recordText [("kind", text c.kind), ("distance", Decimal.natText c.distance),
    ("velocity", Decimal.natText c.velocity)]

instance : Form Table where
  ofValue? v := do
    let [drop, lead] ← v.fields? ["drop", "lead"] | none
    return ⟨← ofValue? drop, ← ofValue? lead⟩
  text t := recordText [("drop", text t.drop), ("lead", text t.lead)]

/-! ## Events -/

instance : Form OperatorInput where
  ofValue? := named? OperatorInput.all OperatorInput.name
  text i := quoted i.name

instance : Form Payload where
  ofValue? v := do
    let (name, some rest) ← v.choice? | none
    match name with
    | "Ui" => return .input (← ofValue? rest)
    | "LinkReset" =>
      let [link, emptyReads] ← rest.fields? ["link", "zero_reads"] | none
      return .linkReset (← ofValue? link) (← ofValue? emptyReads)
    | "CalibrationFault" =>
      let [message] ← rest.fields? ["message"] | none
      return .calibrationFault (← ofValue? message)
    | "AimOutcome" => return .aimOutcome (← ofValue? rest)
    | _ => none
  text
    | .input i => recordText [("Ui", text i)]
    | .linkReset link emptyReads =>
      recordText [("LinkReset", recordText [("link", text link), ("zero_reads", text emptyReads)])]
    | .calibrationFault message =>
      recordText [("CalibrationFault", recordText [("message", text message)])]
    | .aimOutcome outcome => recordText [("AimOutcome", text outcome)]

instance : Form Identifier where
  ofValue? v := (ofValue? v).bind Identifier.ofText?
  text i := quoted i.text

instance : Form StampedEvent where
  ofValue? v := do
    let [identifier, time, source, payload] ←
      v.fields? ["id", "timestamp", "source", "payload"] | none
    return ⟨← ofValue? identifier, ← ofValue? time, ⟨← ofValue? source, ← ofValue? payload⟩⟩
  text e := recordText [("id", text e.identifier), ("timestamp", text e.timestamp),
    ("source", text e.event.source), ("payload", text e.event.payload)]

instance : Form SystemError where
  ofValue? v := do
    let (name, some rest) ← v.choice? | none
    match name with
    | "Channel" => return .channel (← ofValue? rest)
    | "LinkReset" =>
      let [link] ← rest.fields? ["link"] | none
      return .linkReset (← ofValue? link)
    | "Decode" => return .decode (← ofValue? rest)
    | "Integrity" => return .integrity (← ofValue? rest)
    | _ => none
  text
    | .channel detail => recordText [("Channel", text detail)]
    | .linkReset link => recordText [("LinkReset", recordText [("link", text link)])]
    | .decode detail => recordText [("Decode", text detail)]
    | .integrity detail => recordText [("Integrity", text detail)]

/-! ## By name -/

/-- Every form by its name, as the function that reads a text and writes it anew. -/
def catalog : List (String × (String → Option String)) :=
  [("SphericalPoint", normalize? Spherical), ("PointSample", normalize? Point),
    ("Point3", normalize? Position), ("PointCloud", normalize? StampedCloud),
    ("ImuSample", normalize? MotionSample), ("Orientation", normalize? Attitude),
    ("RotationAnalysis", normalize? (Rotation Float32)), ("PixelPoint", normalize? Pixel),
    ("Detection", normalize? Box), ("AimOverlay", normalize? AimPoints),
    ("ProgressBar", normalize? ProgressBar), ("OverlayInfo", normalize? Overlay),
    ("AimState", normalize? State), ("FailReasons", normalize? FailReasons),
    ("AimOutcome", normalize? Outcome), ("UiEvent", normalize? OperatorInput),
    ("EventPayload", normalize? Payload), ("Event", normalize? StampedEvent),
    ("ScopeError", normalize? SystemError), ("CalibrationKind", normalize? Kind),
    ("CalibrationCell", normalize? Cell), ("CalibrationTable", normalize? Table)]

/-- Reads a text as the named form and writes it anew. -/
def normalizeAs? (name s : String) : Option String := (catalog.lookup name).bind (· s)

def systemError? (s : String) : Option SystemError := (Value.ofText? s).bind ofValue?

end FireControl.Interchange
