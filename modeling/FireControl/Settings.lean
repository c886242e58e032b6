import FireControl.Decimal.Layout
import FireControl.Number.Floating
import FireControl.Text.Blank
import FireControl.Toml.Reader

/-!
# Settings

What a user can set: the serial devices, the files, the periods of the tasks, and how motion samples
are judged. Settings are kept as a TOML document with one entry per setting; an absent entry means
the default, and unknown entries are passed over. Environment variables take precedence over the
document for some of them.
-/

namespace FireControl

open FireControl.Toml (Entries Scalar)

/-- The settings, with their defaults. -/
structure Settings where
  radarPort : String := "/dev/ttyUSB1"
  /-- Used only together with a profile. -/
  radarControlPort : String := "/dev/ttyUSB0"
  /-- The commands to upload to the radar at the start. -/
  radarProfile : Option String := none
  sensorPort : String := "/dev/ttyACM1"
  calibrationPath : String := "bullet_calibration.dat"
  /-- Whether the bias of the yaw rate is measured at the start. -/
  calibrateOnBoot : Bool := true
  /-- Where radar points are logged, if they are. -/
  pointLog : Option String := none
  /-- The pause before a link is opened anew, in milliseconds. -/
  reopenDelay : Nat := 3000
  /-- The period of the radar task, in microseconds like the next two. -/
  radarPeriod : Nat := 33000
  motionPeriod : Nat := 1250
  aimPeriod : Nat := 3333
  maxAcceleration : Float32 := 30
  invertYaw : Bool := true
  deriving BEq

namespace Settings

/-! ## Reading -/

/-- The value of an entry, or a default where there is no entry. An entry that is no value, or of
another type, is an error. -/
def entry? {α : Type} (entries : Entries) (name : String) (fallback : α) (read : Scalar → Option α) :
    Option α :=
  match entries.lookup name with
  | none => some fallback
  | some (.value v) => read v
  | some (.table _ _) => none
  | some (.tables _) => none

def text? : Scalar → Option String
  | .text s => some s
  | _ => none

/-- A truth value. -/
def bool? : Scalar → Option Bool
  | .bool b => some b
  | _ => none

/-- An integer that is not negative. -/
def nat? : Scalar → Option Nat
  | .integer v => if 0 ≤ v then some v.toNat else none
  | _ => none

/-- A real number or an integer, as the nearest binary32 number. -/
def real? : Scalar → Option Float32
  | .real x => some (Floating.narrow x)
  | .integer v => some (Floating.ofScaled v 0)
  | _ => none

def ofEntries? (entries : Entries) : Option Settings := do
  let d : Settings := {}
  return {
    radarPort := ← entry? entries "radar_port" d.radarPort text?
    radarControlPort := ← entry? entries "radar_control_port" d.radarControlPort text?
    radarProfile := ← entry? entries "radar_profile" d.radarProfile fun v => (text? v).map some
    sensorPort := ← entry? entries "sensor_port" d.sensorPort text?
    calibrationPath := ← entry? entries "calibration_path" d.calibrationPath text?
    calibrateOnBoot := ← entry? entries "calibrate_imu_on_boot" d.calibrateOnBoot bool?
    pointLog := ← entry? entries "radar_dump" d.pointLog fun v => (text? v).map some
    reopenDelay := ← entry? entries "link_reopen_delay_ms" d.reopenDelay nat?
    radarPeriod := ← entry? entries "radar_period_us" d.radarPeriod nat?
    motionPeriod := ← entry? entries "imu_period_us" d.motionPeriod nat?
    aimPeriod := ← entry? entries "aim_period_us" d.aimPeriod nat?
    maxAcceleration := ← entry? entries "max_acceleration" d.maxAcceleration real?
    invertYaw := ← entry? entries "invert_yaw" d.invertYaw bool? }

def ofText? (s : String) : Option Settings := (Toml.ofText? s).bind ofEntries?

/-! ## Writing -/

/-- Real numbers are written in full, with one decimal at least. -/
def realLayout : Decimal.Layout :=
  { positional := none, plus := "", wholeEnd := ".0", tie := .up, infinite := "inf",
    notANumber := "nan" }

/-- The text of a truth value. -/
def boolText (b : Bool) : String := if b then "true" else "false"

/-- The greatest integer that a document can hold. -/
def greatestInteger : Int := 9223372036854775807

/-- The settings as entries of a document; those that are not set are left out. -/
def entries (s : Settings) : List (String × Scalar) :=
  let optional (name : String) (value : Option String) : List (String × Scalar) :=
    value.toList.map fun v => (name, .text v)
  [("radar_port", .text s.radarPort), ("radar_control_port", .text s.radarControlPort)]
    ++ optional "radar_profile" s.radarProfile
    ++ [("sensor_port", .text s.sensorPort), ("calibration_path", .text s.calibrationPath),
      ("calibrate_imu_on_boot", .bool s.calibrateOnBoot)]
    ++ optional "radar_dump" s.pointLog
    ++ [("link_reopen_delay_ms", .integer s.reopenDelay), ("radar_period_us", .integer s.radarPeriod),
      ("imu_period_us", .integer s.motionPeriod), ("aim_period_us", .integer s.aimPeriod),
      ("max_acceleration", .real (Floating.widen s.maxAcceleration)),
      ("invert_yaw", .bool s.invertYaw)]

/-- The text of a value, if a document can hold the value. -/
def valueText? : Scalar → Option (Checked String)
  | .text s => some (Toml.Quoted.write s)
  | .integer v => if v ≤ greatestInteger then some (.ok (Decimal.intText v)) else none
  | .real x => some (.ok (realLayout.text64 x))
  | .bool b => some (.ok (boolText b))
  | .other => none

/-- The document of the settings, if it can hold their values. That is found out before anything is
written. -/
def document? (s : Settings) : Option (Checked String) := do
  let lines ← s.entries.mapM fun (name, v) => (valueText? v).map (name, ·)
  return String.join <$> lines.mapM fun (name, value) =>
    value.map fun value => name ++ " = " ++ value ++ "\n"

/-! ## Environment -/

/-- The values of environment variables by name. -/
abbrev Environment := String → Option String

/-- The truth value in the text of a variable; other texts mean nothing. -/
def flag? (v : String) : Option Bool :=
  let word := String.ofList (Text.trim v.toList)
  if ["1", "true", "yes"].contains word then some true
  else if ["0", "false", "no"].contains word then some false
  else none

/-- The settings with the variables of the environment in place of what they stand for. -/
def override (s : Settings) (env : Environment) : Settings :=
  { s with
    radarPort := (env "SCOPE_RADAR_PORT").getD s.radarPort
    sensorPort := (env "SCOPE_SENSOR_PORT").getD s.sensorPort
    calibrationPath := (env "SCOPE_CALIBRATION_PATH").getD s.calibrationPath
    calibrateOnBoot := ((env "SCOPE_CALIBRATE_IMU").bind flag?).getD s.calibrateOnBoot
    pointLog := (env "SCOPE_RADAR_DUMP").or s.pointLog }

/-- A name appended to a path. -/
def join (path name : String) : String :=
  if path.isEmpty || path.endsWith "/" then path ++ name else path ++ "/" ++ name

/-- The directory of a user, or the current one. -/
def home (env : Environment) : String := ((env "HOME").or (env "USERPROFILE")).getD "."

def directory (env : Environment) : String := join (home env) ".scope"

def path (env : Environment) : String := join (directory env) "config.toml"

end Settings

end FireControl
