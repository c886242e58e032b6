import FireControl.Wire.Frame

/-!
# Point-cloud records

A radar frame with detections starts with a record of spherical points and a record of side
information, one entry per point. A frame whose first record is missing or of another type carries
no point cloud. The records are judged in wire order, so of two faults the earlier one is reported,
and the records after the first two are not looked at.

Numbers stay bit patterns here: decoding and encoding lose none of them.
-/

namespace FireControl.Wire

/-- A binary32 number as its bit pattern. -/
abbrev FloatBits := UInt32

/-- One radar detection: a spherical point, its signal-to-noise ratio and its noise. -/
structure Detection where
  range : FloatBits
  azimuth : FloatBits
  elevation : FloatBits
  velocity : FloatBits
  snr : Int16
  noise : Int16
  deriving DecidableEq, Repr

/-- The detections of one radar frame. -/
structure PointCloud where
  frameNumber : UInt32
  cycles : UInt32
  detections : List Detection
  deriving DecidableEq, Repr

/-- Why a frame that starts with spherical points carries no point cloud. -/
inductive CloudError where
  | frame (cause : FrameError)
  | unexpectedRecord (expected : UInt32) (found : Option UInt32)
  | badPayloadLength (kind : UInt32) (length stride : Nat)
  | pointCountMismatch (points entries : Nat)
  deriving DecidableEq, Repr

def CloudError.name : CloudError → String
  | .frame cause => cause.name
  | .unexpectedRecord _ _ => "UnexpectedRecord"
  | .badPayloadLength _ _ _ => "BadPayloadLength"
  | .pointCountMismatch _ _ => "PointCountMismatch"

/-- The text of a point-cloud error. -/
def CloudError.message : CloudError → String
  | .frame cause => cause.message
  | .unexpectedRecord expected found =>
    s!"expected record type {expected.toNat}, found " ++
      match found with
      | none => "None"
      | some kind => s!"Some({kind.toNat})"
  | .badPayloadLength kind length stride =>
    s!"record type {kind.toNat} length {length} is not a multiple of {stride}"
  | .pointCountMismatch points entries => s!"{points} points but {entries} side-info entries"

namespace PointCloud

/-- The record type of spherical points. -/
def pointsKind : UInt32 := 1000

/-- The record type of side information. -/
def sideKind : UInt32 := 7

/-- Bytes per spherical point: range, azimuth, elevation and velocity. -/
def pointLength : Nat := 16

/-- Bytes per side-information entry: signal-to-noise ratio and noise. -/
def sideLength : Nat := 4

/-- Detections kept of one frame; later ones are dropped. -/
def capacity : Nat := 325

/-- The number of whole entries in a payload that holds nothing else. -/
def entryCount (kind : UInt32) (stride : Nat) (payload : Bytes) : Except CloudError Nat :=
  if payload.length % stride = 0 then .ok (payload.length / stride)
  else .error (.badPayloadLength kind payload.length stride)

/-- The detection of one point and its side-information entry. -/
def detection (point side : Bytes) : Detection :=
  { range := Bytes.toWord (point.take 4)
    azimuth := Bytes.toWord ((point.drop 4).take 4)
    elevation := Bytes.toWord ((point.drop 8).take 4)
    velocity := Bytes.toWord ((point.drop 12).take 4)
    snr := Bytes.toInt16 (side.take 2)
    noise := Bytes.toInt16 ((side.drop 2).take 2) }

/-- The detections of two payloads that hold `count` entries each. -/
def pair (count : Nat) (points side : Bytes) : List Detection :=
  List.zipWith detection (Bytes.chunks pointLength count points) (Bytes.chunks sideLength count side)

/-- The detections that follow from a first record of spherical points. -/
def ofRecords (points : Bytes) (later : List (Except FrameError Record)) :
    Except CloudError (List Detection) := do
  let count ← entryCount pointsKind pointLength points
  match later with
  | [] => .error (.unexpectedRecord sideKind none)
  | .error cause :: _ => .error (.frame cause)
  | .ok side :: _ =>
    if side.kind ≠ sideKind then .error (.unexpectedRecord sideKind (some side.kind))
    else
      let entries ← entryCount sideKind sideLength side.payload
      if count ≠ entries then .error (.pointCountMismatch count entries)
      else return (pair count points side.payload).take capacity

/-- The point cloud of a radar frame; `none` if it carries none. -/
def ofFrame (f : Frame) : Except CloudError (Option PointCloud) :=
  match f.records with
  | [] => .ok none
  | .error cause :: _ => .error (.frame cause)
  | .ok first :: later =>
    if first.kind ≠ pointsKind then .ok none
    else (ofRecords first.payload later).map fun detections =>
      some ⟨f.header.frameNumber, f.header.cycles, detections⟩

def pointBytes (d : Detection) : Bytes :=
  Bytes.ofWord d.range ++ Bytes.ofWord d.azimuth ++ Bytes.ofWord d.elevation ++
    Bytes.ofWord d.velocity

/-- The four bytes of a detection's side information. -/
def sideBytes (d : Detection) : Bytes := Bytes.ofInt16 d.snr ++ Bytes.ofInt16 d.noise

/-- The two records of a list of detections. -/
def encode (detections : List Detection) : List Record :=
  [⟨pointsKind, detections.flatMap pointBytes⟩, ⟨sideKind, detections.flatMap sideBytes⟩]

end PointCloud

end FireControl.Wire
