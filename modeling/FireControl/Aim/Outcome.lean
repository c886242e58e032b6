/-!
# States and outcomes of the aim controller

A tracking attempt ends with a firing solution or with the reasons why there is none.
-/

namespace FireControl.Aim

inductive State where
  /-- Waiting for the target to stay centred. -/
  | lock
  /-- Collecting evidence before deciding. -/
  | track
  /-- The crosshair is corrected. -/
  | fire
  /-- Cooling down after a rejected attempt. -/
  | fail
  deriving DecidableEq, Repr

namespace State

def all : List State := [.lock, .track, .fire, .fail]

def name : State → String
  | .lock => "Lock"
  | .track => "Track"
  | .fire => "Fire"
  | .fail => "Fail"

end State

/-- A set of reasons for rejecting a tracking attempt, one bit each. -/
structure FailReasons where
  bits : UInt8 := 0
  deriving DecidableEq, Repr

namespace FailReasons

/-- Too few centred detections. -/
def vision : FailReasons := ⟨1⟩

/-- The rig turned too unsteadily. -/
def gyro : FailReasons := ⟨2⟩

/-- The radar went quiet. -/
def radar : FailReasons := ⟨4⟩

def empty : FailReasons := ⟨0⟩

/-- The reasons of both sets. -/
def union (a b : FailReasons) : FailReasons := ⟨a.bits ||| b.bits⟩

/-- Whether every reason of `b` is in `a`. -/
def contains (a b : FailReasons) : Bool := a.bits &&& b.bits == b.bits

def given (applies : Bool) (reason : FailReasons) : FailReasons := if applies then reason else empty

/-- The set of the reasons that apply. -/
def collect (vision gyro radar : Bool) : FailReasons :=
  (given vision .vision).union ((given gyro .gyro).union (given radar .radar))

end FailReasons

/-- How a tracking attempt ended. -/
inductive Outcome where
  | fired (distance angularVelocity : Float32)
  | failed (reasons : FailReasons)

end FireControl.Aim
