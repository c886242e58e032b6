import FireControl.Aim.Outcome
import FireControl.Operator

/-!
# Events and the errors the parts report to each other

An event says where it comes from and what happened: an operator input, a link that was reset,
calibration data that cannot be trusted or kept, or the end of a tracking attempt. Events travel on
topics.
-/

namespace FireControl

/-- Errors that the parts of the system report to each other. -/
inductive SystemError where
  | channel (detail : String)
  | linkReset (link : String)
  | decode (detail : String)
  | integrity (detail : String)
  deriving DecidableEq, Repr

def SystemError.message : SystemError → String
  | .channel detail => "Channel Error: " ++ detail
  | .linkReset link => s!"Link {link} requires a reset"
  | .decode detail => "Decode Error: " ++ detail
  | .integrity detail => "Integrity Error: " ++ detail

/-- The input with a code, or the error that no input has it. -/
def OperatorInput.ofCode (code : UInt32) : Except SystemError OperatorInput :=
  match ofCode? code with
  | some input => .ok input
  | none => .error (.decode s!"unknown UI event {code.toNat}")

/-- What an event reports. -/
inductive Payload where
  | input (input : OperatorInput)
  | linkReset (link : String) (emptyReads : UInt32)
  | calibrationFault (message : String)
  | aimOutcome (outcome : Aim.Outcome)

/-- A report and where it comes from. -/
structure Event where
  source : String
  payload : Payload

/-- The lanes that events travel on. -/
inductive Topic where
  | operator
  | systemAlerts
  | aimEvents
  deriving DecidableEq, Repr

namespace Topic

def all : List Topic := [.operator, .systemAlerts, .aimEvents]

def name : Topic → String
  | .operator => "Operator"
  | .systemAlerts => "SystemAlerts"
  | .aimEvents => "AimEvents"

end Topic

end FireControl
