/-!
# Operator inputs

The sensor board reports its rotary encoder and its buttons by code. Main statement:
`OperatorInput.ofCode?_eq_some`, a code belongs to at most one input.
-/

namespace FireControl

/-- An input from the rotary encoder or a push button. -/
inductive OperatorInput where
  | rotaryButton
  | rotaryLeft
  | rotaryRight
  | button0
  | button1
  deriving DecidableEq, Repr

namespace OperatorInput

/-- Every input, in the order of their codes. -/
def all : List OperatorInput := [.rotaryButton, .rotaryLeft, .rotaryRight, .button0, .button1]

/-- The code of an input on the wire. -/
def code : OperatorInput → UInt32
  | .rotaryButton => 0
  | .rotaryLeft => 1
  | .rotaryRight => 2
  | .button0 => 3
  | .button1 => 4

def name : OperatorInput → String
  | .rotaryButton => "RotaryButton"
  | .rotaryLeft => "RotaryLeft"
  | .rotaryRight => "RotaryRight"
  | .button0 => "Button0"
  | .button1 => "Button1"

def ofCode? : UInt32 → Option OperatorInput
  | 0 => some .rotaryButton
  | 1 => some .rotaryLeft
  | 2 => some .rotaryRight
  | 3 => some .button0
  | 4 => some .button1
  | _ => none

theorem ofCode?_eq_some {c : UInt32} {i : OperatorInput} : ofCode? c = some i ↔ c = i.code := by
  constructor
  · intro h
    unfold ofCode? at h
    split at h <;> simp_all [code] <;> subst h <;> rfl
  · rintro rfl
    cases i <;> rfl

end OperatorInput

end FireControl
