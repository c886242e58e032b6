import FireControl.Aim.Outcome
import FireControl.Text.Blank
import FireControl.Text.Digits

/-!
# Reasons as text

A set of reasons is written as their names with bars between them; bits without a name follow in
hexadecimal. A reader takes names and hexadecimal numbers in any order, with blanks around them.
-/

namespace FireControl.Aim.FailReasons

def named : List (FailReasons × String) := [(vision, "CV"), (gyro, "GYRO"), (radar, "RADAR")]

def namedBits : UInt8 := 7

def text (r : FailReasons) : String :=
  let names := (named.filter fun (reason, _) => r.contains reason).map Prod.snd
  let rest := r.bits &&& ~~~namedBits
  " | ".intercalate (names ++ if rest = 0 then [] else ["0x" ++ Text.hexText 0 rest.toNat])

/-- Cuts a text at its bars. -/
def splitBars : List Char → List (List Char)
  | [] => [[]]
  | c :: rest =>
    if c = '|' then [] :: splitBars rest
    else
      match splitBars rest with
      | part :: parts => (c :: part) :: parts
      | [] => [[c]]

/-- The set in eight bits that a hexadecimal number stands for; a plus sign may precede it. -/
def ofHex? (cs : List Char) : Option FailReasons :=
  let digits := match cs with
    | '+' :: rest => rest
    | _ => cs
  match Text.number? 16 digits with
  | some n => if n < 256 then some ⟨UInt8.ofNat n⟩ else none
  | none => none

/-- The reason that a name or a number stands for. -/
def ofPart? (part : List Char) : Option FailReasons :=
  let part := Text.trim part
  match Text.after? "0x" part with
  | some digits => ofHex? digits
  | none => (named.find? fun (_, name) => name.toList = part).map Prod.fst

/-- The set of reasons in a text; nothing but blanks is the empty set. -/
def ofText? (s : String) : Option FailReasons :=
  if (Text.trim s.toList).isEmpty then some empty
  else ((splitBars s.toList).mapM ofPart?).map fun parts => parts.foldl union empty

end FireControl.Aim.FailReasons
