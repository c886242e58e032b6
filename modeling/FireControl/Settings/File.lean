import FireControl.FileSystem
import FireControl.Settings

/-!
# The settings file

The settings live in a document of the user's. Loading tells an absent file from one that cannot be
read and from one that holds no settings; saving makes the directories on the way first.
-/

namespace FireControl.Settings

/-- Why settings could not be loaded or saved. -/
inductive Fault where
  | read (kind : IoKind)
  | parse
  | serialize
  | write (kind : IoKind)
  deriving DecidableEq, Repr

/-- The settings in the content of a file. -/
def ofBytes (content : Bytes) : Except Fault Settings :=
  match String.fromUTF8? ⟨content.toArray⟩ with
  | none => .error (.read .invalidData)
  | some text =>
    match ofText? text with
    | none => .error .parse
    | some s => .ok s

/-- The settings of a user; none where there is no file. The environment takes precedence. -/
def load (files : FileSystem) (env : Environment) : Except Fault (Option Settings) :=
  if files.has (path env) then
    match files.read (path env) with
    | .error kind => .error (.read kind)
    | .ok content => (ofBytes content).map fun s => some (s.override env)
  else .ok none

/-- Saves the settings of a user: makes the directories, writes the document and stores it, in this
order. There is no outcome where writing the document overflows. -/
def save (s : Settings) (files : FileSystem) (env : Environment) :
    Checked (Except Fault FileSystem) :=
  match files.makeParents (path env) with
  | (.error kind, _) => .ok (.error (.write kind))
  | (.ok (), files) =>
    match s.document? with
    | none => .ok (.error .serialize)
    | some document => document.map fun text =>
      match files.store (path env) text.toUTF8.toList with
      | .error kind => .error (.write kind)
      | .ok files => .ok files

end FireControl.Settings
