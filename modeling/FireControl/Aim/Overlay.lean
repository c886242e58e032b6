import FireControl.Aim.Box
import FireControl.Aim.Outcome

/-!
# The status overlay

What the renderer draws over the video: a label that stands roughly over the crosshair, and while
seeking a progress bar with the centred frames as a share of those needed.
-/

namespace FireControl.Aim

structure ProgressBar where
  width : Int := 0
  height : Int := 0
  /-- From 0 to 100. -/
  percent : Int := 0
  topLeft : Pixel := ⟨0, 0⟩
  deriving DecidableEq, Repr

/-- Everything the renderer needs. -/
structure Overlay where
  state : State := .lock
  text : String := ""
  /-- The column where the label starts. -/
  column : Int := 0
  progress : ProgressBar := {}
  angularVelocity : Float32 := 0
  distance : Float32 := 0

/-- Lock is acquired with more centred frames than this in the lock window. -/
def framesToLock : Nat := 20

/-- The share of centred frames, at most a hundred percent. -/
def lockProgress (recent : Nat) : Checked ProgressBar := do
  let scaled ← Checked.nat64 .multiply (recent * 100)
  return { width := 100, height := 20, percent := (min (scaled / framesToLock) 100 : Nat),
           topLeft := ⟨420, 271⟩ }

/-- The label of a rejected attempt, and its column: each reason moves it to the left. -/
def failedText (reasons : FailReasons) : String × Int :=
  let shown := [(FailReasons.vision, "CV"), (.gyro, " GY"), (.radar, " RD")].filter
    fun (reason, _) => reasons.contains reason
  ("FAILED [" ++ String.join (shown.map Prod.snd) ++ "]", 330 - 20 * (shown.length : Int))

namespace Overlay

/-- The overlay of a state. The recent frames count only while locking and the reasons only after a
rejected attempt. -/
def build (state : State) (recent : Nat) (reasons : FailReasons)
    (angularVelocity distance : Float32) : Checked Overlay := do
  let (text, column, progress) ← match state with
    | .lock => (lockProgress recent).map fun bar => ("SEEKING", (265 : Int), bar)
    | .track => .ok ("TRACKING", 330, {})
    | .fail => .ok ((failedText reasons).1, (failedText reasons).2, {})
    | .fire => .ok (" ", 341, {})
  return { state, text, column, progress, angularVelocity, distance }

/-- Whether the progress bar is drawn. -/
def showsProgress (o : Overlay) : Bool := o.state == .lock

/-- Whether the corrected crosshair is drawn. -/
def showsCrosshair (o : Overlay) : Bool := o.state == .fire

def showsAngularVelocity (o : Overlay) : Bool := o.state == .fire

def showsBoxes (o : Overlay) : Bool := o.state == .lock || o.state == .track

end Overlay

end FireControl.Aim
