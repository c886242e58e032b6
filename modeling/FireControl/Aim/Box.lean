import FireControl.Number.Checked
import FireControl.Number.Floating

/-!
# Detected boxes on the video frame

The vision system reports a person as a pixel box. Its centre decides whether the target is centred
on the frame, and a point a quarter of the way down from its top is where to aim. Halves and quarters
drop their fraction toward zero. Coordinates are signed 32-bit, and a sum that leaves that range is
an overflow.
-/

namespace FireControl.Aim

structure Pixel where
  x : Int
  y : Int
  deriving DecidableEq, Repr

/-- The centre of the 800 by 600 frame. -/
def Pixel.frameCenter : Pixel := ⟨400, 300⟩

/-- The box around a detected person. -/
structure Box where
  left : Int
  top : Int
  width : Int
  height : Int
  deriving DecidableEq, Repr

namespace Box

/-- The point halfway across and `1 / parts` of the way down. -/
def pointDown (b : Box) (parts : Int) : Checked Pixel := do
  let x ← Checked.int32 .add (b.left + b.width.tdiv 2)
  let y ← Checked.int32 .add (b.top + b.height.tdiv parts)
  return ⟨x, y⟩

def center (b : Box) : Checked Pixel := b.pointDown 2

/-- Where to aim: the upper torso. -/
def aimPoint (b : Box) : Checked Pixel := b.pointDown 4

end Box

/-- A centre nearer to the frame's centre than this, in pixels, is centred. -/
def centeredRadius : Float := 150

/-- Whether a point is centred. -/
def Pixel.isCentered (p : Pixel) : Checked Bool := do
  let dx ← Checked.int32 .subtract (p.x - frameCenter.x)
  let dy ← Checked.int32 .subtract (p.y - frameCenter.y)
  let dx := Float.ofInt dx
  let dy := Float.ofInt dy
  return (dx * dx + dy * dy).sqrt < centeredRadius

/-- A centred box and its centre. -/
structure Sighting where
  box : Box
  center : Pixel
  deriving DecidableEq, Repr

/-- The sighting of a box, if the box is centred. -/
def Sighting.ofBox (b : Box) : Checked (Option Sighting) := do
  let center ← b.center
  let centered ← center.isCentered
  return if centered then some ⟨b, center⟩ else none

def Sighting.ofOffer : Option Box → Checked (Option Sighting)
  | none => .ok none
  | some b => ofBox b

end FireControl.Aim
