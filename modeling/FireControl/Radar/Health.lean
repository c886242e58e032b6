import FireControl.Number.Checked
import FireControl.Ring

/-!
# Radar health

The radar counts as alive when more than five frames arrived within the last three and a half
seconds. Sixty arrival times are kept, more than the decision needs. For the first three and a half
seconds after the start nothing counts as alive.
-/

namespace FireControl.Radar

/-- Recent arrival times and lifetime totals. -/
structure Health where
  arrivals : Ring (Option Nat) 60 := .filled none (by decide)
  totalFrames : Nat := 0
  totalPoints : Nat := 0

namespace Health

/-- The window in which frames count, in milliseconds. -/
def window : Nat := 3500

/-- More frames than this in the window are enough. -/
def minimumFrames : Nat := 5

/-- Notes a frame with `points` detections at time `now`. -/
def record (h : Health) (now points : Nat) : Checked Health := do
  let totalFrames ← Checked.nat64 .add (h.totalFrames + 1)
  let totalPoints ← Checked.nat64 .add (h.totalPoints + points)
  return { arrivals := h.arrivals.push (some now), totalFrames, totalPoints }

/-- Whether enough frames arrived lately. -/
def isAlive (h : Health) (now : Nat) : Bool :=
  decide (window ≤ now) && decide (minimumFrames < h.arrivals.countSince (now - window))

end Health

end FireControl.Radar
