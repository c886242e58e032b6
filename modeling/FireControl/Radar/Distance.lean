import FireControl.Radar.Point
import FireControl.Ring

/-!
# The published distance

Of every cloud the credible points are averaged, and the forward coordinate of their centroid is
smoothed over the last five clouds that had any. A cloud without a credible point changes nothing.
-/

namespace FireControl.Radar

/-- The smoothing window and the distance published last. -/
structure DistanceEstimator where
  window : Ring Float32 5 := .filled 0 (by decide)
  distance : Option Float32 := none

namespace DistanceEstimator

/-- Feeds one cloud; the result is the new distance, or none if no point was credible. -/
def ingest (e : DistanceEstimator) (points : List Point) : Option Float32 × DistanceEstimator :=
  match centroid (credible points) with
  | none => (none, e)
  | some center =>
    let window := e.window.push center.y
    (some window.mean, { window, distance := some window.mean })

end DistanceEstimator

end FireControl.Radar
