import FireControl.Radar.Point

/-!
# Clouds of points

The detections of one radar frame, brought to their positions.
-/

namespace FireControl.Radar

/-- The points of one radar frame. -/
structure Cloud where
  frameNumber : UInt32
  cycles : UInt32
  points : List Point

/-- The cloud of a decoded frame. -/
def Cloud.ofWire (c : Wire.PointCloud) : Cloud :=
  { frameNumber := c.frameNumber
    cycles := c.cycles
    points := c.detections.map Point.ofDetection }

@[simp] theorem Cloud.length_ofWire (c : Wire.PointCloud) :
    (Cloud.ofWire c).points.length = c.detections.length := by simp [ofWire]

/-- The points are the detections at their positions, in the same order. -/
theorem Cloud.getElem?_ofWire {c : Wire.PointCloud} {k : Nat} {d : Wire.Detection}
    (h : c.detections[k]? = some d) : (Cloud.ofWire c).points[k]? = some (.ofDetection d) := by
  simp [ofWire, h]

end FireControl.Radar
