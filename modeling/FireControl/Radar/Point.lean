import FireControl.Number.Trigonometry
import FireControl.Wire.PointCloud

/-!
# Points in front of the sensor

A detection's range and angles become a position: `y` points forward, and `x` and `z` change sign
because the sensor hangs upside down. Points too far off the bore line or too close are reflections
of the housing (`isCredible`); the others are averaged (`centroid`), and a second pass may keep only
those near a given position (`isNear`).

A coordinate that is not a number makes every comparison fail, so such a point is never kept.
-/

namespace FireControl.Radar

open FireControl.Floating

/-- A position in metres. -/
structure Position where
  x : Float32
  y : Float32
  z : Float32

/-- A detection at its position. -/
structure Point where
  position : Position
  snr : Int16
  noise : Int16

/-- The position at a range, azimuth and elevation. -/
def Position.ofSpherical (range azimuth elevation : Float32) : Position :=
  let horizontal := range * Trigonometry.cos elevation
  { x := -(horizontal * Trigonometry.sin azimuth)
    y := horizontal * Trigonometry.cos azimuth
    z := -(range * Trigonometry.sin elevation) }

/-- A detection brought to its position. -/
def Point.ofDetection (d : Wire.Detection) : Point :=
  { position := Position.ofSpherical (.ofBits d.range) (.ofBits d.azimuth) (.ofBits d.elevation)
    snr := d.snr
    noise := d.noise }

/-- Farther off the bore line than this is a reflection. -/
def offsetLimit : Float32 := 100

/-- Closer than this is a reflection. -/
def nearLimit : Float32 := 6

/-- The second pass keeps points within this distance. -/
def refinementRadius : Float32 := 5

/-- Whether a position may belong to a target. -/
def Position.isCredible (p : Position) : Bool :=
  p.x.abs < offsetLimit && p.z.abs < offsetLimit && p.y > nearLimit

/-- Whether a position lies within the refinement radius of another. -/
def Position.isNear (p mean : Position) : Bool :=
  let dx := p.x - mean.x
  let dy := p.y - mean.y
  let dz := p.z - mean.z
  (dx * dx + dy * dy + dz * dz).sqrt < refinementRadius

/-- The points that may belong to a target. -/
def credible (points : List Point) : List Point := points.filter (·.position.isCredible)

/-- The points near a position. -/
def refine (points : List Point) (mean : Position) : List Point :=
  points.filter (·.position.isNear mean)

/-- The mean of one coordinate, accumulated in binary64. -/
def meanCoordinate (coordinates : List Float32) : Float32 :=
  narrow (coordinates.foldl (fun total c => total + widen c) 0 / Float.ofNat coordinates.length)

/-- The mean position of the points, if there are any. -/
def centroid (points : List Point) : Option Position :=
  if points.isEmpty then none
  else
    some
      { x := meanCoordinate (points.map (·.position.x))
        y := meanCoordinate (points.map (·.position.y))
        z := meanCoordinate (points.map (·.position.z)) }

end FireControl.Radar
