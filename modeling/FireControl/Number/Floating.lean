/-!
# Moving between floating-point widths and integers

Sensors speak binary32 and the ballistics and centroids are computed in binary64. `widen` is exact,
`narrow` rounds to nearest with ties to even, and `truncate` drops the fraction and clamps. All of
them are computed from the unpacked sign, significand and exponent, so that they evaluate in the
logic like the arithmetic of `Float` and `Float32` itself.
-/

namespace FireControl.Floating

open Float.Model (Format UnpackedFloat)

/-- The value rounded to a format; infinities, zeros and not-a-number are in every format. -/
def fit (format : Format) : UnpackedFloat → UnpackedFloat
  | .finite sign significand exponent _ => UnpackedFloat.round format sign significand exponent
  | other => other

/-- The binary64 number equal to a binary32 number. -/
def widen (x : Float32) : Float :=
  .ofModel (.pack (fit Format.binary64 x.toModel.unpack))

/-- The binary32 number nearest to a binary64 number. -/
def narrow (x : Float) : Float32 :=
  .ofModel (.pack (fit Format.binary32 x.toModel.unpack))

/-- The binary32 number nearest to `significand * 2 ^ exponent`. -/
def ofScaled (significand exponent : Int) : Float32 :=
  .ofModel (.pack (UnpackedFloat.normalize Format.binary32 significand exponent .positive))

/-- The integer part of `x`, clamped to `[low, high]`; not-a-number counts as zero. -/
def truncate (low high : Int) (x : Float) : Int :=
  max low (min high (x.toModel.unpack.toInt low high))

/-- The integer part as a signed 32-bit value. -/
def toInt32 (x : Float) : Int := truncate (-2147483648) 2147483647 x

/-- A signed binary number: `significand * 2 ^ exponent`. -/
structure Scaled where
  significand : Int
  exponent : Int
  deriving DecidableEq, Repr

/-- The exact value of a finite number. -/
def scaled? (x : Float32) : Option Scaled :=
  match x.toModel.unpack with
  | .finite .positive m e _ => some ⟨m, e⟩
  | .finite .negative m e _ => some ⟨-(m : Int), e⟩
  | .zero _ => some ⟨0, 0⟩
  | _ => none

end FireControl.Floating
