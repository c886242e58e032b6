/-!
# Sums, means and variances

A sum adds its terms from the left, starting at the neutral element of addition; a mean divides the
sum by the number of terms, and a variance is the mean of the squared distances from the mean.

The rules are stated once over any arithmetic with `Averaging`: binary32 numbers for the program,
where every step rounds, and rational numbers for the quantities it approximates.
-/

namespace FireControl

/-- The arithmetic that means and variances need. -/
class Averaging (α : Type) extends Add α, Sub α, Mul α, Div α where
  /-- Where a sum starts. -/
  neutral : α
  ofNat : Nat → α

-- Positive zero would not do: added to a negative zero it gives a positive one.
instance : Averaging Float32 where
  neutral := -0.0
  ofNat := Float32.ofNat

instance : Averaging Rat where
  neutral := 0
  ofNat n := n

namespace Average

variable {α : Type} [Averaging α]

def sum (xs : List α) : α := xs.foldl (· + ·) Averaging.neutral

def mean (xs : List α) : α := sum xs / Averaging.ofNat xs.length

/-- The population variance of a list. -/
def variance (xs : List α) : α :=
  let center := mean xs
  mean (xs.map fun x => (x - center) * (x - center))

end Average

end FireControl
