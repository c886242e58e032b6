import FireControl.Decimal.Layout
import FireControl.Interchange.Value

/-!
# Forms of exchange

A type has a form when its values can be read from interchange values and written as text. Numbers
of a limited range are refused outside of it. A binary32 number is written with the fewest digits
that read back and shows at least one decimal; one that is not finite is written as null.
-/

namespace FireControl.Interchange

/-- A type with a form of exchange. -/
class Form (α : Type) where
  ofValue? : Value → Option α
  text : α → String

/-- Numbers are written in full from a millionth up to ten trillion; elsewhere the exponent shows its
sign in either case. -/
def numberLayout : Decimal.Layout :=
  { positional := some (-5, 13), plus := "+", wholeEnd := ".0", tie := .even, infinite := "",
    notANumber := "null" }

def realText (x : Float32) : String := if x.isFinite then numberLayout.text32 x else "null"

def integer? (low high : Int) : Value → Option Int
  | .number n => n.amount?.bind (·.within? low high)
  | _ => none

namespace Form

/-- A whole text read as a value of the type, and written anew. -/
def normalize? (α : Type) [Form α] (s : String) : Option String :=
  ((Value.ofText? s).bind (ofValue? (α := α))).map text

/-- A list of exactly `n` values. -/
def vector? {α : Type} [Form α] (n : Nat) (v : Value) : Option (Vector α n) := do
  let items ← (← v.items?).mapM ofValue?
  if h : items.toArray.size = n then some ⟨items.toArray, h⟩ else none

/-- A choice among names that carry nothing; in the long form null goes with the name. -/
def named? {α : Type} (all : List α) (name : α → String) (v : Value) : Option α := do
  let (chosen, rest) ← v.choice?
  match rest with
  | none => all.find? (name · == chosen)
  | some .null => all.find? (name · == chosen)
  | some _ => none

instance : Form Float32 where
  ofValue?
    | .number n => n.amount?.map Amount.toFloat32
    | _ => none
  text := realText

instance : Form String where
  ofValue?
    | .text pieces => Piece.text? pieces
    | _ => none
  text := quoted

instance : Form Int16 where
  ofValue? v := (integer? (-32768) 32767 v).map Int16.ofInt
  text v := Decimal.intText v.toInt

instance : Form UInt32 where
  ofValue? v := (integer? 0 4294967295 v).map fun i => UInt32.ofNat i.toNat
  text v := Decimal.natText v.toNat

/-- A signed 32-bit integer. -/
def int32? : Value → Option Int := integer? (-2147483648) 2147483647

/-- An unsigned 64-bit integer. -/
def nat64? (v : Value) : Option Nat := (integer? 0 18446744073709551615 v).map Int.toNat

instance {α : Type} [Form α] : Form (List α) where
  ofValue? v := do (← v.items?).mapM ofValue?
  text items := listText (items.map text)

instance {α : Type} {n : Nat} [Form α] : Form (Vector α n) where
  ofValue? := vector? n
  text items := listText (items.toList.map text)

end Form

end FireControl.Interchange
