import FireControl.Text.Digits

/-!
# Identifiers

An identifier is sixteen bytes, written as thirty-two hexadecimal digits in groups of eight, four,
four, four and twelve. Readers also take the digits without hyphens, the hyphened form in braces, and
the hyphened form as a resource name, whose scheme may be in either case.
-/

namespace FireControl.Interchange

/-- The thirty-two hexadecimal digits of an identifier, most significant first. -/
structure Identifier where
  digits : List Nat
  deriving DecidableEq, Repr

namespace Identifier

/-- The number of digits. -/
def length : Nat := 32

/-- The identifier with the given digits and nothing else. -/
def ofDigits? (cs : List Char) : Option Identifier :=
  if cs.length = length then (cs.mapM Text.hexValue?).map Identifier.mk else none

/-- Takes the hyphens out of the hyphened form. -/
def unhyphened? (cs : List Char) : Option (List Char) :=
  if cs.length = 36 ∧ [8, 13, 18, 23].all (cs[·]? == some '-') then
    some (cs.take 8 ++ (cs.drop 9).take 4 ++ (cs.drop 14).take 4 ++ (cs.drop 19).take 4 ++ cs.drop 24)
  else none

/-- What an identifier written as a resource name starts with. -/
def scheme : List Char := "urn:uuid:".toList

/-- The hyphened form without what may stand around it. -/
def unwrapped (cs : List Char) : List Char :=
  if (cs.take scheme.length).map Char.toLower = scheme then cs.drop scheme.length
  else if cs.length = 38 ∧ cs.head? = some '\x7b' ∧ cs.getLast? = some '\x7d' then cs.tail.dropLast
  else cs

def ofText? (s : String) : Option Identifier :=
  if s.toList.length = length then ofDigits? s.toList
  else (unhyphened? (unwrapped s.toList)).bind ofDigits?

def digitChar (d : Nat) : Char := (Nat.toDigits 16 d).headD '0'

/-- The hyphened form. -/
def text (i : Identifier) : String :=
  let cs := i.digits.map digitChar
  String.ofList ("-".toList.intercalate [cs.take 8, (cs.drop 8).take 4, (cs.drop 12).take 4,
    (cs.drop 16).take 4, cs.drop 20])

end Identifier

end FireControl.Interchange
