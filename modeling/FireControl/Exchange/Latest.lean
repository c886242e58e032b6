/-!
# Latest-value channels

A sender overwrites one slot; each receiver looks at the newest value or takes it once. The channel
counts publications, and a receiver has seen all up to some count: that is all it keeps. A copy of a
receiver has seen what the copied one has, a new one counts everything so far as seen.

Receivers are numbered in the order in which they came to be.
-/

namespace FireControl.Exchange

/-- The newest value, the number of publications, and how many of them each receiver has seen. -/
structure Latest (α : Type) where
  newest : Option α := none
  published : Nat := 0
  /-- Whether the sender is still there. -/
  isOpen : Bool := true
  /-- By receiver; none once it is gone. -/
  seen : List (Option Nat) := [some 0]
  deriving Repr

/-- What waiting for a change comes to at once. -/
inductive Latest.Change where
  | pending
  | changed
  | closed
  deriving DecidableEq, Repr

namespace Latest

variable {α : Type}

def publish (c : Latest α) (value : α) : Latest α :=
  { c with newest := some value, published := c.published + 1 }

/-- The number of publications a receiver has seen. -/
def seenBy (c : Latest α) (receiver : Nat) : Option Nat := (c.seen[receiver]?).join

/-- Whether something was published that the receiver has not seen. -/
def hasUnseen (c : Latest α) (receiver : Nat) : Bool :=
  (c.seenBy receiver).any (· != c.published)

/-- Marks everything so far as seen by the receiver. -/
def markSeen (c : Latest α) (receiver : Nat) : Latest α :=
  { c with seen := c.seen.set receiver (some c.published) }

/-- The newest value, if the receiver has not seen it and the sender is still there. -/
def take (c : Latest α) (receiver : Nat) : Option α × Latest α :=
  if c.isOpen && c.hasUnseen receiver then (c.newest, c.markSeen receiver) else (none, c)

/-- The newest value, seen or not. -/
def peek (c : Latest α) : Option α := c.newest

/-- Looks for a change: an unseen value is one even after the sender is gone. -/
def changed (c : Latest α) (receiver : Nat) : Change × Latest α :=
  if c.hasUnseen receiver then (.changed, c.markSeen receiver)
  else if c.isOpen then (.pending, c)
  else (.closed, c)

/-- A new receiver that has seen what another one has; the result is its number. -/
def clone (c : Latest α) (receiver : Nat) : Nat × Latest α :=
  (c.seen.length, { c with seen := c.seen ++ [c.seenBy receiver] })

/-- A new receiver that counts everything so far as seen; the result is its number. -/
def subscribe (c : Latest α) : Nat × Latest α :=
  (c.seen.length, { c with seen := c.seen ++ [some c.published] })

/-- The sender goes. -/
def close (c : Latest α) : Latest α := { c with isOpen := false }

/-- A receiver goes. -/
def leave (c : Latest α) (receiver : Nat) : Latest α :=
  { c with seen := c.seen.set receiver none }

end Latest

end FireControl.Exchange
