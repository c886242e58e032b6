import FireControl.Event

/-!
# The event bus

Every topic keeps its newest events, as many as its buffer holds, and every receiver keeps its place:
the number of events of its topic that it is done with. A receiver that fell behind by more than the
buffer is told how many events it missed and goes on with the oldest one kept. When the bus is gone,
what is kept is still delivered.

Receivers are numbered in the order in which they subscribed.
-/

namespace FireControl.Exchange

/-- One topic: the number of its events so far, and the newest of them, latest first. -/
structure Lane where
  published : Nat := 0
  kept : List Event := []

/-- A receiver and the number of events of its topic that it is done with. -/
structure Receiver where
  topic : Topic
  place : Nat
  isLive : Bool := true
  deriving DecidableEq, Repr

/-- The topics and all receivers that ever subscribed. -/
structure Bus where
  /-- Events kept per topic. -/
  size : Nat
  operator : Lane := {}
  systemAlerts : Lane := {}
  aimEvents : Lane := {}
  receivers : List Receiver := []
  isOpen : Bool := true

/-- What one look for the next event comes to. -/
inductive Reception where
  | event (e : Event)
  /-- So many events were missed. -/
  | lagged (missed : Nat)
  | pending
  | closed

/-- The least power of two that is `n` or more. -/
def roundUp (n : Nat) : Nat := if n ≤ 1 then 1 else Nat.pow 2 ((n - 1).log2 + 1)

namespace Bus

/-- The report when a bus without room is asked for. -/
def noRoom : String := "broadcast channel capacity cannot be zero"

/-- A bus with room for `capacity` events per topic, rounded up to a power of two. -/
def ofCapacity (capacity : Nat) : Except String Bus :=
  if capacity = 0 then .error noRoom else .ok { size := roundUp capacity }

/-- The bus that is used where no capacity is given. -/
def default : Bus := { size := 256 }

def lane (b : Bus) : Topic → Lane
  | .operator => b.operator
  | .systemAlerts => b.systemAlerts
  | .aimEvents => b.aimEvents

def setLane (b : Bus) (l : Lane) : Topic → Bus
  | .operator => { b with operator := l }
  | .systemAlerts => { b with systemAlerts := l }
  | .aimEvents => { b with aimEvents := l }

/-- The number of live receivers of a topic. -/
def count (b : Bus) (t : Topic) : Nat :=
  b.receivers.countP fun r => r.isLive && r.topic == t

/-- A new receiver, for events published from now on; the result is its number. -/
def subscribe (b : Bus) (t : Topic) : Nat × Bus :=
  (b.receivers.length, { b with receivers := b.receivers ++ [⟨t, (b.lane t).published, true⟩] })

/-- Publishes an event: the number of receivers it is for, or an error if there are none. -/
def publish (b : Bus) (t : Topic) (e : Event) : Except SystemError Nat × Bus :=
  if b.count t = 0 then (.error (.channel s!"No subscribers for topic {t.name}"), b)
  else
    let l := b.lane t
    (.ok (b.count t),
      b.setLane { published := l.published + 1, kept := (e :: l.kept).take b.size } t)

def moveTo (b : Bus) (i : Nat) (r : Receiver) (place : Nat) : Bus :=
  { b with receivers := b.receivers.set i { r with place } }

/-- The next look of receiver `i` at its topic. -/
def receive (b : Bus) (i : Nat) : Reception × Bus :=
  match b.receivers[i]? with
  | none => (.closed, b)
  | some r =>
    let l := b.lane r.topic
    let unread := l.published - r.place
    if unread = 0 then (if b.isOpen then .pending else .closed, b)
    else if b.size < unread then (.lagged (unread - b.size), b.moveTo i r (l.published - b.size))
    else
      -- The latest event stands first, so the oldest unread one is the last of the unread.
      match l.kept[unread - 1]? with
      | none => (.pending, b)
      | some e => (.event e, b.moveTo i r (r.place + 1))

/-- The next event for receiver `i`, if any: what it missed is passed over. -/
def tryNext (b : Bus) (i : Nat) : Option Event × Bus :=
  match b.receive i with
  | (.event e, b) => (some e, b)
  | (.lagged _, b) =>
    match b.receive i with
    | (.event e, b) => (some e, b)
    | (_, b) => (none, b)
  | (_, b) => (none, b)

/-- Events for receiver `i` until none is left, at most `fuel` of them. -/
def drainUpTo (i : Nat) : Nat → Bus → List Event × Bus
  | 0, b => ([], b)
  | fuel + 1, b =>
    match b.tryNext i with
    | (none, b) => ([], b)
    | (some e, b) =>
      let (later, b) := drainUpTo i fuel b
      (e :: later, b)

/-- All events for receiver `i`: no more than the buffer holds can be left. -/
def drain (b : Bus) (i : Nat) : List Event × Bus := drainUpTo i (b.size + 1) b

/-- A receiver goes. -/
def leave (b : Bus) (i : Nat) : Bus :=
  match b.receivers[i]? with
  | none => b
  | some r => { b with receivers := b.receivers.set i { r with isLive := false } }

/-- The bus goes: nothing more will be published. -/
def close (b : Bus) : Bus := { b with isOpen := false }

end Bus

end FireControl.Exchange
