/-!
# Bounded queues

A queue holds what was sent and not yet received, oldest first, up to its capacity. Nothing sent to
a full queue or after the receiver has gone is kept, and the sender is told which of the two it was.
-/

namespace FireControl.Exchange

/-- What waits, and whether the two ends are there. -/
structure Queue (α : Type) where
  capacity : Nat
  /-- Oldest first. -/
  waiting : List α := []
  hasReceiver : Bool := true
  hasSender : Bool := true

/-- What became of something sent. -/
inductive Sent where
  | taken
  | full
  | closed
  deriving DecidableEq, Repr

namespace Queue

variable {α : Type}

def send (q : Queue α) (a : α) : Sent × Queue α :=
  if !q.hasReceiver then (.closed, q)
  else if q.capacity ≤ q.waiting.length then (.full, q)
  else (.taken, { q with waiting := q.waiting ++ [a] })

/-- Receives everything that waits. -/
def drain (q : Queue α) : List α × Queue α := (q.waiting, { q with waiting := [] })

/-- The receiver goes, and what waits with it. -/
def dropReceiver (q : Queue α) : Queue α := { q with waiting := [], hasReceiver := false }

/-- The sender goes. What waits can still be received. -/
def dropSender (q : Queue α) : Queue α := { q with hasSender := false }

theorem waiting_send (q : Queue α) (a : α) :
    (q.send a).2.waiting = if (q.send a).1 = .taken then q.waiting ++ [a] else q.waiting := by
  unfold send
  split
  · simp
  · split <;> simp

theorem send_eq_full {q : Queue α} {a : α} :
    (q.send a).1 = .full ↔ q.hasReceiver = true ∧ q.capacity ≤ q.waiting.length := by
  unfold send
  split
  · simp_all
  · split <;> simp_all

theorem send_eq_closed {q : Queue α} {a : α} : (q.send a).1 = .closed ↔ q.hasReceiver = false := by
  unfold send
  split
  · simp_all
  · split <;> simp_all

theorem send_eq_taken {q : Queue α} {a : α} :
    (q.send a).1 = .taken ↔ q.hasReceiver = true ∧ q.waiting.length < q.capacity := by
  unfold send
  split
  · simp_all
  · split <;> simp_all

@[simp] theorem capacity_send (q : Queue α) (a : α) : (q.send a).2.capacity = q.capacity := by
  unfold send
  split
  · rfl
  · split <;> rfl

@[simp] theorem hasReceiver_send (q : Queue α) (a : α) :
    (q.send a).2.hasReceiver = q.hasReceiver := by
  unfold send
  split
  · rfl
  · split <;> rfl

end Queue

end FireControl.Exchange
