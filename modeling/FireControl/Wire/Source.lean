import FireControl.Bytes
import FireControl.IoFault

/-!
# Byte sources

What a serial device does over time is a list of deliveries: bytes, an empty read, or a failure, and
now and then a shutdown request that some other party raises while a read is in progress. A read
takes at most its buffer's size from the front delivery and leaves the rest of it for the next read;
after the last delivery every read is empty. `Source.read_weight` says that a read either uses up
some of the deliveries or finds none.
-/

namespace FireControl.Wire

/-- One thing a source does. -/
inductive Delivery where
  /-- Bytes that arrive together; no bytes are one empty read. -/
  | data (bytes : Bytes)
  | failure (fault : IoFault)
  /-- Somebody asks for shutdown during the next read. -/
  | shutdown
  deriving DecidableEq, Repr

/-- What a source will still do, and whether shutdown has been asked for during its reads. -/
structure Source where
  pending : List Delivery
  shutdownRequested : Bool := false
  deriving DecidableEq, Repr

namespace Source

/-- Reads at most `size` bytes (at least one) from the pending deliveries. The last component says
whether shutdown was asked for during this read. -/
def readPending (size : Nat) : List Delivery → Except IoFault Bytes × List Delivery × Bool
  | [] => (.ok [], [], false)
  | .failure fault :: later => (.error fault, later, false)
  | .data bytes :: later =>
    match bytes.drop (max size 1) with
    | [] => (.ok bytes, later, false)
    | b :: rest => (.ok (bytes.take (max size 1)), .data (b :: rest) :: later, false)
  | .shutdown :: later =>
    let (result, later, _) := readPending size later
    (result, later, true)

/-- One read with a buffer of `size` bytes. -/
def read (size : Nat) (s : Source) : Except IoFault Bytes × Source :=
  let (result, pending, asked) := readPending size s.pending
  (result, { pending, shutdownRequested := s.shutdownRequested || asked })

/-- The bytes of pending deliveries. -/
def pendingBytes : List Delivery → Nat
  | [] => 0
  | .data bytes :: later => bytes.length + pendingBytes later
  | _ :: later => pendingBytes later

/-- The bytes not yet read. -/
def bytesLeft (s : Source) : Nat := pendingBytes s.pending

/-- The work left in pending deliveries: their number and their bytes. -/
def pendingWeight (pending : List Delivery) : Nat := pending.length + pendingBytes pending

/-- The work left in a source; every read of a source with deliveries left makes it smaller. -/
def weight (s : Source) : Nat := pendingWeight s.pending

/-- A shutdown request leaves to be read what the read behind it leaves. -/
theorem readPending_shutdown (size : Nat) (later : List Delivery) :
    (readPending size (.shutdown :: later)).2.1 = (readPending size later).2.1 := rfl

theorem pendingWeight_shutdown (later : List Delivery) :
    pendingWeight (.shutdown :: later) = pendingWeight later + 1 := by
  simp only [pendingWeight, pendingBytes, List.length_cons]
  omega

theorem readPending_weight (size : Nat) (pending : List Delivery) (h : pending ≠ []) :
    pendingWeight (readPending size pending).2.1 < pendingWeight pending := by
  induction pending with
  | nil => exact absurd rfl h
  | cons d later ih =>
    cases d with
    | failure fault => simp [readPending, pendingWeight, pendingBytes]
    | data bytes =>
      simp only [readPending]
      split
      · simp only [pendingWeight, pendingBytes, List.length_cons]
        omega
      · next b rest hd =>
        have hl : (bytes.drop (max size 1)).length = rest.length + 1 := by simp [hd]
        simp only [List.length_drop] at hl
        simp only [pendingWeight, pendingBytes, List.length_cons]
        omega
    | shutdown =>
      cases later with
      | nil => simp [readPending, pendingWeight, pendingBytes]
      | cons d' later' =>
        have hle := ih (by simp)
        rw [pendingWeight_shutdown, readPending_shutdown]
        omega

/-- A read makes a source lighter, unless nothing is pending: then it is empty and changes
nothing. -/
theorem read_weight (size : Nat) (s : Source) :
    (s.read size).2.weight < s.weight ∨
      ((s.read size).1 = .ok [] ∧ (s.read size).2 = s) := by
  rcases hp : s.pending with _ | ⟨d, later⟩
  · right
    cases s
    simp_all [read, readPending]
  · left
    have := readPending_weight size s.pending (by simp [hp])
    simpa [read, weight] using this

theorem readPending_moves {size : Nat} {pending : List Delivery} {chunk : Bytes}
    (h : (readPending size pending).1 = .ok chunk) :
    chunk.length + pendingWeight (readPending size pending).2.1 ≤ pendingWeight pending := by
  induction pending with
  | nil => simp_all [readPending]
  | cons d later ih =>
    cases d with
    | failure fault => simp [readPending] at h
    | data bytes =>
      simp only [readPending] at h ⊢
      split
      · next hd =>
        simp only [hd, Except.ok.injEq] at h
        subst h
        simp only [pendingWeight, pendingBytes, List.length_cons]
        omega
      · next b rest hd =>
        simp only [hd, Except.ok.injEq] at h
        subst h
        have hl : (bytes.drop (max size 1)).length = rest.length + 1 := by simp [hd]
        simp only [List.length_drop] at hl
        simp only [pendingWeight, pendingBytes, List.length_cons, List.length_take]
        omega
    | shutdown =>
      have hle := ih (by simpa [readPending] using h)
      rw [pendingWeight_shutdown, readPending_shutdown]
      omega

/-- The bytes that a read returns were pending before it. -/
theorem read_moves {size : Nat} {s s' : Source} {chunk : Bytes}
    (h : s.read size = (.ok chunk, s')) : chunk.length + s'.weight ≤ s.weight := by
  simp only [read, Prod.mk.injEq] at h
  obtain ⟨h, rfl⟩ := h
  exact readPending_moves h

/-- No read makes a source heavier. -/
theorem read_weight_le (size : Nat) (s : Source) : (s.read size).2.weight ≤ s.weight := by
  rcases s.read_weight size with h | ⟨-, h⟩
  · exact Nat.le_of_lt h
  · exact Nat.le_of_eq (congrArg weight h)

end Source

end FireControl.Wire
