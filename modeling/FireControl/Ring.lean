import FireControl.Number.Average

/-!
# Rings of slots

A ring keeps the latest `n` of the values pushed onto it: each push overwrites the slot after the
one written last, and the slots start out filled. Histories of arrival times and windows of sensor
values are rings; the mean of a window sums its slots in their own order, not by age.
-/

namespace FireControl

/-- `n` slots and the one to be written next. -/
structure Ring (α : Type) (n : Nat) where
  slots : Vector α n
  next : Nat
  next_lt : next < n

namespace Ring

variable {α : Type} {n : Nat}

/-- A ring whose slots all hold `a`. -/
def filled (a : α) (h : 0 < n) : Ring α n := ⟨Vector.replicate n a, 0, h⟩

/-- Overwrites the oldest slot. -/
def push (r : Ring α n) (a : α) : Ring α n :=
  ⟨r.slots.set r.next a r.next_lt, (r.next + 1) % n, Nat.mod_lt _ (Nat.zero_lt_of_lt r.next_lt)⟩

/-- The slots in their own order. -/
def toList (r : Ring α n) : List α := r.slots.toList

/-- The number of times in the ring that are `cutoff` or later. -/
def countSince (r : Ring (Option Nat) n) (cutoff : Nat) : Nat :=
  r.toList.countP fun time => time.any (cutoff ≤ ·)

/-- The mean of a window of values. -/
def mean [Averaging α] (r : Ring α n) : α := Average.mean r.toList

/-- The population variance of a window of values. -/
def variance [Averaging α] (r : Ring α n) : α := Average.variance r.toList

@[simp] theorem length_toList (r : Ring α n) : r.toList.length = n := by simp [toList]

@[simp] theorem toList_push (r : Ring α n) (a : α) :
    (r.push a).toList = r.toList.set r.next a := by
  simp [toList, push, Vector.toList_set]

@[simp] theorem toList_filled (a : α) (h : 0 < n) :
    (filled a h : Ring α n).toList = List.replicate n a := by simp [toList, filled]

end Ring

end FireControl
