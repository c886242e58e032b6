import FireControl.Ring
import Mathlib.Data.List.Rotate

/-!
# What a ring remembers

Read from the slot written last backwards, a ring is the front of the history of everything pushed
onto it (`Remembers.push`). So a ring of times that were pushed in order answers questions about a
recent window exactly as the whole history would, as long as the window holds no more times than the
ring has slots (`countSince_history`).
-/

namespace FireControl.Ring

variable {α : Type} {n : Nat}

/-- The slots from the value written last to the oldest one. -/
def newest (r : Ring α n) : List α := (r.toList.rotate r.next).reverse

/-- Overwriting one slot of a list that is read from that slot on. -/
theorem rotate_set {l : List α} {k : Nat} (hk : k < l.length) (a : α) :
    (l.set k a).rotate (k + 1) = (l.rotate k).tail ++ [a] := by
  have hsplit : l.drop k = l[k] :: l.drop (k + 1) := List.drop_eq_getElem_cons hk
  have hlen : (l.take k ++ [a]).length = k + 1 := by simp [hk.le]
  have hset : l.set k a = (l.take k ++ [a]) ++ l.drop (k + 1) := by
    rw [List.set_eq_take_append_cons_drop, if_pos hk, List.append_cons]
  rw [hset, ← hlen, List.rotate_append_length_eq, List.rotate_eq_drop_append_take hk.le, hsplit,
    List.cons_append, List.tail_cons, List.append_assoc, hlen]

/-- A push puts its value in front and forgets the oldest. -/
theorem newest_push (r : Ring α n) (a : α) : (r.push a).newest = a :: r.newest.dropLast := by
  have hk : r.next < r.toList.length := by rw [length_toList]; exact r.next_lt
  have hrot : (r.push a).toList.rotate (r.push a).next = (r.toList.rotate r.next).tail ++ [a] := by
    rw [← rotate_set hk a, toList_push, push]
    have hmod := List.rotate_mod (r.toList.set r.next a) (r.next + 1)
    rwa [List.length_set, length_toList] at hmod
  rw [newest, hrot, newest, List.reverse_append, List.dropLast_reverse]
  rfl

theorem newest_filled (a : α) (h : 0 < n) : (filled a h).newest = List.replicate n a := by
  simp [newest, filled, toList]

/-- The ring holds the front of the history: the values pushed onto it, latest first, over the
filling it started with. -/
def Remembers (r : Ring α n) (filling : α) (history : List α) : Prop :=
  r.newest = (history ++ List.replicate n filling).take n

theorem remembers_filled (a : α) (h : 0 < n) : (filled a h : Ring α n).Remembers a [] := by
  simp [Remembers, newest_filled]

theorem Remembers.push {r : Ring α n} {filling : α} {history : List α}
    (h : r.Remembers filling history) (a : α) : (r.push a).Remembers filling (a :: history) := by
  obtain ⟨m, rfl⟩ : ∃ m, n = m + 1 :=
    Nat.exists_eq_succ_of_ne_zero (Nat.ne_of_gt (Nat.zero_lt_of_lt r.next_lt))
  unfold Remembers at h ⊢
  rw [newest_push, h, List.cons_append, List.take_succ_cons, List.dropLast_eq_take, List.take_take]
  simp

theorem mem_newest {r : Ring α n} {a : α} : a ∈ r.newest ↔ a ∈ r.toList := by
  rw [newest, List.mem_reverse, List.mem_rotate]

/-- A slot holds one of the last `n` values, or still the filling. -/
theorem Remembers.mem_toList {r : Ring α n} {filling : α} {history : List α}
    (h : r.Remembers filling history) {a : α} :
    a ∈ r.toList ↔ a ∈ history.take n ∨ (history.length < n ∧ a = filling) := by
  rw [← mem_newest, h, List.take_append, List.take_replicate, List.mem_append, List.mem_replicate]
  refine or_congr_right (and_congr_left' ?_)
  omega

/-! ## Windows of a history in order -/

/-- In a list where a property can only be lost, the front decides as much as its length allows. -/
theorem countP_take_of_antitone {p : α → Bool} {l : List α}
    (h : l.Pairwise fun x y => p y = true → p x = true) (k : Nat) :
    (l.take k).countP p = min k (l.countP p) := by
  induction l generalizing k with
  | nil => simp
  | cons a rest ih =>
    obtain ⟨hhead, hrest⟩ := List.pairwise_cons.mp h
    cases k with
    | zero => simp
    | succ k =>
      rw [List.take_succ_cons, List.countP_cons, List.countP_cons, ih hrest k]
      by_cases ha : p a = true
      · simp only [ha, if_true]
        omega
      · -- Once the property is lost, the rest of the list has no more of it.
        have hnone : rest.countP p = 0 := by
          rw [List.countP_eq_zero]
          intro y hy hp
          exact ha (hhead y hy hp)
        simp [ha, hnone]

/-- A ring counts the times of a window as the history does, up to the number of its slots. -/
theorem countSince_history {r : Ring (Option Nat) n} {times : List Nat}
    (h : r.Remembers none (times.map some)) (hsorted : times.Pairwise (· ≥ ·)) (cutoff : Nat) :
    r.countSince cutoff = min n (times.countP (cutoff ≤ ·)) := by
  have hperm : r.countSince cutoff = r.newest.countP fun time => time.any (cutoff ≤ ·) := by
    rw [newest, List.countP_reverse]
    exact (List.rotate_perm r.toList r.next).symm.countP_eq _
  have hfilling : ∀ k, (List.replicate k (none : Option Nat)).countP
      (fun time => time.any (cutoff ≤ ·)) = 0 := by
    intro k
    simp [List.countP_replicate]
  rw [hperm, h, List.take_append, List.countP_append, List.take_replicate, hfilling,
    Nat.add_zero, ← List.map_take, List.countP_map]
  apply countP_take_of_antitone
  apply hsorted.imp
  intro later earlier hge hearlier
  simp only [Function.comp_apply, Option.any_some, decide_eq_true_eq] at hearlier ⊢
  omega

end FireControl.Ring
