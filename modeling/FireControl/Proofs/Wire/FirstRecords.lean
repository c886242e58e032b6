import FireControl.Proofs.Wire.Walk

/-!
# One record after the other

Readers of messages look at the first records of a frame only. In front of any bytes of a body, with
some records read before them, either no record is due (`Over`), or the bytes are too short for the
one that is due (`Cut`), or they begin with it (`Has`): one of the three is the case
(`over_or_cut_or_has`), and each says how the walk through the records goes on from there.
-/

namespace FireControl.Wire

theorem Record.Due.next_after (due : Due) (n : Nat) : (due.after n).next = due.after (n + 1) := by
  cases due with
  | counted remaining => exact congrArg Due.counted (Nat.sub_sub remaining n 1)
  | untilEnd => rfl

namespace Frame

variable {f : Frame} {n : Nat} {left rest : Bytes} {r : Record}

/-- After `n` records no further one is due in front of `left`. -/
def Over (f : Frame) (n : Nat) (left : Bytes) : Prop :=
  if f.header.recordCount = 0 then left = [] else f.header.recordCount.toNat ≤ n

/-- A record is due, but the bytes are too short for it. -/
structure Cut (f : Frame) (n : Nat) (left : Bytes) : Prop where
  due : ¬ f.Over n left
  short : Record.TooShort left

/-- The record that is due stands in front of `rest`. -/
structure Has (f : Frame) (n : Nat) (left : Bytes) (r : Record) (rest : Bytes) : Prop where
  due : ¬ f.Over n left
  bytes : left = r.encode ++ rest
  length : r.payload.length < 2 ^ 32

/-- The fault of a record that is cut after `n` whole ones. -/
def cutFault (n : Nat) (left : Bytes) : FrameError :=
  .truncatedRecord n (Record.shortfall left).1 (Record.shortfall left).2

theorem over_or_cut_or_has (f : Frame) (n : Nat) (left : Bytes) :
    f.Over n left ∨ f.Cut n left ∨ ∃ r rest, f.Has n left r rest := by
  by_cases hover : f.Over n left
  · exact Or.inl hover
  · by_cases hshort : Record.TooShort left
    · exact Or.inr (Or.inl ⟨hover, hshort⟩)
    · obtain ⟨r, rest, hread⟩ := Record.decode_of_long hshort
      obtain ⟨hbytes, hlength⟩ := Record.decode_eq_ok.mp hread
      exact Or.inr (Or.inr ⟨r, rest, hover, hbytes, hlength⟩)

/-- The walk through the records from `left` on, after `n` records. -/
def walkFrom (f : Frame) (n : Nat) (left : Bytes) : List (Except FrameError Record) :=
  Record.walk ((Record.Due.ofCount f.header.recordCount).after n) n left

theorem records_eq_walkFrom (f : Frame) : f.records = f.walkFrom 0 f.body := by
  unfold records walkFrom
  cases Record.Due.ofCount f.header.recordCount <;> rfl

theorem isOver_after (f : Frame) (n : Nat) (left : Bytes) :
    ((Record.Due.ofCount f.header.recordCount).after n).isOver left = true ↔ f.Over n left := by
  unfold Over Record.Due.ofCount
  split
  · exact List.isEmpty_iff
  · rw [← Nat.sub_eq_zero_iff_le]
    exact beq_iff_eq

theorem walkFrom_over (h : f.Over n left) : f.walkFrom n left = [] := by
  unfold walkFrom
  rw [Record.walk, if_pos ((f.isOver_after n left).mpr h)]

theorem walkFrom_cut (h : f.Cut n left) : f.walkFrom n left = [.error (cutFault n left)] := by
  unfold walkFrom
  rw [Record.walk, if_neg (mt (f.isOver_after n left).mp h.due)]
  have hread := Record.decode_of_short h.short
  split
  · next e herror =>
    rw [hread] at herror
    cases herror
    rfl
  · next hok =>
    rw [hread] at hok
    cases hok

theorem walkFrom_has (h : f.Has n left r rest) :
    f.walkFrom n left = .ok r :: f.walkFrom (n + 1) rest := by
  unfold walkFrom
  rw [Record.walk, if_neg (mt (f.isOver_after n left).mp h.due)]
  have hread := Record.decode_eq_ok.mpr ⟨h.bytes, h.length⟩
  split
  · next herror =>
    rw [hread] at herror
    cases herror
  · next hok =>
    rw [hread] at hok
    cases hok
    rw [Record.Due.next_after]

/-- The record stays the one that is due when other bytes follow it. -/
theorem Has.before (h : f.Has n left r rest) (rest' : Bytes) :
    f.Has n (r.encode ++ rest') r rest' := by
  refine ⟨?_, rfl, h.length⟩
  intro hover
  have hdue := h.due
  unfold Over at hover hdue
  split at hover
  · next hzero =>
    have hempty := congrArg List.length hover
    rw [List.length_append, Record.length_encode, List.length_nil] at hempty
    omega
  · next hcounted =>
    rw [if_neg hcounted] at hdue
    exact hdue hover

end Frame

end FireControl.Wire
