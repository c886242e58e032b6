import FireControl.Wire.Receiver

/-!
# The hunt for the magic word

A receiver looks at one byte at a time and keeps only how much of the magic word it has matched.
`scan` is its run on a byte string that is all there, and `scan_hunting` says that the hunt finds
the leftmost occurrence of the magic word (`locate`), skipping what stands before it. The shortcut
of the hunt, to restart only at the byte that breaks a match, misses nothing because no byte of the
magic word but the first equals its first byte (`not_begins_partial`).
-/

namespace FireControl.Wire

namespace Tally

/-- More bytes that belong to no frame. -/
def skip (t : Tally) (n : Nat) : Tally := { t with skipped := t.skipped + n }

/-- One more header dropped. -/
def reject (t : Tally) : Tally := { t with rejected := t.rejected + 1 }

/-- One more frame. -/
def accept (t : Tally) : Tally := { t with frames := t.frames + 1 }

@[simp] theorem skip_zero (t : Tally) : t.skip 0 = t := rfl

@[simp] theorem skip_skip (t : Tally) (m n : Nat) : (t.skip m).skip n = t.skip (m + n) := by
  simp [skip, Nat.add_assoc]

end Tally

/-! ## The run on a byte string -/

/-- How far a byte string takes a receiver. -/
inductive Scan where
  /-- Up to a frame, with the bytes behind it. -/
  | frame (frame : Frame) (tally : Tally) (rest : Bytes)
  /-- Up to the end of the bytes. -/
  | starved (tally : Tally)
  deriving DecidableEq

/-- The run of a receiver, one byte after the other. -/
def scan (limit : Nat) : Phase → Tally → Bytes → Scan
  | _, tally, [] => .starved tally
  | phase, tally, byte :: rest =>
    match phase.accept limit byte with
    | .more phase skipped => scan limit phase (tally.skip skipped) rest
    | .rejected => scan limit (.hunting 0) tally.reject rest
    | .complete frame => .frame frame tally.accept rest

/-- The run after a byte that led to `progress`. -/
def resume (limit : Nat) (tally : Tally) (rest : Bytes) : Progress → Scan
  | .more phase skipped => scan limit phase (tally.skip skipped) rest
  | .rejected => scan limit (.hunting 0) tally.reject rest
  | .complete frame => .frame frame tally.accept rest

theorem scan_cons (limit : Nat) (phase : Phase) (tally : Tally) (byte : UInt8) (rest : Bytes) :
    scan limit phase tally (byte :: rest) = resume limit tally rest (phase.accept limit byte) := by
  rw [scan]
  cases phase.accept limit byte <;> rfl

/-! ## Occurrences of the magic word -/

/-- The leftmost occurrence of the magic word: how many bytes stand before it, and the bytes from it
on. -/
def locate : Bytes → Option (Nat × Bytes)
  | [] => none
  | byte :: rest =>
    if magic <+: byte :: rest then some (0, byte :: rest)
    else (locate rest).map fun (before, found) => (before + 1, found)

/-- The length of the longest part at the end that begins the magic word. -/
def undecided : Bytes → Nat
  | [] => 0
  | byte :: rest => if byte :: rest <+: magic then rest.length + 1 else undecided rest

/-- The bytes are an occurrence of the magic word or, as far as they go, the beginning of one. -/
def Begins (bytes : Bytes) : Prop := magic <+: bytes ∨ bytes <+: magic

theorem Begins.getElem? {bytes : Bytes} (h : Begins bytes) {k : Nat} (hk : k < 8)
    (hlength : k < bytes.length) : bytes[k]? = magic[k]? := by
  rcases h with ⟨rest, rfl⟩ | ⟨rest, hrest⟩
  · exact List.getElem?_append_left hk
  · rw [← hrest]
    exact (List.getElem?_append_left hlength).symm

theorem locate_spec {bytes found : Bytes} {before : Nat} (h : locate bytes = some (before, found)) :
    bytes.length = before + found.length ∧ magic <+: found := by
  induction bytes generalizing before with
  | nil => cases h
  | cons byte rest ih =>
    unfold locate at h
    split at h
    · next hprefix =>
      cases h
      exact ⟨(Nat.zero_add _).symm, hprefix⟩
    · obtain ⟨⟨k, found'⟩, hlocate, hpair⟩ := Option.map_eq_some_iff.mp h
      cases hpair
      obtain ⟨hlength, hprefix⟩ := ih hlocate
      refine ⟨?_, hprefix⟩
      rw [List.length_cons, hlength]
      omega

/-- What is found is the leftmost occurrence. -/
theorem locate_leftmost {bytes found : Bytes} {before : Nat}
    (h : locate bytes = some (before, found)) :
    found = bytes.drop before ∧ ∀ i < before, ¬ magic <+: bytes.drop i := by
  induction bytes generalizing before with
  | nil => cases h
  | cons byte rest ih =>
    unfold locate at h
    split at h
    · cases h
      exact ⟨rfl, fun i hi => absurd hi (Nat.not_lt_zero i)⟩
    · next hnot =>
      obtain ⟨⟨k, found'⟩, hlocate, hpair⟩ := Option.map_eq_some_iff.mp h
      cases hpair
      obtain ⟨hfound, hbefore⟩ := ih hlocate
      refine ⟨hfound, ?_⟩
      intro i hi
      cases i with
      | zero => exact hnot
      | succ i => exact hbefore i (Nat.lt_of_succ_lt_succ hi)

theorem locate_at_front {bytes : Bytes} (h : magic <+: bytes) : locate bytes = some (0, bytes) := by
  cases bytes with
  | nil => exact absurd (List.prefix_nil.mp h) (by decide)
  | cons byte rest => rw [locate, if_pos h]

theorem undecided_le (bytes : Bytes) : undecided bytes ≤ bytes.length := by
  induction bytes with
  | nil => exact Nat.le_refl 0
  | cons byte rest ih =>
    unfold undecided
    split
    · exact Nat.le_refl _
    · exact Nat.le_succ_of_le ih

/-- Bytes at which no occurrence can begin are passed over. -/
theorem locate_pass {front back : Bytes}
    (h : ∀ i < front.length, ¬ Begins (front.drop i ++ back)) :
    locate (front ++ back) =
        (locate back).map (fun (before, found) => (before + front.length, found)) ∧
      undecided (front ++ back) = undecided back := by
  induction front with
  | nil => simp
  | cons byte front ih =>
    have hfirst : ¬ Begins (byte :: (front ++ back)) := h 0 (Nat.succ_pos _)
    have hrest : ∀ i < front.length, ¬ Begins (front.drop i ++ back) :=
      fun i hi => h (i + 1) (Nat.succ_lt_succ hi)
    obtain ⟨hlocate, hundecided⟩ := ih hrest
    refine ⟨?_, ?_⟩
    · rw [List.cons_append, locate, if_neg fun hm => hfirst (Or.inl hm), hlocate, Option.map_map]
      rfl
    · rw [List.cons_append, undecided, if_neg fun hm => hfirst (Or.inr hm), hundecided]

/-! ## A broken match -/

/-- No byte of the magic word but the first equals its first byte. -/
theorem magic_head {i : Nat} (hpos : 0 < i) (hi : i < 8) : magic[i]? ≠ magic[0]? := by
  have hall : ∀ i : Fin 8, 0 < i.val → magic[i.val]? ≠ magic[0]? := by decide
  exact hall ⟨i, hi⟩ hpos

theorem length_take_magic {m : Nat} (hm : m < 8) : (magic.take m).length = m :=
  List.length_take_of_le (Nat.le_of_lt hm)

/-- A byte that breaks a match leaves no occurrence that begins within the match. -/
theorem not_begins_partial {m i : Nat} {byte : UInt8} {rest : Bytes} (hm : m < 8)
    (hbyte : magic[m]? ≠ some byte) (hi : i < m) :
    ¬ Begins ((magic.take m).drop i ++ byte :: rest) := by
  intro hbegins
  have hlength : ((magic.take m).drop i).length = m - i := by
    rw [List.length_drop, length_take_magic hm]
  by_cases hzero : i = 0
  · subst hzero
    rw [List.drop_zero, Nat.sub_zero] at hlength
    rw [List.drop_zero] at hbegins
    have hbreak := hbegins.getElem? hm (by rw [List.length_append, hlength]; simp)
    rw [List.getElem?_append_right (Nat.le_of_eq hlength), hlength, Nat.sub_self] at hbreak
    exact hbyte hbreak.symm
  · -- Another start would put a later byte of the magic word first.
    have hhead := hbegins.getElem? (show 0 < 8 by decide) (by
      rw [List.length_append, hlength]
      omega)
    rw [List.getElem?_append_left (by omega), List.getElem?_drop,
      List.getElem?_take_of_lt (by omega), Nat.add_zero] at hhead
    exact magic_head (Nat.pos_of_ne_zero hzero) (Nat.lt_trans hi hm) hhead

/-- The broken match is passed over. -/
theorem locate_broken {m : Nat} {byte : UInt8} {rest : Bytes} (hm : m < 8)
    (hbyte : magic[m]? ≠ some byte) :
    locate (magic.take m ++ byte :: rest) =
        (locate (byte :: rest)).map (fun (before, found) => (before + m, found)) ∧
      undecided (magic.take m ++ byte :: rest) = undecided (byte :: rest) := by
  have hnone : ∀ i < (magic.take m).length, ¬ Begins ((magic.take m).drop i ++ byte :: rest) := by
    intro i hi
    apply not_begins_partial hm hbyte
    rwa [length_take_magic hm] at hi
  have hpass := locate_pass hnone
  rwa [length_take_magic hm] at hpass

/-- A byte that does not begin the magic word is passed over. -/
theorem locate_other {byte : UInt8} {rest : Bytes} (h : magic.head? ≠ some byte) :
    locate (byte :: rest) = (locate rest).map (fun (before, found) => (before + 1, found)) ∧
      undecided (byte :: rest) = undecided rest := by
  have hnone : ∀ i < [byte].length, ¬ Begins ([byte].drop i ++ rest) := by
    intro i hi hbegins
    obtain rfl : i = 0 := Nat.lt_one_iff.mp hi
    apply h
    exact (hbegins.getElem? (show 0 < 8 by decide) (Nat.succ_pos _)).symm
  exact locate_pass hnone

/-- The unfinished match at the end of the bytes is what is undecided. -/
theorem undecided_partial {m : Nat} (hm : m < 8) :
    locate (magic.take m) = none ∧ undecided (magic.take m) = m := by
  have hall : ∀ m : Fin 8,
      locate (magic.take m.val) = none ∧ undecided (magic.take m.val) = m.val := by decide
  exact hall ⟨m, hm⟩

/-! ## The hunt -/

/-- What the hunt comes to: a header after the leftmost magic word, or the end of the bytes. -/
def huntResult (limit : Nat) (tally : Tally) (bytes : Bytes) : Scan :=
  match locate bytes with
  | some (before, found) =>
    scan limit (.inHeader Phase.fieldBytes []) (tally.skip before) (found.drop magic.length)
  | none => .starved (tally.skip (bytes.length - undecided bytes))

theorem huntResult_pass {limit m : Nat} {tally : Tally} {bytes rest : Bytes}
    (hlocate : locate bytes = (locate rest).map fun (before, found) => (before + m, found))
    (hundecided : undecided bytes = undecided rest) (hlength : bytes.length = rest.length + m) :
    huntResult limit tally bytes = huntResult limit (tally.skip m) rest := by
  have hle := undecided_le rest
  unfold huntResult
  rw [hlocate, hundecided, hlength]
  cases locate rest with
  | none =>
    simp only [Option.map_none, Tally.skip_skip]
    congr 2
    omega
  | some pair => simp only [Option.map_some, Tally.skip_skip, Nat.add_comm]

/-- The hunt, from a match of any length on. -/
theorem scan_hunting (limit : Nat) {m : Nat} (hm : m < 8) (tally : Tally) (bytes : Bytes) :
    scan limit (.hunting m) tally bytes = huntResult limit tally (magic.take m ++ bytes) := by
  -- The match is as if it stood before the bytes still to come.
  induction bytes generalizing m tally with
  | nil =>
    obtain ⟨hnone, hundecided⟩ := undecided_partial hm
    rw [List.append_nil]
    unfold huntResult
    rw [hnone, hundecided, length_take_magic hm, Nat.sub_self]
    rfl
  | cons byte rest ih =>
    rw [scan_cons]
    simp only [Phase.accept]
    by_cases hmatch : magic[m]? = some byte
    · rw [if_pos hmatch]
      have hgrow : magic.take m ++ byte :: rest = magic.take (m + 1) ++ rest := by
        rw [List.take_add_one, hmatch]
        simp
      rw [hgrow]
      by_cases hfull : m + 1 = magic.length
      · rw [if_pos hfull, hfull, List.take_length]
        unfold huntResult
        rw [locate_at_front (List.prefix_append magic rest)]
        rfl
      · rw [if_neg hfull]
        have hm' : m + 1 < 8 := Nat.lt_of_le_of_ne hm hfull
        exact ih hm' tally
    · rw [if_neg hmatch]
      obtain ⟨hlocate, hundecided⟩ := @locate_broken m byte rest hm hmatch
      have hlength : (magic.take m ++ byte :: rest).length = (byte :: rest).length + m := by
        rw [List.length_append, length_take_magic hm, Nat.add_comm]
      rw [huntResult_pass hlocate hundecided hlength]
      by_cases hagain : magic.head? = some byte
      · rw [if_pos hagain]
        have hone : byte :: rest = magic.take 1 ++ rest := by
          cases hagain
          rfl
        rw [hone]
        exact ih (by decide) (tally.skip m)
      · rw [if_neg hagain]
        obtain ⟨hlocate', hundecided'⟩ := @locate_other byte rest hagain
        rw [huntResult_pass hlocate' hundecided' List.length_cons, Tally.skip_skip]
        exact ih (by decide) (tally.skip (m + 1))

end FireControl.Wire
