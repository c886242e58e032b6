import FireControl.Proofs.Wire.Layout
import FireControl.Wire.Cursor

/-!
# Walking through any body

Whatever the bytes are, reading loses none of them: what was read, encoded again, stands in front of
what is left (`readWord_eq_ok`, `Header.decode_eq_ok`, `Record.decode_eq_ok`), and a record cannot
be read exactly where the bytes are too short for it (`Record.decode_eq_error`). So a walk finds the
records that stand in front of the body, and it ends where none is due or with one fault
(`Record.walk_ends`). A cursor makes the same walk, gives nothing after its end, and its index stays
within 32 bits (`Cursor.items_eq`).
-/

namespace FireControl.Wire

/-! ## Reading loses nothing -/

/-- A computation that goes on after another one succeeds when both do. -/
theorem bind_eq_ok {α β : Type} {x : Except FrameError α} {f : α → Except FrameError β} {b : β} :
    (x >>= f) = .ok b ↔ ∃ a, x = .ok a ∧ f a = .ok b := by
  cases x with
  | error e => simp [bind, Except.bind]
  | ok a => simp [bind, Except.bind]

theorem read_eq_ok {count : Nat} {bytes front rest : Bytes} :
    read count bytes = .ok (front, rest) ↔ bytes = front ++ rest ∧ front.length = count := by
  rw [← Bytes.take?_eq_some]
  unfold read
  cases bytes.take? count with
  | none => simp
  | some split => simp

theorem read_of_short {count : Nat} {bytes : Bytes} (h : bytes.length < count) :
    read count bytes = .error (.truncated count bytes.length) := by
  unfold read
  rw [Bytes.take?_eq_none.mpr h]

theorem readWord_eq_ok {bytes rest : Bytes} {w : UInt32} :
    readWord bytes = .ok (w, rest) ↔ bytes = Bytes.ofWord w ++ rest := by
  constructor
  · intro h
    unfold readWord at h
    cases hread : read 4 bytes with
    | error e =>
      rw [hread] at h
      cases h
    | ok split =>
      rw [hread] at h
      cases h
      obtain ⟨hbytes, hlength⟩ := read_eq_ok.mp hread
      rw [Bytes.ofWord_toWord hlength]
      exact hbytes
  · rintro rfl
    exact readWord_ofWord w rest

theorem readWord_of_short {bytes : Bytes} (h : bytes.length < 4) :
    readWord bytes = .error (.truncated 4 bytes.length) := by
  unfold readWord
  rw [read_of_short h]
  rfl

namespace Header

theorem readFields_eq_ok {bytes rest : Bytes} {h : Header} :
    readFields bytes = .ok (h, rest) ↔ bytes = h.fields.flatMap Bytes.ofWord ++ rest := by
  constructor
  · intro hread
    unfold readFields at hread
    obtain ⟨⟨version, rest⟩, h0, hread⟩ := bind_eq_ok.mp hread
    obtain ⟨⟨totalLength, rest⟩, h1, hread⟩ := bind_eq_ok.mp hread
    obtain ⟨⟨platform, rest⟩, h2, hread⟩ := bind_eq_ok.mp hread
    obtain ⟨⟨frameNumber, rest⟩, h3, hread⟩ := bind_eq_ok.mp hread
    obtain ⟨⟨cycles, rest⟩, h4, hread⟩ := bind_eq_ok.mp hread
    obtain ⟨⟨detectedObjects, rest⟩, h5, hread⟩ := bind_eq_ok.mp hread
    obtain ⟨⟨recordCount, rest⟩, h6, hread⟩ := bind_eq_ok.mp hread
    obtain ⟨⟨subframeNumber, rest⟩, h7, hread⟩ := bind_eq_ok.mp hread
    cases hread
    simp only [readWord_eq_ok] at h0 h1 h2 h3 h4 h5 h6 h7
    simp only [fields, List.flatMap_cons, List.flatMap_nil, List.append_assoc, List.nil_append,
      h0, h1, h2, h3, h4, h5, h6, h7]
  · rintro rfl
    exact readFields_encode h rest

theorem decode_eq_ok {bytes rest : Bytes} {h : Header} :
    decode bytes = .ok (h, rest) ↔ bytes = h.encode ++ rest := by
  constructor
  · intro hread
    unfold decode at hread
    obtain ⟨⟨front, behind⟩, hfront, hfields⟩ := bind_eq_ok.mp hread
    obtain ⟨hbytes, -⟩ := read_eq_ok.mp hfront
    dsimp only at hfields
    split at hfields
    · next hmagic =>
      rw [hbytes, hmagic, readFields_eq_ok.mp hfields, encode, List.append_assoc]
    · cases hfields
  · rintro rfl
    rw [encode, List.append_assoc, decode_magic]
    exact readFields_encode h rest

end Header

namespace Record

theorem decode_eq_ok {bytes rest : Bytes} {r : Record} :
    decode bytes = .ok (r, rest) ↔ bytes = r.encode ++ rest ∧ r.payload.length < 2 ^ 32 := by
  constructor
  · intro hread
    unfold decode at hread
    obtain ⟨⟨kind, rest⟩, hkind, hread⟩ := bind_eq_ok.mp hread
    obtain ⟨⟨length, rest⟩, hlength, hread⟩ := bind_eq_ok.mp hread
    obtain ⟨⟨payload, rest⟩, hpayload, hread⟩ := bind_eq_ok.mp hread
    cases hread
    obtain ⟨rfl, hcount⟩ := read_eq_ok.mp hpayload
    have hstated : UInt32.ofNat payload.length = length := by
      rw [hcount]
      exact UInt32.ofNat_toNat
    refine ⟨?_, hcount ▸ length.toNat_lt⟩
    rw [readWord_eq_ok.mp hkind, readWord_eq_ok.mp hlength, encode, Record.length, hstated,
      List.append_assoc, List.append_assoc]
  · rintro ⟨rfl, hlength⟩
    exact decode_encode hlength rest

/-- The bytes are too short for the two words before a payload, or for the payload they announce. -/
def TooShort (bytes : Bytes) : Prop :=
  bytes.length < 8 ∨ bytes.length < 8 + (wordAt 4 bytes).toNat

/-- What the read that runs short asks for, and what it finds. -/
def shortfall (bytes : Bytes) : Nat × Nat :=
  if bytes.length < 4 then (4, bytes.length)
  else if bytes.length < 8 then (4, bytes.length - 4)
  else ((wordAt 4 bytes).toNat, bytes.length - 8)

theorem decode_of_short {bytes : Bytes} (h : TooShort bytes) :
    decode bytes = .error (.truncated (shortfall bytes).1 (shortfall bytes).2) := by
  unfold decode shortfall
  by_cases hkind : bytes.length < 4
  · rw [if_pos hkind, readWord_of_short hkind]
    rfl
  · rw [if_neg hkind, readWord_of_le (Nat.le_of_not_lt hkind)]
    have hdrop : (bytes.drop 4).length = bytes.length - 4 := List.length_drop
    by_cases hlength : bytes.length < 8
    · rw [if_pos hlength]
      have hshort : (bytes.drop 4).length < 4 := by omega
      simp only [bind, Except.bind, readWord_of_short hshort, hdrop]
    · rw [if_neg hlength]
      have hrest : ((bytes.drop 4).drop 4).length = bytes.length - 8 := by
        rw [List.length_drop, hdrop]
        omega
      have hshort : ((bytes.drop 4).drop 4).length < (wordAt 4 bytes).toNat := by
        rw [hrest]
        rcases h with h | h <;> omega
      simp only [bind, Except.bind, readWord_of_le (show 4 ≤ (bytes.drop 4).length by omega)]
      rw [show Bytes.toWord ((bytes.drop 4).take 4) = wordAt 4 bytes from rfl,
        read_of_short hshort, hrest]

theorem decode_of_long {bytes : Bytes} (h : ¬ TooShort bytes) :
    ∃ r rest, decode bytes = .ok (r, rest) := by
  obtain ⟨hfront, hpayload⟩ := not_or.mp h
  have hdrop : (bytes.drop 4).length = bytes.length - 4 := List.length_drop
  have hrest : (wordAt 4 bytes).toNat ≤ ((bytes.drop 4).drop 4).length := by
    rw [List.length_drop, hdrop]
    omega
  unfold decode
  rw [readWord_of_le (by omega)]
  simp only [bind, Except.bind, readWord_of_le (show 4 ≤ (bytes.drop 4).length by omega)]
  rw [show Bytes.toWord ((bytes.drop 4).take 4) = wordAt 4 bytes from rfl, read_of_le hrest]
  exact ⟨_, _, rfl⟩

/-- A record can be read exactly where the bytes are long enough for it. -/
theorem decode_eq_error {bytes : Bytes} {e : FrameError} :
    decode bytes = .error e ↔
      TooShort bytes ∧ e = .truncated (shortfall bytes).1 (shortfall bytes).2 := by
  constructor
  · intro hread
    have hshort : TooShort bytes := by
      by_contra hlong
      obtain ⟨r, rest, hok⟩ := decode_of_long hlong
      rw [hok] at hread
      cases hread
    rw [decode_of_short hshort] at hread
    exact ⟨hshort, (Except.error.inj hread).symm⟩
  · rintro ⟨hshort, rfl⟩
    exact decode_of_short hshort

/-! ## Walks -/

/-- What is due after a number of records. -/
def Due.after (due : Due) (n : Nat) : Due :=
  match due with
  | .counted remaining => .counted (remaining - n)
  | .untilEnd => .untilEnd

theorem Due.after_next (due : Due) (n : Nat) : due.next.after n = due.after (n + 1) := by
  cases due with
  | counted remaining => exact congrArg Due.counted (by omega)
  | untilEnd => rfl

/-- The ways in which a walk from record `index` on ends that found some records and left some
bytes. -/
inductive Ends (due : Due) (index : Nat) (found : List Record) (left : Bytes) :
    List (Except FrameError Record) → Prop
  | finished : (due.after found.length).isOver left = true →
      Ends due index found left (found.map .ok)
  | short : (due.after found.length).isOver left = false → TooShort left →
      Ends due index found left (found.map .ok ++
        [.error (.truncatedRecord (index + found.length) (shortfall left).1 (shortfall left).2)])

theorem Ends.cons {due : Due} {index : Nat} {found : List Record} {left : Bytes}
    {items : List (Except FrameError Record)} (r : Record)
    (h : Ends due.next (index + 1) found left items) :
    Ends due index (r :: found) left (.ok r :: items) := by
  cases h with
  | finished hover =>
    rw [Due.after_next] at hover
    exact .finished hover
  | short hover hshort =>
    rw [Due.after_next] at hover
    have hindex : index + 1 + found.length = index + (found.length + 1) := by omega
    rw [hindex]
    exact .short hover hshort

/-- A walk finds the records that stand in front of the bytes. -/
theorem walk_ends (due : Due) (index : Nat) (bytes : Bytes) :
    ∃ found left, bytes = found.flatMap encode ++ left ∧
      Ends due index found left (walk due index bytes) := by
  fun_induction walk due index bytes with
  | case1 due index bytes hover => exact ⟨[], bytes, rfl, .finished (by cases due <;> exact hover)⟩
  | case2 due index bytes hover e hread =>
    obtain ⟨hshort, rfl⟩ := decode_eq_error.mp hread
    have hdue : (due.after 0).isOver bytes = false := by
      cases due <;> exact eq_false_of_ne_true hover
    exact ⟨[], bytes, rfl, .short hdue hshort⟩
  | case3 due index bytes hover r rest hread ih =>
    obtain ⟨found, left, rfl, hends⟩ := ih
    obtain ⟨rfl, -⟩ := decode_eq_ok.mp hread
    exact ⟨r :: found, left, by rw [List.flatMap_cons, List.append_assoc], hends.cons r⟩

/-- An announced number of records is not exceeded. -/
theorem length_walk_le {due : Due} {count : Nat} (hdue : due = .counted count) (index : Nat)
    (bytes : Bytes) : (walk due index bytes).length ≤ count := by
  fun_induction walk due index bytes generalizing count with
  | case1 => exact Nat.zero_le count
  | case2 due index bytes hover =>
    subst hdue
    exact Nat.pos_of_ne_zero fun hzero => hover (beq_iff_eq.mpr hzero)
  | case3 due index bytes hover r rest hread ih =>
    subst hdue
    have hpos : 0 < count := Nat.pos_of_ne_zero fun hzero => hover (beq_iff_eq.mpr hzero)
    have hlater := ih rfl
    rw [List.length_cons]
    omega

end Record

/-! ## Cursors -/

namespace Cursor

/-- The records that are due at a cursor. -/
def due (c : Cursor) : Record.Due :=
  match c.count with
  | some count => .counted (count.toNat - c.index)
  | none => .untilEnd

/-- The index will not leave 32 bits: each record takes at least one byte. -/
def Bounded (c : Cursor) : Prop := c.count = none → c.index + c.rest.length < 4294967296

variable {c c' : Cursor}

theorem isOver_eq (c : Cursor) : c.isOver = c.due.isOver c.rest := by
  unfold isOver due
  cases c.count with
  | none => rfl
  | some count =>
    show decide (count.toNat ≤ c.index) = (count.toNat - c.index == 0)
    rw [Bool.eq_iff_iff, decide_eq_true_iff, beq_iff_eq]
    omega

/-- Where a record is due, its index and the next one fit 32 bits. -/
theorem Bounded.index (h : c.Bounded) (hdue : c.isOver = false) :
    Checked.nat32 .add (c.index + 1) = .ok (c.index + 1) := by
  rw [Checked.nat32_eq_ok]
  refine ⟨?_, rfl⟩
  unfold isOver at hdue
  cases hcount : c.count with
  | none =>
    rw [hcount] at hdue
    have hbound := h hcount
    have hpos : c.rest.length ≠ 0 := fun hzero => by
      rw [List.length_eq_zero_iff.mp hzero] at hdue
      cases hdue
    omega
  | some count =>
    rw [hcount] at hdue
    have hlt := count.toNat_lt
    have hmore : ¬ count.toNat ≤ c.index := of_decide_eq_false hdue
    omega

theorem items_ended (n : Nat) (h : (c.stopped || c.isOver) = true) :
    c.items n = .ok (List.replicate n none) := by
  induction n with
  | zero => rfl
  | succ n ih =>
    have hnext : c.next = .ok (none, c) := by
      unfold next
      rw [if_pos h]
    unfold items
    simp only [hnext, ih, bind, Except.bind]
    rfl

/-- The calls of a cursor give the records of the walk, and nothing after its end. -/
theorem items_eq (hc : c.Bounded) (hstopped : c.stopped = false) (n : Nat) :
    c.items ((Record.walk c.due c.index c.rest).length + n) =
      .ok ((Record.walk c.due c.index c.rest).map some ++ List.replicate n none) := by
  induction hlength : c.rest.length using Nat.strongRecOn generalizing c with
  | ind length ih =>
    rw [Record.walk]
    cases hover : c.isOver with
    | true =>
      have hended : (c.stopped || c.isOver) = true := by rw [hover, Bool.or_true]
      rw [← isOver_eq, if_pos hover, List.length_nil, Nat.zero_add]
      exact items_ended n hended
    | false =>
      have hgoes : ¬ (c.stopped || c.isOver) = true := by simp [hstopped, hover]
      rw [← isOver_eq, if_neg (by simp [hover])]
      split
      · next e hread =>
        rw [List.length_singleton, Nat.add_comm]
        unfold items next
        simp only [if_neg hgoes, hc.index hover, hread, bind, Except.bind, pure, Except.pure]
        rw [items_ended n rfl]
        rfl
      · next r rest hread =>
        -- The cursor behind the record walks on as the walk does.
        have hshorter := Record.decode_shortens hread
        have hfront : Record.frontLength = 8 := rfl
        have hnext : ({ c with rest, index := c.index + 1 } : Cursor).due = c.due.next := by
          unfold due
          cases c.count <;> rfl
        have hbounded : ({ c with rest, index := c.index + 1 } : Cursor).Bounded := by
          intro hcount
          have hbound := hc hcount
          show c.index + 1 + rest.length < 4294967296
          omega
        have hlater := ih rest.length (by omega) hbounded hstopped rfl
        rw [hnext] at hlater
        rw [List.length_cons, Nat.add_right_comm]
        unfold items next
        simp only [if_neg hgoes, hc.index hover, hread, bind, Except.bind, pure, Except.pure]
        rw [hlater]
        rfl

end Cursor

end FireControl.Wire
