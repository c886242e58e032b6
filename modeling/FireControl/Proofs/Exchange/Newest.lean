import FireControl.Exchange.Latest

/-!
# What a receiver of a latest-value channel takes

A channel is used by its sender and any number of receivers in any order (`Used`). What a receiver
has not seen is what was published after the last point at which it caught up; a copied receiver
goes on from the point of the one it was copied from (`sinceSeen`, `unseen`). The channel keeps of
this a count only, and it is enough: `keeps` says so after every use, with one lemma for each way in
which a deed can move a count. Since every take is counted as seeing, no publication is taken twice
or out of order (`ordered`), and once the sender is gone nothing new can be unseen
(`unseen_after_close`). `each_value_is_taken_once` puts it together.
-/

namespace FireControl.Exchange.Latest

/-! ## Using a channel -/

/-- What can be done to a channel; receivers go by their numbers. -/
inductive Act (α : Type) where
  | publish (value : α)
  | take (i : Nat)
  | peek (i : Nat)
  | changed (i : Nat)
  | clone (i : Nat)
  | subscribe
  | leave (i : Nat)
  | close

inductive Answer (α : Type) where
  | value (value : Option α)
  | change (change : Change)
  | number (i : Nat)
  | done

/-- Something that was done, and the answer to it. -/
structure Deed (α : Type) where
  act : Act α
  answer : Answer α

variable {α : Type}

def perform (c : Latest α) : Act α → Answer α × Latest α
  | .publish value => (.done, c.publish value)
  | .take i => (.value (c.take i).1, (c.take i).2)
  | .peek _ => (.value c.peek, c)
  | .changed i => (.change (c.changed i).1, (c.changed i).2)
  | .clone i => (.number (c.clone i).1, (c.clone i).2)
  | .subscribe => (.number c.subscribe.1, c.subscribe.2)
  | .leave i => (.done, c.leave i)
  | .close => (.done, c.close)

/-- Whether each receiver that ever came is still there; the first comes with the channel. -/
def roster : List (Deed α) → List Bool
  | [] => [true]
  | d :: past =>
    match d.act with
    | .clone _ => roster past ++ [true]
    | .subscribe => roster past ++ [true]
    | .leave i => (roster past).modify i fun _ => false
    | _ => roster past

/-- Whether the sender is still there. -/
def stillOpen : List (Deed α) → Bool
  | [] => true
  | d :: past =>
    match d.act with
    | .close => false
    | _ => stillOpen past

def Present (past : List (Deed α)) (i : Nat) : Prop := (roster past)[i]? = some true

/-- A sender or a receiver that has gone cannot be used. -/
def Allowed (past : List (Deed α)) : Act α → Prop
  | .publish _ => stillOpen past
  | .take i => Present past i
  | .peek i => Present past i
  | .changed i => Present past i
  | .clone i => Present past i
  | .subscribe => stillOpen past
  | .leave i => Present past i
  | .close => stillOpen past

/-- The deeds so far on a new channel, latest first, and the channel that they lead to. -/
inductive Used : List (Deed α) → Latest α → Prop
  | start : Used [] {}
  | act {past : List (Deed α)} {c : Latest α} (a : Act α) : Used past c → Allowed past a →
      Used (⟨a, (c.perform a).1⟩ :: past) (c.perform a).2

/-! ## What was published, seen and taken -/

namespace Deed

def published? (d : Deed α) : Option α :=
  match d.act with
  | .publish value => some value
  | _ => none

/-- Receiver `i` took a value, noticed a change or has just subscribed: it has seen all so far. -/
def catchesUp (i : Nat) (d : Deed α) : Bool :=
  match d.act, d.answer with
  | .take j, .value (some _) => j == i
  | .changed j, .change .changed => j == i
  | .subscribe, .number j => j == i
  | _, _ => false

/-- The receiver whose seen point is that of `i` before the deed: the copied one, if the deed made
`i` by copying. -/
def origin (i : Nat) (d : Deed α) : Nat :=
  match d.act, d.answer with
  | .clone j, .number k => if k = i then j else i
  | _, _ => i

/-- The value that the deed brought receiver `i` as its own. -/
def taken? (i : Nat) (d : Deed α) : Option α :=
  match d.act, d.answer with
  | .take j, .value value => if j = i then value else none
  | _, _ => none

end Deed

/-- All values published, latest first. -/
def issued (past : List (Deed α)) : List α := past.filterMap (·.published?)

/-- The deeds since the seen point of receiver `i`, latest first. -/
def sinceSeen : Nat → List (Deed α) → List (Deed α)
  | _, [] => []
  | i, d :: past => if d.catchesUp i then [] else d :: sinceSeen (d.origin i) past

/-- The values published since the seen point of receiver `i`, latest first. -/
def unseen (i : Nat) (past : List (Deed α)) : List α := issued (sinceSeen i past)

/-- The values that receiver `i` took, latest first, each with the number of values that had been
published when it was taken. -/
def takes (i : Nat) : List (Deed α) → List (Nat × α)
  | [] => []
  | d :: past =>
    match d.taken? i with
    | some value => ((issued past).length, value) :: takes i past
    | none => takes i past

section Histories
variable {past : List (Deed α)} {d : Deed α} {i : Nat}

theorem issued_cons (d : Deed α) (past : List (Deed α)) :
    issued (d :: past) = d.published?.toList ++ issued past := by
  unfold issued
  cases h : d.published? with
  | none => simp [h]
  | some value => simp [h]

theorem unseen_cons (hcatch : d.catchesUp i = false) :
    unseen i (d :: past) = d.published?.toList ++ unseen (d.origin i) past := by
  rw [unseen, sinceSeen, hcatch]
  exact issued_cons ..

theorem unseen_caughtUp (hcatch : d.catchesUp i = true) : unseen i (d :: past) = [] := by
  rw [unseen, sinceSeen, hcatch]
  rfl

theorem sinceSeen_isPrefix (i : Nat) (past : List (Deed α)) : sinceSeen i past <+: past := by
  induction past generalizing i with
  | nil => exact List.prefix_rfl
  | cons d past ih =>
    unfold sinceSeen
    split
    · exact List.nil_prefix
    · exact List.cons_prefix_cons.mpr ⟨rfl, ih _⟩

/-- The unseen values are the newest ones. -/
theorem unseen_isPrefix (i : Nat) (past : List (Deed α)) : unseen i past <+: issued past :=
  (sinceSeen_isPrefix i past).filterMap _

theorem head_unseen (h : unseen i past ≠ []) : (unseen i past).head? = (issued past).head? := by
  obtain ⟨older, hall⟩ := unseen_isPrefix i past
  cases hunseen : unseen i past with
  | nil => exact absurd hunseen h
  | cons value rest =>
    rw [← hall, hunseen]
    rfl

theorem lt_of_present (h : Present past i) : i < (roster past).length :=
  (List.getElem?_eq_some_iff.mp h).1

/-- A receiver keeps its number. -/
theorem length_roster_le (d : Deed α) (past : List (Deed α)) :
    (roster past).length ≤ (roster (d :: past)).length := by
  obtain ⟨act, answer⟩ := d
  cases act with
  | clone | subscribe =>
    show _ ≤ (roster past ++ [true]).length
    rw [List.length_append]
    exact Nat.le_add_right _ _
  | leave j =>
    show _ ≤ ((roster past).modify j _).length
    exact Nat.le_of_eq (List.length_modify ..).symm
  | publish | take | peek | changed | close => exact Nat.le_refl _

/-- A receiver that had come before the deed and is there after it was there before it. -/
theorem Present.of_cons (hi : i < (roster past).length) (h : Present (d :: past) i) :
    Present past i := by
  obtain ⟨act, answer⟩ := d
  cases act with
  | clone | subscribe =>
    change (roster past ++ [true])[i]? = some true at h
    rwa [List.getElem?_append_left hi] at h
  | leave j =>
    change ((roster past).modify j _)[i]? = some true at h
    by_cases heq : j = i
    · subst heq
      rw [List.getElem?_modify_eq] at h
      obtain ⟨r, -, hr⟩ := Option.map_eq_some_iff.mp h
      cases hr
    · rwa [List.getElem?_modify_ne _ _ heq] at h
  | publish | take | peek | changed | close => exact h

end Histories

/-! ## What the channel keeps of it -/

section Runs
variable {past later : List (Deed α)} {c c' : Latest α} {d : Deed α} {i j : Nat}

/-- The invariant of a channel in use. -/
structure Keeps (past : List (Deed α)) (c : Latest α) : Prop where
  newest : c.newest = (issued past).head?
  published : c.published = (issued past).length
  isOpen : c.isOpen = stillOpen past
  roster : c.seen.map Option.isSome = roster past
  seen : ∀ i, Present past i →
    ∃ n, c.seenBy i = some n ∧ n + (unseen i past).length = c.published

theorem Keeps.length (h : Keeps past c) : c.seen.length = (Latest.roster past).length := by
  rw [← h.roster, List.length_map]

theorem Keeps.hasUnseen (h : Keeps past c) (hi : Present past i) :
    c.hasUnseen i = !(unseen i past).isEmpty := by
  obtain ⟨n, hseen, hcount⟩ := h.seen i hi
  unfold Latest.hasUnseen
  rw [hseen]
  cases hunseen : unseen i past with
  | nil =>
    rw [hunseen] at hcount
    simpa using hcount
  | cons value rest =>
    rw [hunseen, List.length_cons] at hcount
    simp
    omega

/-- Who has nothing unseen takes nothing; who has takes the newest value. -/
theorem Keeps.take (h : Keeps past c) (hi : Present past i) :
    c.take i = if stillOpen past = true ∧ unseen i past ≠ [] then
      ((unseen i past).head?, c.markSeen i) else (none, c) := by
  unfold Latest.take
  rw [h.hasUnseen hi, h.isOpen]
  cases hopen : stillOpen past with
  | false => simp
  | true =>
    cases hunseen : unseen i past with
    | nil => simp
    | cons value rest =>
      have hnewest : c.newest = some value := by
        rw [h.newest, ← head_unseen (by rw [hunseen]; exact List.cons_ne_nil _ _), hunseen]
        rfl
      simp [hnewest]

theorem Keeps.changed (h : Keeps past c) (hi : Present past i) :
    c.changed i = if unseen i past ≠ [] then (.changed, c.markSeen i)
      else (if stillOpen past then .pending else .closed, c) := by
  unfold Latest.changed
  rw [h.hasUnseen hi, h.isOpen]
  cases unseen i past with
  | nil => cases stillOpen past <;> rfl
  | cons value rest => rfl

theorem seenBy_markSeen_self (hi : i < c.seen.length) :
    (c.markSeen i).seenBy i = some c.published := by
  unfold seenBy markSeen
  rw [List.getElem?_set_self hi]
  rfl

theorem seenBy_markSeen_ne (hne : i ≠ j) : (c.markSeen i).seenBy j = c.seenBy j := by
  unfold seenBy markSeen
  rw [List.getElem?_set_ne hne]

theorem seenBy_clone_old {seen : Option Nat} (hi : i < c.seen.length) :
    seenBy { c with seen := c.seen ++ [seen] } i = c.seenBy i := by
  unfold seenBy
  rw [List.getElem?_append_left hi]

theorem seenBy_clone_new (seen : Option Nat) :
    seenBy { c with seen := c.seen ++ [seen] } c.seen.length = seen := by
  unfold seenBy
  rw [List.getElem?_concat_length]
  rfl

/-- A deed without publication, after which every receiver is where it was, leaves the counts. -/
theorem Keeps.still (h : Keeps past c) (hpublished : d.published? = none)
    (hopen : stillOpen (d :: past) = stillOpen past)
    (hroster : Latest.roster (d :: past) = Latest.roster past) (horigin : ∀ i, d.origin i = i)
    (hcatch : ∀ i, d.catchesUp i = false) : Keeps (d :: past) c := by
  have hsame : issued (d :: past) = issued past := by
    rw [issued_cons, hpublished]
    rfl
  refine ⟨?_, ?_, h.isOpen.trans hopen.symm, h.roster.trans hroster.symm, ?_⟩
  · rw [hsame]
    exact h.newest
  · rw [hsame]
    exact h.published
  · intro i hi
    unfold Present at hi
    rw [hroster] at hi
    rw [unseen_cons (hcatch i), hpublished, horigin]
    exact h.seen i hi

/-- A deed by which receiver `j` catches up moves its count to the number of publications. -/
theorem Keeps.caughtUp (h : Keeps past c) (hj : Present past j) (hpublished : d.published? = none)
    (hopen : stillOpen (d :: past) = stillOpen past)
    (hroster : Latest.roster (d :: past) = Latest.roster past) (horigin : ∀ i, d.origin i = i)
    (hcatch : ∀ i, d.catchesUp i = (j == i)) : Keeps (d :: past) (c.markSeen j) := by
  have hsame : issued (d :: past) = issued past := by
    rw [issued_cons, hpublished]
    rfl
  have hlt : j < c.seen.length := h.length ▸ lt_of_present hj
  refine ⟨?_, ?_, h.isOpen.trans hopen.symm, ?_, ?_⟩
  · rw [hsame]
    exact h.newest
  · rw [hsame]
    exact h.published
  · -- The receiver was there before, too.
    obtain ⟨hlt', htrue⟩ := List.getElem?_eq_some_iff.mp hj
    have hsome : Option.isSome (some c.published) = (Latest.roster past)[j] := htrue.symm
    rw [hroster]
    show (c.seen.set j (some c.published)).map Option.isSome = Latest.roster past
    rw [List.map_set, h.roster, hsome]
    exact List.set_getElem_self hlt'
  · intro i hi
    unfold Present at hi
    rw [hroster] at hi
    by_cases heq : j = i
    · subst heq
      refine ⟨c.published, seenBy_markSeen_self hlt, ?_⟩
      rw [unseen_caughtUp (by rw [hcatch]; exact beq_self_eq_true j)]
      rfl
    · rw [unseen_cons (by rw [hcatch]; exact beq_false_of_ne heq), hpublished, horigin,
        seenBy_markSeen_ne heq]
      exact h.seen i hi

/-- A new receiver comes with the count that stands for what it has seen. -/
theorem Keeps.joined {seen : Nat} (h : Keeps past c) (hpublished : d.published? = none)
    (hopen : stillOpen (d :: past) = stillOpen past)
    (hroster : Latest.roster (d :: past) = Latest.roster past ++ [true])
    (hold : ∀ i, i < c.seen.length → d.origin i = i ∧ d.catchesUp i = false)
    (hnew : seen + (unseen c.seen.length (d :: past)).length = c.published) :
    Keeps (d :: past) { c with seen := c.seen ++ [some seen] } := by
  have hsame : issued (d :: past) = issued past := by
    rw [issued_cons, hpublished]
    rfl
  refine ⟨?_, ?_, h.isOpen.trans hopen.symm, ?_, ?_⟩
  · rw [hsame]
    exact h.newest
  · rw [hsame]
    exact h.published
  · rw [hroster, ← h.roster, List.map_append]
    rfl
  · intro i hi
    unfold Present at hi
    rw [hroster] at hi
    by_cases hlt : i < c.seen.length
    · obtain ⟨horigin, hcatch⟩ := hold i hlt
      rw [List.getElem?_append_left (h.length ▸ hlt)] at hi
      rw [unseen_cons hcatch, hpublished, horigin, seenBy_clone_old hlt]
      exact h.seen i hi
    · have hle := (List.getElem?_eq_some_iff.mp hi).1
      rw [List.length_append, List.length_singleton, ← h.length] at hle
      obtain rfl : i = c.seen.length := by omega
      exact ⟨seen, seenBy_clone_new _, hnew⟩

theorem Keeps.publish (h : Keeps past c) (value : α) :
    Keeps (⟨.publish value, .done⟩ :: past) (c.publish value) where
  newest := rfl
  published := congrArg (· + 1) h.published
  isOpen := h.isOpen
  roster := h.roster
  seen i hi := by
    obtain ⟨n, hseen, hcount⟩ := h.seen i hi
    refine ⟨n, hseen, ?_⟩
    rw [unseen_cons rfl]
    exact congrArg (· + 1) hcount

theorem Keeps.look (h : Keeps past c) (hi : Present past i) :
    Keeps (⟨.take i, .value (c.take i).1⟩ :: past) (c.take i).2 := by
  rw [h.take hi]
  split
  · next hfresh =>
    cases hunseen : unseen i past with
    | nil => exact absurd hunseen hfresh.2
    | cons value rest => exact h.caughtUp hi rfl rfl rfl (fun _ => rfl) fun _ => rfl
  · exact h.still rfl rfl rfl (fun _ => rfl) fun _ => rfl

theorem Keeps.wait (h : Keeps past c) (hi : Present past i) :
    Keeps (⟨.changed i, .change (c.changed i).1⟩ :: past) (c.changed i).2 := by
  rw [h.changed hi]
  split
  · exact h.caughtUp hi rfl rfl rfl (fun _ => rfl) fun _ => rfl
  · cases stillOpen past with
    | true => exact h.still rfl rfl rfl (fun _ => rfl) fun _ => rfl
    | false => exact h.still rfl rfl rfl (fun _ => rfl) fun _ => rfl

theorem Keeps.clone (h : Keeps past c) (hi : Present past i) :
    Keeps (⟨.clone i, .number (c.clone i).1⟩ :: past) (c.clone i).2 := by
  obtain ⟨n, hseen, hcount⟩ := h.seen i hi
  unfold Latest.clone
  rw [hseen]
  refine h.joined rfl rfl rfl ?_ ?_
  · intro k hk
    exact ⟨if_neg (Nat.ne_of_gt hk), rfl⟩
  · rw [unseen_cons rfl]
    have horigin : (⟨.clone i, .number c.seen.length⟩ : Deed α).origin c.seen.length = i :=
      if_pos rfl
    rw [horigin]
    exact hcount

theorem Keeps.subscribe (h : Keeps past c) :
    Keeps (⟨.subscribe, .number c.subscribe.1⟩ :: past) c.subscribe.2 := by
  refine h.joined rfl rfl rfl ?_ ?_
  · intro k hk
    exact ⟨rfl, beq_false_of_ne (Nat.ne_of_gt hk)⟩
  · have hcatch : (⟨.subscribe, .number c.subscribe.1⟩ : Deed α).catchesUp c.seen.length = true :=
      beq_self_eq_true c.seen.length
    rw [unseen_caughtUp hcatch]
    rfl

theorem Keeps.leave (h : Keeps past c) (j : Nat) :
    Keeps (⟨.leave j, .done⟩ :: past) (c.leave j) where
  newest := h.newest
  published := h.published
  isOpen := h.isOpen
  roster := by
    show (c.seen.set j none).map _ = (Latest.roster past).modify j _
    rw [← h.roster, List.map_set]
    apply List.ext_getElem?
    intro k
    by_cases hk : j = k
    · subst hk
      rw [List.getElem?_modify_eq, List.getElem?_set_self']
      rfl
    · rw [List.getElem?_modify_ne _ _ hk, List.getElem?_set_ne hk]
  seen i hi := by
    have hlt := lt_of_present hi
    change i < ((Latest.roster past).modify j _).length at hlt
    rw [List.length_modify] at hlt
    have hne : j ≠ i := by
      rintro rfl
      change ((Latest.roster past).modify j _)[j]? = some true at hi
      rw [List.getElem?_modify_eq] at hi
      obtain ⟨r, -, hr⟩ := Option.map_eq_some_iff.mp hi
      cases hr
    have hseen : (c.leave j).seenBy i = c.seenBy i := by
      unfold seenBy Latest.leave
      rw [List.getElem?_set_ne hne]
    rw [hseen]
    exact h.seen i (hi.of_cons hlt)

theorem Keeps.act (h : Keeps past c) {a : Act α} (ha : Allowed past a) :
    Keeps (⟨a, (c.perform a).1⟩ :: past) (c.perform a).2 := by
  cases a with
  | publish value => exact h.publish value
  | take i => exact h.look ha
  | peek i => exact h.still rfl rfl rfl (fun _ => rfl) fun _ => rfl
  | changed i => exact h.wait ha
  | clone i => exact h.clone ha
  | subscribe => exact h.subscribe
  | leave i => exact h.leave i
  | close => exact ⟨h.newest, h.published, rfl, h.roster, h.seen⟩

theorem keeps (h : Used past c) : Keeps past c := by
  induction h with
  | start =>
    refine ⟨rfl, rfl, rfl, rfl, ?_⟩
    intro i hi
    have hlt := lt_of_present hi
    obtain rfl : i = 0 := Nat.lt_one_iff.mp hlt
    exact ⟨0, rfl, rfl⟩
  | act a _ ha ih => exact ih.act ha

/-! ## Takes -/

theorem takes_cons_some {value : α} (h : d.taken? i = some value) :
    takes i (d :: past) = ((issued past).length, value) :: takes i past := by
  rw [takes, h]

theorem takes_cons_none (h : d.taken? i = none) : takes i (d :: past) = takes i past := by
  rw [takes, h]

/-- The values that receiver `i` took are publications in their order, each one the newest when it
was taken, and none of them is unseen. -/
structure Ordered (past : List (Deed α)) (i : Nat) : Prop where
  increasing : (takes i past).Pairwise fun later earlier => earlier.1 < later.1
  issued : ∀ n value, (n, value) ∈ takes i past →
    ∃ newer older, issued past = newer ++ value :: older ∧ older.length + 1 = n
  seen : ∀ taken ∈ takes i past, i < (roster past).length ∧
    (Present past i → taken.1 + (unseen i past).length ≤ (Latest.issued past).length)

/-- A take finds something unseen, and so goes beyond all takes before it. -/
theorem Ordered.take {value : α} (h : Ordered past i) (hi : Present past i)
    (hfresh : (unseen i past).head? = some value) :
    Ordered (⟨.take i, .value (some value)⟩ :: past) i := by
  have htaken : (⟨.take i, .value (some value)⟩ : Deed α).taken? i = some value := if_pos rfl
  have hnone : unseen i (⟨.take i, .value (some value)⟩ :: past) = [] :=
    unseen_caughtUp (beq_self_eq_true i)
  obtain ⟨rest, hunseen⟩ := List.head?_eq_some_iff.mp hfresh
  obtain ⟨older, hissued⟩ := unseen_isPrefix i past
  rw [hunseen, List.cons_append] at hissued
  refine ⟨?_, ?_, ?_⟩
  · rw [takes_cons_some htaken, List.pairwise_cons]
    refine ⟨?_, h.increasing⟩
    intro taken htakes
    have hbelow := (h.seen taken htakes).2 hi
    rw [hunseen, List.length_cons] at hbelow
    show taken.1 < (Latest.issued past).length
    omega
  · intro n v hmem
    rw [takes_cons_some htaken] at hmem
    show ∃ newer older, Latest.issued past = newer ++ v :: older ∧ older.length + 1 = n
    rcases List.mem_cons.mp hmem with heq | hmem
    · obtain ⟨rfl, rfl⟩ := Prod.mk.inj heq
      refine ⟨[], rest ++ older, hissued.symm, ?_⟩
      rw [← hissued]
      rfl
    · exact h.issued n v hmem
  · intro taken hmem
    refine ⟨lt_of_present hi, fun _ => ?_⟩
    rw [hnone]
    show taken.1 ≤ (Latest.issued past).length
    rw [takes_cons_some htaken] at hmem
    rcases List.mem_cons.mp hmem with rfl | hmem
    · exact Nat.le_refl _
    · have hbelow := (h.seen taken hmem).2 hi
      omega

/-- Any other deed leaves the takes, and adds to the unseen values only what it publishes. -/
theorem Ordered.still (h : Ordered past i) (htaken : d.taken? i = none)
    (horigin : i < (roster past).length → d.origin i = i) : Ordered (d :: past) i := by
  have hsame : takes i (d :: past) = takes i past := takes_cons_none htaken
  refine ⟨?_, ?_, ?_⟩
  · rw [hsame]
    exact h.increasing
  · intro n value hmem
    rw [hsame] at hmem
    obtain ⟨newer, older, hissued, hcount⟩ := h.issued n value hmem
    refine ⟨d.published?.toList ++ newer, older, ?_, hcount⟩
    rw [issued_cons, hissued, List.append_assoc]
  · intro taken hmem
    rw [hsame] at hmem
    obtain ⟨hlt, hbelow⟩ := h.seen taken hmem
    refine ⟨Nat.lt_of_lt_of_le hlt (length_roster_le d past), fun hi => ?_⟩
    have hbelow := hbelow (hi.of_cons hlt)
    cases hcatch : d.catchesUp i with
    | true =>
      rw [unseen_caughtUp hcatch, issued_cons, List.length_append, List.length_nil]
      omega
    | false =>
      rw [unseen_cons hcatch, issued_cons, horigin hlt, List.length_append, List.length_append]
      omega

/-- A receiver is made once. -/
theorem Keeps.origin (h : Keeps past c) (a : Act α) (hi : i < (Latest.roster past).length) :
    (⟨a, (c.perform a).1⟩ : Deed α).origin i = i := by
  cases a with
  | clone j => exact if_neg (Nat.ne_of_gt (show i < c.seen.length from h.length ▸ hi))
  | _ => rfl

theorem ordered (h : Used past c) (i : Nat) : Ordered past i := by
  induction h with
  | start => exact ⟨List.Pairwise.nil, nofun, nofun⟩
  | @act past c a hused ha ih =>
    have hkeeps := keeps hused
    have horigin : i < (roster past).length → _ := hkeeps.origin a
    cases a with
    | take j =>
      by_cases heq : j = i
      · subst heq
        show Ordered (⟨.take j, .value (c.take j).1⟩ :: past) j
        cases hanswer : (c.take j).1 with
        | none => exact ih.still (if_pos rfl) fun _ => rfl
        | some value =>
          rw [hkeeps.take ha] at hanswer
          split at hanswer
          · exact ih.take ha hanswer
          · cases hanswer
      · exact ih.still (if_neg heq) horigin
    | _ => exact ih.still rfl horigin

/-! ## After the sender has gone -/

theorem stillOpen_append (later : List (Deed α)) (h : stillOpen past = false) :
    stillOpen (later ++ past) = false := by
  induction later with
  | nil => exact h
  | cons d later ih =>
    obtain ⟨act, answer⟩ := d
    cases act with
    | close => rfl
    | _ => exact ih

theorem length_roster_append (later : List (Deed α)) (past : List (Deed α)) :
    (roster past).length ≤ (roster (later ++ past)).length := by
  induction later with
  | nil => exact Nat.le_refl _
  | cons d later ih => exact Nat.le_trans ih (length_roster_le d _)

/-- Without a sender nothing is published, so a receiver that has seen everything stays so. -/
theorem unseen_after_close (h : Used (later ++ past) c) (hclosed : stillOpen past = false)
    (hi : i < (roster past).length) (hnone : unseen i past = []) :
    unseen i (later ++ past) = [] := by
  induction later generalizing c with
  | nil => exact hnone
  | cons d later ih =>
    cases h with
    | @act _ c a hused ha =>
      have hopen := stillOpen_append later hclosed
      have horigin := (keeps hused).origin a
        (Nat.lt_of_lt_of_le hi (length_roster_append later past))
      have hpublished : (⟨a, (c.perform a).1⟩ : Deed α).published? = none := by
        cases a with
        | publish value =>
          have hstill : stillOpen (later ++ past) = true := ha
          rw [hopen] at hstill
          cases hstill
        | _ => rfl
      rw [List.cons_append]
      cases hcatch : (⟨a, (c.perform a).1⟩ : Deed α).catchesUp i with
      | true => exact unseen_caughtUp hcatch
      | false =>
        rw [unseen_cons hcatch, hpublished, horigin]
        exact ih hused

/-! ## Receivers -/

/-- The act may change what receiver `i` gets: it is the sender's own, or one by which `i` itself
sees something or goes. -/
def Act.touches (i : Nat) : Act α → Bool
  | .publish _ => true
  | .close => true
  | .take j => j == i
  | .changed j => j == i
  | .leave j => j == i
  | .peek _ => false
  | .clone _ => false
  | .subscribe => false

/-- What receiver `i` of a channel gets, given the values that it has not seen and all values,
latest first. -/
structure Gets (c : Latest α) (i : Nat) (isOpen : Bool) (unseen issued : List α) : Prop where
  peek : c.peek = issued.head?
  take : (c.take i).1.isSome ↔ isOpen = true ∧ unseen ≠ []
  newest : ∀ value, (c.take i).1 = some value → issued.head? = some value
  changed : (c.changed i).1 =
    if unseen ≠ [] then .changed else if isOpen then .pending else .closed

theorem Keeps.gets (h : Keeps past c) (hi : Present past i) :
    Gets c i (stillOpen past) (unseen i past) (issued past) := by
  refine ⟨h.newest, ?_, ?_, ?_⟩
  · rw [h.take hi]
    split
    · next hfresh =>
      have hhead := mt List.head?_eq_none_iff.mp hfresh.2
      obtain ⟨value, hvalue⟩ := Option.ne_none_iff_exists'.mp hhead
      simp [hvalue, hfresh]
    · next hstale => exact ⟨nofun, fun hfresh => absurd hfresh hstale⟩
  · rw [h.take hi]
    split
    · next hfresh => exact fun value hvalue => (head_unseen hfresh.2).symm.trans hvalue
    · exact nofun
  · rw [h.changed hi]
    split <;> rfl

theorem Present.untouched {a : Act α} (hi : Present past i) (ha : a.touches i = false)
    (answer : Answer α) : Present (⟨a, answer⟩ :: past) i := by
  cases a with
  | leave j =>
    show ((Latest.roster past).modify j _)[i]? = some true
    rw [List.getElem?_modify_ne _ _ (ne_of_beq_false ha)]
    exact hi
  | clone | subscribe =>
    show (Latest.roster past ++ [true])[i]? = some true
    rw [List.getElem?_append_left (lt_of_present hi)]
    exact hi
  | publish | take | peek | changed | close => exact hi

/-- What does not touch a receiver leaves it with the same values unseen. -/
theorem Keeps.untouched (h : Keeps past c) {a : Act α} (hi : Present past i)
    (ha : a.touches i = false) :
    stillOpen (⟨a, (c.perform a).1⟩ :: past) = stillOpen past ∧
      issued (⟨a, (c.perform a).1⟩ :: past) = issued past ∧
      unseen i (⟨a, (c.perform a).1⟩ :: past) = unseen i past := by
  have hlt := lt_of_present hi
  have hopen : stillOpen (⟨a, (c.perform a).1⟩ :: past) = stillOpen past := by
    cases a with
    | close => cases ha
    | _ => rfl
  have hpublished : (⟨a, (c.perform a).1⟩ : Deed α).published? = none := by
    cases a with
    | publish => cases ha
    | _ => rfl
  have hcatch : (⟨a, (c.perform a).1⟩ : Deed α).catchesUp i = false := by
    cases a with
    | take j =>
      show (⟨.take j, .value (c.take j).1⟩ : Deed α).catchesUp i = false
      cases (c.take j).1 with
      | none => rfl
      | some value => exact ha
    | changed j =>
      show (⟨.changed j, .change (c.changed j).1⟩ : Deed α).catchesUp i = false
      cases (c.changed j).1 with
      | changed => exact ha
      | pending | closed => rfl
    | subscribe => exact beq_false_of_ne (Nat.ne_of_gt (show i < c.seen.length from h.length ▸ hlt))
    | publish | peek | clone | leave | close => rfl
  refine ⟨hopen, ?_, ?_⟩
  · rw [issued_cons, hpublished]
    rfl
  · rw [unseen_cons hcatch, hpublished, h.origin a hlt]
    rfl

/-- A receiver that asked for a change has seen everything, whatever the answer was. -/
theorem Keeps.unseen_changed (h : Keeps past c) (hi : Present past i) :
    unseen i (⟨.changed i, .change (c.changed i).1⟩ :: past) = [] := by
  rw [h.changed hi]
  split
  · exact unseen_caughtUp (beq_self_eq_true i)
  · next hnone =>
    have hcatch : ∀ closed : Bool, (⟨.changed i, .change (if closed then .pending else .closed)⟩ :
        Deed α).catchesUp i = false := by
      intro closed
      cases closed <;> rfl
    exact (unseen_cons (hcatch _)).trans (Decidable.not_not.mp hnone)

theorem Used.suffix (h : Used (later ++ past) c) : ∃ c', Used past c' := by
  induction later generalizing c with
  | nil => exact ⟨c, h⟩
  | cons d later ih =>
    cases h with
    | act a hused _ => exact ih hused

/-- Once the sender has gone, a receiver that has asked for a change is told of no other one. -/
theorem closed_after_changed {answer : Answer α} (hclosed : stillOpen past = false)
    (h : Used (later ++ ⟨.changed i, answer⟩ :: past) c)
    (hi : Present (later ++ ⟨.changed i, answer⟩ :: past) i) : (c.changed i).1 = .closed := by
  obtain ⟨c', hused⟩ := h.suffix
  cases hused with
  | @act _ c₀ _ hpast ha =>
    have hnone := (keeps hpast).unseen_changed ha
    have hall := unseen_after_close h hclosed (lt_of_present ha) hnone
    have hlast : stillOpen (later ++ ⟨.changed i, (c₀.perform (.changed i)).1⟩ :: past) = false :=
      stillOpen_append later hclosed
    rw [((keeps h).gets hi).changed, hall, hlast]
    rfl

/-- After any use of a channel, a look shows the newest value. Every receiver takes publications in
their order and each at most once, and each was the newest when it was taken. A receiver takes the
newest value exactly when it has not seen it and the sender is there, and is told of a change
exactly when there is something that it has not seen. What others do changes none of this, nor does
a look. Once the sender has gone, a receiver that has asked for a change is told of no other one. -/
theorem each_value_is_taken_once {past : List (Deed α)} {c : Latest α} (h : Used past c) :
    (∀ i, (takes i past).Pairwise (fun later earlier => earlier.1 < later.1) ∧
      ∀ n value, (n, value) ∈ takes i past →
        ∃ newer older, issued past = newer ++ value :: older ∧ older.length + 1 = n) ∧
    ∀ i, Present past i →
      unseen i past <+: issued past ∧
      Gets c i (stillOpen past) (unseen i past) (issued past) ∧
      (c.perform (.peek i)).2 = c ∧
      (∀ a, Allowed past a → a.touches i = false →
        Gets (c.perform a).2 i (stillOpen past) (unseen i past) (issued past)) ∧
      (stillOpen past = false → ∀ answer later c',
        Used (later ++ ⟨.changed i, answer⟩ :: past) c' →
          Present (later ++ ⟨.changed i, answer⟩ :: past) i → (c'.changed i).1 = .closed) := by
  have hkeeps := keeps h
  constructor
  · intro i
    obtain ⟨hincreasing, hissued, -⟩ := ordered h i
    exact ⟨hincreasing, hissued⟩
  · intro i hi
    refine ⟨unseen_isPrefix i past, hkeeps.gets hi, rfl, ?_, ?_⟩
    · intro a hallowed ha
      obtain ⟨hopen, hissued, hunseen⟩ := hkeeps.untouched hi ha
      have hgets := (hkeeps.act hallowed).gets (hi.untouched ha _)
      rwa [hopen, hissued, hunseen] at hgets
    · intro hclosed answer later c' h' hi'
      exact closed_after_changed hclosed h' hi'

/-- A receiver took the second of four values and was copied before it did. The sender goes, the
receiver is told of a change once, and takes nothing. -/
theorem each_value_is_taken_once_copied :
    ∃ past : List (Deed Nat), ∃ c c', Used past c ∧ Present past 0 ∧ Present past 1 ∧
      takes 0 past = [(2, 2)] ∧ unseen 0 past = [4, 3] ∧ unseen 1 past = [4, 3, 2, 1] ∧
      (∀ value, (c.take 0).1 = some value → value = 4) ∧ (c.take 1).1.isSome ∧
      Used (⟨.changed 0, .change .changed⟩ :: ⟨.close, .done⟩ :: past) c' ∧
      ¬ (c'.take 0).1.isSome ∧ (c'.changed 0).1 = .closed := by
  have h := Used.act (.publish 4) (.act (.publish 3) (.act (.take 0) (.act (.clone 0)
    (.act (.publish 2) (.act (.publish 1) (.start (α := Nat)) rfl) rfl) rfl) rfl) rfl) rfl
  have hgone := Used.act .close h rfl
  have h' := Used.act (.changed 0) hgone rfl
  obtain ⟨-, hall⟩ := each_value_is_taken_once h
  obtain ⟨-, hfirst, -⟩ := hall 0 rfl
  obtain ⟨-, hcopy, -⟩ := hall 1 rfl
  obtain ⟨-, hall'⟩ := each_value_is_taken_once h'
  obtain ⟨-, hlast, -⟩ := hall' 0 rfl
  obtain ⟨-, -, -, -, hclosed⟩ := (each_value_is_taken_once hgone).2 0 rfl
  refine ⟨_, _, _, h, rfl, rfl, rfl, rfl, rfl, ?_, ?_, h', ?_, ?_⟩
  · intro value hvalue
    exact (Option.some.inj (hfirst.newest value hvalue)).symm
  · exact hcopy.take.mpr ⟨rfl, List.cons_ne_nil _ _⟩
  · rw [hlast.take]
    exact fun hopen => nomatch hopen.1
  · exact hclosed rfl _ [] _ h' rfl

end Runs

end FireControl.Exchange.Latest
