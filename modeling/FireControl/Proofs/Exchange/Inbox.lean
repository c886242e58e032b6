import FireControl.Proofs.Exchange.Listening

/-!
# What a receiver alone would get

A bus is used by any number of publishers and receivers in any order (`Used`). A receiver alone would
have an inbox: what was published on its topic since it came, of which it heard some, lost some and
has the rest still to hear, in the order of publication (`Inbox`). The inbox follows from what was
done so far (`inbox`); nothing that was published is missing from it (`all_inbox`), and what is done on
other topics or by other receivers does not change it (`inbox_cons_elsewhere`).
-/

namespace FireControl.Exchange

/-! ## Using a bus -/

/-- What can be done to a bus; receivers go by their numbers. -/
inductive Act where
  | subscribe (t : Topic)
  | publish (t : Topic) (e : Event)
  | receive (i : Nat)
  | tryNext (i : Nat)
  | leave (i : Nat)
  | close

inductive Answer where
  | number (i : Nat)
  | published (result : Except SystemError Nat)
  | reception (r : Reception)
  | next (e : Option Event)
  | done

/-- Something that was done, and the answer to it. -/
structure Deed where
  act : Act
  answer : Answer

def Bus.perform (b : Bus) : Act → Answer × Bus
  | .subscribe t => (.number (b.subscribe t).1, (b.subscribe t).2)
  | .publish t e => (.published (b.publish t e).1, (b.publish t e).2)
  | .receive i => (.reception (b.receive i).1, (b.receive i).2)
  | .tryNext i => (.next (b.tryNext i).1, (b.tryNext i).2)
  | .leave i => (.done, b.leave i)
  | .close => (.done, b.close)

/-- The topics of all receivers that ever subscribed, and whether they are still there. -/
def roster : List Deed → List (Topic × Bool)
  | [] => []
  | d :: past =>
    match d.act with
    | .subscribe t => roster past ++ [(t, true)]
    | .leave i => (roster past).modify i fun r => (r.1, false)
    | _ => roster past

/-- Whether the bus has not gone. -/
def stillOpen : List Deed → Bool
  | [] => true
  | d :: past =>
    match d.act with
    | .close => false
    | _ => stillOpen past

/-- Receiver `i` subscribed to the topic and has not left. -/
def Present (past : List Deed) (t : Topic) (i : Nat) : Prop := (roster past)[i]? = some (t, true)

/-- A bus that has gone and a receiver that has left cannot be used. -/
def Allowed (past : List Deed) : Act → Prop
  | .subscribe _ => stillOpen past
  | .publish _ _ => stillOpen past
  | .receive i => ∃ t, Present past t i
  | .tryNext i => ∃ t, Present past t i
  | .leave i => ∃ t, Present past t i
  | .close => stillOpen past

/-- The deeds so far on a new bus, latest first, and the bus that they lead to. -/
inductive Used (capacity : Nat) : List Deed → Bus → Prop
  | start {b : Bus} : Bus.ofCapacity capacity = .ok b → Used capacity [] b
  | act {past : List Deed} {b : Bus} (a : Act) : Used capacity past b → Allowed past a →
      Used capacity (⟨a, (b.perform a).1⟩ :: past) (b.perform a).2

/-! ## A receiver alone -/

inductive Fate where
  | heard
  | lost
  deriving DecidableEq

/-- What was published for a receiver, oldest first: what became of it, and what it has still to
hear. -/
structure Inbox where
  settled : List (Event × Fate) := []
  unread : List Event := []

namespace Inbox

def heard (x : Inbox) : List Event := (x.settled.filter (·.2 = .heard)).map Prod.fst

def lost (x : Inbox) : List Event := (x.settled.filter (·.2 = .lost)).map Prod.fst

/-- The unread events that a buffer of the size still holds. -/
def newest (size : Nat) (x : Inbox) : List Event := x.unread.drop (x.unread.length - size)

/-- The unread events that the buffer holds no more are lost. -/
def skip (size : Nat) (x : Inbox) : Inbox :=
  { settled := x.settled ++ (x.unread.take (x.unread.length - size)).map fun e => (e, .lost)
    unread := x.newest size }

/-- The oldest unread event is heard. -/
def hear (x : Inbox) : Inbox :=
  match x.unread with
  | [] => x
  | e :: later => { settled := x.settled ++ [(e, .heard)], unread := later }

/-- Lag is reported before anything else. -/
def receive (size : Nat) (x : Inbox) : Inbox :=
  if size < x.unread.length then x.skip size else x.hear

def tryNext (size : Nat) (x : Inbox) : Inbox := (x.skip size).hear

/-- The answer to a look. -/
def reception (size : Nat) (isOpen : Bool) (x : Inbox) : Reception :=
  if size < x.unread.length then .lagged (x.unread.length - size)
  else
    match x.unread with
    | [] => if isOpen then .pending else .closed
    | e :: _ => .event e

end Inbox

namespace Deed

/-- The event that the deed published on the topic. -/
def published? (t : Topic) (d : Deed) : Option Event :=
  match d.act, d.answer with
  | .publish t' e, .published (.ok _) => if t' = t then some e else none
  | _, _ => none

/-- The deed made receiver `i`. -/
def enrols (i : Nat) (d : Deed) : Bool :=
  match d.act, d.answer with
  | .subscribe _, .number j => j == i
  | _, _ => false

/-- The events that the deed brought receiver `i`. -/
def heard (i : Nat) (d : Deed) : List Event :=
  match d.act, d.answer with
  | .receive j, .reception r => if j = i then r.heard else []
  | .tryNext j, .next e => if j = i then e.toList else []
  | _, _ => []

/-- The deed publishes on the topic, makes receiver `i` or is one of its looks. -/
def concerns (t : Topic) (i : Nat) (d : Deed) : Bool :=
  match d.act with
  | .publish t' _ => t' == t
  | .receive j => j == i
  | .tryNext j => j == i
  | _ => d.enrols i

end Deed

def Inbox.note (size : Nat) (t : Topic) (i : Nat) (d : Deed) (x : Inbox) : Inbox :=
  match d.act with
  | .publish _ _ => { x with unread := x.unread ++ (d.published? t).toList }
  | .receive j => if j = i then x.receive size else x
  | .tryNext j => if j = i then x.tryNext size else x
  | _ => x

/-- The deeds since receiver `i` subscribed, latest first. -/
def since (i : Nat) (past : List Deed) : List Deed := past.takeWhile fun d => !d.enrols i

/-- The events published on the topic since receiver `i` subscribed, oldest first. -/
def issued (t : Topic) (i : Nat) (past : List Deed) : List Event :=
  ((since i past).filterMap (·.published? t)).reverse

/-- The events that the looks of receiver `i` brought it, oldest first. -/
def told (i : Nat) (past : List Deed) : List Event := (since i past).reverse.flatMap (·.heard i)

/-- The inbox of receiver `i` of the topic, if it were the only one. -/
def inbox (size : Nat) (t : Topic) (i : Nat) (past : List Deed) : Inbox :=
  (since i past).foldr (Inbox.note size t i) {}

section Alone
variable {size i : Nat} {t : Topic} {x : Inbox} {past : List Deed} {d : Deed}

namespace Inbox

/-- What was issued, when nothing has been overlooked. -/
def all (x : Inbox) : List Event := x.settled.map Prod.fst ++ x.unread

theorem all_skip : (x.skip size).all = x.all := by
  have hsame : (Prod.fst ∘ fun e : Event => (e, Fate.lost)) = id := rfl
  simp [all, skip, newest, hsame]

theorem all_hear : x.hear.all = x.all := by
  unfold hear
  cases hunread : x.unread with
  | nil => rfl
  | cons e later => simp [all, hunread]

theorem all_receive : (x.receive size).all = x.all := by
  unfold receive
  split
  · exact all_skip
  · exact all_hear

theorem all_tryNext : (x.tryNext size).all = x.all := all_hear.trans all_skip

theorem all_note : (note size t i d x).all = x.all ++ (d.published? t).toList := by
  obtain ⟨act, answer⟩ := d
  cases act with
  | publish t' e => exact (List.append_assoc ..).symm
  | receive j =>
    simp only [note, Deed.published?, Option.toList_none, List.append_nil]
    split
    · exact all_receive
    · rfl
  | tryNext j =>
    simp only [note, Deed.published?, Option.toList_none, List.append_nil]
    split
    · exact all_tryNext
    · rfl
  | subscribe | leave | close => exact (List.append_nil _).symm

/-- An event is settled in one way. -/
theorem length_heard_add_lost : x.heard.length + x.lost.length = x.settled.length := by
  rw [heard, lost, List.length_map, List.length_map]
  induction x.settled with
  | nil => rfl
  | cons p later ih =>
    obtain ⟨e, fate⟩ := p
    cases fate <;> simp only [List.filter_cons, reduceCtorEq, decide_true, decide_false, if_true,
      Bool.false_eq_true, if_false, List.length_cons] <;> omega

theorem heard_sublist : x.heard.Sublist (x.settled.map Prod.fst) :=
  List.filter_sublist.map Prod.fst

theorem heard_skip : (x.skip size).heard = x.heard := by
  have hnone : ((x.unread.take (x.unread.length - size)).map fun e => (e, Fate.lost)).filter
      (·.2 = .heard) = [] := by
    rw [List.filter_eq_nil_iff]
    intro p hp
    obtain ⟨e, -, rfl⟩ := List.mem_map.mp hp
    simp
  rw [heard, skip, List.filter_append, hnone, List.append_nil]
  rfl

theorem heard_hear : x.hear.heard = x.heard ++ x.unread.head?.toList := by
  unfold hear
  cases hunread : x.unread with
  | nil => simp
  | cons e later => simp [heard]

/-- What the inbox counts as heard is what the looks brought. -/
theorem heard_receive (isOpen : Bool) :
    (x.receive size).heard = x.heard ++ (x.reception size isOpen).heard := by
  unfold receive reception
  by_cases hlag : size < x.unread.length
  · rw [if_pos hlag, if_pos hlag, heard_skip]
    exact (List.append_nil _).symm
  · rw [if_neg hlag, if_neg hlag, heard_hear]
    cases x.unread with
    | nil => cases isOpen <;> rfl
    | cons e later => rfl

theorem heard_tryNext : (x.tryNext size).heard = x.heard ++ (x.newest size).head?.toList := by
  rw [tryNext, heard_hear, heard_skip]
  rfl

end Inbox

/-- Nothing published is overlooked or comes twice or out of order. -/
theorem all_inbox (size : Nat) (t : Topic) (i : Nat) (past : List Deed) :
    (inbox size t i past).all = issued t i past := by
  unfold inbox issued
  induction since i past with
  | nil => rfl
  | cons d steps ih =>
    rw [List.foldr_cons, Inbox.all_note, ih]
    cases h : d.published? t with
    | none => simp [h]
    | some e => simp [h]

theorem since_cons (h : d.enrols i = false) : since i (d :: past) = d :: since i past := by
  simp [since, h]

theorem told_cons (h : d.enrols i = false) : told i (d :: past) = told i past ++ d.heard i := by
  rw [told, since_cons h, List.reverse_cons, List.flatMap_append, List.flatMap_singleton]
  rfl

theorem inbox_cons (h : d.enrols i = false) :
    inbox size t i (d :: past) = Inbox.note size t i d (inbox size t i past) := by
  rw [inbox, since_cons h]
  rfl

theorem inbox_receive (answer : Answer) :
    inbox size t i (⟨.receive i, answer⟩ :: past) = (inbox size t i past).receive size :=
  (inbox_cons rfl).trans (if_pos rfl)

theorem inbox_tryNext (answer : Answer) :
    inbox size t i (⟨.tryNext i, answer⟩ :: past) = (inbox size t i past).tryNext size :=
  (inbox_cons rfl).trans (if_pos rfl)

theorem told_receive (r : Reception) :
    told i (⟨.receive i, .reception r⟩ :: past) = told i past ++ r.heard :=
  (told_cons rfl).trans (congrArg _ (if_pos rfl))

theorem told_tryNext (e : Option Event) :
    told i (⟨.tryNext i, .next e⟩ :: past) = told i past ++ e.toList :=
  (told_cons rfl).trans (congrArg _ (if_pos rfl))

theorem enrols_of_elsewhere (h : d.concerns t i = false) : d.enrols i = false := by
  obtain ⟨act, answer⟩ := d
  cases act with
  | publish | receive | tryNext => rfl
  | subscribe | leave | close => exact h

/-- A receiver is not concerned with other topics and with other receivers. -/
theorem inbox_cons_elsewhere (h : d.concerns t i = false) :
    inbox size t i (d :: past) = inbox size t i past := by
  rw [inbox_cons (enrols_of_elsewhere h)]
  obtain ⟨act, answer⟩ := d
  cases act with
  | publish t' e =>
    have hne : ¬ t' = t := by simpa [Deed.concerns] using h
    have hnone : Deed.published? t ⟨.publish t' e, answer⟩ = none := by
      unfold Deed.published?
      split
      · next hact _ =>
        cases hact
        exact if_neg hne
      · rfl
    simp [Inbox.note, hnone]
  | receive j =>
    have hne : ¬ j = i := by simpa [Deed.concerns] using h
    exact if_neg hne
  | tryNext j =>
    have hne : ¬ j = i := by simpa [Deed.concerns] using h
    exact if_neg hne
  | subscribe | leave | close => rfl

theorem told_cons_elsewhere (h : d.concerns t i = false) : told i (d :: past) = told i past := by
  have hnone : d.heard i = [] := by
    unfold Deed.heard
    split
    · next j r hact _ =>
      have hne : ¬ j = i := by simpa [Deed.concerns, hact] using h
      exact if_neg hne
    · next j e hact _ =>
      have hne : ¬ j = i := by simpa [Deed.concerns, hact] using h
      exact if_neg hne
    · rfl
  rw [told_cons (enrols_of_elsewhere h), hnone, List.append_nil]

end Alone

end FireControl.Exchange
