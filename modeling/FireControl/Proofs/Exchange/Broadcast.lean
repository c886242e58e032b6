import FireControl.Proofs.Exchange.Inbox
import Mathlib.Algebra.Order.Ring.Nat

/-!
# What every receiver of a bus gets

One bus gives every receiver what the receiver would get alone. A look changes the place of its own
receiver at most (`Bus.Looked`) and finds what the inbox says (`Waiting.reception`,
`Waiting.tryNext`, `Waiting.drain`), so that the bus keeps for every receiver what its inbox has
unread (`keeps`, with one lemma for each act). `bus_delivers_the_newest` puts it together for all
looks, drains and publications after any use.
-/

namespace FireControl.Exchange

/-! ## The size of the buffer -/

theorem exists_roundUp_eq (n : Nat) : ∃ k, roundUp n = 2 ^ k := by
  unfold roundUp
  split
  · exact ⟨0, rfl⟩
  · exact ⟨_, rfl⟩

theorem le_roundUp (n : Nat) : n ≤ roundUp n := by
  unfold roundUp
  split
  · assumption
  · have hlt : n - 1 < 2 ^ ((n - 1).log2 + 1) := Nat.lt_log2_self
    have hpow : Nat.pow 2 ((n - 1).log2 + 1) = 2 ^ ((n - 1).log2 + 1) := rfl
    omega

/-- No smaller power of two has room for as many events. -/
theorem roundUp_le {n k : Nat} (h : n ≤ 2 ^ k) : roundUp n ≤ 2 ^ k := by
  unfold roundUp
  split
  · exact Nat.one_le_two_pow
  · have hlog : (n - 1).log2 < k := (Nat.log2_lt (by omega)).mpr (by omega)
    exact Nat.pow_le_pow_right (by decide) hlog

theorem roundUp_pos (n : Nat) : 0 < roundUp n := by
  obtain ⟨k, hk⟩ := exists_roundUp_eq n
  rw [hk]
  exact Nat.two_pow_pos k

/-! ## What a look does to the bus -/

namespace Bus

/-- Who receives what, and whether they are still there. -/
def members (b : Bus) : List (Topic × Bool) := b.receivers.map fun r => (r.topic, r.isLive)

theorem count_eq (b : Bus) (t : Topic) : b.count t = b.members.count (t, true) := by
  unfold count members List.count
  rw [List.countP_map]
  apply List.countP_congr
  intro r _
  simp [and_comm]

/-- At most the place of receiver `i` is another one. -/
structure Looked (i : Nat) (b b' : Bus) : Prop where
  lane : ∀ t, b'.lane t = b.lane t
  size : b'.size = b.size
  isOpen : b'.isOpen = b.isOpen
  members : b'.members = b.members
  others : ∀ j, j ≠ i → b'.receivers[j]? = b.receivers[j]?

theorem looked_refl (i : Nat) (b : Bus) : Looked i b b :=
  ⟨fun _ => rfl, rfl, rfl, rfl, fun _ _ => rfl⟩

theorem Looked.trans {i : Nat} {b b' b'' : Bus} (h : Looked i b b') (h' : Looked i b' b'') :
    Looked i b b'' where
  lane t := (h'.lane t).trans (h.lane t)
  size := h'.size.trans h.size
  isOpen := h'.isOpen.trans h.isOpen
  members := h'.members.trans h.members
  others j hj := (h'.others j hj).trans (h.others j hj)

theorem looked_moveTo {b : Bus} {i : Nat} {r : Receiver} (h : b.receivers[i]? = some r)
    (place : Nat) : Looked i b (b.moveTo i r place) where
  lane _ := lane_moveTo ..
  size := rfl
  isOpen := rfl
  members := by
    obtain ⟨hi, hr⟩ := List.getElem?_eq_some_iff.mp h
    have hi' : i < (b.receivers.map fun r => (r.topic, r.isLive)).length := by
      rwa [List.length_map]
    have hsame : (r.topic, r.isLive) = (b.receivers.map fun r => (r.topic, r.isLive))[i] := by
      rw [List.getElem_map, hr]
    unfold members moveTo
    rw [List.map_set]
    exact (congrArg _ hsame).trans (List.set_getElem_self _)
  others j hj := List.getElem?_set_ne (Ne.symm hj)

theorem looked_receive (b : Bus) (i : Nat) : Looked i b (b.receive i).2 := by
  unfold receive
  cases hr : b.receivers[i]? with
  | none => exact looked_refl i b
  | some r =>
    dsimp only
    split
    · exact looked_refl i b
    · split
      · exact looked_moveTo hr _
      · split
        · exact looked_refl i b
        · exact looked_moveTo hr _

theorem looked_tryNext (b : Bus) (i : Nat) : Looked i b (b.tryNext i).2 := by
  have hone := looked_receive b i
  unfold tryNext
  split
  · next hb =>
    rw [hb] at hone
    exact hone
  · next b' hb =>
    rw [hb] at hone
    have htwo := hone.trans (looked_receive b' i)
    split
    · next hb' =>
      rw [hb'] at htwo
      exact htwo
    · next hb' =>
      rw [hb'] at htwo
      exact htwo
  · next hb =>
    rw [hb] at hone
    exact hone

end Bus

section Looks
variable {t : Topic} {i : Nat} {b : Bus} {events : List Event} {x : Inbox}

/-- What a look answers and what it leaves unread is as the inbox says. -/
theorem Waiting.reception (h : Waiting t i b x.unread) :
    (b.receive i).1 = x.reception b.size b.isOpen ∧
      Waiting t i (b.receive i).2 (x.receive b.size).unread := by
  unfold Inbox.reception Inbox.receive
  by_cases hlag : b.size < x.unread.length
  · rw [if_pos hlag, if_pos hlag]
    exact h.receive_lagged hlag
  · rw [if_neg hlag, if_neg hlag]
    unfold Inbox.hear
    cases hunread : x.unread with
    | nil =>
      rw [hunread] at h
      dsimp only
      rw [hunread, h.receive_nil]
      exact ⟨rfl, h⟩
    | cons e later =>
      rw [hunread] at h hlag
      exact h.receive_cons (Nat.le_of_not_lt hlag)

theorem Waiting.tryNext (h : Waiting t i b x.unread) (hsize : 0 < b.size) :
    (b.tryNext i).1 = (x.newest b.size).head? ∧
      Waiting t i (b.tryNext i).2 (x.newest b.size).tail := by
  obtain ⟨hanswer, hleft⟩ := h.reception
  have hsame := (Bus.looked_receive b i).size
  unfold Bus.tryNext
  rcases hb : b.receive i with ⟨reception, b'⟩
  rw [hb] at hanswer hleft hsame
  dsimp only at hanswer hleft hsame
  unfold Inbox.reception at hanswer
  unfold Inbox.receive at hleft
  by_cases hlag : b.size < x.unread.length
  · -- The second look finds the oldest of the events that the buffer holds.
    rw [if_pos hlag] at hanswer hleft
    change Waiting t i b' (x.newest b.size) at hleft
    subst hanswer
    have hlength : (x.newest b.size).length = b.size := by
      unfold Inbox.newest
      rw [List.length_drop]
      omega
    cases hnewest : x.newest b.size with
    | nil =>
      rw [hnewest] at hlength
      exact absurd hlength (Nat.ne_of_lt hsize)
    | cons e later =>
      rw [hnewest] at hleft hlength
      obtain ⟨hevent, hlater⟩ := hleft.receive_cons (Nat.le_of_eq (hlength.trans hsame.symm))
      rcases hb' : b'.receive i with ⟨second, b''⟩
      rw [hb'] at hevent hlater
      dsimp only at hevent hlater ⊢
      subst hevent
      rw [hb']
      exact ⟨rfl, hlater⟩
  · rw [if_neg hlag] at hanswer hleft
    have hall : x.newest b.size = x.unread := by
      unfold Inbox.newest
      rw [Nat.sub_eq_zero_of_le (Nat.le_of_not_lt hlag), List.drop_zero]
    rw [hall]
    unfold Inbox.hear at hleft
    cases hunread : x.unread with
    | nil =>
      rw [hunread] at hanswer hleft
      rw [hunread] at hleft
      cases hopen : b.isOpen <;> rw [hopen] at hanswer <;> subst hanswer <;> exact ⟨rfl, hleft⟩
    | cons e later =>
      rw [hunread] at hanswer hleft
      dsimp only at hanswer hleft
      subst hanswer
      exact ⟨rfl, hleft⟩

/-- Looking until nothing is left brings the newest events, as many as the buffer holds. -/
theorem Waiting.drainUpTo {fuel : Nat} (h : Waiting t i b x.unread) (hsize : 0 < b.size)
    (hfuel : (x.newest b.size).length < fuel) :
    (Bus.drainUpTo i fuel b).1 = x.newest b.size ∧ Waiting t i (Bus.drainUpTo i fuel b).2 [] := by
  induction fuel generalizing b x with
  | zero => exact absurd hfuel (Nat.not_lt_zero _)
  | succ fuel ih =>
    obtain ⟨hnext, hleft⟩ := h.tryNext hsize
    have hsame := (Bus.looked_tryNext b i).size
    have hfits : (x.newest b.size).length ≤ b.size := by
      unfold Inbox.newest
      rw [List.length_drop]
      omega
    unfold Bus.drainUpTo
    rcases hb : b.tryNext i with ⟨answer, b'⟩
    rw [hb] at hnext hleft hsame
    dsimp only at hnext hleft hsame
    cases hnewest : x.newest b.size with
    | nil =>
      rw [hnewest] at hnext hleft
      subst hnext
      exact ⟨rfl, hleft⟩
    | cons e later =>
      rw [hnewest] at hnext hleft hfits hfuel
      subst hnext
      rw [List.length_cons] at hfits hfuel
      -- What is left fits into the buffer, so nothing more is lost.
      have hall : Inbox.newest b'.size ⟨[], later⟩ = later := by
        unfold Inbox.newest
        rw [hsame, Nat.sub_eq_zero_of_le (Nat.le_of_succ_le hfits), List.drop_zero]
      have hless : (Inbox.newest b'.size ⟨[], later⟩).length < fuel := by
        rw [hall]
        exact Nat.lt_of_succ_lt_succ hfuel
      obtain ⟨hdrained, hnone⟩ := ih (x := ⟨[], later⟩) hleft (hsame ▸ hsize) hless
      rw [hall] at hdrained
      exact ⟨congrArg (e :: ·) hdrained, hnone⟩

theorem Waiting.drain (h : Waiting t i b x.unread) (hsize : 0 < b.size) :
    (b.drain i).1 = x.newest b.size := by
  refine (h.drainUpTo hsize ?_).1
  unfold Inbox.newest
  rw [List.length_drop]
  omega

end Looks

/-! ## Runs -/

section Runs
variable {capacity i : Nat} {t : Topic} {past : List Deed} {b : Bus} {a : Act}

/-- The bus keeps for receiver `i` of the topic what it would have still to hear if it were alone. -/
structure Kept (capacity : Nat) (past : List Deed) (b : Bus) (t : Topic) (i : Nat) : Prop where
  waiting : Waiting t i b (inbox (roundUp capacity) t i past).unread
  told : (inbox (roundUp capacity) t i past).heard = told i past

/-- The invariant of a bus in use. -/
structure Keeps (capacity : Nat) (past : List Deed) (b : Bus) : Prop where
  size : b.size = roundUp capacity
  isOpen : b.isOpen = stillOpen past
  members : b.members = roster past
  kept : ∀ t i, Present past t i → Kept capacity past b t i

theorem Kept.elsewhere {b' : Bus} {d : Deed} (h : Kept capacity past b t i)
    (hd : d.concerns t i = false) (hlane : b'.lane t = b.lane t) (hsize : b'.size = b.size)
    (hreceiver : b'.receivers[i]? = b.receivers[i]?) : Kept capacity (d :: past) b' t i where
  waiting := by
    rw [inbox_cons_elsewhere hd]
    exact h.waiting.elsewhere hlane hsize hreceiver
  told := by
    rw [inbox_cons_elsewhere hd, told_cons_elsewhere hd]
    exact h.told

theorem keeps_start (h : Bus.ofCapacity capacity = .ok b) : Keeps capacity [] b := by
  unfold Bus.ofCapacity at h
  split at h
  · cases h
  · cases h
    exact ⟨rfl, rfl, rfl, nofun⟩

theorem Keeps.subscribe (h : Keeps capacity past b) (t' : Topic) :
    Keeps capacity (⟨.subscribe t', .number (b.subscribe t').1⟩ :: past) (b.subscribe t').2 where
  size := h.size
  isOpen := h.isOpen
  members := by
    show (b.receivers ++ [_]).map _ = roster past ++ [(t', true)]
    rw [List.map_append, ← h.members]
    rfl
  kept t i hi := by
    have hlength : (roster past).length = b.receivers.length := by
      rw [← h.members]
      exact List.length_map _
    change (roster past ++ [(t', true)])[i]? = some (t, true) at hi
    by_cases hold : i < b.receivers.length
    · rw [List.getElem?_append_left (hlength ▸ hold)] at hi
      have helse : Deed.concerns t i ⟨.subscribe t', .number (b.subscribe t').1⟩ = false :=
        beq_false_of_ne (Nat.ne_of_gt hold)
      refine (h.kept t i hi).elsewhere helse ?_ rfl (List.getElem?_append_left hold)
      cases t <;> rfl
    · rw [List.getElem?_append_right (Nat.le_of_not_lt (hlength ▸ hold)), hlength] at hi
      -- The receiver that has just come has nothing to hear yet.
      have hzero : i - b.receivers.length = 0 := by
        cases hsub : i - b.receivers.length with
        | zero => rfl
        | succ n =>
          rw [hsub] at hi
          cases hi
      rw [hzero] at hi
      cases hi
      obtain rfl : i = b.receivers.length := by omega
      have hnone : since b.receivers.length
          (⟨.subscribe t', .number (b.subscribe t').1⟩ :: past) = [] := by
        apply List.takeWhile_cons_of_neg
        simp [Deed.enrols, Bus.subscribe]
      refine ⟨?_, ?_⟩
      · rw [inbox, hnone]
        exact waiting_subscribe b t'
      · rw [inbox, told, hnone]
        rfl

/-- A publication on another topic does not touch the lane of a topic. -/
theorem Bus.lane_publish_ne (b : Bus) {t' : Topic} (e : Event) (h : t' ≠ t) :
    (b.publish t' e).2.lane t = b.lane t := by
  unfold Bus.publish
  split
  · rfl
  · cases t' <;> cases t <;> first | rfl | exact absurd rfl h

theorem Bus.publish_same (b : Bus) (t' : Topic) (e : Event) :
    (b.publish t' e).2.size = b.size ∧ (b.publish t' e).2.isOpen = b.isOpen ∧
      (b.publish t' e).2.receivers = b.receivers := by
  unfold Bus.publish
  split
  · exact ⟨rfl, rfl, rfl⟩
  · cases t' <;> exact ⟨rfl, rfl, rfl⟩

theorem Keeps.publish (h : Keeps capacity past b) (t' : Topic) (e : Event) :
    Keeps capacity (⟨.publish t' e, .published (b.publish t' e).1⟩ :: past)
      (b.publish t' e).2 := by
  obtain ⟨hsize, hopen, hreceivers⟩ := b.publish_same t' e
  refine ⟨hsize.trans h.size, hopen.trans h.isOpen, ?_, ?_⟩
  · rw [Bus.members, hreceivers]
    exact h.members
  · intro t i hi
    have hkept := h.kept t i hi
    by_cases heq : t' = t
    · subst heq
      have hok : (b.publish t' e).1 = .ok (b.count t') := by
        unfold Bus.publish
        rw [if_neg (Nat.ne_of_gt hkept.waiting.count_pos)]
      have hpublished : Deed.published? t' ⟨.publish t' e, .published (.ok (b.count t'))⟩ =
          some e := if_pos rfl
      rw [hok]
      refine ⟨?_, ?_⟩
      · rw [inbox_cons rfl, Inbox.note, hpublished]
        exact hkept.waiting.publish e
      · rw [inbox_cons rfl, told_cons rfl]
        exact hkept.told.trans (List.append_nil _).symm
    · have helse : ∀ answer, Deed.concerns t i ⟨.publish t' e, answer⟩ = false :=
        fun _ => beq_false_of_ne heq
      exact hkept.elsewhere (helse _) (b.lane_publish_ne e heq) hsize (by rw [hreceivers])

/-- A look of one receiver leaves what the others have to hear. -/
theorem Keeps.look {b' : Bus} {d : Deed} {j : Nat} (h : Keeps capacity past b)
    (hlooked : b.Looked j b') (hopen : stillOpen (d :: past) = stillOpen past)
    (hroster : roster (d :: past) = roster past) (hothers : ∀ t i, i ≠ j → d.concerns t i = false)
    (hown : ∀ t, Kept capacity past b t j → Kept capacity (d :: past) b' t j) :
    Keeps capacity (d :: past) b' where
  size := hlooked.size.trans h.size
  isOpen := hlooked.isOpen.trans (h.isOpen.trans hopen.symm)
  members := hlooked.members.trans (h.members.trans hroster.symm)
  kept t i hi := by
    unfold Present at hi
    rw [hroster] at hi
    by_cases heq : i = j
    · subst heq
      exact hown t (h.kept t i hi)
    · exact (h.kept t i hi).elsewhere (hothers t i heq) (hlooked.lane t) hlooked.size
        (hlooked.others i heq)

theorem Keeps.receive (h : Keeps capacity past b) (j : Nat) :
    Keeps capacity (⟨.receive j, .reception (b.receive j).1⟩ :: past) (b.receive j).2 := by
  refine h.look (b.looked_receive j) rfl rfl ?_ ?_
  · intro t i hi
    exact beq_false_of_ne (Ne.symm hi)
  · intro t hkept
    obtain ⟨hwaiting, htold⟩ := hkept
    have hreception := hwaiting.reception
    rw [h.size] at hreception
    refine ⟨?_, ?_⟩
    · rw [inbox_receive]
      exact hreception.2
    · rw [inbox_receive, told_receive, Inbox.heard_receive b.isOpen, ← hreception.1, htold]

theorem Inbox.unread_tryNext (size : Nat) (x : Inbox) :
    (x.tryNext size).unread = (x.newest size).tail := by
  unfold tryNext hear skip
  dsimp only
  cases hnewest : x.newest size with
  | nil => rfl
  | cons e later => rfl

theorem Keeps.tryNext (h : Keeps capacity past b) (j : Nat) :
    Keeps capacity (⟨.tryNext j, .next (b.tryNext j).1⟩ :: past) (b.tryNext j).2 := by
  refine h.look (b.looked_tryNext j) rfl rfl ?_ ?_
  · intro t i hi
    exact beq_false_of_ne (Ne.symm hi)
  · intro t hkept
    obtain ⟨hwaiting, htold⟩ := hkept
    have hnext := hwaiting.tryNext (h.size ▸ roundUp_pos capacity)
    rw [h.size] at hnext
    refine ⟨?_, ?_⟩
    · rw [inbox_tryNext, Inbox.unread_tryNext]
      exact hnext.2
    · rw [inbox_tryNext, told_tryNext, Inbox.heard_tryNext, ← hnext.1, htold]

theorem Keeps.leave (h : Keeps capacity past b) (j : Nat) :
    Keeps capacity (⟨.leave j, .done⟩ :: past) (b.leave j) := by
  have hother : ∀ i, i ≠ j → (b.leave j).receivers[i]? = b.receivers[i]? := by
    intro i hi
    unfold Bus.leave
    split
    · rfl
    · exact List.getElem?_set_ne (Ne.symm hi)
  have hown : (b.leave j).receivers[j]? =
      b.receivers[j]?.map fun r => { r with isLive := false } := by
    unfold Bus.leave
    cases hr : b.receivers[j]? with
    | none => exact hr
    | some r => exact List.getElem?_set_self (List.getElem?_eq_some_iff.mp hr).1
  have hsame : (b.leave j).size = b.size ∧ (b.leave j).isOpen = b.isOpen ∧
      ∀ t, (b.leave j).lane t = b.lane t := by
    unfold Bus.leave
    split
    · exact ⟨rfl, rfl, fun _ => rfl⟩
    · exact ⟨rfl, rfl, fun t => by cases t <;> rfl⟩
  obtain ⟨hsize, hopen, hlane⟩ := hsame
  refine ⟨hsize.trans h.size, hopen.trans h.isOpen, ?_, ?_⟩
  · show (b.leave j).receivers.map _ = (roster past).modify j _
    rw [← h.members, Bus.members]
    apply List.ext_getElem?
    intro i
    by_cases hi : i = j
    · subst hi
      rw [List.getElem?_modify_eq, List.getElem?_map, List.getElem?_map, hown]
      cases b.receivers[i]? <;> rfl
    · rw [List.getElem?_modify_ne _ _ (Ne.symm hi), List.getElem?_map, List.getElem?_map, hother i hi]
  · intro t i hi
    change ((roster past).modify j _)[i]? = some (t, true) at hi
    by_cases heq : j = i
    · subst heq
      rw [List.getElem?_modify_eq] at hi
      obtain ⟨r, -, hr⟩ := Option.map_eq_some_iff.mp hi
      cases hr
    · rw [List.getElem?_modify_ne _ _ heq] at hi
      exact (h.kept t i hi).elsewhere rfl (hlane t) hsize (hother i (Ne.symm heq))

theorem Keeps.close (h : Keeps capacity past b) :
    Keeps capacity (⟨.close, .done⟩ :: past) b.close where
  size := h.size
  isOpen := rfl
  members := h.members
  kept t i hi := by
    refine (h.kept t i hi).elsewhere rfl ?_ rfl rfl
    cases t <;> rfl

theorem Keeps.act (h : Keeps capacity past b) (a : Act) :
    Keeps capacity (⟨a, (b.perform a).1⟩ :: past) (b.perform a).2 := by
  cases a with
  | subscribe t => exact h.subscribe t
  | publish t e => exact h.publish t e
  | receive i => exact h.receive i
  | tryNext i => exact h.tryNext i
  | leave i => exact h.leave i
  | close => exact h.close

theorem keeps (h : Used capacity past b) : Keeps capacity past b := by
  induction h with
  | start h => exact keeps_start h
  | act a _ _ ih => exact ih.act a

/-- The number of receivers of the topic that are there. -/
def listeners (past : List Deed) (t : Topic) : Nat := (roster past).count (t, true)

/-- What receiver `i` gets on looking, if `issued` was published for it, `told` is what it was told
and `x` is its inbox. -/
structure Served (b : Bus) (i : Nat) (isOpen : Bool) (issued told : List Event) (x : Inbox) :
    Prop where
  /-- Every event is settled or unread, in the order of publication. -/
  all : x.settled.map Prod.fst ++ x.unread = issued
  heard : x.heard = told
  sublist : told.Sublist issued
  counted : x.heard.length + x.lost.length + x.unread.length = issued.length
  idle : x.unread = [] →
    (b.receive i).1 = (if isOpen then .pending else .closed) ∧ (b.tryNext i).1 = none
  /-- While no more is unread than the buffer holds, the oldest is next. -/
  next : ∀ e later, x.unread = e :: later → x.unread.length ≤ b.size →
    (b.receive i).1 = .event e ∧ (b.tryNext i).1 = some e
  /-- Otherwise the oldest that the buffer holds is next, after a report of the lag. -/
  lag : b.size < x.unread.length → ∃ e later, x.newest b.size = e :: later ∧
    (b.receive i).1 = .lagged (x.unread.length - b.size) ∧
    ((b.receive i).2.receive i).1 = .event e ∧ (b.tryNext i).1 = some e
  drain : (b.drain i).1 = x.newest b.size

theorem Waiting.served {x : Inbox} {issued told : List Event} (h : Waiting t i b x.unread)
    (hsize : 0 < b.size) (hall : x.all = issued) (htold : x.heard = told) :
    Served b i b.isOpen issued told x := by
  obtain ⟨hreception, -⟩ := h.reception
  obtain ⟨hnext, -⟩ := h.tryNext hsize
  refine ⟨hall, htold, ?_, ?_, ?_, ?_, ?_, h.drain hsize⟩
  · rw [← hall, ← htold]
    exact x.heard_sublist.trans (List.sublist_append_left _ _)
  · rw [x.length_heard_add_lost, ← hall]
    simp [Inbox.all]
  · intro hnone
    rw [hreception, hnext]
    simp [Inbox.reception, Inbox.newest, hnone]
  · intro e later hunread hfits
    rw [hreception, hnext, Inbox.reception, if_neg (Nat.not_lt_of_le hfits), Inbox.newest,
      Nat.sub_eq_zero_of_le hfits, hunread]
    exact ⟨rfl, rfl⟩
  · intro hlag
    obtain ⟨hlagged, hleft⟩ := h.receive_lagged hlag
    change Waiting t i (b.receive i).2 (x.newest b.size) at hleft
    have hlength : (x.newest b.size).length = b.size := by
      unfold Inbox.newest
      rw [List.length_drop]
      omega
    cases hnewest : x.newest b.size with
    | nil =>
      rw [hnewest] at hlength
      exact absurd hlength (Nat.ne_of_lt hsize)
    | cons e later =>
      rw [hnewest] at hleft hlength hnext
      have hfits : later.length + 1 ≤ (b.receive i).2.size := by
        rw [(b.looked_receive i).size]
        exact Nat.le_of_eq hlength
      exact ⟨e, later, rfl, hlagged, (hleft.receive_cons hfits).1, hnext⟩

/-- A bus of any capacity but zero rounds it up to a power of two. After any use, a publication tells
the number of receivers of its topic that are there, or that there are none. Every receiver has been
told what was published on its topic since it came, and looks answer as its own inbox says; what is
done elsewhere does not change that inbox. -/
theorem bus_delivers_the_newest (hcapacity : 1 ≤ capacity) :
    (∃ b, Bus.ofCapacity capacity = .ok b ∧ (∃ k, b.size = 2 ^ k) ∧ capacity ≤ b.size ∧
      ∀ k, capacity ≤ 2 ^ k → b.size ≤ 2 ^ k) ∧
    ∀ past b, Used capacity past b → b.size = roundUp capacity ∧
      (∀ t e, (b.publish t e).1 =
        if listeners past t = 0 then .error (.channel ("No subscribers for topic " ++ t.name))
        else .ok (listeners past t)) ∧
      ∀ t i, Present past t i →
        Served b i (stillOpen past) (issued t i past) (told i past) (inbox b.size t i past) ∧
        ∀ d, d.concerns t i = false → inbox b.size t i (d :: past) = inbox b.size t i past := by
  constructor
  · refine ⟨{ size := roundUp capacity }, ?_, exists_roundUp_eq _, le_roundUp _, ?_⟩
    · exact if_neg (Nat.ne_of_gt hcapacity)
    · exact fun _ h => roundUp_le h
  · intro past b hused
    have hkeeps := keeps hused
    refine ⟨hkeeps.size, ?_, ?_⟩
    · intro t e
      have hcount : b.count t = listeners past t := by
        rw [Bus.count_eq, hkeeps.members]
        rfl
      rw [← hcount]
      unfold Bus.publish
      split <;> rfl
    · intro t i hi
      have hsize : 0 < b.size := hkeeps.size ▸ roundUp_pos capacity
      obtain ⟨hwaiting, htold⟩ := hkeeps.kept t i hi
      rw [← hkeeps.size] at hwaiting htold
      rw [← hkeeps.isOpen]
      refine ⟨hwaiting.served hsize (all_inbox ..) htold, ?_⟩
      intro d hd
      exact inbox_cons_elsewhere hd

/-- Numbered events. -/
def numbered (n : UInt32) : Event := ⟨"link", .linkReset "radar" n⟩

/-- Six events for a buffer of four, with another receiver on another topic. -/
theorem bus_delivers_the_newest_behind :
    ∃ past b, 1 ≤ 3 ∧ Used 3 past b ∧ Present past .operator 0 ∧ b.size = 4 ∧
      issued .operator 0 past = [1, 2, 3, 4, 5, 6].map numbered ∧
      (b.receive 0).1 = .lagged 2 ∧ (b.tryNext 0).1 = some (numbered 3) ∧
      (b.drain 0).1 = [3, 4, 5, 6].map numbered ∧
      (b.publish .operator (numbered 7)).1 = .ok 1 := by
  have hnew : Used 3 [] { size := 4 } := .start rfl
  have h := Used.act (.publish .operator (numbered 6)) (.act (.publish .operator (numbered 5))
    (.act (.publish .operator (numbered 4)) (.act (.publish .aimEvents (numbered 0))
    (.act (.publish .operator (numbered 3)) (.act (.publish .operator (numbered 2))
    (.act (.publish .operator (numbered 1)) (.act (.subscribe .aimEvents)
    (.act (.subscribe .operator) hnew rfl) rfl) rfl) rfl) rfl) rfl) rfl) rfl) rfl
  obtain ⟨-, hall⟩ := @bus_delivers_the_newest 3 (by decide)
  obtain ⟨hsize, hpublish, hserved⟩ := hall _ _ h
  obtain ⟨hserved, -⟩ := hserved .operator 0 rfl
  obtain ⟨e, later, hnewest, hlagged, -, hnext⟩ := hserved.lag (by decide)
  refine ⟨_, _, by decide, h, rfl, hsize, rfl, hlagged, ?_, hserved.drain, hpublish _ _⟩
  rw [hnext]
  cases hnewest
  rfl

end Runs

end FireControl.Exchange
