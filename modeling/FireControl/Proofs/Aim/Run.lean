import FireControl.Proofs.Aim.Moves
import FireControl.Proofs.RingHistory
import Mathlib.Data.List.Chain
import Mathlib.Data.List.TakeWhile

/-!
# Runs of the aim controller

A run is the list of the steps made so far, latest first, from the controller as it is created. The
steps that have started in the present state form the present `spell`; what the controller keeps is
explained by them (`explained`): the deadline by the step that began the spell (`EnteredAt`), the
count of centred frames and the last sighting by the detections its steps consumed, and the ring of
times by all detections ever consumed while locking.

Times of an earlier lock phase stay in the ring, but tracking lasts as long as the lock window, so
that they have left the window (`Stale`) before the controller locks again.
-/

namespace FireControl.Aim

/-- One step of a run: the controller before it, what it was given, what it showed and the
controller after it. -/
structure Step where
  before : Controller
  input : Input
  tick : Tick
  after : Controller

namespace Step

/-- The time of a step. -/
def now (s : Step) : Nat := s.input.now

/-- The state in which a step starts. -/
def state (s : Step) : State := s.before.phase.state

/-- Whether a step is offered a centred detection. -/
def centered (s : Step) : Bool := s.input.centered

end Step

/-- The time of the latest step. -/
def lastTime : List Step → Nat
  | [] => 0
  | s :: _ => s.now

/-- The steps made since the controller was created, latest first, and the controller they lead to.
Time does not run backwards, and no step overflows. -/
inductive Run : List Step → Controller → Prop
  | start : Run [] {}
  | step {past : List Step} {s : Step} : Run past s.before → s.input.Admissible →
      lastTime past ≤ s.now → (∃ left, s.before.stepOn s.input = .ok (s.tick, s.after, left)) →
      Run (s :: past) s.after

/-- The controller after a sequence of inputs. -/
def Controller.replay (c : Controller) : List Input → Checked Controller
  | [] => .ok c
  | i :: rest => (c.stepOn i).bind fun r => r.2.1.replay rest

/-- Inputs that can be replayed make a run. -/
theorem Run.replay {past : List Step} {c d : Controller} {inputs : List Input} (run : Run past c)
    (hinputs : ∀ i ∈ inputs, i.Admissible)
    (hnow : (lastTime past :: inputs.map (·.now)).IsChain (· ≤ ·))
    (h : c.replay inputs = .ok d) :
    ∃ later, Run (later ++ past) d ∧ later.map (·.input) = inputs.reverse := by
  induction inputs generalizing past c with
  | nil =>
    cases h
    exact ⟨[], run, rfl⟩
  | cons i rest ih =>
    obtain ⟨⟨tick, next, left⟩, hstep, hrest⟩ := Checked.bind_eq_ok.mp h
    rw [List.map_cons, List.isChain_cons_cons] at hnow
    have run' : Run (⟨c, i, tick, next⟩ :: past) next :=
      .step (s := ⟨c, i, tick, next⟩) run (hinputs i List.mem_cons_self) hnow.1 ⟨left, hstep⟩
    obtain ⟨later, run'', hlater⟩ :=
      ih run' (fun j hj => hinputs j (List.mem_cons_of_mem _ hj)) hnow.2 hrest
    refine ⟨later ++ [⟨c, i, tick, next⟩], ?_, ?_⟩
    · rw [List.append_assoc]
      exact run''
    · rw [List.map_append, hlater, List.reverse_cons]
      rfl

/-! ## Spells -/

/-- The latest steps that started in `state`. -/
def spell (state : State) (past : List Step) : List Step := past.takeWhile (·.state = state)

/-- The steps before those. -/
def older (state : State) (past : List Step) : List Step := past.dropWhile (·.state = state)

/-- The number of steps that were offered a centred detection. -/
def centeredCount (steps : List Step) : Nat := steps.countP (·.centered)

/-- The number of those that were made at `cutoff` or later. -/
def centeredSince (cutoff : Nat) (steps : List Step) : Nat :=
  steps.countP fun s => s.centered && decide (cutoff ≤ s.now)

/-- The latest centred detection that was offered. -/
def latestSighting (steps : List Step) : Option Sighting := steps.findSome? (·.input.sighting)

/-- The present spell in `state` began with a step at `time` that led into it. -/
def EnteredAt (state : State) (past : List Step) (time : Nat) : Prop :=
  ∃ entry earlier, past = spell state past ++ entry :: earlier ∧ entry.state ≠ state ∧
    entry.after.phase.state = state ∧ entry.now = time

section Spells
variable {state : State} {s : Step} {past : List Step} {time : Nat}

theorem spell_cons (h : s.state = state) : spell state (s :: past) = s :: spell state past := by
  simp [spell, h]

theorem spell_cons_other (h : s.state ≠ state) : spell state (s :: past) = [] := by
  simp [spell, h]

theorem older_cons (h : s.state = state) : older state (s :: past) = older state past := by
  simp [older, h]

theorem older_cons_other (h : s.state ≠ state) : older state (s :: past) = s :: past := by
  simp [older, h]

theorem spell_append_older (state : State) (past : List Step) :
    spell state past ++ older state past = past := List.takeWhile_append_dropWhile

theorem state_of_mem_spell (h : s ∈ spell state past) : s.state = state := by
  simpa using List.mem_takeWhile_imp h

theorem centeredCount_cons : centeredCount (s :: past) =
    centeredCount past + if s.centered then 1 else 0 := List.countP_cons ..

theorem centeredSince_cons_le (cutoff : Nat) :
    centeredSince cutoff (s :: past) ≤ centeredSince cutoff past + 1 := by
  unfold centeredSince
  rw [List.countP_cons]
  split <;> omega

theorem centeredSince_anti {early late : Nat} (h : early ≤ late) :
    centeredSince late past ≤ centeredSince early past := by
  apply List.countP_mono_left
  intro s _ hs
  simp only [Bool.and_eq_true, decide_eq_true_eq] at hs ⊢
  exact ⟨hs.1, h.trans hs.2⟩

/-- A centred detection among the steps is a latest one. -/
theorem exists_latestSighting (h : centeredCount past ≠ 0) : ∃ x, latestSighting past = some x := by
  cases hx : latestSighting past with
  | some x => exact ⟨x, rfl⟩
  | none =>
    exfalso
    apply h
    unfold centeredCount
    rw [List.countP_eq_zero]
    intro s hs
    have hnone := List.findSome?_eq_none_iff.mp hx s hs
    simp [Step.centered, Input.centered, hnone]

theorem EnteredAt.begin (h : s.state ≠ state) (hafter : s.after.phase.state = state) :
    EnteredAt state (s :: past) s.now :=
  ⟨s, past, by rw [spell_cons_other h]; rfl, h, hafter, rfl⟩

theorem EnteredAt.cons (h : EnteredAt state past time) (hs : s.state = state) :
    EnteredAt state (s :: past) time := by
  obtain ⟨entry, earlier, hpast, hentry, hafter, htime⟩ := h
  refine ⟨entry, earlier, ?_, hentry, hafter, htime⟩
  rw [spell_cons hs, List.cons_append, ← hpast]

end Spells

/-! ## The times in the lock history -/

/-- The times of the centred frames consumed while locking, latest first. -/
def lockTimes (past : List Step) : List Nat :=
  (past.filter fun s => s.state = .lock && s.centered).map (·.now)

/-- All centred frames consumed while locking have left the lock window at `now`. -/
def Stale (now : Nat) (past : List Step) : Prop := ∀ t ∈ lockTimes past, t + lockWindow < now

section LockTimes
variable {s : Step} {past : List Step}

theorem lockTimes_cons_other (h : s.state ≠ .lock) : lockTimes (s :: past) = lockTimes past := by
  simp [lockTimes, h]

theorem lockTimes_cons (h : s.state = .lock) :
    lockTimes (s :: past) = if s.centered then s.now :: lockTimes past else lockTimes past := by
  cases hc : s.centered <;> simp [lockTimes, h, hc]

theorem lockTimes_append (steps rest : List Step) :
    lockTimes (steps ++ rest) = lockTimes steps ++ lockTimes rest := by
  simp [lockTimes]

theorem exists_of_mem_lockTimes {t : Nat} (h : t ∈ lockTimes past) :
    ∃ s ∈ past, s.now = t := by
  obtain ⟨s, hs, rfl⟩ := List.mem_map.mp h
  exact ⟨s, List.mem_of_mem_filter hs, rfl⟩

theorem lockTimes_eq_nil {steps : List Step} (h : ∀ s ∈ steps, s.state ≠ .lock) :
    lockTimes steps = [] := by
  unfold lockTimes
  rw [List.map_eq_nil_iff, List.filter_eq_nil_iff]
  intro s hs
  simp [h s hs]

theorem lockTimes_sorted
    (h : past.Pairwise fun later earlier => earlier.now ≤ later.now) :
    (lockTimes past).Pairwise (· ≥ ·) := by
  unfold lockTimes
  exact List.pairwise_map.mpr (h.sublist List.filter_sublist)

theorem Stale.mono {early late : Nat} (h : Stale early past) (hle : early ≤ late) :
    Stale late past := fun t ht => Nat.lt_of_lt_of_le (h t ht) hle

theorem Stale.cons {now : Nat} (h : Stale now past) (hs : s.state ≠ .lock) :
    Stale now (s :: past) := by
  rwa [Stale, lockTimes_cons_other hs]

/-- Over steps that all lock, the times count as the detections do. -/
theorem countP_lockTimes {steps : List Step} (h : ∀ s ∈ steps, s.state = .lock) (cutoff : Nat) :
    (lockTimes steps).countP (cutoff ≤ ·) = centeredSince cutoff steps := by
  unfold lockTimes centeredSince
  rw [List.countP_map, List.countP_filter]
  apply List.countP_congr
  intro s hs
  simp only [Function.comp_apply, h s hs, decide_true, Bool.true_and]
  rw [Bool.and_comm]

/-- Frames that have left the window do not count: the times in it are those of this spell. -/
theorem countP_lockTimes_of_stale {now : Nat} (h : Stale now (older .lock past)) :
    (lockTimes past).countP (now - lockWindow ≤ ·) =
      centeredSince (now - lockWindow) (spell .lock past) := by
  have hold : (lockTimes (older .lock past)).countP (now - lockWindow ≤ ·) = 0 := by
    rw [List.countP_eq_zero]
    intro t ht
    have hleft := h t ht
    simp only [decide_eq_true_eq]
    omega
  conv_lhs => rw [← spell_append_older .lock past]
  rw [lockTimes_append, List.countP_append, hold,
    countP_lockTimes fun s hs => state_of_mem_spell hs, Nat.add_zero]

end LockTimes

/-! ## What the controller keeps, explained by its past -/

/-- What belongs to the present phase, explained by the steps of its spell. -/
def PhaseExplained (past : List Step) (c : Controller) : Prop :=
  match c.phase with
  | .lock _ => Stale (lastTime past) (older .lock past) ∧
      centeredSince (lastTime past - lockWindow) (spell .lock past) ≤ framesToLock
  | .track deadline n => ∃ entry, EnteredAt .track past entry ∧ deadline = entry + trackDuration ∧
      n = centeredCount (spell .track past) ∧
      ∀ x, latestSighting (spell .track past) = some x → c.sighting = some x
  | .fire deadline => ∃ entry, EnteredAt .fire past entry ∧ deadline = entry + fireCooldown ∧
      Stale (lastTime past) past
  | .fail deadline => ∃ entry, EnteredAt .fail past entry ∧ deadline = entry + failCooldown ∧
      Stale (lastTime past) past

/-- The invariant of runs. -/
structure Explained (past : List Step) (c : Controller) : Prop where
  ordered : past.Pairwise fun later earlier => earlier.now ≤ later.now
  history : c.history.Remembers none ((lockTimes past).map some)
  phase : PhaseExplained past c

section Preservation
variable {s : Step} {past : List Step}

theorem lastTime_ge_of_mem {t : Step}
    (h : past.Pairwise fun later earlier => earlier.now ≤ later.now) (ht : t ∈ past) :
    t.now ≤ lastTime past := by
  cases past with
  | nil => simp at ht
  | cons s rest =>
    rcases List.mem_cons.mp ht with rfl | ht
    · exact Nat.le_refl _
    · exact (List.pairwise_cons.mp h).1 t ht

theorem ordered_cons (h : past.Pairwise fun later earlier => earlier.now ≤ later.now)
    (hnow : lastTime past ≤ s.now) :
    (s :: past).Pairwise fun later earlier => earlier.now ≤ later.now :=
  List.pairwise_cons.mpr ⟨fun _ ht => (lastTime_ge_of_mem h ht).trans hnow, h⟩

/-- A lock step pushes the time of a centred frame onto the ring. -/
theorem noted_remembers {c : Controller} (h : c.history.Remembers none ((lockTimes past).map some))
    (hs : s.state = .lock) :
    (c.noted s.input).history.Remembers none ((lockTimes (s :: past)).map some) := by
  rw [lockTimes_cons hs]
  unfold Controller.noted Controller.noteCentered Step.centered Input.centered
  cases hx : s.input.sighting with
  | none => simpa using h
  | some x => simpa [Step.now] using h.push (some s.input.now)

theorem see_history (c : Controller) (x : Option Sighting) : (c.see x).history = c.history := by
  cases x <;> rfl

theorem follow_history {c d : Controller} {offer : Option Box} (h : c.follow offer = .ok d) :
    d.history = c.history := by
  unfold Controller.follow at h
  cases offer with
  | none => cases h; rfl
  | some box =>
    obtain ⟨target, -, rfl⟩ := Checked.map_eq_ok.mp h
    rfl

/-- Only lock steps push onto the ring. -/
theorem history_of_moves {c next : Controller} {i : Input} {aim : Option AimPoints}
    {outcome : Option Outcome} (hmoves : c.Moves i aim outcome next) :
    (c.phase.state = .lock ∧ next.history = (c.noted i).history) ∨
      (c.phase.state ≠ .lock ∧ next.history = c.history) := by
  cases hmoves with
  | seek hb | acquire hb => exact Or.inl ⟨congrArg Phase.state hb, rfl⟩
  | gather hb | reject hb => exact Or.inr ⟨by simp [hb, Phase.state], see_history c _⟩
  | fire hb _ _ _ hnext =>
    rw [hnext]
    exact Or.inr ⟨by simp [hb, Phase.state], see_history c _⟩
  | follow hb _ hfollow | cease hb _ hfollow =>
    have hhistory := follow_history hfollow
    exact Or.inr ⟨by simp [hb, Phase.state], hhistory⟩
  | sulk hb | recover hb => exact Or.inr ⟨by simp [hb, Phase.state], rfl⟩

/-- Every move keeps the ring the front of the lock history. -/
theorem remembers_step {aim : Option AimPoints} {outcome : Option Outcome} {next : Controller}
    (h : s.before.history.Remembers none ((lockTimes past).map some))
    (hmoves : s.before.Moves s.input aim outcome next) :
    next.history.Remembers none ((lockTimes (s :: past)).map some) := by
  rcases history_of_moves hmoves with ⟨hs, hnext⟩ | ⟨hs, hnext⟩
  · rw [hnext]
    exact noted_remembers h hs
  · rw [hnext, lockTimes_cons_other hs]
    exact h

/-- The ring counts exactly the centred frames that this lock phase consumed in the window: none of
an earlier phase, and forty slots lose none, since there are at most twenty-one. -/
theorem recentWith_eq (h : Explained past s.before) (hs : s.state = .lock)
    (hnow : lastTime past ≤ s.now) :
    s.before.recentWith s.input =
        centeredSince (s.now - lockWindow) (spell .lock (s :: past)) ∧
      centeredSince (s.now - lockWindow) (spell .lock (s :: past)) ≤ framesToLock + 1 := by
  have hphase := h.phase
  unfold PhaseExplained at hphase
  obtain ⟨r, hr⟩ : ∃ r, s.before.phase = .lock r := by
    cases hp : s.before.phase with
    | lock r => exact ⟨r, rfl⟩
    | track => simp [Step.state, hp, Phase.state] at hs
    | fire => simp [Step.state, hp, Phase.state] at hs
    | fail => simp [Step.state, hp, Phase.state] at hs
  rw [hr] at hphase
  obtain ⟨hstale, hfew⟩ := hphase
  -- The window only moves on, so that at most one frame is added to those of the last step.
  have hcount :
      centeredSince (s.now - lockWindow) (spell .lock (s :: past)) ≤ framesToLock + 1 := by
    rw [spell_cons hs]
    calc centeredSince (s.now - lockWindow) (s :: spell .lock past)
        ≤ centeredSince (s.now - lockWindow) (spell .lock past) + 1 := centeredSince_cons_le _
      _ ≤ centeredSince (lastTime past - lockWindow) (spell .lock past) + 1 :=
          Nat.add_le_add_right (centeredSince_anti (by omega)) 1
      _ ≤ framesToLock + 1 := Nat.add_le_add_right hfew 1
  refine ⟨?_, hcount⟩
  have hring := Ring.countSince_history (noted_remembers h.history hs)
    (lockTimes_sorted (ordered_cons h.ordered hnow)) (s.now - lockWindow)
  have hstale' : Stale s.now (older .lock (s :: past)) := by
    rw [older_cons hs]
    exact hstale.mono hnow
  have hwindow := countP_lockTimes_of_stale hstale'
  rw [hwindow] at hring
  have hslots : framesToLock + 1 ≤ 40 := by decide
  exact hring.trans (Nat.min_eq_right (hcount.trans hslots))

/-- When tracking has passed its deadline, the frames counted for the lock have left the window. -/
theorem stale_of_deadline {entry : Nat}
    (h : past.Pairwise fun later earlier => earlier.now ≤ later.now)
    (hentered : EnteredAt .track past entry) (hlate : entry + trackDuration < s.now)
    (hs : s.state = .track) : Stale s.now (s :: past) := by
  obtain ⟨e, earlier, hpast, -, -, rfl⟩ := hentered
  intro t ht
  rw [lockTimes_cons_other (by simp [hs]), hpast, lockTimes_append,
    lockTimes_eq_nil (fun x hx => by simp [state_of_mem_spell hx]), List.nil_append] at ht
  obtain ⟨x, hx, rfl⟩ := exists_of_mem_lockTimes ht
  rw [hpast] at h
  have hle : x.now ≤ e.now := lastTime_ge_of_mem (List.pairwise_append.mp h).2.1 hx
  -- Tracking lasts as long as the window.
  have hsame : lockWindow = trackDuration := rfl
  omega

/-- The last sighting is replaced as the detections of tracking come in. -/
theorem see_latest (hs : s.state = .track)
    (h : ∀ x, latestSighting (spell .track past) = some x → s.before.sighting = some x) :
    ∀ x, latestSighting (spell .track (s :: past)) = some x →
      (s.before.see s.input.sighting).sighting = some x := by
  rw [spell_cons hs]
  intro x hx
  simp only [latestSighting, List.findSome?_cons] at hx
  cases hi : s.input.sighting with
  | none =>
    rw [hi] at hx
    exact h x hx
  | some y =>
    rw [hi] at hx
    exact hx

/-- A step that leads back to locking begins a new spell. -/
theorem lock_explained (hs : s.state ≠ .lock) (h : Stale s.now past) :
    Stale s.now (older .lock (s :: past)) ∧
      centeredSince (s.now - lockWindow) (spell .lock (s :: past)) ≤ framesToLock := by
  rw [older_cons_other hs, spell_cons_other hs]
  exact ⟨h.cons hs, Nat.zero_le _⟩

/-- Every move keeps what belongs to the phase explained. -/
theorem phase_step {aim : Option AimPoints} {outcome : Option Outcome} {next : Controller}
    (h : Explained past s.before) (hnow : lastTime past ≤ s.now)
    (hmoves : s.before.Moves s.input aim outcome next) (hafter : s.after = next) :
    PhaseExplained (s :: past) next := by
  have hphase := h.phase
  unfold PhaseExplained at hphase
  cases hmoves with
  | seek hlock hfew =>
    have hs : s.state = .lock := congrArg Phase.state hlock
    rw [hlock] at hphase
    constructor
    · rw [older_cons hs]
      exact hphase.1.mono hnow
    · exact (recentWith_eq h hs hnow).1 ▸ hfew
  | acquire hlock henough =>
    have hs : s.state = .lock := congrArg Phase.state hlock
    have hne : s.state ≠ .track := by simp [hs]
    refine ⟨_, .begin hne (by rw [hafter]; rfl), rfl, ?_, ?_⟩
    · rw [spell_cons_other hne]
      rfl
    · rw [spell_cons_other hne]
      intro x hx
      cases hx
  | gather htrack hearly =>
    have hs : s.state = .track := congrArg Phase.state htrack
    rw [htrack] at hphase
    obtain ⟨entry, hentered, hdeadline, hn, hsighting⟩ := hphase
    refine ⟨entry, hentered.cons hs, hdeadline, ?_, see_latest hs hsighting⟩
    rw [spell_cons hs, centeredCount_cons, ← hn]
    rfl
  | reject htrack hlate hreasons =>
    have hs : s.state = .track := congrArg Phase.state htrack
    rw [htrack] at hphase
    obtain ⟨entry, hentered, rfl, -, -⟩ := hphase
    refine ⟨_, .begin (by simp [hs]) (by rw [hafter]; rfl), rfl, ?_⟩
    exact stale_of_deadline h.ordered hentered hlate hs
  | fire htrack hlate hreasons htarget hnext haim =>
    have hs : s.state = .track := congrArg Phase.state htrack
    rw [htrack] at hphase
    obtain ⟨entry, hentered, rfl, -, -⟩ := hphase
    subst hnext
    refine ⟨_, .begin (by simp [hs]) (by rw [hafter]; rfl), rfl, ?_⟩
    exact stale_of_deadline h.ordered hentered hlate hs
  | follow hfire hearly hfollow haim =>
    have hs : s.state = .fire := congrArg Phase.state hfire
    rw [hfire] at hphase
    obtain ⟨entry, hentered, hdeadline, hstale⟩ := hphase
    unfold PhaseExplained
    rw [Controller.follow_phase hfollow, hfire]
    exact ⟨entry, hentered.cons hs, hdeadline, (hstale.mono hnow).cons (by simp [hs])⟩
  | cease hfire hlate hfollow haim =>
    have hs : s.state = .fire := congrArg Phase.state hfire
    rw [hfire] at hphase
    obtain ⟨entry, -, -, hstale⟩ := hphase
    exact lock_explained (by simp [hs]) (hstale.mono hnow)
  | sulk hfail hearly =>
    have hs : s.state = .fail := congrArg Phase.state hfail
    rw [hfail] at hphase
    obtain ⟨entry, hentered, hdeadline, hstale⟩ := hphase
    unfold PhaseExplained
    rw [hfail]
    exact ⟨entry, hentered.cons hs, hdeadline, (hstale.mono hnow).cons (by simp [hs])⟩
  | recover hfail hlate =>
    have hs : s.state = .fail := congrArg Phase.state hfail
    rw [hfail] at hphase
    obtain ⟨entry, -, -, hstale⟩ := hphase
    exact lock_explained (by simp [hs]) (hstale.mono hnow)

/-- Every move keeps the controller explained. -/
theorem Explained.step {aim : Option AimPoints} {outcome : Option Outcome} {next : Controller}
    (h : Explained past s.before) (hnow : lastTime past ≤ s.now)
    (hmoves : s.before.Moves s.input aim outcome next) (hafter : s.after = next) :
    Explained (s :: past) next :=
  ⟨ordered_cons h.ordered hnow, remembers_step h.history hmoves, phase_step h hnow hmoves hafter⟩

end Preservation

/-- After every run the controller is explained by its past. -/
theorem explained {past : List Step} {c : Controller} (run : Run past c) : Explained past c := by
  induction run with
  | start =>
    refine ⟨List.Pairwise.nil, Ring.remembers_filled none (by decide), ?_, Nat.zero_le _⟩
    intro t ht
    cases ht
  | step _ _ hnow hstep ih =>
    obtain ⟨left, hstep⟩ := hstep
    exact ih.step hnow (Controller.moves_of_step hstep).1 rfl

end FireControl.Aim
