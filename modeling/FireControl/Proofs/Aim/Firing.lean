import FireControl.Proofs.Aim.Locking

/-!
# Safe fire and no missed fire

A tracking phase begins with the step that grants the lock and is decided by the first step past
its deadline. `track_step` says what a tracking step does in terms of the run: it waits, rejects or
fires as the frames consumed in this phase and the readings of the step tell.
`fires_exactly_when_safe` puts it as the conditions for firing, the reasons for a rejection and the
target aimed at.
-/

namespace FireControl.Aim

open FireControl.Calibration (Ballistics)

variable {past : List Step} {c : Controller} {s : Step} {i : Input}

deriving instance DecidableEq for Outcome

/-! ## The reasons of a decision -/

/-- The set holds the vision, gyro and radar reasons as told, and nothing else. -/
structure FailReasons.Exactly (r : FailReasons) (vision gyro radar : Prop) : Prop where
  vision : r.contains .vision = true ↔ vision
  gyro : r.contains .gyro = true ↔ gyro
  radar : r.contains .radar = true ↔ radar
  known : r.bits < 8

theorem FailReasons.collect_exactly (vision gyro radar : Bool) :
    (collect vision gyro radar).Exactly (vision = true) (gyro = true) (radar = true) := by
  cases vision <;> cases gyro <;> cases radar <;> constructor <;> decide

theorem FailReasons.collect_eq_empty {vision gyro radar : Bool} :
    collect vision gyro radar = empty ↔ vision = false ∧ gyro = false ∧ radar = false := by
  cases vision <;> cases gyro <;> cases radar <;> decide

/-- A decision finds the reasons that the frames and the readings give it. -/
theorem judge_exactly (centered : Nat) (r : Readings) :
    (Controller.judge centered r).Exactly (centered < 20) (r.rotation.variance > 15)
      (r.radarAlive = false) := by
  have h := FailReasons.collect_exactly (decide (centered < trackMinimum))
    (decide (r.rotation.variance > maxVariance)) (!r.radarAlive)
  rw [decide_eq_true_eq, decide_eq_true_eq, Bool.not_eq_true'] at h
  exact h

/-- Too few centred frames have been consumed in the tracking phase, this step's included. -/
def Few (past : List Step) (s : Step) : Prop := centeredCount (spell .track (s :: past)) < 20

/-- The rig turns too unsteadily at this step. -/
def Unsteady (s : Step) : Prop := s.input.readings.rotation.variance > 15

/-- The radar is quiet at this step. -/
def Silent (s : Step) : Prop := s.input.readings.radarAlive = false

/-- The reasons against firing at a tracking step. -/
def verdict (past : List Step) (s : Step) : FailReasons :=
  Controller.judge (centeredCount (spell .track (s :: past))) s.input.readings

theorem verdict_exactly (past : List Step) (s : Step) :
    (verdict past s).Exactly (Few past s) (Unsteady s) (Silent s) := judge_exactly ..

theorem verdict_eq_empty : verdict past s = .empty ↔ ¬ Few past s ∧ ¬ Unsteady s ∧ ¬ Silent s := by
  refine FailReasons.collect_eq_empty.trans ?_
  rw [decide_eq_false_iff_not, decide_eq_false_iff_not, Bool.not_eq_false', ← Bool.not_eq_false]
  rfl

/-! ## The beginning of a tracking phase -/

/-- The present tracking phase began when `entry` granted the lock on twenty-one centred frames of
the steps up to itself; the tracking steps are those after it. -/
structure Granted (past : List Step) (entry : Step) (earlier : List Step) : Prop where
  split : past = spell .track past ++ entry :: earlier
  lock : entry.state = .lock
  counted : lockCount earlier entry = 21
  track : entry.after.phase.state = .track

theorem Granted.unique {entry other : Step} {earlier before : List Step}
    (h : Granted past entry earlier) (h' : Granted past other before) : entry = other := by
  have hcons := List.append_cancel_left (h.split.symm.trans h'.split)
  exact (List.cons.inj hcons).1

/-- A run was a run when it had come only so far. -/
theorem Run.suffix {later earlier : List Step} (run : Run (later ++ s :: earlier) c) :
    Run (s :: earlier) s.after := by
  induction later generalizing c with
  | nil =>
    obtain ⟨rfl, -⟩ := run.latest
    exact run
  | cons t later ih => exact ih run.latest.2.1

/-- Tracking is entered from the lock phase alone. -/
theorem granted_of_entered {time : Nat} (run : Run past c) (h : EnteredAt .track past time) :
    ∃ entry earlier, Granted past entry earlier ∧ entry.now = time := by
  obtain ⟨entry, earlier, hpast, hentry, hafter, htime⟩ := h
  have run' : Run (entry :: earlier) entry.after := by
    rw [hpast] at run
    exact run.suffix
  have hlock : entry.state = .lock := by
    obtain ⟨aim, outcome, next, hmoves, -, -, hnext⟩ := run'.move
    rw [hnext] at hafter
    cases hmoves with
    | seek hphase | acquire hphase => exact congrArg Phase.state hphase
    | gather hphase | reject hphase | fire hphase =>
      exact absurd (congrArg Phase.state hphase) hentry
    | follow hphase _ hfollow =>
      rw [Controller.follow_phase hfollow, hphase] at hafter
      cases hafter
    | cease => cases hafter
    | sulk hphase =>
      rw [hphase] at hafter
      cases hafter
    | recover => cases hafter
  obtain ⟨-, hmost, hphase⟩ := lock_step run' hlock
  refine ⟨entry, earlier, ⟨hpast, hlock, ?_, hafter⟩, htime⟩
  by_cases henough : framesToLock < lockCount earlier entry
  · exact Nat.le_antisymm hmost henough
  · rw [if_neg henough] at hphase
    rw [hphase] at hafter
    cases hafter

/-! ## Tracking steps -/

/-- The corrected aim is an aim at the controller's target. -/
theorem aimPoints_target {b : Ballistics Float} {aim : AimPoints}
    (h : c.aimPoints b = .ok aim) : aim.target = c.target := by
  obtain ⟨x, -, h⟩ := Checked.bind_eq_ok.mp h
  obtain ⟨y, -, h⟩ := Checked.bind_eq_ok.mp h
  rw [← Checked.pure_eq_ok.mp h]

/-- The aim is the aim point of the latest centred box that the tracking phase has consumed. -/
def AimsAtLatest (past : List Step) (s : Step) : Prop :=
  ∃ sighting aim, latestSighting (spell .track (s :: past)) = some sighting ∧
    s.tick.aim = some aim ∧ sighting.box.aimPoint = .ok aim.target

/-- What the controller keeps in the tracking phase, in terms of the steps since the lock. -/
theorem tracking_explained {deadline n : Nat} (run : Run past c) (h : c.phase = .track deadline n) :
    ∃ entry earlier, Granted past entry earlier ∧ deadline = entry.now + trackDuration ∧
      n = centeredCount (spell .track past) ∧
      ∀ x, latestSighting (spell .track past) = some x → c.sighting = some x := by
  have hphase := (explained run).phase
  unfold PhaseExplained at hphase
  rw [h] at hphase
  obtain ⟨time, hentered, hdeadline, hn, hlatest⟩ := hphase
  obtain ⟨entry, earlier, hgranted, rfl⟩ := granted_of_entered run hentered
  exact ⟨entry, earlier, hgranted, hdeadline, hn, hlatest⟩

/-- The decision judges all frames of the tracking phase. -/
theorem judge_gathered (htrack : s.state = .track) :
    Controller.judge (Controller.gathered (centeredCount (spell .track past)) s.input)
      s.input.readings = verdict past s := by
  unfold verdict
  rw [spell_cons htrack, centeredCount_cons]
  rfl

/-- What a step in the tracking phase does: it waits, it rejects or it fires. -/
theorem track_step (run : Run (s :: past) c) (htrack : s.state = .track) :
    ∃ entry earlier, Granted past entry earlier ∧
      ((s.now ≤ entry.now + trackDuration ∧ s.tick.outcome = none) ∨
        (entry.now + trackDuration < s.now ∧ verdict past s ≠ .empty ∧
          s.tick.outcome = some (.failed (verdict past s))) ∨
        (entry.now + trackDuration < s.now ∧ verdict past s = .empty ∧
          (∃ distance velocity, s.tick.outcome = some (.fired distance velocity)) ∧
          AimsAtLatest past s)) := by
  have before := run.latest.2.1
  obtain ⟨aim, outcome, next, hmoves, haimed, houtcome, -⟩ := run.move
  rw [houtcome]
  cases hmoves with
  | seek hb | acquire hb | follow hb | cease hb | sulk hb | recover hb =>
    simp [Step.state, hb, Phase.state] at htrack
  | gather hb hearly =>
    obtain ⟨entry, earlier, hgranted, rfl, -⟩ := tracking_explained before hb
    exact ⟨entry, earlier, hgranted, Or.inl ⟨hearly, rfl⟩⟩
  | reject hb hlate hreasons =>
    obtain ⟨entry, earlier, hgranted, rfl, rfl, -⟩ := tracking_explained before hb
    rw [judge_gathered htrack] at hreasons ⊢
    exact ⟨entry, earlier, hgranted, Or.inr (Or.inl ⟨hlate, hreasons, rfl⟩)⟩
  | fire hb hlate hreasons htarget hnext haim =>
    obtain ⟨entry, earlier, hgranted, rfl, rfl, hlatest⟩ := tracking_explained before hb
    rw [judge_gathered htrack] at hreasons
    -- Twenty centred frames are more than none, so that the target is one of this phase.
    have hmany : ¬ centeredCount (spell .track (s :: past)) < 20 := (verdict_eq_empty.mp hreasons).1
    have hsome : centeredCount (spell .track (s :: past)) ≠ 0 := by
      intro hnone
      apply hmany
      rw [hnone]
      decide
    obtain ⟨sighting, hsighting⟩ := exists_latestSighting hsome
    unfold Controller.solutionTarget at htarget
    rw [see_latest htrack hlatest sighting hsighting] at htarget
    refine ⟨entry, earlier, hgranted, Or.inr (Or.inr ⟨hlate, hreasons, ⟨_, _, rfl⟩, ?_⟩)⟩
    refine ⟨sighting, _, hsighting, haimed, ?_⟩
    rw [aimPoints_target haim, hnext]
    exact htarget

/-- A step that does not start in the tracking phase has no outcome. -/
theorem outcome_eq_none (run : Run (s :: past) c) (h : s.state ≠ .track) :
    s.tick.outcome = none := by
  obtain ⟨aim, outcome, next, hmoves, -, houtcome, -⟩ := run.move
  rw [houtcome]
  cases hmoves with
  | seek | acquire | gather | follow | cease | sulk | recover => rfl
  | reject hb | fire hb => exact absurd (congrArg Phase.state hb) h

/-- The step is made past the deadline of the tracking phase that it starts in. -/
def Overdue (past : List Step) (s : Step) : Prop :=
  s.state = .track ∧ ∃ entry earlier, Granted past entry earlier ∧ entry.now + 1500 < s.now

/-- On every run a step returns, as long as its tracking phase has fewer than `2 ^ 32` steps. It
fires exactly when it is past the deadline of its tracking phase and nothing speaks against firing;
it fails exactly when it is past the deadline and something does, and the reasons it gives are what
does. When it fires, it aims at the latest centred box of this tracking phase. -/
theorem fires_exactly_when_safe (run : Run past c) (hi : i.Admissible)
    (hnow : lastTime past ≤ i.now)
    (hshort : c.phase.state = .track → (spell .track past).length + 1 < 2 ^ 32) :
    ∃ s : Step, s.before = c ∧ s.input = i ∧ Run (s :: past) s.after ∧
      ((∃ distance velocity, s.tick.outcome = some (.fired distance velocity)) ↔
        Overdue past s ∧ ¬ Few past s ∧ ¬ Unsteady s ∧ ¬ Silent s) ∧
      ((∃ reasons, s.tick.outcome = some (.failed reasons)) ↔
        Overdue past s ∧ (Few past s ∨ Unsteady s ∨ Silent s)) ∧
      (∀ reasons, s.tick.outcome = some (.failed reasons) →
        reasons.Exactly (Few past s) (Unsteady s) (Silent s)) ∧
      (∀ distance velocity, s.tick.outcome = some (.fired distance velocity) →
        AimsAtLatest past s) := by
  obtain ⟨s, rfl, rfl, run⟩ := run.continues hi hnow hshort
  refine ⟨s, rfl, rfl, run, ?_⟩
  by_cases htrack : s.state = .track
  · obtain ⟨entry, earlier, hgranted, hcase⟩ := track_step run htrack
    have hoverdue : Overdue past s ↔ entry.now + trackDuration < s.now := by
      constructor
      · rintro ⟨-, other, _, hother, hlate⟩
        rw [hgranted.unique hother]
        exact hlate
      · intro hlate
        exact ⟨htrack, entry, earlier, hgranted, hlate⟩
    have hempty : verdict past s = .empty ↔ ¬ Few past s ∧ ¬ Unsteady s ∧ ¬ Silent s :=
      verdict_eq_empty
    have hreasons : verdict past s ≠ .empty ↔ Few past s ∨ Unsteady s ∨ Silent s := by
      rw [ne_eq, hempty, not_and_or, not_and_or, not_not, not_not, not_not]
    rcases hcase with ⟨hearly, hnone⟩ | ⟨hlate, hbad, hfailed⟩ | ⟨hlate, hgood, hfired, haim⟩
    · rw [hnone, hoverdue]
      have hnot : ¬ entry.now + trackDuration < s.now := by omega
      simp [hnot]
    · rw [hfailed, hoverdue, ← hempty, ← hreasons]
      simp [hlate, hbad, verdict_exactly]
    · obtain ⟨distance, velocity, hfired⟩ := hfired
      rw [hfired, hoverdue, ← hempty, ← hreasons]
      simp [hlate, hgood, haim]
  · have hnot : ¬ Overdue past s := fun h => htrack h.1
    rw [outcome_eq_none run htrack]
    simp [hnot]

/-- A target held for twenty more steps after the lock is fired at past the deadline. -/
theorem fires_exactly_when_safe_held :
    ∃ past c, Run past c ∧ (heldTarget 1501).Admissible ∧ lastTime past ≤ 1501 ∧
      (spell .track past).length + 1 < 2 ^ 32 ∧
      ∃ s : Step, s.before = c ∧ s.input = heldTarget 1501 ∧
        s.tick.outcome = some (.fired 20 0) ∧ Overdue past s ∧ ¬ Few past s ∧ ¬ Unsteady s ∧
        ¬ Silent s ∧ AimsAtLatest past s := by
  have hreplay : ((Controller.replay {} (List.replicate 41 (heldTarget 0))).bind fun c =>
      (c.stepOn (heldTarget 1501)).map fun r => r.1.outcome) = .ok (some (.fired 20 0)) := by
    decide +kernel
  obtain ⟨c, hc, hreplay⟩ := Checked.bind_eq_ok.mp hreplay
  obtain ⟨r, hr, hfired⟩ := Checked.map_eq_ok.mp hreplay
  obtain ⟨past, run, hnow, hlength⟩ := run_of_held hc
  have hnow' : lastTime past ≤ 1501 := le_trans hnow (by decide)
  have hi : (heldTarget 1501).Admissible := heldTarget_admissible (by decide)
  have hshort : (spell .track past).length + 1 < 2 ^ 32 := by
    have hle := (List.takeWhile_sublist (fun s : Step => s.state = .track) (l := past)).length_le
    unfold spell
    omega
  obtain ⟨s, hbefore, hinput, run', hiff, -, -, haims⟩ :=
    fires_exactly_when_safe run hi hnow' fun _ => hshort
  obtain ⟨left, hstep⟩ := run'.stepOn
  rw [hbefore, hinput, hr] at hstep
  cases hstep
  obtain ⟨hoverdue, hmany, hsteady, halive⟩ := hiff.mp ⟨_, _, hfired⟩
  exact ⟨past, c, run, hi, hnow', hshort, s, hbefore, hinput, hfired, hoverdue, hmany, hsteady,
    halive, haims _ _ hfired⟩

end FireControl.Aim
