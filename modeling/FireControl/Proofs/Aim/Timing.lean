import FireControl.Proofs.Aim.Firing

/-!
# Phases and the pace of outcomes

The clock alone ends tracking, firing and the pause after a failure (`leaves_on_time`). An outcome
begins a pause, which the next tracking phase can only follow: `Phase.Follows` says for each phase
how far the end of an earlier pause lies behind it, and every move keeps it (`follows_step`). So two
outcomes are never closer than the pause after the first and a tracking phase together
(`phases_keep_time`).
-/

namespace FireControl.Aim

variable {past : List Step} {c : Controller} {s : Step} {i : Input}

/-- The changes of state that a step can make. -/
inductive State.LeadsTo : State → State → Prop
  | acquire : LeadsTo .lock .track
  | fire : LeadsTo .track .fire
  | reject : LeadsTo .track .fail
  | cease : LeadsTo .fire .lock
  | recover : LeadsTo .fail .lock

/-- How long a state lasts that the clock ends, in milliseconds. -/
def State.duration : State → Option Nat
  | .lock => none
  | .track => some 1500
  | .fire => some 5000
  | .fail => some 1000

/-! ## What a step shows -/

theorem leadsTo_of_move (run : Run (s :: past) c) :
    s.after.phase.state = s.state ∨ s.state.LeadsTo s.after.phase.state := by
  obtain ⟨aim, outcome, next, hmoves, -, -, hafter⟩ := run.move
  rw [hafter]
  unfold Step.state
  cases hmoves with
  | seek hb | gather hb => simp [hb, Phase.state]
  | follow hb _ hfollow => exact Or.inl (congrArg Phase.state (Controller.follow_phase hfollow))
  | sulk => exact Or.inl rfl
  | acquire hb => simp [hb, Phase.state, State.LeadsTo.acquire]
  | reject hb => simp [hb, Phase.state, State.LeadsTo.reject]
  | fire hb _ _ _ hnext => simp [hb, hnext, Phase.state, State.LeadsTo.fire]
  | cease hb => simp [hb, Phase.state, State.LeadsTo.cease]
  | recover hb => simp [hb, Phase.state, State.LeadsTo.recover]

theorem outcome_isSome_iff (run : Run (s :: past) c) :
    s.tick.outcome.isSome ↔ s.state = .track ∧ s.after.phase.state ≠ .track := by
  obtain ⟨aim, outcome, next, hmoves, -, houtcome, hafter⟩ := run.move
  rw [hafter, houtcome]
  unfold Step.state
  cases hmoves with
  | seek hb | acquire hb | gather hb | reject hb | follow hb | cease hb | sulk hb | recover hb =>
    simp [hb, Phase.state]
  | fire hb _ _ _ hnext => simp [hb, hnext, Phase.state]

theorem aim_isSome_iff (run : Run (s :: past) c) :
    s.tick.aim.isSome ↔ s.state = .fire ∨ s.after.phase.state = .fire := by
  obtain ⟨aim, outcome, next, hmoves, haim, -, hafter⟩ := run.move
  rw [hafter, haim]
  unfold Step.state
  cases hmoves with
  | seek hb | acquire hb | gather hb | reject hb | follow hb | cease hb | sulk hb | recover hb =>
    simp [hb, Phase.state]
  | fire hb _ _ _ hnext => simp [hb, hnext, Phase.state]

/-! ## Deadlines -/

/-- The time up to which a phase lasts that the clock ends. -/
def Phase.deadline : Phase → Option Nat
  | .lock _ => none
  | .track deadline _ => some deadline
  | .fire deadline => some deadline
  | .fail deadline => some deadline

/-- A move leaves such a phase exactly when its deadline has passed. -/
theorem leaves_iff_late {aim : Option AimPoints} {outcome : Option Outcome} {next : Controller}
    (hmoves : c.Moves i aim outcome next) {deadline : Nat} (h : c.phase.deadline = some deadline) :
    next.phase.state ≠ c.phase.state ↔ deadline < i.now := by
  cases hmoves with
  | seek hb | acquire hb => simp [hb, Phase.deadline] at h
  | gather hb hclock | reject hb hclock | cease hb hclock | sulk hb hclock | recover hb hclock =>
    obtain rfl := Option.some.inj (hb ▸ h)
    simp [hb, Phase.state, hclock]
  | fire hb hclock _ _ hnext =>
    obtain rfl := Option.some.inj (hb ▸ h)
    simp [hb, hnext, Phase.state, hclock]
  | follow hb hclock hfollow =>
    obtain rfl := Option.some.inj (hb ▸ h)
    simp [Controller.follow_phase hfollow, hclock]

/-- The deadline is the time of the step that entered the phase and the duration of the state. -/
theorem deadline_explained {length : Nat} (h : PhaseExplained past c)
    (hlength : c.phase.state.duration = some length) :
    ∃ time, EnteredAt c.phase.state past time ∧ c.phase.deadline = some (time + length) := by
  unfold PhaseExplained at h
  cases hphase : c.phase with
  | lock recent => simp [hphase, Phase.state, State.duration] at hlength
  | track deadline n | fire deadline | fail deadline =>
    rw [hphase] at h hlength
    obtain ⟨time, hentered, hdeadline, -⟩ := h
    cases hlength
    exact ⟨time, hentered, congrArg some hdeadline⟩

theorem leaves_on_time (run : Run (s :: past) c) {length : Nat}
    (hlength : s.state.duration = some length) :
    ∃ time, EnteredAt s.state past time ∧
      (s.after.phase.state ≠ s.state ↔ time + length < s.now) := by
  obtain ⟨-, before, -, hmoves, -⟩ := run.latest
  obtain ⟨time, hentered, hdeadline⟩ := deadline_explained (explained before).phase hlength
  exact ⟨time, hentered, leaves_iff_late hmoves hdeadline⟩

/-! ## The pace of outcomes -/

/-- How long the controller pauses after an outcome. -/
def Outcome.pause : Outcome → Nat
  | .fired _ _ => fireCooldown
  | .failed _ => failCooldown

/-- What a phase at time `now` says about a pause that ended at `time`. -/
def Phase.Follows (now time : Nat) : Phase → Prop
  | .lock _ => time < now
  | .track deadline _ => time + trackDuration < deadline
  | .fire deadline => time ≤ deadline
  | .fail deadline => time ≤ deadline

/-- Every move goes on behind the pauses before it, and an outcome is a tracking phase behind. -/
theorem follows_step {aim : Option AimPoints} {outcome : Option Outcome} {next : Controller}
    {last time : Nat} (h : c.phase.Follows last time) (hlast : last ≤ i.now)
    (hmoves : c.Moves i aim outcome next) :
    next.phase.Follows i.now time ∧
      (outcome.isSome → time + trackDuration + 2 ≤ i.now) := by
  cases hmoves with
  | seek hb | acquire hb =>
    simp only [hb, Phase.Follows] at h ⊢
    refine ⟨by omega, ?_⟩
    simp
  | gather hb =>
    rw [hb] at h
    exact ⟨h, nofun⟩
  | reject hb hlate =>
    simp only [hb, Phase.Follows] at h ⊢
    exact ⟨by omega, fun _ => by omega⟩
  | fire hb hlate _ _ hnext =>
    simp only [hb, hnext, Phase.Follows] at h ⊢
    exact ⟨by omega, fun _ => by omega⟩
  | follow hb hearly hfollow =>
    rw [Controller.follow_phase hfollow]
    rw [hb] at h ⊢
    exact ⟨h, nofun⟩
  | cease hb hlate | recover hb hlate =>
    simp only [hb, Phase.Follows] at h ⊢
    refine ⟨by omega, ?_⟩
    simp
  | sulk hb =>
    rw [hb] at h ⊢
    exact ⟨h, nofun⟩

/-- The pause that an outcome begins ends with the phase that it leads to. -/
theorem follows_outcome {aim : Option AimPoints} {outcome : Option Outcome} {next : Controller}
    (hmoves : c.Moves i aim outcome next) :
    ∀ o ∈ outcome, next.phase.Follows i.now (i.now + o.pause) := by
  intro o ho
  cases hmoves with
  | seek | acquire | gather | follow | cease | sulk | recover => cases ho
  | reject =>
    cases ho
    exact Nat.le_refl _
  | fire _ _ _ _ hnext =>
    cases ho
    rw [hnext]
    exact Nat.le_refl _

/-- After every run the controller is behind the pauses of all outcomes. -/
theorem follows_outcomes (run : Run past c) :
    ∀ e ∈ past, ∀ o ∈ e.tick.outcome, c.phase.Follows (lastTime past) (e.now + o.pause) := by
  induction run with
  | start => simp
  | step run hi hnow hstep ih =>
    obtain ⟨left, hstep⟩ := hstep
    have hmoves := (Controller.moves_of_step hstep).1
    intro e he o ho
    rcases List.mem_cons.mp he with rfl | he
    · exact follows_outcome hmoves o ho
    · exact (follows_step (ih e he o ho) hnow hmoves).1

/-- A tracking phase lies between a pause and the next outcome. -/
theorem pause_before_outcome (run : Run (s :: past) c) (hs : s.tick.outcome.isSome) :
    ∀ e ∈ past, ∀ o ∈ e.tick.outcome, e.now + o.pause + 1502 ≤ s.now := by
  intro e he o ho
  obtain ⟨-, before, hnow, hmoves, -⟩ := run.latest
  exact (follows_step (follows_outcomes before e he o ho) hnow hmoves).2 hs

/-- On every run a step returns, as long as its tracking phase has fewer than `2 ^ 32` steps, and
keeps to the order of the phases. It leaves the tracking, firing and failure phases exactly when
their time since the step that entered them is over. It shows an outcome exactly when it leaves the
tracking phase and an aim exactly when it starts or ends firing. Outcomes are at least 2502
milliseconds apart, and 6502 after firing. -/
theorem phases_keep_time (run : Run past c) (hi : i.Admissible) (hnow : lastTime past ≤ i.now)
    (hshort : c.phase.state = .track → (spell .track past).length + 1 < 2 ^ 32) :
    ∃ s : Step, s.before = c ∧ s.input = i ∧ Run (s :: past) s.after ∧
      (s.after.phase.state = s.state ∨ s.state.LeadsTo s.after.phase.state) ∧
      (∀ length ∈ s.state.duration, ∃ time, EnteredAt s.state past time ∧
        (s.after.phase.state ≠ s.state ↔ time + length < s.now)) ∧
      (s.tick.outcome.isSome ↔ s.state = .track ∧ s.after.phase.state ≠ .track) ∧
      (s.tick.aim.isSome ↔ s.state = .fire ∨ s.after.phase.state = .fire) ∧
      (s.tick.outcome.isSome → ∀ e ∈ past,
        (e.tick.outcome.isSome → e.now + 2502 ≤ s.now) ∧
        (∀ distance velocity, e.tick.outcome = some (.fired distance velocity) →
          e.now + 6502 ≤ s.now)) := by
  obtain ⟨s, rfl, rfl, run⟩ := run.continues hi hnow hshort
  refine ⟨s, rfl, rfl, run, leadsTo_of_move run, fun _ h => leaves_on_time run h,
    outcome_isSome_iff run, aim_isSome_iff run, fun hs e he => ⟨fun hsome => ?_, ?_⟩⟩
  · obtain ⟨o, ho⟩ := Option.isSome_iff_exists.mp hsome
    have hpace := pause_before_outcome run hs e he o ho
    have hpause : failCooldown ≤ o.pause := by
      cases o with
      | fired => exact show failCooldown ≤ fireCooldown by decide
      | failed => exact Nat.le_refl failCooldown
    have hfail : failCooldown = 1000 := rfl
    omega
  · intro distance velocity hfired
    exact pause_before_outcome run hs e he _ hfired

/-- A target that is held all the time is fired at again as soon as the pause after firing and
another tracking phase allow it. -/
theorem phases_keep_time_again :
    ∃ past c, Run past c ∧ (heldTarget 8003).Admissible ∧ lastTime past ≤ 8003 ∧
      (spell .track past).length + 1 < 2 ^ 32 ∧
      ∃ s e : Step, s.before = c ∧ s.input = heldTarget 8003 ∧ e ∈ past ∧ e.now + 6502 = s.now ∧
        e.tick.outcome = some (.fired 20 0) ∧ s.tick.outcome = some (.fired 20 0) ∧
        s.state = .track ∧ s.after.phase.state ≠ .track ∧ e.now + 6502 ≤ s.now := by
  have hreplay : ((Controller.replay {} (List.replicate 41 (heldTarget 0))).bind fun c =>
      (c.stepOn (heldTarget 1501)).bind fun r =>
        (r.2.1.replay (List.replicate 42 (heldTarget 6502))).bind fun d =>
          (d.stepOn (heldTarget 8003)).map fun r' => (r.1.outcome, r'.1.outcome)) =
      .ok (some (.fired 20 0), some (.fired 20 0)) := by
    decide +kernel
  obtain ⟨c, hc, hreplay⟩ := Checked.bind_eq_ok.mp hreplay
  obtain ⟨⟨tick, c', left⟩, hfirst, hreplay⟩ := Checked.bind_eq_ok.mp hreplay
  obtain ⟨d, hd, hreplay⟩ := Checked.bind_eq_ok.mp hreplay
  obtain ⟨r, hr, houtcomes⟩ := Checked.map_eq_ok.mp hreplay
  obtain ⟨hfired, hagain⟩ := Prod.mk.inj houtcomes
  obtain ⟨past, run, hnow, hlength⟩ := run_of_held hc
  let e : Step := ⟨c, heldTarget 1501, tick, c'⟩
  have first : Run (e :: past) c' :=
    .step (s := e) run (heldTarget_admissible (by decide)) (hnow.trans (Nat.zero_le _))
      ⟨left, hfirst⟩
  have he : e.now ≤ 6502 := show 1501 ≤ 6502 by decide
  obtain ⟨later, second, hlast, hcount⟩ := first.hold he (by decide) hd
  have hshort : (spell .track (later ++ e :: past)).length + 1 < 2 ^ 32 := by
    have hle := (List.takeWhile_sublist (fun s : Step => s.state = .track)
      (l := later ++ e :: past)).length_le
    rw [List.length_append, List.length_cons] at hle
    unfold spell
    omega
  have hlast' : lastTime (later ++ e :: past) ≤ 8003 := hlast.trans (by decide)
  have hi : (heldTarget 8003).Admissible := heldTarget_admissible (by decide)
  obtain ⟨s, hbefore, hinput, last, -, -, hleaves, -, hpace⟩ :=
    phases_keep_time second hi hlast' fun _ => hshort
  obtain ⟨left', hstep⟩ := last.stepOn
  rw [hbefore, hinput, hr] at hstep
  cases hstep
  have hsome : s.tick.outcome.isSome := by rw [hagain]; rfl
  have hmem : e ∈ later ++ e :: past := by simp
  obtain ⟨htrack, hleft⟩ := hleaves.mp hsome
  have hs : s.now = 8003 := congrArg Input.now hinput
  exact ⟨_, d, second, hi, hlast', hshort, s, e, hbefore, hinput, hmem, hs.symm, hfired, hagain,
    htrack, hleft, (hpace hsome e hmem).2 20 0 hfired⟩

end FireControl.Aim
