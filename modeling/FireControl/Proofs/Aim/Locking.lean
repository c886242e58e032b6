import FireControl.Proofs.Aim.Progress

/-!
# Lock acquisition

A step that starts in the lock phase compares the centred frames of the last second and a half with
those needed. `lock_step_exact` says that the frames it compares are exactly those that this lock
phase consumed: none left over from an earlier one, and none lost by the ring.
-/

namespace FireControl.Aim

variable {past : List Step} {c : Controller} {s : Step} {i : Input}

/-- The centred frames that the lock phase of a step consumed within the lock window. -/
def lockCount (past : List Step) (s : Step) : Nat :=
  centeredSince (s.now - lockWindow) (spell .lock (s :: past))

/-- A step in the lock phase counts the frames of this phase alone, and goes on as they tell. -/
theorem lock_step (run : Run (s :: past) c) (hlock : s.state = .lock) :
    s.after.history.countSince (s.now - lockWindow) = lockCount past s ∧
      lockCount past s ≤ framesToLock + 1 ∧
      s.after.phase = if framesToLock < lockCount past s then .track (s.now + trackDuration) 0
        else .lock (lockCount past s) := by
  obtain ⟨-, before, hnow, -⟩ := run.latest
  obtain ⟨aim, outcome, next, hmoves, -, -, hafter⟩ := run.move
  obtain ⟨hcount, hmost⟩ := recentWith_eq (explained before) hlock hnow
  change _ = lockCount past s at hcount
  change lockCount past s ≤ _ at hmost
  rw [hafter]
  cases hmoves with
  | seek hphase hfew =>
    rw [hcount] at hfew ⊢
    exact ⟨hcount, hmost, (if_neg (Nat.not_lt_of_le hfew)).symm⟩
  | acquire hphase henough =>
    rw [hcount] at henough
    exact ⟨hcount, hmost, (if_pos henough).symm⟩
  | gather hphase | reject hphase | fire hphase | follow hphase | cease hphase | sulk hphase
  | recover hphase =>
    simp [Step.state, hphase, Phase.state] at hlock

/-- While locking, each of the twenty frames needed is five percent of what is shown. -/
theorem percent_of_lock {c : Controller} {o : Overlay} {recent : Nat}
    (hphase : c.phase = .lock recent) (hrecent : recent ≤ framesToLock)
    (h : c.overlay = .ok o) : o.progress.percent = 5 * recent := by
  unfold Controller.overlay Overlay.build at h
  rw [hphase] at h
  obtain ⟨_, hlock, h⟩ := Checked.bind_eq_ok.mp h
  obtain ⟨bar, hbar, rfl⟩ := Checked.map_eq_ok.mp hlock
  obtain ⟨scaled, hscaled, hbar⟩ := Checked.bind_eq_ok.mp hbar
  obtain ⟨-, rfl⟩ := Checked.nat64_eq_ok.mp hscaled
  obtain rfl := Checked.pure_eq_ok.mp h
  obtain rfl := Checked.pure_eq_ok.mp hbar
  have hshare : recent * 100 / framesToLock = 5 * recent :=
    Nat.div_eq_of_eq_mul_left (by decide) (show recent * 100 = 5 * recent * 20 by omega)
  have htwenty : framesToLock = 20 := rfl
  show ((min (recent * 100 / framesToLock) 100 : Nat) : Int) = 5 * recent
  omega

/-- On every run, a step in the lock phase returns. It ends in the tracking phase if and only if
this lock phase has consumed more than twenty centred frames in the lock window, and then it has
consumed exactly twenty-one of them. Otherwise it shows their number, at five percent each. The ring
of forty times counts as the whole history of the phase does. -/
theorem lock_step_exact (run : Run past c) (hi : i.Admissible) (hnow : lastTime past ≤ i.now)
    (hlock : c.phase.state = .lock) :
    ∃ s : Step, s.before = c ∧ s.input = i ∧ Run (s :: past) s.after ∧
      (s.after.phase.state = .track ↔ 20 < lockCount past s) ∧
      (20 < lockCount past s → lockCount past s = 21) ∧
      (¬ 20 < lockCount past s → s.after.phase = .lock (lockCount past s) ∧
        s.tick.overlay.progress.percent = 5 * lockCount past s) ∧
      s.after.history.countSince (i.now - 1500) = lockCount past s := by
  obtain ⟨s, rfl, rfl, run⟩ := run.continues hi hnow fun htrack => by
    rw [hlock] at htrack
    cases htrack
  obtain ⟨hring, hmost, hphase⟩ := lock_step run hlock
  have htwenty : framesToLock = 20 := rfl
  rw [htwenty] at hmost hphase
  refine ⟨s, rfl, rfl, run, ?_, fun henough => by omega, fun hfew => ?_, hring⟩
  · rw [hphase]
    split
    · next henough => exact iff_of_true rfl henough
    · next hfew => exact iff_of_false (fun h => by cases h) hfew
  · rw [if_neg hfew] at hphase
    exact ⟨hphase, percent_of_lock hphase (Nat.le_of_not_lt hfew) run.latest.2.2.2.2⟩

/-- A target in the middle of the frame, a steady rig and a live radar. -/
def heldTarget (now : Nat) : Input :=
  { now, offer := some ⟨350, 200, 100, 200⟩, readings := ⟨20, true, ⟨0, 0⟩⟩, table := {} }

theorem heldTarget_admissible {now : Nat} (h : now ≤ 10000) : (heldTarget now).Admissible := by
  refine ⟨le_trans h (by decide), fun box hbox => ?_⟩
  cases hbox
  exact ⟨by decide, by decide, by decide, by decide⟩

/-- A run goes on with a target held for `n` steps. -/
theorem Run.hold {n now : Nat} {d : Controller} (run : Run past c) (hnow : lastTime past ≤ now)
    (hle : now ≤ 10000) (h : c.replay (List.replicate n (heldTarget now)) = .ok d) :
    ∃ later, Run (later ++ past) d ∧ lastTime (later ++ past) ≤ now ∧ later.length = n := by
  have htimes : (lastTime past :: List.replicate n now).IsChain (· ≤ ·) := by
    cases n with
    | zero => exact .singleton _
    | succ n =>
      rw [List.replicate_succ, List.isChain_cons_cons, ← List.replicate_succ]
      exact ⟨hnow, List.isChain_replicate_of_rel (n + 1) (Nat.le_refl now)⟩
  obtain ⟨later, run', hlater⟩ := run.replay
    (fun i hi => List.eq_of_mem_replicate hi ▸ heldTarget_admissible hle)
    (by rw [List.map_replicate]; exact htimes) h
  rw [List.reverse_replicate] at hlater
  refine ⟨later, run', ?_, by simpa using congrArg List.length hlater⟩
  cases later with
  | nil => exact hnow
  | cons t rest =>
    have ht : t.input ∈ List.replicate n (heldTarget now) := hlater ▸ List.mem_cons_self
    show t.input.now ≤ now
    rw [List.eq_of_mem_replicate ht]
    exact Nat.le_refl now

/-- The run on a target held from the beginning for `n` steps. -/
theorem run_of_held {n : Nat} {c : Controller}
    (h : Controller.replay {} (List.replicate n (heldTarget 0)) = .ok c) :
    ∃ past, Run past c ∧ lastTime past ≤ 0 ∧ past.length = n := by
  obtain ⟨past, run, hpast⟩ := Run.start.hold (Nat.le_refl 0) (Nat.zero_le _) h
  rw [List.append_nil] at run hpast
  exact ⟨past, run, hpast⟩

/-- A target held for twenty steps is locked onto in the next one. -/
theorem lock_step_exact_held :
    ∃ past c, Run past c ∧ (heldTarget 0).Admissible ∧ lastTime past ≤ 0 ∧
      c.phase.state = .lock ∧
      ∃ s : Step, s.before = c ∧ s.input = heldTarget 0 ∧ s.after.phase.state = .track ∧
        lockCount past s = 21 := by
  have hreplay : ((Controller.replay {} (List.replicate 20 (heldTarget 0))).bind fun c =>
      (c.stepOn (heldTarget 0)).map fun r => (c.phase.state, r.2.1.phase.state)) =
      .ok (.lock, .track) := by decide +kernel
  obtain ⟨c, hc, hreplay⟩ := Checked.bind_eq_ok.mp hreplay
  obtain ⟨r, hr, hstates⟩ := Checked.map_eq_ok.mp hreplay
  obtain ⟨hlock, htrack⟩ := Prod.mk.inj hstates
  obtain ⟨past, run, hnow, -⟩ := run_of_held hc
  have hi : (heldTarget 0).Admissible := heldTarget_admissible (by decide)
  obtain ⟨s, hbefore, hinput, run', hiff, hexact, -⟩ := lock_step_exact run hi hnow hlock
  obtain ⟨left, hstep⟩ := run'.stepOn
  rw [hbefore, hinput, hr] at hstep
  cases hstep
  exact ⟨past, c, run, hi, hnow, hlock, s, hbefore, hinput, htrack, hexact (hiff.mp htrack)⟩

end FireControl.Aim
