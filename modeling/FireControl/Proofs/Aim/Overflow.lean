import FireControl.Proofs.Aim.Mirror
import FireControl.Proofs.Aim.Progress
import FireControl.Proofs.Calibration.Reach

/-!
# Steps never overflow

The arithmetic of a step stays within its widths however the clock runs, whatever the sensors report
and whatever the table holds: boxes keep the target near (`Controller.Bounded`), a count of centred
frames is not larger than the spell of tracking it belongs to (`Counted`), and corrections do not
reach farther than entries of a table (`inReach_of_moves`). So every sequence of admissible inputs
can be run to its end, unless a spell of tracking gets too long for its counter.

Main statement: `steps_never_overflow`.
-/

namespace FireControl.Aim

open FireControl.Calibration (Ballistics Table)
open FireControl.Floating

/-- The corrected point is no farther from the target than an entry of a table can move it. -/
def AimPoints.InReach (p : AimPoints) : Prop :=
  |p.corrected.x - p.target.x| ≤ 32768 ∧ |p.corrected.y - p.target.y| ≤ 32768

namespace Controller

variable {c next : Controller} {i : Input}

/-! ## Corrected points -/

theorem toInt32_signedLead_natAbs_le (t : Table) (distance velocity : Float) :
    (toInt32 (signedLead (Ballistics.ofTable t) distance velocity)).natAbs ≤ 32768 := by
  have hlead := Ballistics.toInt32_lead_natAbs_le t distance velocity
  unfold signedLead
  split
  · rw [toInt32_neg (Ballistics.lead_within t distance velocity) (by decide) (by decide),
      Int.natAbs_neg]
    exact hlead
  · exact hlead

theorem inReach_of_aimPoints {t : Table} {p : AimPoints}
    (h : c.aimPoints (Ballistics.ofTable t) = .ok p) : p.InReach := by
  obtain ⟨x, hx, h⟩ := Checked.bind_eq_ok.mp h
  obtain ⟨y, hy, h⟩ := Checked.bind_eq_ok.mp h
  obtain ⟨-, rfl⟩ := Checked.int32_eq_ok.mp hx
  obtain ⟨-, rfl⟩ := Checked.int32_eq_ok.mp hy
  cases Checked.pure_eq_ok.mp h
  have hlead := toInt32_signedLead_natAbs_le t (widen c.distance) (widen c.angularVelocity)
  have hdrop := Ballistics.toInt32_drop_natAbs_le t (widen c.distance)
  constructor
  · rw [abs_le]
    dsimp only
    omega
  · rw [abs_le]
    dsimp only
    omega

theorem inReach_of_moves {aim : Option AimPoints} {outcome : Option Outcome}
    (hmoves : c.Moves i aim outcome next) : ∀ p ∈ aim, p.InReach := by
  intro p hp
  cases hmoves with
  | seek | acquire | gather | reject | sulk | recover => cases hp
  | fire _ _ _ _ _ haim | follow _ _ _ haim | cease _ _ _ haim =>
    cases hp
    exact inReach_of_aimPoints haim

end Controller

/-! ## The counter of tracking -/

/-- The frames counted while tracking are not more than the steps of the spell. -/
def Counted (past : List Step) (c : Controller) : Prop :=
  ∀ deadline n, c.phase = .track deadline n → n ≤ (spell .track past).length

theorem counted_initial : Counted [] {} := by
  intro deadline n h
  cases h

theorem Counted.step {past : List Step} {s : Step} {aim : Option AimPoints}
    {outcome : Option Outcome} {next : Controller} (h : Counted past s.before)
    (hmoves : s.before.Moves s.input aim outcome next) : Counted (s :: past) next := by
  intro deadline n hphase
  cases hmoves with
  | seek | reject | cease | recover => cases hphase
  | acquire =>
    cases hphase
    exact Nat.zero_le _
  | gather htrack =>
    cases hphase
    have hs : s.state = .track := congrArg Phase.state htrack
    have hbefore := h _ _ htrack
    rw [spell_cons hs, List.length_cons]
    unfold Controller.gathered
    split <;> omega
  | fire _ _ _ _ hnext =>
    rw [hnext] at hphase
    cases hphase
  | follow hfire _ hfollow =>
    rw [Controller.follow_phase hfollow, hfire] at hphase
    cases hphase
  | sulk hfail =>
    rw [hfail] at hphase
    cases hphase

/-! ## Runs on admissible inputs -/

/-- No spell of tracking that these inputs lead to has `2 ^ 32` steps. -/
def BriefTracking (inputs : List Input) : Prop :=
  ∀ past c i later, Course past c → c.phase.state = .track →
    inputs = (past.map (·.input)).reverse ++ i :: later → (spell .track past).length + 1 < 2 ^ 32

theorem briefTracking_of_length {inputs : List Input} (h : inputs.length < 2 ^ 32) :
    BriefTracking inputs := by
  rintro past c i later - - rfl
  have hspell : (spell .track past).length ≤ past.length :=
    (List.takeWhile_sublist _).length_le
  rw [List.length_append, List.length_reverse, List.length_map, List.length_cons] at h
  omega

/-- What holds along a run on admissible inputs. -/
structure Sound (past : List Step) (c : Controller) : Prop where
  bounded : c.Bounded
  counted : Counted past c
  inReach : ∀ s ∈ past, ∀ p ∈ s.tick.aim, p.InReach

theorem Sound.step {past : List Step} {s : Step} {left : Option Box} (h : Sound past s.before)
    (hi : s.input.Admissible) (hstep : s.before.stepOn s.input = .ok (s.tick, s.after, left)) :
    Sound (s :: past) s.after := by
  have hmoves := (Controller.moves_of_step hstep).1
  refine ⟨h.bounded.step hi hmoves, h.counted.step hmoves, ?_⟩
  intro t ht
  rcases List.mem_cons.mp ht with rfl | ht
  · exact Controller.inReach_of_moves hmoves
  · exact h.inReach t ht

theorem Course.sound {past : List Step} {c : Controller} (run : Course past c)
    (hinputs : ∀ s ∈ past, s.input.Admissible) : Sound past c := by
  induction run with
  | start => exact ⟨Controller.bounded_initial, counted_initial, fun _ h => by cases h⟩
  | step _ hstep ih =>
    obtain ⟨left, hstep⟩ := hstep
    obtain ⟨hi, hpast⟩ := List.forall_mem_cons.mp hinputs
    exact (ih hpast).step hi hstep

/-- A run goes on over admissible inputs. -/
theorem Course.extend {past : List Step} {c : Controller} {inputs : List Input}
    (run : Course past c) (hpast : ∀ s ∈ past, s.input.Admissible)
    (hinputs : ∀ i ∈ inputs, i.Admissible)
    (hbrief : BriefTracking ((past.map (·.input)).reverse ++ inputs)) :
    ∃ later d, Course (later ++ past) d ∧ later.map (·.input) = inputs.reverse := by
  -- By induction on the inputs that are left; what is true of the run so far lets it step.
  induction inputs generalizing past c with
  | nil => exact ⟨[], c, run, rfl⟩
  | cons i rest ih =>
    obtain ⟨hi, hrest⟩ := List.forall_mem_cons.mp hinputs
    have hsound := run.sound hpast
    have hroom : ∀ deadline n, c.phase = .track deadline n → n + 1 < 4294967296 := by
      intro deadline n hphase
      have hcount := hsound.counted _ _ hphase
      have hlength := hbrief past c i rest run (congrArg Phase.state hphase) rfl
      omega
    obtain ⟨⟨tick, next, left⟩, hstep⟩ := Controller.step_ok hi hsound.bounded hroom
    have run' : Course (⟨c, i, tick, next⟩ :: past) next :=
      .step (s := ⟨c, i, tick, next⟩) run ⟨left, hstep⟩
    have hbrief' : BriefTracking (((⟨c, i, tick, next⟩ :: past).map (·.input)).reverse ++ rest) := by
      rw [List.map_cons, List.reverse_cons, List.append_assoc]
      exact hbrief
    obtain ⟨later, d, run'', hlater⟩ := ih run' (List.forall_mem_cons.mpr ⟨hi, hpast⟩) hrest hbrief'
    refine ⟨later ++ [⟨c, i, tick, next⟩], d, ?_, ?_⟩
    · rw [List.append_assoc]
      exact run''
    · rw [List.map_append, hlater, List.reverse_cons]
      rfl

theorem Controller.replay_append (c : Controller) (inputs later : List Input) :
    c.replay (inputs ++ later) = (c.replay inputs).bind (·.replay later) := by
  induction inputs generalizing c with
  | nil => rfl
  | cons i rest ih =>
    show (c.stepOn i).bind (fun r => r.2.1.replay (rest ++ later)) =
      ((c.stepOn i).bind fun r => r.2.1.replay rest).bind _
    cases c.stepOn i with
    | error e => rfl
    | ok r => exact ih r.2.1

/-- What a run leads to is what its inputs replay to. -/
theorem Course.replayed {past : List Step} {c : Controller} (run : Course past c) :
    Controller.replay {} (past.map (·.input)).reverse = .ok c := by
  induction run with
  | start => rfl
  | @step past s _ hstep ih =>
    obtain ⟨left, hstep⟩ := hstep
    rw [List.map_cons, List.reverse_cons, Controller.replay_append, ih]
    show (s.before.stepOn s.input).bind _ = _
    rw [hstep]
    rfl

/-- Every sequence of admissible inputs can be run from the beginning to its end, in any order of
times, with any readings and any tables, as long as no spell of tracking has `2 ^ 32` steps: no step
overflows. No corrected point that a step shows is farther than 32768 pixels from the target, to
either side, up or down. -/
theorem steps_never_overflow {inputs : List Input} (hinputs : ∀ i ∈ inputs, i.Admissible)
    (hbrief : BriefTracking inputs) :
    ∃ past c, Course past c ∧ past.map (·.input) = inputs.reverse ∧
      ∀ s ∈ past, ∀ p ∈ s.tick.aim,
        |p.corrected.x - p.target.x| ≤ 32768 ∧ |p.corrected.y - p.target.y| ≤ 32768 := by
  obtain ⟨past, c, run, hpast⟩ := Course.start.extend (fun _ h => by cases h) hinputs hbrief
  rw [List.append_nil] at run
  refine ⟨past, c, run, hpast, (run.sound ?_).inReach⟩
  intro s hs
  apply hinputs
  rw [← List.mem_reverse, ← hpast]
  exact List.mem_map_of_mem hs

/-- A turning rig with a live radar and a target in the middle of the frame; the table is as extreme
as its entries can be. -/
def extremeTarget (now : Nat) : Input :=
  { turningTarget now 10 with
    table := { drop := .replicate 5 (-32768), lead := .replicate 5 (.replicate 4 (-32768)) } }

theorem extremeTarget_admissible {now : Nat} (h : now ≤ 10000) : (extremeTarget now).Admissible :=
  ⟨(heldTarget_admissible h).now_le, (heldTarget_admissible h).offer⟩

/-- With the most extreme entries the corrected point is 32768 pixels away in both coordinates. -/
theorem steps_never_overflow_extreme :
    ∃ inputs : List Input, (∀ i ∈ inputs, i.Admissible) ∧ BriefTracking inputs ∧
      ∃ past c, Course past c ∧ past.map (·.input) = inputs.reverse ∧
        ∃ s ∈ past, ∃ p ∈ s.tick.aim,
          p.corrected.x - p.target.x = -32768 ∧ p.corrected.y - p.target.y = 32768 := by
  have hreplay : ((Controller.replay {} (List.replicate 41 (extremeTarget 0))).bind fun c =>
      (c.stepOn (extremeTarget 1501)).map fun r => r.1.aim) =
        .ok (some ⟨⟨400, 250⟩, ⟨-32368, 33018⟩⟩) := by decide +kernel
  have hinputs : ∀ i ∈ List.replicate 41 (extremeTarget 0) ++ [extremeTarget 1501],
      i.Admissible := by
    intro i hi
    rcases List.mem_append.mp hi with hi | hi
    · exact List.eq_of_mem_replicate hi ▸ extremeTarget_admissible (Nat.zero_le _)
    · exact List.eq_of_mem_singleton hi ▸ extremeTarget_admissible (by decide)
  have hbrief : BriefTracking (List.replicate 41 (extremeTarget 0) ++ [extremeTarget 1501]) := by
    apply briefTracking_of_length
    rw [List.length_append, List.length_replicate]
    decide
  obtain ⟨past, c, run, hpast, -⟩ := steps_never_overflow hinputs hbrief
  refine ⟨_, hinputs, hbrief, past, c, run, hpast, ?_⟩
  rw [List.reverse_append, List.reverse_singleton, List.reverse_replicate,
    List.singleton_append] at hpast
  cases run with
  | start => cases hpast
  | @step past s run hstep =>
    obtain ⟨left, hstep⟩ := hstep
    obtain ⟨hlast, hearlier⟩ := List.cons.inj hpast
    have hbefore := run.replayed
    rw [hearlier, List.reverse_replicate] at hbefore
    obtain ⟨d, hd, hshown⟩ := Checked.bind_eq_ok.mp hreplay
    rw [hbefore] at hd
    cases hd
    obtain ⟨r, hr, haim⟩ := Checked.map_eq_ok.mp hshown
    rw [← hlast, hstep] at hr
    cases hr
    exact ⟨s, List.mem_cons_self, _, haim, rfl, rfl⟩

end FireControl.Aim
