import FireControl.Proofs.Calibration.Editing
import FireControl.Proofs.RingHistory

/-!
# The steps of the wheel

The wheel of an editor holds the times of the last fifteen turns, and nothing but a turn with a cell
under edit touches it: a start, a commit or giving up the selection leaves them there (`wheel_act`).
So it is the front of the history of all turns of the session (`remembers_turns`), and it counts the
turns of a recent window as the history does, up to fifteen of them. `wheel_step_follows_table_iff`
states what that makes of the table of steps: its first two rows are followed, and its last row,
which asks for more than fifteen turns, is never reached.
-/

namespace FireControl.Calibration

namespace Editor

variable {e : Editor} {input : OperatorInput} {now : Nat} {s : Store} {value step : Int16}

/-- The input turns the wheel, and there is a cell under edit. -/
def turnsWith (e : Editor) (input : OperatorInput) : Bool :=
  input.direction.isSome && e.cell.isSome

theorem not_adjusted_by_commit (c : Cell) : (e.commit c s).1 ≠ .ok (.adjusted value step) := by
  unfold commit
  split <;> simp

/-- A commit ends the edit, but not the run of turns. -/
theorem wheel_commit (e : Editor) (c : Cell) (s : Store) : (e.commit c s).2.1.wheel = e.wheel := by
  unfold commit
  split <;> rfl

theorem wheel_handle (e : Editor) (input : OperatorInput) (now : Nat) (s : Store) :
    (e.handle input now s).2.1.wheel =
      if e.turnsWith input then e.wheel.push (some now) else e.wheel := by
  unfold handle turnsWith
  cases e.cell with
  | none => simp
  | some c =>
    cases input with
    | rotaryRight | rotaryLeft | button0 | button1 => rfl
    | rotaryButton => exact e.wheel_commit c s

/-- The pending value is changed by a turn, by the step that the wheel asks for once it has noted
the turn. -/
theorem step_of_adjusted (h : (e.handle input now s).1 = .ok (.adjusted value step)) :
    e.turnsWith input = true ∧
      step = stepFor ((e.handle input now s).2.1.wheel.countSince (now - wheelWindow)) := by
  unfold handle turnsWith at *
  cases hcell : e.cell with
  | none => simp [hcell] at h
  | some c =>
    rw [hcell] at h
    cases input with
    | rotaryRight | rotaryLeft =>
      cases h
      exact ⟨rfl, rfl⟩
    | button0 | button1 => simp at h
    | rotaryButton => exact absurd h (not_adjusted_by_commit c)

theorem adjusted_of_turn (h : e.turnsWith input = true) :
    ∃ value step, (e.handle input now s).1 = .ok (.adjusted value step) := by
  obtain ⟨hinput, hcell⟩ := Bool.and_eq_true_iff.mp h
  obtain ⟨c, hc⟩ := Option.isSome_iff_exists.mp hcell
  unfold handle
  rw [hc]
  cases input with
  | rotaryRight | rotaryLeft => exact ⟨_, _, rfl⟩
  | rotaryButton | button0 | button1 => cases hinput

/-- Counted up to fifteen, turns never ask for a step of 15. -/
theorem stepFor_min (recent : Nat) : stepFor (min 15 recent) = if 10 < recent then 5 else 1 := by
  have hlast : ¬ 15 < min 15 recent := by omega
  have hfast : 10 < min 15 recent ↔ 10 < recent := by omega
  simp only [stepFor, if_neg hlast, hfast]

end Editor

/-! ## The turns of a session -/

namespace Action

/-- When the input of the action was given. -/
def time (a : Action) : Option Nat :=
  match a.operation with
  | .handle _ now => some now
  | _ => none

/-- When the action turned the wheel with a cell under edit. -/
def turnTime (a : Action) : Option Nat :=
  match a.operation with
  | .handle input now => if a.before.editor.turnsWith input then some now else none
  | _ => none

/-- A turn is an input, at the same time. -/
theorem time_of_turnTime {a : Action} {now : Nat} (h : a.turnTime = some now) :
    a.time = some now := by
  obtain ⟨before, operation, reply, after⟩ := a
  cases operation with
  | handle input at' => exact (Option.ite_none_right_eq_some.mp h).2
  | start | cancel | toggle => cases h

end Action

/-- The times of all inputs, latest first. -/
def inputTimes (past : List Action) : List Nat := past.filterMap Action.time

/-- The times of all turns with a cell under edit, latest first. -/
def turnTimes (past : List Action) : List Nat := past.filterMap Action.turnTime

theorem turnTimes_sublist (past : List Action) : (turnTimes past).Sublist (inputTimes past) := by
  induction past with
  | nil => exact .slnil
  | cons a past ih =>
    simp only [turnTimes, inputTimes, List.filterMap_cons] at ih ⊢
    cases hturn : a.turnTime with
    | some now =>
      rw [Action.time_of_turnTime hturn]
      exact ih.cons_cons now
    | none =>
      cases a.time with
      | none => exact ih
      | some now => exact ih.cons now

section Turns
variable {past : List Action} {b : Bench} {input : OperatorInput} {now : Nat} {outcome : EditOutcome}

theorem turnTime_of_turn (h : b.editor.turnsWith input = true) :
    (b.act (.handle input now)).turnTime = some now := if_pos h

/-- Only a turn with a cell under edit touches the wheel: it notes its time. -/
theorem wheel_act (b : Bench) (operation : Operation) :
    (b.act operation).after.editor.wheel =
      ((b.act operation).turnTime.map fun now => b.editor.wheel.push (some now)).getD
        b.editor.wheel := by
  cases operation with
  | start c =>
    simp only [Bench.act, Bench.perform, Editor.start]
    cases b.store.get c <;> rfl
  | cancel => rfl
  | toggle => rfl
  | handle input now =>
    refine (b.editor.wheel_handle input now b.store).trans ?_
    simp only [Action.turnTime, Bench.act]
    by_cases hturn : b.editor.turnsWith input = true <;> simp [hturn]

/-- The wheel is the front of the history of turns. -/
theorem remembers_turns (h : Edited past b) :
    b.editor.wheel.Remembers none ((turnTimes past).map some) := by
  induction h with
  | start => exact Ring.remembers_filled none (by decide)
  | @act past b operation _ ih =>
    rw [wheel_act, turnTimes, List.filterMap_cons]
    cases (b.act operation).turnTime with
    | none => exact ih
    | some now => exact ih.push (some now)

theorem reply_handle :
    (b.act (.handle input now)).reply = .ok (.handled outcome) ↔
      (b.editor.handle input now b.store).1 = .ok outcome := by
  simp only [Bench.act, Bench.perform]
  cases (b.editor.handle input now b.store).1 <;> simp [Except.map]

/-- In every session with the inputs in order of time: an input changes the pending value exactly if
it turns the wheel with a cell under edit. Its step is 1 if at most ten turns of the whole session,
this one included, lie in the last 1250 milliseconds, and 5 if more do. So the table that asks for
steps of 15 from the sixteenth turn on is followed exactly as long as there are at most fifteen. -/
theorem wheel_step_follows_table_iff (h : Edited past b) (input : OperatorInput) (now : Nat) :
    let a := b.act (.handle input now)
    let recent := (turnTimes (a :: past)).countP (now - 1250 ≤ ·)
    (inputTimes (a :: past)).Pairwise (· ≥ ·) →
      ((∃ value step, a.reply = .ok (.handled (.adjusted value step))) ↔
        input.direction.isSome ∧ b.editor.cell.isSome) ∧
      ∀ value step, a.reply = .ok (.handled (.adjusted value step)) →
        (recent ≤ 10 → step = 1) ∧ (10 < recent → step = 5) ∧
          (step = (if 15 < recent then 15 else if 10 < recent then 5 else 1) ↔ recent ≤ 15) := by
  intro a recent hinputs
  have hsorted : (turnTimes (a :: past)).Pairwise (· ≥ ·) :=
    hinputs.sublist (turnTimes_sublist (a :: past))
  have hcount : a.after.editor.wheel.countSince (now - Editor.wheelWindow) = min 15 recent :=
    Ring.countSince_history (remembers_turns (h.act (.handle input now))) hsorted _
  refine ⟨⟨?_, ?_⟩, ?_⟩
  · rintro ⟨value, step, hreply⟩
    exact Bool.and_eq_true_iff.mp (Editor.step_of_adjusted (reply_handle.mp hreply)).1
  · intro hturn
    obtain ⟨value, step, hadjusted⟩ :=
      @Editor.adjusted_of_turn b.editor input now b.store (Bool.and_eq_true_iff.mpr hturn)
    exact ⟨value, step, reply_handle.mpr hadjusted⟩
  · intro value step hreply
    have hstep : step = if 10 < recent then 5 else 1 := by
      rw [← Editor.stepFor_min, ← hcount]
      exact (Editor.step_of_adjusted (reply_handle.mp hreply)).2
    refine ⟨?_, ?_, ?_⟩
    · intro hfew
      rw [hstep, if_neg (Nat.not_lt.mpr hfew)]
    · intro hmany
      rw [hstep, if_pos hmany]
    · rw [hstep]
      by_cases hlast : 15 < recent
      · have hmany : 10 < recent := by omega
        simp [hlast, hmany]
      · simp [hlast, Nat.not_lt.mp hlast]

/-- With a cell under edit the wheel can be turned any number of times at once. -/
theorem Edited.turned (h : Edited past b) (hcell : b.editor.cell.isSome) (now n : Nat) :
    ∃ past' b', Edited past' b' ∧ b'.editor.cell.isSome ∧
      turnTimes past' = List.replicate n now ++ turnTimes past ∧
      inputTimes past' = List.replicate n now ++ inputTimes past := by
  induction n with
  | zero => exact ⟨past, b, h, hcell, rfl, rfl⟩
  | succ n ih =>
    obtain ⟨past', b', h', hcell', hturns, hinputs⟩ := ih
    obtain ⟨c, hc⟩ := Option.isSome_iff_exists.mp hcell'
    have hturn : (b'.act (.handle .rotaryRight now)).turnTime = some now :=
      turnTime_of_turn (Bool.and_eq_true_iff.mpr ⟨rfl, hcell'⟩)
    refine ⟨_, _, h'.act (.handle .rotaryRight now), ?_, ?_, ?_⟩
    · simp only [Bench.act, Bench.perform, Editor.handle, hc]
      exact hcell'
    · rw [List.replicate_succ, List.cons_append, ← hturns, turnTimes, List.filterMap_cons, hturn]
      rfl
    · rw [List.replicate_succ, List.cons_append, ← hinputs]
      rfl

/-- The last of sixteen turns at once makes a step of 5, and not of 15. -/
theorem wheel_step_follows_table_iff_sixteenth :
    ∃ past b, Edited past b ∧
      let a := b.act (.handle .rotaryRight 40)
      let recent := (turnTimes (a :: past)).countP (40 - 1250 ≤ ·)
      (inputTimes (a :: past)).Pairwise (· ≥ ·) ∧ recent = 16 ∧
        (∃ value, a.reply = .ok (.handled (.adjusted value 5))) ∧
        (5 : Int16) ≠ if 15 < recent then 15 else if 10 < recent then 5 else 1 := by
  have hstart := Edited.act (.start ⟨.lead, 1, 2⟩) <| .start (.ofTable "calibration" {})
  obtain ⟨past, b, h, hcell, hturns, hinputs⟩ := hstart.turned rfl 40 15
  have hsorted : (inputTimes (b.act (.handle .rotaryRight 40) :: past)).Pairwise (· ≥ ·) := by
    change (40 :: inputTimes past).Pairwise (· ≥ ·)
    rw [hinputs]
    decide
  have hrecent : (turnTimes (b.act (.handle .rotaryRight 40) :: past)).countP (40 - 1250 ≤ ·) =
      16 := by
    have hturn : (b.act (.handle .rotaryRight 40)).turnTime = some 40 :=
      turnTime_of_turn (Bool.and_eq_true_iff.mpr ⟨rfl, hcell⟩)
    rw [turnTimes, List.filterMap_cons, hturn, ← turnTimes, hturns]
    decide
  obtain ⟨hturn, hsteps⟩ := wheel_step_follows_table_iff h .rotaryRight 40 hsorted
  obtain ⟨value, step, hreply⟩ := hturn.mpr ⟨rfl, hcell⟩
  obtain ⟨-, hfive, htable⟩ := hsteps value step hreply
  rw [hrecent] at hfive htable
  obtain rfl := hfive (by decide)
  refine ⟨past, b, h, hsorted, hrecent, ⟨value, hreply⟩, ?_⟩
  rw [hrecent]
  exact fun hlaw => absurd (htable.mp hlaw) (by decide)

end Turns

end FireControl.Calibration
