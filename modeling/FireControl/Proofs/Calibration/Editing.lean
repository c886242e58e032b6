import FireControl.Proofs.Calibration.Cells

/-!
# Editing sessions

An editor and its store are edited by any operations in any order. `effect_of_perform` says once what
an operation can do; with the cell under edit on the grid (`Sound`), a commit never fails midway.
What is pending is explained by the actions since the last successful start (`Pending`): the value
read there, changed by the signed steps of the wheel. `editing_keeps_table_and_ballistics` puts it
together for every action of every session.
-/

namespace FireControl

/-- The direction in which an input turns the wheel. -/
def OperatorInput.direction : OperatorInput → Option Int
  | .rotaryRight => some 1
  | .rotaryLeft => some (-1)
  | _ => none

end FireControl

namespace FireControl.Calibration

/-- How a store comes into being. -/
inductive Store.Created : Store → Prop
  | ofTable (path : String) (table : Table) : Created (.ofTable path table)
  | opened {fs path s} : open? fs path = .ok s → Created s

theorem Store.Created.ballistics {s : Store} (h : s.Created) : s.ballistics = .ofTable s.table := by
  cases h with
  | ofTable => rfl
  | @opened fs path s h =>
    unfold Store.open? at h
    cases hload : Store.load fs path with
    | error fault => simp [hload, Except.map] at h
    | ok table =>
      simp only [hload, Except.map, Except.ok.injEq] at h
      rw [← h]
      rfl

/-- What can be asked of an editor. -/
inductive Operation where
  | start (cell : Cell)
  | cancel
  | toggle
  | handle (input : OperatorInput) (now : Nat)

/-- What an operation answers. -/
inductive Reply where
  | done
  | read (value : Int16)
  | handled (outcome : EditOutcome)

/-- An editor and the store that it edits. -/
structure Bench where
  editor : Editor := {}
  store : Store

/-- One operation with the benches before and after it. -/
structure Action where
  before : Bench
  operation : Operation
  reply : Except NoSuchCell Reply
  after : Bench

namespace Bench

def perform (b : Bench) : Operation → Except NoSuchCell Reply × Bench
  | .start cell =>
    match b.editor.start cell b.store with
    | (result, editor) => (result.map .read, { b with editor })
  | .cancel => (.ok .done, { b with editor := b.editor.cancel })
  | .toggle => (.ok .done, { b with editor := b.editor.toggle })
  | .handle input now =>
    match b.editor.handle input now b.store with
    | (result, editor, store) => (result.map .handled, ⟨editor, store⟩)

def act (b : Bench) (operation : Operation) : Action :=
  ⟨b, operation, (b.perform operation).1, (b.perform operation).2⟩

/-- What an operation does to a bench whose selected cell is on the grid. -/
inductive Effect (b : Bench) : Operation → Except NoSuchCell Reply → Bench → Prop
  | started {c value} : c.OnGrid → b.store.get c = .ok value →
      Effect b (.start c) (.ok (.read value))
        { b with editor := { b.editor with cell := some c, value } }
  | refused {c} : ¬ c.OnGrid → Effect b (.start c) (.error ⟨c⟩) b
  | cancelled : Effect b .cancel (.ok .done) { b with editor := b.editor.cancel }
  | toggled : Effect b .toggle (.ok .done) { b with editor := b.editor.toggle }
  | ignored {input now} : Effect b (.handle input now) (.ok (.handled .ignored)) b
  | adjusted {input now sign step wheel value} : input.direction = some sign →
      value = Int16.ofIntClamp (b.editor.value.toInt + sign * step.toInt) →
      Effect b (.handle input now) (.ok (.handled (.adjusted value step)))
        { b with editor := { b.editor with wheel, value } }
  | committed {now c table} : b.editor.cell = some c →
      (∀ d, table.get d = if Editor.Writes b.editor.allDistances c d then .ok b.editor.value
        else b.store.table.get d) →
      Effect b (.handle .rotaryButton now) (.ok (.handled (.committed c b.editor.value)))
        ⟨{ b.editor with cell := none }, .ofTable b.store.path table⟩

theorem effect_of_start (b : Bench) (c : Cell) :
    Effect b (.start c) (b.perform (.start c)).1 (b.perform (.start c)).2 := by
  by_cases hc : c.OnGrid
  · obtain ⟨value, hget⟩ := b.store.table.exists_get hc
    have hget : b.store.get c = .ok value := hget
    simp only [perform, Editor.start, hget]
    exact .started hc hget
  · have hget : b.store.get c = .error ⟨c⟩ := Table.get_eq_error.mpr ⟨hc, rfl⟩
    simp only [perform, Editor.start, hget]
    exact .refused hc

theorem effect_of_handle {b : Bench} (h : ∀ c ∈ b.editor.cell, c.OnGrid) (input : OperatorInput)
    (now : Nat) :
    Effect b (.handle input now) (b.perform (.handle input now)).1
      (b.perform (.handle input now)).2 := by
  simp only [perform, Editor.handle]
  cases hcell : b.editor.cell with
  | none => exact .ignored
  | some c =>
    cases input with
    | rotaryRight => exact .adjusted rfl rfl
    | rotaryLeft => exact .adjusted rfl rfl
    | button0 => exact .ignored
    | button1 => exact .ignored
    | rotaryButton =>
      obtain ⟨table, hcommit, hget⟩ := b.editor.commit_on_grid (h c hcell) b.store
      simp only [hcommit]
      exact .committed hcell hget

theorem effect_of_perform {b : Bench} (h : ∀ c ∈ b.editor.cell, c.OnGrid) (operation : Operation) :
    Effect b operation (b.perform operation).1 (b.perform operation).2 := by
  cases operation with
  | start c => exact effect_of_start b c
  | cancel => exact .cancelled
  | toggle => exact .toggled
  | handle input now => exact effect_of_handle h input now

end Bench

/-! ## Sessions -/

/-- The actions on a new editor and a new store so far, latest first, and the bench they lead to. -/
inductive Edited : List Action → Bench → Prop
  | start {store} : store.Created → Edited [] { store }
  | act {past b} (operation : Operation) : Edited past b →
      Edited (b.act operation :: past) (b.act operation).after

namespace Action

/-- The action started an edit. -/
def Starts (a : Action) : Prop := ∃ value, a.reply = .ok (.read value)

/-- The step by which the action changed the pending value. -/
def signedStep (a : Action) : Option Int :=
  match a.operation, a.reply with
  | .handle input _, .ok (.handled (.adjusted _ step)) => input.direction.map (· * step.toInt)
  | _, _ => none

end Action

/-- A value after signed steps, the earliest of which stands last. -/
def stepped (value : Int16) (steps : List Int) : Int16 :=
  steps.foldr (fun step value => Int16.ofIntClamp (value.toInt + step)) value

/-- The cell and the value of the last successful start, changed by the steps since. -/
def Pending (past : List Action) (c : Cell) (value : Int16) : Prop :=
  ∃ since begun earlier first, past = since ++ begun :: earlier ∧ begun.operation = .start c ∧
    begun.reply = .ok (.read first) ∧ (∀ a ∈ since, ¬ a.Starts) ∧
    value = stepped first (since.filterMap Action.signedStep)

section Sessions
variable {past : List Action} {b : Bench} {c : Cell} {value : Int16} {a : Action}

theorem Pending.begin (hoperation : a.operation = .start c) (hreply : a.reply = .ok (.read value)) :
    Pending (a :: past) c value := by
  refine ⟨[], a, past, value, rfl, hoperation, hreply, ?_, rfl⟩
  intro x hx
  cases hx

theorem Pending.cons (h : Pending past c value) (ha : ¬ a.Starts) :
    Pending (a :: past) c (stepped value a.signedStep.toList) := by
  obtain ⟨since, begun, earlier, first, rfl, hoperation, hreply, hsince, rfl⟩ := h
  refine ⟨a :: since, begun, earlier, first, rfl, hoperation, hreply, ?_, ?_⟩
  · intro x hx
    rcases List.mem_cons.mp hx with rfl | hx
    · exact ha
    · exact hsince x hx
  · rw [List.filterMap_cons]
    cases a.signedStep with
    | none => simp [stepped]
    | some step => simp [stepped]

/-- A turn of the wheel changes what is pending by its signed step. -/
theorem Pending.turn {input : OperatorInput} {now : Nat} {sign : Int} {shown step : Int16}
    (h : Pending past c value) (hoperation : a.operation = .handle input now)
    (hreply : a.reply = .ok (.handled (.adjusted shown step)))
    (hdirection : input.direction = some sign) :
    Pending (a :: past) c (Int16.ofIntClamp (value.toInt + sign * step.toInt)) := by
  have hstarts : ¬ a.Starts := by
    rintro ⟨read, hread⟩
    rw [hreply] at hread
    cases hread
  have hstep : a.signedStep = some (sign * step.toInt) := by
    unfold Action.signedStep
    rw [hoperation, hreply]
    simp [hdirection]
  have hpending := h.cons hstarts
  rwa [hstep] at hpending

/-- The invariant of sessions. -/
structure Sound (past : List Action) (b : Bench) : Prop where
  ballistics : b.store.ballistics = .ofTable b.store.table
  cell : ∀ c ∈ b.editor.cell, c.OnGrid ∧ Pending past c b.editor.value

theorem Sound.effect (h : Sound past b) (operation : Operation) :
    b.Effect operation (b.act operation).reply (b.act operation).after :=
  Bench.effect_of_perform (fun c hc => (h.cell c hc).1) operation

theorem Sound.step (h : Sound past b) (heffect : b.Effect a.operation a.reply a.after) :
    Sound (a :: past) a.after := by
  obtain ⟨before, operation, reply, after⟩ := a
  -- An action that starts nothing and turns nothing leaves the pending value explained.
  have hkeep : ∀ {a : Action} {c}, c ∈ b.editor.cell → ¬ a.Starts → a.signedStep = none →
      c.OnGrid ∧ Pending (a :: past) c b.editor.value := by
    intro a c hc hstarts hstep
    have hpending := (h.cell c hc).2.cons hstarts
    rw [hstep] at hpending
    exact ⟨(h.cell c hc).1, hpending⟩
  cases heffect with
  | started hc =>
    refine ⟨h.ballistics, ?_⟩
    intro d hd
    cases hd
    exact ⟨hc, .begin rfl rfl⟩
  | refused hc => exact ⟨h.ballistics, fun d hd => hkeep hd nofun rfl⟩
  | cancelled => exact ⟨h.ballistics, nofun⟩
  | toggled => exact ⟨h.ballistics, fun d hd => hkeep hd nofun rfl⟩
  | ignored => exact ⟨h.ballistics, fun d hd => hkeep hd nofun rfl⟩
  | adjusted hdirection hvalue =>
    refine ⟨h.ballistics, ?_⟩
    intro d hd
    rw [hvalue]
    exact ⟨(h.cell d hd).1, (h.cell d hd).2.turn rfl rfl hdirection⟩
  | committed hcell hget => exact ⟨rfl, nofun⟩

theorem sound (h : Edited past b) : Sound past b := by
  induction h with
  | start hstore => exact ⟨hstore.ballistics, nofun⟩
  | act operation _ ih => exact ih.step (ih.effect operation)

/-- Whatever was done before, after every action the interpolators are those of the table. An input
never fails, and a start that fails changes nothing. Only a commit changes the store: the selected
cell, or with all distances the cells of its kind and velocity, take the committed value, and every
other cell keeps its own. What is committed is the value read by the last successful start of the
cell, changed by the signed steps since. -/
theorem editing_keeps_table_and_ballistics (h : Edited past b) (operation : Operation) :
    let a := b.act operation
    a.after.store.ballistics = .ofTable a.after.store.table ∧
      (∀ input now, operation = .handle input now → ∃ outcome, a.reply = .ok (.handled outcome)) ∧
      (∀ c fault, operation = .start c → a.reply = .error fault → a.after = b) ∧
      ((∀ c value, a.reply ≠ .ok (.handled (.committed c value))) → a.after.store = b.store) ∧
      ∀ c value, a.reply = .ok (.handled (.committed c value)) →
        b.editor.cell = some c ∧ Pending past c value ∧
          ∀ d, a.after.store.table.get d =
            if Editor.Writes b.editor.allDistances c d then .ok value
            else b.store.table.get d := by
  intro a
  have hsound := sound h
  have heffect := hsound.effect operation
  have hafter : Sound (a :: past) a.after := hsound.step heffect
  refine ⟨hafter.ballistics, ?_⟩
  change b.Effect operation a.reply a.after at heffect
  generalize a.reply = reply at heffect ⊢
  generalize a.after = after at heffect ⊢
  cases heffect with
  | committed hcell hget =>
    refine ⟨fun _ _ _ => ⟨_, rfl⟩, nofun, fun hnot => absurd rfl (hnot _ _), ?_⟩
    intro d value hreply
    cases hreply
    exact ⟨hcell, (hsound.cell _ hcell).2, hget⟩
  | started | cancelled | toggled => exact ⟨nofun, nofun, fun _ => rfl, nofun⟩
  | refused => exact ⟨nofun, fun _ _ _ _ => rfl, fun _ => rfl, nofun⟩
  | ignored => exact ⟨fun _ _ _ => ⟨_, rfl⟩, nofun, fun _ => rfl, nofun⟩
  | adjusted => exact ⟨fun _ _ _ => ⟨_, rfl⟩, nofun, fun _ => rfl, nofun⟩

/-- A lead cell selected in place of another one, turned up and down, with all distances switched on
in between. -/
theorem editing_keeps_table_and_ballistics_forced :
    ∃ past b, Edited past b ∧
      let a := b.act (.handle .rotaryButton 30)
      a.reply = .ok (.handled (.committed ⟨.lead, 1, 2⟩ 1)) ∧ Pending past ⟨.lead, 1, 2⟩ 1 ∧
        (∀ d < 5, a.after.store.table.get ⟨.lead, d, 2⟩ = .ok 1) ∧
        a.after.store.table.get ⟨.lead, 1, 3⟩ = .ok 0 ∧
        a.after.store.ballistics = .ofTable a.after.store.table := by
  have h := Edited.act (.handle .rotaryLeft 20) <| .act (.handle .rotaryRight 10) <| .act .toggle <|
    .act (.start ⟨.drop, 5, 0⟩) <| .act (.handle .rotaryRight 0) <| .act (.start ⟨.lead, 1, 2⟩) <|
    .act (.start ⟨.drop, 4, 9⟩) <| .start (.ofTable "calibration" {})
  refine ⟨_, _, h, ?_⟩
  obtain ⟨hballistics, -, -, -, hcommit⟩ :=
    editing_keeps_table_and_ballistics h (.handle .rotaryButton 30)
  intro a
  have hreply : a.reply = .ok (.handled (.committed ⟨.lead, 1, 2⟩ 1)) := rfl
  obtain ⟨-, hpending, hget⟩ := hcommit _ _ hreply
  refine ⟨hreply, hpending, ?_, ?_, hballistics⟩
  · intro d hd
    rw [hget]
    exact if_pos ⟨rfl, fun _ => rfl, hd⟩
  · rw [hget]
    rfl

end Sessions

end FireControl.Calibration
