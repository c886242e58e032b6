import FireControl.Motion.Sharing
import FireControl.Proofs.Aim.Firing
import FireControl.Proofs.Motion.Variance
import FireControl.Wire.SensorMessage

/-!
# The yaw-rate gate

The controller fires only while the variance of the yaw rate is not above fifteen. A rig is the
motion sensor with the controller that reads its window; frames of the sensor board arrive between
the steps of the controller in any order. The window holds the rates recorded last
(`Ran.remembers`), and so `gate_holds_iff_rates_finite` says what the gate is worth: when firing
begins, the variance is a number of at most fifteen if and only if the last 550 rates are all finite.
One that is not makes the variance not a number, which is above no limit, and the gate stands open
until 550 more have come.
-/

namespace FireControl

open Aim (Box Controller FailReasons Input Outcome State Tick)
open Motion (Rotation)
open Wire (Frame MotionSample SensorMessage)

/-- The motion sensor, and the controller that reads its yaw-rate window. -/
structure Rig where
  motion : Motion.Writer := {}
  controller : Controller := {}

namespace Rig

/-- What a step of the controller is given beside the rotation. -/
structure Look where
  now : Nat
  offer : Option Box
  distance : Float32
  radarAlive : Bool
  table : Calibration.Table

def Look.input (l : Look) (rotation : Rotation Float32) : Input :=
  { now := l.now, offer := l.offer, readings := ⟨l.distance, l.radarAlive, rotation⟩,
    table := l.table }

@[simp] theorem Look.rotation_input (l : Look) (rotation : Rotation Float32) :
    (l.input rotation).readings.rotation = rotation := rfl

/-- What can happen to a rig. -/
inductive Deed where
  /-- A frame of the sensor board arrives; a busy window takes no rate from it. -/
  | hear (f : Frame) (busy : Bool)
  /-- The bias of the yaw rate is measured. -/
  | calibrate
  /-- The bias is set. -/
  | offset (bias : Float32)
  /-- The controller takes a step. -/
  | aim (look : Look)

/-- The motion sample that a frame carries, if it carries one. -/
def sample? (f : Frame) : Option MotionSample :=
  match SensorMessage.ofFrame f with
  | .ok (some (.motion s)) => some s
  | _ => none

/-- Takes in a sample. -/
def move (w : Motion.Writer) (busy : Bool) (s : MotionSample) : Motion.Writer :=
  (w.ingest {} s busy).2

def perform (r : Rig) : Deed → Checked (Option Tick × Rig)
  | .hear f busy => .ok (none, { r with motion := (sample? f).elim r.motion (move r.motion busy) })
  | .calibrate => .ok (none, { r with motion.gyro := r.motion.gyro.calibrate })
  | .offset bias => .ok (none, { r with motion.gyro.bias := bias })
  | .aim look =>
    (r.controller.stepOn (look.input r.motion.gyro.rotation)).map fun (tick, controller, _) =>
      (some tick, { r with controller })

/-- A deed with the rig before and after it. -/
structure Act where
  before : Rig
  deed : Deed
  tick : Option Tick
  after : Rig

/-- What has happened since the rig was started, latest first, and the rig it led to. No step
overflows. -/
inductive Ran : List Act → Rig → Prop
  | start : Ran [] {}
  | act {past : List Act} {a : Act} : Ran past a.before →
      a.before.perform a.deed = .ok (a.tick, a.after) → Ran (a :: past) a.after

/-- The rig after a sequence of deeds. -/
def replay (r : Rig) : List Deed → Checked Rig
  | [] => .ok r
  | d :: rest => (r.perform d).bind fun done => done.2.replay rest

theorem Ran.replay {past : List Act} {r final : Rig} {deeds : List Deed} (run : Ran past r)
    (h : r.replay deeds = .ok final) :
    ∃ later, Ran (later ++ past) final ∧ later.map (·.deed) = deeds.reverse := by
  induction deeds generalizing past r with
  | nil =>
    cases h
    exact ⟨[], run, rfl⟩
  | cons d rest ih =>
    obtain ⟨⟨tick, next⟩, hperform, hrest⟩ := Checked.bind_eq_ok.mp h
    have run' : Ran (⟨r, d, tick, next⟩ :: past) next := .act (a := ⟨r, d, tick, next⟩) run hperform
    obtain ⟨later, run'', hlater⟩ := ih run' hrest
    refine ⟨later ++ [⟨r, d, tick, next⟩], ?_, ?_⟩
    · rw [List.append_assoc]
      exact run''
    · rw [List.map_append, hlater, List.reverse_cons]
      rfl

/-! ## The window -/

/-- The yaw rate that a sample records: in degrees, positive clockwise. A glitch records none. -/
def rate? (s : MotionSample) : Option Float32 :=
  if Motion.isGlitch {} s then none
  else some (-(Float32.ofBits s.yawRate) * Motion.degreesPerRadian)

/-- The rate that a deed records. -/
def Deed.rate? : Deed → Option Float32
  | .hear f false => (sample? f).bind Rig.rate?
  | _ => none

/-- The rates recorded so far, latest first. -/
def recorded (past : List Act) : List Float32 := past.filterMap (·.deed.rate?)

variable {past : List Act} {a : Act} {r next : Rig} {d : Deed} {tick : Option Tick}

theorem window_move (w : Motion.Writer) (s : MotionSample) :
    (move w false s).gyro.window = (rate? s).elim w.gyro.window w.gyro.window.push := by
  rw [move, Motion.Writer.ingest_free]
  unfold rate? Motion.Estimator.ingest
  split <;> rfl

/-- A deed pushes the rate that it records, and otherwise leaves the window alone. -/
theorem window_perform (h : r.perform d = .ok (tick, next)) :
    next.motion.gyro.window =
      d.rate?.elim r.motion.gyro.window r.motion.gyro.window.push := by
  cases d with
  | hear f busy =>
    cases h
    cases hsample : sample? f with
    | none => cases busy <;> simp [Deed.rate?, hsample]
    | some s =>
      cases busy with
      | true => simp [Deed.rate?, move, Motion.Writer.gyro_ingest_busy]
      | false => simpa [Deed.rate?, hsample] using window_move r.motion s
  | calibrate | offset =>
    cases h
    rfl
  | aim look =>
    obtain ⟨step, -, hnext⟩ := Checked.map_eq_ok.mp h
    cases hnext
    rfl

theorem recorded_eq (past : List Act) :
    recorded past = (past.map (·.deed)).filterMap Deed.rate? := by
  rw [List.filterMap_map]
  rfl

theorem Ran.remembers (run : Ran past r) :
    r.motion.gyro.window.Remembers 0 (recorded past) := by
  induction run with
  | start => exact Ring.remembers_filled _ (by decide)
  | @act past a before hperform ih =>
    rw [window_perform hperform]
    cases hrate : a.deed.rate? with
    | none => simpa [recorded, hrate] using ih
    | some rate => simpa [recorded, hrate] using ih.push rate

/-! ## The gate -/

section Moves

variable {c after : Controller} {i : Input} {aim : Option Aim.AimPoints} {outcome : Option Outcome}

/-- Firing begins with a decision that found nothing to object to. -/
theorem steady_of_fire (h : Controller.Moves c i aim outcome after)
    (hbefore : c.phase.state ≠ .fire) (hafter : after.phase.state = .fire) :
    ¬ i.readings.rotation.variance > 15 := by
  cases h with
  | @fire _ n _ _ _ hphase hlate hreasons =>
    intro habove
    have hgyro := (Aim.judge_exactly (Controller.gathered n i) i.readings).gyro.mpr habove
    rw [hreasons] at hgyro
    cases hgyro
  | seek | acquire | gather | reject | recover => cases hafter
  | follow hphase | cease hphase => exact absurd (congrArg Aim.Phase.state hphase) hbefore
  | sulk => exact absurd hafter hbefore

/-- A rejected attempt gives the gyro as a reason exactly when the variance is above the limit. -/
theorem gyro_of_reject {reasons : FailReasons}
    (h : Controller.Moves c i aim (some (.failed reasons)) after) :
    reasons.contains .gyro = true ↔ i.readings.rotation.variance > 15 := by
  cases h with
  | reject => exact (Aim.judge_exactly _ _).gyro

/-- Past the deadline of tracking the decision alone tells what comes. -/
theorem fire_iff_judge {deadline n : Nat} (h : Controller.Moves c i aim outcome after)
    (hphase : c.phase = .track deadline n) (hlate : deadline < i.now) :
    after.phase.state = .fire ↔ Controller.judge (Controller.gathered n i) i.readings = .empty := by
  cases h with
  | gather hp hearly =>
    rw [hphase] at hp
    cases hp
    omega
  | reject hp _ hreasons =>
    rw [hphase] at hp
    cases hp
    exact iff_of_false (fun h => by cases h) hreasons
  | fire hp _ hreasons _ hnext =>
    rw [hphase] at hp
    cases hp
    exact iff_of_true (by rw [hnext]; rfl) hreasons
  | seek hp | acquire hp | follow hp | cease hp | sulk hp | recover hp =>
    rw [hphase] at hp
    cases hp

end Moves

/-- The variance of the yaw rate when a deed begins: the one that a step of the controller reads. -/
def Act.variance (a : Act) : Float32 := a.before.motion.gyro.rotation.variance

/-- The deed led the controller into a state. -/
def Act.Enters (a : Act) (state : State) : Prop :=
  a.before.controller.phase.state ≠ state ∧ a.after.controller.phase.state = state

/-- The deed was a rejected attempt, for these reasons. -/
def Act.Fails (a : Act) (reasons : FailReasons) : Prop :=
  ∃ shown, a.tick = some shown ∧ shown.outcome = some (.failed reasons)

/-- The deed ends a tracking phase with enough centred frames and a live radar, so that nothing but
the yaw rate can hold the rig back. -/
def Act.Ready (a : Act) : Prop :=
  ∃ look deadline n, a.deed = .aim look ∧ a.before.controller.phase = .track deadline n ∧
    deadline < look.now ∧ look.radarAlive = true ∧
    20 ≤ Controller.gathered n (look.input a.before.motion.gyro.rotation)

/-- The last 550 rates are all finite. -/
def Sound (past : List Act) : Prop := ∀ rate ∈ (recorded past).take 550, rate.isFinite = true

theorem Ran.latest (run : Ran (a :: past) r) :
    Ran past a.before ∧ a.before.perform a.deed = .ok (a.tick, a.after) := by
  cases run with
  | act before hperform => exact ⟨before, hperform⟩

theorem moves_of_aim {look : Look} (h : r.perform (.aim look) = .ok (tick, next)) :
    ∃ shown, tick = some shown ∧ Controller.Moves r.controller
      (look.input r.motion.gyro.rotation) shown.aim shown.outcome next.controller := by
  obtain ⟨⟨shown, c, left⟩, hstep, hnext⟩ := Checked.map_eq_ok.mp h
  cases hnext
  exact ⟨shown, rfl, (Controller.moves_of_step hstep).1⟩

/-- Nothing but a step of the controller touches it. -/
theorem perform_cases (h : r.perform d = .ok (tick, next)) :
    (∃ look, d = .aim look) ∨ (tick = none ∧ next.controller = r.controller) := by
  cases d with
  | aim look => exact .inl ⟨look, rfl⟩
  | hear | calibrate | offset =>
    cases h
    exact .inr ⟨rfl, rfl⟩

theorem steady_of_enters (h : a.before.perform a.deed = .ok (a.tick, a.after))
    (hfire : a.Enters .fire) : ¬ a.variance > 15 := by
  obtain ⟨hbefore, hafter⟩ := hfire
  rcases perform_cases h with ⟨look, hdeed⟩ | ⟨-, hsame⟩
  · rw [hdeed] at h
    obtain ⟨shown, -, hmoves⟩ := moves_of_aim h
    have hsteady := steady_of_fire hmoves hbefore hafter
    rwa [Look.rotation_input] at hsteady
  · rw [hsame] at hafter
    exact absurd hafter hbefore

theorem gyro_of_fails {reasons : FailReasons}
    (h : a.before.perform a.deed = .ok (a.tick, a.after)) (hfails : a.Fails reasons) :
    reasons.contains .gyro = true ↔ a.variance > 15 := by
  obtain ⟨shown, htick, houtcome⟩ := hfails
  rcases perform_cases h with ⟨look, hdeed⟩ | ⟨hnone, -⟩
  · rw [hdeed, htick] at h
    obtain ⟨shown', hshown, hmoves⟩ := moves_of_aim h
    cases hshown
    rw [houtcome] at hmoves
    have hgyro := gyro_of_reject hmoves
    rwa [Look.rotation_input] at hgyro
  · rw [hnone] at htick
    cases htick

theorem enters_of_ready (h : a.before.perform a.deed = .ok (a.tick, a.after)) (hready : a.Ready) :
    a.Enters .fire ↔ ¬ a.variance > 15 := by
  obtain ⟨look, deadline, n, hdeed, hphase, hlate, halive, hmany⟩ := hready
  rw [hdeed] at h
  obtain ⟨shown, -, hmoves⟩ := moves_of_aim h
  have hbefore : a.before.controller.phase.state ≠ .fire := by
    rw [hphase]
    intro h
    cases h
  have hjudge : Controller.judge
      (Controller.gathered n (look.input a.before.motion.gyro.rotation))
      (look.input a.before.motion.gyro.rotation).readings = .empty ↔ ¬ a.variance > 15 := by
    refine FailReasons.collect_eq_empty.trans ?_
    rw [decide_eq_false_iff_not, decide_eq_false_iff_not, Look.rotation_input]
    constructor
    · exact fun h => h.2.1
    · intro hsteady
      exact ⟨Nat.not_lt.mpr hmany, hsteady, congrArg not halive⟩
  rw [← hjudge, ← fire_iff_judge hmoves hphase hlate]
  exact and_iff_right hbefore

theorem isNaN_variance_iff (run : Ran past r) :
    r.motion.gyro.rotation.variance.isNaN = true ↔ ¬ Sound past := by
  rw [Motion.Gyro.isNaN_variance_iff run.remembers]
  simp [Sound]

/-- On every run: the variance is a number exactly while the last 550 rates are finite. Firing that
begins then does so at a variance of at most fifteen, and firing that begins otherwise at a variance
that is not a number. The yaw rate holds firing back, and is a reason for a failure, when the rates
are finite and the variance is above fifteen, and never otherwise. -/
theorem gate_holds_iff_rates_finite (run : Ran (a :: past) r) :
    (a.variance.isNaN = false ↔ Sound past) ∧
      (a.Enters .fire → ((a.variance.isNaN = false ∧ a.variance ≤ 15) ↔ Sound past)) ∧
      (a.Ready → (a.Enters .fire ↔ ¬ (Sound past ∧ a.variance > 15))) ∧
      (∀ reasons, a.Fails reasons →
        (reasons.contains .gyro = true ↔ Sound past ∧ a.variance > 15)) := by
  obtain ⟨before, hperform⟩ := run.latest
  have hnumber : a.variance.isNaN = false ↔ Sound past := by
    rw [← Bool.not_eq_true, Act.variance, isNaN_variance_iff before, not_not]
  -- A variance above anything is a number.
  have habove : a.variance > 15 ↔ Sound past ∧ a.variance > 15 := by
    rw [← hnumber, iff_and_self]
    intro habove
    by_contra hnan
    exact Floating.not_lt_of_isNaN (Bool.of_not_eq_false hnan) habove
  refine ⟨hnumber, ?_, ?_, ?_⟩
  · intro hfire
    rw [← hnumber]
    constructor
    · exact And.left
    · intro h
      exact ⟨h, Floating.le_of_not_lt rfl h (steady_of_enters hperform hfire)⟩
  · intro hready
    rw [← habove]
    exact enters_of_ready hperform hready
  · intro reasons hfails
    rw [← habove]
    exact gyro_of_fails hperform hfails

/-- A target held in the middle of the frame, with a live radar. -/
def held (now : Nat) : Look := ⟨now, some ⟨350, 200, 100, 200⟩, 20, true, {}⟩

/-- A frame of the sensor board with a yaw rate that is infinite. -/
def wild : Frame :=
  { header := ⟨0, 76, 0, 1, 0, 0, 1, 0⟩
    body := (SensorMessage.motion ⟨0, 0, 0, 0, 0, 0x7f800000, 0⟩).toRecord.encode }

/-- A target is locked onto and tracked; a single infinite rate while it is, and the rig fires. -/
theorem gate_holds_iff_rates_finite_wild :
    ∃ past a r, Ran (a :: past) r ∧ a.Ready ∧ a.Enters .fire ∧ ¬ Sound past ∧
      a.variance.isNaN = true := by
  let deeds := List.replicate 41 (Deed.aim (held 0)) ++ [.hear wild false]
  have hreplay : (replay {} deeds).map (fun r => (r.controller.phase, r.controller.target,
      r.controller.sighting.map (·.box))) =
      .ok (.track 1500 20, .frameCenter, some ⟨350, 200, 100, 200⟩) := by decide +kernel
  obtain ⟨r, hr, hcontroller⟩ := Checked.map_eq_ok.mp hreplay
  obtain ⟨hphase, hrest⟩ := Prod.mk.inj hcontroller
  obtain ⟨htarget, hsighting⟩ := Prod.mk.inj hrest
  obtain ⟨past, run, hpast⟩ := Ran.start.replay hr
  rw [List.append_nil] at run
  have hunsound : ¬ Sound past := by
    rw [Sound, recorded_eq, hpast]
    decide +kernel
  have hi : ((held 1501).input r.motion.gyro.rotation).Admissible :=
    ⟨show 1501 ≤ _ by decide, (Aim.heldTarget_admissible (show 0 ≤ 10000 by decide)).offer⟩
  have hbounded : r.controller.Bounded := by
    refine ⟨htarget ▸ Controller.bounded_initial.target, ?_⟩
    intro s hs
    rw [Option.mem_def.mp hs] at hsighting
    exact hi.offer _ hsighting.symm
  obtain ⟨⟨tick, next, left⟩, hstep⟩ := Controller.step_ok hi hbounded fun deadline n h => by
    rw [hphase] at h
    cases h
    decide
  let a : Act := ⟨r, .aim (held 1501), some tick, { r with controller := next }⟩
  have run' : Ran (a :: past) a.after := .act run (Checked.map_eq_ok.mpr ⟨_, hstep, rfl⟩)
  have hready : a.Ready :=
    ⟨held 1501, 1500, 20, rfl, hphase, by decide, rfl, Nat.le_add_right 20 _⟩
  obtain ⟨hnumber, -, hfire, -⟩ := gate_holds_iff_rates_finite run'
  refine ⟨past, a, a.after, run', hready, (hfire hready).mpr fun h => hunsound h.1, hunsound, ?_⟩
  exact Bool.of_not_eq_false fun h => hunsound (hnumber.mp h)

end Rig

end FireControl
