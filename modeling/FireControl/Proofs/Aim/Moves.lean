import FireControl.Aim.Controller

/-!
# The moves of the aim controller

Everything one step can do, as a relation: `Moves c i aim outcome next` has one rule for each way
through the controller. `moves_of_step` says that a step is always one of these moves, so that a
property of runs is one case for each rule and nobody unfolds the step again.
-/

namespace FireControl.Aim

open FireControl.Calibration (Ballistics Table)

/-- Between a thousand million to the left and a thousand million to the right. -/
def Moderate (v : Int) : Prop := -1000000000 ≤ v ∧ v ≤ 1000000000

instance (v : Int) : Decidable (Moderate v) := inferInstanceAs (Decidable (_ ∧ _))

/-- A box whose coordinates and sizes are moderate. -/
structure Box.Moderate (b : Box) : Prop where
  left : Aim.Moderate b.left
  top : Aim.Moderate b.top
  width : Aim.Moderate b.width
  height : Aim.Moderate b.height

/-- What one step is given: corrections come from a calibration table. -/
structure Input where
  now : Nat
  offer : Option Box
  readings : Readings
  table : Table

namespace Input

/-- The centred detection that is offered, if there is one. -/
def sighting (i : Input) : Option Sighting :=
  match Sighting.ofOffer i.offer with
  | .ok seen => seen
  | .error _ => none

/-- Whether a centred detection is offered. -/
def centered (i : Input) : Bool := i.sighting.isSome

/-- An input within the ranges that keep the arithmetic of a step within its widths. -/
structure Admissible (i : Input) : Prop where
  now_le : i.now ≤ 18446744073709551615 - 5000
  offer : ∀ box ∈ i.offer, box.Moderate

end Input

namespace Controller

/-- A step on an input. -/
def stepOn (c : Controller) (i : Input) : Checked (Tick × Controller × Option Box) :=
  c.step i.now i.offer i.readings (Ballistics.ofTable i.table)

/-- The last centred box is replaced by a new one. -/
def see (c : Controller) : Option Sighting → Controller
  | none => c
  | some s => { c with sighting := some s }

/-- The centred frames of a tracking phase with those of one more input. -/
def gathered (n : Nat) (i : Input) : Nat := n + if i.centered then 1 else 0

/-- A controller that has judged the readings at the end of tracking. -/
def judged (c : Controller) (n : Nat) (i : Input) : Controller :=
  { c.see i.sighting with
    rotation := i.readings.rotation
    reasons := judge (gathered n i) i.readings }

/-- A controller that has noted the input's centred frame while locking. -/
def noted (c : Controller) (i : Input) : Controller := c.noteCentered i.now i.sighting

/-- The centred frames in the lock window, those of one more input included. -/
def recentWith (c : Controller) (i : Input) : Nat :=
  (c.noted i).history.countSince (i.now - lockWindow)

/-- The yaw rate as a sideways velocity at the target's distance. -/
def sidewaysVelocity (r : Readings) : Float32 :=
  r.rotation.mean / Motion.degreesPerRadian * r.distance

/-- What one step does to a controller, and what it shows. -/
inductive Moves (c : Controller) (i : Input) : Option AimPoints → Option Outcome → Controller → Prop
  /-- Still too few centred frames. -/
  | seek {r} : c.phase = .lock r → c.recentWith i ≤ framesToLock →
      Moves c i none none { c.noted i with phase := .lock (c.recentWith i) }
  /-- Enough centred frames in the lock window. -/
  | acquire {r} : c.phase = .lock r → framesToLock < c.recentWith i →
      Moves c i none none { c.noted i with phase := .track (i.now + trackDuration) 0 }
  /-- Up to the deadline of tracking. -/
  | gather {deadline n} : c.phase = .track deadline n → i.now ≤ deadline →
      Moves c i none none { c.see i.sighting with phase := .track deadline (gathered n i) }
  /-- Past the deadline of tracking, with a reason against firing. -/
  | reject {deadline n} : c.phase = .track deadline n → deadline < i.now →
      judge (gathered n i) i.readings ≠ .empty →
      Moves c i none (some (.failed (judge (gathered n i) i.readings)))
        { c.judged n i with phase := .fail (i.now + failCooldown) }
  /-- Past the deadline of tracking, without a reason against firing. -/
  | fire {deadline n target aim next} : c.phase = .track deadline n → deadline < i.now →
      judge (gathered n i) i.readings = .empty → (c.see i.sighting).solutionTarget = .ok target →
      next = { c.judged n i with
        phase := .fire (i.now + fireCooldown)
        angularVelocity := sidewaysVelocity i.readings
        distance := i.readings.distance
        target } →
      next.aimPoints (Ballistics.ofTable i.table) = .ok aim →
      Moves c i (some aim) (some (.fired i.readings.distance (sidewaysVelocity i.readings))) next
  /-- Up to the end of firing. -/
  | follow {deadline d aim} : c.phase = .fire deadline → i.now ≤ deadline →
      c.follow i.offer = .ok d → d.aimPoints (Ballistics.ofTable i.table) = .ok aim →
      Moves c i (some aim) none d
  /-- The last step of firing. -/
  | cease {deadline d aim} : c.phase = .fire deadline → deadline < i.now →
      c.follow i.offer = .ok d → d.aimPoints (Ballistics.ofTable i.table) = .ok aim →
      Moves c i (some aim) none { d with phase := .lock 0 }
  /-- Up to the end of the pause after a rejected attempt. -/
  | sulk {deadline} : c.phase = .fail deadline → i.now ≤ deadline → Moves c i none none c
  /-- The last step of the pause. -/
  | recover {deadline} : c.phase = .fail deadline → deadline < i.now →
      Moves c i none none { c with phase := .lock 0 }

/-! ## The parts of a step -/

theorem ofOffer_eq_sighting {i : Input} {seen : Option Sighting}
    (h : Sighting.ofOffer i.offer = .ok seen) : seen = i.sighting := by
  simp [Input.sighting, h]

theorem evidence_eq_ok {c d : Controller} {n m : Nat} {i : Input}
    (h : c.evidence n i.sighting = .ok (m, d)) : m = gathered n i ∧ d = c.see i.sighting := by
  unfold evidence gathered Input.centered at *
  cases hs : i.sighting with
  | none =>
    simp only [hs, Except.ok.injEq, Prod.mk.injEq] at h
    exact ⟨h.1.symm, h.2.symm⟩
  | some s =>
    simp only [hs, Checked.map_eq_ok, Checked.nat32_eq_ok, Prod.mk.injEq] at h
    obtain ⟨_, ⟨-, rfl⟩, rfl, rfl⟩ := h
    exact ⟨rfl, rfl⟩

/-- Following a box moves the target alone. -/
theorem follow_phase {c d : Controller} {offer : Option Box} (h : c.follow offer = .ok d) :
    d.phase = c.phase := by
  unfold follow at h
  cases offer with
  | none => cases h; rfl
  | some box =>
    obtain ⟨target, -, rfl⟩ := Checked.map_eq_ok.mp h
    rfl

theorem moves_of_lock {c next : Controller} {i : Input} {r : Nat} (hphase : c.phase = .lock r)
    (h : c.lock i.now i.offer = .ok next) : Moves c i none none next := by
  unfold lock at h
  obtain ⟨seen, hseen, h⟩ := Checked.bind_eq_ok.mp h
  obtain rfl := ofOffer_eq_sighting hseen
  change (if framesToLock < c.recentWith i then _ else _) = _ at h
  by_cases henough : framesToLock < c.recentWith i
  · rw [if_pos henough] at h
    obtain ⟨deadline, hdeadline, h⟩ := Checked.bind_eq_ok.mp h
    obtain ⟨-, rfl⟩ := Checked.nat64_eq_ok.mp hdeadline
    obtain rfl := Checked.pure_eq_ok.mp h
    exact .acquire hphase henough
  · rw [if_neg henough] at h
    obtain rfl := Checked.pure_eq_ok.mp h
    exact .seek hphase (Nat.le_of_not_lt henough)

theorem moves_of_decide {c next : Controller} {i : Input} {deadline n : Nat} {outcome : Outcome}
    (hphase : c.phase = .track deadline n) (hlate : deadline < i.now)
    (h : (c.see i.sighting).decide i.now (gathered n i) i.readings = .ok (outcome, next)) :
    ((∃ f, next.phase = .fail f) ∧ Moves c i none (some outcome) next) ∨
      ((∃ f, next.phase = .fire f) ∧ ∀ aim, next.aimPoints (Ballistics.ofTable i.table) = .ok aim →
        Moves c i (some aim) (some outcome) next) := by
  unfold decide at h
  simp only at h
  by_cases hreasons : judge (gathered n i) i.readings = .empty
  · right
    rw [if_neg (not_not_intro hreasons)] at h
    obtain ⟨_, hdeadline, h⟩ := Checked.bind_eq_ok.mp h
    obtain ⟨-, rfl⟩ := Checked.nat64_eq_ok.mp hdeadline
    obtain ⟨target, htarget, h⟩ := Checked.bind_eq_ok.mp h
    obtain ⟨rfl, rfl⟩ := Prod.mk.inj (Checked.pure_eq_ok.mp h)
    exact ⟨⟨_, rfl⟩, fun aim haim => .fire hphase hlate hreasons htarget rfl haim⟩
  · left
    rw [if_pos hreasons] at h
    obtain ⟨_, hdeadline, h⟩ := Checked.bind_eq_ok.mp h
    obtain ⟨-, rfl⟩ := Checked.nat64_eq_ok.mp hdeadline
    obtain ⟨rfl, rfl⟩ := Prod.mk.inj (Checked.pure_eq_ok.mp h)
    exact ⟨⟨_, rfl⟩, .reject hphase hlate hreasons⟩

theorem moves_of_track {c next : Controller} {i : Input} {deadline n : Nat}
    {aim : Option AimPoints} {outcome : Option Outcome} (hphase : c.phase = .track deadline n)
    (h : c.track deadline n i.now i.offer i.readings (Ballistics.ofTable i.table) =
      .ok (aim, outcome, next)) : Moves c i aim outcome next := by
  unfold track at h
  obtain ⟨seen, hseen, h⟩ := Checked.bind_eq_ok.mp h
  obtain rfl := ofOffer_eq_sighting hseen
  obtain ⟨⟨m, d⟩, hevidence, h⟩ := Checked.bind_eq_ok.mp h
  obtain ⟨rfl, rfl⟩ := evidence_eq_ok hevidence
  by_cases hearly : i.now ≤ deadline
  · simp only [if_pos hearly] at h
    cases Checked.pure_eq_ok.mp h
    exact .gather hphase hearly
  · simp only [if_neg hearly] at h
    obtain ⟨⟨found, d⟩, hdecide, h⟩ := Checked.bind_eq_ok.mp h
    rcases moves_of_decide hphase (Nat.lt_of_not_le hearly) hdecide with
      ⟨⟨f, hf⟩, hmoves⟩ | ⟨⟨f, hf⟩, hmoves⟩
    · simp only [hf] at h
      cases Checked.pure_eq_ok.mp h
      exact hmoves
    · simp only [hf] at h
      obtain ⟨points, hpoints, h⟩ := Checked.bind_eq_ok.mp h
      cases Checked.pure_eq_ok.mp h
      exact hmoves points hpoints

theorem moves_of_fire {c next : Controller} {i : Input} {deadline : Nat} {aim : AimPoints}
    (hphase : c.phase = .fire deadline)
    (h : c.fire deadline i.now i.offer (Ballistics.ofTable i.table) = .ok (aim, next)) :
    Moves c i (some aim) none next := by
  unfold fire at h
  obtain ⟨d, hfollow, h⟩ := Checked.bind_eq_ok.mp h
  obtain ⟨points, hpoints, h⟩ := Checked.bind_eq_ok.mp h
  obtain ⟨rfl, rfl⟩ := Prod.mk.inj (Checked.pure_eq_ok.mp h)
  unfold leaveAfter
  by_cases hlate : deadline < i.now
  · rw [if_pos hlate]
    exact .cease hphase hlate hfollow hpoints
  · rw [if_neg hlate]
    exact .follow hphase (Nat.le_of_not_lt hlate) hfollow hpoints

/-- A step that succeeds is a move, and shows the overlay of the controller it leads to. -/
theorem moves_of_step {c next : Controller} {i : Input} {tick : Tick} {left : Option Box}
    (h : c.stepOn i = .ok (tick, next, left)) :
    Moves c i tick.aim tick.outcome next ∧ next.overlay = .ok tick.overlay := by
  unfold stepOn step at h
  cases hphase : c.phase with
  | lock r =>
    simp only [hphase] at h
    obtain ⟨d, hlock, h⟩ := Checked.bind_eq_ok.mp h
    obtain ⟨o, ho, h⟩ := Checked.bind_eq_ok.mp h
    cases Checked.pure_eq_ok.mp h
    exact ⟨moves_of_lock hphase hlock, ho⟩
  | track deadline n =>
    simp only [hphase] at h
    obtain ⟨⟨aim, outcome, d⟩, htrack, h⟩ := Checked.bind_eq_ok.mp h
    obtain ⟨o, ho, h⟩ := Checked.bind_eq_ok.mp h
    cases Checked.pure_eq_ok.mp h
    exact ⟨moves_of_track hphase htrack, ho⟩
  | fire deadline =>
    simp only [hphase] at h
    obtain ⟨⟨aim, d⟩, hfire, h⟩ := Checked.bind_eq_ok.mp h
    obtain ⟨o, ho, h⟩ := Checked.bind_eq_ok.mp h
    cases Checked.pure_eq_ok.mp h
    exact ⟨moves_of_fire hphase hfire, ho⟩
  | fail deadline =>
    simp only [hphase] at h
    obtain ⟨o, ho, h⟩ := Checked.bind_eq_ok.mp h
    cases Checked.pure_eq_ok.mp h
    refine ⟨?_, ho⟩
    unfold leaveAfter
    by_cases hlate : deadline < i.now
    · rw [if_pos hlate]
      exact .recover hphase hlate
    · rw [if_neg hlate]
      exact .sulk hphase (Nat.le_of_not_lt hlate)

end Controller

end FireControl.Aim
