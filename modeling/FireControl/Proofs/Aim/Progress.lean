import FireControl.Proofs.Aim.Run
import FireControl.Proofs.Calibration.Corrections

/-!
# Steps of the aim controller succeed

On admissible inputs no arithmetic of a step leaves its width: boxes are moderate, so their points
are near (`Box.Moderate.pointDown`), and corrections are small, so near points can be corrected
(`aimPoints_ok`). The target and the last sighting of a controller come from offered boxes
(`Bounded`). With a bound on the length of a tracking phase for its counter, every step returns
(`step_ok`), so that every run can go on (`Run.continues`).
-/

namespace FireControl.Aim

open FireControl.Calibration (Ballistics Table)
open FireControl.Floating

/-- Between fifteen hundred million to the left and to the right, up and down. -/
structure Pixel.Near (p : Pixel) : Prop where
  left : -1500000000 ≤ p.x
  right : p.x ≤ 1500000000
  up : -1500000000 ≤ p.y
  down : p.y ≤ 1500000000

/-! ## Boxes -/

theorem half_le {v parts : Int} (hv : Moderate v) (hparts : 2 ≤ parts) :
    -500000000 ≤ v.tdiv parts ∧ v.tdiv parts ≤ 500000000 := by
  have hnat : (v.tdiv parts).natAbs ≤ 500000000 := by
    rw [Int.natAbs_tdiv]
    refine Nat.div_le_of_le_mul ?_
    calc v.natAbs ≤ 2 * 500000000 := by unfold Moderate at hv; omega
      _ ≤ parts.natAbs * 500000000 := Nat.mul_le_mul_right _ (by omega)
  omega

theorem Box.Moderate.pointDown {b : Box} (h : b.Moderate) {parts : Int} (hparts : 2 ≤ parts) :
    ∃ p, b.pointDown parts = .ok p ∧ p.Near := by
  have hx := half_le h.width (Int.le_refl 2)
  have hy := half_le h.height hparts
  have hleft := h.left
  have htop := h.top
  unfold Aim.Moderate at hleft htop
  refine ⟨⟨b.left + b.width.tdiv 2, b.top + b.height.tdiv parts⟩, ?_, ?_⟩
  · refine Checked.bind_eq_ok.mpr ⟨_, Checked.int32_eq_ok.mpr ⟨⟨by omega, by omega⟩, rfl⟩, ?_⟩
    exact Checked.bind_eq_ok.mpr ⟨_, Checked.int32_eq_ok.mpr ⟨⟨by omega, by omega⟩, rfl⟩, rfl⟩
  · constructor <;> dsimp only <;> omega

theorem Pixel.Near.isCentered {p : Pixel} (h : p.Near) : ∃ r, p.isCentered = .ok r := by
  obtain ⟨hleft, hright, hup, hdown⟩ := h
  have hx : frameCenter.x = 400 := rfl
  have hy : frameCenter.y = 300 := rfl
  refine ⟨_, Checked.bind_eq_ok.mpr ⟨p.x - frameCenter.x, Checked.int32_eq_ok.mpr ⟨⟨?_, ?_⟩, rfl⟩,
    Checked.bind_eq_ok.mpr ⟨p.y - frameCenter.y, Checked.int32_eq_ok.mpr ⟨⟨?_, ?_⟩, rfl⟩, rfl⟩⟩⟩
  all_goals omega

theorem Box.Moderate.ofBox {b : Box} (h : b.Moderate) : ∃ seen, Sighting.ofBox b = .ok seen := by
  obtain ⟨center, hcenter, hnear⟩ := h.pointDown (Int.le_refl 2)
  obtain ⟨r, hr⟩ := hnear.isCentered
  exact ⟨_, Checked.bind_eq_ok.mpr ⟨center, hcenter, Checked.bind_eq_ok.mpr ⟨r, hr, rfl⟩⟩⟩

theorem Input.Admissible.ofOffer {i : Input} (hi : i.Admissible) :
    Sighting.ofOffer i.offer = .ok i.sighting := by
  have hseen : ∃ seen, Sighting.ofOffer i.offer = .ok seen := by
    cases hoffer : i.offer with
    | none => exact ⟨none, rfl⟩
    | some b => exact (hi.offer b hoffer).ofBox
  obtain ⟨seen, hseen⟩ := hseen
  rw [hseen, Controller.ofOffer_eq_sighting hseen]

/-- A sighting is of the box that was offered. -/
theorem Input.offer_of_sighting {i : Input} {s : Sighting} (h : i.sighting = some s) :
    i.offer = some s.box := by
  unfold Input.sighting at h
  cases hoffer : i.offer with
  | none => simp [hoffer, Sighting.ofOffer] at h
  | some b =>
    simp only [hoffer, Sighting.ofOffer] at h
    split at h
    · next seen hseen =>
      subst h
      obtain ⟨center, -, hseen⟩ := Checked.bind_eq_ok.mp hseen
      obtain ⟨r, -, hseen⟩ := Checked.bind_eq_ok.mp hseen
      have := Checked.pure_eq_ok.mp hseen
      cases r with
      | false => cases this
      | true => cases this; rfl
    · cases h

namespace Controller

variable {c next : Controller} {i : Input}

/-! ## What the controller keeps is near the frame -/

/-- The target is near, and the last sighting is of a moderate box. -/
structure Bounded (c : Controller) : Prop where
  target : c.target.Near
  sighting : ∀ s ∈ c.sighting, s.box.Moderate

theorem bounded_initial : Bounded {} :=
  ⟨⟨by decide, by decide, by decide, by decide⟩, fun _ h => by cases h⟩

/-- A controller with the same target and the same last sighting. -/
theorem Bounded.of_eq {d : Controller} (h : c.Bounded) (htarget : d.target = c.target)
    (hsighting : d.sighting = c.sighting) : d.Bounded :=
  ⟨htarget ▸ h.target, hsighting ▸ h.sighting⟩

theorem noted_target (c : Controller) (i : Input) :
    (c.noted i).target = c.target ∧ (c.noted i).sighting = c.sighting := by
  unfold noted noteCentered
  cases i.sighting <;> exact ⟨rfl, rfl⟩

theorem Bounded.see (h : c.Bounded) (hi : i.Admissible) : (c.see i.sighting).Bounded := by
  cases hs : i.sighting with
  | none => exact h
  | some s =>
    refine ⟨h.target, ?_⟩
    intro t ht
    cases ht
    exact hi.offer _ (Input.offer_of_sighting hs)

theorem Bounded.solutionTarget (h : c.Bounded) : ∃ p, c.solutionTarget = .ok p ∧ p.Near := by
  unfold Controller.solutionTarget
  cases hs : c.sighting with
  | none => exact ⟨_, rfl, bounded_initial.target⟩
  | some s => exact (h.sighting s hs).pointDown (by decide)

theorem Bounded.follow (h : c.Bounded) (hi : i.Admissible) :
    ∃ d, c.follow i.offer = .ok d ∧ d.Bounded := by
  cases hoffer : i.offer with
  | none => exact ⟨c, rfl, h⟩
  | some b =>
    obtain ⟨p, hp, hnear⟩ := (hi.offer b hoffer).pointDown (show (2 : Int) ≤ 4 by decide)
    exact ⟨_, Checked.map_eq_ok.mpr ⟨p, hp, rfl⟩, hnear, h.sighting⟩

theorem Bounded.of_follow {d : Controller} (h : c.Bounded) (hi : i.Admissible)
    (hfollow : c.follow i.offer = .ok d) : d.Bounded := by
  obtain ⟨e, he, hbounded⟩ := h.follow hi
  rw [hfollow] at he
  cases he
  exact hbounded

/-- Every move keeps the controller near the frame. -/
theorem Bounded.step {aim : Option AimPoints} {outcome : Option Outcome} (h : c.Bounded)
    (hi : i.Admissible) (hmoves : c.Moves i aim outcome next) : next.Bounded := by
  cases hmoves with
  | seek hlock hfew => exact h.of_eq (c.noted_target i).1 (c.noted_target i).2
  | acquire hlock henough => exact h.of_eq (c.noted_target i).1 (c.noted_target i).2
  | gather htrack hearly => exact (h.see hi).of_eq rfl rfl
  | reject htrack hlate hreasons => exact (h.see hi).of_eq rfl rfl
  | fire htrack hlate hreasons htarget hnext haim =>
    obtain ⟨p, hp, hnear⟩ := (h.see hi).solutionTarget
    rw [htarget] at hp
    cases hp
    subst hnext
    exact ⟨hnear, (h.see hi).sighting⟩
  | follow hfire hearly hfollow haim => exact h.of_follow hi hfollow
  | cease hfire hlate hfollow haim => exact (h.of_follow hi hfollow).of_eq rfl rfl
  | sulk hfail hearly => exact h
  | recover hfail hlate => exact h.of_eq rfl rfl

/-- After every run the controller is near the frame. -/
theorem bounded {past : List Step} (run : Run past c) : c.Bounded := by
  induction run with
  | start => exact bounded_initial
  | step _ hi _ hstep ih =>
    obtain ⟨left, hstep⟩ := hstep
    exact ih.step hi (moves_of_step hstep).1

/-! ## Corrections and the overlay -/

theorem signedLead_within (t : Table) (distance velocity : Float) :
    Within 29 (signedLead (Ballistics.ofTable t) distance velocity) := by
  unfold signedLead
  split
  · exact neg_within (Ballistics.lead_within t distance velocity) (by decide) (by decide)
  · exact Ballistics.lead_within t distance velocity

theorem aimPoints_ok (h : c.target.Near) (t : Table) :
    ∃ corrected, c.aimPoints (Ballistics.ofTable t) = .ok ⟨c.target, corrected⟩ := by
  obtain ⟨hleft, hright, hup, hdown⟩ := h
  have hlead := toInt32_natAbs_le (signedLead_within t (widen c.distance)
    (widen c.angularVelocity)) (by decide)
  have hdrop := toInt32_natAbs_le (Ballistics.drop_within t (widen c.distance)) (by decide)
  have hlead' : (2 : Nat) ^ (29 : Int).toNat = 536870912 := by decide
  have hdrop' : (2 : Nat) ^ (22 : Int).toNat = 4194304 := by decide
  rw [hlead'] at hlead
  rw [hdrop'] at hdrop
  refine ⟨_, Checked.bind_eq_ok.mpr ⟨_, Checked.int32_eq_ok.mpr ⟨⟨?_, ?_⟩, rfl⟩,
    Checked.bind_eq_ok.mpr ⟨_, Checked.int32_eq_ok.mpr ⟨⟨?_, ?_⟩, rfl⟩, rfl⟩⟩⟩
  all_goals omega

/-- The count shown while locking comes from the forty slots of the ring. -/
theorem overlay_ok (h : ∀ recent, c.phase = .lock recent → recent ≤ 40) :
    ∃ o, c.overlay = .ok o := by
  unfold overlay Overlay.build
  cases hphase : c.phase with
  | lock recent =>
    have hrecent := h recent hphase
    exact ⟨_, Checked.bind_eq_ok.mpr ⟨_, Checked.map_eq_ok.mpr ⟨_, Checked.bind_eq_ok.mpr
      ⟨_, Checked.nat64_eq_ok.mpr ⟨show recent * 100 < _ by omega, rfl⟩, rfl⟩, rfl⟩, rfl⟩⟩
  | track => exact ⟨_, rfl⟩
  | fire => exact ⟨_, rfl⟩
  | fail => exact ⟨_, rfl⟩

/-- A move that leads to locking shows no more frames than are needed. -/
theorem recent_le {aim : Option AimPoints} {outcome : Option Outcome}
    (hmoves : c.Moves i aim outcome next) {recent : Nat} (h : next.phase = .lock recent) :
    recent ≤ framesToLock := by
  cases hmoves with
  | seek hlock hfew => cases h; exact hfew
  | acquire => cases h
  | gather => cases h
  | reject => cases h
  | fire _ _ _ _ hnext => rw [hnext] at h; cases h
  | follow hfire _ hfollow => rw [follow_phase hfollow, hfire] at h; cases h
  | cease => cases h; exact Nat.zero_le _
  | sulk hfail => rw [hfail] at h; cases h
  | recover => cases h; exact Nat.zero_le _

/-! ## The parts of a step succeed -/

theorem lock_ok (hi : i.Admissible) : ∃ next, c.lock i.now i.offer = .ok next := by
  have hnow := hi.now_le
  have hlength : trackDuration = 1500 := rfl
  refine Checked.bind_succeeds hi.ofOffer ?_
  dsimp only
  split
  · exact Checked.bind_succeeds (Checked.nat64_eq_ok.mpr ⟨by omega, rfl⟩) ⟨_, rfl⟩
  · exact ⟨_, rfl⟩

theorem evidence_ok {n : Nat} (hn : n + 1 < 4294967296) :
    c.evidence n i.sighting = .ok (gathered n i, c.see i.sighting) := by
  unfold evidence gathered Input.centered
  cases i.sighting with
  | none => rfl
  | some s => exact Checked.map_eq_ok.mpr ⟨n + 1, Checked.nat32_eq_ok.mpr ⟨hn, rfl⟩, rfl⟩

theorem decide_ok (n : Nat) (hi : i.Admissible) (h : c.Bounded) :
    ∃ outcome next, c.decide i.now n i.readings = .ok (outcome, next) ∧ next.target.Near := by
  have hnow := hi.now_le
  have hfail : failCooldown = 1000 := rfl
  have hfire : fireCooldown = 5000 := rfl
  have hdeadline : ∀ length ≤ 5000, Checked.nat64 .add (i.now + length) = .ok (i.now + length) :=
    fun length hlength => Checked.nat64_eq_ok.mpr ⟨by omega, rfl⟩
  unfold decide
  dsimp only
  split
  · exact ⟨_, _, Checked.bind_eq_ok.mpr ⟨_, hdeadline failCooldown (by omega), rfl⟩, h.target⟩
  · obtain ⟨p, hp, hnear⟩ := h.solutionTarget
    exact ⟨_, _, Checked.bind_eq_ok.mpr ⟨_, hdeadline fireCooldown (by omega),
      Checked.bind_eq_ok.mpr ⟨p, hp, rfl⟩⟩, hnear⟩

theorem track_ok (deadline : Nat) {n : Nat} (hi : i.Admissible) (h : c.Bounded)
    (hn : n + 1 < 4294967296) :
    ∃ r, c.track deadline n i.now i.offer i.readings (Ballistics.ofTable i.table) = .ok r := by
  refine Checked.bind_succeeds hi.ofOffer (Checked.bind_succeeds (evidence_ok hn) ?_)
  dsimp only
  split
  · exact ⟨_, rfl⟩
  · obtain ⟨outcome, next, hdecide, hnear⟩ := decide_ok (gathered n i) hi (h.see hi)
    refine Checked.bind_succeeds hdecide ?_
    dsimp only
    split
    · obtain ⟨corrected, haim⟩ := aimPoints_ok hnear i.table
      exact Checked.bind_succeeds haim ⟨_, rfl⟩
    · exact ⟨_, rfl⟩

theorem fire_ok (deadline : Nat) (hi : i.Admissible) (h : c.Bounded) :
    ∃ r, c.fire deadline i.now i.offer (Ballistics.ofTable i.table) = .ok r := by
  obtain ⟨d, hd, hbounded⟩ := h.follow hi
  obtain ⟨corrected, haim⟩ := aimPoints_ok hbounded.target i.table
  exact Checked.bind_succeeds hd (Checked.bind_succeeds haim ⟨_, rfl⟩)

/-- A step whose phase has been worked out shows an overlay. -/
theorem overlay_ok_of_moves {aim : Option AimPoints} {outcome : Option Outcome}
    (hmoves : c.Moves i aim outcome next) : ∃ o, next.overlay = .ok o :=
  overlay_ok fun _ h => le_trans (recent_le hmoves h) (by decide)

/-- A step on an admissible input returns, as long as the counter of tracking has room. -/
theorem step_ok (hi : i.Admissible) (h : c.Bounded)
    (hroom : ∀ deadline n, c.phase = .track deadline n → n + 1 < 4294967296) :
    ∃ r, c.stepOn i = .ok r := by
  unfold stepOn step
  cases hphase : c.phase with
  | lock r =>
    obtain ⟨next, hnext⟩ := lock_ok (c := c) hi
    obtain ⟨o, ho⟩ := overlay_ok_of_moves (moves_of_lock hphase hnext)
    exact Checked.bind_succeeds hnext (Checked.bind_succeeds ho ⟨_, rfl⟩)
  | track deadline n =>
    obtain ⟨⟨aim, outcome, next⟩, hnext⟩ := track_ok deadline hi h (hroom _ _ hphase)
    obtain ⟨o, ho⟩ := overlay_ok_of_moves (moves_of_track hphase hnext)
    exact Checked.bind_succeeds hnext (Checked.bind_succeeds ho ⟨_, rfl⟩)
  | fire deadline =>
    obtain ⟨⟨aim, next⟩, hnext⟩ := fire_ok deadline hi h
    obtain ⟨o, ho⟩ := overlay_ok_of_moves (moves_of_fire hphase hnext)
    exact Checked.bind_succeeds hnext (Checked.bind_succeeds ho ⟨_, rfl⟩)
  | fail deadline =>
    obtain ⟨o, ho⟩ := overlay_ok (c := c.leaveAfter deadline i.now) fun recent hr => by
      unfold leaveAfter at hr
      split at hr
      · cases hr
        exact Nat.zero_le _
      · rw [hphase] at hr
        cases hr
    exact Checked.bind_succeeds ho ⟨_, rfl⟩

end Controller

/-- A run can always go on, as long as a spell of tracking leaves room on its counter. -/
theorem Run.continues {past : List Step} {c : Controller} (run : Run past c) {i : Input}
    (hi : i.Admissible) (hnow : lastTime past ≤ i.now)
    (hroom : c.phase.state = .track → (spell .track past).length + 1 < 4294967296) :
    ∃ s : Step, s.before = c ∧ s.input = i ∧ Run (s :: past) s.after := by
  have hcount : ∀ deadline n, c.phase = .track deadline n → n + 1 < 4294967296 := by
    intro deadline n hphase
    have hexplained := (explained run).phase
    unfold PhaseExplained at hexplained
    rw [hphase] at hexplained
    obtain ⟨_, -, -, rfl, -⟩ := hexplained
    exact Nat.lt_of_le_of_lt (Nat.succ_le_succ List.countP_le_length)
      (hroom (congrArg Phase.state hphase))
  obtain ⟨⟨tick, next, left⟩, hstep⟩ := Controller.step_ok hi (Controller.bounded run) hcount
  exact ⟨⟨c, i, tick, next⟩, rfl, rfl, .step (s := ⟨c, i, tick, next⟩) run hi hnow ⟨left, hstep⟩⟩

theorem Run.stepOn {past : List Step} {s : Step} {c : Controller} (run : Run (s :: past) c) :
    ∃ left, s.before.stepOn s.input = .ok (s.tick, s.after, left) := by
  cases run with
  | step _ _ _ hstep => exact hstep

/-- The latest step of a run is a move, and it shows the overlay of the controller it leads to. -/
theorem Run.latest {past : List Step} {s : Step} {c : Controller} (run : Run (s :: past) c) :
    c = s.after ∧ Run past s.before ∧ lastTime past ≤ s.now ∧
      s.before.Moves s.input s.tick.aim s.tick.outcome s.after ∧
      s.after.overlay = .ok s.tick.overlay := by
  cases run with
  | step run _ hnow hstep =>
    obtain ⟨left, hstep⟩ := hstep
    exact ⟨rfl, run, hnow, Controller.moves_of_step hstep⟩

/-- The latest step by what it showed and led to, which a case analysis of the move replaces. -/
theorem Run.move {past : List Step} {s : Step} {c : Controller} (run : Run (s :: past) c) :
    ∃ aim outcome next, s.before.Moves s.input aim outcome next ∧ s.tick.aim = aim ∧
      s.tick.outcome = outcome ∧ s.after = next :=
  ⟨_, _, _, run.latest.2.2.2.1, rfl, rfl, rfl⟩

end FireControl.Aim
