import FireControl.Proofs.Aim.Locking
import FireControl.Proofs.Aim.OppositeLead

/-!
# Mirrored runs

Two runs that are given the same, but for the direction in which the rig turns when tracking ends.
`Follows` compares two checked computations: where the first has a result the second has a related
one, unless it overflows where the relation allows it to. A step is followed part by part
(`track_follows`, `fire_follows`, `step_follows`), so that the controllers stay `Twins`, which differ
in the rotation and the velocity alone, and every step is `Symmetric` to its counterpart.

Main statement: `opposite_rotations_mirror_the_lead`.
-/

namespace FireControl.Aim

open FireControl.Calibration (Ballistics Table)
open FireControl.Floating

/-! ## Computations that follow each other -/

section Follows

variable {α β γ δ : Type} {R : α → β → Prop} {O : α → Prop} {S : γ → δ → Prop} {P : γ → Prop}

/-- Where `x` has a result, `y` has a related one, unless the result of `x` allows for an overflow in
an addition and `y` meets one. -/
def Follows (R : α → β → Prop) (O : α → Prop) (x : Checked α) (y : Checked β) : Prop :=
  ∀ a, x = .ok a → (∃ b, y = .ok b ∧ R a b) ∨ (y = .error .add ∧ O a)

theorem Follows.ok {a : α} {b : β} (h : R a b) : Follows R O (.ok a) (.ok b) := by
  rintro _ ⟨⟩
  exact Or.inl ⟨b, rfl, h⟩

theorem Follows.same (x : Checked α) : Follows Eq O x x := fun a ha => Or.inl ⟨a, ha, rfl⟩

theorem Follows.map (x : Checked α) (f : α → β) : Follows (fun a b => b = f a) O x (x.map f) :=
  fun a ha => Or.inl ⟨f a, Checked.map_eq_ok.mpr ⟨a, ha, rfl⟩, rfl⟩

theorem Follows.of_eq {x : Checked α} {y : Checked β} (h : ∀ a, x = .ok a → ∃ b, y = .ok b ∧ R a b) :
    Follows R O x y := fun a ha => Or.inl (h a ha)

theorem Follows.bind {x : Checked α} {y : Checked β} {f : α → Checked γ} {g : β → Checked δ}
    (h : Follows R O x y) (hR : ∀ a b, R a b → Follows S P (f a) (g b))
    (hO : ∀ a, O a → ∀ c, f a = .ok c → P c) : Follows S P (x >>= f) (y >>= g) := by
  intro c hc
  obtain ⟨a, ha, hc⟩ := Checked.bind_eq_ok.mp hc
  rcases h a ha with ⟨b, hb, hab⟩ | ⟨herror, hover⟩
  · rw [hb]
    exact hR a b hab c hc
  · rw [herror]
    exact Or.inr ⟨rfl, hO a hover c hc⟩

/-- A computation that never overflows alone. -/
theorem Follows.sure {x : Checked α} {y : Checked β} {f : α → Checked γ} {g : β → Checked δ}
    (h : Follows R (fun _ => False) x y) (hR : ∀ a b, R a b → Follows S P (f a) (g b)) :
    Follows S P (x >>= f) (y >>= g) := h.bind hR fun _ hnever => hnever.elim

/-- Both make the same computation first. -/
theorem Follows.alike (x : Checked α) {f : α → Checked γ} {g : α → Checked δ}
    (h : ∀ a, Follows S P (f a) (g a)) : Follows S P (x >>= f) (x >>= g) := by
  refine (Follows.same x).sure ?_
  rintro a _ rfl
  exact h a

end Follows

/-! ## Aim points at opposite velocities -/

/-- Two aims at one target that are equally high and equally far to both sides of it; they are the
same if the velocity is zero. -/
structure Reflected (velocity : Float32) (p p' : AimPoints) : Prop where
  target : p'.target = p.target
  height : p'.corrected.y = p.corrected.y
  still : (velocity == 0) = true → p'.corrected.x = p.corrected.x
  lead : (velocity == 0) = false →
    p'.corrected.x - p'.target.x = -(p.corrected.x - p.target.x)

/-- The aim as far to the other side of the target leaves the width of coordinates. -/
def AimPoints.Beyond (p : AimPoints) : Prop :=
  ¬ Checked.InInt32 (p.target.x - (p.corrected.x - p.target.x))

/-- The aim at a target with a lead and a drop. -/
def AimPoints.shifted (target : Pixel) (lead drop : Int) : Checked AimPoints := do
  let x ← Checked.int32 .add (target.x + lead)
  let y ← Checked.int32 .subtract (target.y - drop)
  return ⟨target, ⟨x, y⟩⟩

theorem AimPoints.shifted_eq_ok {target : Pixel} {lead drop : Int} {p : AimPoints} :
    AimPoints.shifted target lead drop = .ok p ↔
      Checked.InInt32 (target.x + lead) ∧ Checked.InInt32 (target.y - drop) ∧
        p = ⟨target, ⟨target.x + lead, target.y - drop⟩⟩ := by
  unfold AimPoints.shifted
  simp only [Checked.bind_eq_ok, Checked.int32_eq_ok, Checked.pure_eq_ok]
  constructor
  · rintro ⟨_, ⟨hx, rfl⟩, _, ⟨hy, rfl⟩, rfl⟩
    exact ⟨hx, hy, rfl⟩
  · rintro ⟨hx, hy, rfl⟩
    exact ⟨_, ⟨hx, rfl⟩, _, ⟨hy, rfl⟩, rfl⟩

theorem AimPoints.shifted_follows (target : Pixel) (lead drop : Int) :
    Follows (fun p p' => p'.target = p.target ∧ p'.corrected.y = p.corrected.y ∧
        p'.corrected.x - p'.target.x = -(p.corrected.x - p.target.x)) Beyond
      (AimPoints.shifted target lead drop) (AimPoints.shifted target (-lead) drop) := by
  intro p hp
  obtain ⟨-, hy, rfl⟩ := AimPoints.shifted_eq_ok.mp hp
  by_cases hx : Checked.InInt32 (target.x + -lead)
  · refine Or.inl ⟨_, AimPoints.shifted_eq_ok.mpr ⟨hx, hy, rfl⟩, rfl, rfl, ?_⟩
    show target.x + -lead - target.x = -(target.x + lead - target.x)
    omega
  · refine Or.inr ⟨?_, ?_⟩
    · rw [AimPoints.shifted, Checked.int32, if_neg hx]
      rfl
    · have hother : target.x - (target.x + lead - target.x) = target.x + -lead := by omega
      unfold Beyond
      rwa [hother]

namespace Controller

theorem aimPoints_eq (c : Controller) (b : Ballistics Float) :
    c.aimPoints b = AimPoints.shifted c.target
      (toInt32 (signedLead b (widen c.distance) (widen c.angularVelocity)))
      (toInt32 (b.drop (widen c.distance))) := rfl

/-- The controller with another rotation and another angular velocity. -/
def turned (c : Controller) (rotation : Motion.Rotation Float32) (velocity : Float32) : Controller :=
  { c with rotation, angularVelocity := velocity }

theorem aimPoints_follows (c : Controller) {velocity : Float32}
    (hvelocity : velocity = -c.angularVelocity) (rotation : Motion.Rotation Float32) (t : Table) :
    Follows (Reflected c.angularVelocity) AimPoints.Beyond (c.aimPoints (.ofTable t))
      ((c.turned rotation velocity).aimPoints (.ofTable t)) := by
  subst hvelocity
  rw [aimPoints_eq, aimPoints_eq]
  show Follows _ _ _ (AimPoints.shifted c.target
    (toInt32 (signedLead _ (widen c.distance) (widen (-c.angularVelocity)))) _)
  cases hzero : c.angularVelocity == 0 with
  | true =>
    rw [signedLead_zero hzero]
    refine Follows.of_eq fun p hp => ⟨p, hp, rfl, rfl, fun _ => rfl, fun h => ?_⟩
    rw [hzero] at h
    cases h
  | false =>
    rw [toInt32_signedLead_neg hzero]
    intro p hp
    rcases AimPoints.shifted_follows _ _ _ p hp with ⟨p', hp', htarget, hheight, hlead⟩ | hover
    · refine Or.inl ⟨p', hp', htarget, hheight, fun h => ?_, fun _ => hlead⟩
      rw [hzero] at h
      cases h
    · exact Or.inr hover

end Controller

/-! ## Controllers that differ in the rotation -/

/-- The outcome of the opposite rotation. -/
def Outcome.opposite : Outcome → Outcome
  | .fired distance angularVelocity => .fired distance (-angularVelocity)
  | .failed reasons => .failed reasons

/-- The readings of the opposite rotation. -/
def Readings.opposite (r : Readings) : Readings := { r with rotation.mean := -r.rotation.mean }

namespace Controller

/-- The controllers differ in the rotation and the angular velocity alone, and the velocities of
controllers that fire are opposite. -/
structure Twins (c c' : Controller) : Prop where
  same : ∃ rotation velocity, c' = c.turned rotation velocity
  opposite : c.phase.state = .fire → c'.angularVelocity = -c.angularVelocity

/-- A controller decides at a time. -/
def Decides (c : Controller) (now : Nat) : Prop :=
  ∃ deadline n, c.phase = .track deadline n ∧ deadline < now

end Controller

/-- What two controllers are given differs in the mean rotation alone, and that is opposite where both
decide. -/
structure Opposed (c c' : Controller) (i i' : Input) : Prop where
  now : i'.now = i.now
  offer : i'.offer = i.offer
  table : i'.table = i.table
  distance : i'.readings.distance = i.readings.distance
  radarAlive : i'.readings.radarAlive = i.readings.radarAlive
  variance : i'.readings.rotation.variance = i.readings.rotation.variance
  mean : c.Decides i.now → c'.Decides i'.now →
    i'.readings.rotation.mean = -i.readings.rotation.mean

namespace Controller

variable {c c' : Controller} {now : Nat} {offer : Option Box}

theorem sidewaysVelocity_opposite (r : Readings) :
    sidewaysVelocity r.opposite = -(sidewaysVelocity r) := by
  show -r.rotation.mean / Motion.degreesPerRadian * r.distance = _
  rw [neg_div32, neg_mul32]
  rfl

theorem Twins.turned (h : c.phase.state ≠ .fire) (rotation : Motion.Rotation Float32)
    (velocity : Float32) : Twins c (c.turned rotation velocity) :=
  ⟨⟨rotation, velocity, rfl⟩, fun hfire => absurd hfire h⟩

theorem Twins.phase (h : Twins c c') : c'.phase = c.phase := by
  obtain ⟨⟨rotation, velocity, rfl⟩, -⟩ := h
  rfl

theorem lock_turned (c : Controller) (rotation : Motion.Rotation Float32) (velocity : Float32) :
    (c.turned rotation velocity).lock now offer =
      (c.lock now offer).map (·.turned rotation velocity) := by
  unfold lock
  cases Sighting.ofOffer offer with
  | error e => rfl
  | ok seen =>
    have hnoted : (c.turned rotation velocity).noteCentered now seen =
        (c.noteCentered now seen).turned rotation velocity := by cases seen <;> rfl
    have hhistory : ∀ d : Controller, (d.turned rotation velocity).history = d.history := fun _ => rfl
    simp only [bind, Except.bind, hnoted, hhistory]
    split
    · cases Checked.nat64 .add (now + trackDuration) <;> rfl
    · rfl

theorem lock_state {d : Controller} (h : c.lock now offer = .ok d) : d.phase.state ≠ .fire := by
  unfold lock at h
  obtain ⟨seen, -, h⟩ := Checked.bind_eq_ok.mp h
  dsimp only at h
  split at h
  · obtain ⟨deadline, -, h⟩ := Checked.bind_eq_ok.mp h
    rw [← Checked.pure_eq_ok.mp h]
    simp [Phase.state]
  · rw [← Checked.pure_eq_ok.mp h]
    simp [Phase.state]

theorem evidence_turned (c : Controller) (rotation : Motion.Rotation Float32) (velocity : Float32)
    (n : Nat) (seen : Option Sighting) :
    (c.turned rotation velocity).evidence n seen =
      (c.evidence n seen).map fun r => (r.1, r.2.turned rotation velocity) := by
  cases seen with
  | none => rfl
  | some s =>
    unfold evidence
    cases Checked.nat32 .add (n + 1) <;> rfl

theorem decide_follows (c : Controller) (rotation : Motion.Rotation Float32) (velocity : Float32)
    (n : Nat) (r : Readings) : Follows (fun d d' => d'.1 = d.1.opposite ∧ Twins d.2 d'.2)
      (fun _ => False) (c.decide now n r) ((c.turned rotation velocity).decide now n r.opposite) := by
  have hjudge : judge n r.opposite = judge n r := rfl
  unfold decide
  simp only [hjudge]
  split
  · refine Follows.alike _ fun deadline => Follows.ok ⟨rfl, ⟨_, _, rfl⟩, fun h => ?_⟩
    cases h
  · refine Follows.alike _ fun deadline => Follows.alike _ fun target => ?_
    have hvelocity := sidewaysVelocity_opposite r
    exact Follows.ok ⟨congrArg _ hvelocity, ⟨_, _, rfl⟩, fun _ => hvelocity⟩

theorem overlay_turned (c : Controller) (rotation : Motion.Rotation Float32) (velocity : Float32) :
    (c.turned rotation velocity).overlay =
      c.overlay.map fun o => { o with angularVelocity := velocity } := by
  have hbuild : ∀ state recent, Overlay.build state recent c.reasons velocity c.distance =
      (Overlay.build state recent c.reasons c.angularVelocity c.distance).map
        fun o => { o with angularVelocity := velocity } := by
    intro state recent
    unfold Overlay.build
    cases state with
    | lock => cases lockProgress recent <;> rfl
    | track | fire | fail => rfl
  exact hbuild _ _

/-- What two steps show, and where they lead, is the same up to the direction of the lead. -/
structure Symmetric (tick tick' : Tick) (after after' : Controller) : Prop where
  phase : after'.phase = after.phase
  overlay : tick'.overlay = { tick.overlay with angularVelocity := after'.angularVelocity }
  outcome : tick'.outcome = tick.outcome.map Outcome.opposite
  aim : Option.Rel (Reflected after.angularVelocity) tick.aim tick'.aim
  velocity : tick.aim.isSome → after'.angularVelocity = -after.angularVelocity

/-- What a phase shows in two controllers. -/
structure Mirrors (x x' : Option AimPoints × Option Outcome × Controller) : Prop where
  twins : Twins x.2.2 x'.2.2
  outcome : x'.2.1 = x.2.1.map Outcome.opposite
  aim : Option.Rel (Reflected x.2.2.angularVelocity) x.1 x'.1
  velocity : x.1.isSome → x'.2.2.angularVelocity = -x.2.2.angularVelocity

/-- The reflected aim of what a phase shows leaves the width of coordinates. -/
def Escapes (aim : Option AimPoints) : Prop := ∃ p, aim = some p ∧ p.Beyond

variable {rotation : Motion.Rotation Float32} {velocity : Float32} {deadline n : Nat}

/-- A phase other than firing that shows neither an aim nor an outcome. -/
theorem Mirrors.still (h : c.phase.state ≠ .fire) :
    Mirrors (none, none, c) (none, none, c.turned rotation velocity) :=
  ⟨Twins.turned h .., rfl, .none, fun hsome => by cases hsome⟩

theorem track_follows {r r' : Readings} (hr : deadline < now → r' = r.opposite) (t : Table) :
    Follows Mirrors (fun x => Escapes x.1) (c.track deadline n now offer r (.ofTable t))
      ((c.turned rotation velocity).track deadline n now offer r' (.ofTable t)) := by
  unfold track
  refine Follows.alike _ fun seen => ?_
  rw [evidence_turned]
  refine (Follows.map _ _).sure ?_
  rintro ⟨m, d⟩ _ rfl
  by_cases hearly : now ≤ deadline
  · simp only [if_pos hearly]
    exact Follows.ok (Mirrors.still (by simp [Phase.state]))
  · simp only [if_neg hearly]
    rw [hr (Nat.lt_of_not_le hearly)]
    refine (decide_follows d rotation velocity m r).sure ?_
    rintro ⟨outcome, e⟩ ⟨_, e'⟩ ⟨rfl, htwins⟩
    have hphase := htwins.phase
    dsimp only at hphase htwins ⊢
    rw [hphase]
    cases he : e.phase with
    | fire f =>
      have hopposite := htwins.opposite (by rw [he]; rfl)
      obtain ⟨ρ, v, rfl⟩ := htwins.same
      refine (aimPoints_follows e hopposite ρ t).bind ?_ ?_
      · intro p p' hp
        exact Follows.ok ⟨htwins, rfl, .some hp, fun _ => hopposite⟩
      · rintro p hp _ ⟨⟩
        exact ⟨p, rfl, hp⟩
    | lock | track | fail =>
      exact Follows.ok ⟨htwins, rfl, .none, fun h => by cases h⟩

theorem follow_follows (hv : velocity = -c.angularVelocity) :
    Follows (fun d d' => d' = d.turned rotation velocity ∧ velocity = -d.angularVelocity)
      (fun _ => False) (c.follow offer) ((c.turned rotation velocity).follow offer) := by
  intro d hd
  cases offer with
  | none =>
    cases hd
    exact Or.inl ⟨_, rfl, rfl, hv⟩
  | some box =>
    obtain ⟨target, htarget, rfl⟩ := Checked.map_eq_ok.mp hd
    exact Or.inl ⟨_, Checked.map_eq_ok.mpr ⟨target, htarget, rfl⟩, rfl, hv⟩

theorem leaveAfter_turned (c : Controller) :
    (c.turned rotation velocity).leaveAfter deadline now =
      (c.leaveAfter deadline now).turned rotation velocity := by
  unfold leaveAfter
  split <;> rfl

theorem leaveAfter_velocity (c : Controller) :
    (c.leaveAfter deadline now).angularVelocity = c.angularVelocity := by
  unfold leaveAfter
  split <;> rfl

theorem fire_follows (hv : velocity = -c.angularVelocity) (t : Table) :
    Follows (fun x x' => Mirrors (some x.1, none, x.2) (some x'.1, none, x'.2))
      (fun x => Escapes (some x.1)) (c.fire deadline now offer (.ofTable t))
      ((c.turned rotation velocity).fire deadline now offer (.ofTable t)) := by
  unfold fire
  refine (follow_follows hv).sure ?_
  rintro d _ ⟨rfl, hd⟩
  refine (aimPoints_follows d hd rotation t).bind ?_ ?_
  · intro p p' hp
    rw [leaveAfter_turned]
    have hsame : (d.leaveAfter deadline now).angularVelocity = d.angularVelocity :=
      leaveAfter_velocity d
    refine Follows.ok ⟨⟨⟨_, _, rfl⟩, fun _ => ?_⟩, rfl, .some ?_, fun _ => ?_⟩
    · show velocity = _
      rwa [hsame]
    · show Reflected (d.leaveAfter deadline now).angularVelocity p p'
      rwa [hsame]
    · show velocity = _
      rwa [hsame]
  · rintro p hp _ ⟨⟩
    exact ⟨p, rfl, hp⟩

/-- The overlay is drawn in both controllers, and a step ends. -/
theorem end_follows {x x' : Option AimPoints × Option Outcome × Controller}
    {O : Tick × Controller × Option Box → Prop} (h : Mirrors x x') (left : Option Box) :
    Follows (fun r r' => Twins r.2.1 r'.2.1 ∧ r'.2.2 = r.2.2 ∧ Symmetric r.1 r'.1 r.2.1 r'.2.1) O
      (x.2.2.overlay >>= fun o => pure ((⟨o, x.1, x.2.1⟩ : Tick), x.2.2, left))
      (x'.2.2.overlay >>= fun o => pure ((⟨o, x'.1, x'.2.1⟩ : Tick), x'.2.2, left)) := by
  obtain ⟨htwins, houtcome, haim, hvelocity⟩ := h
  obtain ⟨ρ, v, hsame⟩ := htwins.same
  have hoverlay : x'.2.2.overlay =
      x.2.2.overlay.map fun o => { o with angularVelocity := x'.2.2.angularVelocity } := by
    rw [hsame]
    exact overlay_turned ..
  rw [hoverlay]
  refine (Follows.map _ _).sure ?_
  rintro o _ rfl
  exact Follows.ok ⟨htwins, rfl, htwins.phase, rfl, houtcome, haim, hvelocity⟩

/-- The aim that a phase shows is the aim of its step. -/
theorem end_aim {x : Option AimPoints × Option Outcome × Controller} {left : Option Box}
    {r : Tick × Controller × Option Box}
    (h : (x.2.2.overlay >>= fun o => pure ((⟨o, x.1, x.2.1⟩ : Tick), x.2.2, left)) = .ok r) :
    r.1.aim = x.1 := by
  obtain ⟨o, -, h⟩ := Checked.bind_eq_ok.mp h
  rw [← Checked.pure_eq_ok.mp h]

end Controller

open Controller in
theorem Opposed.readings {c c' : Controller} {i i' : Input} (h : Opposed c c' i i')
    (hc : c.Decides i.now) (hc' : c'.Decides i'.now) : i'.readings = i.readings.opposite := by
  have hmean := h.mean hc hc'
  obtain ⟨-, -, -, hdistance, halive, hvariance, -⟩ := h
  obtain ⟨now, offer, ⟨distance, alive, mean, variance⟩, table⟩ := i
  obtain ⟨now', offer', ⟨distance', alive', mean', variance'⟩, table'⟩ := i'
  dsimp only at hmean hdistance halive hvariance ⊢
  subst hmean hdistance halive hvariance
  rfl

namespace Controller

/-- A step of one controller is followed by the step of the other. -/
theorem step_follows {c c' : Controller} {i i' : Input} (h : Twins c c') (hi : Opposed c c' i i') :
    Follows (fun r r' => Twins r.2.1 r'.2.1 ∧ r'.2.2 = r.2.2 ∧ Symmetric r.1 r'.1 r.2.1 r'.2.1)
      (fun r => Escapes r.1.aim) (c.stepOn i) (c'.stepOn i') := by
  have hopposite := h.opposite
  obtain ⟨ρ, v, rfl⟩ := h.same
  have hreadings := hi.readings
  unfold stepOn step
  rw [hi.now, hi.offer, hi.table]
  have hphase' : (c.turned ρ v).phase = c.phase := rfl
  rw [hphase']
  -- Both are in the same phase, and only firing depends on the velocity.
  cases hphase : c.phase with
  | lock recent =>
    have hlock : Follows (fun d d' => Mirrors (none, none, d) (none, none, d')) (fun _ => False)
        (c.lock i.now i.offer) ((c.turned ρ v).lock i.now i.offer) := by
      rw [lock_turned]
      exact Follows.of_eq fun d hd =>
        ⟨_, Checked.map_eq_ok.mpr ⟨d, hd, rfl⟩, Mirrors.still (lock_state hd)⟩
    exact hlock.sure fun d d' hd => end_follows hd none
  | track deadline n =>
    have hr : deadline < i.now → i'.readings = i.readings.opposite := fun hlate =>
      hreadings ⟨deadline, n, hphase, hlate⟩ ⟨deadline, n, hphase, hi.now ▸ hlate⟩
    refine (track_follows hr i.table).bind (fun x x' hx => end_follows hx none) ?_
    intro x hover r hend
    rwa [end_aim hend]
  | fire deadline =>
    have hv : v = -c.angularVelocity := hopposite (by rw [hphase]; rfl)
    refine (fire_follows hv i.table).bind (fun x x' hx => end_follows hx none) ?_
    intro x hover r hend
    rwa [end_aim (x := (some x.1, none, x.2)) hend]
  | fail deadline =>
    have hstate : (c.leaveAfter deadline i.now).phase.state ≠ .fire := by
      unfold leaveAfter
      split
      · simp [Phase.state]
      · simp [hphase, Phase.state]
    have hstill : Mirrors (none, none, c.leaveAfter deadline i.now)
        (none, none, (c.turned ρ v).leaveAfter deadline i.now) := by
      rw [leaveAfter_turned]
      exact Mirrors.still hstate
    exact end_follows hstill i.offer

end Controller

/-! ## Runs on opposite rotations -/

/-- The steps made since the controller was created, latest first, and the controller they lead to,
whatever it is given. No step overflows. -/
inductive Course : List Step → Controller → Prop
  | start : Course [] {}
  | step {past : List Step} {s : Step} : Course past s.before →
      (∃ left, s.before.stepOn s.input = .ok (s.tick, s.after, left)) → Course (s :: past) s.after

/-- The steps of two runs that are given the same up to the direction of the rotation. -/
def Step.Opposed (s s' : Step) : Prop := Aim.Opposed s.before s'.before s.input s'.input

/-- Two steps that show the same up to the direction of the lead. -/
def Step.Symmetric (s s' : Step) : Prop :=
  Controller.Symmetric s.tick s'.tick s.after s'.after

open Controller in
/-- Along two runs on opposite rotations the controllers stay twins and the steps symmetric. -/
theorem Course.twins {past past' : List Step} {c c' : Controller} (run : Course past c)
    (run' : Course past' c') (h : List.Forall₂ Step.Opposed past past') :
    Twins c c' ∧ List.Forall₂ Step.Symmetric past past' := by
  induction run generalizing past' c' with
  | start =>
    cases h
    cases run'
    exact ⟨⟨⟨⟨0, 0⟩, 0, rfl⟩, fun hfire => by cases hfire⟩, .nil⟩
  | step _ hstep ih =>
    obtain ⟨left, hstep⟩ := hstep
    cases h with
    | cons hopposed hpast =>
      cases run' with
      | step run' hstep' =>
        obtain ⟨left', hstep'⟩ := hstep'
        obtain ⟨htwins, hsymmetric⟩ := ih run' hpast
        rcases step_follows htwins hopposed _ hstep with ⟨r, hr, hnext, -, hshown⟩ | ⟨herror, -⟩
        -- Neither run overflows, so the second makes the step that follows the first.
        · rw [hstep'] at hr
          cases hr
          exact ⟨hnext, .cons hshown hsymmetric⟩
        · rw [hstep'] at herror
          cases herror

/-- In two runs that are given the same up to the direction in which the rig turns when tracking
ends, the phases, the reasons, the targets and the heights of the aim are the same at every step, and
unless the velocity is zero the leads are opposite. Where one run makes a step the other does too,
unless its own aim is beyond the width of coordinates. -/
theorem opposite_rotations_mirror_the_lead {past past' : List Step} {c c' : Controller}
    (run : Course past c) (run' : Course past' c')
    (h : List.Forall₂ Step.Opposed past past') :
    List.Forall₂ Step.Symmetric past past' ∧
    ∀ i i' tick next left, Opposed c c' i i' → c.stepOn i = .ok (tick, next, left) →
      (∃ tick' next', c'.stepOn i' = .ok (tick', next', left) ∧
        Controller.Symmetric tick tick' next next') ∨
      (c'.stepOn i' = .error .add ∧ ∃ p, tick.aim = some p ∧ p.Beyond) := by
  obtain ⟨htwins, hsymmetric⟩ := run.twins run' h
  refine ⟨hsymmetric, fun i i' tick next left hopposed hstep => ?_⟩
  rcases Controller.step_follows htwins hopposed _ hstep with
    ⟨⟨tick', next', left'⟩, hstep', -, rfl, hshown⟩ | hover
  · exact Or.inl ⟨tick', next', hstep', hshown⟩
  · exact Or.inr hover

/-- Runs on inputs that are opposite for all controllers. -/
theorem Course.replay {past past' : List Step} {c c' d d' : Controller} {inputs inputs' : List Input}
    (hinputs : List.Forall₂ (fun i i' => ∀ c c', Opposed c c' i i') inputs inputs')
    (run : Course past c) (run' : Course past' c') (h : List.Forall₂ Step.Opposed past past')
    (hd : c.replay inputs = .ok d) (hd' : c'.replay inputs' = .ok d') :
    ∃ past past', Course past d ∧ Course past' d' ∧ List.Forall₂ Step.Opposed past past' := by
  induction hinputs generalizing past past' c c' with
  | nil =>
    cases hd
    cases hd'
    exact ⟨past, past', run, run', h⟩
  | @cons i i' _ _ hopposed _ ih =>
    obtain ⟨⟨tick, next, left⟩, hstep, hrest⟩ := Checked.bind_eq_ok.mp hd
    obtain ⟨⟨tick', next', left'⟩, hstep', hrest'⟩ := Checked.bind_eq_ok.mp hd'
    have hnext : Course (⟨c, i, tick, next⟩ :: past) next :=
      .step (s := ⟨c, i, tick, next⟩) run ⟨left, hstep⟩
    have hnext' : Course (⟨c', i', tick', next'⟩ :: past') next' :=
      .step (s := ⟨c', i', tick', next'⟩) run' ⟨left', hstep'⟩
    exact ih hnext hnext' (.cons (hopposed c c') h) hrest hrest'

/-- A target held in the middle of the frame while the rig turns. -/
def turningTarget (now : Nat) (mean : Float32) : Input :=
  { heldTarget now with
    readings := ⟨20, true, ⟨mean, 0⟩⟩
    table := { lead := .replicate 5 #v[0, 10, 20, 30] } }

theorem opposed_turningTarget (now : Nat) (mean : Float32) (c c' : Controller) :
    Opposed c c' (turningTarget now mean) (turningTarget now (-mean)) :=
  ⟨rfl, rfl, rfl, rfl, rfl, rfl, fun _ _ => rfl⟩

/-- A rig that turns to the right leads by thirty pixels to the right, and one that turns to the left as
fast leads by as many to the left. -/
theorem opposite_rotations_mirror_the_lead_turning :
    ∃ past past' c c', Course past c ∧ Course past' c' ∧ List.Forall₂ Step.Opposed past past' ∧
      Opposed c c' (turningTarget 1501 10) (turningTarget 1501 (-10)) ∧
      ∃ tick next tick' next', c.stepOn (turningTarget 1501 10) = .ok (tick, next, none) ∧
        c'.stepOn (turningTarget 1501 (-10)) = .ok (tick', next', none) ∧
        tick.aim = some ⟨⟨400, 250⟩, ⟨430, 250⟩⟩ ∧ tick'.aim = some ⟨⟨400, 250⟩, ⟨370, 250⟩⟩ := by
  have hreplay : ((Controller.replay {} (List.replicate 41 (turningTarget 0 10))).bind fun c =>
      (c.stepOn (turningTarget 1501 10)).map fun r =>
        (r.1.aim, r.2.1.angularVelocity == 0, r.2.2)) =
          .ok (some ⟨⟨400, 250⟩, ⟨430, 250⟩⟩, false, none) := by decide +kernel
  have hreplay' : (Controller.replay {} (List.replicate 41 (turningTarget 0 (-10)))).map
      (fun _ => ()) = .ok () := by decide +kernel
  obtain ⟨c, hc, hreplay⟩ := Checked.bind_eq_ok.mp hreplay
  obtain ⟨⟨tick, next, left⟩, hstep, hshown⟩ := Checked.map_eq_ok.mp hreplay
  obtain ⟨haim, hmoving, rfl⟩ : tick.aim = some ⟨⟨400, 250⟩, ⟨430, 250⟩⟩ ∧
      (next.angularVelocity == 0) = false ∧ left = none := by simpa using hshown
  obtain ⟨c', hc', -⟩ := Checked.map_eq_ok.mp hreplay'
  have hinputs : ∀ n, List.Forall₂ (fun i i' => ∀ c c', Opposed c c' i i')
      (List.replicate n (turningTarget 0 10)) (List.replicate n (turningTarget 0 (-10))) := by
    intro n
    induction n with
    | zero => exact .nil
    | succ n ih => exact .cons (opposed_turningTarget 0 10) ih
  obtain ⟨past, past', run, run', hpast⟩ := Course.replay (hinputs 41) .start .start .nil hc hc'
  have hopposed := opposed_turningTarget 1501 10 c c'
  obtain ⟨-, hnext⟩ := opposite_rotations_mirror_the_lead run run' hpast
  rcases hnext _ _ _ _ _ hopposed hstep with ⟨tick', next', hstep', hsymmetric⟩ | ⟨-, p, hp, hbeyond⟩
  · refine ⟨past, past', c, c', run, run', hpast, hopposed, tick, next, tick', next', hstep, hstep',
      haim, ?_⟩
    have hrel := hsymmetric.aim
    rw [haim] at hrel
    generalize tick'.aim = aim' at hrel
    cases hrel with
    | @some _ p' hp =>
      obtain ⟨target, x, y⟩ := p'
      obtain ⟨htarget, hheight, -, hlead⟩ := hp
      have hx := hlead hmoving
      dsimp only at htarget hheight hx
      subst htarget hheight
      dsimp only at hx
      rw [show x = 370 by omega]
  · rw [haim] at hp
    cases hp
    exact absurd (by decide) hbeyond

end FireControl.Aim
