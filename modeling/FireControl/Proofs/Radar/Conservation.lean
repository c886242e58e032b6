import FireControl.Exchange.Latest
import FireControl.Radar.Intake
import Mathlib.Algebra.Order.Ring.Nat

/-!
# No cloud lost, doubled or out of turn

Frames come in and distances go out at any moments. `Relay.Effect` says once what can happen: a frame
without a cloud passes, a frame with one is counted and its cloud queued if there is room, clouds are
fed oldest first. The books of a run are then balanced (`Balanced`): what was kept is what was fed
and what waits, in this order, and what was published is what one estimator makes of what was fed.
The log of points has no part in any of this: a run with its log erased is a run (`Ran.unlogged`),
whatever became of the log. `clouds_are_conserved` puts it together.
-/

namespace FireControl.Radar

open FireControl.Exchange (Latest)
open FireControl.Wire (Frame PointCloud)

/-- An intake, the estimator that its clouds are fed to, and the channel of the distances. -/
structure Relay where
  intake : Intake := {}
  estimator : DistanceEstimator := {}
  distances : Latest Float32 := {}

/-- What can happen. -/
inductive Deed where
  | handle (now : Nat) (f : Frame)
  /-- Everything that waits is fed. -/
  | tick
  /-- One cloud is fed, if one waits: frames may come between the clouds of a tick. -/
  | fetch
  /-- The receiving side goes. -/
  | leave
  /-- The log is exchanged, or fails, or its device fills up. -/
  | relog (log : Option PointLog)

inductive Answer where
  | flow (flow : Flow)
  | published (distances : List Float32)
  | done

namespace Relay

def publish (r : Relay) (distances : List Float32) : Relay :=
  { r with distances := distances.foldl .publish r.distances }

def tick (r : Relay) : List Float32 × Relay :=
  let (distances, estimator, intake) := r.intake.tick r.estimator
  (distances, { r with intake, estimator }.publish distances)

def fetch (r : Relay) : List Float32 × Relay :=
  match r.intake.clouds.waiting with
  | [] => ([], r)
  | cloud :: later =>
    let (distance, estimator) := r.estimator.ingest cloud.points
    (distance.toList,
      { r with intake.clouds.waiting := later, estimator }.publish distance.toList)

def perform (r : Relay) : Deed → Checked (Answer × Relay)
  | .handle now f =>
    (r.intake.handle now f).map fun (flow, intake) => (.flow flow, { r with intake })
  | .tick => .ok (.published r.tick.1, r.tick.2)
  | .fetch => .ok (.published r.fetch.1, r.fetch.2)
  | .leave => .ok (.done, { r with intake.clouds := r.intake.clouds.dropReceiver })
  | .relog log => .ok (.done, { r with intake.log := log })

end Relay

/-- One deed with the relays before and after it. -/
structure Act where
  before : Relay
  deed : Deed
  answer : Answer
  after : Relay

/-- What happened so far, latest first, and the relay it led to. -/
inductive Ran (log : Option PointLog) : List Act → Relay → Prop
  | start : Ran log [] { intake.log := log }
  | act {past r answer r'} (deed : Deed) : Ran log past r → r.perform deed = .ok (answer, r') →
      Ran log (⟨r, deed, answer, r'⟩ :: past) r'

/-! ## The books -/

/-- The cloud that a frame carries. -/
def heard (f : Frame) : Option PointCloud := (PointCloud.ofFrame f).toOption.join

/-- There is room for a cloud, and somebody to take it. -/
def Relay.HasRoom (r : Relay) : Prop :=
  r.intake.clouds.hasReceiver = true ∧ r.intake.clouds.waiting.length < queueCapacity

instance (r : Relay) : Decidable r.HasRoom := inferInstanceAs (Decidable (_ ∧ _))

namespace Act

/-- The cloud that came in. -/
def cloud (a : Act) : Option PointCloud :=
  match a.deed with
  | .handle _ f => heard f
  | _ => none

/-- The cloud that came in and was not dropped. -/
def kept (a : Act) : Option Cloud := if a.before.HasRoom then a.cloud.map .ofWire else none

/-- The distances that went out. -/
def published (a : Act) : List Float32 :=
  match a.answer with
  | .published distances => distances
  | _ => []

end Act

/-- The clouds that came in, in order. -/
def clouds (past : List Act) : List PointCloud := past.reverse.filterMap Act.cloud

/-- The number of their detections. -/
def detections (past : List Act) : Nat := ((clouds past).map (·.detections.length)).sum

/-- The clouds that were not dropped, in order. -/
def kept (past : List Act) : List Cloud := past.reverse.filterMap Act.kept

/-- The distances that went out, in order. -/
def published (past : List Act) : List Float32 := past.reverse.flatMap Act.published

section Books
variable {past : List Act} {a : Act}

theorem clouds_cons : clouds (a :: past) = clouds past ++ a.cloud.toList := by
  simp [clouds, List.filterMap_append, List.filterMap_cons]
  cases a.cloud <;> rfl

theorem detections_cons :
    detections (a :: past) = detections past + (a.cloud.map (·.detections.length)).getD 0 := by
  unfold detections
  rw [clouds_cons]
  cases a.cloud <;> simp

theorem kept_cons : kept (a :: past) = kept past ++ a.kept.toList := by
  simp [kept, List.filterMap_append, List.filterMap_cons]
  cases a.kept <;> rfl

theorem published_cons : published (a :: past) = published past ++ a.published := by
  simp [published]

theorem books_of_none (h : a.cloud = none) : clouds (a :: past) = clouds past ∧
    detections (a :: past) = detections past ∧ kept (a :: past) = kept past := by
  have hkept : a.kept = none := by simp [Act.kept, h]
  simp [clouds_cons, detections_cons, kept_cons, h, hkept]

end Books

/-! ## What a deed does -/

theorem heard_eq_some {f : Frame} {c : PointCloud} :
    heard f = some c ↔ PointCloud.ofFrame f = .ok (some c) := by
  unfold heard
  cases PointCloud.ofFrame f with
  | error e => simp [Except.toOption]
  | ok c => simp [Except.toOption]

theorem length_of_ofRecords {points : Bytes} {later : List (Except Wire.FrameError Wire.Record)}
    {detections : List Wire.Detection} (h : PointCloud.ofRecords points later = .ok detections) :
    detections.length ≤ PointCloud.capacity := by
  unfold PointCloud.ofRecords at h
  simp only [bind, Except.bind] at h
  split at h
  · cases h
  · split at h
    · cases h
    · cases h
    · split at h
      · cases h
      · split at h
        · cases h
        · split at h
          · cases h
          · cases h; exact List.length_take_le _ _

theorem length_of_heard {f : Frame} {c : PointCloud} (h : heard f = some c) :
    c.detections.length ≤ PointCloud.capacity := by
  have hframe := heard_eq_some.mp h
  unfold PointCloud.ofFrame at hframe
  split at hframe
  · cases hframe
  · cases hframe
  · split at hframe
    · cases hframe
    · rename_i first later _ _
      cases hrecords : PointCloud.ofRecords first.payload later with
      | error e => rw [hrecords] at hframe; cases hframe
      | ok detections =>
        rw [hrecords] at hframe
        cases hframe
        exact length_of_ofRecords hrecords

/-- The totals keep their width with another frame. -/
def Health.HasWidth (h : Health) (points : Nat) : Prop :=
  h.totalFrames + 1 < 2 ^ 64 ∧ h.totalPoints + points < 2 ^ 64

instance (h : Health) (points : Nat) : Decidable (h.HasWidth points) :=
  inferInstanceAs (Decidable (_ ∧ _))

theorem Health.record_eq (h : Health) (now points : Nat) :
    h.record now points =
      if h.HasWidth points then
        .ok { arrivals := h.arrivals.push (some now)
              totalFrames := h.totalFrames + 1
              totalPoints := h.totalPoints + points }
      else .error .add := by
  have hnat64 : ∀ n, Checked.nat64 .add n = if n < 2 ^ 64 then .ok n else .error .add :=
    fun _ => rfl
  unfold record
  rw [hnat64, hnat64]
  by_cases hframes : h.totalFrames + 1 < 2 ^ 64
  · by_cases hpoints : h.totalPoints + points < 2 ^ 64
    · have hwidth : h.HasWidth points := ⟨hframes, hpoints⟩
      rw [if_pos hframes, if_pos hpoints, if_pos hwidth]
      rfl
    · have hwide : ¬ h.HasWidth points := fun hwidth => hpoints hwidth.2
      rw [if_pos hframes, if_neg hpoints, if_neg hwide]
      rfl
  · have hwide : ¬ h.HasWidth points := fun hwidth => hframes hwidth.1
    rw [if_neg hframes, if_neg hwide]
    rfl

theorem DistanceEstimator.ingestAll_append (e : DistanceEstimator) (front back : List Cloud) :
    e.ingestAll (front ++ back) =
      ((e.ingestAll front).1 ++ ((e.ingestAll front).2.ingestAll back).1,
        ((e.ingestAll front).2.ingestAll back).2) := by
  induction front generalizing e with
  | nil => rfl
  | cons c front ih => simp only [List.cons_append, ingestAll, ih, List.append_assoc]

namespace Relay

/-- Feeds clouds and leaves the later ones waiting. -/
def feed (r : Relay) (clouds later : List Cloud) : Relay :=
  { r with
    intake.clouds.waiting := later
    estimator := (r.estimator.ingestAll clouds).2 }.publish (r.estimator.ingestAll clouds).1

theorem fetch_eq (r : Relay) : ∃ clouds later, r.intake.clouds.waiting = clouds ++ later ∧
    r.fetch = ((r.estimator.ingestAll clouds).1, r.feed clouds later) := by
  unfold fetch
  split
  · rename_i hwaiting
    refine ⟨[], [], hwaiting, ?_⟩
    obtain ⟨⟨health, ⟨capacity, waiting⟩, log⟩, estimator, distances⟩ := r
    obtain rfl : waiting = [] := hwaiting
    rfl
  · rename_i cloud later hwaiting
    refine ⟨[cloud], later, hwaiting, ?_⟩
    simp [feed, DistanceEstimator.ingestAll]

/-- What a deed does to a relay. -/
inductive Effect (r : Relay) : Deed → Answer → Relay → Prop
  | passed {now f} : heard f = none → Effect r (.handle now f) (.flow .goOn) r
  | counted {now f c health log} : heard f = some c →
      health.totalFrames = r.intake.health.totalFrames + 1 →
      health.totalPoints = r.intake.health.totalPoints + c.detections.length →
      Effect r (.handle now f) (.flow (if r.intake.clouds.hasReceiver then .goOn else .stop))
        { r with intake := ⟨health, (r.intake.clouds.send (.ofWire c)).2, log⟩ }
  | ticked : Effect r .tick (.published (r.estimator.ingestAll r.intake.clouds.waiting).1)
      (r.feed r.intake.clouds.waiting [])
  | fetched {clouds later} : r.intake.clouds.waiting = clouds ++ later →
      Effect r .fetch (.published (r.estimator.ingestAll clouds).1) (r.feed clouds later)
  | left : Effect r .leave .done { r with intake.clouds := r.intake.clouds.dropReceiver }
  | relogged {log} : Effect r (.relog log) .done { r with intake.log := log }

variable {r r' : Relay} {deed : Deed} {answer : Answer} {now : Nat} {f : Frame} {c : PointCloud}

theorem perform_of_none (h : heard f = none) :
    r.perform (.handle now f) = .ok (.flow .goOn, r) := by
  have hframe : r.intake.handle now f = .ok (.goOn, r.intake) := by
    unfold heard at h
    unfold Intake.handle
    cases hcloud : PointCloud.ofFrame f with
    | error e => rfl
    | ok c =>
      rw [hcloud] at h
      cases c with
      | none => rfl
      | some c => cases h
  rw [perform, hframe]
  rfl

theorem perform_of_some (h : heard f = some c)
    (hwidth : r.intake.health.HasWidth c.detections.length) :
    ∃ health, health.totalFrames = r.intake.health.totalFrames + 1 ∧
      health.totalPoints = r.intake.health.totalPoints + c.detections.length ∧
      r.perform (.handle now f) =
        .ok (.flow (if r.intake.clouds.hasReceiver then .goOn else .stop),
          { r with
            intake := ⟨health, (r.intake.clouds.send (.ofWire c)).2,
              r.intake.log.bind (·.write now (.ofWire c))⟩ }) := by
  have hflow : (if (r.intake.clouds.send (.ofWire c)).1 = .closed then Flow.stop else .goOn) =
      if r.intake.clouds.hasReceiver then .goOn else .stop := by
    cases hreceiver : r.intake.clouds.hasReceiver with
    | false => simp [Exchange.Queue.send_eq_closed, hreceiver]
    | true => simp [Exchange.Queue.send_eq_closed, hreceiver]
  rw [← hflow, perform, Intake.handle, heard_eq_some.mp h]
  simp only [Intake.accept, Health.record_eq, if_pos hwidth]
  exact ⟨_, rfl, rfl, rfl⟩

/-- A total that would leave its width ends the run. -/
theorem perform_of_wide (h : heard f = some c)
    (hwidth : ¬ r.intake.health.HasWidth c.detections.length) :
    r.perform (.handle now f) = .error .add := by
  rw [perform, Intake.handle, heard_eq_some.mp h]
  simp only [Intake.accept, Health.record_eq, if_neg hwidth]
  rfl

theorem effect_of_perform (h : r.perform deed = .ok (answer, r')) : r.Effect deed answer r' := by
  cases deed with
  | handle now f =>
    cases hheard : heard f with
    | none =>
      rw [perform_of_none hheard] at h
      cases h
      exact .passed hheard
    | some c =>
      by_cases hwidth : r.intake.health.HasWidth c.detections.length
      · obtain ⟨health, hframes, hpoints, hperform⟩ := perform_of_some hheard hwidth
        rw [hperform] at h
        cases h
        exact .counted hheard hframes hpoints
      · rw [perform_of_wide hheard hwidth] at h
        cases h
  | tick =>
    cases h
    exact .ticked
  | fetch =>
    obtain ⟨clouds, later, hwaiting, hfetch⟩ := r.fetch_eq
    rw [perform, hfetch] at h
    cases h
    exact .fetched hwaiting
  | leave =>
    cases h
    exact .left
  | relog log =>
    cases h
    exact .relogged

theorem newest_publish (r : Relay) (distances : List Float32) :
    (r.publish distances).distances.newest = distances.getLast?.or r.distances.newest := by
  induction distances generalizing r with
  | nil => rfl
  | cons d distances ih =>
    have hstep : (r.publish (d :: distances)).distances.newest =
        distances.getLast?.or (some d) := ih (r.publish [d])
    rw [hstep, List.getLast?_cons]
    cases distances.getLast? <;> rfl

theorem published_publish (r : Relay) (distances : List Float32) :
    (r.publish distances).distances.published = r.distances.published + distances.length := by
  induction distances generalizing r with
  | nil => rfl
  | cons d distances ih =>
    calc ((r.publish [d]).publish distances).distances.published
        = r.distances.published + 1 + distances.length := ih (r.publish [d])
      _ = r.distances.published + (d :: distances).length := by rw [List.length_cons]; omega

end Relay

/-! ## The balance -/

section Balance
variable {log : Option PointLog} {past : List Act} {r r' : Relay} {deed : Deed} {answer : Answer}

/-- The clouds that were fed: their results went out, the estimator has seen them, and as long as
somebody receives the others wait. -/
structure Fed (past : List Act) (r : Relay) (fed : List Cloud) : Prop where
  results : published past = (({} : DistanceEstimator).ingestAll fed).1
  seen : r.estimator = (({} : DistanceEstimator).ingestAll fed).2
  order : r.intake.clouds.hasReceiver = true → kept past = fed ++ r.intake.clouds.waiting

/-- The invariant of runs. -/
structure Balanced (past : List Act) (r : Relay) : Prop where
  frames : r.intake.health.totalFrames = (clouds past).length
  points : r.intake.health.totalPoints = detections past
  clipped : ∀ c ∈ clouds past, c.detections.length ≤ PointCloud.capacity
  capacity : r.intake.clouds.capacity = queueCapacity
  room : r.intake.clouds.waiting.length ≤ queueCapacity
  fed : ∃ fed, Fed past r fed
  newest : r.distances.newest = (published past).getLast?
  publications : r.distances.published = (published past).length

/-- An act that brings no cloud and publishes nothing leaves the books as they are. -/
theorem Balanced.quiet {a : Act} (h : Balanced past r) (hcloud : a.cloud = none)
    (hpublished : a.published = []) (hhealth : r'.intake.health = r.intake.health)
    (hclouds : r'.intake.clouds = r.intake.clouds ∨
      r'.intake.clouds = r.intake.clouds.dropReceiver)
    (hestimator : r'.estimator = r.estimator) (hdistances : r'.distances = r.distances) :
    Balanced (a :: past) r' := by
  obtain ⟨hcloud, hdetections, hkept⟩ := @books_of_none past _ hcloud
  have hpublished : published (a :: past) = published past := by
    rw [published_cons, hpublished, List.append_nil]
  obtain ⟨fed, hfed⟩ := h.fed
  refine ⟨?_, ?_, ?_, ?_, ?_, ⟨fed, ?_, ?_, ?_⟩, ?_, ?_⟩
  · rw [hhealth, hcloud, h.frames]
  · rw [hhealth, hdetections, h.points]
  · rw [hcloud]
    exact h.clipped
  · rcases hclouds with hclouds | hclouds
    · rw [hclouds, h.capacity]
    · rw [hclouds]
      exact h.capacity
  · rcases hclouds with hclouds | hclouds
    · rw [hclouds]
      exact h.room
    · rw [hclouds]
      exact Nat.zero_le _
  · rw [hpublished, hfed.results]
  · rw [hestimator, hfed.seen]
  · intro hreceiver
    rcases hclouds with hclouds | hclouds
    · rw [hclouds] at hreceiver ⊢
      rw [hkept]
      exact hfed.order hreceiver
    · rw [hclouds] at hreceiver
      cases hreceiver
  · rw [hdistances, hpublished, h.newest]
  · rw [hdistances, hpublished, h.publications]

/-- Feeding takes the oldest clouds and publishes what they give. -/
theorem Balanced.feed {clouds later : List Cloud} (h : Balanced past r)
    (hwaiting : r.intake.clouds.waiting = clouds ++ later) (hdeed : deed = .tick ∨ deed = .fetch) :
    Balanced (⟨r, deed, .published (r.estimator.ingestAll clouds).1, r.feed clouds later⟩ :: past)
      (r.feed clouds later) := by
  generalize hdistances : (r.estimator.ingestAll clouds).1 = distances
  generalize ha : (⟨r, deed, .published distances, r.feed clouds later⟩ : Act) = a
  have hcloud : a.cloud = none := by
    rcases hdeed with rfl | rfl <;> simp [← ha, Act.cloud]
  have hpublished : published (a :: past) = published past ++ distances := by
    rw [published_cons, ← ha]
    rfl
  obtain ⟨hclouds, hdetections, hkept⟩ := @books_of_none past _ hcloud
  obtain ⟨fed, hfed⟩ := h.fed
  have hfeed : (({} : DistanceEstimator).ingestAll (fed ++ clouds)) =
      (published past ++ distances, (r.feed clouds later).estimator) := by
    rw [DistanceEstimator.ingestAll_append, ← hfed.seen, ← hfed.results, hdistances]
    rfl
  refine ⟨?_, ?_, ?_, h.capacity, ?_, ⟨fed ++ clouds, ?_, ?_, ?_⟩, ?_, ?_⟩
  · rw [hclouds]
    exact h.frames
  · rw [hdetections]
    exact h.points
  · rw [hclouds]
    exact h.clipped
  · have hroom := h.room
    rw [hwaiting, List.length_append] at hroom
    exact Nat.le_trans (Nat.le_add_left ..) hroom
  · rw [hpublished, hfeed]
  · rw [hfeed]
  · intro hreceiver
    rw [hkept, hfed.order hreceiver, hwaiting, List.append_assoc]
    rfl
  · rw [hpublished, Relay.feed, Relay.newest_publish, hdistances, h.newest, List.getLast?_append]
  · rw [hpublished, Relay.feed, Relay.published_publish, hdistances, h.publications]
    exact List.length_append.symm

/-- The cloud of a frame is kept at the end of the queue if there is room. -/
theorem waiting_send_cloud (hcapacity : r.intake.clouds.capacity = queueCapacity)
    (cloud : Cloud) :
    (r.intake.clouds.send cloud).2.waiting =
      r.intake.clouds.waiting ++ (if r.HasRoom then some cloud else none).toList := by
  have htaken : (r.intake.clouds.send cloud).1 = .taken ↔ r.HasRoom := by
    rw [Exchange.Queue.send_eq_taken, hcapacity, Relay.HasRoom]
  rw [Exchange.Queue.waiting_send]
  by_cases hroom : r.HasRoom
  · rw [if_pos (htaken.mpr hroom), if_pos hroom]
    rfl
  · rw [if_neg (mt htaken.mp hroom), if_neg hroom]
    exact (List.append_nil _).symm

theorem Balanced.counted {now : Nat} {f : Frame} {c : PointCloud} {health : Health} {flow : Flow}
    (h : Balanced past r) (hheard : heard f = some c)
    (hframes : health.totalFrames = r.intake.health.totalFrames + 1)
    (hpoints : health.totalPoints = r.intake.health.totalPoints + c.detections.length)
    (hr' : r' = { r with intake := ⟨health, (r.intake.clouds.send (.ofWire c)).2, log⟩ }) :
    Balanced (⟨r, .handle now f, .flow flow, r'⟩ :: past) r' := by
  generalize ha : (⟨r, .handle now f, .flow flow, r'⟩ : Act) = a
  have hcloud : a.cloud = some c := by rw [← ha]; exact hheard
  have hkept : a.kept = if r.HasRoom then some (.ofWire c) else none := by
    rw [Act.kept, hcloud, ← ha]
    rfl
  have hpublished : published (a :: past) = published past := by
    rw [published_cons, ← ha]
    exact List.append_nil _
  have hclouds : clouds (a :: past) = clouds past ++ [c] := by rw [clouds_cons, hcloud]; rfl
  have hwaiting := waiting_send_cloud h.capacity (.ofWire c)
  rw [← hkept] at hwaiting
  obtain ⟨fed, hfed⟩ := h.fed
  subst hr'
  refine ⟨?_, ?_, ?_, ?_, ?_, ⟨fed, ?_, hfed.seen, ?_⟩, ?_, ?_⟩
  · rw [hclouds, List.length_append, ← h.frames]
    exact hframes
  · rw [detections_cons, hcloud, ← h.points]
    exact hpoints
  · intro d hd
    rw [hclouds] at hd
    rcases List.mem_append.mp hd with hd | hd
    · exact h.clipped d hd
    · obtain rfl := List.mem_singleton.mp hd
      exact length_of_heard hheard
  · rw [Exchange.Queue.capacity_send]
    exact h.capacity
  · have hroom := h.room
    change (r.intake.clouds.send (.ofWire c)).2.waiting.length ≤ _
    rw [hwaiting, hkept, List.length_append]
    split
    · rename_i hspace
      exact hspace.2
    · exact hroom
  · rw [hpublished]
    exact hfed.results
  · intro hreceiver
    rw [Exchange.Queue.hasReceiver_send] at hreceiver
    rw [kept_cons, hfed.order hreceiver, List.append_assoc, ← hwaiting]
  · rw [hpublished]
    exact h.newest
  · rw [hpublished]
    exact h.publications

theorem Balanced.act (h : Balanced past r) (heffect : r.Effect deed answer r') :
    Balanced (⟨r, deed, answer, r'⟩ :: past) r' := by
  cases heffect with
  | passed hheard => exact h.quiet hheard rfl rfl (.inl rfl) rfl rfl
  | counted hheard hframes hpoints => exact h.counted hheard hframes hpoints rfl
  | ticked => exact h.feed (List.append_nil _).symm (.inl rfl)
  | fetched hwaiting => exact h.feed hwaiting (.inr rfl)
  | left => exact h.quiet rfl rfl rfl (.inr rfl) rfl rfl
  | relogged => exact h.quiet rfl rfl rfl (.inl rfl) rfl rfl

/-- With somebody to receive, eight that wait are the only reason to drop a cloud. -/
theorem Balanced.waiting_send (h : Balanced past r) (hreceiver : r.intake.clouds.hasReceiver = true)
    (cloud : Cloud) :
    (r.intake.clouds.send cloud).2.waiting =
      if r.intake.clouds.waiting.length = queueCapacity then r.intake.clouds.waiting
      else r.intake.clouds.waiting ++ [cloud] := by
  rw [waiting_send_cloud h.capacity]
  by_cases hfull : r.intake.clouds.waiting.length = queueCapacity
  · have hroom : ¬ r.HasRoom := fun hroom => Nat.ne_of_lt hroom.2 hfull
    rw [if_pos hfull, if_neg hroom]
    exact List.append_nil _
  · rw [if_neg hfull, if_pos ⟨hreceiver, Nat.lt_of_le_of_ne h.room hfull⟩]
    rfl

theorem balanced (h : Ran log past r) : Balanced past r := by
  induction h with
  | start => exact ⟨rfl, rfl, nofun, rfl, Nat.zero_le _, ⟨[], rfl, rfl, fun _ => rfl⟩, rfl, rfl⟩
  | act deed _ hperform ih => exact ih.act (Relay.effect_of_perform hperform)

end Balance

/-! ## The log -/

def Relay.unlogged (r : Relay) : Relay := { r with intake.log := none }

def Deed.unlogged : Deed → Deed
  | .relog _ => .relog none
  | deed => deed

def Act.unlogged (a : Act) : Act := ⟨a.before.unlogged, a.deed.unlogged, a.answer, a.after.unlogged⟩

section Log
variable {log : Option PointLog} {past : List Act} {r : Relay}

/-- Without a log the same deed has the same answer and leads to the same relay, but for the log. -/
theorem Relay.perform_unlogged (r : Relay) (deed : Deed) :
    r.unlogged.perform deed.unlogged =
      (r.perform deed).map fun (answer, r') => (answer, r'.unlogged) := by
  cases deed with
  | tick | leave | relog => rfl
  | fetch =>
    obtain ⟨⟨health, ⟨capacity, waiting⟩, log⟩, estimator, distances⟩ := r
    cases waiting <;> rfl
  | handle now f =>
    simp only [perform, Deed.unlogged, Intake.handle, unlogged]
    cases PointCloud.ofFrame f with
    | error e => rfl
    | ok c =>
      cases c with
      | none => rfl
      | some c =>
        simp only [Intake.accept]
        cases r.intake.health.record now c.detections.length <;> rfl

theorem Ran.unlogged (h : Ran log past r) : Ran none (past.map Act.unlogged) r.unlogged := by
  induction h with
  | start => exact .start
  | @act past r answer r' deed _ hperform ih =>
    apply ih.act deed.unlogged
    rw [Relay.perform_unlogged, hperform]
    rfl

/-- Whatever happened to an intake, its clouds, the estimator and the log:

- frames with a cloud count, with their clipped detections, and no others; the points of a cloud are
  its detections at their positions, in order;
- another frame without a cloud changes nothing, and one with a cloud is an error only if a total
  would leave its width; otherwise it stops the link exactly if nobody receives, and its cloud is
  dropped exactly if eight wait;
- what was kept is what was fed and then what waits, and what was published is what one estimator
  makes of the former; after a tick that is everything kept;
- without a log, all of it is the same. -/
theorem clouds_are_conserved (h : Ran log past r) :
    (r.intake.health.totalFrames = (clouds past).length ∧
      r.intake.health.totalPoints = detections past ∧
      ∀ c ∈ clouds past, c.detections.length ≤ PointCloud.capacity) ∧
    (∀ c, (Cloud.ofWire c).frameNumber = c.frameNumber ∧ (Cloud.ofWire c).cycles = c.cycles ∧
      (Cloud.ofWire c).points.length = c.detections.length ∧
      ∀ (k : Nat) d, c.detections[k]? = some d →
        (Cloud.ofWire c).points[k]? = some (.ofDetection d)) ∧
    (∀ now f, heard f = none → r.perform (.handle now f) = .ok (.flow .goOn, r)) ∧
    (∀ now f c, heard f = some c →
      if (clouds past).length + 1 < 2 ^ 64 ∧ detections past + c.detections.length < 2 ^ 64 then
        ∃ r', r.perform (.handle now f) =
            .ok (.flow (if r.intake.clouds.hasReceiver then .goOn else .stop), r') ∧
          (r.intake.clouds.hasReceiver = true → r'.intake.clouds.waiting =
            if r.intake.clouds.waiting.length = queueCapacity then r.intake.clouds.waiting
            else r.intake.clouds.waiting ++ [.ofWire c])
      else r.perform (.handle now f) = .error .add) ∧
    (r.intake.clouds.hasReceiver = true →
      (∃ fed, kept past = fed ++ r.intake.clouds.waiting ∧
        published past = (({} : DistanceEstimator).ingestAll fed).1) ∧
      ∃ distances r', r.perform .tick = .ok (.published distances, r') ∧
        r'.intake.clouds.waiting = [] ∧
        published past ++ distances = (({} : DistanceEstimator).ingestAll (kept past)).1) ∧
    (r.distances.newest = (published past).getLast? ∧
      r.distances.published = (published past).length) ∧
    Ran none (past.map Act.unlogged) r.unlogged ∧
    ∀ deed, r.unlogged.perform deed.unlogged =
      (r.perform deed).map fun (answer, r') => (answer, r'.unlogged) := by
  have hbalanced := balanced h
  refine ⟨⟨hbalanced.frames, hbalanced.points, hbalanced.clipped⟩, ?_, ?_, ?_, ?_, ?_, h.unlogged,
    r.perform_unlogged⟩
  · exact fun c => ⟨rfl, rfl, Cloud.length_ofWire c, fun _ _ => Cloud.getElem?_ofWire⟩
  · intro now f
    exact Relay.perform_of_none
  · intro now f c hheard
    rw [← hbalanced.frames, ← hbalanced.points]
    split
    · rename_i hwidth
      obtain ⟨health, -, -, hperform⟩ := Relay.perform_of_some hheard hwidth
      exact ⟨_, hperform, fun hreceiver => hbalanced.waiting_send hreceiver (.ofWire c)⟩
    · rename_i hwidth
      exact Relay.perform_of_wide hheard hwidth
  · intro hreceiver
    obtain ⟨fed, hfed⟩ := hbalanced.fed
    have hkept := hfed.order hreceiver
    refine ⟨⟨fed, hkept, hfed.results⟩, _, _, rfl, rfl, ?_⟩
    rw [hkept, DistanceEstimator.ingestAll_append, ← hfed.results, ← hfed.seen]
    rfl
  · exact ⟨hbalanced.newest, hbalanced.publications⟩

/-- A queue that takes one thing more if there is room. -/
theorem replicate_min_succ {α : Type} (x : α) (n capacity : Nat) :
    List.replicate (min n capacity) x ++ (if n < capacity then some x else none).toList =
      List.replicate (min (n + 1) capacity) x := by
  by_cases hn : n < capacity
  · rw [if_pos hn, Nat.min_eq_left (Nat.le_of_lt hn), Nat.min_eq_left hn, List.replicate_succ']
    rfl
  · rw [if_neg hn, Nat.min_eq_right (by omega), Nat.min_eq_right (by omega)]
    exact List.append_nil _

/-- A frame comes in again and again before the first tick, and a log takes none of its points. -/
theorem ran_frames {f : Frame} {c : PointCloud} (hf : heard f = some c)
    (hlog : ∀ l ∈ log, l.write 0 (.ofWire c) = none) (n : Nat) (hframes : n < 2 ^ 64)
    (hpoints : n * c.detections.length < 2 ^ 64) :
    ∃ past r, Ran log past r ∧ clouds past = List.replicate n c ∧
      kept past = List.replicate (min n queueCapacity) (.ofWire c) ∧ published past = [] ∧
      r.intake.clouds.waiting = kept past ∧ r.intake.clouds.hasReceiver = true ∧
      r.intake.log = if n = 0 then log else none := by
  induction n with
  | zero => exact ⟨[], _, .start, rfl, rfl, rfl, rfl, rfl, rfl⟩
  | succ n ih =>
    rw [Nat.succ_mul] at hpoints
    obtain ⟨past, r, hran, hclouds, hkept, hpublished, hwaiting, hreceiver, hunlogged⟩ :=
      ih (by omega) (by omega)
    have hbalanced := balanced hran
    have hdetections : detections past = n * c.detections.length := by
      simp [detections, hclouds]
    have hwidth : r.intake.health.HasWidth c.detections.length := by
      refine ⟨?_, ?_⟩
      · rw [hbalanced.frames, hclouds, List.length_replicate]
        exact hframes
      · rw [hbalanced.points, hdetections]
        exact hpoints
    obtain ⟨health, -, -, hperform⟩ := @Relay.perform_of_some r 0 f c hf hwidth
    have hroom : r.HasRoom ↔ n < queueCapacity := by
      rw [Relay.HasRoom, hwaiting, hkept, List.length_replicate]
      simp only [hreceiver, true_and]
      omega
    have hwaiting' := waiting_send_cloud hbalanced.capacity (.ofWire c)
    refine ⟨_, _, hran.act (.handle 0 f) hperform, ?_, ?_, ?_, ?_, ?_, ?_⟩
    · simp [clouds_cons, Act.cloud, hf, hclouds, List.replicate_succ']
    · simpa [kept_cons, Act.kept, Act.cloud, hf, hkept, hroom] using replicate_min_succ ..
    · simp [published_cons, Act.published, hpublished]
    · rw [hwaiting', hwaiting, kept_cons]
      simp [Act.kept, Act.cloud, hf]
    · simp [hreceiver]
    · rw [if_neg (Nat.succ_ne_zero n)]
      cases hold : r.intake.log with
      | none => rfl
      | some l =>
        refine hlog l ?_
        rw [hold] at hunlogged
        split at hunlogged
        · exact hunlogged.symm
        · cases hunlogged

/-- Nine frames come before the first tick, the ninth in vain, and a log takes none of their points;
after the tick nobody receives any more. -/
theorem clouds_are_conserved_stopped :
    ∃ past r f, Ran (some { room := some 0 }) past r ∧ r.intake.log = none ∧
      r.intake.health.totalFrames = 9 ∧ r.intake.health.totalPoints = 9 ∧
      (kept past).length = 8 ∧ published past = [1.6, 3.2, 4.8, 6.4, 8, 8, 8, 8] ∧
      r.distances.newest = some 8 ∧ Ran none (past.map Act.unlogged) r.unlogged ∧
      ∃ r', r.perform (.handle 7 f) = .ok (.flow .stop, r') := by
  let c : PointCloud := ⟨1, 2, [⟨0x41000000, 0, 0, 0, 0, 0⟩]⟩
  obtain ⟨f, hf⟩ : ∃ f : Frame, heard f = some c := by
    let records := PointCloud.encode [⟨0x41000000, 0, 0, 0, 0, 0⟩]
    refine ⟨⟨⟨0, 0, 0, 1, 2, 0, 2, 0⟩, records.flatMap Wire.Record.encode⟩, heard_eq_some.mpr ?_⟩
    cbv
  obtain ⟨past, r, hran, hclouds, hkept, hpublished, -, hreceiver, hlog⟩ :=
    @ran_frames (some { room := some 0 }) f c hf (by rintro l ⟨⟩; rfl) 9 (by decide) (by decide)
  have hfed : (({} : DistanceEstimator).ingestAll (List.replicate 8 (.ofWire c))).1 =
      [1.6, 3.2, 4.8, 6.4, 8, 8, 8, 8] := by decide +kernel
  obtain ⟨-, -, -, -, hticks, -, -⟩ := clouds_are_conserved hran
  obtain ⟨-, distances, r', htick, -, hdistances⟩ := hticks hreceiver
  have hlog' : r'.intake.log = none := by
    cases htick
    exact hlog
  rw [hpublished, hkept, List.nil_append] at hdistances
  obtain rfl : distances = [1.6, 3.2, 4.8, 6.4, 8, 8, 8, 8] := hdistances.trans hfed
  have hran' := (hran.act .tick htick).act .leave rfl
  obtain ⟨⟨hframes, hpoints, -⟩, -, -, hhandle, -, ⟨hnewest, -⟩, hunlogged, -⟩ :=
    clouds_are_conserved hran'
  have hnext := hhandle 7 f c hf
  simp only [detections, clouds_cons, Act.cloud, hclouds] at hframes hpoints hnext
  simp only [published_cons, hpublished] at hnewest
  rw [if_pos (by decide)] at hnext
  obtain ⟨r'', hperform, -⟩ := hnext
  refine ⟨_, _, f, hran', hlog', hframes, hpoints, ?_, ?_, hnewest, hunlogged, r'', hperform⟩
  · simp [kept_cons, Act.kept, Act.cloud, hkept, queueCapacity]
  · simp [published_cons, Act.published, hpublished]

end Log

end FireControl.Radar
