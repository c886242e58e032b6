import FireControl.Proofs.Radar.Conservation
import FireControl.Proofs.RingHistory

/-!
# The radar's health and the whole history

Frames are noted and the health is asked for in any order (`serve`). A question changes nothing and a
frame enters the ring and the totals, so that after every sequence of requests the ring is the front
of the history of arrivals and the totals are those of the history (`Knows`). Sixty arrival times
are more than the six that a radar needs to be alive: `health_agrees_with_history` says that no answer
would be another one with all arrivals at hand.
-/

namespace FireControl.Radar

/-- What is asked of the radar's health. -/
inductive HealthRequest where
  /-- A frame with a number of detections arrives. -/
  | frame (now points : Nat)
  /-- Is the radar alive? -/
  | ask (now : Nat)
  deriving DecidableEq, Repr

namespace HealthRequest

/-- The arrival time and the detections of a frame. -/
def arrival : HealthRequest → Option (Nat × Nat)
  | .frame now points => some (now, points)
  | .ask _ => none

end HealthRequest

/-- The times of all frames, in the order of their arrival. -/
def arrivalTimes (requests : List HealthRequest) : List Nat :=
  (requests.filterMap HealthRequest.arrival).map Prod.fst

/-- The detections of all frames. -/
def arrivalPoints (requests : List HealthRequest) : List Nat :=
  (requests.filterMap HealthRequest.arrival).map Prod.snd

/-- More than five of all frames arrived in the three and a half seconds up to `now`, and these
seconds have passed since the start. -/
def Lively (times : List Nat) (now : Nat) : Prop :=
  3500 ≤ now ∧ 5 < times.countP (now - 3500 ≤ ·)

instance (times : List Nat) (now : Nat) : Decidable (Lively times now) :=
  inferInstanceAs (Decidable (_ ∧ _))

/-- The answer that the whole history gives to a request. -/
def answerFrom (past : List HealthRequest) : HealthRequest → Option Bool
  | .frame _ _ => none
  | .ask now => some (decide (Lively (arrivalTimes past) now))

/-- The answers that the whole history gives to requests in a row. -/
def answersFrom (past : List HealthRequest) : List HealthRequest → List (Option Bool)
  | [] => []
  | r :: rest => answerFrom past r :: answersFrom (past ++ [r]) rest

section History
variable {past rest : List HealthRequest} {now points : Nat}

theorem arrivalTimes_append :
    arrivalTimes (past ++ rest) = arrivalTimes past ++ arrivalTimes rest := by
  simp [arrivalTimes]

theorem arrivalPoints_append :
    arrivalPoints (past ++ rest) = arrivalPoints past ++ arrivalPoints rest := by
  simp [arrivalPoints]

@[simp] theorem arrivalTimes_frame :
    arrivalTimes (past ++ [.frame now points]) = arrivalTimes past ++ [now] := arrivalTimes_append

@[simp] theorem arrivalPoints_frame :
    arrivalPoints (past ++ [.frame now points]) = arrivalPoints past ++ [points] :=
  arrivalPoints_append

@[simp] theorem arrivalTimes_ask : arrivalTimes (past ++ [.ask now]) = arrivalTimes past := by
  rw [arrivalTimes_append]
  exact List.append_nil _

@[simp] theorem arrivalPoints_ask : arrivalPoints (past ++ [.ask now]) = arrivalPoints past := by
  rw [arrivalPoints_append]
  exact List.append_nil _

/-- The frames arrive in order, and their number and the sum of their detections fit 64 bits. -/
structure Orderly (past : List HealthRequest) : Prop where
  sorted : (arrivalTimes past).Pairwise (· ≤ ·)
  frames : (arrivalTimes past).length < 2 ^ 64
  points : (arrivalPoints past).sum < 2 ^ 64

theorem Orderly.front (h : Orderly (past ++ rest)) : Orderly past := by
  obtain ⟨hsorted, hframes, hpoints⟩ := h
  rw [arrivalTimes_append] at hsorted
  rw [arrivalTimes_append, List.length_append] at hframes
  rw [arrivalPoints_append, List.sum_append] at hpoints
  exact ⟨(List.pairwise_append.mp hsorted).1, by omega, by omega⟩

end History

namespace Health

/-- The answer to a request, if it asks for one, and the health after it. -/
def perform (h : Health) : HealthRequest → Checked (Option Bool × Health)
  | .frame now points => (h.record now points).map fun next => (none, next)
  | .ask now => .ok (some (h.isAlive now), h)

/-- The answers to requests in a row, and the health after them. -/
def serve (h : Health) : List HealthRequest → Checked (List (Option Bool) × Health)
  | [] => .ok ([], h)
  | r :: rest => do
    let (answer, h) ← h.perform r
    let (answers, h) ← h.serve rest
    return (answer :: answers, h)

/-! ## What the health knows of its history -/

/-- The ring is the front of the history of arrivals, and the totals are those of the history. -/
structure Knows (past : List HealthRequest) (h : Health) : Prop where
  ring : h.arrivals.Remembers none ((arrivalTimes past).reverse.map some)
  frames : h.totalFrames = (arrivalTimes past).length
  points : h.totalPoints = (arrivalPoints past).sum

variable {past requests : List HealthRequest} {h : Health} {now points : Nat}

theorem knows_start : Knows [] {} := ⟨Ring.remembers_filled none (by decide), rfl, rfl⟩

theorem Knows.ask (hknows : Knows past h) (now : Nat) : Knows (past ++ [.ask now]) h := by
  obtain ⟨hring, hframes, hpoints⟩ := hknows
  refine ⟨?_, ?_, ?_⟩
  · rwa [arrivalTimes_ask]
  · rwa [arrivalTimes_ask]
  · rwa [arrivalPoints_ask]

/-- A frame whose totals fit is noted, and the health then knows of it. -/
theorem Knows.frame (hknows : Knows past h) (horderly : Orderly (past ++ [.frame now points])) :
    ∃ next, h.record now points = .ok next ∧ Knows (past ++ [.frame now points]) next := by
  obtain ⟨hring, hframes, hpoints⟩ := hknows
  have hlength : h.totalFrames + 1 = (arrivalTimes (past ++ [.frame now points])).length := by
    simp [hframes]
  have hsum : h.totalPoints + points = (arrivalPoints (past ++ [.frame now points])).sum := by
    simp [hpoints]
  have hwidth : h.HasWidth points := ⟨hlength ▸ horderly.frames, hsum ▸ horderly.points⟩
  refine ⟨_, by rw [record_eq, if_pos hwidth], ?_, hlength, hsum⟩
  rw [arrivalTimes_frame, List.reverse_append, List.map_append]
  exact hring.push (some now)

/-- Sixty arrival times tell whether more than five of all lie in the window. -/
theorem Knows.isAlive_iff (hknows : Knows past h)
    (hsorted : (arrivalTimes past).Pairwise (· ≤ ·)) (now : Nat) :
    h.isAlive now = true ↔ Lively (arrivalTimes past) now := by
  have hcount : h.arrivals.countSince (now - 3500) =
      min 60 ((arrivalTimes past).countP (now - 3500 ≤ ·)) := by
    rw [← List.countP_reverse]
    exact Ring.countSince_history hknows.ring (List.pairwise_reverse.mpr hsorted) _
  have hwindow : window = 3500 := rfl
  have hminimum : minimumFrames = 5 := rfl
  unfold isAlive Lively
  rw [Bool.and_eq_true, decide_eq_true_iff, decide_eq_true_iff, hwindow, hminimum, hcount]
  omega

/-- Requests in a row are served, with the answers that the whole history gives. Without the
questions among them the health ends up the same. -/
theorem Knows.serve (hknows : Knows past h) (horderly : Orderly (past ++ requests)) :
    ∃ next, h.serve requests = .ok (answersFrom past requests, next) ∧
      Knows (past ++ requests) next ∧
      ∃ silence, h.serve (requests.filter (·.arrival.isSome)) = .ok (silence, next) := by
  induction requests generalizing past h with
  | nil =>
    rw [List.append_nil]
    exact ⟨h, rfl, hknows, [], rfl⟩
  | cons r requests ih =>
    rw [← List.singleton_append, ← List.append_assoc] at horderly ⊢
    cases r with
    | ask now =>
      obtain ⟨next, hserve, hnext, hsilence⟩ := ih (hknows.ask now) horderly
      refine ⟨next, ?_, hnext, hsilence⟩
      have hanswer : h.isAlive now = decide (Lively (arrivalTimes past) now) := by
        rw [Bool.eq_iff_iff, decide_eq_true_iff]
        exact hknows.isAlive_iff horderly.front.front.sorted now
      simp only [List.singleton_append, Health.serve, perform, hserve, hanswer, bind, Except.bind]
      rfl
    | frame time points =>
      obtain ⟨noted, hrecord, hnoted⟩ := hknows.frame horderly.front
      obtain ⟨next, hserve, hnext, silence, hsilence⟩ := ih hnoted horderly
      refine ⟨next, ?_, hnext, none :: silence, ?_⟩
      · simp only [List.singleton_append, Health.serve, perform, hrecord, hserve, bind, Except.bind,
          Except.map]
        rfl
      · have hkept : ([HealthRequest.frame time points] ++ requests).filter (·.arrival.isSome) =
            .frame time points :: requests.filter (·.arrival.isSome) := rfl
        simp only [hkept, Health.serve, perform, hrecord, hsilence, bind, Except.bind, Except.map]
        rfl

end Health

open Health in
/-- Frames arrive in order and the health is asked for in between, any number of times. As long as the
totals fit 64 bits every request is served, and every answer is the one that all frames up to then
give, although the ring keeps sixty of them: the radar is alive exactly if the first three and a half
seconds have passed and more than five frames arrived in the last. In the end the totals are the
number of frames and the sum of their detections, and leaving out the questions makes no
difference to the health. -/
theorem health_agrees_with_history {requests : List HealthRequest}
    (hsorted : (arrivalTimes requests).Pairwise (· ≤ ·))
    (hframes : (arrivalTimes requests).length < 2 ^ 64)
    (hpoints : (arrivalPoints requests).sum < 2 ^ 64) :
    ∃ h, serve {} requests = .ok (answersFrom [] requests, h) ∧
      h.totalFrames = (arrivalTimes requests).length ∧
      h.totalPoints = (arrivalPoints requests).sum ∧
      (∀ now, h.isAlive now = true ↔
        3500 ≤ now ∧ 5 < (arrivalTimes requests).countP (now - 3500 ≤ ·)) ∧
      ∃ silence, serve {} (requests.filter (·.arrival.isSome)) = .ok (silence, h) := by
  have horderly : Orderly ([] ++ requests) := ⟨hsorted, hframes, hpoints⟩
  obtain ⟨h, hserve, hknows, hsilence⟩ := knows_start.serve horderly
  exact ⟨h, hserve, hknows.frames, hknows.points, hknows.isAlive_iff hsorted, hsilence⟩

open Health in
/-- A burst of more frames than the ring has slots, asked about before it, while it is in the window
and when it has just left the window. -/
theorem health_agrees_with_history_burst :
    let requests := [.ask 3499] ++ List.replicate 61 (.frame 4000 3) ++ [.ask 7500, .ask 7501]
    (arrivalTimes requests).Pairwise (· ≤ ·) ∧ (arrivalTimes requests).length < 2 ^ 64 ∧
      (arrivalPoints requests).sum < 2 ^ 64 ∧
      ∃ h, serve {} requests = .ok ([some false] ++ List.replicate 61 none ++
          [some true, some false], h) ∧ h.totalFrames = 61 ∧ h.totalPoints = 183 := by
  intro requests
  have htimes : arrivalTimes requests = List.replicate 61 4000 := by decide
  have hpoints : arrivalPoints requests = List.replicate 61 3 := by decide
  have hanswers : answersFrom [] requests =
      [some false] ++ List.replicate 61 none ++ [some true, some false] := by decide +kernel
  have hsorted : (arrivalTimes requests).Pairwise (· ≤ ·) := by
    rw [htimes]
    exact List.pairwise_replicate.mpr (Or.inr (Nat.le_refl 4000))
  have hlength : (arrivalTimes requests).length = 61 := by rw [htimes, List.length_replicate]
  have hsum : (arrivalPoints requests).sum = 183 := by rw [hpoints, List.sum_replicate_nat]
  have hfew : (arrivalTimes requests).length < 2 ^ 64 := by simp [hlength]
  have hsmall : (arrivalPoints requests).sum < 2 ^ 64 := by simp [hsum]
  obtain ⟨h, hserve, hframes, hdetections, -⟩ := health_agrees_with_history hsorted hfew hsmall
  rw [hanswers] at hserve
  exact ⟨hsorted, hfew, hsmall, h, hserve, hframes.trans hlength, hdetections.trans hsum⟩

end FireControl.Radar
