import FireControl.Motion.Sharing
import FireControl.Proofs.Insertions

/-!
# Glitches have no influence

A sample beyond the acceleration limit is counted and changes nothing else (`ingest_glitch`), and the
count decides about nothing: estimators that are the same `ButForCount` answer a sample alike and stay
so (`ButForCount.ingest`). So samples beyond the limit may be inserted anywhere in a run, whether the
window is busy or free.

Main statement: `glitches_have_no_influence`.
-/

namespace FireControl.Motion

open FireControl.Wire (MotionSample)

/-- A sample, and whether it finds the window busy. -/
structure Arrival where
  sample : MotionSample
  busy : Bool

namespace Writer

variable {config : Config} {w w' : Writer} {a : Arrival}

/-- The estimator after a sequence of samples. -/
def run (config : Config) (w : Writer) (arrivals : List Arrival) : Writer :=
  arrivals.foldl (fun w a => (w.ingest config a.sample a.busy).2) w

/-! ## One sample -/

theorem ingest_glitch (w : Writer) (h : isGlitch config a.sample = true) :
    w.ingest config a.sample a.busy =
      (none, { w with estimator.rejected := w.estimator.rejected + 1 }) := by
  unfold ingest Estimator.ingest
  rw [if_pos h]

/-- An accepted sample enters the smoothing windows, and the yaw-rate window if that is free. -/
theorem ingest_accepted (w : Writer) (h : isGlitch config a.sample = false) :
    w.ingest config a.sample a.busy =
      (some (w.estimator.absorb config a.sample).attitude,
        if a.busy then
          { estimator := { w.estimator.absorb config a.sample with gyro := w.estimator.gyro }
            dropped := w.dropped + 1 }
        else { w with estimator := w.estimator.absorb config a.sample }) := by
  unfold ingest Estimator.ingest
  rw [if_neg (by simp [h])]
  dsimp only
  split <;> rfl

/-- Two estimators that may differ in the number of rejected samples alone. -/
def ButForCount (w w' : Writer) : Prop :=
  w = { w' with estimator.rejected := w.estimator.rejected }

theorem ButForCount.glitch (h : ButForCount w w') (ha : isGlitch config a.sample = true) :
    ButForCount (w.ingest config a.sample a.busy).2 w' := by
  rw [ingest_glitch w ha]
  unfold ButForCount at h ⊢
  rw [h]

/-- They answer a sample alike, and stay the same but for the count. -/
theorem ButForCount.ingest (h : ButForCount w w') (config : Config) (a : Arrival) :
    (w.ingest config a.sample a.busy).1 = (w'.ingest config a.sample a.busy).1 ∧
      ButForCount (w.ingest config a.sample a.busy).2 (w'.ingest config a.sample a.busy).2 := by
  -- The count occurs on both sides of the equation, and any number will do for it.
  unfold ButForCount at h
  generalize w.estimator.rejected = n at h
  subst h
  cases ha : isGlitch config a.sample with
  | true =>
    rw [ingest_glitch _ ha, ingest_glitch _ ha]
    exact ⟨rfl, rfl⟩
  | false =>
    rw [ingest_accepted _ ha, ingest_accepted _ ha]
    refine ⟨rfl, ?_⟩
    cases a.busy <;> rfl

/-! ## Runs -/

theorem run_cons (config : Config) (w : Writer) (a : Arrival) (later : List Arrival) :
    w.run config (a :: later) = (w.ingest config a.sample a.busy).2.run config later := rfl

/-- The count is that of the samples beyond the limit. -/
theorem rejected_run (config : Config) (w : Writer) (arrivals : List Arrival) :
    (w.run config arrivals).estimator.rejected =
      w.estimator.rejected + arrivals.countP (isGlitch config ·.sample) := by
  induction arrivals generalizing w with
  | nil => rfl
  | cons a later ih =>
    rw [run_cons, ih, List.countP_cons, Nat.add_comm (later.countP _), ← Nat.add_assoc]
    congr 1
    cases ha : isGlitch config a.sample with
    | true => rw [ingest_glitch w ha, if_pos rfl]
    | false =>
      rw [if_neg Bool.false_ne_true, ingest_accepted w ha]
      cases a.busy <;> rfl

/-- No yaw rate is lost to a window that is always free. -/
theorem dropped_run {arrivals : List Arrival} (w : Writer) (h : ∀ a ∈ arrivals, a.busy = false) :
    (w.run config arrivals).dropped = w.dropped := by
  induction arrivals generalizing w with
  | nil => rfl
  | cons a later ih =>
    obtain ⟨hfree, hlater⟩ := List.forall_mem_cons.mp h
    rw [run_cons, ih _ hlater]
    cases ha : isGlitch config a.sample with
    | true => rw [ingest_glitch w ha]
    | false =>
      rw [ingest_accepted w ha, hfree]
      rfl

/-- Samples beyond the acceleration limit may be inserted into a run at any positions. At every moment
the estimator and its window are what they would be without them, but for the count of rejected
samples. An inserted sample has no answer, and every other sample has the answer that it would have
without the insertions and leaves the same window. The count is the number of samples beyond the
limit, and nothing is dropped while the window is free. -/
theorem glitches_have_no_influence (config : Config) (gyro : Gyro Float32)
    {arrivals : List (Marked Arrival)} {m : Marked Arrival}
    (hglitches : ∀ m ∈ arrivals, m.inserted = true → isGlitch config m.entry.sample = true)
    (hm : m.inserted = true → isGlitch config m.entry.sample = true) :
    let disturbed := (start gyro).run config (Marked.seen arrivals)
    let undisturbed := (start gyro).run config (Marked.original arrivals)
    let after := disturbed.ingest config m.entry.sample m.entry.busy
    let after' := undisturbed.ingest config m.entry.sample m.entry.busy
    disturbed = { undisturbed with estimator.rejected := disturbed.estimator.rejected } ∧
      disturbed.estimator.gyro.rotation = undisturbed.estimator.gyro.rotation ∧
      (m.inserted = true → after =
        (none, { disturbed with estimator.rejected := disturbed.estimator.rejected + 1 })) ∧
      (m.inserted = false → after.1 = after'.1 ∧ after.2.estimator.gyro = after'.2.estimator.gyro) ∧
      disturbed.estimator.rejected =
        (Marked.seen arrivals).countP (isGlitch config ·.sample) ∧
      ((∀ a ∈ Marked.seen arrivals, a.busy = false) → disturbed.dropped = 0) := by
  intro disturbed undisturbed after after'
  have hsame : ButForCount disturbed undisturbed := by
    refine Marked.foldl_related ?_ ?_ (show ButForCount (start gyro) (start gyro) from rfl)
    · intro m hmem hinserted w w' h
      exact h.glitch (hglitches m hmem hinserted)
    · intro m _ _ w w' h
      exact (h.ingest config m.entry).2
  have hgyro : ∀ {w w' : Writer}, ButForCount w w' → w.estimator.gyro = w'.estimator.gyro :=
    fun h => congrArg (·.estimator.gyro) h
  refine ⟨hsame, congrArg Gyro.rotation (hgyro hsame), ?_, ?_, ?_, ?_⟩
  · intro hinserted
    exact ingest_glitch disturbed (hm hinserted)
  · intro _
    obtain ⟨hanswer, hnext⟩ := hsame.ingest config m.entry
    exact ⟨hanswer, hgyro hnext⟩
  · exact (rejected_run config _ _).trans (Nat.zero_add _)
  · intro hfree
    exact dropped_run _ hfree

/-- A sample that is accelerated along one axis while the window is free. -/
def shaken (acceleration : Float32) (inserted : Bool) : Marked Arrival :=
  ⟨⟨⟨acceleration.toBits, 0, 0, 0, 0, 0, 0⟩, false⟩, inserted⟩

/-- Samples just beyond the limit and infinitely far beyond it were inserted around a sample that was
beyond it before. -/
theorem glitches_have_no_influence_infinite :
    ∃ (arrivals : List (Marked Arrival)) (m : Marked Arrival),
      (∀ m ∈ arrivals, m.inserted = true → isGlitch {} m.entry.sample = true) ∧
      (m.inserted = true → isGlitch {} m.entry.sample = true) ∧ m.inserted = true ∧
      (((start .blank).run {} (Marked.seen arrivals)).ingest {} m.entry.sample m.entry.busy).1 =
        none ∧
      ((start .blank).run {} (Marked.seen arrivals)).estimator.rejected = 2 ∧
      ((start .blank).run {} (Marked.seen arrivals)).dropped = 0 := by
  have hglitches : ∀ m ∈ [shaken 10 false, shaken 31 true, shaken (-40) false],
      m.inserted = true → isGlitch {} m.entry.sample = true := by decide +kernel
  have hm : (shaken (1 / 0) true).inserted = true →
      isGlitch {} (shaken (1 / 0) true).entry.sample = true := by decide +kernel
  obtain ⟨-, -, hinserted, -, hrejected, hdropped⟩ :=
    glitches_have_no_influence {} .blank hglitches hm
  have hcount : (Marked.seen [shaken 10 false, shaken 31 true, shaken (-40) false]).countP
      (isGlitch {} ·.sample) = 2 := by decide +kernel
  exact ⟨_, _, hglitches, hm, rfl, congrArg Prod.fst (hinserted rfl), hrejected.trans hcount,
    hdropped (by decide)⟩

end Writer

end FireControl.Motion
