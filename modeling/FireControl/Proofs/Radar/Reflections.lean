import FireControl.Proofs.Insertions
import FireControl.Proofs.Number.Exceptional
import FireControl.Radar.Intake

/-!
# Reflections have no influence

Points that are not credible may be inserted into clouds at any positions, and clouds of nothing else
between them. What is credible of a cloud is the same with them (`credible_seen`), so that the
estimator answers and goes on as it would without them (`ingest_seen`); from a cloud of reflections
alone it learns nothing (`ingest_reflections`).

Main statement: `reflections_have_no_influence`.
-/

namespace FireControl.Radar

open FireControl.Floating

/-! ## What is not credible -/

/-- Too far off the bore line, too close, or with a coordinate that is not a number. -/
def Position.IsReflection (p : Position) : Prop :=
  ¬ p.x.abs < offsetLimit ∨ ¬ p.z.abs < offsetLimit ∨ ¬ p.y > nearLimit ∨
    p.x.isNaN = true ∨ p.y.isNaN = true ∨ p.z.isNaN = true

instance (p : Position) : Decidable p.IsReflection := inferInstanceAs (Decidable (_ ∨ _))

theorem not_abs_lt_of_isNaN {x y : Float32} (h : x.isNaN = true) : ¬ x.abs < y := by
  have hkeeps := keeps_unpack_pack Float.Model.Format.binary32 x.toModel.unpack.abs
  have habs : x.abs.toModel.unpack.isNaN = true := by
    refine hkeeps.isNaN.trans ?_
    have hx : x.toModel.unpack.isNaN = true := h
    cases hu : x.toModel.unpack <;> rw [hu] at hx <;> first | rfl | cases hx
  rw [lt_iff_compare]
  intro hlt
  have hsome := isSome_compare x.abs.toModel.unpack y.toModel.unpack
  rw [hlt, habs] at hsome
  cases hsome

/-- A coordinate that is not a number fails every comparison. -/
theorem Position.IsReflection.isCredible {p : Position} (h : p.IsReflection) :
    p.isCredible = false := by
  have hfails : ¬ p.x.abs < offsetLimit ∨ ¬ p.z.abs < offsetLimit ∨ ¬ p.y > nearLimit := by
    rcases h with hx | hz | hy | hx | hy | hz
    · exact Or.inl hx
    · exact Or.inr (Or.inl hz)
    · exact Or.inr (Or.inr hy)
    · exact Or.inl (not_abs_lt_of_isNaN hx)
    · exact Or.inr (Or.inr (not_lt_of_isNaN hy))
    · exact Or.inr (Or.inl (not_abs_lt_of_isNaN hz))
  unfold Position.isCredible
  rcases hfails with hx | hz | hy
  · simp [hx]
  · simp [hz]
  · simp [hy]

/-! ## Clouds with insertions -/

/-- A cloud in which some points may have been inserted. -/
structure Scan where
  frameNumber : UInt32
  cycles : UInt32
  points : List (Marked Point)

/-- The cloud as it comes in. -/
def Scan.seen (s : Scan) : Cloud := ⟨s.frameNumber, s.cycles, Marked.seen s.points⟩

/-- The cloud without the insertions. -/
def Scan.original (s : Scan) : Cloud := ⟨s.frameNumber, s.cycles, Marked.original s.points⟩

/-- Only reflections were inserted: into a cloud, or as the cloud. -/
def Harmless (m : Marked Scan) : Prop :=
  ∀ p ∈ m.entry.points, m.inserted = true ∨ p.inserted = true → p.entry.position.IsReflection

instance (m : Marked Scan) : Decidable (Harmless m) := inferInstanceAs (Decidable (∀ p ∈ _, _ → _))

section Steps

variable {s : Scan} {m : Marked Scan} {scans : List (Marked Scan)}

theorem credible_seen
    (h : ∀ p ∈ s.points, p.inserted = true → p.entry.position.IsReflection) :
    credible s.seen.points = credible s.original.points :=
  Marked.filter_seen fun p hp hinserted => (h p hp hinserted).isCredible

namespace DistanceEstimator

theorem ingest_seen (e : DistanceEstimator)
    (h : ∀ p ∈ s.points, p.inserted = true → p.entry.position.IsReflection) :
    e.ingest s.seen.points = e.ingest s.original.points := by
  unfold ingest
  rw [credible_seen h]

theorem ingest_reflections (e : DistanceEstimator)
    (h : ∀ p ∈ s.points, p.entry.position.IsReflection) : e.ingest s.seen.points = (none, e) := by
  have hnone : credible s.seen.points = [] := by
    refine List.filter_eq_nil_iff.mpr ?_
    intro q hq
    obtain ⟨p, hp, rfl⟩ := List.mem_map.mp hq
    simp [(h p hp).isCredible]
  unfold ingest
  rw [hnone]
  rfl

/-- The distances published and the estimator are those of the clouds without the insertions. -/
theorem ingestAll_seen (e : DistanceEstimator) (h : ∀ m ∈ scans, Harmless m) :
    e.ingestAll ((Marked.seen scans).map Scan.seen) =
      e.ingestAll ((Marked.original scans).map Scan.original) := by
  induction scans generalizing e with
  | nil => rfl
  | cons m rest ih =>
    obtain ⟨hm, hrest⟩ := List.forall_mem_cons.mp h
    rw [Marked.seen_cons, List.map_cons]
    cases hinserted : m.inserted with
    | true =>
      rw [Marked.original_cons_inserted hinserted, ingestAll,
        ingest_reflections e fun p hp => hm p hp (Or.inl hinserted)]
      exact ih e hrest
    | false =>
      rw [Marked.original_cons_kept hinserted, List.map_cons, ingestAll, ingestAll,
        ingest_seen e fun p hp hp' => hm p hp (Or.inr hp')]
      simp only [ih _ hrest]

/-- The distance is the one published last. -/
theorem distance_ingestAll (e : DistanceEstimator) (clouds : List Cloud) :
    (e.ingestAll clouds).2.distance = (e.ingestAll clouds).1.getLast?.or e.distance := by
  induction clouds generalizing e with
  | nil => rfl
  | cons c rest ih =>
    have hstep : (e.ingest c.points).2.distance = (e.ingest c.points).1.or e.distance := by
      unfold ingest
      split <;> rfl
    show ((e.ingest c.points).2.ingestAll rest).2.distance = ((e.ingest c.points).1.toList ++
      ((e.ingest c.points).2.ingestAll rest).1).getLast?.or e.distance
    have hlast : (e.ingest c.points).1.toList.getLast? = (e.ingest c.points).1 := by
      cases (e.ingest c.points).1 <;> rfl
    rw [ih, hstep, List.getLast?_append, hlast, Option.or_assoc]

end DistanceEstimator

/-- Reflections may be inserted into clouds at any positions, and clouds of reflections between them.
At every moment the estimator is what it would be without them. It answers nothing to the next cloud
if that was inserted, and stays as it is; otherwise it does and answers exactly what it would without
the insertions. The distance is always the last one answered. -/
theorem reflections_have_no_influence (hscans : ∀ m ∈ scans, Harmless m) (hm : Harmless m) :
    let estimator := (DistanceEstimator.ingestAll {} ((Marked.seen scans).map Scan.seen)).2
    let undisturbed := (DistanceEstimator.ingestAll {} ((Marked.original scans).map Scan.original)).2
    estimator = undisturbed ∧
      (m.inserted = true → estimator.ingest m.entry.seen.points = (none, estimator)) ∧
      (m.inserted = false → estimator.ingest m.entry.seen.points =
        undisturbed.ingest m.entry.original.points) ∧
      estimator.distance =
        (DistanceEstimator.ingestAll {} ((Marked.seen scans).map Scan.seen)).1.getLast? := by
  intro estimator undisturbed
  have hsame : estimator = undisturbed :=
    congrArg Prod.snd (DistanceEstimator.ingestAll_seen {} hscans)
  refine ⟨hsame, ?_, ?_, ?_⟩
  · intro hinserted
    exact estimator.ingest_reflections fun p hp => hm p hp (Or.inl hinserted)
  · intro hkept
    rw [← hsame]
    exact estimator.ingest_seen fun p hp hp' => hm p hp (Or.inr hp')
  · exact (DistanceEstimator.distance_ingestAll {} _).trans (Option.or_none ..)

end Steps

/-- A point straight ahead, on its own or inserted. -/
def pointAhead (x y : Float32) (inserted : Bool) : Marked Point := ⟨⟨⟨x, y, 0⟩, 0, 0⟩, inserted⟩

/-- A cloud of a point that is too close was inserted, and points that have no position or are too far
off the bore line into the clouds around it. -/
theorem reflections_have_no_influence_crowded :
    ∃ (scans : List (Marked Scan)) (m : Marked Scan), (∀ m ∈ scans, Harmless m) ∧ Harmless m ∧
      m.inserted = false ∧
      (DistanceEstimator.ingestAll {} ((Marked.seen scans).map Scan.seen)).2.ingest
          m.entry.seen.points =
        (DistanceEstimator.ingestAll {} ((Marked.original scans).map Scan.original)).2.ingest
          [(pointAhead 1 20 false).entry] := by
  have hscans : ∀ m ∈ [(⟨⟨0, 0, [pointAhead (0 / 0) 12 true, pointAhead 0 10 false]⟩, false⟩ :
      Marked Scan), ⟨⟨1, 0, [pointAhead 0 3 false]⟩, true⟩], Harmless m := by decide +kernel
  have hm : Harmless ⟨⟨2, 0, [pointAhead 1 20 false, pointAhead (-100) 9 true]⟩, false⟩ := by
    decide +kernel
  obtain ⟨-, -, hkept, -⟩ := reflections_have_no_influence hscans hm
  exact ⟨_, _, hscans, hm, rfl, hkept rfl⟩

end FireControl.Radar
