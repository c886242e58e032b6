import FireControl.Proofs.Calibration.Blend

/-!
# The surface of corrections

Computed with exact rational numbers, the corrections of a table are the surface through its entries
that is straight along both axes in each cell of the grid (`DropLaw`, `LeadLaw`). Computed with
binary64 numbers, they exist whatever the arguments are: `tryDrop` and `tryLead` look values up with
nothing known of the index of a cell, and never fail.

Main statement: `corrections_interpolate`.
-/

namespace FireControl.Calibration

/-! ## What the corrections of a table are -/

namespace Table

/-- The drop at a grid distance. -/
def dropAt (t : Table) (i : Nat) : Rat := if h : i < 5 then t.drop[i].toInt else 0

/-- The lead at a grid distance and a grid velocity. -/
def leadAt (t : Table) (i j : Nat) : Rat :=
  if h : i < 5 ∧ j < 4 then t.lead[i][j].toInt else 0

/-- The lead in a cell, weighted by how near its four corners are. -/
def leadIn (t : Table) (i j : Nat) (distance speed : Rat) : Rat :=
  let p := (distance - (10 + 5 * i)) / 5
  let q := speed - j
  (1 - p) * (1 - q) * t.leadAt i j + p * (1 - q) * t.leadAt (i + 1) j +
    (1 - p) * q * t.leadAt i (j + 1) + p * q * t.leadAt (i + 1) (j + 1)

/-- The least of the four leads around a cell. -/
def leastLead (t : Table) (i j : Nat) : Rat :=
  min (min (t.leadAt i j) (t.leadAt (i + 1) j)) (min (t.leadAt i (j + 1)) (t.leadAt (i + 1) (j + 1)))

/-- The greatest of the four leads around a cell. -/
def greatestLead (t : Table) (i j : Nat) : Rat :=
  max (max (t.leadAt i j) (t.leadAt (i + 1) j)) (max (t.leadAt i (j + 1)) (t.leadAt (i + 1) (j + 1)))

end Table

/-- What the drop of a table is at every distance. -/
structure DropLaw (t : Table) (drop : Rat → Rat) : Prop where
  entry (i : Nat) : i < 5 → drop (10 + 5 * i) = t.dropAt i
  linear (i : Nat) (d : Rat) : i < 4 → 10 + 5 * i ≤ d → d ≤ 15 + 5 * i →
    drop d = t.dropAt i + (d - (10 + 5 * i)) / 5 * (t.dropAt (i + 1) - t.dropAt i)
  near (d : Rat) : d ≤ 10 → drop d = t.dropAt 0
  far (d : Rat) : 30 ≤ d → drop d = t.dropAt 4
  surrounded (d : Rat) : ∃ i, distanceAxis.Surrounds 5 i d
  between (i : Nat) (d : Rat) : distanceAxis.Surrounds 5 i d →
    min (t.dropAt i) (t.dropAt (i + 1)) ≤ drop d ∧ drop d ≤ max (t.dropAt i) (t.dropAt (i + 1))
  rising : (∀ i < 4, t.dropAt i ≤ t.dropAt (i + 1)) → Monotone drop

/-- What the lead of a table is at every distance and velocity. -/
structure LeadLaw (t : Table) (lead : Rat → Rat → Rat) : Prop where
  speed (d v w : Rat) : |v| = |w| → lead d v = lead d w
  entry (i j : Nat) : i < 5 → j < 4 → lead (10 + 5 * i) j = t.leadAt i j
  inside (i j : Nat) (d v : Rat) : i < 4 → j < 3 → 10 + 5 * i ≤ d → d ≤ 15 + 5 * i →
    j ≤ |v| → |v| ≤ j + 1 → lead d v = t.leadIn i j d |v|
  affine_distance (i : Nat) (v : Rat) : i < 4 → ∃ a b : Rat, ∀ d : Rat,
    10 + 5 * i ≤ d → d ≤ 15 + 5 * i → lead d v = a + b * d
  affine_speed (j : Nat) (d : Rat) : j < 3 → ∃ a b : Rat, ∀ v : Rat,
    j ≤ |v| → |v| ≤ j + 1 → lead d v = a + b * |v|
  distance_edge (i j : Nat) (s : Rat) :
    t.leadIn i j (15 + 5 * i) s = t.leadIn (i + 1) j (15 + 5 * i) s
  speed_edge (i j : Nat) (d : Rat) : t.leadIn i j d (j + 1) = t.leadIn i (j + 1) d (j + 1)
  near (d v : Rat) : d ≤ 10 → lead d v = lead 10 v
  far (d v : Rat) : 30 ≤ d → lead d v = lead 30 v
  fast (d v : Rat) : 3 ≤ |v| → lead d v = lead d 3
  surrounded (d v : Rat) : ∃ i j, distanceAxis.Surrounds 5 i d ∧ velocityAxis.Surrounds 4 j |v|
  between (i j : Nat) (d v : Rat) : distanceAxis.Surrounds 5 i d → velocityAxis.Surrounds 4 j |v| →
    t.leastLead i j ≤ lead d v ∧ lead d v ≤ t.greatestLead i j

/-! ## Corrections as blends -/

theorem distance_point (i : Nat) : distanceAxis.point Rat i = 10 + 5 * i := rfl

theorem velocity_point (j : Nat) : velocityAxis.point Rat j = j := by
  show (0 : Rat) + 1 * j = j
  ring

theorem distance_first : distanceAxis.point Rat 0 = 10 := by norm_num [distance_point]

theorem distance_last : distanceAxis.point Rat (5 - 1) = 30 := by norm_num [distance_point]

theorem velocity_last : velocityAxis.point Rat (4 - 1) = 3 := by norm_num [velocity_point]

theorem distance_step : 0 < distanceAxis.step := by decide

theorem velocity_step : 0 < velocityAxis.step := by decide

theorem distance_inCell {i : Nat} {d : Rat} :
    distanceAxis.InCell i d ↔ 10 + 5 * i ≤ d ∧ d ≤ 15 + 5 * i := by
  have hnext : distanceAxis.point Rat (i + 1) = 15 + 5 * i := by
    rw [distance_point]
    push_cast
    ring
  constructor
  · rintro ⟨hlow, hhigh⟩
    exact ⟨hlow, hnext ▸ hhigh⟩
  · rintro ⟨hlow, hhigh⟩
    exact ⟨hlow, hnext ▸ hhigh⟩

theorem velocity_inCell {j : Nat} {s : Rat} : velocityAxis.InCell j s ↔ j ≤ s ∧ s ≤ j + 1 := by
  have hnext : velocityAxis.point Rat (j + 1) = j + 1 := by
    rw [velocity_point]
    push_cast
    rfl
  constructor
  · rintro ⟨hlow, hhigh⟩
    exact ⟨velocity_point j ▸ hlow, hnext ▸ hhigh⟩
  · rintro ⟨hlow, hhigh⟩
    exact ⟨(velocity_point j).symm ▸ hlow, hnext ▸ hhigh⟩

theorem magnitude_rat (v : Rat) : Scalar.magnitude v = |v| := by
  show (if v < 0 then -v else v) = |v|
  split
  · next hneg => rw [abs_of_neg hneg]
  · next hpos => rw [abs_of_nonneg (not_lt.mp hpos)]

namespace Ballistics

variable {t : Table}

theorem drops_rat {i : Nat} (h : i < 5) : (ofTable (α := Rat) t).drops[i] = t.dropAt i := by
  unfold ofTable Table.dropAt
  rw [Vector.getElem_map, dif_pos h]
  rfl

theorem leads_rat {i j : Nat} (hi : i < 5) (hj : j < 4) :
    (ofTable (α := Rat) t).leads[i][j] = t.leadAt i j := by
  unfold ofTable Table.leadAt
  rw [Vector.getElem_map, Vector.getElem_map, dif_pos ⟨hi, hj⟩]
  rfl

theorem drop_at (t : Table) (p : Place 5 Rat) :
    have := p.index_lt
    (ofTable (α := Rat) t).drops[p.index] + p.fraction *
      ((ofTable (α := Rat) t).drops[p.index + 1] - (ofTable (α := Rat) t).drops[p.index]) =
        p.blend t.dropAt := by
  have hindex := p.index_lt
  simp only [drops_rat, Place.blend]

theorem drop_rat (t : Table) (d : Rat) :
    (ofTable (α := Rat) t).drop d =
      (distanceAxis.locate 5 (by decide) d).blend t.dropAt := drop_at t _

theorem lead_at (t : Table) (p : Place 5 Rat) (q : Place 4 Rat) :
    have := p.index_lt
    have := q.index_lt
    (1 - p.fraction) * (1 - q.fraction) * (ofTable (α := Rat) t).leads[p.index][q.index] +
      p.fraction * (1 - q.fraction) * (ofTable (α := Rat) t).leads[p.index + 1][q.index] +
      (1 - p.fraction) * q.fraction * (ofTable (α := Rat) t).leads[p.index][q.index + 1] +
      p.fraction * q.fraction * (ofTable (α := Rat) t).leads[p.index + 1][q.index + 1] =
        p.blend fun i => q.blend (t.leadAt i) := by
  have hp := p.index_lt
  have hq := q.index_lt
  simp only [leads_rat, Place.blend]
  ring

/-- The lead blends, along the distance, what the leads at each grid distance blend to. -/
theorem lead_rat (t : Table) (d v : Rat) :
    (ofTable (α := Rat) t).lead d v =
      (distanceAxis.locate 5 (by decide) d).blend fun i =>
        (velocityAxis.locate 4 (by decide) |v|).blend (t.leadAt i) := by
  rw [← magnitude_rat]
  exact lead_at t _ _

/-- The same, along the speed first. -/
theorem lead_rat_swap (t : Table) (d v : Rat) :
    (ofTable (α := Rat) t).lead d v =
      (velocityAxis.locate 4 (by decide) |v|).blend fun j =>
        (distanceAxis.locate 5 (by decide) d).blend fun i => t.leadAt i j := by
  rw [lead_rat, Place.blend_comm]

theorem dropLaw (t : Table) : DropLaw t (ofTable (α := Rat) t).drop where
  entry i hi := by
    rw [drop_rat, ← distance_point]
    exact Axis.blend_point distance_step hi
  linear i d hi hlow hhigh := by
    have hcell := distance_inCell.mpr ⟨hlow, hhigh⟩
    rw [drop_rat, Axis.blend_of_inCell distance_step (Nat.succ_lt_succ hi) hcell]
    rfl
  near d hd := by
    rw [drop_rat, Axis.blend_of_le distance_step (le_trans hd distance_first.ge)]
    exact Axis.blend_point distance_step (by decide)
  far d hd := by
    rw [drop_rat, Axis.blend_of_ge distance_step (le_trans distance_last.le hd)]
    exact Axis.blend_point distance_step (by decide)
  surrounded d := Axis.exists_surrounds distance_step (by decide) d
  between i d hd := by
    have hcell := hd.inCell_held distance_step
    rw [drop_rat]
    exact ⟨Axis.le_blend distance_step hd.cell hcell (min_le_left _ _) (min_le_right _ _),
      Axis.blend_le distance_step hd.cell hcell (le_max_left _ _) (le_max_right _ _)⟩
  rising h := by
    have hmono := Axis.blend_mono distance_step (by decide : 1 < 5) (f := t.dropAt)
      fun i hi => h i (Nat.lt_of_succ_lt_succ hi)
    intro d e hde
    rw [drop_rat, drop_rat]
    exact hmono hde

theorem leadLaw (t : Table) : LeadLaw t (ofTable (α := Rat) t).lead where
  speed d v w h := by rw [lead_rat, lead_rat, h]
  entry i j hi hj := by
    rw [lead_rat, Nat.abs_cast, ← distance_point, ← velocity_point, Axis.blend_point distance_step hi,
      Axis.blend_point velocity_step hj]
  inside i j d v hi hj hlow hhigh hslow hfast := by
    have hd := distance_inCell.mpr ⟨hlow, hhigh⟩
    have hv := velocity_inCell.mpr ⟨hslow, hfast⟩
    have hj' := Nat.succ_lt_succ hj
    rw [lead_rat, Axis.blend_of_inCell distance_step (Nat.succ_lt_succ hi) hd,
      Axis.blend_of_inCell velocity_step hj' hv, Axis.blend_of_inCell velocity_step hj' hv]
    have hp : distanceAxis.share i d = (d - (10 + 5 * i)) / 5 := rfl
    have hq : velocityAxis.share j |v| = |v| - j := by
      rw [Axis.share, velocity_point]
      exact div_one _
    rw [hp, hq]
    unfold Table.leadIn
    ring
  affine_distance i v hi := by
    obtain ⟨a, b, h⟩ := Axis.affine_of_inCell distance_step (h := by decide) (Nat.succ_lt_succ hi)
      fun i => (velocityAxis.locate 4 (by decide) |v|).blend (t.leadAt i)
    refine ⟨a, b, fun d hlow hhigh => ?_⟩
    rw [lead_rat]
    exact h d (distance_inCell.mpr ⟨hlow, hhigh⟩)
  affine_speed j d hj := by
    obtain ⟨a, b, h⟩ := Axis.affine_of_inCell velocity_step (h := by decide) (Nat.succ_lt_succ hj)
      fun j => (distanceAxis.locate 5 (by decide) d).blend fun i => t.leadAt i j
    refine ⟨a, b, fun v hslow hfast => ?_⟩
    rw [lead_rat_swap]
    exact h |v| (velocity_inCell.mpr ⟨hslow, hfast⟩)
  distance_edge i j s := by
    unfold Table.leadIn
    push_cast
    ring
  speed_edge i j d := by
    unfold Table.leadIn
    push_cast
    ring
  near d v hd := by
    rw [lead_rat, lead_rat, Axis.blend_of_le distance_step (le_trans hd distance_first.ge),
      distance_first]
  far d v hd := by
    rw [lead_rat, lead_rat, Axis.blend_of_ge distance_step (le_trans distance_last.le hd),
      distance_last]
  fast d v hv := by
    have hthree : |(3 : Rat)| = 3 := rfl
    rw [lead_rat_swap, lead_rat_swap, hthree,
      Axis.blend_of_ge velocity_step (le_trans velocity_last.le hv), velocity_last]
  surrounded d v := by
    obtain ⟨i, hi⟩ := Axis.exists_surrounds distance_step (show 1 < 5 by decide) d
    obtain ⟨j, hj⟩ := Axis.exists_surrounds velocity_step (show 1 < 4 by decide) |v|
    exact ⟨i, j, hi, hj⟩
  between i j d v hd hv := by
    have hdcell := hd.inCell_held distance_step
    have hvcell := hv.inCell_held velocity_step
    rw [lead_rat]
    constructor
    · refine Axis.le_blend distance_step hd.cell hdcell ?_ ?_
      · refine Axis.le_blend velocity_step hv.cell hvcell ?_ ?_ <;> simp [Table.leastLead]
      · refine Axis.le_blend velocity_step hv.cell hvcell ?_ ?_ <;> simp [Table.leastLead]
    · refine Axis.blend_le distance_step hd.cell hdcell ?_ ?_
      · refine Axis.blend_le velocity_step hv.cell hvcell ?_ ?_ <;> simp [Table.greatestLead]
      · refine Axis.blend_le velocity_step hv.cell hvcell ?_ ?_ <;> simp [Table.greatestLead]

/-! ## Looking values up with any arguments -/

end Ballistics

/-- The index of a cell and the position in it, with nothing known of the index. There is none where
the ends of the range are out of order or not numbers. -/
def Axis.tryLocate (a : Axis) (points : Nat) (x : Float) : Option (Nat × Float) :=
  let low : Float := Scalar.ofInt a.start
  let high : Float := Scalar.ofInt (a.start + a.step * (points - 1 : Nat))
  if low ≤ high then
    let position := (clamp low high x - Scalar.ofInt a.start) / Scalar.ofInt a.step
    let index := min (Scalar.wholePart position) (points - 2)
    some (index, position - Scalar.ofInt index)
  else none

theorem Axis.tryLocate_eq {a : Axis} {points : Nat} (h : 1 < points)
    (hrange : (Scalar.ofInt a.start : Float) ≤
      Scalar.ofInt (a.start + a.step * (points - 1 : Nat))) (x : Float) :
    a.tryLocate points x = some ((a.locate points h x).index, (a.locate points h x).fraction) :=
  if_pos hrange

theorem distance_tryLocate (d : Float) :
    distanceAxis.tryLocate 5 d = some ((distanceAxis.locate 5 (by decide) d).index,
      (distanceAxis.locate 5 (by decide) d).fraction) :=
  Axis.tryLocate_eq (by decide) (by decide +kernel) d

theorem velocity_tryLocate (v : Float) :
    velocityAxis.tryLocate 4 v = some ((velocityAxis.locate 4 (by decide) v).index,
      (velocityAxis.locate 4 (by decide) v).fraction) :=
  Axis.tryLocate_eq (by decide) (by decide +kernel) v

namespace Ballistics

/-- The drop, where every value that it needs is there. -/
def tryDrop (b : Ballistics Float) (distance : Float) : Option Float := do
  let (i, p) ← distanceAxis.tryLocate 5 distance
  let here ← b.drops[i]?
  let next ← b.drops[i + 1]?
  return here + p * (next - here)

/-- The lead, where every value that it needs is there. -/
def tryLead (b : Ballistics Float) (distance velocity : Float) : Option Float := do
  let (i, p) ← distanceAxis.tryLocate 5 distance
  let (j, q) ← velocityAxis.tryLocate 4 (Scalar.magnitude velocity)
  let here ← b.leads[i]?
  let next ← b.leads[i + 1]?
  let one : Float := Scalar.ofInt 1
  return (one - p) * (one - q) * (← here[j]?) + p * (one - q) * (← next[j]?) +
    (one - p) * q * (← here[j + 1]?) + p * q * (← next[j + 1]?)

theorem tryDrop_eq (b : Ballistics Float) (d : Float) : b.tryDrop d = some (b.drop d) := by
  have hindex := (distanceAxis.locate 5 (by decide) d).index_lt
  unfold tryDrop
  rw [distance_tryLocate]
  simp only [Option.bind_eq_bind, Option.bind_some]
  rw [Vector.getElem?_eq_getElem (Nat.lt_of_succ_lt hindex), Vector.getElem?_eq_getElem hindex]
  rfl

theorem tryLead_eq (b : Ballistics Float) (d v : Float) : b.tryLead d v = some (b.lead d v) := by
  have hi := (distanceAxis.locate 5 (by decide) d).index_lt
  have hj := (velocityAxis.locate 4 (by decide) (Scalar.magnitude v)).index_lt
  unfold tryLead
  rw [distance_tryLocate, velocity_tryLocate]
  simp only [Option.bind_eq_bind, Option.bind_some]
  rw [Vector.getElem?_eq_getElem (Nat.lt_of_succ_lt hi), Vector.getElem?_eq_getElem hi]
  simp only [Option.bind_some]
  rw [Vector.getElem?_eq_getElem (Nat.lt_of_succ_lt hj), Vector.getElem?_eq_getElem hj,
    Vector.getElem?_eq_getElem (Nat.lt_of_succ_lt hj), Vector.getElem?_eq_getElem hj]
  rfl

/-- With exact arithmetic the corrections of a table follow the law of interpolation over the whole
plane; in binary64, no argument leads out of the grid. -/
theorem corrections_interpolate (t : Table) :
    DropLaw t (ofTable (α := Rat) t).drop ∧ LeadLaw t (ofTable (α := Rat) t).lead ∧
      ∀ (b : Ballistics Float) (distance velocity : Float),
        (∃ i p, distanceAxis.tryLocate 5 distance = some (i, p) ∧ i + 1 < 5) ∧
        (∃ j q, velocityAxis.tryLocate 4 (Scalar.magnitude velocity) = some (j, q) ∧ j + 1 < 4) ∧
        b.tryDrop distance = some (b.drop distance) ∧
        b.tryLead distance velocity = some (b.lead distance velocity) :=
  ⟨dropLaw t, leadLaw t, fun b d v =>
    ⟨⟨_, _, distance_tryLocate d, Place.index_lt _⟩, ⟨_, _, velocity_tryLocate _, Place.index_lt _⟩,
      tryDrop_eq b d, tryLead_eq b d v⟩⟩

/-- Between 10 and 15 metres, drops of 10 and 20 make one of 15 halfway; beyond 30 metres the last one
stays, and the drop never falls with the distance. -/
theorem corrections_interpolate_rising :
    let t : Table := { drop := #v[10, 20, 40, 70, 110] }
    (ofTable (α := Rat) t).drop (25 / 2) = 15 ∧ (ofTable (α := Rat) t).drop 45 = 110 ∧
      Monotone (ofTable (α := Rat) t).drop := by
  intro t
  have hlaw := (corrections_interpolate t).1
  refine ⟨?_, ?_, ?_⟩
  · have hlinear := hlaw.linear 0 (25 / 2) (by decide) (by norm_num) (by norm_num)
    rw [hlinear]
    decide +kernel
  · have hfar := hlaw.far 45 (by norm_num)
    rw [hfar]
    decide +kernel
  · refine hlaw.rising ?_
    decide +kernel

end Ballistics

end FireControl.Calibration
