import FireControl.Calibration.Editor

/-!
# Tables cell by cell

What a table holds is what its cells read: `get_of_set` says that writing a cell changes what it
reads and nothing else, and `commit_on_grid` says the same of a commit, which writes one cell or the
cells of all distances. A drop has no velocity, so that two cells that differ there alone are one
(`Cell.Same`).
-/

namespace FireControl.Calibration

variable {c d : Cell} {t t' : Table} {value : Int16}

namespace Cell

/-- The grid has the cell. -/
def OnGrid (c : Cell) : Prop :=
  c.distance < distancePoints ∧ (c.kind = .lead → c.velocity < velocityPoints)

instance (c : Cell) : Decidable c.OnGrid := inferInstanceAs (Decidable (_ ∧ _))

/-- Both are addresses of one value. -/
def Same (c d : Cell) : Prop :=
  c.kind = d.kind ∧ c.distance = d.distance ∧ (d.kind = .lead → c.velocity = d.velocity)

instance (c d : Cell) : Decidable (c.Same d) := inferInstanceAs (Decidable (_ ∧ _ ∧ _))

theorem Same.onGrid (h : c.Same d) (hd : d.OnGrid) : c.OnGrid := by
  obtain ⟨hkind, hdistance, hvelocity⟩ := h
  refine ⟨hdistance ▸ hd.1, ?_⟩
  intro hlead
  rw [hkind] at hlead
  rw [hvelocity hlead]
  exact hd.2 hlead

end Cell

namespace Table

theorem get_eq_error {e : NoSuchCell} : t.get c = .error e ↔ ¬ c.OnGrid ∧ e = ⟨c⟩ := by
  obtain ⟨kind, i, j⟩ := c
  unfold get Cell.OnGrid distancePoints velocityPoints
  by_cases hi : i < 5
  · cases kind with
    | drop => simp [hi]
    | lead => by_cases hj : j < 4 <;> simp [hi, hj, eq_comm]
  · simp [hi, eq_comm]

theorem exists_get (t : Table) (h : c.OnGrid) : ∃ v, t.get c = .ok v := by
  cases hget : t.get c with
  | ok v => exact ⟨v, rfl⟩
  | error e => exact absurd h (get_eq_error.mp hget).1

theorem exists_set (t : Table) (value : Int16) (h : c.OnGrid) : ∃ t', t.set c value = .ok t' := by
  cases hset : t.set c value with
  | ok t' => exact ⟨t', rfl⟩
  | error e => exact absurd h (get_eq_error.mp (get_eq_error_iff.mpr hset)).1

theorem get_drop {i j : Nat} (hi : i < 5) : t.get ⟨.drop, i, j⟩ = .ok t.drop[i] := by
  simp [get, hi]

theorem get_lead {i j : Nat} (hi : i < 5) (hj : j < 4) :
    t.get ⟨.lead, i, j⟩ = .ok t.lead[i][j] := by
  simp [get, hi, hj]

theorem set_drop {i j : Nat} (hi : i < 5) :
    t.set ⟨.drop, i, j⟩ value = .ok { t with drop := t.drop.set i value } := by
  simp [set, hi]

theorem set_lead {i j : Nat} (hi : i < 5) (hj : j < 4) :
    t.set ⟨.lead, i, j⟩ value =
      .ok { t with lead := t.lead.set i (t.lead[i].set j value) } := by
  simp [set, hi, hj]

theorem onGrid_of_set (h : t.set c value = .ok t') : c.OnGrid := by
  by_cases hc : c.OnGrid
  · exact hc
  · have herror := (@get_eq_error_iff t c value ⟨c⟩).mp (get_eq_error.mpr ⟨hc, rfl⟩)
    rw [h] at herror
    cases herror

/-- Writing a cell changes what this cell reads, and nothing else. -/
theorem get_of_set (h : t.set c value = .ok t') (d : Cell) :
    t'.get d = if d.Same c then .ok value else t.get d := by
  have hc := onGrid_of_set h
  by_cases hd : d.OnGrid
  · obtain ⟨kind, i, j⟩ := c
    obtain ⟨kind', i', j'⟩ := d
    have hi : i < 5 := hc.1
    have hi' : i' < 5 := hd.1
    cases kind with
    | drop =>
      rw [set_drop hi] at h
      cases h
      cases kind' with
      | drop =>
        rw [get_drop hi', get_drop hi', Vector.getElem_set]
        simp only [Cell.Same, true_and, reduceCtorEq, false_implies, and_true, eq_comm]
        split <;> rfl
      | lead =>
        have hj' : j' < 4 := hd.2 rfl
        rw [get_lead hi' hj', get_lead hi' hj', if_neg fun h => by cases h.1]
    | lead =>
      have hj : j < 4 := hc.2 rfl
      rw [set_lead hi hj] at h
      cases h
      cases kind' with
      | drop => rw [get_drop hi', get_drop hi', if_neg fun h => by cases h.1]
      | lead =>
        have hj' : j' < 4 := hd.2 rfl
        rw [get_lead hi' hj', get_lead hi' hj']
        by_cases hii : i = i'
        · subst hii
          simp only [Vector.getElem_set, if_true, Cell.Same, true_and, forall_const, eq_comm]
          split <;> rfl
        · rw [if_neg fun h => hii h.2.1.symm]
          simp only [Vector.getElem_set, if_neg hii]
  · have hsame : ¬ d.Same c := fun hsame => hd (hsame.onGrid hc)
    rw [if_neg hsame, get_eq_error.mpr ⟨hd, rfl⟩, get_eq_error.mpr ⟨hd, rfl⟩]

end Table

/-! ## Commits -/

namespace Editor

theorem writeAll_on_grid {cells : List Cell} (h : ∀ c ∈ cells, c.OnGrid) (s : Store) :
    ∃ table, writeAll value cells s = (.ok (), { s with table }) ∧
      ∀ d, table.get d = if ∃ c ∈ cells, d.Same c then .ok value else s.table.get d := by
  induction cells generalizing s with
  | nil => exact ⟨s.table, rfl, by simp⟩
  | cons c later ih =>
    obtain ⟨t, ht⟩ := s.table.exists_set value (h c List.mem_cons_self)
    have hlater : ∀ d ∈ later, d.OnGrid := fun d hd => h d (List.mem_cons_of_mem c hd)
    obtain ⟨table, hwrite, hget⟩ := ih hlater { s with table := t }
    refine ⟨table, ?_, ?_⟩
    · have hset : s.set c value = .ok { s with table := t } := by
        rw [Store.set, ht]
        rfl
      rw [writeAll, hset]
      exact hwrite
    · intro d
      rw [hget, Table.get_of_set ht]
      simp only [List.mem_cons, exists_eq_or_imp]
      by_cases hd : ∃ c ∈ later, d.Same c
      · simp [hd]
      · simp [hd]

/-- A commit of `c` writes `d`. -/
def Writes (allDistances : Bool) (c d : Cell) : Prop :=
  d.kind = c.kind ∧ (c.kind = .lead → d.velocity = c.velocity) ∧
    if allDistances then d.distance < 5 else d.distance = c.distance

instance (allDistances : Bool) (c d : Cell) : Decidable (Writes allDistances c d) :=
  inferInstanceAs (Decidable (_ ∧ _ ∧ _))

theorem onGrid_of_mem_targets {e : Editor} (hc : c.OnGrid) : ∀ d ∈ e.targets c, d.OnGrid := by
  intro d hd
  unfold targets at hd
  split at hd
  · obtain ⟨i, hi, rfl⟩ := List.mem_map.mp hd
    exact ⟨List.mem_range.mp hi, hc.2⟩
  · obtain rfl := List.mem_singleton.mp hd
    exact hc

theorem same_target_iff {e : Editor} :
    (∃ x ∈ e.targets c, d.Same x) ↔ Writes e.allDistances c d := by
  unfold targets Writes Cell.Same
  cases e.allDistances with
  | false => simp [and_comm]
  | true =>
    simp only [if_true]
    constructor
    · rintro ⟨x, hx, hkind, hdistance, hvelocity⟩
      obtain ⟨i, hi, rfl⟩ := List.mem_map.mp hx
      exact ⟨hkind, hvelocity, hdistance ▸ List.mem_range.mp hi⟩
    · rintro ⟨hkind, hvelocity, hdistance⟩
      refine ⟨{ c with distance := d.distance }, List.mem_map.mpr ?_, hkind, rfl, hvelocity⟩
      exact ⟨d.distance, List.mem_range.mpr hdistance, rfl⟩

/-- A commit of a cell of the grid is complete, and builds the interpolators anew. -/
theorem commit_on_grid (e : Editor) (hc : c.OnGrid) (s : Store) :
    ∃ table, e.commit c s = (.ok (.committed c e.value), { e with cell := none },
        Store.ofTable s.path table) ∧
      ∀ d, table.get d = if Writes e.allDistances c d then .ok e.value else s.table.get d := by
  obtain ⟨table, hwrite, hget⟩ := @writeAll_on_grid e.value _ (onGrid_of_mem_targets hc) s
  refine ⟨table, ?_, ?_⟩
  · rw [commit, hwrite]
    rfl
  · intro d
    rw [hget]
    simp only [same_target_iff]

end Editor

end FireControl.Calibration
