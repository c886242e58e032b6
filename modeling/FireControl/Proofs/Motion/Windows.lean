import FireControl.Motion.Gyro
import FireControl.Proofs.RingHistory
import Mathlib.Algebra.BigOperators.Group.List.Basic
import Mathlib.Algebra.Field.Rat
import Mathlib.Tactic.NormNum

/-!
# Windows of the last values

A window starts with zeros, and each value that is pushed takes the next slot in turn, so that a
slot holds the last value whose index leaves the slot's own modulo the number of slots
(`slots_pushAll`). Read from the slot written last backwards, the window is the front of the history
(`remembers_pushAll`), and two things follow from this. The slots are a permutation of the last
values and of zeros for those that are missing (`perm_padded`), which is all that an exact mean or
variance depends on. And full windows with the same last values are equal if they will write the same
slot next (`pushAll_eq_of_recent`), so that binary32 sums, which depend on the order of the slots, are
equal as well.

Main statement: `windows_hold_the_last_values`.
-/

namespace FireControl

namespace Ring

variable {α : Type} {n j : ℕ} {filling a : α} {h : 0 < n} {values values' : List α}

/-- Pushes values in their order. -/
def pushAll (r : Ring α n) (values : List α) : Ring α n := values.foldl push r

theorem pushAll_concat (r : Ring α n) (values : List α) (a : α) :
    r.pushAll (values ++ [a]) = (r.pushAll values).push a := List.foldl_concat ..

/-! ## Slots -/

/-- The last of the values whose index, counted from zero, leaves `j` modulo `n`. -/
def latest (n j : ℕ) (values : List α) : Option α :=
  (values.zipIdx.filter (·.2 % n = j)).getLast?.map (·.1)

theorem latest_concat (n j : ℕ) (values : List α) (a : α) :
    latest n j (values ++ [a]) = if values.length % n = j then some a else latest n j values := by
  unfold latest
  rw [List.zipIdx_append, List.filter_append]
  split
  case isTrue hj => simp [hj]
  case isFalse hj => simp [hj]

theorem next_pushAll : ((filled filling h).pushAll values).next = values.length % n := by
  induction values using List.reverseRecOn with
  | nil => exact (Nat.zero_mod n).symm
  | append_singleton values a ih =>
    rw [pushAll_concat, List.length_append, List.length_singleton, ← Nat.mod_add_mod, ← ih]
    rfl

theorem slots_pushAll (hj : j < n) :
    ((filled filling h).pushAll values).slots[j] = (latest n j values).getD filling := by
  induction values using List.reverseRecOn with
  | nil => exact Vector.getElem_replicate hj
  | append_singleton values a ih =>
    have hset : ((filled filling h).pushAll (values ++ [a])).slots[j] =
        if values.length % n = j then a else ((filled filling h).pushAll values).slots[j] := by
      simp only [pushAll_concat, push, Vector.getElem_set, next_pushAll]
    rw [hset, latest_concat, ih]
    split <;> rfl

/-! ## Histories -/

/-- The last `n` values, or all of them if there are not so many. -/
def recent (n : ℕ) (values : List α) : List α := values.drop (values.length - n)

/-- The last `n` values, with a filling for those that are missing. -/
def padded (filling : α) (n : ℕ) (values : List α) : List α :=
  recent n values ++ List.replicate (n - values.length) filling

theorem remembers_pushAll (filling : α) (h : 0 < n) (values : List α) :
    ((filled filling h).pushAll values).Remembers filling values.reverse := by
  induction values using List.reverseRecOn with
  | nil => exact remembers_filled filling h
  | append_singleton values a ih =>
    rw [pushAll_concat, List.reverse_concat]
    exact ih.push a

/-- By age the slots hold the last values, latest first, and then what they were filled with. -/
theorem newest_pushAll : ((filled filling h).pushAll values).newest =
    (recent n values).reverse ++ List.replicate (n - values.length) filling := by
  rw [remembers_pushAll filling h values, List.take_append, List.take_reverse, List.take_replicate,
    List.length_reverse, Nat.min_eq_left (Nat.sub_le ..)]
  rfl

theorem perm_padded (filling : α) (h : 0 < n) (values : List α) :
    ((filled filling h).pushAll values).toList.Perm (padded filling n values) := by
  have hnewest : ((filled filling h).pushAll values).newest.Perm
      ((filled filling h).pushAll values).toList :=
    (List.reverse_perm _).trans (List.rotate_perm ..)
  refine hnewest.symm.trans ?_
  rw [newest_pushAll]
  exact (List.reverse_perm _).append_right _

/-- A ring is known from its slots by age and the one to be written next. -/
theorem eq_of_newest {r s : Ring α n} (hnewest : r.newest = s.newest) (hnext : r.next = s.next) :
    r = s := by
  obtain ⟨slots, next, hlt⟩ := r
  obtain ⟨slots', next', hlt'⟩ := s
  subst hnext
  have hslots := List.rotate_injective _ (List.reverse_injective hnewest)
  obtain rfl := Vector.toList_inj.mp hslots
  rfl

/-- Full windows with the same last values are equal if they will write the same slot next. -/
theorem pushAll_eq_of_recent (hfull : n ≤ values.length) (hfull' : n ≤ values'.length)
    (hrecent : recent n values = recent n values')
    (hlength : values.length % n = values'.length % n) :
    (filled filling h).pushAll values = (filled filling h).pushAll values' := by
  refine eq_of_newest ?_ ?_
  · rw [newest_pushAll, newest_pushAll, hrecent, Nat.sub_eq_zero_of_le hfull,
      Nat.sub_eq_zero_of_le hfull']
  · rw [next_pushAll, next_pushAll, hlength]

end Ring

/-! ## Exact means and variances -/

namespace Average

/-- The mean squared distance from the mean. -/
def populationVariance (values : List ℚ) : ℚ :=
  (values.map fun v => (v - values.sum / values.length) ^ 2).sum / values.length

theorem mean_rat (values : List ℚ) : mean values = values.sum / values.length := by
  rw [List.sum_eq_foldl]
  rfl

theorem variance_rat (values : List ℚ) : variance values = populationVariance values := by
  have hsquares : (values.map fun v => (v - mean values) * (v - mean values)) =
      values.map fun v => (v - values.sum / values.length) ^ 2 := by
    simp only [mean_rat, sq]
  show mean (values.map fun v => (v - mean values) * (v - mean values)) = _
  rw [hsquares, mean_rat, List.length_map]
  rfl

theorem populationVariance_perm {values values' : List ℚ} (h : values.Perm values') :
    populationVariance values = populationVariance values' := by
  unfold populationVariance
  rw [h.sum_eq, h.length_eq, (h.map _).sum_eq]

end Average

namespace Ring

variable {n : ℕ}

theorem mean_pushAll (h : 0 < n) (values : List ℚ) :
    ((filled 0 h).pushAll values).mean = (recent n values).sum / n := by
  rw [mean, Average.mean_rat, (perm_padded 0 h values).sum_eq, length_toList, padded,
    List.sum_append, List.sum_replicate, nsmul_zero, add_zero]

theorem variance_pushAll (h : 0 < n) (values : List ℚ) :
    ((filled 0 h).pushAll values).variance =
      Average.populationVariance (padded 0 n values) := by
  rw [variance, Average.variance_rat, Average.populationVariance_perm (perm_padded 0 h values)]

end Ring

namespace Motion

variable {α : Type} [Averaging α]

/-- A window of `n` slots after values were pushed onto it, as smoothing windows are. -/
def windowOf {n : ℕ} (h : 0 < n) (values : List α) : Ring α n :=
  (Ring.filled (Averaging.ofNat 0) h).pushAll values

/-- The yaw-rate window after some rates, with the bias that is stored now. -/
def Gyro.recorded (rates : List α) (bias : α) : Gyro α :=
  { rates.foldl Gyro.record Gyro.blank with bias }

theorem Gyro.window_recorded (rates : List α) (bias : α) :
    (Gyro.recorded rates bias).window = windowOf (by decide) rates := by
  show (rates.foldl Gyro.record Gyro.blank).window = _
  induction rates using List.reverseRecOn with
  | nil => rfl
  | append_singleton rates a ih =>
    rw [List.foldl_concat, windowOf, Ring.pushAll_concat]
    exact congrArg (·.push a) ih

/-- In a window of any size, and in the window of the last 550 yaw rates, a slot holds the last value
whose index leaves the slot's own, or zero if there is none. In exact arithmetic the mean is the sum
of the last values divided by the size of the window, less the bias for yaw rates, and the variance of
yaw rates is that of the last ones with zeros for those that are missing, whatever the bias. In
binary32, histories that fill the window have the same mean and variance if they end in the same
values and their lengths agree modulo its size: every earlier value is forgotten. -/
theorem windows_hold_the_last_values {n : ℕ} (h : 0 < n) :
    (∀ {α : Type} [Averaging α] (values : List α) (j : ℕ) (hj : j < n),
      (windowOf h values).slots[j] = (Ring.latest n j values).getD (Averaging.ofNat 0)) ∧
    (∀ {α : Type} [Averaging α] (rates : List α) (bias : α) (j : ℕ) (hj : j < 550),
      (Gyro.recorded rates bias).window.slots[j] =
        (Ring.latest 550 j rates).getD (Averaging.ofNat 0)) ∧
    (∀ values : List ℚ, (windowOf h values).mean = (Ring.recent n values).sum / n) ∧
    (∀ (rates : List ℚ) (bias : ℚ), (Gyro.recorded rates bias).rotation =
      { mean := (Ring.recent 550 rates).sum / 550 - bias
        variance := Average.populationVariance (Ring.padded 0 550 rates) }) ∧
    (∀ values values' : List Float32, n ≤ values.length → n ≤ values'.length →
      Ring.recent n values = Ring.recent n values' → values.length % n = values'.length % n →
      (windowOf h values).mean = (windowOf h values').mean ∧
        (windowOf h values).variance = (windowOf h values').variance) ∧
    (∀ (rates rates' : List Float32) (bias : Float32), 550 ≤ rates.length → 550 ≤ rates'.length →
      Ring.recent 550 rates = Ring.recent 550 rates' → rates.length % 550 = rates'.length % 550 →
      (Gyro.recorded rates bias).rotation = (Gyro.recorded rates' bias).rotation) := by
  refine ⟨?_, ?_, ?_, ?_, ?_, ?_⟩
  · intro α _ values j hj
    exact Ring.slots_pushAll hj
  · intro α _ rates bias j hj
    simp only [Gyro.window_recorded]
    exact Ring.slots_pushAll hj
  · exact Ring.mean_pushAll h
  · intro rates bias
    have hmean := Ring.mean_pushAll (show 0 < 550 by decide) rates
    have hvariance := Ring.variance_pushAll (show 0 < 550 by decide) rates
    rw [Gyro.rotation, Gyro.window_recorded]
    exact congrArg₂ Rotation.mk (congrArg (· - bias) hmean) hvariance
  · intro values values' hfull hfull' hrecent hlength
    have hsame : windowOf h values = windowOf h values' :=
      Ring.pushAll_eq_of_recent hfull hfull' hrecent hlength
    rw [hsame]
    exact ⟨rfl, rfl⟩
  · intro rates rates' bias hfull hfull' hrecent hlength
    rw [Gyro.rotation, Gyro.rotation, Gyro.window_recorded, Gyro.window_recorded]
    unfold windowOf
    rw [Ring.pushAll_eq_of_recent hfull hfull' hrecent hlength]
    rfl

/-- Two slots after three values, yaw rates that do not fill their window, and histories that begin
with what is not a number beside histories that do not. -/
theorem windows_hold_the_last_values_forgotten :
    (windowOf (show 0 < 2 by decide) ([1, 3, 5] : List ℚ)).slots[0] = 5 ∧
      (windowOf (show 0 < 2 by decide) ([1, 3, 5] : List ℚ)).mean = 4 ∧
      (Gyro.recorded ([550, 1100] : List ℚ) 1).rotation.mean = 2 ∧
      (windowOf (show 0 < 2 by decide) ([0 / 0, 7, 1, 3] : List Float32)).mean = 2 ∧
      (Gyro.recorded (List.replicate 550 (0 / 0 : Float32) ++ List.replicate 550 1) 0).rotation =
        (Gyro.recorded (List.replicate 550 (1 : Float32)) 0).rotation := by
  obtain ⟨hslots, -, hmean, hrotation, hforgets, hforgets'⟩ :=
    windows_hold_the_last_values (show 0 < 2 by decide)
  refine ⟨?_, ?_, ?_, ?_, ?_⟩
  · exact (hslots [1, 3, 5] 0 (by decide)).trans rfl
  · rw [hmean]
    norm_num [Ring.recent]
  · rw [hrotation]
    norm_num [Ring.recent]
  · have hplain : (windowOf (show 0 < 2 by decide) ([1, 3] : List Float32)).mean = 2 := by
      decide +kernel
    rw [← hplain]
    refine (hforgets _ _ ?_ ?_ ?_ ?_).1 <;> simp [Ring.recent]
  · have hfew : (List.replicate 550 (1 : Float32)).length = 550 := List.length_replicate
    have hmany : (List.replicate 550 (0 / 0 : Float32) ++ List.replicate 550 1).length = 1100 := by
      rw [List.length_append, List.length_replicate, hfew]
    refine hforgets' _ _ 0 ?_ ?_ ?_ ?_
    · omega
    · omega
    · rw [Ring.recent, Ring.recent, hmany, hfew]
      exact List.drop_left' List.length_replicate
    · rw [hmany, hfew]

end Motion

end FireControl
