import FireControl.Motion.Gyro
import FireControl.Proofs.Number.Exceptional
import FireControl.Proofs.RingHistory

/-!
# Windows with infinities or not-a-number

The variance of a list of binary32 numbers is not a number exactly when one of them is not finite
(`isNaN_variance_iff`): an infinity reaches the mean, so that its own distance from the mean is not
a number, and a sum does not recover from such a term (`sum_spoiled`). Numbers that are finite may
overflow in the sum, but the variance is a number even then.

The yaw-rate window holds the last 550 rates, so that one of them decides about its variance as long
as fewer than 550 have come after it (`Gyro.isNaN_variance_iff`).
-/

namespace FireControl

open Float.Model.UnpackedFloat (Sign)
open Floating

namespace Average

variable {xs : List Float32} {x : Float32} {s : Sign}

/-- The terms after a spoiled one cannot mend the sum. -/
theorem sum_spoiled (hx : x ∈ xs) (h : Spoiled s x.toModel.unpack) :
    Spoiled s (sum xs).toModel.unpack := by
  obtain ⟨earlier, later, rfl⟩ := List.append_of_mem hx
  rw [sum, List.foldl_append, List.foldl_cons]
  refine List.foldlRecOn later _ (motive := fun total : Float32 => Spoiled s total.toModel.unpack)
    ?_ ?_
  · exact (keeps_add ..).spoiled (add_spoiled (.inr h))
  · intro total htotal y _
    exact (keeps_add total y).spoiled (add_spoiled (.inl htotal))

theorem isNaN_sum_of_isFinite (h : ∀ x ∈ xs, x.isFinite = true) : (sum xs).isNaN = false := by
  refine List.foldlRecOn xs _ (motive := fun total : Float32 => total.isNaN = false) ?_ ?_
  · rfl
  · intro total htotal x hx
    exact (keeps_add total x).isNaN.trans (isNaN_add_of_isFinite htotal (h x hx))

theorem sum_nonNegative (h : ∀ x ∈ xs, NonNegative x.toModel.unpack) :
    NonNegative (sum xs).toModel.unpack := by
  refine List.foldlRecOn xs _ (motive := fun total : Float32 => NonNegative total.toModel.unpack)
    ?_ ?_
  · exact .zero .negative
  · intro total htotal x hx
    exact (keeps_add total x).nonNegative (add_nonNegative htotal (h x hx))

section Mean

variable (hlength : Positive (Float32.ofNat xs.length).toModel.unpack)

include hlength

theorem mean_spoiled (hx : x ∈ xs) (h : Spoiled s x.toModel.unpack) :
    Spoiled s (mean xs).toModel.unpack :=
  (keeps_div ..).spoiled (div_spoiled (sum_spoiled hx h) hlength)

theorem isNaN_mean : (mean xs).isNaN = (sum xs).isNaN :=
  (keeps_div ..).isNaN.trans (isNaN_div hlength)

end Mean

/-- The squared distances from the mean, as the variance averages them. -/
def squares (xs : List Float32) : List Float32 :=
  xs.map fun x => (x - mean xs) * (x - mean xs)

theorem length_squares (xs : List Float32) : (squares xs).length = xs.length := List.length_map _

theorem variance_eq : variance xs = mean (squares xs) := rfl

variable (hlength : Positive (Float32.ofNat xs.length).toModel.unpack)

include hlength

theorem isNaN_variance_of_mem (hx : x ∈ xs) (h : x.isFinite = false) :
    (variance xs).isNaN = true := by
  obtain ⟨s, hs⟩ := exists_spoiled_iff.mpr h
  have hdistance : (x - mean xs).isNaN = true :=
    (keeps_sub ..).isNaN.trans (isNaN_sub_of_spoiled hs (mean_spoiled hlength hx hs))
  have hsquare : ((x - mean xs) * (x - mean xs)).isNaN = true :=
    (keeps_mul ..).isNaN.trans (isNaN_mul_self hdistance)
  have hmem : (x - mean xs) * (x - mean xs) ∈ squares xs := List.mem_map_of_mem hx
  rw [← length_squares] at hlength
  apply forall_spoiled_iff.mp
  intro t
  exact mean_spoiled hlength hmem (forall_spoiled_iff.mpr hsquare t)

theorem isNaN_variance_of_isFinite (h : ∀ x ∈ xs, x.isFinite = true) :
    (variance xs).isNaN = false := by
  have hmean : (mean xs).isNaN = false := (isNaN_mean hlength).trans (isNaN_sum_of_isFinite h)
  rw [← length_squares] at hlength
  rw [variance_eq, isNaN_mean hlength]
  apply NonNegative.isNaN
  apply sum_nonNegative
  intro y hy
  obtain ⟨x, hx, rfl⟩ := List.mem_map.mp hy
  have hdistance : (x - mean xs).isNaN = false :=
    (keeps_sub ..).isNaN.trans (isNaN_sub_of_isFinite (h x hx) hmean)
  exact (keeps_mul ..).nonNegative (mul_self_nonNegative hdistance)

theorem isNaN_variance_iff : (variance xs).isNaN = true ↔ ∃ x ∈ xs, x.isFinite = false := by
  constructor
  · intro hnan
    by_contra hnone
    have hfinite : ∀ x ∈ xs, x.isFinite = true := by
      intro x hx
      by_contra hx'
      exact hnone ⟨x, hx, Bool.eq_false_iff.mpr hx'⟩
    rw [isNaN_variance_of_isFinite hlength hfinite] at hnan
    cases hnan
  · rintro ⟨x, hx, h⟩
    exact isNaN_variance_of_mem hlength hx h

end Average

namespace Motion.Gyro

theorem positive_length : Positive (Float32.ofNat 550).toModel.unpack := by
  have hvalue : (Float32.ofNat 550).toModel.unpack = .finite .positive 9011200 (-14) (by decide) :=
    rfl
  rw [hvalue]
  exact .finite ..

/-- The zeros of the beginning are finite, so the recorded rates alone decide. -/
theorem isNaN_variance_iff {g : Gyro Float32} {rates : List Float32}
    (h : g.window.Remembers 0 rates) :
    g.rotation.variance.isNaN = true ↔ ∃ rate ∈ rates.take 550, rate.isFinite = false := by
  have hlength : Positive (Float32.ofNat g.window.toList.length).toModel.unpack := by
    rw [Ring.length_toList]
    exact positive_length
  refine (Average.isNaN_variance_iff hlength).trans ?_
  constructor
  · rintro ⟨rate, hmem, hrate⟩
    rcases h.mem_toList.mp hmem with hrecent | ⟨-, rfl⟩
    · exact ⟨rate, hrecent, hrate⟩
    · cases hrate
  · rintro ⟨rate, hrecent, hrate⟩
    exact ⟨rate, h.mem_toList.mpr (.inl hrecent), hrate⟩

end Motion.Gyro

end FireControl
