import FireControl.Motion.Attitude

/-!
# Samples for a window that others read

The yaw-rate window is read while samples come in, and a sample does not wait for it: if the window is
busy, the yaw rate of the sample is lost and counted. Its attitude comes from the smoothing windows,
which nobody else uses.
-/

namespace FireControl.Motion

open FireControl.Wire (MotionSample)

/-- An estimator, and the number of yaw rates that were lost. -/
structure Writer extends estimator : Estimator where
  dropped : Nat := 0

namespace Writer

/-- A new estimator that writes into a window. -/
def start (gyro : Gyro Float32) : Writer := { estimator := { gyro } }

/-- Processes one sample while the window may be busy. A glitch does not ask for the window. -/
def ingest (config : Config) (w : Writer) (s : MotionSample) (busy : Bool) :
    Option Attitude × Writer :=
  match w.estimator.ingest config s with
  | (none, estimator) => (none, { w with estimator })
  | (some attitude, estimator) =>
    if busy then
      (some attitude,
        { estimator := { estimator with gyro := w.estimator.gyro }, dropped := w.dropped + 1 })
    else (some attitude, { w with estimator })

/-- A free window makes no difference. -/
theorem ingest_free (config : Config) (w : Writer) (s : MotionSample) :
    w.ingest config s false =
      ((w.estimator.ingest config s).1, { w with estimator := (w.estimator.ingest config s).2 }) := by
  unfold ingest
  obtain ⟨attitude, estimator⟩ := w.estimator.ingest config s
  cases attitude <;> rfl

/-- A busy window is left as it was. -/
theorem gyro_ingest_busy (config : Config) (w : Writer) (s : MotionSample) :
    (w.ingest config s true).2.gyro = w.gyro := by
  unfold ingest Estimator.ingest
  by_cases hglitch : isGlitch config s = true
  · rw [if_pos hglitch]
  · rw [if_neg hglitch]
    rfl

end Writer

end FireControl.Motion
