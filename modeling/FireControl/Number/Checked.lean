/-!
# Arithmetic that reports leaving its width

Coordinates are signed 32-bit, times and totals unsigned 64-bit, per-phase counters unsigned 32-bit
and the lengths of quote runs unsigned 8-bit quantities. Values are kept in `Int` and `Nat`; an
operation whose exact result does not fit its width has no result but an `Overflow` that names the
operation. `Checked.int32_eq_ok` and its companions say that nothing else is reported and nothing is
rounded.
-/

namespace FireControl

/-- The operation whose exact result did not fit. -/
inductive Overflow where
  | add
  | subtract
  | multiply
  deriving DecidableEq, Repr

/-- The report shown for an overflow. -/
def Overflow.message : Overflow → String
  | .add => "attempt to add with overflow"
  | .subtract => "attempt to subtract with overflow"
  | .multiply => "attempt to multiply with overflow"

/-- A value, or the overflow met while computing it. -/
abbrev Checked (α : Type) := Except Overflow α

namespace Checked

/-- The range of a signed 32-bit quantity. -/
def InInt32 (v : Int) : Prop := -2147483648 ≤ v ∧ v ≤ 2147483647

instance (v : Int) : Decidable (InInt32 v) := inferInstanceAs (Decidable (_ ∧ _))

/-- `v`, if it is a signed 32-bit value. -/
def int32 (operation : Overflow) (v : Int) : Checked Int :=
  if InInt32 v then .ok v else .error operation

/-- `v`, if it is an unsigned 8-bit value. -/
def nat8 (operation : Overflow) (v : Nat) : Checked Nat :=
  if v < 256 then .ok v else .error operation

/-- `v`, if it is an unsigned 32-bit value. -/
def nat32 (operation : Overflow) (v : Nat) : Checked Nat :=
  if v < 4294967296 then .ok v else .error operation

/-- `v`, if it is an unsigned 64-bit value. -/
def nat64 (operation : Overflow) (v : Nat) : Checked Nat :=
  if v < 18446744073709551616 then .ok v else .error operation

theorem int32_eq_ok {operation : Overflow} {v r : Int} :
    int32 operation v = .ok r ↔ InInt32 v ∧ r = v := by
  unfold int32; split <;> grind

theorem nat8_eq_ok {operation : Overflow} {v r : Nat} :
    nat8 operation v = .ok r ↔ v < 256 ∧ r = v := by
  unfold nat8; split <;> grind

theorem nat32_eq_ok {operation : Overflow} {v r : Nat} :
    nat32 operation v = .ok r ↔ v < 4294967296 ∧ r = v := by
  unfold nat32; split <;> grind

theorem nat64_eq_ok {operation : Overflow} {v r : Nat} :
    nat64 operation v = .ok r ↔ v < 18446744073709551616 ∧ r = v := by
  unfold nat64; split <;> grind

/-- A computation that goes on after another one succeeds when both do. -/
theorem bind_eq_ok {α β : Type} {x : Checked α} {f : α → Checked β} {b : β} :
    (x >>= f) = .ok b ↔ ∃ a, x = .ok a ∧ f a = .ok b := by
  cases x with
  | error e => simp [bind, Except.bind]
  | ok a => simp [bind, Except.bind]

theorem bind_succeeds {α β : Type} {x : Checked α} {f : α → Checked β} {a : α}
    (hx : x = .ok a) (hf : ∃ b, f a = .ok b) : ∃ b, (x >>= f) = .ok b := by
  obtain ⟨b, hb⟩ := hf
  exact ⟨b, bind_eq_ok.mpr ⟨a, hx, hb⟩⟩

theorem map_eq_ok {α β : Type} {x : Checked α} {f : α → β} {b : β} :
    x.map f = .ok b ↔ ∃ a, x = .ok a ∧ f a = b := by
  cases x with
  | error e => simp [Except.map]
  | ok a => simp [Except.map]

theorem pure_eq_ok {α : Type} {a b : α} : (pure a : Checked α) = .ok b ↔ a = b := by
  simp [pure, Except.pure]

end Checked

end FireControl
