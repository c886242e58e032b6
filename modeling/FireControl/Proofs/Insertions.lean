/-!
# Sequences with insertions

A sequence in which every entry is marked tells what somebody sees who is given all of it and what it
was before the insertions. What a property rejects may be inserted into a list without a trace in the
list of what it accepts (`filter_seen`), and two machines that go through both sequences stay related
as long as an inserted entry does not move the first one out of the relation (`foldl_related`).
-/

namespace FireControl

/-- An entry of a sequence, and whether it was inserted. -/
structure Marked (α : Type) where
  entry : α
  inserted : Bool

namespace Marked

variable {α : Type}

/-- The sequence as it is seen. -/
def seen (entries : List (Marked α)) : List α := entries.map (·.entry)

/-- The sequence without the insertions. -/
def original (entries : List (Marked α)) : List α := seen (entries.filter (!·.inserted))

variable {m : Marked α} {entries : List (Marked α)}

@[simp] theorem seen_cons : seen (m :: entries) = m.entry :: seen entries := rfl

theorem original_cons_inserted (h : m.inserted = true) :
    original (m :: entries) = original entries := by simp [original, h]

theorem original_cons_kept (h : m.inserted = false) :
    original (m :: entries) = m.entry :: original entries := by simp [original, h]

/-- Insertions that are all rejected leave no trace in what is accepted. -/
theorem filter_seen {p : α → Bool}
    (h : ∀ m ∈ entries, m.inserted = true → p m.entry = false) :
    (seen entries).filter p = (original entries).filter p := by
  induction entries with
  | nil => rfl
  | cons m rest ih =>
    obtain ⟨hm, hrest⟩ := List.forall_mem_cons.mp h
    rw [seen_cons]
    cases hinserted : m.inserted with
    | true =>
      rw [original_cons_inserted hinserted, List.filter_cons_of_neg (by simp [hm hinserted])]
      exact ih hrest
    | false => rw [original_cons_kept hinserted, List.filter_cons, List.filter_cons, ih hrest]

/-- One machine goes through all entries and another one through those that were not inserted. -/
theorem foldl_related {σ τ : Type} {R : σ → τ → Prop} {step : σ → α → σ} {step' : τ → α → τ}
    {s : σ} {t : τ}
    (hinserted : ∀ m ∈ entries, m.inserted = true → ∀ s t, R s t → R (step s m.entry) t)
    (hkept : ∀ m ∈ entries, m.inserted = false → ∀ s t, R s t → R (step s m.entry) (step' t m.entry))
    (h : R s t) : R ((seen entries).foldl step s) ((original entries).foldl step' t) := by
  induction entries generalizing s t with
  | nil => exact h
  | cons m rest ih =>
    obtain ⟨hm, hrest⟩ := List.forall_mem_cons.mp hinserted
    obtain ⟨hm', hrest'⟩ := List.forall_mem_cons.mp hkept
    cases hmark : m.inserted with
    | true =>
      rw [original_cons_inserted hmark]
      exact ih hrest hrest' (hm hmark s t h)
    | false =>
      rw [original_cons_kept hmark]
      exact ih hrest hrest' (hm' hmark s t h)

end Marked

end FireControl
