import Mathlib.Data.List.Basic

/-!
# Fallible computations

What a result of a chain of `Except` steps says about the steps: a success passes
every step, an error is the error of one of them.
-/

namespace AerugoCache.Fallible

variable {α β ε : Type}

theorem bind_ok {x : Except ε α} {f : α → Except ε β} {b : β} (h : x >>= f = .ok b) :
    ∃ a, x = .ok a ∧ f a = .ok b := by
  cases x with
  | error error => cases h
  | ok a => exact ⟨a, rfl, h⟩

theorem bind_eq_ok {x : Except ε α} {f : α → Except ε β} {b : β} :
    x >>= f = .ok b ↔ ∃ a, x = .ok a ∧ f a = .ok b := by
  constructor
  · exact bind_ok
  · rintro ⟨a, rfl, h⟩
    exact h

theorem bind_error {x : Except ε α} {f : α → Except ε β} {error : ε}
    (h : x >>= f = .error error) : x = .error error ∨ ∃ a, x = .ok a ∧ f a = .error error := by
  cases x with
  | error error =>
    cases h
    exact Or.inl rfl
  | ok a => exact Or.inr ⟨a, rfl, h⟩

/-- A fallible map that an inverse undoes element by element is undone as a whole. -/
theorem map_of_mapM {f : α → Except ε β} {g : β → α} (hf : ∀ a b, f a = .ok b → g b = a)
    {items : List α} {results : List β} (h : items.mapM f = .ok results) :
    results.map g = items := by
  induction items generalizing results with
  | nil =>
    cases h
    rfl
  | cons item items ih =>
    rw [List.mapM_cons] at h
    obtain ⟨result, hitem, h⟩ := bind_ok h
    obtain ⟨rest, hrest, h⟩ := bind_ok h
    cases h
    rw [List.map_cons, hf item result hitem, ih hrest]

/-- A fallible map undoes a map that it undoes element by element. -/
theorem mapM_map_ok {γ : Type} {f : β → Except ε γ} {g : α → β} {h : α → γ} {items : List α}
    (hf : ∀ item ∈ items, f (g item) = .ok (h item)) :
    (items.map g).mapM f = .ok (items.map h) := by
  induction items with
  | nil => rfl
  | cons item items ih =>
    have hitem := hf item List.mem_cons_self
    have hrest := ih fun other hother => hf other (List.mem_cons_of_mem _ hother)
    rw [List.map_cons, List.mapM_cons, hitem, hrest]
    rfl

/-- The error of a fallible map is the error of one element. -/
theorem mapM_error {f : α → Except ε β} {items : List α} {error : ε}
    (h : items.mapM f = .error error) : ∃ item ∈ items, f item = .error error := by
  induction items with
  | nil => cases h
  | cons item items ih =>
    rw [List.mapM_cons] at h
    rcases bind_error h with hitem | ⟨result, -, h⟩
    · exact ⟨item, List.mem_cons_self, hitem⟩
    · rcases bind_error h with hrest | ⟨rest, -, h⟩
      · obtain ⟨other, hother, herror⟩ := ih hrest
        exact ⟨other, List.mem_cons_of_mem _ hother, herror⟩
      · cases h

end AerugoCache.Fallible
