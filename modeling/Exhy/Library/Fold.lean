import Mathlib.Data.List.Basic
import Mathlib.Data.Option.Basic

/-!
# Folds that can fail

Whether a fold in `Option` gives a result, and what it keeps on the way.  What a loop gives in
which no round fails.
-/

namespace Library

universe u v

variable {Item : Type u} {State : Type v} {step : State → Item → Option State}

/-- A fold gives a result where every step does, when that depends on the item alone. -/
theorem isSome_foldlM {good : Item → Prop} {items : List Item}
    (gives : ∀ item ∈ items, ∀ state, (step state item).isSome ↔ good item) (state : State) :
    (items.foldlM step state).isSome ↔ ∀ item ∈ items, good item := by
  induction items generalizing state with
  | nil => simp
  | cons first later ih =>
      have here := gives first List.mem_cons_self state
      have onward := ih fun item member => gives item (List.mem_cons_of_mem _ member)
      rw [List.foldlM_cons, List.forall_mem_cons, ← here]
      cases step state first with
      | none => simp
      | some next => simpa using onward next

/-- What every step keeps is kept by the fold. -/
theorem keeps_foldlM {keeps : State → Prop} {items : List Item}
    (each : ∀ item ∈ items, ∀ before after, step before item = some after → keeps before →
      keeps after) {start result : State} (done : items.foldlM step start = some result)
    (holds : keeps start) : keeps result := by
  induction items generalizing start with
  | nil =>
      cases done
      exact holds
  | cons first later ih =>
      rw [List.foldlM_cons] at done
      obtain ⟨next, here, onward⟩ := Option.bind_eq_some_iff.mp done
      have onwards := fun item member => each item (List.mem_cons_of_mem first member)
      exact ih onwards onward (each first List.mem_cons_self _ _ here holds)

/-- Rounds that do not fail give their results in order. -/
theorem mapM_eq_pure {Result Item : Type u} {M : Type u → Type v} [Monad M] [LawfulMonad M]
    {round : Item → M Result} {result : Item → Result} {items : List Item}
    (each : ∀ item ∈ items, round item = pure (result item)) :
    items.mapM round = pure (items.map result) := by
  induction items with
  | nil => simp
  | cons first later ih =>
      rw [List.forall_mem_cons] at each
      simp [each.1, ih each.2]

end Library
