import Mathlib.Algebra.BigOperators.Group.Finset.Piecewise
import Mathlib.Data.Fintype.Basic

/-!
# Counting the threads in a set of stages

What the values of a finite family weigh together, the number of indices whose value satisfies
a test, and how both move when one value of the family changes.
-/

namespace Library

universe u v

variable {Index : Type u} {Value : Type v} [Fintype Index]

/-- What the values of the family weigh together. -/
def sumOver (weight : Value → Nat) (family : Index → Value) : Nat :=
  ∑ index, weight (family index)

/-- Changing one value moves the sum by what the old and the new value weigh. -/
theorem sumOver_update [DecidableEq Index] (weight : Value → Nat) (family : Index → Value)
    (index : Index) (value : Value) :
    sumOver weight (Function.update family index value) + weight (family index) =
      sumOver weight family + weight value := by
  have moved : (fun other => weight (Function.update family index value other)) =
      Function.update (fun other => weight (family other)) index (weight value) := by
    funext other
    by_cases same : other = index
    · subst same
      simp
    · simp [same]
  rw [sumOver, sumOver, moved, Finset.sum_update_of_mem (Finset.mem_univ index),
    ← Finset.add_sum_erase _ _ (Finset.mem_univ index), Finset.sdiff_singleton_eq_erase]
  omega

theorem le_sumOver [DecidableEq Index] (weight : Value → Nat) (family : Index → Value)
    (index : Index) : weight (family index) ≤ sumOver weight family := by
  rw [sumOver, ← Finset.add_sum_erase _ _ (Finset.mem_univ index)]
  exact Nat.le_add_right _ _

theorem sumOver_eq_zero {weight : Value → Nat} {family : Index → Value}
    (none : ∀ index, weight (family index) = 0) : sumOver weight family = 0 := by
  simp [sumOver, none]

/-- The number of indices whose value satisfies the test. -/
def countWhere (test : Value → Bool) (family : Index → Value) : Nat :=
  ∑ index, (test (family index)).toNat

theorem countWhere_pos [DecidableEq Index] {test : Value → Bool} {family : Index → Value} {index : Index}
    (holds : test (family index) = true) : 0 < countWhere test family := by
  have single := le_sumOver (fun value => (test value).toNat) family index
  rw [holds] at single
  exact single

theorem countWhere_eq_zero {test : Value → Bool} {family : Index → Value}
    (none : ∀ index, test (family index) = false) : countWhere test family = 0 := by
  simp [countWhere, none]

/-- Changing one value moves the count by what the old and the new value contribute. -/
theorem countWhere_update [DecidableEq Index] (test : Value → Bool) (family : Index → Value)
    (index : Index) (value : Value) :
    countWhere test (Function.update family index value) + (test (family index)).toNat =
      countWhere test family + (test value).toNat :=
  sumOver_update (fun value => (test value).toNat) family index value

end Library
