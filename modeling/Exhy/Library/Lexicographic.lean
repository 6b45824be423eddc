import Mathlib.Data.List.Lex
import Mathlib.Order.Basic

/-!
# Comparing bytes

`memcmp` on two texts, and the order in which a text is in front of those that it begins.
-/

namespace Library

/-- The sign of the result alone is documented. -/
def memcmp : List UInt8 → List UInt8 → Int
  | first :: left, second :: right =>
      if first = second then memcmp left right else if first < second then -1 else 1
  | _, _ => 0

/-- The bytes as numbers, in the lexicographic order. -/
def numbers (bytes : List UInt8) : List Nat := bytes.map UInt8.toNat

theorem numbers_inj {left right : List UInt8} : numbers left = numbers right ↔ left = right := by
  have injective : Function.Injective (List.map UInt8.toNat) :=
    List.map_injective_iff.mpr fun _ _ => UInt8.toNat_inj.mp
  exact injective.eq_iff

variable {left right : List UInt8}

theorem memcmp_cons (first second : UInt8) (left right : List UInt8) :
    memcmp (first :: left) (second :: right) =
      if first = second then memcmp left right else if first < second then -1 else 1 := rfl

theorem memcmp_nil_left (right : List UInt8) : memcmp [] right = 0 := by cases right <;> rfl

theorem memcmp_nil_right (left : List UInt8) : memcmp left [] = 0 := by cases left <;> rfl

/-- Nothing is compared behind the shorter one. -/
theorem memcmp_take (left right : List UInt8) :
    memcmp (left.take (min left.length right.length)) (right.take (min left.length right.length)) =
      memcmp left right := by
  induction left generalizing right with
  | nil => simp [memcmp_nil_left]
  | cons first left ih =>
      cases right with
      | nil => simp [memcmp_nil_right]
      | cons second right =>
          simp only [List.length_cons, Nat.add_min_add_right, List.take_succ_cons, memcmp_cons, ih]

theorem memcmp_self (bytes : List UInt8) : memcmp bytes bytes = 0 := by
  induction bytes with
  | nil => rfl
  | cons first rest ih => rw [memcmp_cons, if_pos rfl, ih]

theorem eq_of_memcmp (same : left.length = right.length) (equal : memcmp left right = 0) :
    left = right := by
  induction left generalizing right with
  | nil => exact (List.length_eq_zero_iff.mp same.symm).symm
  | cons first left ih =>
      cases right with
      | nil => cases same
      | cons second right =>
          rw [memcmp_cons] at equal
          split at equal
          · rename_i here
            rw [here, ih (Nat.succ.inj same) equal]
          · split at equal <;> cases equal

/-- The bytes in front decide, and behind them the lengths. -/
theorem memcmp_lt_iff (left right : List UInt8) :
    (memcmp left right < 0 ∨ memcmp left right = 0 ∧ left.length < right.length) ↔
      numbers left < numbers right := by
  induction left generalizing right with
  | nil =>
      cases right with
      | nil => simp [memcmp_nil_left, numbers]
      | cons second right => simp [memcmp_nil_left, numbers]
  | cons first left ih =>
      cases right with
      | nil => simp [memcmp_nil_right, numbers]
      | cons second right =>
          have order : numbers (first :: left) < numbers (second :: right) ↔
              first < second ∨ first = second ∧ numbers left < numbers right := by
            rw [numbers, numbers, List.map_cons, List.map_cons, List.cons_lt_cons_iff,
              UInt8.toNat_inj, UInt8.lt_iff_toNat_lt]
            rfl
          rw [order, ← ih, memcmp_cons, List.length_cons, List.length_cons]
          by_cases here : first = second
          · have notLess : ¬first < second := by
              rw [here]
              exact UInt8.lt_irrefl _
            simp [here]
          · by_cases less : first < second
            · simp [here, less]
            · simp [here, less]

end Library
