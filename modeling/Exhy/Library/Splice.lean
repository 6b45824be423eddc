import Mathlib.Data.List.Basic

/-!
# Overwriting a stretch of a list

`splice dst start src` is the list `dst` after `src` has been copied over the
elements from `start` on, as `memcpy` does to memory.  The lemmas say which
elements change and how the operation distributes over an append.
-/

namespace Library

variable {α : Type*}

/-- `dst` with the elements from `start` on replaced by those of `src`. -/
def splice (dst : List α) (start : Nat) (src : List α) : List α :=
  dst.take start ++ src ++ dst.drop (start + src.length)

@[simp] theorem splice_nil (dst : List α) (start : Nat) :
    splice dst start [] = dst := by
  simp [splice]

theorem splice_length {dst src : List α} {start : Nat}
    (fits : start + src.length ≤ dst.length) :
    (splice dst start src).length = dst.length := by
  simp only [splice, List.length_append, List.length_take, List.length_drop]
  omega

/-- Elements inside the stretch come from the source. -/
theorem getElem?_splice_inside {dst src : List α} {start index : Nat}
    (fits : start + src.length ≤ dst.length) (inside : index < src.length) :
    (splice dst start src)[start + index]? = src[index]? := by
  have startLe : start ≤ dst.length := by omega
  have takeLength : (dst.take start).length = start := by simp [startLe]
  rw [splice, List.append_assoc, List.getElem?_append_right (by omega), takeLength,
    Nat.add_sub_cancel_left, List.getElem?_append_left inside]

/-- Elements outside the stretch are untouched. -/
theorem getElem?_splice_outside {dst src : List α} {start index : Nat}
    (fits : start + src.length ≤ dst.length)
    (outside : index < start ∨ start + src.length ≤ index) :
    (splice dst start src)[index]? = dst[index]? := by
  have takeLength : (dst.take start).length = start := by
    rw [List.length_take]
    omega
  rcases outside with before | after
  · rw [splice, List.append_assoc, List.getElem?_append_left (by omega)]
    exact List.getElem?_take_of_lt before
  · rw [splice, List.getElem?_append_right (by simp [takeLength, after]),
      List.getElem?_drop]
    congr 1
    simp only [List.length_append, takeLength]
    omega

/-- A stretch inside the left part of an append leaves the right part alone. -/
theorem splice_append_left {left right src : List α} {start : Nat}
    (fits : start + src.length ≤ left.length) :
    splice (left ++ right) start src = splice left start src ++ right := by
  rw [splice, splice, List.take_append_of_le_length (by omega),
    List.drop_append_of_le_length fits]
  simp [List.append_assoc]

/-- A stretch inside the right part of an append leaves the left part alone. -/
theorem splice_append_right {left right src : List α} {start : Nat}
    (behind : left.length ≤ start) :
    splice (left ++ right) start src = left ++ splice right (start - left.length) src := by
  have rest : start + src.length - left.length = start - left.length + src.length := by omega
  rw [splice, splice, List.take_append, List.take_of_length_le behind, List.drop_append,
    List.drop_eq_nil_of_le (by omega), rest]
  simp [List.append_assoc]

/-- A stretch that crosses the seam of an append is two stretches: one to the end
of the left part and one from the beginning of the right part. -/
theorem splice_append_across {left right src : List α} {start : Nat}
    (startLe : start ≤ left.length) (crosses : left.length ≤ start + src.length) :
    splice (left ++ right) start src =
      splice left start (src.take (left.length - start)) ++
        splice right 0 (src.drop (left.length - start)) := by
  have leftDone : left.drop (start + (src.take (left.length - start)).length) = [] := by
    apply List.drop_eq_nil_of_le
    rw [List.length_take]
    omega
  have rightDone :
      (left ++ right).drop (start + src.length) =
        right.drop (src.drop (left.length - start)).length := by
    rw [List.drop_append, List.drop_eq_nil_of_le crosses, List.nil_append,
      List.length_drop]
    congr 1
    omega
  rw [splice, rightDone, List.take_append_of_le_length startLe]
  simp only [splice, leftDone, List.append_nil, List.take_zero, List.nil_append,
    Nat.zero_add, List.append_assoc]
  rw [← List.append_assoc (src.take _), List.take_append_drop]

/-- A stretch right behind another one. -/
theorem splice_splice {dst first second : List α} {start : Nat} (startLe : start ≤ dst.length) :
    splice (splice dst start first) (start + first.length) second =
      splice dst start (first ++ second) := by
  have front : (dst.take start ++ first).length = start + first.length := by
    rw [List.length_append, List.length_take, Nat.min_eq_left startLe]
  have behind : start + first.length + second.length - (start + first.length) = second.length := by
    omega
  have done : (dst.take start ++ first).drop (start + first.length + second.length) = [] :=
    List.drop_eq_nil_of_le (by omega)
  rw [splice, splice, splice, List.take_append_of_le_length (by omega), ← front, List.take_length,
    front, List.drop_append, done, front, behind, List.drop_drop, List.nil_append, List.length_append,
    ← Nat.add_assoc]
  simp only [List.append_assoc]

end Library
