import Exhy.Library.OrderedSet

/-!
# Multimaps as lists

A multimap is a list whose keys do not fall.  An item is inserted behind the items with an equal
key, as in `std::multimap`, so that these stay in the order in which they came.
-/

namespace Library

universe u v

variable {Item : Type u} {Key : Type v} [LinearOrder Key] {key : Item → Key}

section Sorted

variable {items : List Item} {test : Item → Bool}

/-- What holds up to some key is what holds of the items in front. -/
theorem takeWhile_eq_filter (sorted : items.Pairwise fun left right => key left ≤ key right)
    (closed : ∀ left right, key left ≤ key right → test right = true → test left = true) :
    items.takeWhile test = items.filter test := by
  induction items with
  | nil => rfl
  | cons first rest ih =>
      rw [List.pairwise_cons] at sorted
      cases passed : test first with
      | true => simp [passed, ih sorted.2]
      | false =>
          have none : rest.filter test = [] := by
            apply List.filter_eq_nil_iff.mpr
            intro item member passes
            rw [closed first item (sorted.1 item member) passes] at passed
            cases passed
          simp [passed, none]

theorem dropWhile_eq_filter (sorted : items.Pairwise fun left right => key left ≤ key right)
    (closed : ∀ left right, key left ≤ key right → test right = true → test left = true) :
    items.dropWhile test = items.filter fun item => !test item := by
  induction items with
  | nil => rfl
  | cons first rest ih =>
      rw [List.pairwise_cons] at sorted
      cases passed : test first with
      | true => simp [passed, ih sorted.2]
      | false =>
          have all : rest.filter (fun item => !test item) = rest := by
            apply List.filter_eq_self.mpr
            intro item member
            cases passes : test item with
            | true =>
                rw [closed first item (sorted.1 item member) passes] at passed
                cases passed
            | false => rfl
          simp [passed, all]

end Sorted

/-- The items in the order of their keys. -/
structure Multimap (key : Item → Key) where
  items : List Item
  sorted : items.Pairwise fun left right => key left ≤ key right

namespace Multimap

variable (map : Multimap key) (item : Item) (bound : Key)

def empty : Multimap key := ⟨[], .nil⟩

theorem takeUpTo_eq : takeUpTo key bound map.items = map.items.filter (key · ≤ bound) := by
  apply takeWhile_eq_filter map.sorted
  simp only [decide_eq_true_eq]
  exact fun _ _ => le_trans

theorem dropUpTo_eq :
    dropUpTo key bound map.items = map.items.filter fun item => !decide (key item ≤ bound) := by
  apply dropWhile_eq_filter map.sorted
  simp only [decide_eq_true_eq]
  exact fun _ _ => le_trans

theorem sorted_insert :
    (takeUpTo key (key item) map.items ++ item :: dropUpTo key (key item) map.items).Pairwise
      fun left right => key left ≤ key right := by
  have before : ∀ other ∈ takeUpTo key (key item) map.items, key other ≤ key item := by
    intro other member
    rw [takeUpTo_eq] at member
    simpa using (List.mem_filter.mp member).2
  have behind : ∀ other ∈ dropUpTo key (key item) map.items, key item ≤ key other := by
    intro other member
    rw [dropUpTo_eq] at member
    have greater : key item < key other := by simpa using (List.mem_filter.mp member).2
    exact le_of_lt greater
  apply List.pairwise_append.mpr
  refine ⟨map.sorted.sublist (List.takeWhile_sublist _), ?_, ?_⟩
  · exact List.pairwise_cons.mpr ⟨behind, map.sorted.sublist (List.dropWhile_sublist _)⟩
  · intro left inFront right member
    rcases List.mem_cons.mp member with rfl | later
    · exact before left inFront
    · exact le_trans (before left inFront) (behind right later)

/-- `insert(item)`, at the upper bound of the key. -/
def insert : Multimap key where
  items := takeUpTo key (key item) map.items ++ item :: dropUpTo key (key item) map.items
  sorted := map.sorted_insert item

/-- `equal_range(bound)` -/
def equalRange : List Item :=
  takeUpTo key bound (map.items.dropWhile (key · < bound))

theorem equalRange_eq : map.equalRange bound = map.items.filter (key · = bound) := by
  have dropped : map.items.dropWhile (key · < bound) =
      map.items.filter fun item => !decide (key item < bound) := by
    apply dropWhile_eq_filter map.sorted
    simp only [decide_eq_true_eq]
    exact fun _ _ => lt_of_le_of_lt
  have left : (map.items.dropWhile (key · < bound)).Pairwise
      fun left right => key left ≤ key right :=
    map.sorted.sublist (List.dropWhile_sublist _)
  have taken := takeUpTo_eq ⟨_, left⟩ bound
  dsimp only at taken
  rw [equalRange, taken, dropped, List.filter_filter]
  apply List.filter_congr
  intro item _
  rw [← decide_not, ← Bool.decide_and]
  apply decide_eq_decide.mpr
  rw [not_lt]
  exact le_antisymm_iff.symm

/-- Behind an insertion the item is the last one with its key. -/
theorem equalRange_insert : (map.insert item).equalRange bound =
    map.equalRange bound ++ if key item = bound then [item] else [] := by
  rw [equalRange_eq, equalRange_eq, insert, List.filter_append, List.filter_cons]
  by_cases same : key item = bound
  · have front : (takeUpTo key (key item) map.items).filter (key · = bound) =
        map.items.filter (key · = bound) := by
      rw [takeUpTo_eq, List.filter_filter]
      apply List.filter_congr
      intro other _
      simp only [same, Bool.and_eq_left_iff_imp, decide_eq_true_eq]
      exact le_of_eq
    have later : (dropUpTo key (key item) map.items).filter (key · = bound) = [] := by
      rw [dropUpTo_eq, List.filter_filter]
      apply List.filter_eq_nil_iff.mpr
      intro other _
      simp only [Bool.and_eq_true, decide_eq_true_eq, not_and, ← same, Bool.not_eq_true,
        Bool.not_eq_false']
      exact le_of_eq
    rw [front, later, if_pos (decide_eq_true same), if_pos same]
  · rw [if_neg (by simpa using same), if_neg same, List.append_nil, ← List.filter_append,
      takeUpTo, dropUpTo, List.takeWhile_append_dropWhile]

/-- The items with a key are those that were inserted with it, in the order of the insertions. -/
theorem equalRange_foldl (items : List Item) : (items.foldl insert map).equalRange bound =
    map.equalRange bound ++ items.filter (key · = bound) := by
  induction items generalizing map with
  | nil => rw [List.foldl_nil, List.filter_nil, List.append_nil]
  | cons first rest ih =>
      rw [List.foldl_cons, ih, equalRange_insert, List.filter_cons, List.append_assoc]
      by_cases same : key first = bound
      · simp [same]
      · simp [same]

theorem items_insert_ne_nil : (map.insert item).items ≠ [] := by
  rw [insert]
  exact List.append_ne_nil_of_right_ne_nil _ (by simp)

theorem isEmpty_foldl (items : List Item) :
    (items.foldl insert map).items.isEmpty = (map.items.isEmpty && items.isEmpty) := by
  induction items generalizing map with
  | nil => simp
  | cons first rest ih =>
      rw [List.foldl_cons, ih, List.isEmpty_cons, Bool.and_false,
        List.isEmpty_eq_false_iff.mpr (map.items_insert_ne_nil first), Bool.false_and]

end Multimap

end Library
