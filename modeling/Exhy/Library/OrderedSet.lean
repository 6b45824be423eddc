import Mathlib.Order.Basic
import Mathlib.Order.Lattice
import Mathlib.Data.List.TakeWhile

/-!
# Ordered sets as lists

A set ordered by a key is a list with strictly increasing keys.  Insertion leaves an
element with an equal key in place, as `std::set` does.
-/

namespace Library

universe u v

variable {Item : Type u} {Key : Type v} [LinearOrder Key]

def Ordered (key : Item → Key) (items : List Item) : Prop :=
  items.Pairwise fun left right => key left < key right

def insertBy (key : Item → Key) (item : Item) : List Item → List Item
  | [] => [item]
  | first :: rest =>
      if key item < key first then item :: first :: rest
      else if key first < key item then first :: insertBy key item rest
      else first :: rest

/-- The element with the item's key. -/
def findBy (key : Item → Key) (item : Item) (items : List Item) : Option Item :=
  items.find? fun other => key other = key item

def eraseBy (key : Item → Key) (item : Item) (items : List Item) : List Item :=
  items.eraseP fun other => key other = key item

/-- The elements up to and including the bound. -/
def takeUpTo (key : Item → Key) (bound : Key) (items : List Item) : List Item :=
  items.takeWhile fun item => key item ≤ bound

def dropUpTo (key : Item → Key) (bound : Key) (items : List Item) : List Item :=
  items.dropWhile fun item => key item ≤ bound

variable {key : Item → Key} {item other : Item} {items : List Item}

theorem insertBy_nil : insertBy key item [] = [item] := rfl

theorem insertBy_cons (first : Item) (rest : List Item) : insertBy key item (first :: rest) =
    if key item < key first then item :: first :: rest
    else if key first < key item then first :: insertBy key item rest
    else first :: rest := rfl

theorem mem_insertBy (member : other ∈ insertBy key item items) : other = item ∨ other ∈ items := by
  induction items with
  | nil => exact .inl (List.mem_singleton.mp member)
  | cons first rest ih =>
      rw [insertBy_cons] at member
      split at member
      · exact List.mem_cons.mp member
      · split at member
        · rcases List.mem_cons.mp member with rfl | inRest
          · exact .inr (by simp)
          · rcases ih inRest with here | there
            · exact .inl here
            · exact .inr (by simp [there])
        · exact .inr member

theorem mem_insertBy_of_mem (member : other ∈ items) : other ∈ insertBy key item items := by
  induction items with
  | nil => cases member
  | cons first rest ih =>
      rw [insertBy_cons]
      split
      · exact List.mem_cons_of_mem _ member
      · split
        · rcases List.mem_cons.mp member with rfl | inRest
          · simp
          · exact List.mem_cons_of_mem _ (ih inRest)
        · exact member

/-- An item whose key is new is in the set after its insertion. -/
theorem mem_insertBy_self (fresh : ∀ other ∈ items, key other ≠ key item) :
    item ∈ insertBy key item items := by
  induction items with
  | nil => exact List.mem_singleton.mpr rfl
  | cons first rest ih =>
      rw [insertBy_cons]
      split
      · simp
      next notBefore =>
        have before : key first < key item :=
          lt_of_le_of_ne (not_lt.mp notBefore) (fresh first (by simp))
        rw [if_pos before]
        exact List.mem_cons_of_mem _ (ih fun other member => fresh other (by simp [member]))

/-- The insertion leaves an element with the item's key. -/
theorem exists_mem_insertBy (key : Item → Key) (item : Item) (items : List Item) :
    ∃ other ∈ insertBy key item items, key other = key item := by
  induction items with
  | nil => exact ⟨item, List.mem_singleton.mpr rfl, rfl⟩
  | cons first rest ih =>
      rw [insertBy_cons]
      split
      · exact ⟨item, List.mem_cons_self, rfl⟩
      next notBefore =>
        split
        · obtain ⟨other, member, same⟩ := ih
          exact ⟨other, List.mem_cons_of_mem _ member, same⟩
        next notAfter =>
          exact ⟨first, List.mem_cons_self, le_antisymm (not_lt.mp notBefore) (not_lt.mp notAfter)⟩

/-- A search that the item does not end is not disturbed by its insertion. -/
theorem find?_insertBy {ends : Item → Bool} (goesOn : ends item = false) :
    (insertBy key item items).find? ends = items.find? ends := by
  induction items with
  | nil => rw [insertBy_nil, List.find?_cons, goesOn]
  | cons first rest ih =>
      rw [insertBy_cons]
      split
      · rw [List.find?_cons, goesOn]
      · split
        · rw [List.find?_cons, List.find?_cons, ih]
        · rfl

theorem Ordered.insertBy (ordered : Ordered key items) :
    Ordered key (insertBy key item items) := by
  induction items with
  | nil => exact List.pairwise_singleton _ _
  | cons first rest ih =>
      have tail : Ordered key rest := List.Pairwise.of_cons ordered
      have heads : ∀ other ∈ rest, key first < key other := fun _ =>
        List.rel_of_pairwise_cons ordered
      rw [insertBy_cons]
      split
      next before =>
        refine List.Pairwise.cons (fun other member => ?_) ordered
        rcases List.mem_cons.mp member with rfl | inRest
        · exact before
        · exact lt_trans before (heads _ inRest)
      · split
        next after =>
          refine List.Pairwise.cons (fun other member => ?_) (ih tail)
          rcases mem_insertBy member with rfl | inRest
          · exact after
          · exact heads _ inRest
        · exact ordered

/-- Insertion puts the item in front or leaves the first element in front. -/
theorem head?_insertBy (key : Item → Key) (item : Item) (items : List Item) :
    (insertBy key item items).head? = some item ∨
      (insertBy key item items).head? = items.head? := by
  cases items with
  | nil => exact .inl rfl
  | cons first rest =>
      rw [insertBy_cons]
      split
      · exact .inl rfl
      · split <;> exact .inr rfl

theorem Ordered.head_le (ordered : Ordered key items) {first : Item}
    (head : items.head? = some first) (member : other ∈ items) : key first ≤ key other := by
  cases items with
  | nil => cases head
  | cons front rest =>
      cases head
      rcases List.mem_cons.mp member with rfl | inRest
      · exact le_refl _
      · exact le_of_lt (List.rel_of_pairwise_cons ordered inRest)

theorem Ordered.eraseBy (ordered : Ordered key items) : Ordered key (eraseBy key item items) :=
  List.Pairwise.sublist (List.eraseP_sublist ..) ordered

theorem mem_of_mem_eraseBy (member : other ∈ eraseBy key item items) : other ∈ items :=
  List.mem_of_mem_eraseP member

/-- Erasing takes out exactly the item. -/
theorem Ordered.mem_eraseBy_iff (ordered : Ordered key items) (member : item ∈ items) :
    other ∈ Library.eraseBy key item items ↔ other ∈ items ∧ other ≠ item := by
  induction items with
  | nil => cases member
  | cons first rest ih =>
      have tail : Ordered key rest := List.Pairwise.of_cons ordered
      have heads : ∀ other ∈ rest, key first < key other := fun _ =>
        List.rel_of_pairwise_cons ordered
      rcases List.mem_cons.mp member with rfl | inRest
      · rw [Library.eraseBy, List.eraseP_cons_of_pos (by simp)]
        constructor
        · intro inRest
          refine ⟨List.mem_cons_of_mem _ inRest, ?_⟩
          rintro rfl
          exact lt_irrefl _ (heads _ inRest)
        · rintro ⟨inItems, different⟩
          exact (List.mem_cons.mp inItems).resolve_left different
      · have before := heads _ inRest
        rw [Library.eraseBy, List.eraseP_cons_of_neg (by simpa using ne_of_lt before)]
        have inTail := ih tail inRest
        rw [Library.eraseBy] at inTail
        rw [List.mem_cons, List.mem_cons, inTail]
        constructor
        · rintro (rfl | ⟨inItems, different⟩)
          · exact ⟨.inl rfl, fun same => ne_of_lt before (congrArg key same)⟩
          · exact ⟨.inr inItems, different⟩
        · rintro ⟨rfl | inItems, different⟩
          · exact .inl rfl
          · exact .inr ⟨inItems, different⟩

theorem Ordered.congr {keyToo : Item → Key} (ordered : Ordered key items)
    (same : ∀ item ∈ items, keyToo item = key item) : Ordered keyToo items := by
  refine List.Pairwise.imp_of_mem (fun inLeft inRight before => ?_) ordered
  rwa [same _ inLeft, same _ inRight]

theorem Ordered.nodup (ordered : Ordered key items) : items.Nodup := by
  refine List.Pairwise.imp (fun before same => ?_) ordered
  exact ne_of_lt before (congrArg key same)

theorem takeUpTo_append_dropUpTo (key : Item → Key) (bound : Key) (items : List Item) :
    takeUpTo key bound items ++ dropUpTo key bound items = items :=
  List.takeWhile_append_dropWhile

theorem le_of_mem_takeUpTo {bound : Key} (member : item ∈ takeUpTo key bound items) :
    key item ≤ bound := by
  have taken := List.mem_takeWhile_imp member
  rwa [decide_eq_true_eq] at taken

/-- In an ordered set the items up to a bound are its first part. -/
theorem Ordered.mem_takeUpTo_iff (ordered : Ordered key items) {bound : Key} :
    item ∈ takeUpTo key bound items ↔ item ∈ items ∧ key item ≤ bound := by
  induction items with
  | nil => simp [takeUpTo]
  | cons first rest ih =>
      rw [Ordered, List.pairwise_cons] at ordered
      have onward := ih ordered.2
      rw [takeUpTo] at onward ⊢
      by_cases upTo : key first ≤ bound
      · rw [List.takeWhile_cons, if_pos (decide_eq_true upTo), List.mem_cons, List.mem_cons, onward]
        constructor
        · rintro (rfl | ⟨member, inside⟩)
          · exact ⟨.inl rfl, upTo⟩
          · exact ⟨.inr member, inside⟩
        · rintro ⟨rfl | member, inside⟩
          · exact .inl rfl
          · exact .inr ⟨member, inside⟩
      · rw [List.takeWhile_cons, if_neg (by rwa [decide_eq_true_eq])]
        refine iff_of_false List.not_mem_nil ?_
        rintro ⟨member, inside⟩
        rcases List.mem_cons.mp member with rfl | later
        · exact upTo inside
        · exact upTo (le_trans (le_of_lt (ordered.1 item later)) inside)

/-- Splitting at a bound leaves nothing on both sides. -/
theorem Ordered.takeUpTo_spec (ordered : Ordered key items) (bound : Key) :
    (takeUpTo key bound items).Nodup ∧
      ∀ item ∈ takeUpTo key bound items, item ∉ dropUpTo key bound items := by
  have parts := takeUpTo_append_dropUpTo key bound items
  have nodup := ordered.nodup
  rw [← parts, List.nodup_append] at nodup
  exact ⟨nodup.1, fun item taken dropped => nodup.2.2 item taken item dropped rfl⟩

theorem Ordered.dropUpTo {bound : Key} (ordered : Ordered key items) :
    Ordered key (dropUpTo key bound items) :=
  List.Pairwise.sublist (List.dropWhile_sublist _) ordered

end Library
