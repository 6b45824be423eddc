import Exhy.Config.Fields
import Exhy.Config.Listeners
import Mathlib.Data.List.Forall2
import Mathlib.Data.List.Lex
import Mathlib.Data.UInt

/-!
# Casts of containers

The `LexicalCast`s of `exhy_config.h` between containers and texts, and which values are read back
from what they are printed as, for containers in containers.  The library that loads and prints the
documents is a parameter.
-/

namespace Exhy.Config

open Library

/-- The casts between a type and texts, which give none where they throw, and its `==`. -/
structure LexicalCast (T : Type) where
  ofText : Bytes → Option T
  toText : T → Option Bytes
  equal : T → T → Bool

variable {T : Type} (yaml : Yaml)

/-- What `ss << node[i]` prints for each `i` below `node.size()`, which is nothing for one that is
not defined. -/
def Node.texts : Node → List Bytes
  | .null | .scalar _ => []
  | .sequence items => items.map yaml.emit
  | .map entries =>
      (List.range entries.length).map fun i =>
        ((entries.find? fun entry => yaml.toIndex entry.1 = some i).map
          fun entry => yaml.emit entry.2).getD []

/-- What the loops over the entries of a node read; none where one throws, as the first entry of
a sequence does, which has no key. -/
def Node.readEntries (ofText : Bytes → Option T) : Node → Option (List (Bytes × T))
  | .null | .scalar _ | .sequence [] => some []
  | .sequence (_ :: _) => none
  | .map entries => entries.mapM fun it => (ofText (yaml.emit it.2)).map (it.1, ·)

/-! ## Containers -/

/-- `insert` of a set, ordered by `less`. -/
def insertOrdered (less : T → T → Bool) (item : T) : List T → List T
  | [] => [item]
  | first :: later =>
      if less item first then item :: first :: later
      else if less first item then first :: insertOrdered less item later
      else first :: later

/-- `insert` of a hash table, which puts a new item at a place of its own. -/
def insertHashed (same : T → T → Bool) (place : List T → T → Nat) (item : T) (items : List T) :
    List T :=
  if items.any (same item) then items
  else items.take (place items item) ++ item :: items.drop (place items item)

/-- `==` of two sequences. -/
def equalSequence (equal : T → T → Bool) : List T → List T → Bool
  | [], [] => true
  | left :: lefts, right :: rights => equal left right && equalSequence equal lefts rights
  | [], _ :: _ | _ :: _, [] => false

/-- `==` of two hash tables. -/
def equalHashed (equal : T → T → Bool) (left right : List T) : Bool :=
  left.length = right.length && left.all fun item => right.any (equal item)

namespace LexicalCast

variable (cast : LexicalCast T)

/-- The node that the cast of a container loads for an item. -/
def toNode (value : T) : Option Node := do (yaml.load (← cast.toText value)).toOption

/-- The loop of the casts from a text, with the items in their order. -/
def readSequence (v : Bytes) : Option (List T) := do
  ((← (yaml.load v).toOption).texts yaml).mapM cast.ofText

/-- The loop of the casts to a text.  A new node prints nothing before an item is pushed. -/
def printSequence (v : List T) : Option Bytes := do
  let items ← v.mapM (cast.toNode yaml)
  return if items.isEmpty then [] else yaml.emit (.sequence items)

def readMap (v : Bytes) : Option (List (Bytes × T)) := do
  (← (yaml.load v).toOption).readEntries yaml cast.ofText

def entryNode (i : Bytes × T) : Option (Bytes × Node) := (cast.toNode yaml i.2).map (i.1, ·)

def printMap (v : List (Bytes × T)) : Option Bytes := do
  return yaml.emit (.map (← v.mapM (cast.entryNode yaml)))

/-- The casts of `std::vector<T>`. -/
def vector : LexicalCast (List T) where
  ofText := cast.readSequence yaml
  toText := cast.printSequence yaml
  equal := equalSequence cast.equal

/-- The casts of `std::list<T>`. -/
def list : LexicalCast (List T) where
  ofText := cast.readSequence yaml
  toText := cast.printSequence yaml
  equal := equalSequence cast.equal

/-- The casts of `std::set<T>`, which is the list of its items in their order. -/
def set (less : T → T → Bool) : LexicalCast (List T) where
  ofText v := (cast.readSequence yaml v).map fun items =>
    items.foldl (fun st i => insertOrdered less i st) []
  toText := cast.printSequence yaml
  equal := equalSequence cast.equal

/-- The casts of `std::unordered_set<T>`, which is the list of its items as the loops go over
them. -/
def unordered_set (place : List T → T → Nat) : LexicalCast (List T) where
  ofText v := (cast.readSequence yaml v).map fun items =>
    items.foldl (fun st i => insertHashed cast.equal place i st) []
  toText := cast.printSequence yaml
  equal := equalHashed cast.equal

/-- The `==` of two entries of a map. -/
def equalEntry (left right : Bytes × T) : Bool := left.1 = right.1 && cast.equal left.2 right.2

def lessKey (left right : Bytes × T) : Bool := left.1 < right.1

def sameKey (left right : Bytes × T) : Bool := left.1 = right.1

/-- The casts of `std::map<std::string, T>`. -/
def map : LexicalCast (List (Bytes × T)) where
  ofText v := (cast.readMap yaml v).map fun entries =>
    entries.foldl (fun mp i => insertOrdered lessKey i mp) []
  toText := cast.printMap yaml
  equal := equalSequence cast.equalEntry

/-- The casts of `std::unordered_map<std::string, T>`. -/
def unordered_map (place : List (Bytes × T) → Bytes × T → Nat) : LexicalCast (List (Bytes × T)) where
  ofText v := (cast.readMap yaml v).map fun entries =>
    entries.foldl (fun ump i => insertHashed sameKey place i ump) []
  toText := cast.printMap yaml
  equal := equalHashed cast.equalEntry

/-- The casts of `std::string`, which change nothing. -/
def string : LexicalCast Bytes where
  ofText := some
  toText := some
  equal left right := left = right

end LexicalCast

/-! ## What insertion leaves -/

section Insertion

variable {less same : T → T → Bool} {place : List T → T → Nat} {items later : List T} {item : T}

/-- An item behind all others is put at the end. -/
theorem insertOrdered_last (strict : ∀ left right, less left right → ¬less right left)
    (last : ∀ other ∈ items, less other item) : insertOrdered less item items = items ++ [item] := by
  induction items with
  | nil => rfl
  | cons first others ih =>
      rw [List.forall_mem_cons] at last
      rw [insertOrdered, if_neg (strict _ _ last.1), if_pos last.1, ih last.2, List.cons_append]

/-- Items in their order make the set that they are. -/
theorem foldl_insertOrdered (strict : ∀ left right, less left right → ¬less right left)
    (ascending : (items ++ later).Pairwise fun left right => less left right) :
    later.foldl (fun st i => insertOrdered less i st) items = items ++ later := by
  induction later generalizing items with
  | nil => rw [List.foldl_nil, List.append_nil]
  | cons item later ih =>
      have before : ∀ other ∈ items, less other item := fun other member =>
        (List.pairwise_append.mp ascending).2.2 other member item List.mem_cons_self
      rw [List.append_cons] at ascending
      rw [List.foldl_cons, insertOrdered_last strict before, ih ascending, ← List.append_cons]

theorem mem_insertOrdered {other : T} (member : other ∈ insertOrdered less item items) :
    other = item ∨ other ∈ items := by
  induction items with
  | nil => exact .inl (List.mem_singleton.mp member)
  | cons first later ih =>
      rw [insertOrdered] at member
      split at member
      · exact List.mem_cons.mp member
      · split at member
        · rcases List.mem_cons.mp member with rfl | further
          · exact .inr List.mem_cons_self
          · exact (ih further).imp id (List.mem_cons_of_mem first)
        · exact .inr member

/-- A set stays in its order. -/
theorem pairwise_insertOrdered
    (transitive : ∀ left middle right, less left middle → less middle right → less left right)
    (ascending : items.Pairwise fun left right => less left right) :
    (insertOrdered less item items).Pairwise fun left right => less left right := by
  induction items with
  | nil => exact List.pairwise_singleton ..
  | cons first later ih =>
      have behind := List.pairwise_cons.mp ascending
      rw [insertOrdered]
      split
      next before =>
        rw [List.pairwise_cons, List.forall_mem_cons]
        refine ⟨⟨before, ?_⟩, ascending⟩
        exact fun other member => transitive _ _ _ before (behind.1 other member)
      next =>
        split
        next after =>
          rw [List.pairwise_cons]
          refine ⟨?_, ih behind.2⟩
          intro other member
          rcases mem_insertOrdered member with rfl | further
          · exact after
          · exact behind.1 other further
        next => exact ascending

theorem insertHashed_perm (fresh : ∀ other ∈ items, same item other = false) :
    (insertHashed same place item items).Perm (items ++ [item]) := by
  have absent : ¬items.any (same item) := by
    rw [List.any_eq_true]
    rintro ⟨other, member, isSame⟩
    rw [fresh other member] at isSame
    cases isSame
  rw [insertHashed, if_neg absent]
  have split : item :: (items.take (place items item) ++ items.drop (place items item)) =
      item :: items := by rw [List.take_append_drop]
  have moved := split ▸ @List.perm_middle _ item (items.take (place items item))
    (items.drop (place items item))
  exact moved.trans (List.perm_append_singleton item items).symm

/-- Different items make a table of all of them. -/
theorem foldl_insertHashed (symmetric : ∀ left right, same left right = same right left)
    (distinct : (items ++ later).Pairwise fun left right => same left right = false) :
    (later.foldl (fun st i => insertHashed same place i st) items).Perm (items ++ later) := by
  induction later generalizing items with
  | nil => simp
  | cons item later ih =>
      have fresh : ∀ other ∈ items, same item other = false := by
        intro other member
        rw [symmetric]
        exact (List.pairwise_append.mp distinct).2.2 other member item List.mem_cons_self
      have inserted := @insertHashed_perm _ _ place _ _ fresh
      rw [List.append_cons] at distinct ⊢
      have next : (insertHashed same place item items ++ later).Perm (items ++ [item] ++ later) :=
        inserted.append_right later
      rw [List.foldl_cons]
      refine (ih ?_).trans next
      exact (next.pairwise_iff fun {left right} apart => (symmetric right left).trans apart).mpr
        distinct

end Insertion

section Equal

variable {equal : T → T → Bool} {left right : List T}

theorem equalSequence_iff :
    equalSequence equal left right ↔ List.Forall₂ (fun x y => equal x y) left right := by
  induction left generalizing right with
  | nil => cases right <;> simp [equalSequence]
  | cons first later ih => cases right <;> simp [equalSequence, ih]

theorem exists_partner {Related : T → T → Prop} (pairs : List.Forall₂ Related left right) {item : T}
    (member : item ∈ left) : ∃ other ∈ right, Related item other := by
  induction pairs with
  | nil => cases member
  | @cons first other lefts rights related _ ih =>
      rcases List.mem_cons.mp member with rfl | further
      · exact ⟨other, List.mem_cons_self, related⟩
      · obtain ⟨partner, inside, isRelated⟩ := ih further
        exact ⟨partner, List.mem_cons_of_mem _ inside, isRelated⟩

/-- Tables are equal where their items are in some order. -/
theorem equalHashed_of_perm {ordered : List T}
    (pairs : List.Forall₂ (fun x y => equal x y) ordered right) (perm : left.Perm ordered) :
    equalHashed equal left right := by
  simp only [equalHashed, Bool.and_eq_true, decide_eq_true_eq, List.all_eq_true, List.any_eq_true]
  constructor
  · rw [perm.length_eq]
    exact pairs.length_eq
  · intro item member
    exact exists_partner pairs (perm.mem_iff.mp member)

end Equal

/-! ## What is read back -/

/-- A new node prints nothing, and a null is printed as one. -/
structure Yaml.Blank (yaml : Yaml) : Prop where
  fresh : yaml.load [] = .ok .null
  null : yaml.load (yaml.emit .null) = .ok .null

/-- The node is loaded as it was printed. -/
def Yaml.Inverts (yaml : Yaml) (node : Node) : Prop := yaml.load (yaml.emit node) = .ok node

namespace LexicalCast

variable (cast : LexicalCast T)

/-- The text is read as a value that is equal to this one. -/
def Reads (text : Bytes) (value : T) : Prop :=
  ∃ read, cast.ofText text = some read ∧ cast.equal read value

/-- A value is read back from its text, and from what its text is printed as in a document. -/
def Kept (value : T) : Prop :=
  ∃ text node, cast.toText value = some text ∧ yaml.load text = .ok node ∧
    cast.Reads text value ∧ cast.Reads (yaml.emit node) value

variable {yaml cast}

theorem Kept.toNode {value : T} (kept : cast.Kept yaml value) :
    ∃ node, cast.toNode yaml value = some node ∧ cast.Reads (yaml.emit node) value := by
  obtain ⟨text, node, printed, loaded, -, reads⟩ := kept
  refine ⟨node, ?_, reads⟩
  simp [LexicalCast.toNode, printed, loaded, Except.toOption]

section Sequence

variable {items : List T}

theorem nodes_kept (kept : ∀ item ∈ items, cast.Kept yaml item) :
    ∃ nodes reads, items.mapM (cast.toNode yaml) = some nodes ∧
      (nodes.map yaml.emit).mapM cast.ofText = some reads ∧
      List.Forall₂ (fun read item => cast.equal read item) reads items := by
  induction items with
  | nil => exact ⟨[], [], rfl, rfl, .nil⟩
  | cons item later ih =>
      rw [List.forall_mem_cons] at kept
      obtain ⟨node, isNode, read, isRead, isEqual⟩ := kept.1.toNode
      obtain ⟨nodes, reads, areNodes, areRead, pairs⟩ := ih kept.2
      refine ⟨node :: nodes, read :: reads, ?_, ?_, .cons isEqual pairs⟩
      · simp [isNode, areNodes]
      · simp [isRead, areRead]

theorem readSequence_of_load {v : Bytes} {node : Node} (loaded : yaml.load v = .ok node) :
    cast.readSequence yaml v = (node.texts yaml).mapM cast.ofText := by
  simp [readSequence, loaded, Except.toOption]

/-- Items that are kept are read back one by one. -/
theorem sequence_kept (blank : yaml.Blank) (kept : ∀ item ∈ items, cast.Kept yaml item)
    (inverts : ∀ nodes, items.mapM (cast.toNode yaml) = some nodes →
      yaml.Inverts (.sequence nodes)) :
    ∃ text node reads, cast.printSequence yaml items = some text ∧ yaml.load text = .ok node ∧
      cast.readSequence yaml text = some reads ∧
      cast.readSequence yaml (yaml.emit node) = some reads ∧
      List.Forall₂ (fun read item => cast.equal read item) reads items := by
  obtain ⟨nodes, reads, areNodes, areRead, pairs⟩ := nodes_kept kept
  cases nodes with
  | nil =>
      refine ⟨[], .null, reads, ?_, blank.fresh, ?_, ?_, pairs⟩
      · simp [printSequence, areNodes]
      · rw [readSequence_of_load blank.fresh]
        exact areRead
      · rw [readSequence_of_load blank.null]
        exact areRead
  | cons node others =>
      have loaded := inverts _ areNodes
      refine ⟨_, .sequence (node :: others), reads, ?_, loaded, ?_, ?_, pairs⟩
      · simp [printSequence, areNodes]
      · rw [readSequence_of_load loaded]
        exact areRead
      · rw [readSequence_of_load loaded]
        exact areRead

/-- A container is kept whose cast makes a container of the items that are read. -/
theorem kept_of_sequence {container : LexicalCast (List T)} {finish : List T → List T}
    (blank : yaml.Blank) (kept : ∀ item ∈ items, cast.Kept yaml item)
    (inverts : ∀ nodes, items.mapM (cast.toNode yaml) = some nodes →
      yaml.Inverts (.sequence nodes))
    (prints : container.toText items = cast.printSequence yaml items)
    (reads : ∀ v, container.ofText v = (cast.readSequence yaml v).map finish)
    (finishes : ∀ reads, List.Forall₂ (fun read item => cast.equal read item) reads items →
      container.equal (finish reads) items) : container.Kept yaml items := by
  obtain ⟨text, node, values, printed, loaded, first, second, pairs⟩ :=
    sequence_kept blank kept inverts
  refine ⟨text, node, prints.trans printed, loaded, ⟨finish values, ?_, finishes values pairs⟩,
    finish values, ?_, finishes values pairs⟩
  · simp [reads, first]
  · simp [reads, second]

end Sequence

section Map

variable {entries : List (Bytes × T)}

theorem entryNodes_kept (kept : ∀ entry ∈ entries, cast.Kept yaml entry.2) :
    ∃ nodes reads, entries.mapM (cast.entryNode yaml) = some nodes ∧
      Node.readEntries yaml cast.ofText (.map nodes) = some reads ∧
      List.Forall₂ (fun read entry => cast.equalEntry read entry) reads entries := by
  induction entries with
  | nil => exact ⟨[], [], rfl, rfl, .nil⟩
  | cons entry later ih =>
      rw [List.forall_mem_cons] at kept
      obtain ⟨node, isNode, read, isRead, isEqual⟩ := kept.1.toNode
      obtain ⟨nodes, reads, areNodes, areRead, pairs⟩ := ih kept.2
      refine ⟨(entry.1, node) :: nodes, (entry.1, read) :: reads, ?_, ?_, .cons ?_ pairs⟩
      · simp [entryNode, isNode, areNodes]
      · rw [Node.readEntries] at areRead ⊢
        simp [isRead, areRead]
      · simp [equalEntry, isEqual]

theorem readMap_of_load {v : Bytes} {node : Node} (loaded : yaml.load v = .ok node) :
    cast.readMap yaml v = node.readEntries yaml cast.ofText := by
  simp [readMap, loaded, Except.toOption]

/-- A map is kept whose cast makes a map of the entries that are read. -/
theorem kept_of_map {container : LexicalCast (List (Bytes × T))}
    {finish : List (Bytes × T) → List (Bytes × T)}
    (kept : ∀ entry ∈ entries, cast.Kept yaml entry.2)
    (inverts : ∀ nodes, entries.mapM (cast.entryNode yaml) = some nodes → yaml.Inverts (.map nodes))
    (prints : container.toText entries = cast.printMap yaml entries)
    (reads : ∀ v, container.ofText v = (cast.readMap yaml v).map finish)
    (finishes : ∀ reads, List.Forall₂ (fun read entry => cast.equalEntry read entry) reads entries →
      container.equal (finish reads) entries) : container.Kept yaml entries := by
  obtain ⟨nodes, values, areNodes, areRead, pairs⟩ := entryNodes_kept kept
  have loaded := inverts nodes areNodes
  have read : container.ofText (yaml.emit (.map nodes)) = some (finish values) := by
    rw [reads, readMap_of_load loaded, areRead]
    rfl
  refine ⟨_, .map nodes, ?_, loaded, ⟨_, read, finishes values pairs⟩,
    _, read, finishes values pairs⟩
  simp [prints, printMap, areNodes]

end Map

/-- `==` is equality. -/
def Exact (cast : LexicalCast T) : Prop := ∀ left right, cast.equal left right → left = right

theorem eq_of_pairs (exact : cast.Exact) {reads items : List T}
    (pairs : List.Forall₂ (fun read item => cast.equal read item) reads items) : reads = items :=
  List.forall₂_eq_eq_eq ▸ pairs.imp exact

theorem lessKey_strict (left right : Bytes × T) : lessKey left right → ¬lessKey right left := by
  rw [lessKey, lessKey, decide_eq_true_eq, decide_eq_true_eq]
  exact List.lt_asymm

/-- The keys of the entries that are read are those of the map. -/
theorem keys_of_entryPairs {reads entries : List (Bytes × T)}
    (pairs : List.Forall₂ (fun read entry => cast.equalEntry read entry) reads entries) :
    reads.map Prod.fst = entries.map Prod.fst := by
  induction pairs with
  | nil => rfl
  | cons same _ ih =>
      simp only [equalEntry, Bool.and_eq_true, decide_eq_true_eq] at same
      rw [List.map_cons, List.map_cons, ih, same.1]

end LexicalCast

/-! ## Containers in containers -/

/-- The library loads the node of the items as it printed it, and all items are kept. -/
structure Items (cast : LexicalCast T) (keeps : T → Prop) (items : List T) : Prop where
  inverts : ∀ nodes, items.mapM (cast.toNode yaml) = some nodes → yaml.Inverts (.sequence nodes)
  keeps : ∀ item ∈ items, keeps item

structure Entries (cast : LexicalCast T) (keeps : T → Prop) (entries : List (Bytes × T)) : Prop where
  inverts : ∀ nodes, entries.mapM (cast.entryNode yaml) = some nodes → yaml.Inverts (.map nodes)
  keeps : ∀ entry ∈ entries, keeps entry.2

/-- The casts of containers of containers, with the values that they are asked to keep. -/
inductive Nested : {T : Type} → LexicalCast T → (T → Prop) → Prop where
  | base {T : Type} (cast : LexicalCast T) (keeps : T → Prop)
      (kept : ∀ value, keeps value → cast.Kept yaml value) : Nested cast keeps
  | vector {T : Type} {cast : LexicalCast T} {keeps : T → Prop} (nested : Nested cast keeps) :
      Nested (cast.vector yaml) (Items yaml cast keeps)
  | list {T : Type} {cast : LexicalCast T} {keeps : T → Prop} (nested : Nested cast keeps) :
      Nested (cast.list yaml) (Items yaml cast keeps)
  | set {T : Type} {cast : LexicalCast T} {keeps : T → Prop} (nested : Nested cast keeps)
      (exact : cast.Exact) (less : T → T → Bool)
      (strict : ∀ left right, less left right → ¬less right left) :
      Nested (cast.set yaml less)
        fun st => Items yaml cast keeps st ∧ st.Pairwise fun left right => less left right
  | unordered_set {T : Type} {cast : LexicalCast T} {keeps : T → Prop} (nested : Nested cast keeps)
      (exact : cast.Exact) (symmetric : ∀ left right, cast.equal left right = cast.equal right left)
      (place : List T → T → Nat) :
      Nested (cast.unordered_set yaml place) fun st =>
        Items yaml cast keeps st ∧ st.Pairwise fun left right => cast.equal left right = false
  | map {T : Type} {cast : LexicalCast T} {keeps : T → Prop} (nested : Nested cast keeps) :
      Nested (cast.map yaml) fun mp => Entries yaml cast keeps mp ∧ (mp.map Prod.fst).Pairwise (· < ·)
  | unordered_map {T : Type} {cast : LexicalCast T} {keeps : T → Prop} (nested : Nested cast keeps)
      (place : List (Bytes × T) → Bytes × T → Nat) :
      Nested (cast.unordered_map yaml place)
        fun ump => Entries yaml cast keeps ump ∧ (ump.map Prod.fst).Nodup

variable {yaml} {cast : LexicalCast T} {keeps : T → Prop} {value : T}

theorem Nested.kept (nested : Nested yaml cast keeps) (blank : yaml.Blank) (holds : keeps value) :
    cast.Kept yaml value := by
  induction nested with
  | base cast keeps kept => exact kept value holds
  | vector _ ih | list _ ih =>
      apply LexicalCast.kept_of_sequence blank (fun item member => ih (holds.keeps item member))
        holds.inverts rfl fun _ => Option.map_id'.symm
      intro reads pairs
      exact equalSequence_iff.mpr pairs
  | set _ exact less strict ih =>
      obtain ⟨holds, ascending⟩ := holds
      apply LexicalCast.kept_of_sequence blank (fun item member => ih (holds.keeps item member))
        holds.inverts rfl fun _ => rfl
      intro reads pairs
      obtain rfl := LexicalCast.eq_of_pairs exact pairs
      rw [@foldl_insertOrdered _ less [] reads strict ascending]
      exact equalSequence_iff.mpr pairs
  | unordered_set _ exact symmetric place ih =>
      obtain ⟨holds, distinct⟩ := holds
      apply LexicalCast.kept_of_sequence blank (fun item member => ih (holds.keeps item member))
        holds.inverts rfl fun _ => rfl
      intro reads pairs
      obtain rfl := LexicalCast.eq_of_pairs exact pairs
      exact equalHashed_of_perm pairs (@foldl_insertHashed _ _ place [] reads symmetric distinct)
  | map _ ih =>
      obtain ⟨holds, ascending⟩ := holds
      apply LexicalCast.kept_of_map (fun entry member => ih (holds.keeps entry member))
        holds.inverts rfl fun _ => rfl
      intro reads pairs
      rw [← LexicalCast.keys_of_entryPairs pairs, List.pairwise_map] at ascending
      have inOrder : reads.Pairwise fun left right => LexicalCast.lessKey left right := by
        simpa [LexicalCast.lessKey] using ascending
      rw [@foldl_insertOrdered _ _ [] reads LexicalCast.lessKey_strict inOrder]
      exact equalSequence_iff.mpr pairs
  | unordered_map _ place ih =>
      obtain ⟨holds, distinct⟩ := holds
      apply LexicalCast.kept_of_map (fun entry member => ih (holds.keeps entry member))
        holds.inverts rfl fun _ => rfl
      intro reads pairs
      rw [← LexicalCast.keys_of_entryPairs pairs, List.Nodup, List.pairwise_map] at distinct
      apply equalHashed_of_perm pairs (@foldl_insertHashed _ _ place [] reads _ _)
      · simp [LexicalCast.sameKey, eq_comm]
      · simpa [LexicalCast.sameKey] using distinct

/-- A variable that is set from its own text is as it was, and no listener hears of it. -/
theorem fromString_toText (nested : Nested yaml cast keeps) (blank : yaml.Blank)
    (var : WatchedVar T) (reads : var.fromStr = cast.ofText) (holds : keeps var.m_val) :
    ∃ text, cast.toText var.m_val = some text ∧
      @WatchedVar.fromString T ⟨cast.equal⟩ var text = (var, [], false) := by
  obtain ⟨text, node, printed, loaded, ⟨read, isRead, same⟩, -⟩ := nested.kept blank holds
  let equality : BEq T := ⟨cast.equal⟩
  refine ⟨text, printed, ?_⟩
  rw [WatchedVar.fromString_of_some ((congrFun reads text).trans isRead),
    WatchedVar.setValue_of_equal same]

/-- A string is kept that is a scalar as it stands. -/
theorem string_kept {value : Bytes} (plain : yaml.load value = .ok (.scalar value))
    (printed : yaml.emit (.scalar value) = value) : LexicalCast.string.Kept yaml value := by
  have reads : LexicalCast.string.Reads value value := ⟨value, rfl, decide_eq_true rfl⟩
  refine ⟨value, .scalar value, rfl, plain, reads, ?_⟩
  rwa [printed]

/-- The library on a map with a list of one word. -/
def words : Yaml where
  load v :=
    if v = [] ∨ v = ascii "~" then .ok .null
    else if v = ascii "b" then .ok (.scalar v)
    else if v = ascii "- b" then .ok (.sequence [.scalar (ascii "b")])
    else if v = ascii "a:\n  - b" then .ok (.map [(ascii "a", .sequence [.scalar (ascii "b")])])
    else .error .parserException
  emit
    | .null => ascii "~"
    | .scalar text => text
    | .sequence _ => ascii "- b"
    | .map _ => ascii "a:\n  - b"
  nullString := .error .badConversion
  toIndex _ := none

def wordLists : LexicalCast (List (Bytes × List Bytes)) :=
  (LexicalCast.string.vector words).map words

def wordVar : WatchedVar (List (Bytes × List Bytes)) where
  m_name := ascii "words"
  m_val := [(ascii "a", [ascii "b"])]
  fromStr := wordLists.ofText
  m_cbs := (Listeners.none 0).addListener fun _ _ => true

theorem fromString_toText_words :
    ∃ text, wordLists.toText wordVar.m_val = some text ∧
      @WatchedVar.fromString _ ⟨wordLists.equal⟩ wordVar text = (wordVar, [], false) := by
  have plain : words.load (ascii "b") = .ok (.scalar (ascii "b")) := rfl
  have blank : words.Blank := ⟨rfl, rfl⟩
  have strings : Nested words LexicalCast.string (· = ascii "b") := by
    apply Nested.base
    rintro value rfl
    exact string_kept plain rfl
  apply fromString_toText strings.vector.map blank wordVar rfl
  refine ⟨⟨?_, ?_⟩, List.pairwise_singleton ..⟩
  · intro nodes areNodes
    cases areNodes
    rfl
  · intro entry member
    rw [List.mem_singleton.mp member]
    constructor
    · intro nodes areNodes
      cases areNodes
      rfl
    · intro item inside
      exact List.mem_singleton.mp inside

end Exhy.Config
