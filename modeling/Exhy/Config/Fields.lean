import Exhy.Config.Core
import Mathlib.Data.List.Nodup

/-!
# Fields of documents

How the readers of documents find the fields of a node, and the nodes that the writers make
field by field.  The library that loads and prints the documents is a parameter.
-/

namespace Exhy.Config

open Library

/-- What a reader of a document throws. -/
inductive Thrown where
  | logic_error (what : Bytes)
  | badSubscript
  | badConversion
  | parserException
  deriving DecidableEq, Repr

/-- What is used of the library: `load` and `emit` of texts, what a null gives as a text, and the
number that a key reads as. -/
structure Yaml where
  load : Bytes → Except Thrown Node
  emit : Node → Bytes
  nullString : Except Thrown Bytes
  toIndex : Bytes → Option Nat

namespace Node

/-- `node[key]`; none where the result is not defined. -/
def subscript (key : Bytes) : Node → Except Thrown (Option Node)
  | .scalar _ => .error .badSubscript
  | .map entries => .ok (entries.lookup key)
  | .null | .sequence _ => .ok none

/-- `node.as<std::string>()` -/
def asString (yaml : Yaml) : Node → Except Thrown Bytes
  | .null => yaml.nullString
  | .scalar text => .ok text
  | .sequence _ | .map _ => .error .badConversion

/-- `node[key].as<std::string>()`, unless `node[key]` is not defined. -/
def field (yaml : Yaml) (node : Node) (key : Bytes) : Except Thrown (Option Bytes) := do
  match ← node.subscript key with
  | none => return none
  | some value => return some (← value.asString yaml)

/-- `node[x]` for each `x` below `node.size()`.  One that is not defined has no fields, like a
null. -/
def elements (yaml : Yaml) : Node → List Node
  | .null | .scalar _ => []
  | .sequence items => items
  | .map entries =>
      (List.range entries.length).map fun x =>
        ((entries.find? fun entry => yaml.toIndex entry.1 = some x).map Prod.snd).getD .null

/-- The entries of the fields that are assigned. -/
def assigned (fields : List (Bytes × Option Node)) : List (Bytes × Node) :=
  fields.filterMap fun field => field.2.map (field.1, ·)

/-- A new node after the fields are assigned, each at most once. -/
def ofFields (fields : List (Bytes × Option Node)) : Node :=
  if assigned fields = [] then .null else .map (assigned fields)

/-- A scalar where the condition holds. -/
def scalarIf (condition : Prop) [Decidable condition] (text : Bytes) : Option Node :=
  if condition then some (.scalar text) else none

section Fields

variable {fields : List (Bytes × Option Node)} {key text : Bytes} {value : Option Node}

/-- A field is found as it was assigned. -/
theorem lookup_assigned (distinct : (fields.map Prod.fst).Nodup) (member : (key, value) ∈ fields) :
    (assigned fields).lookup key = value := by
  induction fields with
  | nil => cases member
  | cons first later ih =>
      simp only [List.map_cons, List.nodup_cons] at distinct
      rw [assigned, List.filterMap_cons]
      rcases List.mem_cons.mp member with here | there
      · subst here
        have absent : (assigned later).lookup key = none := by
          rw [List.lookup_eq_none_iff]
          intro entry found
          obtain ⟨field, isField, assigns⟩ := List.mem_filterMap.mp found
          obtain ⟨node, _, rfl⟩ := Option.map_eq_some_iff.mp assigns
          have other : field.1 ≠ key := fun same =>
            distinct.1 (List.mem_map.mpr ⟨field, isField, same⟩)
          simpa using other.symm
        cases value with
        | none => exact absent
        | some node => apply List.lookup_cons_self
      · have other : key ≠ first.1 := fun same =>
          distinct.1 (List.mem_map.mpr ⟨(key, value), there, same⟩)
        have further := ih distinct.2 there
        cases first.2 with
        | none => exact further
        | some node =>
            rw [Option.map_some, List.lookup_cons, beq_false_of_ne other]
            exact further

theorem subscript_ofFields (distinct : (fields.map Prod.fst).Nodup)
    (member : (key, value) ∈ fields) : (ofFields fields).subscript key = .ok value := by
  have found := lookup_assigned distinct member
  rw [ofFields]
  split
  next nothing =>
    rw [nothing, List.lookup_nil] at found
    rw [subscript, found]
  next => rw [subscript, found]

/-- A scalar field is read as it was assigned. -/
theorem field_ofFields (yaml : Yaml) {condition : Prop} [Decidable condition]
    (distinct : (fields.map Prod.fst).Nodup) (member : (key, scalarIf condition text) ∈ fields) :
    (ofFields fields).field yaml key = .ok (if condition then some text else none) := by
  rw [field, subscript_ofFields distinct member, scalarIf]
  by_cases holds : condition
  · rw [if_pos holds, if_pos holds]
    rfl
  · rw [if_neg holds, if_neg holds]
    rfl

/-- A field that may have no text is read as it was assigned. -/
theorem field_ofFields_map (yaml : Yaml) {value : Option Bytes}
    (distinct : (fields.map Prod.fst).Nodup) (member : (key, value.map Node.scalar) ∈ fields) :
    (ofFields fields).field yaml key = .ok value := by
  rw [field, subscript_ofFields distinct member]
  cases value with
  | none => rfl
  | some text => rfl

end Fields

end Node

end Exhy.Config
