import Exhy.Config.Core
import Mathlib.Data.List.Infix

/-!
# Loading a document

Which values the variables have behind `LoadFromYaml`, against what the names of the variables
and the paths of the nodes ask for when the letter case is ignored.  A variable is registered
under its name as it was given, and it is looked up under paths without capital letters; a node
below a capital letter is left out, and an empty first key leaves no dot.
-/

namespace Exhy.Config

open Library

variable {Value : Type}

/-! ## Nodes and their paths -/

mutual

/-- The nodes below a node, each with its keys. -/
def Node.members : Node → List (List Bytes × Node)
  | .map entries => Node.membersOf entries
  | .null | .scalar _ | .sequence _ => []

def Node.membersOf : List (Bytes × Node) → List (List Bytes × Node)
  | [] => []
  | (key, value) :: later =>
      ([key], value) :: value.members.map (fun member => (key :: member.1, member.2)) ++
        Node.membersOf later

end

/-- The dotted path. -/
def dotted (keys : List Bytes) : Bytes := List.intercalate [0x2E] keys

/-- The dotted path as `ListAllMember` makes it. -/
def listed (keys : List Bytes) : Bytes := keys.foldl below []

/-- The values that the nodes have for the variable whose paths equal its name without regard to
letter case, as far as its type can read them. -/
def asked (emit : Node → Bytes) (root : Node) (var : ConfigVar Value) : List Value :=
  (root.members.filter fun member => (dotted member.1).map toLower = var.m_name).filterMap
    fun member => var.fromStr (member.2.text emit)

/-- The values of the nodes that are listed, without a capital letter, under the name with which
the variable is registered. -/
def reached (emit : Node → Bytes) (root : Node) (name : Bytes) (var : ConfigVar Value) : List Value :=
  (root.members.filter fun member =>
    name ≠ [] && name.all isPathByte && listed member.1 = name).filterMap
      fun member => var.fromStr (member.2.text emit)

/-! ## What the document asks for -/

/-- The names and paths are unambiguous for a variable: no two nodes have different values for
it, one of them is listed under its registered name unless it has the value already, and the last
one that is listed is one of them. -/
structure Applies (emit : Node → Bytes) (root : Node) (name : Bytes) (var : ConfigVar Value) :
    Prop where
  agree : ∀ v ∈ asked emit root var, ∀ w ∈ asked emit root var, v = w
  unlisted : reached emit root name var = [] → ∀ v ∈ asked emit root var, v = var.m_val
  last : ∀ v, (reached emit root name var).getLast? = some v →
    v ∈ asked emit root var ∨ asked emit root var = [] ∧ v = var.m_val

/-! ## The paths of the list -/

theorem listed_eq (path : Bytes) (keys : List Bytes) : path <+: keys.foldl below path := by
  induction keys generalizing path with
  | nil => exact List.prefix_refl path
  | cons key later ih =>
      apply List.IsPrefix.trans _ (ih (below path key))
      rw [below]
      split
      next empty => rw [empty]; exact List.nil_prefix
      next => rw [List.append_assoc]; exact List.prefix_append ..

theorem not_listed {path name : Bytes} (valid : name.all isPathByte) (invalid : ¬ path.all isPathByte)
    (keys : List Bytes) : keys.foldl below path ≠ name := by
  rintro rfl
  obtain ⟨rest, whole⟩ := listed_eq path keys
  rw [← whole, List.all_append, Bool.and_eq_true] at valid
  exact invalid valid.1

/-- A node is listed under a valid name when it has that path, and so are the nodes below it. -/
theorem filter_cons_listed {name path : Bytes} (valid : name.all isPathByte) (node : Node)
    {listing : List (Bytes × Node)} {members : List (List Bytes × Node)}
    (below_listed : listing.filter (·.1 = name) =
      (members.filter fun member => member.1.foldl below path = name).map fun member =>
        (name, member.2)) :
    (if path.all isPathByte then (path, node) :: listing else []).filter (·.1 = name) =
      ((([], node) :: members).filter fun member => member.1.foldl below path = name).map
        fun member => (name, member.2) := by
  by_cases within : path.all isPathByte
  · rw [if_pos within, List.filter_cons, List.filter_cons, below_listed]
    by_cases here : path = name
    · simp [here]
    · simp [here]
  · rw [if_neg within]
    symm
    rw [List.filter_nil, List.map_eq_nil_iff, List.filter_eq_nil_iff]
    intro member _ listed
    exact not_listed valid within member.1 (by simpa using listed)

mutual

/-- The nodes that are listed under a name. -/
theorem filter_listAllMember {name : Bytes} (valid : name.all isPathByte) (path : Bytes) :
    (node : Node) → (listAllMember path node).filter (·.1 = name) =
      ((([], node) :: node.members).filter fun member => member.1.foldl below path = name).map
        fun member => (name, member.2)
  | .map entries => filter_cons_listed valid _ (filter_listEntries valid path entries)
  | .null | .scalar _ | .sequence _ => filter_cons_listed valid _ rfl

theorem filter_listEntries {name : Bytes} (valid : name.all isPathByte) (path : Bytes) :
    (entries : List (Bytes × Node)) → (listEntries path entries).filter (·.1 = name) =
      ((Node.membersOf entries).filter fun member => member.1.foldl below path = name).map
        fun member => (name, member.2)
  | [] => rfl
  | (key, value) :: later => by
      have here := filter_listAllMember valid (below path key) value
      have onward := filter_listEntries valid path later
      rw [listEntries, List.filter_append, here, onward, Node.membersOf]
      by_cases exact : below path key = name
      · simp [exact, List.filter_map, Function.comp_def]
      · simp [exact, List.filter_map, Function.comp_def]
        rfl

end

mutual

/-- The paths of the list have no other bytes than those that may stand there. -/
theorem valid_of_mem_listAllMember {path : Bytes} {i : Bytes × Node} :
    (node : Node) → i ∈ listAllMember path node → i.1.all isPathByte
  | .map entries, member => by
      rw [listAllMember] at member
      split at member
      next valid =>
        rcases List.mem_cons.mp member with rfl | inEntries
        · exact valid
        · exact valid_of_mem_listEntries entries inEntries
      next => cases member
  | .null, member | .scalar _, member | .sequence _, member => by
      simp only [listAllMember] at member
      split at member
      next valid => rwa [List.mem_singleton.mp member]
      next => cases member

theorem valid_of_mem_listEntries {path : Bytes} {i : Bytes × Node} :
    (entries : List (Bytes × Node)) → i ∈ listEntries path entries → i.1.all isPathByte
  | (key, value) :: later, member => by
      rw [listEntries] at member
      rcases List.mem_append.mp member with inValue | inLater
      · exact valid_of_mem_listAllMember value inValue
      · exact valid_of_mem_listEntries later inLater

end

/-! ## What the loop does -/

end Exhy.Config
