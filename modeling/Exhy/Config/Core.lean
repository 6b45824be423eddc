import Exhy.Library.CString
import Mathlib.Logic.Function.Basic

/-!
# Configuration variables

The variables of `exhy_config.h` and how `LoadFromYaml` of `exhy_config.cpp` gives them the
values of a document.  The values of all types are in one type, of which a variable reads those
of its own.  The descriptions and the listeners are left out.
-/

namespace Exhy.Config

open Library

/-! ## Documents -/

/-- A node of a document.  The keys of a map are texts. -/
inductive Node where
  | null
  | scalar (text : Bytes)
  | sequence (items : List Node)
  | map (entries : List (Bytes × Node))

/-- What `LoadFromYaml` hands to the variable; `emit` is how the library prints a node. -/
def Node.text (emit : Node → Bytes) : Node → Bytes
  | .scalar text => text
  | node => emit node

/-- What may stand in the path of a node. -/
def isPathByte (byte : UInt8) : Bool :=
  (0x61 ≤ byte && byte ≤ 0x7A) || byte = 0x2E || byte = 0x5F || (0x30 ≤ byte && byte ≤ 0x39)

/-- What may stand in the name of a variable. -/
def isNameByte (byte : UInt8) : Bool := isPathByte byte || (0x41 ≤ byte && byte ≤ 0x5A)

/-- The path of the node at a key of a map that is at the path. -/
def below (path key : Bytes) : Bytes := if path = [] then key else path ++ [0x2E] ++ key

mutual

/-- `ListAllMember(prefix, node, output)`, with what it appends to the output. -/
def listAllMember (path : Bytes) : Node → List (Bytes × Node)
  | .map entries =>
      if path.all isPathByte then (path, .map entries) :: listEntries path entries else []
  | node => if path.all isPathByte then [(path, node)] else []

/-- The loop over the entries of a map. -/
def listEntries (path : Bytes) : List (Bytes × Node) → List (Bytes × Node)
  | [] => []
  | (key, value) :: later => listAllMember (below path key) value ++ listEntries path later

end

/-! ## Variables -/

/-- `fromStr` reads a text, and gives none where it throws. -/
structure ConfigVar (Value : Type) where
  m_name : Bytes
  m_val : Value
  fromStr : Bytes → Option Value

variable {Value : Type}

def ConfigVar.fromString (var : ConfigVar Value) (val : Bytes) : ConfigVar Value :=
  match var.fromStr val with
  | some v => { var with m_val := v }
  | none => var

@[simp] theorem ConfigVar.m_name_fromString (var : ConfigVar Value) (val : Bytes) :
    (var.fromString val).m_name = var.m_name := by
  rw [fromString]
  split <;> rfl

/-- The registered variables under the names with which they were looked up. -/
structure Datas (Value : Type) where
  vars : Bytes → Option (ConfigVar Value)
  named : ∀ name var, vars name = some var →
    name.all isNameByte ∧ var.m_name = name.map toLower

namespace Datas

/-- The value of the variable that is registered under the name. -/
def value (datas : Datas Value) (name : Bytes) : Option Value :=
  (datas.vars name).map ConfigVar.m_val

/-- No variable is registered yet. -/
def empty : Datas Value where
  vars _ := none
  named := nofun

/-- The variable of the name is now this one. -/
def put (datas : Datas Value) (name : Bytes) (var : ConfigVar Value)
    (named : name.all isNameByte ∧ var.m_name = name.map toLower) : Datas Value where
  vars := Function.update datas.vars name (some var)
  named other found there := by
    by_cases same : other = name
    · rw [same, Function.update_self, Option.some.injEq] at there
      rw [same, ← there]
      exact named
    · rw [Function.update_of_ne same] at there
      exact datas.named other found there

/-- `Lookup(name, default_value)`, with the variables that it leaves; none where it throws. -/
def lookup (datas : Datas Value) (name : Bytes) (default_value : Value)
    (fromStr : Bytes → Option Value) : Option (Datas Value) :=
  match datas.vars name with
  | some _ => some datas
  | none =>
      if valid : name.all isNameByte then
        some (datas.put name { m_name := name.map toLower, m_val := default_value, fromStr }
          ⟨valid, rfl⟩)
      else none

/-- One round of the loop of `LoadFromYaml`. -/
def load (emit : Node → Bytes) (datas : Datas Value) (i : Bytes × Node) : Datas Value :=
  if i.1 = [] then datas
  else
    match found : datas.vars (i.1.map toLower) with
    | some var =>
        datas.put (i.1.map toLower) (var.fromString (i.2.text emit)) (by
          rw [ConfigVar.m_name_fromString]
          exact datas.named _ _ found)
    | none => datas

end Datas

end Exhy.Config
