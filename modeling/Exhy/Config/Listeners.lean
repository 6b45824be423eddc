import Exhy.Config.Core

/-!
# Listeners of configuration variables

`setValue` and `fromString` of `exhy_config.h` with the listeners of a variable, and what
`fromString` promises.  A listener is known by whether it throws; what else it does is left out.
-/

namespace Exhy.Config

open Library

variable {Value : Type}

/-! ## Listeners -/

/-- The listeners by their keys, which `s_fun_id` counts up for all variables of the type. -/
structure Listeners (Value : Type) where
  s_fun_id : Nat
  m_cbs : List (Nat × (Value → Value → Bool))
  ascending : (m_cbs.map Prod.fst).Pairwise (· < ·)
  bounded : ∀ key ∈ m_cbs.map Prod.fst, key ≤ s_fun_id

namespace Listeners

/-- A new variable has none. -/
def none (s_fun_id : Nat) : Listeners Value where
  s_fun_id := s_fun_id
  m_cbs := []
  ascending := List.Pairwise.nil
  bounded _ member := absurd member List.not_mem_nil

/-- `addListener(cb)`, whose key is the new `s_fun_id`. -/
def addListener (listeners : Listeners Value) (cb : Value → Value → Bool) : Listeners Value where
  s_fun_id := listeners.s_fun_id + 1
  m_cbs := listeners.m_cbs ++ [(listeners.s_fun_id + 1, cb)]
  ascending := by
    rw [List.map_append, List.pairwise_append]
    refine ⟨listeners.ascending, List.pairwise_singleton .., ?_⟩
    intro key member last isLast
    rw [List.mem_singleton.mp isLast]
    exact Nat.lt_succ_of_le (listeners.bounded key member)
  bounded key member := by
    rw [List.map_append, List.mem_append] at member
    rcases member with before | last
    · exact Nat.le_succ_of_le (listeners.bounded key before)
    · rw [List.mem_singleton.mp last]

/-- `delListener(key)` -/
def delListener (listeners : Listeners Value) (key : Nat) : Listeners Value where
  s_fun_id := listeners.s_fun_id
  m_cbs := listeners.m_cbs.filter fun cb => cb.1 ≠ key
  ascending := listeners.ascending.sublist (List.filter_sublist.map Prod.fst)
  bounded other member :=
    listeners.bounded other ((List.filter_sublist.map Prod.fst).subset member)

/-- `clearListener()` -/
def clearListener (listeners : Listeners Value) : Listeners Value := none listeners.s_fun_id

/-- A call of a listener, with the old and the new value. -/
abbrev Call (Value : Type) := Nat × Value × Value

/-- The loop of `setValue`: the calls up to one that throws, and whether one does. -/
def notify (old_value new_value : Value) :
    List (Nat × (Value → Value → Bool)) → List (Call Value) × Bool
  | [] => ([], false)
  | (key, cb) :: later =>
      if cb old_value new_value then ([(key, old_value, new_value)], true)
      else
        let (calls, throws) := notify old_value new_value later
        ((key, old_value, new_value) :: calls, throws)

/-- No listener throws. -/
def Quiet (listeners : Listeners Value) (old_value new_value : Value) : Prop :=
  ∀ cb ∈ listeners.m_cbs, cb.2 old_value new_value = false

/-- One call of each listener. -/
def callsOfAll (listeners : Listeners Value) (old_value new_value : Value) : List (Call Value) :=
  listeners.m_cbs.map fun cb => (cb.1, old_value, new_value)

section Notify

variable {cbs : List (Nat × (Value → Value → Bool))} {old_value new_value : Value}

/-- Each listener is called once where none throws. -/
theorem notify_of_quiet (quiet : ∀ cb ∈ cbs, cb.2 old_value new_value = false) :
    notify old_value new_value cbs = (cbs.map fun cb => (cb.1, old_value, new_value), false) := by
  induction cbs with
  | nil => rfl
  | cons cb later ih =>
      rw [List.forall_mem_cons] at quiet
      rw [notify, quiet.1, ih quiet.2]
      rfl

/-- A listener that throws ends the loop. -/
theorem notify_of_not_quiet (loud : ¬∀ cb ∈ cbs, cb.2 old_value new_value = false) :
    (notify old_value new_value cbs).2 = true := by
  induction cbs with
  | nil => exact absurd (List.forall_mem_nil _) loud
  | cons cb later ih =>
      rw [List.forall_mem_cons] at loud
      cases throws : cb.2 old_value new_value with
      | true =>
          rw [notify, throws]
          rfl
      | false =>
          rw [notify, throws]
          exact ih fun quiet => loud ⟨throws, quiet⟩

end Notify

end Listeners

/-! ## Variables with listeners -/

structure WatchedVar (Value : Type) extends ConfigVar Value where
  m_cbs : Listeners Value

namespace WatchedVar

variable [BEq Value] (var : WatchedVar Value)

/-- `setValue(v)`, with the calls of listeners and whether one throws. -/
def setValue (v : Value) : WatchedVar Value × List (Listeners.Call Value) × Bool :=
  if v == var.m_val then (var, [], false)
  else
    let (calls, throws) := Listeners.notify var.m_val v var.m_cbs.m_cbs
    if throws then (var, calls, true) else ({ var with m_val := v }, calls, false)

/-- `fromString(val)`, with the calls of listeners and what it returns. -/
def fromString (val : Bytes) : WatchedVar Value × List (Listeners.Call Value) × Bool :=
  match var.fromStr val with
  | none => (var, [], false)
  | some v =>
      let (after, calls, _) := var.setValue v
      -- behind the try block, which an exception leaves and the end of `setValue` does too
      (after, calls, false)

/-- The conversion succeeds and no listener that is called throws. -/
def Succeeds (val : Bytes) : Prop :=
  ∃ v, var.fromStr val = some v ∧ ((v == var.m_val) = true ∨ var.m_cbs.Quiet var.m_val v)

/-- What `fromString` promises. -/
structure Contract (val : Bytes) : Prop where
  returns : (var.fromString val).2.2 = true ↔ var.Succeeds val
  updated : (var.fromString val).2.2 = true → ∀ v, var.fromStr val = some v →
    (var.fromString val).1.m_val = v ∧
      (var.fromString val).2.1 = if v == var.m_val then [] else var.m_cbs.callsOfAll var.m_val v
  unchanged : (var.fromString val).2.2 = false → (var.fromString val).1.m_val = var.m_val
  unheard : var.fromStr val = none → (var.fromString val).2.1 = []

section Contract

variable {var} {val : Bytes}

theorem returns_false (var : WatchedVar Value) (val : Bytes) :
    (var.fromString val).2.2 = false := by
  rw [fromString]
  split <;> rfl

/-- An equal value is not stored, and no listener hears of it. -/
theorem setValue_of_equal {v : Value} (equal : (v == var.m_val) = true) :
    var.setValue v = (var, [], false) := by
  rw [setValue, if_pos equal]

/-- A value is stored after each listener heard of it. -/
theorem setValue_of_quiet {v : Value} (different : ¬(v == var.m_val) = true)
    (quiet : var.m_cbs.Quiet var.m_val v) :
    var.setValue v = ({ var with m_val := v }, var.m_cbs.callsOfAll var.m_val v, false) := by
  rw [setValue, if_neg different, Listeners.notify_of_quiet quiet]
  rfl

/-- A listener that throws keeps the old value. -/
theorem setValue_of_not_quiet {v : Value} (different : ¬(v == var.m_val) = true)
    (loud : ¬var.m_cbs.Quiet var.m_val v) : (var.setValue v).1 = var := by
  have throws := Listeners.notify_of_not_quiet loud
  rw [setValue, if_neg different]
  dsimp only
  rw [if_pos throws]

theorem fromString_of_some {v : Value} (converts : var.fromStr val = some v) :
    var.fromString val = ((var.setValue v).1, (var.setValue v).2.1, false) := by
  rw [fromString, converts]

theorem fromString_of_none (fails : var.fromStr val = none) :
    var.fromString val = (var, [], false) := by
  rw [fromString, fails]

/-- Without success the variable is as it was. -/
theorem fromString_of_not_succeeds (fails : ¬var.Succeeds val) : (var.fromString val).1 = var := by
  cases converts : var.fromStr val with
  | none => rw [fromString_of_none converts]
  | some v =>
      have neither : ¬((v == var.m_val) = true ∨ var.m_cbs.Quiet var.m_val v) := fun either =>
        fails ⟨v, converts, either⟩
      rw [not_or] at neither
      rw [fromString_of_some converts, setValue_of_not_quiet neither.1 neither.2]

/-- With success the variable is that of a configuration without listeners. -/
theorem toConfigVar_fromString [LawfulBEq Value] (succeeds : var.Succeeds val) :
    (var.fromString val).1.toConfigVar = var.toConfigVar.fromString val := by
  obtain ⟨v, converts, either⟩ := succeeds
  rw [fromString_of_some converts, ConfigVar.fromString, converts]
  by_cases equal : (v == var.m_val) = true
  · rw [setValue_of_equal equal, eq_of_beq equal]
  · rw [setValue_of_quiet equal (either.resolve_left equal)]

/-- `fromString` keeps its promise where it has nothing to tell. -/
theorem contract_iff (var : WatchedVar Value) (val : Bytes) :
    var.Contract val ↔ ¬var.Succeeds val := by
  constructor
  · intro contract succeeds
    have returns := contract.returns.mpr succeeds
    rw [returns_false] at returns
    cases returns
  · intro fails
    constructor
    · rw [returns_false]
      exact iff_of_false Bool.false_ne_true fails
    · intro returns
      rw [returns_false] at returns
      cases returns
    · intro _
      rw [fromString_of_not_succeeds fails]
    · intro nothing
      rw [fromString_of_none nothing]

end Contract

/-- A variable without listeners whose text is always read as 80. -/
def port : WatchedVar Nat where
  m_name := ascii "system.port"
  m_val := 8080
  fromStr _ := some 80
  m_cbs := Listeners.none 0

/-- The new value is stored, and false is returned. -/
theorem contract_not :
    (port.fromString (ascii "80")).1.m_val = 80 ∧ (port.fromString (ascii "80")).2.2 = false ∧
      ¬port.Contract (ascii "80") := by
  refine ⟨rfl, rfl, ?_⟩
  intro contract
  have quiet : port.m_cbs.Quiet 8080 80 := List.forall_mem_nil _
  have returns := contract.returns.mpr ⟨80, rfl, .inr quiet⟩
  cases returns

end WatchedVar

end Exhy.Config
