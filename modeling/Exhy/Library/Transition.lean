import Mathlib.Init

/-!
# Labelled transition systems

Runs are sequences of steps from an initial state.  `Reaches allowed` collects the
states of the runs whose every step is `allowed` in the state it is taken in, so a
result about all runs and a result about the runs that keep to a condition are the
same kind of statement, and one induction rule serves both.
-/

namespace Library

universe u v

/-- States, labels and a step relation. -/
structure System (State : Type u) (Label : Type v) where
  initial : State → Prop
  step : State → Label → State → Prop

namespace System

variable {State : Type u} {Label : Type v} {system : System State Label}

/-- The states of the runs in which every step is allowed where it is taken. -/
inductive Reaches (system : System State Label) (allowed : State → Label → Prop) :
    State → Prop where
  | initial {state : State} : system.initial state → Reaches system allowed state
  | step {state next : State} {label : Label} :
      Reaches system allowed state → allowed state label → system.step state label next →
      Reaches system allowed next

/-- The states of all runs. -/
def Reachable (system : System State Label) : State → Prop :=
  system.Reaches fun _ _ => True

/-- What holds initially and is kept by every allowed step holds in every state
reached.  The step may use that its source is itself reached. -/
theorem Reaches.invariant {allowed : State → Label → Prop} (inv : State → Prop)
    (start : ∀ state, system.initial state → inv state)
    (keep : ∀ state label next, system.Reaches allowed state → inv state →
      allowed state label → system.step state label next → inv next)
    {state : State} (reached : system.Reaches allowed state) : inv state := by
  induction reached with
  | initial isInitial => exact start _ isInitial
  | step reached isAllowed stepped ih => exact keep _ _ _ reached ih isAllowed stepped

/-- A stronger condition reaches fewer states. -/
theorem Reaches.mono {weak strong : State → Label → Prop}
    (imp : ∀ state label, strong state label → weak state label) {state : State}
    (reached : system.Reaches strong state) : system.Reaches weak state := by
  induction reached with
  | initial isInitial => exact .initial isInitial
  | step _ isAllowed stepped ih => exact .step ih (imp _ _ isAllowed) stepped

/-- A run of what the labels do reaches the state that it leaves. -/
theorem Reachable.foldlM {perform : State → Label → Option State} {state last : State}
    (reached : system.Reachable state)
    (steps : ∀ state label next, perform state label = some next → system.step state label next)
    {labels : List Label} (run : labels.foldlM perform state = some last) : system.Reachable last := by
  induction labels generalizing state with
  | nil =>
      cases run
      exact reached
  | cons label later ih =>
      rw [List.foldlM_cons, Option.bind_eq_bind, Option.bind_eq_some_iff] at run
      obtain ⟨next, done, onward⟩ := run
      exact ih (.step reached trivial (steps state label next done)) onward

/-- The runs from one state to another, by their labels. -/
inductive Follows (system : System State Label) : State → List Label → State → Prop where
  | nil {state : State} : Follows system state [] state
  | cons {state next last : State} {label : Label} {labels : List Label} :
      system.step state label next → Follows system next labels last →
      Follows system state (label :: labels) last

/-- What each of the labels keeps, a run keeps. -/
theorem Follows.invariant {state last : State} {labels : List Label} (inv : State → Prop)
    (keep : ∀ label ∈ labels, ∀ state next, inv state → system.step state label next → inv next)
    (follows : system.Follows state labels last) (start : inv state) : inv last := by
  induction follows with
  | nil => exact start
  | cons stepped _ ih =>
      apply ih
      · exact fun label member => keep label (List.mem_cons_of_mem _ member)
      · exact keep _ List.mem_cons_self _ _ start stepped

/-- What each step takes off a measure, a run takes off it. -/
theorem Follows.measure {state last : State} {labels : List Label} (inv : State → Prop)
    (measure : State → Nat) (counted : Label → Bool)
    (keep : ∀ label ∈ labels, ∀ state next, inv state → system.step state label next →
      inv next ∧ measure next + (if counted label then 1 else 0) = measure state)
    (follows : system.Follows state labels last) (start : inv state) :
    measure last + labels.countP counted = measure state := by
  induction follows with
  | nil => simp
  | cons stepped _ ih =>
      obtain ⟨next, taken⟩ := keep _ List.mem_cons_self _ _ start stepped
      have rest := ih (fun label member => keep label (List.mem_cons_of_mem _ member)) next
      rw [List.countP_cons, ← Nat.add_assoc, rest, taken]

/-- What each step takes off a measure at the least, a run takes off it. -/
theorem Follows.bound {state last : State} {labels : List Label} (inv : State → Prop)
    (measure : State → Nat) (counted : Label → Bool)
    (keep : ∀ label ∈ labels, ∀ state next, inv state → system.step state label next →
      inv next ∧ measure next + (if counted label then 1 else 0) ≤ measure state)
    (follows : system.Follows state labels last) (start : inv state) :
    measure last + labels.countP counted ≤ measure state := by
  induction follows with
  | nil => simp
  | cons stepped _ ih =>
      obtain ⟨next, taken⟩ := keep _ List.mem_cons_self _ _ start stepped
      have rest := ih (fun label member => keep label (List.mem_cons_of_mem _ member)) next
      rw [List.countP_cons]
      omega

/-- What each step adds to a value, a run adds to it. -/
theorem Follows.count {state last : State} {labels : List Label} (value : State → Nat)
    (counted : Label → Bool)
    (keep : ∀ label state next, system.step state label next →
      value next = value state + if counted label then 1 else 0)
    (follows : system.Follows state labels last) :
    value last = value state + labels.countP counted := by
  induction follows with
  | nil => simp
  | cons stepped _ ih =>
      rw [ih, keep _ _ _ stepped, List.countP_cons]
      omega

end System

end Library
