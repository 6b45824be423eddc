import Exhy.Library.Machine
import Mathlib.Tactic.Cases

/-!
# Runs of a machine over a text

What a machine performs on a text, as a list of actions with their positions.  Some actions
break the run after the byte they are performed on.  A run over a text in two parts is the
run over the first and, if that has not stopped, the run over the second.
-/

namespace Library.Machine

universe u

/-- The actions of a run with their positions, the state it leaves (the error state when it
is empty), the position behind it, and whether an action has broken it. -/
structure Scan (Action : Type u) where
  events : List (Nat × Action)
  state : List (Machine Action)
  position : Nat
  broke : Bool

namespace Scan

variable {Action : Type u}

def stopped (scan : Scan Action) : Bool := scan.broke || scan.state.isEmpty

/-- More actions in front. -/
def after (scan : Scan Action) (events : List (Nat × Action)) : Scan Action :=
  { scan with events := events ++ scan.events }

/-- The same run at a position that lies further on. -/
def shift (scan : Scan Action) (distance : Nat) : Scan Action :=
  { scan with
    events := scan.events.map fun event => (event.1 + distance, event.2)
    position := scan.position + distance }

theorem after_after (scan : Scan Action) (first second : List (Nat × Action)) :
    (scan.after second).after first = scan.after (first ++ second) := by
  simp [after]

end Scan

variable {Action : Type u} [DecidableEq Action] (breaks : Action → Bool)

/-- The actions up to the first that breaks the run. -/
def untilBreak : List Action → List Action
  | [] => []
  | action :: later => action :: if breaks action then [] else untilBreak later

def scan : List UInt8 → Nat → List (Machine Action) → Scan Action
  | [], position, state => ⟨[], state, position, false⟩
  | code :: rest, position, state =>
      match step state code with
      | none => ⟨[], [], position, false⟩
      | some (next, actions) =>
          let here := (untilBreak breaks actions).map fun action => (position, action)
          if actions.any breaks then ⟨here, next, position + 1, true⟩
          else (scan rest (position + 1) next).after here

variable {breaks}

omit [DecidableEq Action] in
theorem mem_of_mem_untilBreak {action : Action} {actions : List Action}
    (member : action ∈ untilBreak breaks actions) : action ∈ actions := by
  induction actions with
  | nil => cases member
  | cons first later ih =>
      rw [untilBreak] at member
      rcases List.mem_cons.mp member with rfl | inLater
      · exact List.mem_cons_self
      · split at inLater
        · cases inLater
        · exact List.mem_cons_of_mem _ (ih inLater)

omit [DecidableEq Action] in
theorem untilBreak_of_not_any {actions : List Action} (goes : actions.any breaks = false) :
    untilBreak breaks actions = actions := by
  induction actions with
  | nil => rfl
  | cons action later ih =>
      rw [List.any_cons, Bool.or_eq_false_iff] at goes
      rw [untilBreak, goes.1, ih goes.2]
      rfl

theorem scan_error (text : List UInt8) (position : Nat) :
    scan breaks text position [] = ⟨[], [], position, false⟩ := by
  cases text <;> rfl

section Cons

variable {code : UInt8} {rest : List UInt8} {position : Nat} {state next : List (Machine Action)}
  {actions : List Action}

theorem scan_cons_none (stepped : step state code = none) :
    scan breaks (code :: rest) position state = ⟨[], [], position, false⟩ := by
  rw [scan, stepped]

theorem scan_cons_broken (stepped : step state code = some (next, actions))
    (broken : actions.any breaks = true) : scan breaks (code :: rest) position state =
      ⟨(untilBreak breaks actions).map fun action => (position, action), next, position + 1, true⟩ := by
  rw [scan, stepped]
  exact if_pos broken

theorem scan_cons_going (stepped : step state code = some (next, actions))
    (going : actions.any breaks = false) : scan breaks (code :: rest) position state =
      (scan breaks rest (position + 1) next).after
        ((untilBreak breaks actions).map fun action => (position, action)) := by
  rw [scan, stepped]
  exact if_neg (Bool.eq_false_iff.mp going)

/-- The first byte ends the run with an error, or its actions break the run, or the run goes on. -/
@[elab_as_elim]
theorem scan_cons_cases (code : UInt8) (rest : List UInt8) (position : Nat)
    (state : List (Machine Action)) {motive : Scan Action → Prop} (error : motive ⟨[], [], position, false⟩)
    (broken : ∀ next actions, step state code = some (next, actions) → actions.any breaks = true →
      motive ⟨(untilBreak breaks actions).map fun action => (position, action), next, position + 1,
        true⟩)
    (going : ∀ next actions, step state code = some (next, actions) → actions.any breaks = false →
      motive ((scan breaks rest (position + 1) next).after
        ((untilBreak breaks actions).map fun action => (position, action)))) :
    motive (scan breaks (code :: rest) position state) := by
  cases stepped : step state code with
  | none =>
      rw [scan_cons_none stepped]
      exact error
  | some result =>
      obtain ⟨next, actions⟩ := result
      cases any : actions.any breaks with
      | true =>
          rw [scan_cons_broken stepped any]
          exact broken next actions stepped any
      | false =>
          rw [scan_cons_going stepped any]
          exact going next actions stepped any

end Cons

omit [DecidableEq Action] in
theorem fst_of_mem_map {actions : List Action} {position : Nat} {event : Nat × Action}
    (member : event ∈ actions.map fun action => (position, action)) : event.1 = position := by
  obtain ⟨action, -, rfl⟩ := List.mem_map.mp member
  rfl

/-- A run that stops in the first part does not see the second. -/
theorem scan_append_stopped {first : List UInt8} (second : List UInt8) {position : Nat}
    {state : List (Machine Action)} (stopped : (scan breaks first position state).stopped = true) :
    scan breaks (first ++ second) position state = scan breaks first position state := by
  induction first generalizing position state with
  | nil =>
      cases List.isEmpty_iff.mp stopped
      exact scan_error second position
  | cons code rest ih =>
      rw [List.cons_append]
      cases stepped : step state code with
      | none => rw [scan_cons_none stepped, scan_cons_none stepped]
      | some result =>
          obtain ⟨next, actions⟩ := result
          cases any : actions.any breaks with
          | true => rw [scan_cons_broken stepped any, scan_cons_broken stepped any]
          | false =>
              rw [scan_cons_going stepped any] at stopped
              rw [scan_cons_going stepped any, scan_cons_going stepped any, ih stopped]

/-- A run that goes through the first part goes on with the second. -/
theorem scan_append_running {first : List UInt8} (second : List UInt8) {position : Nat}
    {state : List (Machine Action)} (running : (scan breaks first position state).stopped = false) :
    scan breaks (first ++ second) position state =
      (scan breaks second (position + first.length) (scan breaks first position state).state).after
        (scan breaks first position state).events := by
  induction first generalizing position state with
  | nil => rfl
  | cons code rest ih =>
      rw [List.cons_append]
      cases stepped : step state code with
      | none =>
          rw [scan_cons_none stepped] at running
          cases running
      | some result =>
          obtain ⟨next, actions⟩ := result
          cases any : actions.any breaks with
          | true =>
              rw [scan_cons_broken stepped any] at running
              cases running
          | false =>
              rw [scan_cons_going stepped any] at running
              rw [scan_cons_going stepped any, scan_cons_going stepped any, ih running,
                Scan.after_after, List.length_cons,
                show position + 1 + rest.length = position + (rest.length + 1) by omega]
              rfl

theorem scan_shift (text : List UInt8) (position more : Nat) (state : List (Machine Action)) :
    scan breaks text (position + more) state = (scan breaks text position state).shift more := by
  induction text generalizing position state with
  | nil => rfl
  | cons code rest ih =>
      cases stepped : step state code with
      | none =>
          rw [scan_cons_none stepped, scan_cons_none stepped]
          rfl
      | some result =>
          obtain ⟨next, actions⟩ := result
          cases any : actions.any breaks with
          | true =>
              rw [scan_cons_broken stepped any, scan_cons_broken stepped any]
              simp [Scan.shift, Nat.add_right_comm]
          | false =>
              rw [scan_cons_going stepped any, scan_cons_going stepped any, Nat.add_right_comm, ih]
              simp [Scan.shift, Scan.after]

/-- Each action is performed on a byte of the text. -/
theorem mem_scan {text : List UInt8} {position : Nat} {state : List (Machine Action)}
    {event : Nat × Action} (member : event ∈ (scan breaks text position state).events) :
    position ≤ event.1 ∧ event.1 < position + text.length := by
  induction text generalizing position state with
  | nil => cases member
  | cons code rest ih =>
      rw [List.length_cons]
      revert member
      refine scan_cons_cases code rest position state ?_ ?_ ?_
      · intro member
        cases member
      · intro next actions _ _ member
        have place := fst_of_mem_map member
        omega
      · intro next actions _ _ member
        rcases List.mem_append.mp member with isHere | later
        · have place := fst_of_mem_map isHere
          omega
        · have bounds := ih later
          omega

theorem scan_sorted (text : List UInt8) (position : Nat) (state : List (Machine Action)) :
    (scan breaks text position state).events.Pairwise fun first second => first.1 ≤ second.1 := by
  induction text generalizing position state with
  | nil => exact List.Pairwise.nil
  | cons code rest ih =>
      have here : ∀ actions : List Action,
          ((untilBreak breaks actions).map fun action => (position, action)).Pairwise
            fun first second => first.1 ≤ second.1 := by
        intro actions
        rw [List.pairwise_map]
        exact List.pairwise_of_forall fun _ _ => Nat.le_refl _
      refine scan_cons_cases code rest position state ?_ ?_ ?_
      · exact List.Pairwise.nil
      · intro next actions _ _
        exact here actions
      · intro next actions _ _
        rw [Scan.after, List.pairwise_append]
        refine ⟨here actions, ih _ _, fun first isHere second isLater => ?_⟩
        rw [fst_of_mem_map isHere]
        exact Nat.le_of_succ_le (mem_scan isLater).1

/-- A run that has not stopped has taken the whole text. -/
theorem position_of_running {text : List UInt8} {position : Nat} {state : List (Machine Action)}
    (running : (scan breaks text position state).stopped = false) :
    (scan breaks text position state).position = position + text.length := by
  induction text generalizing position state with
  | nil => rfl
  | cons code rest ih =>
      revert running
      refine scan_cons_cases code rest position state ?_ ?_ ?_
      · intro running
        cases running
      · intro next actions _ _ running
        cases running
      · intro next actions _ _ running
        have rest := ih running
        rw [Scan.after, rest, List.length_cons]
        omega

/-- A broken run has taken a byte, and at most the whole text. -/
theorem position_of_broke {text : List UInt8} {position : Nat} {state : List (Machine Action)}
    (broke : (scan breaks text position state).broke = true) :
    position < (scan breaks text position state).position ∧
      (scan breaks text position state).position ≤ position + text.length := by
  induction text generalizing position state with
  | nil => cases broke
  | cons code rest ih =>
      rw [List.length_cons]
      revert broke
      refine scan_cons_cases code rest position state ?_ ?_ ?_
      · intro broke
        cases broke
      · intro next actions _ _ _
        dsimp only
        omega
      · intro next actions _ _ broke
        have rest := ih broke
        dsimp only [Scan.after]
        omega

/-- What every step keeps holds of the state that a run leaves. -/
theorem scan_keeps (kept : List (Machine Action) → Prop) (error : kept [])
    (step_keeps : ∀ {state next : List (Machine Action)} {code : UInt8} {actions : List Action},
      kept state → step state code = some (next, actions) → kept next)
    {text : List UInt8} {position : Nat} {state : List (Machine Action)} (start : kept state) :
    kept (scan breaks text position state).state := by
  induction text generalizing position state with
  | nil => exact start
  | cons code rest ih =>
      refine scan_cons_cases code rest position state ?_ ?_ ?_
      · exact error
      · intro next actions stepped _
        exact step_keeps start stepped
      · intro next actions stepped _
        exact ih (step_keeps start stepped)

/-- What holds of the bytes an action is performed on holds in the run. -/
theorem scan_performsOn {allowed : List (UInt8 × UInt8)} {action : Action} {text : List UInt8}
    {position place : Nat} {state : List (Machine Action)} (performs : PerformsOn allowed action state)
    (member : (place, action) ∈ (scan breaks text position state).events) :
    ∃ code, text[place - position]? = some code ∧ inRanges allowed code = true := by
  induction text generalizing position state with
  | nil => cases member
  | cons code rest ih =>
      have first : ∀ next actions, step state code = some (next, actions) →
          (place, action) ∈ (untilBreak breaks actions).map (fun act => (position, act)) →
          ∃ byte, (code :: rest)[place - position]? = some byte ∧ inRanges allowed byte = true := by
        intro next actions stepped isHere
        obtain ⟨act, isAction, same⟩ := List.mem_map.mp isHere
        cases same
        have here := (step_performsOn performs stepped).2
        exact ⟨code, by simp, here (mem_of_mem_untilBreak isAction)⟩
      revert member
      refine scan_cons_cases code rest position state ?_ ?_ ?_
      · intro member
        cases member
      · intro next actions stepped _ member
        exact first next actions stepped member
      · intro next actions stepped _ member
        rcases List.mem_append.mp member with isHere | later
        · exact first next actions stepped isHere
        · obtain ⟨byte, isByte, allowed⟩ := ih (step_performsOn performs stepped).1 later
          have behind := (mem_scan later).1
          refine ⟨byte, ?_, allowed⟩
          rw [show place - position = place - (position + 1) + 1 by omega, List.getElem?_cons_succ]
          exact isByte

/-- Where the machine ends with its breaking action, a run is broken when it may end. -/
theorem scan_endsWith {last : Action} {text : List UInt8} {position : Nat}
    {state : List (Machine Action)} (ends : EndsWith last state) (some : text ≠ []) :
    (scan (fun action => action = last) text position state).broke =
      final (scan (fun action => action = last) text position state).state := by
  induction text generalizing position state with
  | nil => exact absurd rfl some
  | cons code rest ih =>
      refine scan_cons_cases code rest position state ?_ ?_ ?_
      · rfl
      · intro next actions stepped broken
        obtain ⟨action, isAction, isLast⟩ := List.any_eq_true.mp broken
        rw [decide_eq_true_eq] at isLast
        exact ((step_endsWith ends stepped).2.mp (isLast ▸ isAction)).symm
      · intro next actions stepped going
        obtain ⟨kept, iff⟩ := step_endsWith ends stepped
        have notFinal : final next = false := by
          rw [← Bool.not_eq_true]
          intro isFinal
          have quiet := List.any_eq_false.mp going last (iff.mpr isFinal)
          exact quiet (decide_eq_true rfl)
        cases rest with
        | nil => exact notFinal.symm
        | cons byte more => exact ih kept (List.cons_ne_nil byte more)

end Library.Machine
