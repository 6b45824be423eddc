import Exhy.Fiber.Core
import Exhy.Library.Transition

/-!
# Where a switch goes

On any number of threads a switch goes where it is meant to as long as fibers are swapped in by
the main fibers, as `Scheduler::run` does it, and called by the threads' own, as
`Scheduler::stop` does it.
-/

namespace Exhy.Fibers

open Library
open Scheduler (FiberState)

variable {Thread Id Callback : Type}

/-- The fibers of the threads and of the schedulers are different. -/
structure Setting.Proper (setting : Setting Thread Id) : Prop where
  own : ∀ first second, setting.t_threadFiber first = setting.t_threadFiber second → first = second
  root : ∀ first second id, setting.m_rootFiber first = some id →
    setting.m_rootFiber second = some id → first = second
  apart : ∀ first second, setting.m_rootFiber second ≠ some (setting.t_threadFiber first)

/-- Neither the fiber of a thread nor that of a scheduler. -/
structure Setting.Task (setting : Setting Thread Id) (id : Id) : Prop where
  own : ∀ thread, setting.t_threadFiber thread ≠ id
  root : ∀ thread, setting.m_rootFiber thread ≠ some id

namespace State

/-- The fiber is on no thread. -/
def Idle (state : State Thread Id Callback) (id : Id) : Prop :=
  ∀ thread, state.running thread ≠ id

/-- The fiber is there in one of those states. -/
def Has (state : State Thread Id Callback) (id : Id) (holds : FiberState → Prop) : Prop :=
  ∃ fiber, state.fibers id = some fiber ∧ holds fiber.m_state

end State

open State

/-- Threads that have made their fibers, and the schedulers theirs. -/
structure Initial (setting : Setting Thread Id) (state : State Thread Id Callback) : Prop where
  running : ∀ thread, state.running thread = setting.t_threadFiber thread
  current : ∀ thread, state.t_fiber thread = setting.t_threadFiber thread
  own : ∀ thread,
    state.fibers (setting.t_threadFiber thread) = some ⟨.EXEC, false, none, .constructor⟩ ∧
      state.flows (setting.t_threadFiber thread) = .thread
  root : ∀ thread id, setting.m_rootFiber thread = some id →
    ∃ cb, state.fibers id = some ⟨.INIT, true, some cb, .entry .CallerMainFunc⟩
  task : ∀ id, setting.Task id → state.fibers id = none

/-- What the code on the threads keeps to. -/
def Allowed (setting : Setting Thread Id) (state : State Thread Id Callback) :
    Event Thread Id Callback → Prop
  | .create id _ => setting.Task id ∧ state.fibers id = none
  | .reset id _ | .destroy id =>
      setting.Task id ∧ state.Idle id ∧ state.Has id fun m_state => resting m_state = true
  | .hold id =>
      setting.Task id ∧ state.Idle id ∧ state.Has id fun m_state => resting m_state = false
  | .call thread id =>
      state.running thread = setting.t_threadFiber thread ∧ setting.m_rootFiber thread = some id ∧
        state.Has id fun m_state => m_state = .INIT
  | .swapIn thread id =>
      state.running thread = setting.GetMainFiber thread ∧ setting.Task id ∧ state.Idle id ∧
        state.Has id fun m_state => m_state ≠ .EXEC ∧ m_state ≠ .TERM ∧ m_state ≠ .EXCEP
  | .YieldToReady thread | .YieldToHold thread => setting.Task (state.running thread)
  | .finish thread _ => state.running thread ≠ setting.t_threadFiber thread

def system [DecidableEq Thread] [DecidableEq Id] (setting : Setting Thread Id) :
    System (State Thread Id Callback) (Event Thread Id Callback) where
  initial := Initial setting
  step state event next := state.step setting event = some next

/-! ## The invariant -/

/-- The flow of the fiber was left in a switch, and its context has the place. -/
def Waits (state : State Thread Id Callback) (id : Id) : Prop :=
  ∃ fiber, state.fibers id = some fiber ∧ fiber.m_ctx = .point id (state.changes id)

/-- What a thread runs, and what waits below. -/
inductive Runs (setting : Setting Thread Id) (state : State Thread Id Callback) (thread : Thread) :
    Prop where
  | own (runs : state.running thread = setting.t_threadFiber thread)
      (here : ∃ fiber, state.fibers (setting.t_threadFiber thread) = some fiber)
      (flow : state.flows (setting.t_threadFiber thread) = .thread)
      (root : ∀ id, setting.m_rootFiber thread = some id → ∃ fiber, state.fibers id = some fiber ∧
        (fiber.m_state = .INIT → fiber.m_ctx = .entry .CallerMainFunc))
  | root {id : Id} (isRoot : setting.m_rootFiber thread = some id)
      (runs : state.running thread = id) (here : ∃ fiber, state.fibers id = some fiber)
      (flow : state.flows id = .inside .CallerMainFunc id)
      (waits : Waits state (setting.t_threadFiber thread))
      (below : state.flows (setting.t_threadFiber thread) = .thread)
  | task {id : Id} (isTask : setting.Task id) (runs : state.running thread = id)
      (here : ∃ fiber, state.fibers id = some fiber ∧ fiber.m_state = .EXEC ∧ fiber.m_stack = true)
      (flow : state.flows id = .inside .MainFunc id)
      (waits : Waits state (setting.GetMainFiber thread))
      (own : state.flows (setting.t_threadFiber thread) = .thread)
      (root : ∀ id, setting.m_rootFiber thread = some id →
        state.flows id = .inside .CallerMainFunc id ∧
          Waits state (setting.t_threadFiber thread))

/-- A fiber that is on no thread: it is new, it waits, or it has ended. -/
def Parked (state : State Thread Id Callback) (id : Id) (fiber : Fiber Id Callback) : Prop :=
  fiber.m_stack = true ∧
    ((fiber.m_state = .INIT ∧ fiber.m_ctx = .entry .MainFunc) ∨
      (resting fiber.m_state = false ∧ fiber.m_ctx = .point id (state.changes id) ∧
        state.flows id = .inside .MainFunc id) ∨
      fiber.m_state = .TERM ∨ fiber.m_state = .EXCEP)

structure Inv (setting : Setting Thread Id) (state : State Thread Id Callback) : Prop where
  current : ∀ thread, state.t_fiber thread = state.running thread
  single : ∀ first second, state.running first = state.running second → first = second
  runs : ∀ thread, Runs setting state thread
  parked : ∀ id, setting.Task id → state.Idle id → ∀ fiber, state.fibers id = some fiber →
    Parked state id fiber

section Frame

variable {setting : Setting Thread Id} {state next : State Thread Id Callback} {thread : Thread}
variable {id : Id} {fiber : Fiber Id Callback}

/-- The fiber and its flow are as they were. -/
structure Agree (state next : State Thread Id Callback) (id : Id) : Prop where
  fibers : next.fibers id = state.fibers id
  flows : next.flows id = state.flows id
  changes : next.changes id = state.changes id

/-- The fibers that a thread is concerned with. -/
def Cast (setting : Setting Thread Id) (state : State Thread Id Callback) (thread : Thread)
    (id : Id) : Prop :=
  setting.t_threadFiber thread = id ∨ setting.m_rootFiber thread = some id ∨
    state.running thread = id

theorem Waits.frame {id : Id} (waits : Waits state id) (same : Agree state next id) :
    Waits next id := by
  rw [Waits, same.fibers, same.changes]
  exact waits

theorem mainFiber_cases (setting : Setting Thread Id) (thread : Thread) :
    (setting.m_rootFiber thread = none ∧
        setting.GetMainFiber thread = setting.t_threadFiber thread) ∨
      setting.m_rootFiber thread = some (setting.GetMainFiber thread) := by
  rw [Setting.GetMainFiber]
  cases setting.m_rootFiber thread with
  | none => exact .inl ⟨rfl, rfl⟩
  | some id => exact .inr rfl

theorem Cast.main (setting : Setting Thread Id) (state : State Thread Id Callback)
    (thread : Thread) : Cast setting state thread (setting.GetMainFiber thread) := by
  rcases mainFiber_cases setting thread with ⟨-, isOwn⟩ | isRoot
  · exact .inl isOwn.symm
  · exact .inr (.inl isRoot)

theorem Runs.frame (runs : Runs setting state thread)
    (same : next.running thread = state.running thread)
    (agree : ∀ id, Cast setting state thread id → Agree state next id) :
    Runs setting next thread := by
  have own := agree _ (.inl rfl)
  cases runs with
  | own isOwn here flow root =>
      refine .own (same.trans isOwn) ?_ (own.flows.trans flow) ?_
      · rwa [own.fibers]
      · intro id isRoot
        rw [(agree id (.inr (.inl isRoot))).fibers]
        exact root id isRoot
  | root isRoot isRunning here flow waits below =>
      have top := agree _ (.inr (.inl isRoot))
      refine .root isRoot (same.trans isRunning) ?_ (top.flows.trans flow) (waits.frame own)
        (own.flows.trans below)
      rwa [top.fibers]
  | task isTask isRunning here flow waits flowOwn root =>
      have top := agree _ (.inr (.inr isRunning))
      refine .task isTask (same.trans isRunning) ?_ (top.flows.trans flow)
        (waits.frame (agree _ (Cast.main setting state thread))) (own.flows.trans flowOwn) ?_
      · rwa [top.fibers]
      · intro id isRoot
        rw [(agree id (.inr (.inl isRoot))).flows]
        exact ⟨(root id isRoot).1, (root id isRoot).2.frame own⟩

theorem Parked.frame {id : Id} {fiber : Fiber Id Callback} (parked : Parked state id fiber)
    (same : Agree state next id) : Parked next id fiber := by
  rw [Parked, same.changes, same.flows]
  exact parked

theorem Runs.cases_running (runs : Runs setting state thread) :
    state.running thread = setting.t_threadFiber thread ∨
      setting.m_rootFiber thread = some (state.running thread) ∨
      setting.Task (state.running thread) := by
  cases runs with
  | own isOwn _ _ _ => exact .inl isOwn
  | root isRoot isRunning _ _ _ _ => exact .inr (.inl (isRunning ▸ isRoot))
  | task isTask isRunning _ _ _ _ _ => exact .inr (.inr (isRunning ▸ isTask))

/-- The fibers of different threads are different. -/
theorem Cast.apart (proper : setting.Proper) (inv : Inv setting state) {other : Thread}
    (different : other ≠ thread) {id : Id} (here : Cast setting state thread id) :
    ¬Cast setting state other id := by
  have running := (inv.runs thread).cases_running
  have runningOther := (inv.runs other).cases_running
  rintro (rfl | isRoot | rfl)
  · rcases here with same | isRoot | same
    · exact different (proper.own _ _ same.symm)
    · exact proper.apart _ _ isRoot
    · rw [same] at running
      rcases running with isOwn | isRoot | isTask
      · exact different (proper.own _ _ isOwn)
      · exact proper.apart _ _ isRoot
      · exact isTask.own _ rfl
  · rcases here with rfl | isRoot' | rfl
    · exact proper.apart _ _ isRoot
    · exact different (proper.root _ _ _ isRoot isRoot')
    · rcases running with isOwn | isRoot' | isTask
      · exact proper.apart _ _ (isOwn ▸ isRoot)
      · exact different (proper.root _ _ _ isRoot isRoot')
      · exact isTask.root _ isRoot
  · rcases here with same | isRoot | same
    · rcases runningOther with isOwn | isRoot | isTask
      · exact different (proper.own _ _ (isOwn.symm.trans same.symm))
      · exact proper.apart _ _ (same ▸ isRoot)
      · exact isTask.own _ same
    · rcases runningOther with isOwn | isRoot' | isTask
      · exact proper.apart _ _ (isOwn ▸ isRoot)
      · exact different (proper.root _ _ _ isRoot' isRoot)
      · exact isTask.root _ isRoot
    · exact different (inv.single _ _ same.symm)

/-- A fiber that is on no thread concerns none. -/
theorem not_cast_of_idle {id : Id} (isTask : setting.Task id) (idle : state.Idle id) :
    ¬Cast setting state thread id := by
  rintro (isOwn | isRoot | isRunning)
  · exact isTask.own _ isOwn
  · exact isTask.root _ isRoot
  · exact idle _ isRunning

theorem not_task_main (setting : Setting Thread Id) (thread : Thread) :
    ¬setting.Task (setting.GetMainFiber thread) := by
  intro isTask
  rcases mainFiber_cases setting thread with ⟨-, isOwn⟩ | isRoot
  · exact isTask.own _ isOwn.symm
  · exact isTask.root _ isRoot

theorem Runs.here (runs : Runs setting state thread) :
    ∃ fiber, state.fibers (state.running thread) = some fiber := by
  cases runs with
  | own isOwn here _ _ => rwa [isOwn]
  | root _ isRunning here _ _ _ => rwa [isRunning]
  | task _ isRunning here _ _ _ _ =>
      obtain ⟨fiber, there, -⟩ := here
      exact ⟨fiber, isRunning.symm ▸ there⟩

/-- What is below the main fiber of a thread. -/
structure Below (setting : Setting Thread Id) (state : State Thread Id Callback) (thread : Thread) :
    Prop where
  own : state.flows (setting.t_threadFiber thread) = .thread
  root : ∀ id, setting.m_rootFiber thread = some id →
    state.flows id = .inside .CallerMainFunc id ∧ Waits state (setting.t_threadFiber thread)

theorem Runs.below (runs : Runs setting state thread) (proper : setting.Proper)
    (isMain : state.running thread = setting.GetMainFiber thread) : Below setting state thread := by
  cases runs with
  | own isOwn _ flow _ =>
      refine ⟨flow, fun id isRoot => ?_⟩
      have same : setting.GetMainFiber thread = id := by
        rw [Setting.GetMainFiber, isRoot, Option.getD_some]
      have isOwn' : id = setting.t_threadFiber thread := same ▸ isMain ▸ isOwn
      exact absurd (isOwn' ▸ isRoot) (proper.apart _ _)
  | root isRoot isRunning _ flow waits below =>
      refine ⟨below, fun id isRoot' => ?_⟩
      cases isRoot.symm.trans isRoot'
      exact ⟨flow, waits⟩
  | task isTask isRunning _ _ _ _ _ =>
      rw [← isRunning, isMain] at isTask
      exact absurd isTask (not_task_main setting thread)

/-- The flow of the main fiber goes on when it is switched to. -/
theorem Below.alive (below : Below setting state thread) :
    state.flows (setting.GetMainFiber thread) ≠ .ended := by
  rcases mainFiber_cases setting thread with ⟨-, isOwn⟩ | isRoot
  · rw [isOwn, below.own]
    simp
  · rw [(below.root _ isRoot).1]
    simp

theorem Below.frame (below : Below setting state thread)
    (own : Agree state next (setting.t_threadFiber thread))
    (root : ∀ id, setting.m_rootFiber thread = some id → next.flows id = state.flows id) :
    Below setting next thread where
  own := own.flows.trans below.own
  root := by
    intro id isRoot
    exact ⟨(root id isRoot).trans (below.root id isRoot).1, (below.root id isRoot).2.frame own⟩

/-- The fiber as the end of its entry function leaves it. -/
def finished (returned : Bool) (fiber : Fiber Id Callback) : Fiber Id Callback :=
  if returned then { fiber with m_cb := none, m_state := .TERM }
  else { fiber with m_state := .EXCEP }

theorem finished_state (returned : Bool) (fiber : Fiber Id Callback) :
    (finished returned fiber).m_state = .TERM ∨ (finished returned fiber).m_state = .EXCEP := by
  cases returned with
  | true => exact .inl rfl
  | false => exact .inr rfl

theorem finished_stack (returned : Bool) (fiber : Fiber Id Callback) :
    (finished returned fiber).m_stack = fiber.m_stack := by
  cases returned <;> rfl

theorem Inv.initial (proper : setting.Proper) (initial : Initial setting state) :
    Inv setting state where
  current := by
    intro thread
    rw [initial.current, initial.running]
  single := by
    intro first second same
    rw [initial.running, initial.running] at same
    exact proper.own first second same
  runs := by
    intro thread
    refine .own (initial.running thread) ⟨_, (initial.own thread).1⟩ (initial.own thread).2 ?_
    intro id isRoot
    obtain ⟨cb, there⟩ := initial.root thread id isRoot
    exact ⟨_, there, fun _ => rfl⟩
  parked := by
    intro id isTask _ fiber there
    rw [initial.task id isTask] at there
    cases there

/-- A fiber that is on no thread is changed. -/
theorem Inv.touch {id : Id} (inv : Inv setting state) (isTask : setting.Task id)
    (idle : state.Idle id) (running : next.running = state.running)
    (current : next.t_fiber = state.t_fiber)
    (frame : ∀ other, other ≠ id → Agree state next other)
    (parked : ∀ fiber, next.fibers id = some fiber → Parked next id fiber) : Inv setting next := by
  constructor
  · intro thread
    rw [running, current, inv.current]
  · intro first second same
    rw [running] at same
    exact inv.single first second same
  · intro thread
    apply (inv.runs thread).frame (congrFun running thread)
    intro other concerned
    apply frame
    rintro rfl
    exact not_cast_of_idle isTask idle concerned
  · intro other otherTask otherIdle fiber there
    by_cases same : other = id
    · exact same ▸ parked fiber (same ▸ there)
    · have agree := frame other same
      have idleBefore : state.Idle other := fun thread => congrFun running thread ▸ otherIdle thread
      rw [agree.fibers] at there
      exact (inv.parked other otherTask idleBefore fiber there).frame agree

variable [DecidableEq Thread]

/-- A thread that goes on with a fiber of its own or with one that is on no thread. -/
theorem Inv.move {target : Id} (inv : Inv setting state) (proper : setting.Proper)
    (running : next.running = Function.update state.running thread target)
    (current : next.t_fiber = Function.update state.t_fiber thread target)
    (frame : ∀ id, id ≠ state.running thread → id ≠ target → Agree state next id)
    (goal : Cast setting state thread target ∨ (setting.Task target ∧ state.Idle target))
    (runs : Runs setting next thread)
    (parked : setting.Task (state.running thread) → state.running thread ≠ target →
      ∀ fiber, next.fibers (state.running thread) = some fiber →
        Parked next (state.running thread) fiber) : Inv setting next := by
  -- no other thread is concerned with either fiber
  have notTarget : ∀ other, other ≠ thread → ¬Cast setting state other target := by
    intro other different
    rcases goal with here | ⟨isTask, idle⟩
    · exact here.apart proper inv different
    · exact not_cast_of_idle isTask idle
  have notLeft : ∀ other, other ≠ thread → ¬Cast setting state other (state.running thread) := by
    intro other different
    exact Cast.apart proper inv different (.inr (.inr rfl))
  have here : next.running thread = target := by rw [running, Function.update_self]
  have elsewhere : ∀ other, other ≠ thread → next.running other = state.running other := by
    intro other different
    rw [running, Function.update_of_ne different]
  constructor
  · intro other
    by_cases same : other = thread
    · rw [same, here, current, Function.update_self]
    · rw [elsewhere other same, current, Function.update_of_ne same, inv.current]
  · intro first second same
    by_cases isFirst : first = thread
    · by_cases isSecond : second = thread
      · rw [isFirst, isSecond]
      · rw [isFirst, here, elsewhere second isSecond] at same
        exact absurd (.inr (.inr same.symm)) (notTarget second isSecond)
    · by_cases isSecond : second = thread
      · rw [isSecond, here, elsewhere first isFirst] at same
        exact absurd (.inr (.inr same)) (notTarget first isFirst)
      · rw [elsewhere first isFirst, elsewhere second isSecond] at same
        exact inv.single first second same
  · intro other
    by_cases same : other = thread
    · exact same ▸ runs
    · apply (inv.runs other).frame (elsewhere other same)
      intro id concerned
      apply frame
      · rintro rfl
        exact notLeft other same concerned
      · rintro rfl
        exact notTarget other same concerned
  · intro id isTask idle fiber there
    have apart : id ≠ target := fun same => idle thread (here.trans same.symm)
    by_cases left : id = state.running thread
    · subst left
      exact parked isTask apart fiber there
    · have agree := frame id left apart
      have idleBefore : state.Idle id := by
        intro other
        by_cases same : other = thread
        · exact same ▸ Ne.symm left
        · exact elsewhere other same ▸ idle other
      rw [agree.fibers] at there
      exact (inv.parked id isTask idleBefore fiber there).frame agree

end Frame

/-! ## The switches -/

variable [DecidableEq Thread] [DecidableEq Id]

section Switch

variable {setting : Setting Thread Id} {state next : State Thread Id Callback} {thread : Thread}
variable {id : Id} {fiber : Fiber Id Callback}

theorem setcontext_point {stack : Id} {number : Nat} (there : state.fibers id = some fiber)
    (place : fiber.m_ctx = .point stack number) (last : state.changes stack = number)
    (alive : state.flows stack ≠ .ended) :
    state.setcontext thread id = some (state.goOn thread stack (state.flows stack)) := by
  rw [setcontext, there]
  dsimp only
  rw [place]
  exact if_pos ⟨last, alive⟩

theorem setcontext_entry {entry : Entry} (there : state.fibers id = some fiber)
    (place : fiber.m_ctx = .entry entry) :
    state.setcontext thread id = some (state.goOn thread id (.inside entry (state.t_fiber thread))) := by
  rw [setcontext, there]
  dsimp only
  rw [place]

theorem swapcontext_eq {second : Id} (there : state.fibers id = some fiber) :
    state.swapcontext thread id second = (state.leave thread id fiber).setcontext thread second := by
  rw [swapcontext, there]

/-- The state behind a switch from the fiber that runs: its context has its place, and the thread
goes on with the other one. -/
def switched (state : State Thread Id Callback) (thread : Thread) (fiber : Fiber Id Callback)
    (target : Id) (flow : Flow Id) : State Thread Id Callback :=
  (state.leave thread (state.running thread) fiber).goOn thread target flow

variable {target : Id} {flow : Flow Id}

/-- The fiber that is left has its place. -/
theorem switched_left (apart : state.running thread ≠ target) :
    (switched state thread fiber target flow).fibers (state.running thread) =
      some { fiber with
        m_ctx := .point (state.running thread)
          ((switched state thread fiber target flow).changes (state.running thread)) } := by
  simp [switched, leave, goOn, Function.update_of_ne apart]

theorem switched_other (apart : id ≠ state.running thread) :
    (switched state thread fiber target flow).fibers id = state.fibers id := by
  simp [switched, leave, goOn, Function.update_of_ne apart]

theorem switched_agree (left : id ≠ state.running thread) (apart : id ≠ target) :
    Agree state (switched state thread fiber target flow) id where
  fibers := switched_other left
  flows := by simp [switched, leave, goOn, Function.update_of_ne apart]
  changes := by simp [switched, leave, goOn, Function.update_of_ne apart, Function.update_of_ne left]

/-- A switch to a fiber that waits goes on where it waits. -/
theorem swapcontext_waits (there : state.fibers (state.running thread) = some fiber)
    (apart : state.running thread ≠ target) (waits : Waits state target)
    (alive : state.flows target ≠ .ended) :
    state.swapcontext thread (state.running thread) target =
      some (switched state thread fiber target (state.flows target)) := by
  obtain ⟨other, isOther, place⟩ := waits
  rw [swapcontext_eq there]
  have kept : (state.leave thread (state.running thread) fiber).fibers target = some other := by
    simp [leave, Function.update_of_ne apart.symm, isOther]
  have last : (state.leave thread (state.running thread) fiber).changes target =
      state.changes target := by
    simp [leave, Function.update_of_ne apart.symm]
  exact setcontext_point kept place last alive

/-- A switch to a fiber that has a new context calls the function of the context. -/
theorem swapcontext_entry {entry : Entry} {other : Fiber Id Callback}
    (there : state.fibers (state.running thread) = some fiber)
    (apart : state.running thread ≠ target) (isOther : state.fibers target = some other)
    (place : other.m_ctx = .entry entry) :
    state.swapcontext thread (state.running thread) target =
      some (switched state thread fiber target (.inside entry (state.t_fiber thread))) := by
  rw [swapcontext_eq there]
  have kept : (state.leave thread (state.running thread) fiber).fibers target = some other := by
    simp [leave, Function.update_of_ne apart.symm, isOther]
  exact setcontext_entry kept place

end Switch

/-! ## The events -/

section Events

variable {setting : Setting Thread Id} {state next : State Thread Id Callback} {thread : Thread}
variable {id : Id} {fiber : Fiber Id Callback}

/-- `swapIn`. -/
theorem Inv.swapIn (inv : Inv setting state) (proper : setting.Proper)
    (allowed : Allowed setting state (.swapIn thread id)) :
    ∃ next, state.swapIn setting thread id = some next ∧ Inv setting next ∧
      next.running thread = id ∧ next.flows id = .inside .MainFunc id := by
  obtain ⟨isMain, isTask, idle, fiber, there, alive⟩ := allowed
  obtain ⟨main, isObject⟩ := (inv.runs thread).here
  have parked := inv.parked id isTask idle fiber there
  have below := (inv.runs thread).below proper isMain
  have apart : state.running thread ≠ id := idle thread
  let before := (state.SetThis thread id).setFiber id { fiber with m_state := .EXEC }
  have isHere : before.fibers id = some { fiber with m_state := .EXEC } := Function.update_self ..
  have isMainHere : before.fibers (before.running thread) = some main := by
    rw [← isObject]
    exact Function.update_of_ne apart _ _
  have speaks : before.t_fiber thread = id := Function.update_self ..
  have swapped : state.swapIn setting thread id =
      some (switched before thread main id (.inside .MainFunc id)) := by
    have started : state.swapIn setting thread id =
        before.swapcontext thread (before.running thread) id := by
      rw [State.swapIn, there]
      dsimp only
      rw [if_neg alive.1, ← isMain]
      rfl
    rw [started]
    rcases parked.2 with ⟨-, place⟩ | ⟨-, place, flow⟩ | ended | ended
    · rw [swapcontext_entry isMainHere apart isHere place, speaks]
    · have waits : Waits before id := ⟨_, isHere, place⟩
      have flowHere : before.flows id = .inside .MainFunc id := flow
      rw [swapcontext_waits isMainHere apart waits (by rw [flowHere]; simp), flowHere]
    · exact absurd ended alive.2.1
    · exact absurd ended alive.2.2
  have agree : ∀ other, other ≠ state.running thread → other ≠ id →
      Agree state (switched before thread main id (.inside .MainFunc id)) other := by
    intro other left notHere
    have same : before.fibers other = state.fibers other := Function.update_of_ne notHere _ _
    have kept := @switched_agree _ _ _ _ _ before thread other main id (.inside .MainFunc id) left
      notHere
    exact ⟨kept.fibers.trans same, kept.flows, kept.changes⟩
  have isNext : (switched before thread main id (.inside .MainFunc id)).running thread = id :=
    Function.update_self ..
  have flowNext : (switched before thread main id (.inside .MainFunc id)).flows id =
      .inside .MainFunc id := Function.update_self ..
  have flows : ∀ other, other ≠ id →
      (switched before thread main id (.inside .MainFunc id)).flows other = state.flows other :=
    fun other notHere => Function.update_of_ne notHere _ _
  have ownApart : setting.t_threadFiber thread ≠ id := isTask.own thread
  have rootApart : ∀ root, setting.m_rootFiber thread = some root → root ≠ id := by
    rintro root isRoot rfl
    exact isTask.root thread isRoot
  refine ⟨_, swapped, ?_, isNext, flowNext⟩
  apply inv.move proper rfl rfl agree (.inr ⟨isTask, idle⟩)
  · refine .task isTask isNext ?_ flowNext ?_ ((flows _ ownApart).trans below.own) ?_
    · refine ⟨{ fiber with m_state := .EXEC }, ?_, rfl, parked.1⟩
      have left : id ≠ before.running thread := Ne.symm apart
      exact (switched_other left).trans isHere
    · rw [← isMain]
      exact ⟨_, switched_left apart, rfl⟩
    · intro root isRoot
      refine ⟨(flows root (rootApart root isRoot)).trans (below.root root isRoot).1, ?_⟩
      apply (below.root root isRoot).2.frame
      apply agree
      · -- the main fiber is the scheduler's
        intro same
        rcases mainFiber_cases setting thread with ⟨noRoot, -⟩ | isRoot'
        · rw [noRoot] at isRoot
          cases isRoot
        · rw [← isMain, ← same] at isRoot'
          exact proper.apart _ _ isRoot'
      · exact ownApart
  · intro isTask' _ _ _
    rw [isMain] at isTask'
    exact absurd isTask' (not_task_main setting thread)

/-- A task's fiber is left for the main fiber of its thread. -/
theorem Inv.swapOut (inv : Inv setting state) (proper : setting.Proper)
    (isTask : setting.Task (state.running thread)) {flow : Flow Id} (stack : fiber.m_stack = true)
    (fits : (resting fiber.m_state = false ∧ flow = .inside .MainFunc (state.running thread)) ∨
      fiber.m_state = .TERM ∨ fiber.m_state = .EXCEP) :
    ∃ next, ({ state.setFiber (state.running thread) fiber with
        flows := Function.update state.flows (state.running thread) flow }).swapOut setting thread
          (state.running thread) = some next ∧
      Inv setting next ∧ next.running thread = setting.GetMainFiber thread := by
  have runs := inv.runs thread
  have apart : state.running thread ≠ setting.GetMainFiber thread := by
    intro same
    rw [same] at isTask
    exact not_task_main setting thread isTask
  obtain ⟨waits, own, root⟩ : Waits state (setting.GetMainFiber thread) ∧
      state.flows (setting.t_threadFiber thread) = .thread ∧
      ∀ id, setting.m_rootFiber thread = some id →
        state.flows id = .inside .CallerMainFunc id ∧
          Waits state (setting.t_threadFiber thread) := by
    cases runs with
    | own isOwn _ _ _ => exact absurd isOwn.symm (isTask.own thread)
    | root isRoot isRunning _ _ _ _ =>
        rw [isRunning] at isTask
        exact absurd isRoot (isTask.root thread)
    | task _ _ _ _ waits own root => exact ⟨waits, own, root⟩
  have below : Below setting state thread := ⟨own, root⟩
  let before : State Thread Id Callback :=
    ({ state.setFiber (state.running thread) fiber with
        flows := Function.update state.flows (state.running thread) flow }).SetThis thread
      (setting.GetMainFiber thread)
  have isHere : before.fibers (before.running thread) = some fiber := Function.update_self ..
  have same : ∀ other, other ≠ state.running thread → Agree state before other := by
    intro other left
    exact ⟨Function.update_of_ne left _ _, Function.update_of_ne left _ _, rfl⟩
  have waitsHere : Waits before (setting.GetMainFiber thread) := waits.frame (same _ apart.symm)
  have flowHere := (same _ apart.symm).flows
  have alive : before.flows (setting.GetMainFiber thread) ≠ .ended := by
    rw [flowHere]
    exact below.alive
  have swapped := swapcontext_waits isHere apart waitsHere alive
  have agree : ∀ other, other ≠ state.running thread → other ≠ setting.GetMainFiber thread →
      Agree state (switched before thread fiber (setting.GetMainFiber thread)
        (before.flows (setting.GetMainFiber thread))) other := by
    intro other left notMain
    have kept := @switched_agree _ _ _ _ _ before thread other fiber _
      (before.flows (setting.GetMainFiber thread)) left notMain
    exact ⟨kept.fibers.trans (same other left).fibers, kept.flows.trans (same other left).flows,
      kept.changes⟩
  have isNext : (switched before thread fiber (setting.GetMainFiber thread)
      (before.flows (setting.GetMainFiber thread))).running thread = setting.GetMainFiber thread :=
    Function.update_self ..
  have flowNext : (switched before thread fiber (setting.GetMainFiber thread)
      (before.flows (setting.GetMainFiber thread))).flows (setting.GetMainFiber thread) =
        state.flows (setting.GetMainFiber thread) := (Function.update_self ..).trans flowHere
  have mainHere : ∃ fiber', (switched before thread fiber (setting.GetMainFiber thread)
      (before.flows (setting.GetMainFiber thread))).fibers (setting.GetMainFiber thread) =
        some fiber' := by
    obtain ⟨main, isMain, -⟩ := waitsHere
    have left : setting.GetMainFiber thread ≠ before.running thread := apart.symm
    exact ⟨main, (switched_other left).trans isMain⟩
  refine ⟨_, swapped, ?_, isNext⟩
  apply inv.move proper rfl rfl agree (.inl (Cast.main setting state thread))
  · rcases mainFiber_cases setting thread with ⟨noRoot, isOwn⟩ | isRoot
    · refine .own (isNext.trans isOwn) ?_ ?_ ?_
      · rwa [isOwn] at mainHere
      · rw [← isOwn]
        exact flowNext.trans ((congrArg state.flows isOwn).trans own)
      · intro id isRoot
        rw [noRoot] at isRoot
        cases isRoot
    · have ownApart : setting.t_threadFiber thread ≠ setting.GetMainFiber thread := by
        intro same
        rw [← same] at isRoot
        exact proper.apart _ _ isRoot
      have kept := agree _ (isTask.own thread) ownApart
      exact .root isRoot isNext mainHere (flowNext.trans (root _ isRoot).1)
        ((root _ isRoot).2.frame kept) (kept.flows.trans own)
  · intro _ _ last there
    have placed := @switched_left _ _ _ _ _ before thread fiber _
      (before.flows (setting.GetMainFiber thread)) apart
    cases placed.symm.trans there
    refine ⟨stack, ?_⟩
    rcases fits with ⟨working, isFlow⟩ | ended
    · refine .inr (.inl ⟨working, rfl, ?_⟩)
      have kept : (switched before thread fiber (setting.GetMainFiber thread)
          (before.flows (setting.GetMainFiber thread))).flows (state.running thread) =
            before.flows (state.running thread) := Function.update_of_ne apart _ _
      exact kept.trans ((Function.update_self ..).trans isFlow)
    · exact .inr (.inr ended)

theorem Inv.yieldToReady (inv : Inv setting state) (proper : setting.Proper)
    (isTask : setting.Task (state.running thread)) :
    ∃ next, state.YieldToReady setting thread = some next ∧ Inv setting next ∧
      next.running thread = setting.GetMainFiber thread := by
  cases inv.runs thread with
  | own isOwn _ _ _ => exact absurd isOwn.symm (isTask.own thread)
  | root isRoot isRunning _ _ _ _ => exact absurd (isRunning ▸ isRoot) (isTask.root thread)
  | task _ isRunning here flow _ _ _ =>
      obtain ⟨fiber, there, -, stack⟩ := here
      rw [← isRunning] at there flow
      have left := @Inv.swapOut _ _ _ _ _ _ _ thread { fiber with m_state := .READY } inv proper
        isTask _ stack (.inl ⟨rfl, rfl⟩)
      rw [← flow, Function.update_eq_self] at left
      rw [YieldToReady, inv.current, there]
      exact left

theorem Inv.yieldToHold (inv : Inv setting state) (proper : setting.Proper)
    (isTask : setting.Task (state.running thread)) :
    ∃ next, state.YieldToHold setting thread = some next ∧ Inv setting next ∧
      next.running thread = setting.GetMainFiber thread := by
  cases inv.runs thread with
  | own isOwn _ _ _ => exact absurd isOwn.symm (isTask.own thread)
  | root isRoot isRunning _ _ _ _ => exact absurd (isRunning ▸ isRoot) (isTask.root thread)
  | task _ isRunning here flow _ _ _ =>
      obtain ⟨fiber, there, executes, stack⟩ := here
      rw [← isRunning] at there flow
      have left := @Inv.swapOut _ _ _ _ _ _ _ thread fiber inv proper isTask _ stack
        (.inl ⟨by rw [executes]; rfl, rfl⟩)
      have same : state.setFiber (state.running thread) fiber = state := by
        rw [setFiber, ← there, Function.update_eq_self]
      rw [← flow, Function.update_eq_self, same] at left
      rw [YieldToHold, inv.current, there]
      dsimp only
      rw [if_pos executes]
      exact left

/-- The main function of a scheduler ends, and its thread goes on below. -/
theorem Inv.finish_root (inv : Inv setting state) (proper : setting.Proper) {returned : Bool}
    (isRoot : setting.m_rootFiber thread = some id) (isRunning : state.running thread = id)
    (there : state.fibers id = some fiber) (flow : state.flows id = .inside .CallerMainFunc id)
    (waits : Waits state (setting.t_threadFiber thread))
    (below : state.flows (setting.t_threadFiber thread) = .thread) :
    ∃ next, state.finish setting thread returned = some next ∧ Inv setting next ∧
      next.running thread = setting.t_threadFiber thread := by
  subst isRunning
  have apart : state.running thread ≠ setting.t_threadFiber thread := by
    intro same
    rw [same] at isRoot
    exact proper.apart _ _ isRoot
  let before : State Thread Id Callback :=
    ({ state.setFiber (state.running thread) (finished returned fiber) with
        flows := Function.update state.flows (state.running thread) .ended }).SetThis thread
      (setting.t_threadFiber thread)
  have isHere : before.fibers (before.running thread) = some (finished returned fiber) :=
    Function.update_self ..
  have same : ∀ other, other ≠ state.running thread → Agree state before other := by
    intro other left
    exact ⟨Function.update_of_ne left _ _, Function.update_of_ne left _ _, rfl⟩
  have waitsHere : Waits before (setting.t_threadFiber thread) := waits.frame (same _ apart.symm)
  have flowHere := ((same _ apart.symm).flows).trans below
  have swapped := swapcontext_waits isHere apart waitsHere (by rw [flowHere]; simp)
  rw [flowHere] at swapped
  have started : state.finish setting thread returned =
      before.swapcontext thread (before.running thread) (setting.t_threadFiber thread) := by
    rw [State.finish, flow]
    dsimp only
    rw [there]
    rfl
  have isNext : (switched before thread (finished returned fiber) (setting.t_threadFiber thread)
      .thread).running thread = setting.t_threadFiber thread := Function.update_self ..
  refine ⟨_, started.trans swapped, ?_, isNext⟩
  apply inv.move proper rfl rfl
  · intro other left notOwn
    have kept := @switched_agree _ _ _ _ _ before thread other (finished returned fiber) _ .thread
      left notOwn
    exact ⟨kept.fibers.trans (same other left).fibers, kept.flows.trans (same other left).flows,
      kept.changes⟩
  · exact .inl (.inl rfl)
  · refine .own isNext ?_ (Function.update_self ..) ?_
    · obtain ⟨own, isOwn, -⟩ := waitsHere
      have left : setting.t_threadFiber thread ≠ before.running thread := apart.symm
      exact ⟨own, (switched_other left).trans isOwn⟩
    · intro other isOther
      cases isRoot.symm.trans isOther
      refine ⟨_, @switched_left _ _ _ _ _ before thread _ _ _ apart, fun isNew => ?_⟩
      rcases finished_state returned fiber with ended | ended
      · rw [ended] at isNew
        cases isNew
      · rw [ended] at isNew
        cases isNew
  · intro isTask _ _ _
    exact absurd isRoot (isTask.root thread)

theorem Inv.finish (inv : Inv setting state) (proper : setting.Proper) {returned : Bool}
    (notOwn : state.running thread ≠ setting.t_threadFiber thread) :
    ∃ next, state.finish setting thread returned = some next ∧ Inv setting next ∧
      (next.running thread = setting.GetMainFiber thread ∨
        next.running thread = setting.t_threadFiber thread) := by
  cases inv.runs thread with
  | own isOwn _ _ _ => exact absurd isOwn notOwn
  | root isRoot isRunning here flow waits below =>
      obtain ⟨fiber, there⟩ := here
      obtain ⟨next, ended, kept, isNext⟩ :=
        inv.finish_root proper isRoot isRunning there flow waits below
      exact ⟨next, ended, kept, .inr isNext⟩
  | task isTask isRunning here flow _ _ _ =>
      obtain ⟨fiber, there, -, stack⟩ := here
      rw [← isRunning] at isTask there flow
      obtain ⟨next, ended, kept, isNext⟩ := @Inv.swapOut _ _ _ _ _ _ _ thread
        (finished returned fiber) inv proper isTask .ended
        ((finished_stack returned fiber).trans stack) (.inr (finished_state returned fiber))
      refine ⟨next, ?_, kept, .inl isNext⟩
      rw [State.finish, flow]
      dsimp only
      rw [there]
      exact ended

/-- `call`, which starts the main function of a scheduler. -/
theorem Inv.call (inv : Inv setting state) (proper : setting.Proper)
    (allowed : Allowed setting state (.call thread id)) :
    ∃ next, state.call setting thread id = some next ∧ Inv setting next ∧
      next.running thread = id := by
  obtain ⟨isOwn, isRoot, fiber, there, isNew⟩ := allowed
  have apart : state.running thread ≠ id := by
    rw [isOwn]
    rintro rfl
    exact proper.apart _ _ isRoot
  obtain ⟨own, isObject⟩ := (inv.runs thread).here
  obtain ⟨below, place⟩ : state.flows (setting.t_threadFiber thread) = .thread ∧
      fiber.m_ctx = .entry .CallerMainFunc := by
    cases inv.runs thread with
    | own _ _ flow root =>
        obtain ⟨other, isOther, begins⟩ := root id isRoot
        cases there.symm.trans isOther
        exact ⟨flow, begins isNew⟩
    | root isRoot' isRunning _ _ _ _ =>
        cases isRoot.symm.trans isRoot'
        exact absurd isRunning apart
    | task isTask isRunning _ _ _ _ _ => exact absurd (isOwn.symm.trans isRunning) (isTask.own thread)
  let before := (state.SetThis thread id).setFiber id { fiber with m_state := .EXEC }
  have isHere : before.fibers id = some { fiber with m_state := .EXEC } := Function.update_self ..
  have isOwnHere : before.fibers (before.running thread) = some own := by
    rw [← isObject]
    exact Function.update_of_ne apart _ _
  have speaks : before.t_fiber thread = id := Function.update_self ..
  have started : state.call setting thread id =
      before.swapcontext thread (before.running thread) id := by
    rw [State.call, there]
    dsimp only
    rw [← isOwn]
    rfl
  have swapped := swapcontext_entry isOwnHere apart isHere place
  rw [speaks] at swapped
  have isNext : (switched before thread own id (.inside .CallerMainFunc id)).running thread = id :=
    Function.update_self ..
  refine ⟨_, started.trans swapped, ?_, isNext⟩
  apply inv.move proper rfl rfl
  · intro other left notHere
    have same : before.fibers other = state.fibers other := Function.update_of_ne notHere _ _
    have kept := @switched_agree _ _ _ _ _ before thread other own id
      (.inside .CallerMainFunc id) left notHere
    exact ⟨kept.fibers.trans same, kept.flows, kept.changes⟩
  · exact .inl (.inr (.inl isRoot))
  · refine .root isRoot isNext ?_ (Function.update_self ..) ?_ ?_
    · have left : id ≠ before.running thread := apart.symm
      exact ⟨_, (switched_other left).trans isHere⟩
    · rw [← isOwn]
      exact ⟨_, @switched_left _ _ _ _ _ before thread own id _ apart, rfl⟩
    · have notHere : setting.t_threadFiber thread ≠ id := fun same => apart (isOwn.trans same)
      exact (Function.update_of_ne notHere _ _).trans below
  · intro isTask _ _ _
    exact absurd isOwn.symm (isTask.own thread)

omit [DecidableEq Thread] in
/-- A fiber that is on no thread and changes itself only. -/
theorem Inv.changed (inv : Inv setting state) (isTask : setting.Task id) (idle : state.Idle id)
    (parked : Parked state id fiber) : Inv setting (state.setFiber id fiber) := by
  refine inv.touch isTask idle rfl rfl ?_ ?_
  · intro other notHere
    exact ⟨Function.update_of_ne notHere _ _, rfl, rfl⟩
  · intro other there
    cases (Function.update_self ..).symm.trans there
    exact parked

omit [DecidableEq Thread] in
theorem Inv.create (inv : Inv setting state) (isTask : setting.Task id)
    (unused : state.fibers id = none) (cb : Callback) : Inv setting (state.create id cb) := by
  have idle : state.Idle id := by
    intro thread isRunning
    obtain ⟨fiber, there⟩ := (inv.runs thread).here
    rw [isRunning, unused] at there
    cases there
  refine inv.touch isTask idle rfl rfl ?_ ?_
  · intro other notHere
    exact ⟨Function.update_of_ne notHere _ _, Function.update_of_ne notHere _ _, rfl⟩
  · intro other there
    cases (Function.update_self ..).symm.trans there
    exact ⟨rfl, .inl ⟨rfl, rfl⟩⟩

omit [DecidableEq Thread] in
theorem Inv.reset (inv : Inv setting state) {cb : Option Callback}
    (allowed : Allowed setting state (.reset id cb)) :
    ∃ next, state.reset id cb = some next ∧ Inv setting next := by
  obtain ⟨isTask, idle, fiber, there, rests⟩ := allowed
  have parked := inv.parked id isTask idle fiber there
  let next : Fiber Id Callback :=
    { fiber with m_cb := cb, m_ctx := .entry .MainFunc, m_state := .INIT }
  have isParked : Parked state id next := ⟨parked.1, .inl ⟨rfl, rfl⟩⟩
  refine ⟨state.setFiber id next, ?_, inv.changed isTask idle isParked⟩
  rw [State.reset, there]
  apply if_pos
  rw [parked.1, rests]
  rfl

omit [DecidableEq Thread] in
theorem Inv.destroy (inv : Inv setting state) (allowed : Allowed setting state (.destroy id)) :
    ∃ next, state.destroy id = some next ∧ Inv setting next := by
  obtain ⟨isTask, idle, fiber, there, rests⟩ := allowed
  refine ⟨{ state with fibers := Function.update state.fibers id none }, ?_, ?_⟩
  · rw [State.destroy, there]
    exact if_pos rests
  · refine inv.touch isTask idle rfl rfl ?_ ?_
    · intro other notHere
      exact ⟨Function.update_of_ne notHere _ _, rfl, rfl⟩
    · intro other there
      cases (Function.update_self ..).symm.trans there

omit [DecidableEq Thread] in
theorem Inv.hold (inv : Inv setting state) (allowed : Allowed setting state (.hold id)) :
    ∃ next, state.hold id = some next ∧ Inv setting next := by
  obtain ⟨isTask, idle, fiber, there, works⟩ := allowed
  have parked := inv.parked id isTask idle fiber there
  have waits : fiber.m_ctx = .point id (state.changes id) ∧
      state.flows id = .inside .MainFunc id := by
    rcases parked.2 with ⟨isNew, -⟩ | ⟨-, place, flow⟩ | ended | ended
    · rw [isNew] at works
      cases works
    · exact ⟨place, flow⟩
    · rw [ended] at works
      cases works
    · rw [ended] at works
      cases works
  let next : Fiber Id Callback := { fiber with m_state := .HOLD }
  have isParked : Parked state id next := ⟨parked.1, .inr (.inl ⟨rfl, waits⟩)⟩
  refine ⟨state.setFiber id next, ?_, inv.changed isTask idle isParked⟩
  rw [State.hold, there]

/-- Every step that is allowed can be made, and keeps the invariant. -/
theorem Inv.step (inv : Inv setting state) (proper : setting.Proper)
    {event : Event Thread Id Callback} (allowed : Allowed setting state event) :
    ∃ next, state.step setting event = some next ∧ Inv setting next := by
  cases event with
  | create id cb => exact ⟨_, rfl, inv.create allowed.1 allowed.2 cb⟩
  | reset => exact inv.reset allowed
  | destroy => exact inv.destroy allowed
  | hold => exact inv.hold allowed
  | call =>
      obtain ⟨next, called, kept, -⟩ := inv.call proper allowed
      exact ⟨next, called, kept⟩
  | swapIn =>
      obtain ⟨next, swapped, kept, -⟩ := inv.swapIn proper allowed
      exact ⟨next, swapped, kept⟩
  | YieldToReady =>
      obtain ⟨next, left, kept, -⟩ := inv.yieldToReady proper allowed
      exact ⟨next, left, kept⟩
  | YieldToHold =>
      obtain ⟨next, left, kept, -⟩ := inv.yieldToHold proper allowed
      exact ⟨next, left, kept⟩
  | finish thread returned =>
      obtain ⟨next, left, kept, -⟩ := @Inv.finish _ _ _ _ _ _ _ thread inv proper returned allowed
      exact ⟨next, left, kept⟩

theorem inv_reached (proper : setting.Proper)
    (reached : (system setting).Reaches (Allowed setting) state) : Inv setting state := by
  apply reached.invariant
  · intro state initial
    exact Inv.initial proper initial
  · intro state event next _ inv allowed stepped
    obtain ⟨after, taken, kept⟩ := inv.step proper allowed
    cases taken.symm.trans stepped
    exact kept

/-- The current fiber of a thread is the one that it runs, and no fiber is on two threads.  No
assertion fails and no context is gone to twice.  A fiber that is swapped in runs its callback,
and one that yields or ends goes back to the main fiber of the thread that it is on. -/
structure Right (setting : Setting Thread Id) (state : State Thread Id Callback) : Prop where
  current : ∀ thread, state.t_fiber thread = state.running thread
  single : ∀ first second, state.running first = state.running second → first = second
  succeeds : ∀ event, Allowed setting state event → ∃ next, state.step setting event = some next
  enters : ∀ thread id next, Allowed setting state (.swapIn thread id) →
    state.step setting (.swapIn thread id) = some next →
      next.running thread = id ∧ next.flows id = .inside .MainFunc id
  leaves : ∀ thread next, setting.Task (state.running thread) →
    state.step setting (.YieldToReady thread) = some next ∨
      state.step setting (.YieldToHold thread) = some next ∨
      (∃ returned, state.step setting (.finish thread returned) = some next) →
    next.running thread = setting.GetMainFiber thread

theorem Inv.leaves (inv : Inv setting state) (proper : setting.Proper)
    (isTask : setting.Task (state.running thread))
    (left : state.step setting (.YieldToReady thread) = some next ∨
      state.step setting (.YieldToHold thread) = some next ∨
      ∃ returned, state.step setting (.finish thread returned) = some next) :
    next.running thread = setting.GetMainFiber thread := by
  rcases left with ready | held | ⟨returned, ended⟩
  · obtain ⟨after, taken, -, isNext⟩ := inv.yieldToReady proper isTask
    cases taken.symm.trans ready
    exact isNext
  · obtain ⟨after, taken, -, isNext⟩ := inv.yieldToHold proper isTask
    cases taken.symm.trans held
    exact isNext
  · cases inv.runs thread with
    | own isOwn _ _ _ => exact absurd isOwn.symm (isTask.own thread)
    | root isRoot isRunning _ _ _ _ => exact absurd (isRunning ▸ isRoot) (isTask.root thread)
    | task _ isRunning here flow _ _ _ =>
        obtain ⟨fiber, there, -, stack⟩ := here
        rw [← isRunning] at there flow
        obtain ⟨after, taken, -, isNext⟩ := @Inv.swapOut _ _ _ _ _ _ _ thread
          (finished returned fiber) inv proper isTask .ended
          ((finished_stack returned fiber).trans stack) (.inr (finished_state returned fiber))
        have same : state.finish setting thread returned = some after := by
          rw [State.finish, flow]
          dsimp only
          rw [there]
          exact taken
        cases same.symm.trans ended
        exact isNext

/-- Switches are right in every run in which fibers are swapped in by the main fibers. -/
theorem switches_right (proper : setting.Proper)
    (reached : (system setting).Reaches (Allowed setting) state) : Right setting state := by
  have inv := inv_reached proper reached
  constructor
  · exact inv.current
  · exact inv.single
  · intro event allowed
    obtain ⟨next, taken, -⟩ := inv.step proper allowed
    exact ⟨next, taken⟩
  · intro thread id next allowed taken
    obtain ⟨after, swapped, -, isNext, flow⟩ := inv.swapIn proper allowed
    cases swapped.symm.trans taken
    exact ⟨isNext, flow⟩
  · intro thread next isTask left
    exact inv.leaves proper isTask left

end Events

/-! ### A worker with one task -/

def lone : Setting Unit Nat where
  t_threadFiber := fun _ => 0
  m_rootFiber := fun _ => none

theorem lone_proper : lone.Proper where
  own := fun _ _ _ => rfl
  root := fun _ _ _ _ _ => rfl
  apart := fun _ _ => Option.some_ne_none 0 ∘ Eq.symm

def alone : State Unit Nat Unit where
  fibers := fun id => if id = 0 then some ⟨.EXEC, false, none, .constructor⟩ else none
  flows := fun id => if id = 0 then .thread else .absent
  changes := fun _ => 0
  running := fun _ => 0
  t_fiber := fun _ => 0

theorem alone_initial : Initial lone alone where
  running := fun _ => rfl
  current := fun _ => rfl
  own := fun _ => ⟨rfl, rfl⟩
  root := by
    intro thread id isRoot
    cases isRoot
  task := by
    intro id isTask
    exact if_neg (Ne.symm (isTask.own ()))

theorem task_lone : lone.Task 1 where
  own := fun _ => Nat.zero_ne_one
  root := by
    intro thread isRoot
    cases isRoot

theorem switches_right_lone : ∃ state : State Unit Nat Unit, state.running () = 1 ∧ Right lone state := by
  have creates : Allowed lone alone (.create 1 ()) := ⟨task_lone, rfl⟩
  have created : (system lone).Reaches (Allowed lone) (alone.create 1 ()) :=
    .step (.initial alone_initial) creates rfl
  have enters : Allowed lone (alone.create 1 ()) (.swapIn () 1) := by
    refine ⟨rfl, task_lone, fun _ => Nat.zero_ne_one, _, rfl, ?_⟩
    decide
  obtain ⟨next, taken, isNext⟩ : ∃ next, (alone.create 1 ()).step lone (.swapIn () 1) = some next ∧
      next.running () = 1 := ⟨_, rfl, rfl⟩
  exact ⟨next, isNext, switches_right lone_proper (.step created enters taken)⟩

end Exhy.Fibers
