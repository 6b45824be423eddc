import Exhy.Scheduler.Core

/-!
# Fibers

`Fiber` of `exhy_fiber.cpp` on any number of threads.  A `ucontext_t` says where the thread that
is switched to it goes on; a thread that goes on where it is not meant to has no next state, and
neither has one whose assertion fails.
-/

namespace Exhy.Fibers

open Scheduler (FiberState)

/-- The functions that a context is made for. -/
inductive Entry where
  | MainFunc
  | CallerMainFunc
  deriving DecidableEq, Repr

/-- `ucontext_t`.  `point stack number`: where the flow of control on that stack was when it was
left.  It is the last time when the flow has not changed since. -/
inductive Context (Id : Type) where
  | constructor
  | entry (entry : Entry)
  | point (stack : Id) (number : Nat)
  deriving DecidableEq, Repr

structure Fiber (Id Callback : Type) where
  m_state : FiberState
  m_stack : Bool
  m_cb : Option Callback
  m_ctx : Context Id
  deriving DecidableEq, Repr

/-- The flow of control on a stack, which is known by its fiber: the function of the thread, the
callback that one of the entry functions has called for `cur`, or the end of that function. -/
inductive Flow (Id : Type) where
  | absent
  | thread
  | inside (entry : Entry) (cur : Id)
  | ended
  deriving DecidableEq, Repr

/-- The fiber that `GetThis` makes for each thread, and the one that a scheduler has on the
thread that made it with `use_caller`. -/
structure Setting (Thread Id : Type) where
  t_threadFiber : Thread → Id
  m_rootFiber : Thread → Option Id

/-- `Scheduler::GetMainFiber()`. -/
def Setting.GetMainFiber {Thread Id : Type} (setting : Setting Thread Id) (thread : Thread) : Id :=
  (setting.m_rootFiber thread).getD (setting.t_threadFiber thread)

structure State (Thread Id Callback : Type) where
  fibers : Id → Option (Fiber Id Callback)
  flows : Id → Flow Id
  /-- How often the flow on a stack was left or went on. -/
  changes : Id → Nat
  running : Thread → Id
  t_fiber : Thread → Id

namespace State

variable {Thread Id Callback : Type} [DecidableEq Thread] [DecidableEq Id]

section Operations

variable (setting : Setting Thread Id) (state : State Thread Id Callback) (thread : Thread)

def setFiber (id : Id) (fiber : Fiber Id Callback) : State Thread Id Callback :=
  { state with fibers := Function.update state.fibers id (some fiber) }

def SetThis (id : Id) : State Thread Id Callback :=
  { state with t_fiber := Function.update state.t_fiber thread id }

/-- The thread goes on with the flow on a stack. -/
def goOn (stack : Id) (flow : Flow Id) : State Thread Id Callback :=
  { state with
    flows := Function.update state.flows stack flow
    changes := Function.update state.changes stack (state.changes stack + 1)
    running := Function.update state.running thread stack }

/-- The thread goes on where a context says.  Behind the last switch of an entry function an
assertion fails. -/
def setcontext (id : Id) : Option (State Thread Id Callback) :=
  match state.fibers id with
  | none => none
  | some fiber =>
      match fiber.m_ctx with
      | .constructor => none
      | .entry entry => some (state.goOn thread id (.inside entry (state.t_fiber thread)))
      | .point stack number =>
          if state.changes stack = number ∧ state.flows stack ≠ .ended then
            some (state.goOn thread stack (state.flows stack))
          else none

/-- The flow that runs is left, and a context has its place. -/
def leave (id : Id) (fiber : Fiber Id Callback) : State Thread Id Callback :=
  let stack := state.running thread
  { state with
    fibers := Function.update state.fibers id
      (some { fiber with m_ctx := .point stack (state.changes stack + 1) })
    changes := Function.update state.changes stack (state.changes stack + 1) }

/-- `swapcontext(&first->m_ctx, &second->m_ctx)`. -/
def swapcontext (first second : Id) : Option (State Thread Id Callback) :=
  match state.fibers first with
  | none => none
  | some fiber => (state.leave thread first fiber).setcontext thread second

def call (id : Id) : Option (State Thread Id Callback) :=
  match state.fibers id with
  | none => none
  | some fiber =>
      ((state.SetThis thread id).setFiber id { fiber with m_state := .EXEC }).swapcontext thread
        (setting.t_threadFiber thread) id

def swapIn (id : Id) : Option (State Thread Id Callback) :=
  match state.fibers id with
  | none => none
  | some fiber =>
      if fiber.m_state = .EXEC then none
      else
        ((state.SetThis thread id).setFiber id { fiber with m_state := .EXEC }).swapcontext thread
          (setting.GetMainFiber thread) id

def back (id : Id) : Option (State Thread Id Callback) :=
  (state.SetThis thread (setting.t_threadFiber thread)).swapcontext thread id
    (setting.t_threadFiber thread)

def swapOut (id : Id) : Option (State Thread Id Callback) :=
  (state.SetThis thread (setting.GetMainFiber thread)).swapcontext thread id
    (setting.GetMainFiber thread)

def YieldToReady : Option (State Thread Id Callback) :=
  let cur := state.t_fiber thread
  match state.fibers cur with
  | none => none
  | some fiber => (state.setFiber cur { fiber with m_state := .READY }).swapOut setting thread cur

def YieldToHold : Option (State Thread Id Callback) :=
  let cur := state.t_fiber thread
  match state.fibers cur with
  | none => none
  | some fiber => if fiber.m_state = .EXEC then state.swapOut setting thread cur else none

/-- What an entry function does behind its callback, which has returned or has thrown. -/
def finish (returned : Bool) : Option (State Thread Id Callback) :=
  match state.flows (state.running thread) with
  | .inside entry cur =>
      match state.fibers cur with
      | none => none
      | some fiber =>
          let fiber :=
            if returned then { fiber with m_cb := none, m_state := .TERM }
            else { fiber with m_state := .EXCEP }
          let ended :=
            { state.setFiber cur fiber with
              flows := Function.update state.flows (state.running thread) .ended }
          match entry with
          | .MainFunc => ended.swapOut setting thread cur
          | .CallerMainFunc => ended.back setting thread cur
  | _ => none

/-- The states in which a fiber may be reset or destroyed. -/
def resting (m_state : FiberState) : Bool :=
  m_state = .INIT || m_state = .TERM || m_state = .EXCEP

/-- `Fiber(cb)`. -/
def create (id : Id) (cb : Callback) : State Thread Id Callback :=
  { state.setFiber id ⟨.INIT, true, some cb, .entry .MainFunc⟩ with
    flows := Function.update state.flows id .absent }

def reset (id : Id) (cb : Option Callback) : Option (State Thread Id Callback) :=
  match state.fibers id with
  | none => none
  | some fiber =>
      if fiber.m_stack && resting fiber.m_state then
        some (state.setFiber id
          { fiber with m_cb := cb, m_ctx := .entry .MainFunc, m_state := .INIT })
      else none

/-- `~Fiber()` of a fiber with a stack. -/
def destroy (id : Id) : Option (State Thread Id Callback) :=
  match state.fibers id with
  | none => none
  | some fiber =>
      if resting fiber.m_state then
        some { state with fibers := Function.update state.fibers id none }
      else none

/-- What `Scheduler::run` does with a fiber that has not become ready and has not ended. -/
def hold (id : Id) : Option (State Thread Id Callback) :=
  match state.fibers id with
  | none => none
  | some fiber => some (state.setFiber id { fiber with m_state := .HOLD })

end Operations

end State

/-- What the code on a thread does. -/
inductive Event (Thread Id Callback : Type) where
  | create (id : Id) (cb : Callback)
  | reset (id : Id) (cb : Option Callback)
  | destroy (id : Id)
  | hold (id : Id)
  | call (thread : Thread) (id : Id)
  | swapIn (thread : Thread) (id : Id)
  | YieldToReady (thread : Thread)
  | YieldToHold (thread : Thread)
  | finish (thread : Thread) (returned : Bool)

def State.step {Thread Id Callback : Type} [DecidableEq Thread] [DecidableEq Id]
    (setting : Setting Thread Id) (state : State Thread Id Callback) :
    Event Thread Id Callback → Option (State Thread Id Callback)
  | .create id cb => some (state.create id cb)
  | .reset id cb => state.reset id cb
  | .destroy id => state.destroy id
  | .hold id => state.hold id
  | .call thread id => state.call setting thread id
  | .swapIn thread id => state.swapIn setting thread id
  | .YieldToReady thread => state.YieldToReady setting thread
  | .YieldToHold thread => state.YieldToHold setting thread
  | .finish thread returned => state.finish setting thread returned

end Exhy.Fibers
