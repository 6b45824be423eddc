import Exhy.Library.CString
import Mathlib.Algebra.Group.Int.Defs
import Mathlib.Algebra.Group.Nat.Defs
import Mathlib.Data.Finset.Card

/-!
# Event registration of the I/O manager

The `FdContext` table of `IOManager` and the operations that arm, disarm and trigger
events.  Every operation runs under the mutex of one `FdContext`, so each is one
function here.  `epoll_ctl` may succeed or fail arbitrarily: its outcome is the
argument `ctl`.  What a call does besides changing the table is returned as a list of
`Effect`s, in order.
-/

namespace Exhy.IOManager

/-- The two bits of the C++ `Event`; a mask is a set of them, and `NONE` the empty set. -/
inductive Event where
  | READ
  | WRITE
  deriving DecidableEq, Repr

/-- A failed assertion or an access that C++ leaves undefined. -/
inductive Fault where
  | assertion (text : String)
  | nullScheduler
  | outOfRange
  deriving DecidableEq, Repr

/-- A descriptor: the non-negative values of `int`. -/
abbrev Fd := Fin (2 ^ 31)

variable {Scheduler Fiber Callback : Type}

/-- What is handed to a scheduler. -/
inductive Task (Fiber Callback : Type) where
  | fiber (fiber : Fiber)
  | cb (cb : Callback)
  deriving DecidableEq, Repr

/-- The task that `addEvent` registers: the callback, or the current fiber without one. -/
def Task.ofCallback (cb : Option Callback) (cur : Fiber) : Task Fiber Callback :=
  match cb with
  | some cb => .cb cb
  | none => .fiber cur

/-- `EventContext`; null pointers and empty functions are `none`. -/
structure EventContext (Scheduler Fiber Callback : Type) where
  scheduler : Option Scheduler := none
  fiber : Option Fiber := none
  cb : Option Callback := none
  deriving DecidableEq, Repr

structure FdContext (Scheduler Fiber Callback : Type) where
  read : EventContext Scheduler Fiber Callback := {}
  write : EventContext Scheduler Fiber Callback := {}
  fd : Nat := 0
  events : Finset Event := ∅
  deriving DecidableEq

/-- A task together with the scheduler that is to run it. -/
structure Registration (Scheduler Fiber Callback : Type) where
  scheduler : Scheduler
  task : Task Fiber Callback
  deriving DecidableEq, Repr

inductive Action (Scheduler Fiber Callback : Type) where
  | armed (registration : Registration Scheduler Fiber Callback)
  | scheduled (registration : Registration Scheduler Fiber Callback)
  | removed
  deriving DecidableEq, Repr

/-- Something that happened to one event of one descriptor. -/
structure Effect (Scheduler Fiber Callback : Type) where
  fd : Nat
  event : Event
  action : Action Scheduler Fiber Callback
  deriving DecidableEq, Repr

namespace FdContext

/-- `getContext(Event)`. -/
def getContext (fd_ctx : FdContext Scheduler Fiber Callback) :
    Event → EventContext Scheduler Fiber Callback
  | .READ => fd_ctx.read
  | .WRITE => fd_ctx.write

/-- Writing through the reference that `getContext` returns. -/
def setContext (fd_ctx : FdContext Scheduler Fiber Callback) (event : Event)
    (ctx : EventContext Scheduler Fiber Callback) : FdContext Scheduler Fiber Callback :=
  match event with
  | .READ => { fd_ctx with read := ctx }
  | .WRITE => { fd_ctx with write := ctx }

/-- `resetContext(EventContext&)`. -/
def resetContext (fd_ctx : FdContext Scheduler Fiber Callback) (event : Event) :
    FdContext Scheduler Fiber Callback :=
  fd_ctx.setContext event {}

/-- `triggerEvent(Event)`.  `schedule` swaps the task out of the context, and pushes
nothing when there was none. -/
def triggerEvent (fd_ctx : FdContext Scheduler Fiber Callback) (event : Event) :
    Except Fault (FdContext Scheduler Fiber Callback × List (Effect Scheduler Fiber Callback)) :=
  if event ∈ fd_ctx.events then
    let fd_ctx := { fd_ctx with events := fd_ctx.events.erase event }
    let ctx := fd_ctx.getContext event
    match ctx.scheduler with
    | none => .error .nullScheduler
    | some scheduler =>
        match ctx.cb with
        | some cb =>
            .ok (fd_ctx.setContext event { ctx with cb := none, scheduler := none },
              [⟨fd_ctx.fd, event, .scheduled ⟨scheduler, .cb cb⟩⟩])
        | none =>
            .ok (fd_ctx.setContext event { ctx with fiber := none, scheduler := none },
              ctx.fiber.toList.map fun fiber =>
                ⟨fd_ctx.fd, event, .scheduled ⟨scheduler, .fiber fiber⟩⟩)
  else .error (.assertion "events & event")

end FdContext

end IOManager

/-- The fields of `IOManager` that the event operations use. -/
structure IOManager (Scheduler Fiber Callback : Type) where
  m_fdContexts : List (IOManager.FdContext Scheduler Fiber Callback)
  m_pendingEventCount : UInt64

namespace IOManager

open Library

variable {Scheduler Fiber Callback : Type}

/-- `contextResize(size_t size)`: a shrinking `resize` drops contexts. -/
def contextResize (io : IOManager Scheduler Fiber Callback) (size : Nat) :
    IOManager Scheduler Fiber Callback :=
  let kept := io.m_fdContexts.take size
  let added := (List.range (size - kept.length)).map fun i =>
    ({ fd := kept.length + i } : FdContext Scheduler Fiber Callback)
  { io with m_fdContexts := kept ++ added }

/-- The table after the constructor. -/
def new : IOManager Scheduler Fiber Callback :=
  contextResize { m_fdContexts := [], m_pendingEventCount := 0 } 32

/-- Store a context back into the table. -/
def setFdContext (io : IOManager Scheduler Fiber Callback) (fd : Nat)
    (fd_ctx : FdContext Scheduler Fiber Callback) : IOManager Scheduler Fiber Callback :=
  { io with m_fdContexts := io.m_fdContexts.set fd fd_ctx }

/-- `(int)m_fdContexts.size() > fd`: the cast keeps the low half of the size, which is negative from
`2^31` on. -/
def Covers (io : IOManager Scheduler Fiber Callback) (fd : Fd) : Prop :=
  fd.val < io.m_fdContexts.length % 2 ^ 32 ∧ io.m_fdContexts.length % 2 ^ 32 < 2 ^ 31

instance (io : IOManager Scheduler Fiber Callback) (fd : Fd) : Decidable (io.Covers fd) :=
  inferInstanceAs (Decidable (_ ∧ _))

/-- The comparison as the source has it. -/
theorem covers_iff (io : IOManager Scheduler Fiber Callback) (fd : Fd) :
    io.Covers fd ↔ toInt32 io.m_fdContexts.length > fd.val := by
  have inside := fd.isLt
  rw [Covers, toInt32_eq]
  split <;> omega

/-- The table that `addEvent` looks the descriptor up in; `fd * 1.5` is exact. -/
def reserve (io : IOManager Scheduler Fiber Callback) (fd : Fd) :
    IOManager Scheduler Fiber Callback :=
  if io.Covers fd then io else io.contextResize (fd.val * 3 / 2)

/-- The context that the other calls find. -/
def lookup (io : IOManager Scheduler Fiber Callback) (fd : Fd) :
    Option (FdContext Scheduler Fiber Callback) :=
  if io.Covers fd then io.m_fdContexts[fd.val]? else none

theorem getElem?_of_lookup {io : IOManager Scheduler Fiber Callback} {fd : Fd}
    {fd_ctx : FdContext Scheduler Fiber Callback} (found : io.lookup fd = some fd_ctx) :
    io.m_fdContexts[fd.val]? = some fd_ctx := by
  rw [lookup] at found
  split at found
  next => exact found
  next => cases found

/-- `addEvent(fd, event, cb)`.  `self` is `Scheduler::GetThis()` and `cur` is
`Fiber::GetThis()`. -/
def addEvent [DecidableEq Scheduler] [DecidableEq Fiber] [DecidableEq Callback]
    (io : IOManager Scheduler Fiber Callback) (fd : Fd) (event : Event)
    (cb : Option Callback) (self : Option Scheduler) (cur : Fiber) (ctl : Bool) :
    Except Fault (IOManager Scheduler Fiber Callback × Int ×
      List (Effect Scheduler Fiber Callback)) :=
  let io := io.reserve fd
  match io.m_fdContexts[fd.val]? with
  | none => .error .outOfRange
  | some fd_ctx =>
      if event ∈ fd_ctx.events then .error (.assertion "!(fd_ctx->events & event)")
      else if ctl = false then .ok (io, -1, [])
      else if fd_ctx.getContext event ≠ {} then
        .error (.assertion "!event_ctx.scheduler && !event_ctx.fiber && !event_ctx.cb")
      else
        let event_ctx : EventContext Scheduler Fiber Callback :=
          match cb with
          | some cb => { scheduler := self, cb := some cb }
          | none => { scheduler := self, fiber := some cur }
        let fd_ctx := { fd_ctx with events := insert event fd_ctx.events }
        .ok ({ io.setFdContext fd.val (fd_ctx.setContext event event_ctx) with
            m_pendingEventCount := io.m_pendingEventCount + 1 },
          0, self.toList.map fun scheduler =>
            ⟨fd_ctx.fd, event, .armed ⟨scheduler, Task.ofCallback cb cur⟩⟩)

/-- `delEvent(fd, event)`. -/
def delEvent (io : IOManager Scheduler Fiber Callback) (fd : Fd) (event : Event)
    (ctl : Bool) :
    Except Fault (IOManager Scheduler Fiber Callback × Bool ×
      List (Effect Scheduler Fiber Callback)) :=
  match io.lookup fd with
  | none => .ok (io, false, [])
  | some fd_ctx =>
      if event ∉ fd_ctx.events then .ok (io, false, [])
      else if ctl = false then .ok (io, false, [])
      else
        let new_events := fd_ctx.events.erase event
        .ok ({ io.setFdContext fd.val ({ fd_ctx with events := new_events }.resetContext event)
            with m_pendingEventCount := io.m_pendingEventCount - 1 },
          true, [⟨fd_ctx.fd, event, .removed⟩])

/-- `fd_ctx->triggerEvent(event); --m_pendingEventCount;`, which `cancelEvent`,
`cancelAll` and `idle` share. -/
def fire (io : IOManager Scheduler Fiber Callback) (fd : Nat) (event : Event) :
    Except Fault (IOManager Scheduler Fiber Callback × List (Effect Scheduler Fiber Callback)) :=
  match io.m_fdContexts[fd]? with
  | none => .error .outOfRange
  | some fd_ctx =>
      match fd_ctx.triggerEvent event with
      | .error fault => .error fault
      | .ok (fd_ctx, effects) =>
          .ok ({ io.setFdContext fd fd_ctx with
            m_pendingEventCount := io.m_pendingEventCount - 1 }, effects)

/-- `if(mask & event) { triggerEvent(event); --m_pendingEventCount; }` -/
def fireIf (io : IOManager Scheduler Fiber Callback) (fd : Nat) (mask : Finset Event)
    (event : Event) :
    Except Fault (IOManager Scheduler Fiber Callback × List (Effect Scheduler Fiber Callback)) :=
  if event ∈ mask then io.fire fd event else .ok (io, [])

/-- `READ` is looked at first, then `WRITE`. -/
def fireAll (io : IOManager Scheduler Fiber Callback) (fd : Nat) (mask : Finset Event) :
    Except Fault (IOManager Scheduler Fiber Callback × List (Effect Scheduler Fiber Callback)) := do
  let (io, reads) ← io.fireIf fd mask .READ
  let (io, writes) ← io.fireIf fd mask .WRITE
  return (io, reads ++ writes)

/-- `cancelEvent(fd, event)`. -/
def cancelEvent (io : IOManager Scheduler Fiber Callback) (fd : Fd) (event : Event)
    (ctl : Bool) :
    Except Fault (IOManager Scheduler Fiber Callback × Bool ×
      List (Effect Scheduler Fiber Callback)) :=
  match io.lookup fd with
  | none => .ok (io, false, [])
  | some fd_ctx =>
      if event ∉ fd_ctx.events then .ok (io, false, [])
      else if ctl = false then .ok (io, false, [])
      else (io.fire fd.val event).map fun (io, effects) => (io, true, effects)

/-- `cancelAll(fd)`.  Triggering `READ` leaves the `WRITE` bit alone, so both bits may
be read before the first of them is triggered. -/
def cancelAll (io : IOManager Scheduler Fiber Callback) (fd : Fd) (ctl : Bool) :
    Except Fault (IOManager Scheduler Fiber Callback × Bool ×
      List (Effect Scheduler Fiber Callback)) :=
  match io.lookup fd with
  | none => .ok (io, false, [])
  | some fd_ctx =>
      if fd_ctx.events = ∅ then .ok (io, false, [])
      else if ctl = false then .ok (io, false, [])
      else
        match io.fireAll fd.val fd_ctx.events with
        | .error fault => .error fault
        | .ok (io, effects) =>
            if (io.m_fdContexts[fd.val]?.map FdContext.events) = some ∅ then
              .ok (io, true, effects)
            else .error (.assertion "fd_ctx->events == 0")

/-- The bits of `epoll_event::events` that `idle` looks at. -/
structure EpollEvents where
  EPOLLIN : Bool := false
  EPOLLOUT : Bool := false
  EPOLLERR : Bool := false
  EPOLLHUP : Bool := false
  deriving DecidableEq, Repr

/-- `real_events` of one reported event: an error or a hang-up stands for everything
that is armed. -/
def EpollEvents.realEvents (event : EpollEvents) (armed : Finset Event) : Finset Event :=
  let all := event.EPOLLERR || event.EPOLLHUP
  (if event.EPOLLIN || all && .READ ∈ armed then {Event.READ} else ∅) ∪
    (if event.EPOLLOUT || all && .WRITE ∈ armed then {Event.WRITE} else ∅)

/-- One element of the array that `epoll_wait` filled, with the outcome of the
`epoll_ctl` that its dispatch will make. -/
structure Ready where
  fd : Fd
  events : EpollEvents
  ctl : Bool
  deriving DecidableEq, Repr

/-- The body of the loop over `events[i]` in `idle`, for a descriptor other than the
tickle pipe. -/
def dispatch (io : IOManager Scheduler Fiber Callback) (ready : Ready) :
    Except Fault (IOManager Scheduler Fiber Callback × List (Effect Scheduler Fiber Callback)) :=
  match io.m_fdContexts[ready.fd.val]? with
  | none => .error .outOfRange
  | some fd_ctx =>
      let real_events := ready.events.realEvents fd_ctx.events
      if fd_ctx.events ∩ real_events = ∅ then .ok (io, [])
      else if ready.ctl = false then .ok (io, [])
      else io.fireAll ready.fd.val real_events

/-- The loop over the events of one `epoll_wait`. -/
def dispatchAll (io : IOManager Scheduler Fiber Callback) :
    List Ready →
    Except Fault (IOManager Scheduler Fiber Callback × List (Effect Scheduler Fiber Callback))
  | [] => .ok (io, [])
  | ready :: rest => do
      let (io, effects) ← io.dispatch ready
      let (io, more) ← dispatchAll io rest
      return (io, effects ++ more)

end IOManager

end Exhy
