import Exhy.IOManager.Registration
import Exhy.Timer.Expiry

/-!
# Hooked calls

One call of `do_io` from its label `retry`, or of `connect_with_timeout` from its system
call on, on a fiber of one worker, while other workers expire timers, run timer callbacks,
dispatch events and run other tasks.  Each region under a lock is one step.
-/

namespace Exhy

open Library IOManager

/-- The callback of a timer: `OnTimer` on the function that a hooked call makes, or
something else.  The code makes the same function for every wait of a call; the number
tells the waits apart. -/
inductive HookCallback where
  | timeout (wait : Nat)
  | other
  deriving DecidableEq, Repr

/-- The arguments of one call.  `do_io` retries after a wait that was not cancelled,
`connect_with_timeout` does not. -/
structure TimedCall (Scheduler Fiber : Type) where
  fiber : Fiber
  scheduler : Scheduler
  fd : Fd
  event : Event
  timeout_ms : UInt64
  retries : Bool

namespace TimedCall

/-- Where the call is.  `addEvent` is reached with the timer armed, `unwind` when
`addEvent` has failed; the flag of `done` says whether the call returns -1 with
`ETIMEDOUT`. -/
inductive Pc where
  | syscall
  | arm
  | addEvent
  | yield
  | parked
  | cancelTimer
  | check
  | unwind
  | done (timedOut : Bool)
  deriving DecidableEq, Repr

/-- `to != (uint64_t)-1` is false. -/
def infinite : UInt64 := 0xFFFFFFFFFFFFFFFF

/-- A callback that has been handed out: not started, past the test of `cancelled`, and
past its assignment. -/
inductive Phase where
  | extracted
  | tested
  | cancelling
  deriving DecidableEq, Repr

/-- The state.  `cancelled` is `tinfo->cancelled`, with the wait whose callback has set it;
`armedAt` is the reading of the clock that the timer was made with. -/
structure State (Scheduler Fiber Callback Ref : Type) where
  io : IOManager Scheduler Fiber Callback
  log : List (Effect Scheduler Fiber Callback)
  queue : List (Registration Scheduler Fiber Callback)
  manager : TimerManager Ref HookCallback
  clock : UInt64
  pc : Pc
  wait : Nat
  timer : Option Ref
  cancelled : Option Nat
  running : List (Nat × Phase)
  armedAt : UInt64
  parkedAt : UInt64
  doneAt : UInt64

/-- What another task does to a timer of its own. -/
inductive TimerOp where
  | addTimer (ms : UInt64) (recurring : Bool) (now_ms : UInt64)
  | cancel
  | refresh
  | reset (ms : UInt64) (from_now : Bool)

variable {Scheduler Fiber Callback Ref : Type} [LinearOrder Ref]

def TimerOp.exec (m : TimerManager Ref HookCallback) (ref : Ref) (now_ms : UInt64) :
    TimerOp → Option (TimerManager Ref HookCallback)
  | .addTimer ms recurring made_at => some (m.addTimer ref ms (some .other) recurring made_at).1
  | .cancel => (m.cancel ref).map Prod.fst
  | .refresh => some (m.refresh ref now_ms).1
  | .reset ms from_now => some (m.reset ref ms from_now now_ms).1

/-- A new timer has an address of its own. -/
def TimerOp.Fresh (m : TimerManager Ref HookCallback) (ref : Ref) : TimerOp → Prop
  | .addTimer .. => ref ∉ m.m_timers
  | _ => True

/-- The waits whose callbacks `listExpiredCb` has handed out. -/
def extracted (cbs : List (Option HookCallback)) : List (Nat × Phase) :=
  cbs.filterMap fun cb =>
    match cb with
    | some (.timeout wait) => some (wait, .extracted)
    | _ => none

theorem mem_extracted {cbs : List (Option HookCallback)} {wait : Nat} {phase : Phase} :
    (wait, phase) ∈ extracted cbs ↔ some (.timeout wait) ∈ cbs ∧ phase = .extracted := by
  rw [extracted, List.mem_filterMap]
  constructor
  · rintro ⟨cb, member, is⟩
    match cb, is with
    | some (.timeout _), rfl => exact ⟨member, rfl⟩
  · rintro ⟨member, rfl⟩
    exact ⟨_, member, rfl⟩

namespace State

/-- An event operation and what it schedules. -/
def perform (s : State Scheduler Fiber Callback Ref) (io : IOManager Scheduler Fiber Callback)
    (effects : List (Effect Scheduler Fiber Callback)) : State Scheduler Fiber Callback Ref :=
  { s with
    io := io
    log := s.log ++ effects
    queue := s.queue ++ scheduled effects }

/-- `if(timer) timer->cancel()`. -/
def cancelTimer (s : State Scheduler Fiber Callback Ref) :
    Option (TimerManager Ref HookCallback) :=
  match s.timer with
  | none => some s.manager
  | some ref => (s.manager.cancel ref).map Prod.fst

/-- The call has not returned, so `winfo.lock()` succeeds. -/
def alive (s : State Scheduler Fiber Callback Ref) : Bool :=
  match s.pc with
  | .done _ => false
  | _ => true

/-- The test at the start of the callback of a wait. -/
def test (s : State Scheduler Fiber Callback Ref) (wait : Nat) :
    State Scheduler Fiber Callback Ref :=
  let rest := s.running.erase (wait, .extracted)
  { s with running := if s.alive && s.cancelled.isNone then (wait, .tested) :: rest else rest }

end State

inductive Label (Scheduler Fiber Callback Ref : Type) where
  | complete
  | again
  | addConditionTimer (ref : Ref) (now_ms : UInt64)
  | noTimer
  | addEvent (ctl : Bool)
  | yieldToHold
  | resume
  | cancelTimer
  | check
  | unwind
  | tick (clock : UInt64)
  | expire (now_ms : UInt64) (now_timer : Ref)
  | test (wait : Nat)
  | set (wait : Nat)
  | cancelEvent (wait : Nat) (ctl : Bool)
  | operate (op : Op Scheduler Fiber Callback)
  | take
  | timer (ref : Ref) (op : TimerOp)

variable [DecidableEq Scheduler] [DecidableEq Fiber] [DecidableEq Callback]

inductive Step (call : TimedCall Scheduler Fiber) : State Scheduler Fiber Callback Ref →
    Label Scheduler Fiber Callback Ref → State Scheduler Fiber Callback Ref → Prop where
  /-- The system call has a result, or fails in a way that is not waited for. -/
  | complete {s : State Scheduler Fiber Callback Ref} : s.pc = .syscall →
      Step call s .complete { s with pc := .done false, doneAt := s.clock }
  /-- `EAGAIN`, or `EINPROGRESS` for `connect`. -/
  | again {s : State Scheduler Fiber Callback Ref} : s.pc = .syscall →
      Step call s .again { s with pc := .arm }
  | addConditionTimer {s : State Scheduler Fiber Callback Ref} (ref : Ref) (now_ms : UInt64) :
      s.pc = .arm → call.timeout_ms ≠ infinite → ref ∉ s.manager.m_timers → now_ms ≤ s.clock →
      Step call s (.addConditionTimer ref now_ms)
        { s with
          manager := (s.manager.addTimer ref call.timeout_ms (some (.timeout (s.wait + 1)))
            false now_ms).1
          wait := s.wait + 1
          timer := some ref
          armedAt := now_ms
          pc := .addEvent }
  | noTimer {s : State Scheduler Fiber Callback Ref} :
      s.pc = .arm → call.timeout_ms = infinite →
      Step call s .noTimer { s with wait := s.wait + 1, timer := none, pc := .addEvent }
  /-- An event that is armed already fails the assertion of `addEvent`. -/
  | addEvent {s : State Scheduler Fiber Callback Ref} (ctl : Bool)
      {io : IOManager Scheduler Fiber Callback} {rt : Int}
      {effects : List (Effect Scheduler Fiber Callback)} :
      s.pc = .addEvent → call.event ∉ (s.io.contextAt call.fd.val).events →
      s.io.addEvent call.fd call.event none (some call.scheduler) call.fiber ctl =
        .ok (io, rt, effects) →
      Step call s (.addEvent ctl)
        ({ s with pc := if rt = 0 then .yield else .unwind }.perform io effects)
  | yieldToHold {s : State Scheduler Fiber Callback Ref} : s.pc = .yield →
      Step call s .yieldToHold { s with pc := .parked, parkedAt := s.clock }
  | resume {s : State Scheduler Fiber Callback Ref}
      (registration : Registration Scheduler Fiber Callback) : s.pc = .parked →
      registration ∈ s.queue → registration.task = .fiber call.fiber →
      Step call s .resume { s with pc := .cancelTimer, queue := s.queue.erase registration }
  | cancelTimer {s : State Scheduler Fiber Callback Ref} {manager : TimerManager Ref HookCallback} :
      s.pc = .cancelTimer → s.cancelTimer = some manager →
      Step call s .cancelTimer { s with manager := manager, pc := .check }
  | timedOut {s : State Scheduler Fiber Callback Ref} : s.pc = .check → s.cancelled.isSome →
      Step call s .check { s with pc := .done true, doneAt := s.clock }
  | retry {s : State Scheduler Fiber Callback Ref} : s.pc = .check → s.cancelled = none →
      call.retries = true → Step call s .check { s with pc := .syscall, timer := none }
  | finish {s : State Scheduler Fiber Callback Ref} : s.pc = .check → s.cancelled = none →
      call.retries = false →
      Step call s .check { s with pc := .done false, doneAt := s.clock }
  | unwind {s : State Scheduler Fiber Callback Ref} {manager : TimerManager Ref HookCallback} :
      s.pc = .unwind → s.cancelTimer = some manager →
      Step call s .unwind { s with manager := manager, pc := .done false, doneAt := s.clock }
  | tick {s : State Scheduler Fiber Callback Ref} (clock : UInt64) : s.clock ≤ clock →
      Step call s (.tick clock) { s with clock := clock }
  /-- A worker inside `idle` hands the expired callbacks to the scheduler. -/
  | expire {s : State Scheduler Fiber Callback Ref} (now_ms : UInt64) (now_timer : Ref)
      {manager : TimerManager Ref HookCallback} {cbs : List (Option HookCallback)} :
      now_ms ≤ s.clock → s.manager.listExpiredCb now_ms now_timer = some (manager, cbs) →
      Step call s (.expire now_ms now_timer)
        { s with manager := manager, running := s.running ++ extracted cbs }
  | test {s : State Scheduler Fiber Callback Ref} (wait : Nat) : (wait, .extracted) ∈ s.running →
      Step call s (.test wait) (s.test wait)
  | set {s : State Scheduler Fiber Callback Ref} (wait : Nat) : (wait, .tested) ∈ s.running →
      Step call s (.set wait)
        { s with
          cancelled := some wait
          running := (wait, .cancelling) :: s.running.erase (wait, .tested) }
  | cancelEvent {s : State Scheduler Fiber Callback Ref} (wait : Nat) (ctl : Bool)
      {io : IOManager Scheduler Fiber Callback} {result : Bool}
      {effects : List (Effect Scheduler Fiber Callback)} : (wait, .cancelling) ∈ s.running →
      s.io.cancelEvent call.fd call.event ctl = .ok (io, result, effects) →
      Step call s (.cancelEvent wait ctl)
        ({ s with running := s.running.erase (wait, .cancelling) }.perform io effects)
  /-- An operation of another task or of a worker in `idle`.  No other task adds or deletes
  the event that this call waits for. -/
  | operate {s : State Scheduler Fiber Callback Ref} (op : Op Scheduler Fiber Callback)
      {io : IOManager Scheduler Fiber Callback} {effects : List (Effect Scheduler Fiber Callback)} :
      op.Allowed s.io → op.Spares call.fd.val call.event → op.exec s.io = .ok (io, effects) →
      Step call s (.operate op) (s.perform io effects)
  /-- A worker takes another task from a queue. -/
  | take {s : State Scheduler Fiber Callback Ref}
      (registration : Registration Scheduler Fiber Callback) : registration ∈ s.queue →
      registration.task ≠ .fiber call.fiber →
      Step call s .take { s with queue := s.queue.erase registration }
  | timer {s : State Scheduler Fiber Callback Ref} (ref : Ref) (op : TimerOp)
      {manager : TimerManager Ref HookCallback} : s.timer ≠ some ref → op.Fresh s.manager ref →
      op.exec s.manager ref s.clock = some manager →
      Step call s (.timer ref op) { s with manager := manager }

/-- The start of a call: none of the timers is its own, and its event is not armed. -/
def Initial (call : TimedCall Scheduler Fiber) (s : State Scheduler Fiber Callback Ref) : Prop :=
  Invariant s.io s.log ∧ call.event ∉ (s.io.contextAt call.fd.val).events ∧
    s.manager.Sorted ∧
    (∀ ref ∈ s.manager.m_timers, ∀ wait, (s.manager.timer ref).m_cb ≠ some (.timeout wait)) ∧
    s.pc = .syscall ∧ s.wait = 0 ∧ s.timer = none ∧ s.cancelled = none ∧ s.running = []

/-- Every interleaving of the call with the other workers. -/
def interleavings (call : TimedCall Scheduler Fiber) :
    System (State Scheduler Fiber Callback Ref) (Label Scheduler Fiber Callback Ref) where
  initial := call.Initial
  step := call.Step

end TimedCall

end Exhy
