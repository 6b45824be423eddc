import Exhy.IOManager.Event
import Exhy.Library.Transition
import Mathlib.Logic.Function.Basic

/-!
# The scheduler

`Scheduler::run` on any number of workers, the fibers they run, and `schedule()` from any
thread, as one transition system.  Each region under the queue lock, each context switch
and each access to a shared counter or to the pipe is one step.  The idle fiber is the
one of `IOManager`, which blocks in `epoll_wait`.

`stop()` is not called here, so `stopping()` is false and the idle fiber never ends.
-/

namespace Exhy

open IOManager (Task)

namespace Scheduler

variable {Worker Fiber Callback : Type}

/-- `Fiber::State`. -/
inductive FiberState where
  | INIT
  | HOLD
  | EXEC
  | TERM
  | READY
  | EXCEP
  deriving DecidableEq, Repr

/-- The `thread` of an entry: -1, the id of a worker, or an id that is no worker's. -/
inductive ThreadId (Worker : Type) where
  | any
  | worker (worker : Worker)
  | other
  deriving DecidableEq, Repr

structure FiberAndThread (Worker Fiber Callback : Type) where
  task : Task Fiber Callback
  thread : ThreadId Worker
  deriving DecidableEq, Repr

/-- What a worker does after its scan, or after it has put a fiber back. -/
inductive Next (Fiber Callback : Type) where
  | scan
  | handle (ft : Option (Task Fiber Callback))
  deriving DecidableEq, Repr

/-- Where a running fiber is.  `waiting`: the wake-up of its next `YieldToHold` has been
arranged (a timer, an event), so it may be queued from now on.  `readying`: inside
`YieldToReady`.  `ending`: its function has returned or thrown. -/
inductive Phase where
  | working
  | waiting
  | readying
  | ending
  deriving DecidableEq, Repr

/-- Where a worker is in `run` or, from `entered` to `left`, inside its idle fiber. -/
inductive Stage (Fiber Callback : Type) where
  | next (next : Next Fiber Callback)
  | tickling (next : Next Fiber Callback)
  | writing (next : Next Fiber Callback)
  | running (fiber : Fiber) (phase : Phase) (viaCb : Bool)
  | swapped (fiber : Fiber) (viaCb : Bool)
  | entered
  | idling
  | blocked
  | woken (tickled : Bool)
  | left
  deriving DecidableEq, Repr

end Scheduler

/-- The shared state of a scheduler and the stage of each of its workers.  `ticklers` and
`writers` count the threads that are inside `schedule()`, before the test and before the
write of `tickle()`.  `wakes` counts how often a fiber may still be queued: once at its
creation and once for each `YieldToHold`. -/
structure Scheduler (Worker Fiber Callback : Type) where
  m_fibers : List (Scheduler.FiberAndThread Worker Fiber Callback)
  m_activeThreadCount : Nat
  m_idleThreadCount : Nat
  m_state : Fiber → Scheduler.FiberState
  cb_fiber : Worker → Option Fiber
  stage : Worker → Scheduler.Stage Fiber Callback
  created : Fiber → Bool
  wakes : Fiber → Nat
  tickleFd : Nat
  ticklers : Nat
  writers : Nat

namespace Scheduler

variable {Worker Fiber Callback : Type}

/-- `scheduleNolock(fc, thread)`; a null task is not pushed. -/
def scheduleNolock (m_fibers : List (FiberAndThread Worker Fiber Callback))
    (fc : Option (Task Fiber Callback)) (thread : ThreadId Worker) :
    Bool × List (FiberAndThread Worker Fiber Callback) :=
  (m_fibers.isEmpty, m_fibers ++ fc.toList.map fun task => ⟨task, thread⟩)

/-- The loop of `schedule(begin, end)`. -/
def scheduleRange (m_fibers : List (FiberAndThread Worker Fiber Callback)) :
    List (Option (Task Fiber Callback)) →
    Bool × List (FiberAndThread Worker Fiber Callback)
  | [] => (false, m_fibers)
  | fc :: rest =>
      let (need_tickle, m_fibers) := scheduleNolock m_fibers fc .any
      let (more, m_fibers) := scheduleRange m_fibers rest
      (need_tickle || more, m_fibers)

/-- An entry that a worker passes over because it is pinned to another thread. -/
def FiberAndThread.pinnedAway [DecidableEq Worker] (it : FiberAndThread Worker Fiber Callback)
    (worker : Worker) : Bool :=
  it.thread ≠ .any && it.thread ≠ .worker worker

/-- An entry that a worker passes over because its fiber is in state `EXEC`. -/
def FiberAndThread.executing (it : FiberAndThread Worker Fiber Callback)
    (m_state : Fiber → FiberState) : Bool :=
  match it.task with
  | .fiber fiber => m_state fiber = .EXEC
  | .cb _ => false

/-- The scan of the queue in `run`: the task found, the queue without it, and `tickle_me`. -/
def scanQueue [DecidableEq Worker] (worker : Worker) (m_state : Fiber → FiberState) :
    List (FiberAndThread Worker Fiber Callback) →
    Option (Task Fiber Callback) × List (FiberAndThread Worker Fiber Callback) × Bool
  | [] => (none, [], false)
  | it :: rest =>
      if it.pinnedAway worker then
        let (ft, kept, _) := scanQueue worker m_state rest
        (ft, it :: kept, true)
      else if it.executing m_state then
        let (ft, kept, tickle_me) := scanQueue worker m_state rest
        (ft, it :: kept, tickle_me)
      else (some it.task, rest, !rest.isEmpty)

variable [DecidableEq Worker]

def setStage (s : Scheduler Worker Fiber Callback) (worker : Worker)
    (stage : Stage Fiber Callback) : Scheduler Worker Fiber Callback :=
  { s with stage := Function.update s.stage worker stage }

@[simp] theorem stage_setStage_self (s : Scheduler Worker Fiber Callback) (worker : Worker)
    (stage : Stage Fiber Callback) : (s.setStage worker stage).stage worker = stage :=
  Function.update_self ..

theorem stage_setStage_ne (s : Scheduler Worker Fiber Callback) {worker other : Worker}
    (different : other ≠ worker) (stage : Stage Fiber Callback) :
    (s.setStage worker stage).stage other = s.stage other :=
  Function.update_of_ne different ..

variable [DecidableEq Fiber]

def setState (s : Scheduler Worker Fiber Callback) (fiber : Fiber) (state : FiberState) :
    Scheduler Worker Fiber Callback :=
  { s with m_state := Function.update s.m_state fiber state }

def setCbFiber (s : Scheduler Worker Fiber Callback) (worker : Worker)
    (fiber : Option Fiber) : Scheduler Worker Fiber Callback :=
  { s with cb_fiber := Function.update s.cb_fiber worker fiber }

/-- A fiber object is constructed; `wakes` says how often its creator may queue it. -/
def construct (s : Scheduler Worker Fiber Callback) (fiber : Fiber) (wakes : Nat) :
    Scheduler Worker Fiber Callback :=
  { s with
    created := Function.update s.created fiber true
    m_state := Function.update s.m_state fiber .INIT
    wakes := Function.update s.wakes fiber wakes }

/-- Queueing a fiber uses up one of its wake-ups. -/
def useWake (s : Scheduler Worker Fiber Callback) (fc : Option (Task Fiber Callback)) :
    Scheduler Worker Fiber Callback :=
  match fc with
  | some (.fiber fiber) =>
      { s with wakes := Function.update s.wakes fiber (s.wakes fiber - 1) }
  | _ => s

/-- The locked part of `schedule()`: the caller goes on to `tickle()` if it has to. -/
def push (s : Scheduler Worker Fiber Callback)
    (pushed : Bool × List (FiberAndThread Worker Fiber Callback)) :
    Scheduler Worker Fiber Callback :=
  { s with
    m_fibers := pushed.2
    ticklers := if pushed.1 then s.ticklers + 1 else s.ticklers }

/-- The locked scan of a worker. -/
def scan (s : Scheduler Worker Fiber Callback) (worker : Worker) :
    Scheduler Worker Fiber Callback :=
  let (ft, kept, tickle_me) := scanQueue worker s.m_state s.m_fibers
  { s with
    m_fibers := kept
    m_activeThreadCount :=
      if ft.isSome then s.m_activeThreadCount + 1 else s.m_activeThreadCount
  }.setStage worker (if tickle_me then .tickling (.handle ft) else .next (.handle ft))

/-- A `READY` fiber is scheduled again; the worker tickles if the queue was empty. -/
def reschedule (s : Scheduler Worker Fiber Callback) (worker : Worker) (fiber : Fiber)
    (viaCb : Bool) : Scheduler Worker Fiber Callback :=
  let (need_tickle, m_fibers) := scheduleNolock s.m_fibers (some (.fiber fiber)) .any
  let s := { s with m_fibers := m_fibers }
  let s := if viaCb then s.setCbFiber worker none else s
  s.setStage worker (if need_tickle then .tickling .scan else .next .scan)

/-- A finished fiber is dropped; the callback fiber is reset for its next callback. -/
def retire (s : Scheduler Worker Fiber Callback) (worker : Worker) (fiber : Fiber)
    (viaCb : Bool) : Scheduler Worker Fiber Callback :=
  let s := if viaCb then s.setState fiber .INIT else s
  s.setStage worker (.next .scan)

/-- Every other fiber is put into state `HOLD`. -/
def hold (s : Scheduler Worker Fiber Callback) (worker : Worker) (fiber : Fiber)
    (viaCb : Bool) : Scheduler Worker Fiber Callback :=
  let s := s.setState fiber .HOLD
  let s := if viaCb then s.setCbFiber worker none else s
  s.setStage worker (.next .scan)

/-- What `run` does once a fiber has swapped out. -/
def update (s : Scheduler Worker Fiber Callback) (worker : Worker) (fiber : Fiber)
    (viaCb : Bool) : Scheduler Worker Fiber Callback :=
  let s := { s with m_activeThreadCount := s.m_activeThreadCount - 1 }
  match s.m_state fiber with
  | .READY => s.reschedule worker fiber viaCb
  | .TERM | .EXCEP => s.retire worker fiber viaCb
  | _ => s.hold worker fiber viaCb

/-- The steps of a worker. -/
inductive Move (Fiber : Type) where
  | scan
  | tickle
  | write
  | swapIn
  | drop
  | construct (fiber : Fiber)
  | enter
  | idle
  | epollWait
  | wake (tickled : Bool)
  | drain
  | leave
  | resume
  | wait
  | yieldToReady
  | finish (state : FiberState)
  | swapOut
  | update

/-- The steps of any thread, and the steps of a worker. -/
inductive Label (Worker Fiber Callback : Type) where
  | create (fiber : Fiber)
  | schedule (fc : Option (Task Fiber Callback)) (thread : ThreadId Worker)
  | scheduleRange (cbs : List (Option Callback))
  | tickle
  | write
  | worker (worker : Worker) (move : Move Fiber)

inductive Step : Scheduler Worker Fiber Callback → Label Worker Fiber Callback →
    Scheduler Worker Fiber Callback → Prop where
  | create {s : Scheduler Worker Fiber Callback} (fiber : Fiber) : s.created fiber = false →
      Step s (.create fiber) (s.construct fiber 1)
  /-- A fiber is queued only when a wake-up is due to it. -/
  | schedule {s : Scheduler Worker Fiber Callback} (fc : Option (Task Fiber Callback))
      (thread : ThreadId Worker) : (∀ fiber, fc = some (.fiber fiber) → 0 < s.wakes fiber) →
      Step s (.schedule fc thread) ((s.useWake fc).push (scheduleNolock s.m_fibers fc thread))
  | scheduleRange {s : Scheduler Worker Fiber Callback} (cbs : List (Option Callback)) :
      Step s (.scheduleRange cbs)
        (s.push (scheduleRange s.m_fibers (cbs.map fun cb => cb.map Task.cb)))
  /-- The test of `hasIdleThread()` by a thread inside `schedule()`. -/
  | tickle {s : Scheduler Worker Fiber Callback} : 0 < s.ticklers →
      Step s .tickle { s with
        ticklers := s.ticklers - 1
        writers := if 0 < s.m_idleThreadCount then s.writers + 1 else s.writers }
  | write {s : Scheduler Worker Fiber Callback} : 0 < s.writers →
      Step s .write { s with writers := s.writers - 1, tickleFd := s.tickleFd + 1 }
  | scan {s : Scheduler Worker Fiber Callback} (worker : Worker) :
      s.stage worker = .next .scan → Step s (.worker worker .scan) (s.scan worker)
  | workerTickle {s : Scheduler Worker Fiber Callback} (worker : Worker)
      {next : Next Fiber Callback} : s.stage worker = .tickling next →
      Step s (.worker worker .tickle)
        (s.setStage worker (if 0 < s.m_idleThreadCount then .writing next else .next next))
  | workerWrite {s : Scheduler Worker Fiber Callback} (worker : Worker)
      {next : Next Fiber Callback} : s.stage worker = .writing next →
      Step s (.worker worker .write)
        ({ s with tickleFd := s.tickleFd + 1 }.setStage worker (.next next))
  | swapIn {s : Scheduler Worker Fiber Callback} (worker : Worker) {fiber : Fiber} :
      s.stage worker = .next (.handle (some (.fiber fiber))) →
      s.m_state fiber ≠ .TERM → s.m_state fiber ≠ .EXCEP →
      Step s (.worker worker .swapIn)
        ((s.setState fiber .EXEC).setStage worker (.running fiber .working false))
  /-- A finished fiber is not run again; `m_activeThreadCount` stays incremented. -/
  | drop {s : Scheduler Worker Fiber Callback} (worker : Worker) {fiber : Fiber} :
      s.stage worker = .next (.handle (some (.fiber fiber))) →
      s.m_state fiber = .TERM ∨ s.m_state fiber = .EXCEP →
      Step s (.worker worker .drop) (s.setStage worker (.next .scan))
  /-- A callback runs on the worker's callback fiber, after `reset(cb)`. -/
  | swapInCb {s : Scheduler Worker Fiber Callback} (worker : Worker) {cb : Callback}
      {fiber : Fiber} : s.stage worker = .next (.handle (some (.cb cb))) →
      s.cb_fiber worker = some fiber →
      Step s (.worker worker .swapIn)
        ((s.setState fiber .EXEC).setStage worker (.running fiber .working true))
  | swapInNew {s : Scheduler Worker Fiber Callback} (worker : Worker) {cb : Callback}
      (fiber : Fiber) : s.stage worker = .next (.handle (some (.cb cb))) →
      s.cb_fiber worker = none → s.created fiber = false →
      Step s (.worker worker (.construct fiber))
        ((((s.construct fiber 0).setState fiber .EXEC).setCbFiber worker (some fiber)).setStage
          worker (.running fiber .working true))
  | enter {s : Scheduler Worker Fiber Callback} (worker : Worker) :
      s.stage worker = .next (.handle none) →
      Step s (.worker worker .enter)
        ({ s with m_idleThreadCount := s.m_idleThreadCount + 1 }.setStage worker .entered)
  | idle {s : Scheduler Worker Fiber Callback} (worker : Worker) : s.stage worker = .entered →
      Step s (.worker worker .idle) (s.setStage worker .idling)
  | epollWait {s : Scheduler Worker Fiber Callback} (worker : Worker) :
      s.stage worker = .idling → Step s (.worker worker .epollWait) (s.setStage worker .blocked)
  /-- `epoll_wait` may return at any time; it reports the pipe only if it is readable. -/
  | wake {s : Scheduler Worker Fiber Callback} (worker : Worker) (tickled : Bool) :
      s.stage worker = .blocked → (tickled = true → 0 < s.tickleFd) →
      Step s (.worker worker (.wake tickled)) (s.setStage worker (.woken tickled))
  | drain {s : Scheduler Worker Fiber Callback} (worker : Worker) :
      s.stage worker = .woken true →
      Step s (.worker worker .drain) ({ s with tickleFd := 0 }.setStage worker (.woken false))
  | leave {s : Scheduler Worker Fiber Callback} (worker : Worker) :
      s.stage worker = .woken false → Step s (.worker worker .leave) (s.setStage worker .left)
  | resume {s : Scheduler Worker Fiber Callback} (worker : Worker) : s.stage worker = .left →
      Step s (.worker worker .resume)
        ({ s with m_idleThreadCount := s.m_idleThreadCount - 1 }.setStage worker (.next .scan))
  /-- The fiber arranges for its wake-up, on the way to `YieldToHold`. -/
  | wait {s : Scheduler Worker Fiber Callback} (worker : Worker) {fiber : Fiber} {viaCb : Bool} :
      s.stage worker = .running fiber .working viaCb →
      Step s (.worker worker .wait)
        ({ s with wakes := Function.update s.wakes fiber (s.wakes fiber + 1) }.setStage worker
          (.running fiber .waiting viaCb))
  | yieldToReady {s : Scheduler Worker Fiber Callback} (worker : Worker) {fiber : Fiber}
      {viaCb : Bool} : s.stage worker = .running fiber .working viaCb →
      Step s (.worker worker .yieldToReady)
        ((s.setState fiber .READY).setStage worker (.running fiber .readying viaCb))
  | finish {s : Scheduler Worker Fiber Callback} (worker : Worker) {fiber : Fiber}
      {viaCb : Bool} (state : FiberState) : s.stage worker = .running fiber .working viaCb →
      state = .TERM ∨ state = .EXCEP →
      Step s (.worker worker (.finish state))
        ((s.setState fiber state).setStage worker (.running fiber .ending viaCb))
  /-- `swapOut` of `YieldToHold`, `YieldToReady` and `MainFunc`. -/
  | swapOut {s : Scheduler Worker Fiber Callback} (worker : Worker) {fiber : Fiber}
      {phase : Phase} {viaCb : Bool} : s.stage worker = .running fiber phase viaCb →
      phase ≠ .working →
      Step s (.worker worker .swapOut) (s.setStage worker (.swapped fiber viaCb))
  | update {s : Scheduler Worker Fiber Callback} (worker : Worker) {fiber : Fiber}
      {viaCb : Bool} : s.stage worker = .swapped fiber viaCb →
      Step s (.worker worker .update) (s.update worker fiber viaCb)

/-- Workers that have not scanned yet and a queue that is still empty. -/
def start : Scheduler Worker Fiber Callback where
  m_fibers := []
  m_activeThreadCount := 0
  m_idleThreadCount := 0
  m_state := fun _ => .INIT
  cb_fiber := fun _ => none
  stage := fun _ => .next .scan
  created := fun _ => false
  wakes := fun _ => 0
  tickleFd := 0
  ticklers := 0
  writers := 0

end Scheduler

/-- Every interleaving of the workers and of the threads that call `schedule()`. -/
def scheduling (Worker Fiber Callback : Type) [DecidableEq Worker] [DecidableEq Fiber] :
    Library.System (Scheduler Worker Fiber Callback) (Scheduler.Label Worker Fiber Callback) where
  initial s := s = Scheduler.start
  step := Scheduler.Step

end Exhy
