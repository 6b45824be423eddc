import Exhy.Scheduler.Exclusion
import Exhy.Scheduler.Queue
import Mathlib.Data.Fintype.Card

/-!
# From `start()` to the return of `stop()`

The workers, the threads that call `schedule()` and the thread that calls `stop()`.  A fiber
may be scheduled by anyone at any time, any number of times and in any state, and the
decrement of `m_activeThreadCount` after a `swapIn` is a step of its own: what becomes of
the fiber is decided in the next one.  `EXHY_ASSERT` aborts the program, so a step whose
assertion fails leads nowhere.
-/

namespace Exhy

open IOManager (Task)

namespace Scheduler

variable {Worker Fiber Callback : Type}

/-- What `run` does with a fiber that has swapped out, after the decrement. -/
def settle [DecidableEq Worker] [DecidableEq Fiber] (s : Scheduler Worker Fiber Callback)
    (worker : Worker) (fiber : Fiber) (viaCb : Bool) : Scheduler Worker Fiber Callback :=
  match s.m_state fiber with
  | .READY => s.reschedule worker fiber viaCb
  | .TERM | .EXCEP => s.retire worker fiber viaCb
  | _ => s.hold worker fiber viaCb

/-- The two parts in one step. -/
theorem update_eq_settle [DecidableEq Worker] [DecidableEq Fiber]
    (s : Scheduler Worker Fiber Callback) (worker : Worker) (fiber : Fiber) (viaCb : Bool) :
    s.update worker fiber viaCb =
      { s with m_activeThreadCount := s.m_activeThreadCount - 1 }.settle worker fiber viaCb :=
  rfl

/-- Whether the thread of a worker is inside `run`. -/
inductive Life where
  | outside
  | inside
  | left
  deriving DecidableEq, Repr

/-- Where the thread that calls `stop()` is.  `early`: in the branch for a scheduler without
threads of its own; `flagged` and `writing`: in the loops that tickle, with the number of
tickles left; `calling`: inside `m_rootFiber->call()`. -/
inductive Stopper where
  | outside
  | called
  | early
  | flagged (tickles : Nat)
  | writing (tickles : Nat)
  | calling
  | returned
  deriving DecidableEq, Repr

namespace Stage

/-- The task that the worker has taken from the queue and not started yet. -/
def hand : Stage Fiber Callback → Option (Task Fiber Callback)
  | .next (.handle ft) | .tickling (.handle ft) | .writing (.handle ft) => ft
  | _ => none

/-- The worker has taken an entry and is not through with it. -/
def handles (stage : Stage Fiber Callback) : Bool :=
  stage.hand.isSome || stage.current.isSome

/-- The worker is executing a task, or what its idle fiber does after `epoll_wait`. -/
def calls : Stage Fiber Callback → Bool
  | .running _ _ _ | .woken _ => true
  | _ => false

end Stage

/-- The scan takes the first entry that is ready, and counts it. -/
theorem scan_spec [DecidableEq Worker] (s : Scheduler Worker Fiber Callback) (worker : Worker) :
    (s.scan worker).m_fibers = s.m_fibers.eraseP (·.ready worker s.m_state) ∧
      (s.scan worker).m_activeThreadCount = s.m_activeThreadCount +
        (s.m_fibers.find? (·.ready worker s.m_state)).isSome.toNat ∧
      ((s.scan worker).stage worker).hand =
        (s.m_fibers.find? (·.ready worker s.m_state)).map FiberAndThread.task ∧
      ((s.scan worker).stage worker).current = none := by
  obtain ⟨found, kept⟩ := scanQueue_eq worker s.m_state s.m_fibers
  simp only [scan, stage_setStage_self]
  simp only [Scheduler.setStage, found, kept, Option.isSome_map]
  refine ⟨trivial, ?_, ?_, ?_⟩
  · cases s.m_fibers.find? (·.ready worker s.m_state) <;> rfl
  all_goals
    split <;> rfl

/-- The steps of a worker that neither take a task nor begin or end one. -/
def Move.quiet : Move Fiber → Bool
  | .tickle | .write | .enter | .idle | .epollWait | .wake _ | .drain | .leave | .resume
  | .wait | .yieldToReady | .swapOut => true
  | _ => false

/-- What a quiet move of a worker keeps. -/
structure Quiet (s next : Scheduler Worker Fiber Callback) (worker : Worker) : Prop where
  m_fibers : next.m_fibers = s.m_fibers
  active : next.m_activeThreadCount = s.m_activeThreadCount
  created : next.created = s.created
  cb_fiber : next.cb_fiber = s.cb_fiber
  others : ∀ other, other ≠ worker → next.stage other = s.stage other
  hand : (next.stage worker).hand = (s.stage worker).hand
  current : (next.stage worker).current = (s.stage worker).current
  inside : ∀ fiber viaCb, s.stage worker ≠ .swapped fiber viaCb
  states : ∀ fiber, next.m_state fiber = s.m_state fiber ∨
    (s.stage worker).current = some fiber ∧ next.m_state fiber = .READY

namespace Quiet

variable [DecidableEq Worker] {s next : Scheduler Worker Fiber Callback} {worker : Worker}

/-- The worker's stage alone changes, and no task is taken, begun or ended. -/
theorem of_stage {stage : Stage Fiber Callback} (m_fibers : next.m_fibers = s.m_fibers)
    (active : next.m_activeThreadCount = s.m_activeThreadCount)
    (created : next.created = s.created) (cb_fiber : next.cb_fiber = s.cb_fiber)
    (m_state : next.m_state = s.m_state)
    (stages : next.stage = Function.update s.stage worker stage)
    (hand : stage.hand = (s.stage worker).hand)
    (current : stage.current = (s.stage worker).current)
    (inside : ∀ fiber viaCb, s.stage worker ≠ .swapped fiber viaCb) : Quiet s next worker where
  m_fibers := m_fibers
  active := active
  created := created
  cb_fiber := cb_fiber
  others other different := by rw [stages, Function.update_of_ne different]
  hand := by rw [stages, Function.update_self, hand]
  current := by rw [stages, Function.update_self, current]
  inside := inside
  states fiber := .inl (by rw [m_state])

theorem of_step [DecidableEq Fiber] {move : Move Fiber} (quiet : move.quiet = true)
    (stepped : Step s (.worker worker move) next) : Quiet s next worker := by
  cases stepped with
  | workerTickle worker tickling =>
      rename_i after
      refine of_stage rfl rfl rfl rfl rfl rfl ?_ ?_ (by simp [tickling])
      · rw [tickling]
        split <;> cases after <;> rfl
      · rw [tickling]
        split <;> rfl
  | workerWrite worker writing =>
      rename_i after
      refine of_stage rfl rfl rfl rfl rfl rfl ?_ ?_ (by simp [writing])
      · rw [writing]
        cases after <;> rfl
      · rw [writing]
        rfl
  | yieldToReady worker running =>
      rename_i fiber viaCb
      refine ⟨rfl, rfl, rfl, rfl, fun other different => stage_setStage_ne _ different _, ?_, ?_,
        by simp [running], fun other => ?_⟩
      · rw [stage_setStage_self, running]
        rfl
      · rw [stage_setStage_self, running]
        rfl
      · by_cases same : other = fiber
        · subst same
          exact .inr ⟨by rw [running]; rfl, Function.update_self ..⟩
        · exact .inl (Function.update_of_ne same ..)
  | scan | swapIn | drop | swapInCb | swapInNew | finish | update => cases quiet
  | enter worker atStage | idle worker atStage | epollWait worker atStage
  | wake worker tickled atStage | drain worker atStage | leave worker atStage
  | resume worker atStage | wait worker atStage | swapOut worker atStage =>
      exact of_stage rfl rfl rfl rfl rfl rfl (by rw [atStage]; rfl) (by rw [atStage]; rfl)
        (by simp [atStage])

end Quiet

/-- What a worker does with a fiber that has swapped out: a `READY` fiber is pushed without
a thread, and one that is neither `READY` nor finished is put into state `HOLD`. -/
structure Settled (s next : Scheduler Worker Fiber Callback) (worker : Worker) (fiber : Fiber) :
    Prop where
  active : next.m_activeThreadCount = s.m_activeThreadCount
  created : next.created = s.created
  others : ∀ other, other ≠ worker → next.stage other = s.stage other
  stage : next.stage worker = .next .scan ∨ next.stage worker = .tickling .scan
  cb_fiber : ∀ other cached, next.cb_fiber other = some cached → s.cb_fiber other = some cached
  requeued : s.m_state fiber = .READY → next.m_state fiber = .READY ∧
    next.m_fibers = (scheduleNolock s.m_fibers (some (.fiber fiber)) .any).2
  kept : s.m_state fiber ≠ .READY → next.m_fibers = s.m_fibers
  states : ∀ other, other ≠ fiber → next.m_state other = s.m_state other
  held : s.m_state fiber ≠ .READY → s.m_state fiber ≠ .TERM → s.m_state fiber ≠ .EXCEP →
    next.m_state fiber = .HOLD

namespace Settled

variable [DecidableEq Worker] [DecidableEq Fiber] {s : Scheduler Worker Fiber Callback}
  {worker : Worker} {fiber : Fiber} (viaCb : Bool)

omit [DecidableEq Fiber] in
theorem uncached {other : Worker} {cached : Fiber}
    (isCached : Function.update s.cb_fiber worker none other = some cached) :
    s.cb_fiber other = some cached := by
  by_cases same : other = worker
  · rw [same, Function.update_self] at isCached
    cases isCached
  · rwa [Function.update_of_ne same] at isCached

omit [DecidableEq Fiber] in
theorem of_ready (ready : s.m_state fiber = .READY) :
    Settled s (s.reschedule worker fiber viaCb) worker fiber := by
  refine ⟨by cases viaCb <;> rfl, by cases viaCb <;> rfl, fun other different => ?_, ?_, ?_, ?_,
    fun notReady => absurd ready notReady, by cases viaCb <;> exact fun _ _ => rfl,
    fun notReady => absurd ready notReady⟩
  · cases viaCb <;> exact stage_setStage_ne _ different _
  · simp only [reschedule, stage_setStage_self]
    split
    · exact .inr rfl
    · exact .inl rfl
  · cases viaCb
    · exact fun _ _ => id
    · exact fun _ _ => uncached
  · cases viaCb <;> exact fun _ => ⟨ready, rfl⟩

theorem of_over (ended : s.m_state fiber = .TERM ∨ s.m_state fiber = .EXCEP) :
    Settled s (s.retire worker fiber viaCb) worker fiber := by
  have notReady : s.m_state fiber ≠ .READY := by rcases ended with ended | ended <;> simp [ended]
  refine ⟨by cases viaCb <;> rfl, by cases viaCb <;> rfl, fun other different => ?_,
    .inl (stage_setStage_self ..), by cases viaCb <;> exact fun _ _ => id,
    fun ready => absurd ready notReady, by cases viaCb <;> exact fun _ => rfl,
    fun other different => ?_, fun _ notTerm notExcep => ?_⟩
  · cases viaCb <;> exact stage_setStage_ne _ different _
  · cases viaCb
    · rfl
    · exact Function.update_of_ne different ..
  · rcases ended with ended | ended
    · exact absurd ended notTerm
    · exact absurd ended notExcep

theorem of_other (notReady : s.m_state fiber ≠ .READY) :
    Settled s (s.hold worker fiber viaCb) worker fiber := by
  refine ⟨by cases viaCb <;> rfl, by cases viaCb <;> rfl, fun other different => ?_,
    .inl (stage_setStage_self ..), ?_, fun ready => absurd ready notReady,
    by cases viaCb <;> exact fun _ => rfl, fun other different => ?_, fun _ _ _ => ?_⟩
  · cases viaCb <;> exact stage_setStage_ne _ different _
  · cases viaCb
    · exact fun _ _ => id
    · exact fun _ _ => uncached
  · cases viaCb <;> exact Function.update_of_ne different ..
  · cases viaCb <;> exact Function.update_self ..

end Settled

theorem settle_spec [DecidableEq Worker] [DecidableEq Fiber] (s : Scheduler Worker Fiber Callback)
    (worker : Worker) (fiber : Fiber) (viaCb : Bool) :
    Settled s (s.settle worker fiber viaCb) worker fiber := by
  unfold settle
  split
  next ready => exact .of_ready viaCb ready
  next ended => exact .of_over viaCb (.inl ended)
  next ended => exact .of_over viaCb (.inr ended)
  next notReady _ _ => exact .of_other viaCb notReady

end Scheduler

/-- A scheduler with the rest of what `run` and `stop()` look at.  `ftThread` is
`ft.thread`; a worker is `settling` between the decrement and its look at the state of the
fiber; `idleEnded` says that its idle fiber is in state `TERM`.  The last three fields are
history: how often a finished fiber was dequeued, which fibers have been scheduled, or begun
with a callback, and have not ended, and the thread that the task of a fiber was submitted
for. -/
structure Lifecycle (Worker Fiber Callback : Type) where
  core : Scheduler Worker Fiber Callback
  ftThread : Worker → Scheduler.ThreadId Worker
  settling : Worker → Bool
  idleEnded : Worker → Bool
  life : Worker → Scheduler.Life
  m_stopping : Bool
  m_autoStop : Bool
  stopper : Scheduler.Stopper
  dropped : Nat
  unfinished : Fiber → Bool
  pin : Fiber → Scheduler.ThreadId Worker

namespace Lifecycle

open Scheduler

variable {Worker Fiber Callback : Type}

/-- `Scheduler::stopping()`; that of `IOManager` also asks for no timer and no event. -/
def stopping (s : Lifecycle Worker Fiber Callback) : Bool :=
  s.m_autoStop && s.m_stopping && s.core.m_fibers.isEmpty && s.core.m_activeThreadCount == 0

/-- Who may be calling `schedule()`: any other thread, or a worker inside `run`. -/
def Calls (s : Lifecycle Worker Fiber Callback) : Option Worker → Prop
  | none => True
  | some worker => s.life worker = .inside ∧ (s.core.stage worker).calls = true

/-- A fiber is finished: nothing is left of it to execute. -/
def finished (s : Lifecycle Worker Fiber Callback) (fiber : Fiber) : Bool :=
  s.core.m_state fiber = .TERM || s.core.m_state fiber = .EXCEP

section

variable [DecidableEq Fiber]

/-- A fiber that is scheduled has a task to be executed, unless it is finished. -/
def submit (s : Lifecycle Worker Fiber Callback) (fc : Option (Task Fiber Callback))
    (thread : ThreadId Worker) : Lifecycle Worker Fiber Callback :=
  match fc with
  | some (.fiber fiber) =>
      { s with
        unfinished := Function.update s.unfinished fiber (s.unfinished fiber || !s.finished fiber)
        pin := match thread with
          | .worker _ => Function.update s.pin fiber thread
          | _ => s.pin }
  | _ => s

/-- A callback is begun on a fiber. -/
def begin (s : Lifecycle Worker Fiber Callback) (worker : Worker) (fiber : Fiber) :
    Lifecycle Worker Fiber Callback :=
  { s with
    unfinished := Function.update s.unfinished fiber true
    pin := Function.update s.pin fiber (s.ftThread worker) }

theorem pin_submit (s : Lifecycle Worker Fiber Callback) (fiber : Fiber) (worker : Worker) :
    (s.submit (some (.fiber fiber)) (.worker worker)).pin fiber = .worker worker :=
  Function.update_self ..

theorem pin_begin (s : Lifecycle Worker Fiber Callback) (worker : Worker) (fiber : Fiber) :
    (s.begin worker fiber).pin fiber = s.ftThread worker :=
  Function.update_self ..

end

/-- The steps of `stop()`. -/
inductive StopMove where
  | call
  | early
  | atOnce
  | flag
  | tickle
  | write
  | noRoot
  | test
  | callRoot
  | back

inductive Label (Worker Fiber Callback : Type) where
  | create (fiber : Fiber)
  | schedule (caller : Option Worker) (fc : Option (Task Fiber Callback)) (thread : ThreadId Worker)
  | scheduleRange (caller : Option Worker) (cbs : List (Option Callback))
  | tickle
  | write
  | worker (worker : Worker) (move : Move Fiber)
  | settle (worker : Worker)
  | endIdle (worker : Worker)
  | exit (worker : Worker)
  | stop (move : StopMove)

variable [DecidableEq Worker] [DecidableEq Fiber] [Fintype Worker]

/-- `m_threadCount == 0`, and the root fiber is in state `INIT` or `TERM`. -/
def RootOnly (root : Option Worker) (s : Lifecycle Worker Fiber Callback) : Prop :=
  ∃ worker, root = some worker ∧ (∀ other, other = worker) ∧ s.life worker ≠ .inside

omit [DecidableEq Worker] [DecidableEq Fiber] [Fintype Worker] in
theorem not_rootOnly_none (s : Lifecycle Worker Fiber Callback) : ¬ RootOnly none s := by
  rintro ⟨worker, isRoot, -⟩
  cases isRoot

/-- `root` is the worker that runs on the thread that made the scheduler (`use_caller`). -/
inductive Step (root : Option Worker) : Lifecycle Worker Fiber Callback →
    Label Worker Fiber Callback → Lifecycle Worker Fiber Callback → Prop where
  | create {s : Lifecycle Worker Fiber Callback} (fiber : Fiber) :
      s.core.created fiber = false →
      Step root s (.create fiber) { s with core := s.core.construct fiber 0 }
  | schedule {s : Lifecycle Worker Fiber Callback} (caller : Option Worker)
      (fc : Option (Task Fiber Callback)) (thread : ThreadId Worker) : s.Calls caller →
      (∀ fiber, fc = some (.fiber fiber) → s.core.created fiber = true) →
      Step root s (.schedule caller fc thread) { s.submit fc thread with
        core := s.core.push (scheduleNolock s.core.m_fibers fc thread) }
  | scheduleRange {s : Lifecycle Worker Fiber Callback} (caller : Option Worker)
      (cbs : List (Option Callback)) : s.Calls caller →
      Step root s (.scheduleRange caller cbs) { s with
        core := s.core.push
          (Scheduler.scheduleRange s.core.m_fibers (cbs.map fun cb => cb.map Task.cb)) }
  | tickle {s : Lifecycle Worker Fiber Callback} : 0 < s.core.ticklers →
      Step root s .tickle { s with core := { s.core with
        ticklers := s.core.ticklers - 1
        writers := if 0 < s.core.m_idleThreadCount then s.core.writers + 1 else s.core.writers } }
  | write {s : Lifecycle Worker Fiber Callback} : 0 < s.core.writers →
      Step root s .write { s with core := { s.core with
        writers := s.core.writers - 1, tickleFd := s.core.tickleFd + 1 } }
  /-- An idle fiber that has ended is not entered again. -/
  | quiet {s : Lifecycle Worker Fiber Callback} (worker : Worker) (move : Move Fiber)
      {core : Scheduler Worker Fiber Callback} : s.life worker = .inside → move.quiet = true →
      (move = .enter → s.idleEnded worker = false) →
      Scheduler.Step s.core (.worker worker move) core →
      Step root s (.worker worker move) { s with core := core }
  | scan {s : Lifecycle Worker Fiber Callback} (worker : Worker) : s.life worker = .inside →
      s.core.stage worker = .next .scan →
      Step root s (.worker worker .scan) { s with
        core := s.core.scan worker
        ftThread := Function.update s.ftThread worker
          ((s.core.m_fibers.find? (·.ready worker s.core.m_state)).elim .any (·.thread)) }
  | swapIn {s : Lifecycle Worker Fiber Callback} (worker : Worker) {fiber : Fiber} :
      s.life worker = .inside → s.core.stage worker = .next (.handle (some (.fiber fiber))) →
      s.finished fiber = false → s.core.m_state fiber ≠ .EXEC →
      Step root s (.worker worker .swapIn) { s with
        core := (s.core.setState fiber .EXEC).setStage worker (.running fiber .working false) }
  /-- A finished fiber is not run again; `m_activeThreadCount` stays incremented. -/
  | drop {s : Lifecycle Worker Fiber Callback} (worker : Worker) {fiber : Fiber} :
      s.life worker = .inside → s.core.stage worker = .next (.handle (some (.fiber fiber))) →
      s.finished fiber = true →
      Step root s (.worker worker .drop) { s with
        core := s.core.setStage worker (.next .scan)
        dropped := s.dropped + 1 }
  /-- `reset(cb)` asserts that the callback fiber is in state `TERM`, `INIT` or `EXCEP`. -/
  | swapInCb {s : Lifecycle Worker Fiber Callback} (worker : Worker) {cb : Callback}
      {fiber : Fiber} : s.life worker = .inside →
      s.core.stage worker = .next (.handle (some (.cb cb))) →
      s.core.cb_fiber worker = some fiber →
      s.core.m_state fiber = .INIT ∨ s.finished fiber = true →
      Step root s (.worker worker .swapIn) { s.begin worker fiber with
        core := (s.core.setState fiber .EXEC).setStage worker (.running fiber .working true) }
  | swapInNew {s : Lifecycle Worker Fiber Callback} (worker : Worker) {cb : Callback}
      (fiber : Fiber) : s.life worker = .inside →
      s.core.stage worker = .next (.handle (some (.cb cb))) →
      s.core.cb_fiber worker = none → s.core.created fiber = false →
      Step root s (.worker worker (.construct fiber)) { s.begin worker fiber with
        core := (((s.core.construct fiber 0).setState fiber .EXEC).setCbFiber worker
          (some fiber)).setStage worker (.running fiber .working true) }
  | finish {s : Lifecycle Worker Fiber Callback} (worker : Worker) {fiber : Fiber}
      {viaCb : Bool} (state : FiberState) : s.life worker = .inside →
      s.core.stage worker = .running fiber .working viaCb → state = .TERM ∨ state = .EXCEP →
      Step root s (.worker worker (.finish state)) { s with
        core := (s.core.setState fiber state).setStage worker (.running fiber .ending viaCb)
        unfinished := Function.update s.unfinished fiber false }
  /-- `--m_activeThreadCount` after a `swapIn` has returned. -/
  | update {s : Lifecycle Worker Fiber Callback} (worker : Worker) {fiber : Fiber}
      {viaCb : Bool} : s.life worker = .inside →
      s.core.stage worker = .swapped fiber viaCb → s.settling worker = false →
      Step root s (.worker worker .update) { s with
        core := { s.core with m_activeThreadCount := s.core.m_activeThreadCount - 1 }
        settling := Function.update s.settling worker true }
  | settle {s : Lifecycle Worker Fiber Callback} (worker : Worker) {fiber : Fiber}
      {viaCb : Bool} : s.life worker = .inside →
      s.core.stage worker = .swapped fiber viaCb → s.settling worker = true →
      Step root s (.settle worker) { s with
        core := s.core.settle worker fiber viaCb
        settling := Function.update s.settling worker false }
  /-- The idle fiber finds `stopping()` and ends. -/
  | endIdle {s : Lifecycle Worker Fiber Callback} (worker : Worker) : s.life worker = .inside →
      s.core.stage worker = .idling → s.stopping = true →
      Step root s (.endIdle worker) { s with
        core := s.core.setStage worker .left
        idleEnded := Function.update s.idleEnded worker true }
  | exit {s : Lifecycle Worker Fiber Callback} (worker : Worker) : s.life worker = .inside →
      s.core.stage worker = .next (.handle none) → s.idleEnded worker = true →
      Step root s (.exit worker) { s with life := Function.update s.life worker .left }
  /-- `stop()` may be called again, as by `~IOManager`. -/
  | stopCall {s : Lifecycle Worker Fiber Callback} :
      s.stopper = .outside ∨ s.stopper = .returned →
      Step root s (.stop .call) { s with m_autoStop := true, stopper := .called }
  | stopEarly {s : Lifecycle Worker Fiber Callback} : s.stopper = .called → RootOnly root s →
      Step root s (.stop .early) { s with m_stopping := true, stopper := .early }
  | stopAtOnce {s : Lifecycle Worker Fiber Callback} : s.stopper = .early →
      s.stopping = true → Step root s (.stop .atOnce) { s with stopper := .returned }
  | stopFlag {s : Lifecycle Worker Fiber Callback} :
      s.stopper = .called ∧ ¬ RootOnly root s ∨ s.stopper = .early →
      Step root s (.stop .flag)
        { s with m_stopping := true, stopper := .flagged (Fintype.card Worker) }
  | stopTickle {s : Lifecycle Worker Fiber Callback} {tickles : Nat} :
      s.stopper = .flagged (tickles + 1) →
      Step root s (.stop .tickle) { s with
        stopper := if 0 < s.core.m_idleThreadCount then .writing tickles else .flagged tickles }
  | stopWrite {s : Lifecycle Worker Fiber Callback} {tickles : Nat} :
      s.stopper = .writing tickles →
      Step root s (.stop .write) { s with
        core := { s.core with tickleFd := s.core.tickleFd + 1 }, stopper := .flagged tickles }
  /-- Without a root fiber `stop()` returns after its tickles. -/
  | stopNoRoot {s : Lifecycle Worker Fiber Callback} : s.stopper = .flagged 0 → root = none →
      Step root s (.stop .noRoot) { s with stopper := .returned }
  | stopTest {s : Lifecycle Worker Fiber Callback} {worker : Worker} :
      s.stopper = .flagged 0 → root = some worker → s.stopping = true →
      Step root s (.stop .test) { s with stopper := .returned }
  /-- `m_rootFiber->call()`; a root fiber that has ended cannot be called again. -/
  | stopCallRoot {s : Lifecycle Worker Fiber Callback} {worker : Worker} :
      s.stopper = .flagged 0 → root = some worker → s.life worker = .outside →
      Step root s (.stop .callRoot)
        { s with life := Function.update s.life worker .inside, stopper := .calling }
  | stopBack {s : Lifecycle Worker Fiber Callback} {worker : Worker} :
      s.stopper = .calling → root = some worker → s.life worker = .left →
      Step root s (.stop .back) { s with stopper := .returned }

omit [DecidableEq Fiber] [Fintype Worker] in
/-- The scheduler after `start()`: its threads are inside `run`, the root fiber is not. -/
def start (root : Option Worker) : Lifecycle Worker Fiber Callback where
  core := Scheduler.start
  ftThread := fun _ => .any
  settling := fun _ => false
  idleEnded := fun _ => false
  life := fun worker => if root = some worker then .outside else .inside
  m_stopping := false
  m_autoStop := false
  stopper := .outside
  dropped := 0
  unfinished := fun _ => false
  pin := fun _ => .any

end Lifecycle

/-- Every interleaving of the workers, the threads that call `schedule()`, and `stop()`. -/
def lifecycle (Worker Fiber Callback : Type) [DecidableEq Worker] [DecidableEq Fiber]
    [Fintype Worker] (root : Option Worker) :
    Library.System (Lifecycle Worker Fiber Callback) (Lifecycle.Label Worker Fiber Callback) where
  initial s := s = Lifecycle.start root
  step := Lifecycle.Step root

end Exhy
