import Exhy.Library.Count
import Exhy.Scheduler.Exclusion

/-!
# Wake-ups for queued tasks

`schedule()` tickles only when it found the queue empty, and `tickle()` writes a byte only
when it finds an idle worker.  Between its scan and `++m_idleThreadCount` a worker is
neither, and entries that no scanning worker may run keep the queue from being empty, so a
task can be left in the queue while the workers that may run it are blocked.  In the runs
in which neither happens, every such task has an unread byte in the pipe.
-/

namespace Exhy.Scheduler

open IOManager (Task)
open Library

variable {Worker Fiber Callback : Type}

namespace Stage

/-- The worker's scan found nothing, and it is not yet counted as idle. -/
def foundNothing : Stage Fiber Callback → Bool
  | .next (.handle none) | .tickling (.handle none) | .writing (.handle none) => true
  | _ => false

/-- The worker is counted in `m_idleThreadCount`. -/
def idle : Stage Fiber Callback → Bool
  | .entered | .idling | .blocked | .woken _ | .left => true
  | _ => false

/-- The worker's scan found nothing, and it goes on to block in `epoll_wait`. -/
def asleep : Stage Fiber Callback → Bool
  | .entered | .idling | .blocked => true
  | stage => stage.foundNothing

/-- The worker is about to tickle, or will scan the queue before it runs a task or blocks. -/
def alert : Stage Fiber Callback → Bool
  | .tickling _ | .writing _ | .next .scan | .swapped _ _ | .woken _ | .left => true
  | _ => false

/-- The worker is executing a task. -/
def executing : Stage Fiber Callback → Bool
  | .running _ _ _ => true
  | _ => false

theorem alert_of_executing {stage : Stage Fiber Callback} (runs : stage.executing = true) :
    stage.alert = false := by
  unfold Stage.executing at runs
  split at runs
  · rfl
  · cases runs

theorem asleep_cases {stage : Stage Fiber Callback} (asleep : stage.asleep = true) :
    stage.foundNothing = true ∨ stage.idle = true := by
  unfold Stage.asleep at asleep
  split at asleep
  · exact .inr rfl
  · exact .inr rfl
  · exact .inr rfl
  · exact .inl asleep

end Stage

section Conditions

variable [DecidableEq Worker]

/-- The worker may run the entry: it is unpinned or pinned to the worker, and it is not a
fiber in state `EXEC`. -/
def MayRun (s : Scheduler Worker Fiber Callback) (worker : Worker)
    (it : FiberAndThread Worker Fiber Callback) : Prop :=
  it.pinnedAway worker = false ∧ it.executing s.m_state = false

/-- A wake-up is under way: a byte is in the pipe or about to be tested for or written, or
a worker will look at the queue. -/
def Awake (s : Scheduler Worker Fiber Callback) : Prop :=
  0 < s.tickleFd ∨ 0 < s.ticklers ∨ 0 < s.writers ∨ ∃ worker, (s.stage worker).alert = true

/-- No worker that is going to sleep or sleeps may run the entry, or a wake-up is under way. -/
def Covered (s : Scheduler Worker Fiber Callback)
    (it : FiberAndThread Worker Fiber Callback) : Prop :=
  ∀ worker, (s.stage worker).asleep = true → s.MayRun worker it → s.Awake

/-- A tickle that finds no idle worker and leaves the state `after`: no worker between an
empty scan and `++m_idleThreadCount` may run a queued entry, or another wake-up remains. -/
def TickleSpared (s after : Scheduler Worker Fiber Callback) : Prop :=
  s.m_idleThreadCount = 0 → ∀ worker, (s.stage worker).foundNothing = true →
    ∀ it ∈ s.m_fibers, s.MayRun worker it → after.Awake

/-- The condition on the steps: what is pushed on a queue that is not empty is covered, and
no tickle is lost to a worker that is about to count itself as idle. -/
def WakeKept (s : Scheduler Worker Fiber Callback) : Label Worker Fiber Callback → Prop
  | .schedule fc thread => s.m_fibers ≠ [] → ∀ task, fc = some task → s.Covered ⟨task, thread⟩
  | .scheduleRange cbs => s.m_fibers ≠ [] → ∀ cb, some cb ∈ cbs → s.Covered ⟨.cb cb, .any⟩
  | .tickle => s.TickleSpared { s with ticklers := s.ticklers - 1 }
  | .worker worker .tickle => ∀ next, s.stage worker = .tickling next →
      s.TickleSpared (s.setStage worker (.next next))
  | _ => True

/-- In a state in which every worker executes a task or is blocked and no `schedule()` is
between its push and its tickle, an entry that a blocked worker may run has an unread byte
in the pipe. -/
def NoLostWakeup (s : Scheduler Worker Fiber Callback) : Prop :=
  (∀ worker, (s.stage worker).executing = true ∨ s.stage worker = .blocked) →
    s.ticklers = 0 → s.writers = 0 →
    ∀ it ∈ s.m_fibers, ∀ worker, s.stage worker = .blocked → s.MayRun worker it →
      0 < s.tickleFd

end Conditions

/-! ## The queue -/

section Queue

theorem scheduleNolock_mem {m_fibers : List (FiberAndThread Worker Fiber Callback)}
    {fc : Option (Task Fiber Callback)} {thread : ThreadId Worker}
    {it : FiberAndThread Worker Fiber Callback}
    (member : it ∈ (scheduleNolock m_fibers fc thread).2) :
    it ∈ m_fibers ∨ ∃ task, fc = some task ∧ it = ⟨task, thread⟩ := by
  rcases List.mem_append.mp member with old | new
  · exact .inl old
  · obtain ⟨task, isTask, rfl⟩ := List.mem_map.mp new
    exact .inr ⟨task, by simpa using isTask, rfl⟩

theorem scheduleRange_mem {m_fibers : List (FiberAndThread Worker Fiber Callback)}
    {fcs : List (Option (Task Fiber Callback))} {it : FiberAndThread Worker Fiber Callback}
    (quiet : (scheduleRange m_fibers fcs).1 = false)
    (member : it ∈ (scheduleRange m_fibers fcs).2) :
    it ∈ m_fibers ∨ m_fibers ≠ [] ∧ ∃ task, some task ∈ fcs ∧ it = ⟨task, .any⟩ := by
  induction fcs generalizing m_fibers with
  | nil => exact .inl member
  | cons fc rest ih =>
      simp only [scheduleRange, Bool.or_eq_false_iff] at quiet member
      obtain ⟨notEmpty, restQuiet⟩ := quiet
      have nonempty : m_fibers ≠ [] := by simpa [scheduleNolock] using notEmpty
      rcases ih restQuiet member with here | ⟨-, task, isTask, rfl⟩
      · rcases scheduleNolock_mem here with old | ⟨task, rfl, rfl⟩
        · exact .inl old
        · exact .inr ⟨nonempty, task, by simp, rfl⟩
      · exact .inr ⟨nonempty, task, by simp [isTask], rfl⟩

/-- What a scan leaves behind without setting `tickle_me` is in state `EXEC`. -/
theorem scanQueue_left [DecidableEq Worker] {worker : Worker} {m_state : Fiber → FiberState}
    {m_fibers : List (FiberAndThread Worker Fiber Callback)}
    (quiet : (scanQueue worker m_state m_fibers).2.2 = false) :
    ∀ it ∈ (scanQueue worker m_state m_fibers).2.1, it.executing m_state = true := by
  induction m_fibers with
  | nil =>
      intro it member
      cases member
  | cons first rest ih =>
      rw [scanQueue] at quiet ⊢
      generalize scanQueue worker m_state rest = result at ih quiet ⊢
      obtain ⟨ft, kept, tickle_me⟩ := result
      split at quiet
      · cases quiet
      next notAway =>
        rw [if_neg notAway]
        split at quiet
        next executing =>
          rw [if_pos executing]
          intro it member
          rcases List.mem_cons.mp member with rfl | inKept
          · exact executing
          · exact ih quiet it inKept
        next ready =>
          rw [if_neg ready]
          intro it member
          cases rest with
          | nil => cases member
          | cons => cases quiet

/-- A fiber that is not queued, or that is put into state `EXEC`, makes no entry runnable. -/
theorem executing_update [DecidableEq Fiber]
    {m_fibers : List (FiberAndThread Worker Fiber Callback)} {m_state : Fiber → FiberState}
    {fiber : Fiber} {state : FiberState}
    (apart : state = .EXEC ∨ m_state fiber ≠ .EXEC ∨ queued m_fibers fiber = 0) :
    ∀ it ∈ m_fibers, it.executing (Function.update m_state fiber state) = false →
      it.executing m_state = false := by
  intro it member runnable
  cases task : it.task with
  | cb cb => simp [FiberAndThread.executing, task]
  | fiber other =>
      simp only [FiberAndThread.executing, task, decide_eq_false_iff_not] at runnable ⊢
      by_cases same : other = fiber
      · subst same
        rw [Function.update_self] at runnable
        rcases apart with isExec | notExec | notQueued
        · exact absurd isExec runnable
        · exact notExec
        · have positive : 0 < queued m_fibers other :=
            List.countP_pos_iff.mpr ⟨it, member, by simp [isFiber, task]⟩
          rw [notQueued] at positive
          exact absurd positive (Nat.lt_irrefl 0)
      · rwa [Function.update_of_ne same] at runnable

/-- A fiber that works has arranged no wake-up yet, so it is not queued. -/
theorem Placed.notQueued [DecidableEq Fiber] {s : Scheduler Worker Fiber Callback}
    {place : Fiber → Place Worker} (placed : Placed s place) {worker : Worker} {fiber : Fiber}
    {viaCb : Bool} (running : s.stage worker = .running fiber .working viaCb) :
    queued s.m_fibers fiber = 0 := by
  have budget := placed.budget fiber
  rw [placed.claims worker fiber (.running worker .working) (by rw [running]; rfl)] at budget
  exact Nat.le_zero.mp (Nat.le_trans (Nat.le_add_right _ _) budget)

/-- After the update the worker scans, with a tickle before it if it has to. -/
theorem update_stage [DecidableEq Worker] [DecidableEq Fiber]
    (s : Scheduler Worker Fiber Callback) (worker : Worker) (fiber : Fiber) (viaCb : Bool) :
    ∃ after, after.alert = true ∧ after.idle = false ∧
      (s.update worker fiber viaCb).stage = Function.update s.stage worker after ∧
      (s.update worker fiber viaCb).m_idleThreadCount = s.m_idleThreadCount := by
  simp only [update]
  split
  · refine ⟨if (scheduleNolock s.m_fibers (some (.fiber fiber)) .any).1 then .tickling .scan
      else .next .scan, ?_, ?_, ?_, ?_⟩
    · split <;> rfl
    · split <;> rfl
    · cases viaCb <;> rfl
    · cases viaCb <;> rfl
  all_goals exact ⟨.next .scan, rfl, rfl, by cases viaCb <;> rfl, by cases viaCb <;> rfl⟩

end Queue

/-! ## The invariant -/

section Invariant

variable [DecidableEq Worker] [Fintype Worker]

structure Watched (s : Scheduler Worker Fiber Callback) : Prop where
  count : s.m_idleThreadCount = countWhere Stage.idle s.stage
  covered : ∀ it ∈ s.m_fibers, s.Covered it

variable {s next : Scheduler Worker Fiber Callback} {worker : Worker}
variable {stage : Stage Fiber Callback}

omit [DecidableEq Worker] [Fintype Worker] in
theorem Awake.of_alert (alert : (next.stage worker).alert = true) : next.Awake :=
  .inr (.inr (.inr ⟨worker, alert⟩))

omit [DecidableEq Worker] [Fintype Worker] in
/-- A wake-up stays under way while the worker that moves on was not it. -/
theorem Awake.keep (awake : s.Awake) (bytes : s.tickleFd ≤ next.tickleFd)
    (ticklers : s.ticklers ≤ next.ticklers) (writers : s.writers ≤ next.writers)
    (stages : ∀ other, (s.stage other).alert = true → next.stage other = s.stage other) :
    next.Awake := by
  rcases awake with byte | tickler | writer | ⟨other, alert⟩
  · exact .inl (Nat.lt_of_lt_of_le byte bytes)
  · exact .inr (.inl (Nat.lt_of_lt_of_le tickler ticklers))
  · exact .inr (.inr (.inl (Nat.lt_of_lt_of_le writer writers)))
  · exact .of_alert (by rwa [stages other alert])

theorem Watched.of_awake (count : next.m_idleThreadCount = countWhere Stage.idle next.stage)
    (awake : next.Awake) : Watched next :=
  ⟨count, fun _ _ _ _ _ => awake⟩

/-- A step that queues nothing, lets no worker fall asleep and makes no entry runnable. -/
theorem Watched.keep (watched : Watched s)
    (count : next.m_idleThreadCount = countWhere Stage.idle next.stage)
    (queue : next.m_fibers = s.m_fibers)
    (asleep : ∀ other, (next.stage other).asleep = true → (s.stage other).asleep = true)
    (states : ∀ it ∈ s.m_fibers, it.executing next.m_state = false →
      it.executing s.m_state = false)
    (awake : s.Awake → next.Awake) : Watched next := by
  refine ⟨count, fun it member other isAsleep mayRun => awake ?_⟩
  rw [queue] at member
  exact watched.covered it member other (asleep other isAsleep)
    ⟨mayRun.1, states it member mayRun.2⟩

/-- The count follows a worker that is idle before and after a step, or neither. -/
theorem count_same (worker : Worker) (stage : Stage Fiber Callback)
    (count : s.m_idleThreadCount = countWhere Stage.idle s.stage)
    (stages : next.stage = Function.update s.stage worker stage)
    (idle : stage.idle = (s.stage worker).idle)
    (same : next.m_idleThreadCount = s.m_idleThreadCount) :
    next.m_idleThreadCount = countWhere Stage.idle next.stage := by
  have moved := countWhere_update Stage.idle s.stage worker stage
  rw [idle] at moved
  rw [same, stages, count]
  omega

omit [Fintype Worker] in
theorem stage_setStage_alert {other : Worker} (notAlert : (s.stage worker).alert = false)
    (isAlert : (s.stage other).alert = true) :
    (s.setStage worker stage).stage other = s.stage other := by
  refine stage_setStage_ne _ ?_ _
  rintro rfl
  rw [notAlert] at isAlert
  cases isAlert

theorem Watched.start :
    Watched (Scheduler.start : Scheduler Worker Fiber Callback) :=
  ⟨(countWhere_eq_zero fun _ => rfl).symm, fun _ member => nomatch member⟩

end Invariant

/-! ## The steps -/

section Steps

variable [DecidableEq Worker] [Fintype Worker]
variable {s next : Scheduler Worker Fiber Callback} {worker : Worker}
variable {stage : Stage Fiber Callback}

/-- A worker that becomes alert is a wake-up. -/
theorem Watched.becomesAlert (watched : Watched s) (worker : Worker)
    (stage : Stage Fiber Callback)
    (stages : next.stage = Function.update s.stage worker stage)
    (idle : stage.idle = (s.stage worker).idle)
    (same : next.m_idleThreadCount = s.m_idleThreadCount) (alert : stage.alert = true) :
    Watched next := by
  have isAlert : (next.stage worker).alert = true := by
    rw [stages, Function.update_self, alert]
  exact .of_awake (count_same worker stage watched.count stages idle same) (.of_alert isAlert)

/-- A worker that was not a wake-up moves on without falling asleep. -/
theorem Watched.moves (watched : Watched s) (worker : Worker) (stage : Stage Fiber Callback)
    (stages : next.stage = Function.update s.stage worker stage)
    (idle : stage.idle = (s.stage worker).idle)
    (same : next.m_idleThreadCount = s.m_idleThreadCount)
    (notAlert : (s.stage worker).alert = false)
    (asleep : stage.asleep = true → (s.stage worker).asleep = true)
    (queue : next.m_fibers = s.m_fibers)
    (states : ∀ it ∈ s.m_fibers, it.executing next.m_state = false →
      it.executing s.m_state = false)
    (bytes : next.tickleFd = s.tickleFd) (ticklers : next.ticklers = s.ticklers)
    (writers : next.writers = s.writers) : Watched next := by
  refine watched.keep (count_same worker stage watched.count stages idle same) queue (fun other isAsleep => ?_)
    states fun awake => awake.keep (Nat.le_of_eq bytes.symm) (Nat.le_of_eq ticklers.symm)
      (Nat.le_of_eq writers.symm) fun other isAlert => ?_
  · rw [stages] at isAsleep
    by_cases here : other = worker
    · subst here
      rw [Function.update_self] at isAsleep
      exact asleep isAsleep
    · rwa [Function.update_of_ne here] at isAsleep
  · rw [stages, Function.update_of_ne]
    rintro rfl
    rw [notAlert] at isAlert
    cases isAlert

theorem Watched.pushed (watched : Watched s)
    {pushed : Bool × List (FiberAndThread Worker Fiber Callback)}
    {base : Scheduler Worker Fiber Callback}
    (same : base.stage = s.stage ∧ base.m_state = s.m_state ∧ base.ticklers = s.ticklers ∧
      base.writers = s.writers ∧ base.tickleFd = s.tickleFd ∧
      base.m_idleThreadCount = s.m_idleThreadCount)
    (added : pushed.1 = false → ∀ it ∈ pushed.2, it ∈ s.m_fibers ∨ s.Covered it) :
    Watched (base.push pushed) := by
  obtain ⟨stages, states, ticklers, writers, bytes, idle⟩ := same
  have count : (base.push pushed).m_idleThreadCount =
      countWhere Stage.idle (base.push pushed).stage := by
    simp only [push, idle, stages, watched.count]
  obtain ⟨need_tickle, m_fibers⟩ := pushed
  cases need_tickle with
  | true => exact .of_awake count (.inr (.inl (Nat.succ_pos _)))
  | false =>
      refine ⟨count, fun it member other isAsleep mayRun => ?_⟩
      have covered : s.Covered it := by
        rcases added rfl it member with old | covered
        · exact watched.covered it old
        · exact covered
      simp only [push, stages] at isAsleep
      simp only [MayRun, push, states] at mayRun
      refine (covered other isAsleep mayRun).keep ?_ ?_ ?_ fun _ _ => ?_
      · exact Nat.le_of_eq bytes.symm
      · exact Nat.le_of_eq ticklers.symm
      · exact Nat.le_of_eq writers.symm
      · simp only [push, stages]

/-- A scan that leaves something runnable behind goes on to tickle. -/
theorem Watched.scan (watched : Watched s) (scanning : s.stage worker = .next .scan) :
    Watched (s.scan worker) := by
  have left := @scanQueue_left Worker Fiber Callback _ worker s.m_state s.m_fibers
  cases resultEq : scanQueue worker s.m_state s.m_fibers with
  | mk ft rest =>
      obtain ⟨kept, tickle_me⟩ := rest
      rw [resultEq] at left
      cases tickle_me with
      | true =>
          refine watched.becomesAlert worker (.tickling (.handle ft)) ?_ ?_ ?_ rfl
          · simp [Scheduler.scan, resultEq, setStage]
          · rw [scanning]
            rfl
          · simp [Scheduler.scan, resultEq, setStage]
      | false =>
          refine ⟨count_same worker (.next (.handle ft)) watched.count ?_ ?_ ?_,
            fun it member other isAsleep mayRun => ?_⟩
          · simp [Scheduler.scan, resultEq, setStage]
          · rw [scanning]
            rfl
          · simp [Scheduler.scan, resultEq, setStage]
          · have executing := left rfl it (by simpa [Scheduler.scan, resultEq, setStage] using member)
            have notExecuting : it.executing s.m_state = false := by
              simpa [Scheduler.scan, resultEq, setStage] using mayRun.2
            rw [executing] at notExecuting
            cases notExecuting

/-- A tickle that finds no idle worker is spared when no worker needed it. -/
theorem Watched.spared (watched : Watched s) (spared : s.TickleSpared next)
    (count : next.m_idleThreadCount = countWhere Stage.idle next.stage)
    (none : s.m_idleThreadCount = 0) (queue : next.m_fibers = s.m_fibers)
    (states : next.m_state = s.m_state)
    (asleep : ∀ other, (next.stage other).asleep = true → (s.stage other).asleep = true) :
    Watched next := by
  refine ⟨count, fun it member other isAsleep mayRun => ?_⟩
  rw [queue] at member
  rw [MayRun, states] at mayRun
  rcases Stage.asleep_cases (asleep other isAsleep) with found | idle
  · exact spared none other found it member mayRun
  · have positive := countWhere_pos idle
    rw [← watched.count, none] at positive
    exact absurd positive (Nat.lt_irrefl 0)

theorem Watched.tickle (watched : Watched s)
    (spared : s.TickleSpared { s with ticklers := s.ticklers - 1 }) :
    Watched { s with
      ticklers := s.ticklers - 1
      writers := if 0 < s.m_idleThreadCount then s.writers + 1 else s.writers } := by
  by_cases idle : 0 < s.m_idleThreadCount
  · rw [if_pos idle]
    exact .of_awake watched.count (.inr (.inr (.inl (Nat.succ_pos _))))
  · rw [if_neg idle]
    exact watched.spared spared watched.count (Nat.eq_zero_of_not_pos idle) rfl rfl fun _ => id

theorem Watched.workerTickle (watched : Watched s) {after : Next Fiber Callback}
    (tickling : s.stage worker = .tickling after)
    (spared : s.TickleSpared (s.setStage worker (.next after))) :
    Watched (s.setStage worker
      (if 0 < s.m_idleThreadCount then .writing after else .next after)) := by
  by_cases idle : 0 < s.m_idleThreadCount
  · rw [if_pos idle]
    exact watched.becomesAlert worker (.writing after) rfl (by rw [tickling]; rfl) rfl rfl
  · rw [if_neg idle]
    refine watched.spared spared
      (count_same worker (.next after) watched.count rfl (by rw [tickling]; rfl) rfl)
      (Nat.eq_zero_of_not_pos idle) rfl rfl fun other isAsleep => ?_
    by_cases same : other = worker
    · subst same
      rw [stage_setStage_self] at isAsleep
      rw [tickling]
      rcases after with _ | _ | task <;> exact isAsleep
    · rwa [stage_setStage_ne _ same] at isAsleep

variable [DecidableEq Fiber]

/-- The step lemma: a step that meets the condition keeps every runnable entry covered. -/
theorem watched_step {place : Fiber → Place Worker} {label : Label Worker Fiber Callback}
    (placed : Placed s place) (watched : Watched s) (kept : s.WakeKept label)
    (stepped : Step s label next) : Watched next := by
  cases stepped with
  | create fiber unborn =>
      have fits := placed.fits fiber
      rw [placed.created fiber unborn] at fits
      refine watched.keep watched.count rfl (fun _ => id) ?_ fun awake => awake.keep
        (Nat.le_refl _) (Nat.le_refl _) (Nat.le_refl _) fun _ _ => rfl
      exact executing_update (.inr (.inl (by rw [show s.m_state fiber = .INIT from fits]; decide)))
  | schedule fc thread due =>
      refine watched.pushed ?_ fun quiet it member => ?_
      · rcases fc with _ | fiber | cb <;> exact ⟨rfl, rfl, rfl, rfl, rfl, rfl⟩
      · rcases scheduleNolock_mem member with old | ⟨task, isTask, rfl⟩
        · exact .inl old
        · exact .inr (kept (by simpa [scheduleNolock] using quiet) task isTask)
  | scheduleRange cbs =>
      refine watched.pushed ⟨rfl, rfl, rfl, rfl, rfl, rfl⟩ fun quiet it member => ?_
      rcases scheduleRange_mem quiet member with old | ⟨nonempty, task, isTask, rfl⟩
      · exact .inl old
      · obtain ⟨cb, isCb, mapped⟩ := List.mem_map.mp isTask
        obtain ⟨cb, rfl, rfl⟩ := Option.map_eq_some_iff.mp mapped
        exact .inr (kept nonempty cb isCb)
  | tickle => exact watched.tickle kept
  | write => exact .of_awake watched.count (.inl (Nat.succ_pos _))
  | scan worker scanning => exact watched.scan scanning
  | workerTickle worker tickling => exact watched.workerTickle tickling (kept _ tickling)
  | workerWrite worker writing =>
      rename_i after
      refine .of_awake (count_same worker (.next after) watched.count rfl ?_ rfl)
        (.inl (Nat.succ_pos _))
      rw [writing]
      rfl
  | swapIn worker held =>
      rename_i fiber _ _
      exact watched.moves worker (.running fiber .working false) rfl (by rw [held]; rfl) rfl
        (by rw [held]; rfl) (by rintro ⟨⟩) rfl (executing_update (.inl rfl)) rfl rfl rfl
  | drop worker held =>
      exact watched.becomesAlert worker (.next .scan) rfl (by rw [held]; rfl) rfl rfl
  | swapInCb worker handling cached =>
      rename_i cb fiber
      exact watched.moves worker (.running fiber .working true) rfl (by rw [handling]; rfl) rfl
        (by rw [handling]; rfl) (by rintro ⟨⟩) rfl (executing_update (.inl rfl)) rfl rfl rfl
  | swapInNew worker fiber handling none unborn =>
      refine watched.moves worker (.running fiber .working true) rfl (by rw [handling]; rfl) rfl
        (by rw [handling]; rfl) (by rintro ⟨⟩) rfl ?_ rfl rfl rfl
      have state : ((((s.construct fiber 0).setState fiber .EXEC).setCbFiber worker
          (some fiber)).setStage worker (.running fiber .working true)).m_state =
          Function.update s.m_state fiber .EXEC := Function.update_idem ..
      rw [state]
      exact executing_update (.inl rfl)
  | enter worker nothing =>
      have moved := countWhere_update Stage.idle s.stage worker .entered
      rw [nothing] at moved
      refine watched.keep ?_ rfl (fun other isAsleep => ?_) (fun _ _ => id) fun awake =>
        awake.keep (Nat.le_refl _) (Nat.le_refl _) (Nat.le_refl _) fun other isAlert => ?_
      · simp only [Stage.idle, Bool.toNat_false, Bool.toNat_true] at moved
        simp only [setStage, watched.count]
        omega
      · by_cases same : other = worker
        · subst same
          rw [nothing]
          rfl
        · rwa [stage_setStage_ne _ same] at isAsleep
      · exact stage_setStage_alert (by rw [show _ = _ from nothing]; rfl) isAlert
  | idle worker entered =>
      exact watched.moves worker .idling rfl (by rw [entered]; rfl) rfl (by rw [entered]; rfl)
        (fun _ => by rw [entered]; rfl) rfl (fun _ _ => id) rfl rfl rfl
  | epollWait worker idling =>
      exact watched.moves worker .blocked rfl (by rw [idling]; rfl) rfl (by rw [idling]; rfl)
        (fun _ => by rw [idling]; rfl) rfl (fun _ _ => id) rfl rfl rfl
  | wake worker tickled blocked =>
      exact watched.becomesAlert worker (.woken tickled) rfl (by rw [blocked]; rfl) rfl rfl
  | drain worker woken =>
      exact watched.becomesAlert worker (.woken false) rfl (by rw [woken]; rfl) rfl rfl
  | leave worker woken =>
      exact watched.becomesAlert worker .left rfl (by rw [woken]; rfl) rfl rfl
  | resume worker left =>
      have moved := countWhere_update Stage.idle s.stage worker (.next .scan)
      rw [left] at moved
      refine .of_awake ?_ (.inr (.inr (.inr ⟨worker, ?_⟩)))
      · simp only [Stage.idle, Bool.toNat_false, Bool.toNat_true] at moved
        simp only [setStage, watched.count]
        omega
      · rw [stage_setStage_self]
        rfl
  | wait worker running =>
      rename_i fiber viaCb
      exact watched.moves worker (.running fiber .waiting viaCb) rfl (by rw [running]; rfl) rfl
        (by rw [running]; rfl) (by rintro ⟨⟩) rfl (fun _ _ => id) rfl rfl rfl
  | yieldToReady worker running =>
      rename_i fiber viaCb
      exact watched.moves worker (.running fiber .readying viaCb) rfl (by rw [running]; rfl) rfl
        (by rw [running]; rfl) (by rintro ⟨⟩) rfl
        (executing_update (.inr (.inr (placed.notQueued running)))) rfl rfl rfl
  | finish worker state running ended =>
      rename_i fiber viaCb
      exact watched.moves worker (.running fiber .ending viaCb) rfl (by rw [running]; rfl) rfl
        (by rw [running]; rfl) (by rintro ⟨⟩) rfl
        (executing_update (.inr (.inr (placed.notQueued running)))) rfl rfl rfl
  | swapOut worker running =>
      rename_i fiber phase viaCb _
      exact watched.becomesAlert worker (.swapped fiber viaCb) rfl (by rw [running]; rfl) rfl rfl
  | update worker swapped =>
      rename_i fiber viaCb
      obtain ⟨after, alert, idle, stages, same⟩ := update_stage s worker fiber viaCb
      exact watched.becomesAlert worker after stages (by rw [swapped, idle]; rfl) same alert

end Steps

/-- In every run in which no push and no tickle is lost on a worker that is about to sleep,
no queued task is left without a wake-up. -/
theorem wakeup_kept [DecidableEq Worker] [DecidableEq Fiber] [Fintype Worker]
    {s : Scheduler Worker Fiber Callback}
    (reached : (scheduling Worker Fiber Callback).Reaches WakeKept s) : s.NoLostWakeup := by
  have watched : Watched s := by
    refine reached.invariant Watched ?_ ?_
    · rintro s rfl
      exact Watched.start
    · intro s label next before watched kept stepped
      obtain ⟨place, placed⟩ := exists_placed (before.mono fun _ _ _ => trivial)
      exact watched_step placed watched kept stepped
  intro settled noTickler noWriter it member worker blocked mayRun
  rcases watched.covered it member worker (by rw [blocked]; rfl) mayRun with
    byte | tickler | writer | ⟨other, alert⟩
  · exact byte
  · rw [noTickler] at tickler
    exact absurd tickler (Nat.lt_irrefl 0)
  · rw [noWriter] at writer
    exact absurd writer (Nat.lt_irrefl 0)
  · exfalso
    rcases settled other with executing | asleep
    · rw [Stage.alert_of_executing executing] at alert
      cases alert
    · rw [asleep] at alert
      cases alert

/-- A blocked worker and a callback that is scheduled with it. -/
theorem wakeup_kept_blocked :
    ∃ s : Scheduler Unit Unit Unit, s.stage () = .blocked ∧
      s.m_fibers = [⟨.cb (), .any⟩] ∧ 0 < s.tickleFd := by
  have scanned : (scheduling Unit Unit Unit).Reaches WakeKept _ :=
    .step (.initial rfl) (by exact trivial) (.scan () rfl)
  have entered : (scheduling Unit Unit Unit).Reaches WakeKept _ :=
    .step scanned (by exact trivial) (.enter () rfl)
  have idling : (scheduling Unit Unit Unit).Reaches WakeKept _ :=
    .step entered (by exact trivial) (.idle () rfl)
  have blocked : (scheduling Unit Unit Unit).Reaches WakeKept _ :=
    .step idling (by exact trivial) (.epollWait () rfl)
  have scheduled : (scheduling Unit Unit Unit).Reaches WakeKept _ :=
    .step blocked (by exact fun nonempty => absurd rfl nonempty) (.schedule (some (.cb ())) .any nofun)
  have tickled : (scheduling Unit Unit Unit).Reaches WakeKept _ :=
    .step scheduled (by exact fun noIdle => nomatch noIdle) (.tickle Nat.one_pos)
  have written : (scheduling Unit Unit Unit).Reaches WakeKept _ :=
    .step tickled (by exact trivial) (.write Nat.one_pos)
  exact ⟨_, rfl, rfl, wakeup_kept written (fun _ => .inr rfl) rfl rfl ⟨.cb (), .any⟩
    (List.mem_singleton_self _) () rfl ⟨rfl, rfl⟩⟩

/-- The callback is scheduled between the scan of the only worker and its
`++m_idleThreadCount`. -/
theorem wakeup_lost :
    ∃ s : Scheduler Unit Unit Unit, (scheduling Unit Unit Unit).Reachable s ∧
      ¬ s.NoLostWakeup := by
  have scanned : (scheduling Unit Unit Unit).Reachable _ :=
    .step (.initial rfl) trivial (.scan () rfl)
  have scheduled : (scheduling Unit Unit Unit).Reachable _ :=
    .step scanned trivial (.schedule (some (.cb ())) .any nofun)
  have tickled : (scheduling Unit Unit Unit).Reachable _ :=
    .step scheduled trivial (.tickle Nat.one_pos)
  have entered : (scheduling Unit Unit Unit).Reachable _ :=
    .step tickled trivial (.enter () rfl)
  have idling : (scheduling Unit Unit Unit).Reachable _ :=
    .step entered trivial (.idle () rfl)
  have blocked : (scheduling Unit Unit Unit).Reachable _ :=
    .step idling trivial (.epollWait () rfl)
  refine ⟨_, blocked, fun noLost => ?_⟩
  exact Nat.lt_irrefl 0 (noLost (fun _ => .inr rfl) rfl rfl ⟨.cb (), .any⟩
    (List.mem_singleton_self _) () rfl ⟨rfl, rfl⟩)

/-- A callback that is pinned to a busy worker stays in the queue, so the next callback is
pushed without a tickle while the other worker is blocked. -/
theorem wakeup_lost_behind_pinned :
    ∃ s : Scheduler Bool Nat Nat, (scheduling Bool Nat Nat).Reachable s ∧
      s.m_fibers = [⟨.cb 1, .worker true⟩, ⟨.cb 2, .any⟩] ∧ ¬ s.NoLostWakeup := by
  have pinned : (scheduling Bool Nat Nat).Reachable _ :=
    .step (.initial rfl) trivial (.schedule (some (.cb 0)) (.worker true) nofun)
  have unheard : (scheduling Bool Nat Nat).Reachable _ :=
    .step pinned trivial (.tickle Nat.one_pos)
  have taken : (scheduling Bool Nat Nat).Reachable _ :=
    .step unheard trivial (.scan true rfl)
  have busy : (scheduling Bool Nat Nat).Reachable _ :=
    .step taken trivial (.swapInNew true 0 rfl rfl rfl)
  have scanned : (scheduling Bool Nat Nat).Reachable _ := .step busy trivial (.scan false rfl)
  have entered : (scheduling Bool Nat Nat).Reachable _ := .step scanned trivial (.enter false rfl)
  have idling : (scheduling Bool Nat Nat).Reachable _ := .step entered trivial (.idle false rfl)
  have blocked : (scheduling Bool Nat Nat).Reachable _ :=
    .step idling trivial (.epollWait false rfl)
  have pinnedToo : (scheduling Bool Nat Nat).Reachable _ :=
    .step blocked trivial (.schedule (some (.cb 1)) (.worker true) nofun)
  have tickled : (scheduling Bool Nat Nat).Reachable _ :=
    .step pinnedToo trivial (.tickle Nat.one_pos)
  have written : (scheduling Bool Nat Nat).Reachable _ :=
    .step tickled trivial (.write Nat.one_pos)
  have woken : (scheduling Bool Nat Nat).Reachable _ :=
    .step written trivial (.wake false true rfl fun _ => Nat.one_pos)
  have drained : (scheduling Bool Nat Nat).Reachable _ := .step woken trivial (.drain false rfl)
  have left : (scheduling Bool Nat Nat).Reachable _ := .step drained trivial (.leave false rfl)
  have resumed : (scheduling Bool Nat Nat).Reachable _ := .step left trivial (.resume false rfl)
  have passedOver : (scheduling Bool Nat Nat).Reachable _ :=
    .step resumed trivial (.scan false rfl)
  have unheardToo : (scheduling Bool Nat Nat).Reachable _ :=
    .step passedOver trivial (.workerTickle false rfl)
  have enteredAgain : (scheduling Bool Nat Nat).Reachable _ :=
    .step unheardToo trivial (.enter false rfl)
  have idlingAgain : (scheduling Bool Nat Nat).Reachable _ :=
    .step enteredAgain trivial (.idle false rfl)
  have blockedAgain : (scheduling Bool Nat Nat).Reachable _ :=
    .step idlingAgain trivial (.epollWait false rfl)
  have scheduled : (scheduling Bool Nat Nat).Reachable _ :=
    .step blockedAgain trivial (.schedule (some (.cb 2)) .any nofun)
  refine ⟨_, scheduled, rfl, fun noLost => ?_⟩
  refine Nat.lt_irrefl 0 (noLost (fun worker => ?_) rfl rfl ⟨.cb 2, .any⟩
    (List.mem_cons_of_mem _ (List.mem_singleton_self _)) false rfl ⟨rfl, rfl⟩)
  cases worker
  · exact .inr rfl
  · exact .inl rfl

end Exhy.Scheduler
