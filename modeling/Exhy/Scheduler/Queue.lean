import Exhy.Scheduler.Core
import Mathlib.Data.List.Perm.Basic

/-!
# The queue of tasks

Every interleaving of the calls of `schedule()` with the scans of the workers, while the
states of the fibers change in any way.  Entries carry the number of their push, so that
each of them can be followed from the queue into the hands of one worker.
-/

namespace Exhy

open IOManager (Task)

open Library

namespace Scheduler

variable {Worker Fiber Callback : Type} [DecidableEq Worker]

/-- An entry that the worker takes: unpinned or pinned to it, and not in state `EXEC`. -/
def FiberAndThread.ready (it : FiberAndThread Worker Fiber Callback) (worker : Worker)
    (m_state : Fiber → FiberState) : Bool :=
  (it.thread = .any || it.thread = .worker worker) && !it.executing m_state

/-- The scan takes the first entry that is ready out of the queue. -/
theorem scanQueue_eq (worker : Worker) (m_state : Fiber → FiberState)
    (m_fibers : List (FiberAndThread Worker Fiber Callback)) :
    (scanQueue worker m_state m_fibers).1 =
        (m_fibers.find? (·.ready worker m_state)).map FiberAndThread.task ∧
      (scanQueue worker m_state m_fibers).2.1 = m_fibers.eraseP (·.ready worker m_state) := by
  induction m_fibers with
  | nil => exact ⟨rfl, rfl⟩
  | cons it rest ih =>
      obtain ⟨found, kept⟩ := ih
      rw [scanQueue]
      split
      next away =>
        have notReady : it.ready worker m_state = false := by
          simp only [FiberAndThread.pinnedAway, Bool.and_eq_true, decide_eq_true_eq] at away
          simp [FiberAndThread.ready, away.1, away.2]
        rw [List.find?_cons_of_neg (by simp [notReady]), List.eraseP_cons_of_neg (by simp [notReady])]
        exact ⟨found, congrArg _ kept⟩
      next here =>
        split
        next executing =>
          have notReady : it.ready worker m_state = false := by
            simp [FiberAndThread.ready, executing]
          rw [List.find?_cons_of_neg (by simp [notReady]),
            List.eraseP_cons_of_neg (by simp [notReady])]
          exact ⟨found, congrArg _ kept⟩
        next idle =>
          have isReady : it.ready worker m_state = true := by
            simp only [FiberAndThread.pinnedAway, Bool.and_eq_true, decide_eq_true_eq,
              not_and_or, ne_eq, not_not] at here
            simp [FiberAndThread.ready, here, idle]
          rw [List.find?_cons_of_pos (by simpa using isReady),
            List.eraseP_cons_of_pos (by simpa using isReady)]
          exact ⟨rfl, rfl⟩

omit [DecidableEq Worker] in
/-- A batch leaves the queue as single calls would. -/
theorem scheduleRange_eq (m_fibers : List (FiberAndThread Worker Fiber Callback))
    (fcs : List (Option (Task Fiber Callback))) :
    (scheduleRange m_fibers fcs).2 =
      fcs.foldl (fun queue fc => (scheduleNolock queue fc .any).2) m_fibers := by
  induction fcs generalizing m_fibers with
  | nil => rfl
  | cons fc rest ih =>
      rw [scheduleRange, List.foldl_cons]
      exact ih _

omit [DecidableEq Worker] in
theorem scheduleRange_append (m_fibers : List (FiberAndThread Worker Fiber Callback))
    (fcs : List (Option (Task Fiber Callback))) :
    (scheduleRange m_fibers fcs).2 =
      m_fibers ++ fcs.flatMap fun fc => fc.toList.map fun task => ⟨task, .any⟩ := by
  induction fcs generalizing m_fibers with
  | nil => simp [scheduleRange]
  | cons fc rest ih =>
      rw [scheduleRange]
      exact (ih _).trans (by simp [scheduleNolock])

end Scheduler

/-- The queue, the states of the fibers, and the history: the entries that have been pushed,
those that are in the queue with the numbers of their pushes, and those that have been
dequeued with their numbers, the workers and the tasks that these got. -/
structure TaskQueue (Worker Fiber Callback : Type) where
  m_fibers : List (Scheduler.FiberAndThread Worker Fiber Callback)
  m_state : Fiber → Scheduler.FiberState
  pushed : List (Scheduler.FiberAndThread Worker Fiber Callback)
  waiting : List (Scheduler.FiberAndThread Worker Fiber Callback × Nat)
  taken : List ((Scheduler.FiberAndThread Worker Fiber Callback × Nat) × Worker ×
    Option (Task Fiber Callback))

namespace TaskQueue

open Scheduler

variable {Worker Fiber Callback : Type}

/-- The queue after a region of `schedule()` that adds these entries. -/
def push (s : TaskQueue Worker Fiber Callback)
    (m_fibers entries : List (FiberAndThread Worker Fiber Callback)) :
    TaskQueue Worker Fiber Callback :=
  { s with
    m_fibers := m_fibers
    pushed := s.pushed ++ entries
    waiting := s.waiting ++ entries.zipIdx s.pushed.length }

inductive Label (Worker Fiber Callback : Type) where
  | schedule (fc : Option (Task Fiber Callback)) (thread : ThreadId Worker)
  | scheduleRange (fcs : List (Option (Task Fiber Callback)))
  | setState (fiber : Fiber) (state : FiberState)
  | scan (worker : Worker)

variable [DecidableEq Worker]

/-- The scan of a worker. -/
def scan (s : TaskQueue Worker Fiber Callback) (worker : Worker) :
    TaskQueue Worker Fiber Callback :=
  let ready := fun entry : FiberAndThread Worker Fiber Callback × Nat =>
    entry.1.ready worker s.m_state
  let (ft, kept, _) := scanQueue worker s.m_state s.m_fibers
  { s with
    m_fibers := kept
    waiting := s.waiting.eraseP ready
    taken := s.taken ++ (s.waiting.find? ready).toList.map fun entry => (entry, worker, ft) }

variable [DecidableEq Fiber]

inductive Step : TaskQueue Worker Fiber Callback → Label Worker Fiber Callback →
    TaskQueue Worker Fiber Callback → Prop where
  | schedule {s : TaskQueue Worker Fiber Callback} (fc : Option (Task Fiber Callback))
      (thread : ThreadId Worker) :
      Step s (.schedule fc thread) (s.push (scheduleNolock s.m_fibers fc thread).2
        (fc.toList.map fun task => ⟨task, thread⟩))
  | scheduleRange {s : TaskQueue Worker Fiber Callback} (fcs : List (Option (Task Fiber Callback))) :
      Step s (.scheduleRange fcs) (s.push (Scheduler.scheduleRange s.m_fibers fcs).2
        (fcs.flatMap fun fc => fc.toList.map fun task => ⟨task, .any⟩))
  | setState {s : TaskQueue Worker Fiber Callback} (fiber : Fiber) (state : FiberState) :
      Step s (.setState fiber state) { s with m_state := Function.update s.m_state fiber state }
  | scan {s : TaskQueue Worker Fiber Callback} (worker : Worker) :
      Step s (.scan worker) (s.scan worker)

end TaskQueue

/-- Every interleaving of the threads that call `schedule()` with the workers' scans. -/
def taskQueue (Worker Fiber Callback : Type) [DecidableEq Worker] [DecidableEq Fiber] :
    System (TaskQueue Worker Fiber Callback) (TaskQueue.Label Worker Fiber Callback) where
  initial s := s.m_fibers = [] ∧ s.pushed = [] ∧ s.waiting = [] ∧ s.taken = []
  step := TaskQueue.Step

namespace TaskQueue

open Scheduler

variable {Worker Fiber Callback : Type}

/-- The queue is what is left of the pushes, in their order; what is left and what has been
taken are together all of them, each once; and a worker got the task of its entry. -/
structure Conserved (s : TaskQueue Worker Fiber Callback) : Prop where
  queue : s.m_fibers = s.waiting.map Prod.fst
  order : s.waiting.Sublist s.pushed.zipIdx
  whole : (s.waiting ++ s.taken.map Prod.fst).Perm s.pushed.zipIdx
  handed : ∀ entry ∈ s.taken, entry.2.2 = some entry.1.1.task

variable {s next : TaskQueue Worker Fiber Callback}

theorem Conserved.push (conserved : s.Conserved)
    {m_fibers entries : List (FiberAndThread Worker Fiber Callback)}
    (appended : m_fibers = s.m_fibers ++ entries) : (s.push m_fibers entries).Conserved := by
  have numbers : (s.pushed ++ entries).zipIdx =
      s.pushed.zipIdx ++ entries.zipIdx s.pushed.length := by
    rw [List.zipIdx_append, Nat.zero_add]
  refine ⟨?_, ?_, ?_, conserved.handed⟩
  · rw [appended, conserved.queue]
    simp [TaskQueue.push]
  · rw [TaskQueue.push, numbers]
    exact conserved.order.append (List.Sublist.refl _)
  · rw [TaskQueue.push, numbers]
    have moved : (s.waiting ++ entries.zipIdx s.pushed.length ++ s.taken.map Prod.fst).Perm
        (s.waiting ++ s.taken.map Prod.fst ++ entries.zipIdx s.pushed.length) := by
      rw [List.append_assoc, List.append_assoc]
      exact List.Perm.append_left _ List.perm_append_comm
    exact moved.trans (conserved.whole.append_right _)

variable [DecidableEq Worker]

theorem Conserved.scan (conserved : s.Conserved) (worker : Worker) : (s.scan worker).Conserved := by
  obtain ⟨found, kept⟩ := scanQueue_eq worker s.m_state s.m_fibers
  rw [TaskQueue.scan]
  generalize scanQueue worker s.m_state s.m_fibers = result at found kept ⊢
  obtain ⟨ft, rest, tickle_me⟩ := result
  dsimp only at found kept ⊢
  rw [conserved.queue] at found kept
  rw [List.find?_map] at found
  rw [List.eraseP_map] at kept
  cases ready : s.waiting.find? fun entry => entry.1.ready worker s.m_state with
  | none =>
      have nothing : s.waiting.eraseP (fun entry => entry.1.ready worker s.m_state) = s.waiting :=
        List.eraseP_of_forall_not (by simpa using ready)
      refine ⟨?_, ?_, ?_, fun entry member => ?_⟩
      · exact kept
      · simpa [nothing] using conserved.order
      · simpa [nothing] using conserved.whole
      · exact conserved.handed entry (by simpa using member)
  | some entry =>
      obtain ⟨isReady, before, after, parts, passed⟩ := List.find?_eq_some_iff_append.mp ready
      have erased : s.waiting.eraseP (fun entry => entry.1.ready worker s.m_state) =
          before ++ after := by
        rw [parts, List.eraseP_append_right _ (by simpa using passed)]
        simp [isReady]
      have task : ft = some entry.1.task := by
        rw [found]
        exact congrArg (fun other => (other.map Prod.fst).map FiberAndThread.task) ready
      refine ⟨?_, ?_, ?_, fun other member => ?_⟩
      · exact kept
      · exact List.eraseP_sublist.trans conserved.order
      · -- the entry moves from what is left to what has been taken
        have moved : (before ++ after ++ (s.taken.map Prod.fst ++ [entry])).Perm
            (s.waiting ++ s.taken.map Prod.fst) := by
          rw [parts, ← List.append_assoc]
          exact (List.perm_append_singleton ..).trans (List.perm_middle.symm.append_right _)
        simpa [erased] using moved.trans conserved.whole
      · rcases List.mem_append.mp member with earlier | here
        · exact conserved.handed other earlier
        · rw [Option.toList_some, List.map_singleton, List.mem_singleton] at here
          rw [here, task]

theorem Conserved.step [DecidableEq Fiber] {label : Label Worker Fiber Callback}
    (conserved : s.Conserved) (stepped : Step s label next) : next.Conserved := by
  cases stepped with
  | schedule fc thread => exact conserved.push rfl
  | scheduleRange fcs => exact conserved.push (scheduleRange_append ..)
  | setState fiber state => exact ⟨conserved.queue, conserved.order, conserved.whole, conserved.handed⟩
  | scan worker => exact conserved.scan worker

/-- No task is lost or run twice: the queue holds, in the order of their pushes, the entries
that no worker has taken; a worker takes the first entry that is ready for it; and a batch
is a sequence of single calls. -/
theorem conserved [DecidableEq Fiber] (reached : (taskQueue Worker Fiber Callback).Reachable s) :
    s.m_fibers = s.waiting.map Prod.fst ∧ s.waiting.Sublist s.pushed.zipIdx ∧
      (s.waiting ++ s.taken.map Prod.fst).Perm s.pushed.zipIdx ∧
      (∀ entry ∈ s.taken, entry.2.2 = some entry.1.1.task) ∧
      (∀ worker, (scanQueue worker s.m_state s.m_fibers).1 =
          (s.m_fibers.find? (·.ready worker s.m_state)).map FiberAndThread.task ∧
        (scanQueue worker s.m_state s.m_fibers).2.1 =
          s.m_fibers.eraseP (·.ready worker s.m_state)) ∧
      ∀ fcs, (scheduleRange s.m_fibers fcs).2 =
        fcs.foldl (fun queue fc => (scheduleNolock queue fc .any).2) s.m_fibers := by
  have kept : s.Conserved := by
    refine reached.invariant Conserved (fun state isInitial => ?_)
      fun _ _ _ _ conserved _ stepped => conserved.step stepped
    obtain ⟨queue, pushed, waiting, taken⟩ := isInitial
    refine ⟨?_, ?_, ?_, fun entry member => ?_⟩
    · rw [queue, waiting, List.map_nil]
    · rw [waiting]
      exact List.nil_sublist _
    · rw [waiting, taken, pushed]
      exact List.Perm.refl _
    · rw [taken] at member
      cases member
  exact ⟨kept.queue, kept.order, kept.whole, kept.handed,
    fun worker => scanQueue_eq worker s.m_state s.m_fibers, scheduleRange_eq s.m_fibers⟩

/-- A worker passes over the entry of the other and takes the next one. -/
theorem conserved_taken :
    ∃ s : TaskQueue Bool Nat Nat, s.m_fibers = [⟨.cb 1, .worker false⟩] ∧
      s.taken = [((⟨.cb 2, .any⟩, 1), true, some (.cb 2))] ∧
      (s.waiting ++ s.taken.map Prod.fst).Perm s.pushed.zipIdx := by
  have start : (taskQueue Bool Nat Nat).Reachable ⟨[], fun _ => .INIT, [], [], []⟩ :=
    .initial ⟨rfl, rfl, rfl, rfl⟩
  have pinned : (taskQueue Bool Nat Nat).Reachable _ :=
    .step start trivial (.schedule (some (.cb 1)) (.worker false))
  have batch : (taskQueue Bool Nat Nat).Reachable _ :=
    .step pinned trivial (.scheduleRange [some (.cb 2), none])
  have scanned : (taskQueue Bool Nat Nat).Reachable _ := .step batch trivial (.scan true)
  exact ⟨_, rfl, rfl, (conserved scanned).2.2.1⟩

end TaskQueue

end Exhy
