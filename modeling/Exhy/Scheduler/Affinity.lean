import Exhy.Scheduler.Activity

/-!
# Tasks that are submitted for one thread

The thread is a field of the queue entry.  A worker's scan obeys it, but a `schedule()`
without a thread, as `run` makes for a fiber that has yielded to `READY` and `IOManager`
for one whose event has come, makes an entry that any worker takes.
-/

namespace Exhy

open IOManager (Task)

namespace Scheduler.Stage

variable {Fiber Callback : Type}

/-- The worker has the fiber in its hand, or the fiber is on it. -/
def Has (stage : Stage Fiber Callback) (fiber : Fiber) : Prop :=
  stage.hand = some (.fiber fiber) ∨ stage.current = some fiber

theorem eq_of_has_handle {fiber other : Fiber}
    (has : (Stage.next (.handle (some (.fiber fiber))) : Stage Fiber Callback).Has other) :
    other = fiber := by
  rcases has with held | runs
  · cases held
    rfl
  · cases runs

theorem eq_of_has_running {fiber other : Fiber} {phase : Phase} {viaCb : Bool}
    (has : (Stage.running fiber phase viaCb : Stage Fiber Callback).Has other) :
    other = fiber := by
  rcases has with held | runs
  · cases held
  · cases runs
    rfl

theorem eq_of_has_swapped {fiber other : Fiber} {viaCb : Bool}
    (has : (Stage.swapped fiber viaCb : Stage Fiber Callback).Has other) : other = fiber := by
  rcases has with held | runs
  · cases held
  · cases runs
    rfl

theorem not_has_of_handles {stage : Stage Fiber Callback} (nothing : stage.handles = false)
    (fiber : Fiber) : ¬ stage.Has fiber := by
  simp only [handles, Bool.or_eq_false_iff, Option.isSome_eq_false_iff, Option.isNone_iff_eq_none]
    at nothing
  rintro (held | runs)
  · rw [nothing.1] at held
    cases held
  · rw [nothing.2] at runs
    cases runs

theorem not_has_cb {cb : Callback} (fiber : Fiber) :
    ¬ (Stage.next (.handle (some (.cb cb))) : Stage Fiber Callback).Has fiber := by
  rintro (held | runs)
  · cases held
  · cases runs

/-- Nothing that was not there before. -/
structure Below (next stage : Stage Fiber Callback) : Prop where
  hand : next.hand = none ∨ next.hand = stage.hand
  current : next.current = none ∨ next.current = stage.current

theorem Below.refl (stage : Stage Fiber Callback) : Below stage stage :=
  ⟨.inr rfl, .inr rfl⟩

theorem Below.has {next stage : Stage Fiber Callback} (below : Below next stage) {fiber : Fiber}
    (has : next.Has fiber) : stage.Has fiber := by
  rcases has with held | runs
  · rcases below.hand with none | same
    · rw [none] at held
      cases held
    · exact .inl (same ▸ held)
  · rcases below.current with none | same
    · rw [none] at runs
      cases runs
    · exact .inr (same ▸ runs)

end Scheduler.Stage

namespace Lifecycle

open Library Scheduler

variable {Worker Fiber Callback : Type}

/-- Whatever has the fiber belongs to the thread. -/
def Free (s : Lifecycle Worker Fiber Callback) (fiber : Fiber) (thread : Worker) : Prop :=
  (∀ it ∈ s.core.m_fibers, it.task = .fiber fiber → it.thread = .worker thread) ∧
    ∀ worker, (s.core.stage worker).Has fiber → worker = thread

/-- The entries of a pinned fiber name its thread, and no other worker has it; a worker has
only callbacks that it may run.  Fibers that are not constructed yet are nowhere. -/
structure Tied (s : Lifecycle Worker Fiber Callback) : Prop where
  queue : ∀ it ∈ s.core.m_fibers, ∀ fiber, it.task = .fiber fiber →
    s.core.created fiber = true ∧
      ∀ thread, s.pin fiber = .worker thread → it.thread = .worker thread
  workers : ∀ worker fiber, (s.core.stage worker).Has fiber →
    s.core.created fiber = true ∧ ∀ thread, s.pin fiber = .worker thread → worker = thread
  taken : ∀ worker cb, (s.core.stage worker).hand = some (.cb cb) →
    ∀ thread, s.ftThread worker = .worker thread → worker = thread
  cached : ∀ worker fiber, s.core.cb_fiber worker = some fiber → s.core.created fiber = true

namespace Tied

variable {s next : Lifecycle Worker Fiber Callback} {worker : Worker} {fiber : Fiber}

/-- A step after which nothing new is queued, taken or run. -/
theorem shrink (tied : s.Tied)
    (queue : ∀ it ∈ next.core.m_fibers, it ∈ s.core.m_fibers ∨ ∃ cb, it.task = .cb cb)
    (stages : ∀ worker, (next.core.stage worker).Below (s.core.stage worker))
    (created : ∀ fiber, s.core.created fiber = true → next.core.created fiber = true)
    (cached : ∀ worker fiber, next.core.cb_fiber worker = some fiber →
      s.core.cb_fiber worker = some fiber)
    (ftThread : next.ftThread = s.ftThread) (pin : next.pin = s.pin) : next.Tied where
  queue it member fiber isFiber := by
    rcases queue it member with before | ⟨cb, isCb⟩
    · obtain ⟨born, named⟩ := tied.queue it before fiber isFiber
      rw [pin]
      exact ⟨created fiber born, named⟩
    · rw [isCb] at isFiber
      cases isFiber
  workers worker fiber has := by
    obtain ⟨born, here⟩ := tied.workers worker fiber ((stages worker).has has)
    rw [pin]
    exact ⟨created fiber born, here⟩
  taken worker cb held := by
    rw [ftThread]
    rcases (stages worker).hand with none | same
    · rw [none] at held
      cases held
    · exact tied.taken worker cb (same ▸ held)
  cached worker fiber isCached := created fiber (tied.cached worker fiber (cached worker fiber isCached))

/-- A fiber gets another pin: none, or one that whatever has it agrees with. -/
theorem repin [DecidableEq Fiber] (tied : s.Tied) {thread : ThreadId Worker} (core : next.core = s.core)
    (ftThread : next.ftThread = s.ftThread) (pin : next.pin = Function.update s.pin fiber thread)
    (free : ∀ worker, thread = .worker worker → s.Free fiber worker) : next.Tied where
  queue it member other isFiber := by
    rw [core] at member
    obtain ⟨born, named⟩ := tied.queue it member other isFiber
    rw [core, pin]
    refine ⟨born, fun worker pinned => ?_⟩
    by_cases same : other = fiber
    · subst same
      rw [Function.update_self] at pinned
      exact (free worker pinned).1 it member isFiber
    · rw [Function.update_of_ne same] at pinned
      exact named worker pinned
  workers worker other has := by
    rw [core] at has
    obtain ⟨born, here⟩ := tied.workers worker other has
    rw [core, pin]
    refine ⟨born, fun thread pinned => ?_⟩
    by_cases same : other = fiber
    · subst same
      rw [Function.update_self] at pinned
      exact (free thread pinned).2 worker has
    · rw [Function.update_of_ne same] at pinned
      exact here thread pinned
  taken := by
    rw [core, ftThread]
    exact tied.taken
  cached := by
    rw [core]
    exact tied.cached

/-- An entry is pushed that names the thread of its fiber. -/
theorem push (tied : s.Tied) (fc : Option (Task Fiber Callback)) (thread : ThreadId Worker)
    (named : ∀ fiber, fc = some (.fiber fiber) → s.core.created fiber = true ∧
      ∀ worker, s.pin fiber = .worker worker → thread = .worker worker) :
    Tied { s with core := s.core.push (scheduleNolock s.core.m_fibers fc thread) } where
  queue it member fiber isFiber := by
    rcases List.mem_append.mp member with before | isNew
    · exact tied.queue it before fiber isFiber
    · obtain ⟨task, isTask, rfl⟩ := List.mem_map.mp isNew
      rw [show task = .fiber fiber from isFiber] at isTask
      exact named fiber (Option.mem_toList.mp isTask)
  workers := tied.workers
  taken := tied.taken
  cached := tied.cached

variable [DecidableEq Worker]

/-- The fiber in a worker's hand, or one that was not there before, is put on the worker. -/
theorem run (tied : s.Tied) {phase : Phase} {viaCb : Bool}
    (m_fibers : next.core.m_fibers = s.core.m_fibers)
    (stages : next.core.stage = Function.update s.core.stage worker (.running fiber phase viaCb))
    (ftThread : next.ftThread = s.ftThread) (pin : next.pin = s.pin)
    (created : ∀ fiber, s.core.created fiber = true → next.core.created fiber = true)
    (born : next.core.created fiber = true)
    (cached : ∀ worker fiber, next.core.cb_fiber worker = some fiber →
      next.core.created fiber = true)
    (here : ∀ thread, s.pin fiber = .worker thread → worker = thread) : next.Tied where
  queue it member other isFiber := by
    obtain ⟨before, named⟩ := tied.queue it (m_fibers ▸ member) other isFiber
    rw [pin]
    exact ⟨created other before, named⟩
  workers someone other has := by
    rw [stages] at has
    rw [pin]
    by_cases same : someone = worker
    · subst same
      rw [Function.update_self] at has
      rcases has with held | runs
      · cases held
      · cases runs
        exact ⟨born, here⟩
    · rw [Function.update_of_ne same] at has
      obtain ⟨before, there⟩ := tied.workers someone other has
      exact ⟨created other before, there⟩
  taken someone cb held := by
    rw [stages] at held
    rw [ftThread]
    by_cases same : someone = worker
    · subst same
      rw [Function.update_self] at held
      cases held
    · rw [Function.update_of_ne same] at held
      exact tied.taken someone cb held
  cached := cached

/-- A worker takes an entry that names it, or none. -/
theorem scan (tied : s.Tied) (worker : Worker) :
    Tied { s with
      core := s.core.scan worker
      ftThread := Function.update s.ftThread worker
        ((s.core.m_fibers.find? (·.ready worker s.core.m_state)).elim .any (·.thread)) } := by
  obtain ⟨m_fibers, -, hand, current⟩ := s.core.scan_spec worker
  have others : ∀ other, other ≠ worker → (s.core.scan worker).stage other = s.core.stage other :=
    fun other different => stage_setStage_ne _ different _
  -- what the scan has found lets this worker run it
  have found : ∀ task, ((s.core.scan worker).stage worker).hand = some task →
      ∃ it ∈ s.core.m_fibers, it.task = task ∧
        s.core.m_fibers.find? (·.ready worker s.core.m_state) = some it ∧
        ∀ thread, it.thread = .worker thread → worker = thread := by
    intro task held
    rw [hand] at held
    obtain ⟨it, isFound, isTask⟩ := Option.map_eq_some_iff.mp held
    refine ⟨it, List.mem_of_find?_eq_some isFound, isTask, isFound, fun thread named => ?_⟩
    have ready := List.find?_some isFound
    simp only [FiberAndThread.ready, named, Bool.and_eq_true, Bool.or_eq_true, decide_eq_true_eq,
      reduceCtorEq, false_or, ThreadId.worker.injEq] at ready
    exact ready.1.symm
  refine ⟨fun it member => ?_, fun other fiber has => ?_, fun other cb held => ?_, tied.cached⟩
  · rw [show _ = _ from m_fibers] at member
    exact tied.queue it (List.mem_of_mem_eraseP member)
  · by_cases same : other = worker
    · subst same
      rcases has with held | runs
      · obtain ⟨it, member, isTask, -, names⟩ := found _ held
        obtain ⟨born, named⟩ := tied.queue it member fiber isTask
        exact ⟨born, fun thread pinned => names thread (named thread pinned)⟩
      · rw [show _ = _ from current] at runs
        cases runs
    · rw [show _ = _ from others other same] at has
      exact tied.workers other fiber has
  · by_cases same : other = worker
    · subst same
      obtain ⟨it, -, -, isFound, names⟩ := found _ held
      intro thread named
      dsimp only at named
      rw [Function.update_self, isFound] at named
      exact names thread named
    · rw [show _ = _ from others other same] at held
      intro thread named
      dsimp only at named
      rw [Function.update_of_ne same] at named
      exact tied.taken other cb held thread named

variable [DecidableEq Fiber]

/-- A fiber that has swapped out leaves its worker; if it goes back into the queue, it goes
there without a thread. -/
theorem settle (tied : s.Tied) {viaCb : Bool} {settling : Worker → Bool}
    (swapped : s.core.stage worker = .swapped fiber viaCb)
    (unpinned : s.core.m_state fiber = .READY → ∀ thread, s.pin fiber ≠ .worker thread) :
    Tied { s with core := s.core.settle worker fiber viaCb, settling := settling } := by
  have spec := s.core.settle_spec worker fiber viaCb
  have below : ∀ other, ((s.core.settle worker fiber viaCb).stage other).Below
      (s.core.stage other) := by
    intro other
    by_cases same : other = worker
    · subst same
      rcases spec.stage with stage | stage <;> rw [stage] <;> exact ⟨.inl rfl, .inl rfl⟩
    · rw [spec.others other same]
      exact .refl _
  have created : ∀ other, s.core.created other = true →
      (s.core.settle worker fiber viaCb).created other = true := by
    rw [spec.created]
    exact fun _ => id
  by_cases ready : s.core.m_state fiber = .READY
  · have pushed := tied.push (some (.fiber fiber)) .any (by
      rintro other same
      cases same
      exact ⟨(tied.workers worker fiber (.inr (by rw [swapped]; rfl))).1,
        fun thread pinned => absurd pinned (unpinned ready thread)⟩)
    refine pushed.shrink (fun it member => .inl ?_) below created spec.cb_fiber rfl rfl
    rwa [show _ = _ from (spec.requeued ready).2] at member
  · refine tied.shrink (fun it member => .inl ?_) below created spec.cb_fiber rfl rfl
    rwa [show _ = _ from spec.kept ready] at member

end Tied

/-- A fiber is submitted for a thread only while everything that has it belongs to this
thread; once it is pinned, each `schedule()` of it names its thread and it does not yield to
`READY`.  The same holds for the fiber that a pinned callback is begun on. -/
def Affine (s : Lifecycle Worker Fiber Callback) : Label Worker Fiber Callback → Prop
  | .schedule _ (some (.fiber fiber)) thread =>
      (∀ worker, s.pin fiber = .worker worker → thread = .worker worker) ∧
        ∀ worker, thread = .worker worker → s.Free fiber worker
  | .worker worker .swapIn => ∀ cb fiber thread, (s.core.stage worker).hand = some (.cb cb) →
      s.core.cb_fiber worker = some fiber → s.ftThread worker = .worker thread →
      s.Free fiber thread
  | .settle worker => ∀ fiber viaCb, s.core.stage worker = .swapped fiber viaCb →
      s.core.m_state fiber = .READY → ∀ thread, s.pin fiber ≠ .worker thread
  | _ => True

variable [DecidableEq Worker] [DecidableEq Fiber] {s next : Lifecycle Worker Fiber Callback}
  {worker : Worker} {fiber : Fiber}

omit [DecidableEq Worker] in
theorem Tied.schedule (tied : s.Tied) {caller : Option Worker}
    {fc : Option (Task Fiber Callback)} {thread : ThreadId Worker}
    (affine : s.Affine (.schedule caller fc thread))
    (created : ∀ fiber, fc = some (.fiber fiber) → s.core.created fiber = true) :
    Tied { s.submit fc thread with
      core := s.core.push (scheduleNolock s.core.m_fibers fc thread) } := by
  rcases fc with _ | fiber | cb
  · exact tied.push none thread nofun
  · obtain ⟨keeps, free⟩ := affine
    have submitted : Tied (s.submit (some (.fiber fiber)) thread) := by
      cases thread with
      | worker worker => exact tied.repin rfl rfl rfl free
      | any | other =>
          exact tied.shrink (fun _ => .inl) (fun _ => .refl _) (fun _ => id) (fun _ _ => id) rfl rfl
    apply submitted.push
    rintro other same
    cases same
    refine ⟨created fiber rfl, fun worker pinned => ?_⟩
    cases thread with
    | worker thread => exact (s.pin_submit fiber thread).symm.trans pinned
    | any | other => exact keeps worker pinned
  · exact tied.push (some (.cb cb)) thread nofun

/-- The step lemma: every step that keeps to the condition keeps the pins. -/
theorem Tied.step [Fintype Worker] {root : Option Worker} {label : Label Worker Fiber Callback}
    (tied : s.Tied) (affine : s.Affine label) (stepped : Step root s label next) : next.Tied := by
  cases stepped with
  | create fiber unborn =>
      refine tied.shrink (fun _ => .inl) (fun _ => .refl _) (fun other born => ?_) (fun _ _ => id)
        rfl rfl
      by_cases same : other = fiber
      · subst same
        exact Function.update_self ..
      · exact (Function.update_of_ne same ..).trans born
  | schedule caller fc thread calls created => exact tied.schedule affine created
  | scheduleRange caller cbs calls =>
      refine tied.shrink (fun it member => ?_) (fun _ => .refl _) (fun _ => id) (fun _ _ => id)
        rfl rfl
      dsimp only [Scheduler.push] at member
      rw [scheduleRange_append] at member
      rcases List.mem_append.mp member with before | isNew
      · exact .inl before
      · right
        obtain ⟨fc, isCb, isTask⟩ := List.mem_flatMap.mp isNew
        obtain ⟨cb, -, rfl⟩ := List.mem_map.mp isCb
        cases cb with
        | none => cases isTask
        | some cb => exact ⟨cb, by rw [List.mem_singleton.mp isTask]⟩
  | quiet worker move inside isQuiet notEnded moved =>
      have spec := Quiet.of_step isQuiet moved
      refine tied.shrink (fun it member => .inl (spec.m_fibers ▸ member)) (fun other => ?_)
        (fun other born => ?_) (fun other cached isCached => ?_) rfl rfl
      · by_cases same : other = worker
        · subst same
          exact ⟨.inr spec.hand, .inr spec.current⟩
        · rw [show _ = _ from spec.others other same]
          exact .refl _
      · rwa [show _ = _ from spec.created]
      · rwa [show _ = _ from spec.cb_fiber] at isCached
  | scan worker inside scanning => exact tied.scan worker
  | swapIn worker inside held free =>
      obtain ⟨born, here⟩ := tied.workers worker _ (.inl (by rw [held]; rfl))
      exact tied.run rfl rfl rfl rfl (fun _ => id) born tied.cached here
  | swapInCb worker inside held isCached idle =>
      rename_i cb fiber
      have begun : Tied (s.begin worker fiber) :=
        tied.repin rfl rfl rfl fun thread =>
          affine cb fiber thread (by rw [held]; rfl) isCached
      refine begun.run rfl rfl rfl rfl (fun _ => id) (tied.cached worker fiber isCached) tied.cached
        fun thread pinned => tied.taken worker cb (by rw [held]; rfl) thread ?_
      exact (s.pin_begin worker fiber).symm.trans pinned
  | swapInNew worker fiber inside held none unborn =>
      rename_i cb
      have begun : Tied (s.begin worker fiber) := by
        refine tied.repin rfl rfl rfl fun thread _ => ⟨fun it member isFiber => ?_, fun other has => ?_⟩
        · exact absurd (tied.queue it member fiber isFiber).1 (by simp [unborn])
        · exact absurd (tied.workers other fiber has).1 (by simp [unborn])
      have created : ∀ other, s.core.created other = true →
          (s.core.construct fiber 0).created other = true := by
        intro other born
        refine (Function.update_of_ne ?_ ..).trans born
        rintro rfl
        rw [unborn] at born
        cases born
      have born : (s.core.construct fiber 0).created fiber = true := Function.update_self ..
      refine begun.run rfl rfl rfl rfl created born (fun other cached isCached => ?_)
        fun thread pinned => tied.taken worker cb (by rw [held]; rfl) thread ?_
      · by_cases same : other = worker
        · subst same
          cases (Function.update_self ..).symm.trans isCached
          exact born
        · exact created cached
            (tied.cached other cached ((Function.update_of_ne same ..).symm.trans isCached))
      · exact (s.pin_begin worker fiber).symm.trans pinned
  | settle worker inside swapped settles =>
      exact tied.settle swapped (affine _ _ swapped)
  | drop worker inside held | endIdle worker inside held =>
      refine tied.shrink (fun _ => .inl) (fun other => ?_) (fun _ => id) (fun _ _ => id) rfl rfl
      by_cases same : other = worker
      · subst same
        rw [show _ = _ from stage_setStage_self ..]
        exact ⟨.inl rfl, .inl rfl⟩
      · rw [show _ = _ from stage_setStage_ne _ same _]
        exact .refl _
  | finish worker state inside running =>
      refine tied.shrink (fun _ => .inl) (fun other => ?_) (fun _ => id) (fun _ _ => id) rfl rfl
      by_cases same : other = worker
      · subst same
        rw [show _ = _ from stage_setStage_self .., running]
        exact ⟨.inl rfl, .inr rfl⟩
      · rw [show _ = _ from stage_setStage_ne _ same _]
        exact .refl _
  | tickle | write | update | exit | stopCall | stopEarly | stopAtOnce | stopFlag | stopTickle
  | stopWrite | stopNoRoot | stopTest | stopCallRoot | stopBack =>
      exact tied.shrink (fun _ => .inl) (fun _ => .refl _) (fun _ => id) (fun _ _ => id) rfl rfl

/-- In the runs that keep to the condition a pinned fiber, and the fiber that a pinned
callback is run on, is on no worker but its own, its entries name this worker, and a
callback is in the hand of a worker that it may run on. -/
theorem pins_kept [Fintype Worker] {root : Option Worker}
    (reached : (lifecycle Worker Fiber Callback root).Reaches Affine s) :
    (∀ worker fiber thread, s.pin fiber = .worker thread → (s.core.stage worker).Has fiber →
      worker = thread) ∧
    (∀ it ∈ s.core.m_fibers, ∀ fiber thread, s.pin fiber = .worker thread →
      it.task = .fiber fiber → it.thread = .worker thread) ∧
    ∀ worker cb thread, s.ftThread worker = .worker thread →
      (s.core.stage worker).hand = some (.cb cb) → worker = thread := by
  have tied : s.Tied := by
    apply reached.invariant Tied
    · rintro s rfl
      exact ⟨nofun, fun worker fiber has => (Stage.not_has_of_handles rfl fiber has).elim, nofun, nofun⟩
    · intro s label next _ tied affine stepped
      exact tied.step affine stepped
  refine ⟨fun worker fiber thread pinned has => ?_, fun it member fiber thread pinned isFiber => ?_,
    fun worker cb thread named held => ?_⟩
  · exact (tied.workers worker fiber has).2 thread pinned
  · exact (tied.queue it member fiber isFiber).2 thread pinned
  · exact tied.taken worker cb held thread named

/-- A fiber that was scheduled for a worker runs on it. -/
theorem pins_kept_running :
    ∃ s : Lifecycle Bool Unit Unit, s.pin () = .worker true ∧
      (s.core.stage true).current = some () ∧
      ∀ worker, (s.core.stage worker).Has () → worker = true := by
  have created : (lifecycle Bool Unit Unit none).Reaches Affine _ :=
    .step (.initial rfl) (by exact trivial) (.create () rfl)
  have scheduled : (lifecycle Bool Unit Unit none).Reaches Affine _ :=
    .step created (by exact ⟨nofun, fun _ _ => ⟨nofun, fun _ has => has.elim nofun nofun⟩⟩)
      (.schedule none (some (.fiber ())) (.worker true) trivial fun _ _ => rfl)
  have taken : (lifecycle Bool Unit Unit none).Reaches Affine _ :=
    .step scheduled (by exact trivial) (.scan true rfl rfl)
  have running : (lifecycle Bool Unit Unit none).Reaches Affine _ :=
    .step taken (by exact fun _ _ _ held => nomatch held) (.swapIn true rfl rfl rfl (by decide))
  exact ⟨_, rfl, rfl, fun worker => (pins_kept running).1 worker () true rfl⟩

/-- A fiber that was scheduled for one worker yields to `READY` and is run by the other. -/
theorem pin_lost :
    ∃ s : Lifecycle Bool Unit Unit, (lifecycle Bool Unit Unit none).Reachable s ∧
      s.pin () = .worker true ∧ (s.core.stage false).current = some () := by
  have created : (lifecycle Bool Unit Unit none).Reachable _ :=
    .step (.initial rfl) trivial (.create () rfl)
  have scheduled : (lifecycle Bool Unit Unit none).Reachable _ :=
    .step created trivial (.schedule none (some (.fiber ())) (.worker true) trivial fun _ _ => rfl)
  have taken : (lifecycle Bool Unit Unit none).Reachable _ :=
    .step scheduled trivial (.scan true rfl rfl)
  have running : (lifecycle Bool Unit Unit none).Reachable _ :=
    .step taken trivial (.swapIn true rfl rfl rfl (by decide))
  have readying : (lifecycle Bool Unit Unit none).Reachable _ :=
    .step running trivial (.quiet true .yieldToReady rfl rfl nofun (.yieldToReady true rfl))
  have swapped : (lifecycle Bool Unit Unit none).Reachable _ :=
    .step readying trivial (.quiet true .swapOut rfl rfl nofun (.swapOut true rfl (by decide)))
  have updated : (lifecycle Bool Unit Unit none).Reachable _ :=
    .step swapped trivial (.update true rfl rfl rfl)
  have settled : (lifecycle Bool Unit Unit none).Reachable _ :=
    .step updated trivial (.settle true rfl rfl rfl)
  have takenAgain : (lifecycle Bool Unit Unit none).Reachable _ :=
    .step settled trivial (.scan false rfl rfl)
  have runningAgain : (lifecycle Bool Unit Unit none).Reachable _ :=
    .step takenAgain trivial (.swapIn false rfl rfl rfl (by decide))
  exact ⟨_, runningAgain, rfl, rfl⟩

end Lifecycle

end Exhy
