import Exhy.Scheduler.Affinity

/-!
# What is left when `stop()` returns

A fiber that has not ended is in the queue, with a worker, or suspended.  Where the root
fiber is the only worker, it leaves `run` only after `stopping()` has found nothing left,
and `stop()` waits for it.  A thread of the scheduler is waited for by nobody: `stop()`
tickles it and returns.
-/

namespace Exhy

open IOManager (Task)

namespace Scheduler.Stage

variable {Fiber Callback : Type}

/-- The worker is on its way out of `run`, once its idle fiber has ended. -/
def past : Stage Fiber Callback → Bool
  | .left | .next .scan | .next (.handle none) => true
  | _ => false

theorem handles_of_past {stage : Stage Fiber Callback} (isOver : stage.past = true) :
    stage.handles = false := by
  unfold past at isOver
  split at isOver
  · rfl
  · rfl
  · rfl
  · cases isOver

theorem past_of_quiet {Worker : Type} [DecidableEq Worker] [DecidableEq Fiber]
    {s next : Scheduler Worker Fiber Callback} {worker : Worker} {move : Move Fiber}
    (isQuiet : move.quiet = true) (notEntered : move ≠ .enter)
    (isOver : (s.stage worker).past = true)
    (stepped : Scheduler.Step s (.worker worker move) next) :
    (next.stage worker).past = true := by
  cases stepped with
  | resume worker left =>
      rw [stage_setStage_self]
      rfl
  | enter => exact absurd rfl notEntered
  | scan | swapIn | drop | swapInCb | swapInNew | finish | update => cases isQuiet
  | workerTickle worker atStage | workerWrite worker atStage | yieldToReady worker atStage
  | idle worker atStage | epollWait worker atStage | wake worker tickled atStage
  | drain worker atStage | leave worker atStage | wait worker atStage
  | swapOut worker atStage =>
      rw [atStage] at isOver
      cases isOver

end Scheduler.Stage

namespace Lifecycle

open Library Scheduler

variable {Worker Fiber Callback : Type}

/-- The fiber can still be run: it is in the queue, with a worker, or suspended. -/
structure Accounted (s : Lifecycle Worker Fiber Callback) (fiber : Fiber) : Prop where
  created : s.core.created fiber = true
  live : s.finished fiber = false
  place : (∃ it ∈ s.core.m_fibers, it.task = .fiber fiber) ∨
    (∃ worker, (s.core.stage worker).Has fiber) ∨ s.core.m_state fiber = .HOLD

/-- No task is lost, on any number of workers. -/
structure Located (s : Lifecycle Worker Fiber Callback) : Prop where
  accounted : ∀ fiber, s.unfinished fiber = true → s.Accounted fiber
  cached : ∀ worker fiber, s.core.cb_fiber worker = some fiber → s.core.created fiber = true

section

variable {s next : Lifecycle Worker Fiber Callback} {fiber : Fiber}

theorem finished_congr (m_state : next.core.m_state fiber = s.core.m_state fiber) :
    next.finished fiber = s.finished fiber := by
  rw [finished, finished, m_state]

/-- A step of a worker that does not have the fiber. -/
theorem Accounted.frame (accounted : s.Accounted fiber) (worker : Worker)
    (queue : ∀ it ∈ s.core.m_fibers, it ∈ next.core.m_fibers)
    (created : s.core.created fiber = true → next.core.created fiber = true)
    (m_state : next.core.m_state fiber = s.core.m_state fiber)
    (others : ∀ other, other ≠ worker → next.core.stage other = s.core.stage other)
    (lacks : ¬ (s.core.stage worker).Has fiber) : next.Accounted fiber where
  created := created accounted.created
  live := (finished_congr m_state).trans accounted.live
  place := by
    rcases accounted.place with ⟨it, member, isFiber⟩ | ⟨other, has⟩ | held
    · exact .inl ⟨it, queue it member, isFiber⟩
    · refine .inr (.inl ⟨other, ?_⟩)
      rwa [others other fun same => lacks (same ▸ has)]
    · exact .inr (.inr (m_state.trans held))

/-- A step that touches neither the workers nor the states of the fibers. -/
theorem Located.grow (located : s.Located)
    (queue : ∀ it ∈ s.core.m_fibers, it ∈ next.core.m_fibers)
    (stage : next.core.stage = s.core.stage) (m_state : next.core.m_state = s.core.m_state)
    (created : next.core.created = s.core.created)
    (cb_fiber : next.core.cb_fiber = s.core.cb_fiber)
    (unfinished : next.unfinished = s.unfinished) : next.Located where
  accounted fiber notEnded := by
    obtain ⟨born, live, place⟩ := located.accounted fiber (unfinished ▸ notEnded)
    refine ⟨by rwa [created], (finished_congr (congrFun m_state _)).trans live, ?_⟩
    rw [stage, m_state]
    rcases place with ⟨it, member, isFiber⟩ | elsewhere
    · exact .inl ⟨it, queue it member, isFiber⟩
    · exact .inr elsewhere
  cached := by
    rw [created, cb_fiber]
    exact located.cached

end

section

variable [DecidableEq Worker] [DecidableEq Fiber] {s next : Lifecycle Worker Fiber Callback}
  {worker : Worker} {fiber : Fiber}

namespace Located

omit [DecidableEq Worker] in
theorem create (located : s.Located) (unborn : s.core.created fiber = false) :
    Located { s with core := s.core.construct fiber 0 } := by
  have others : ∀ other, s.core.created other = true → other ≠ fiber := by
    rintro other born rfl
    rw [unborn] at born
    cases born
  have kept : ∀ other, s.core.created other = true →
      (s.core.construct fiber 0).created other = true :=
    fun other born => (Function.update_of_ne (others other born) ..).trans born
  constructor
  · intro other notEnded
    obtain ⟨born, live, place⟩ := located.accounted other notEnded
    have same : (s.core.construct fiber 0).m_state other = s.core.m_state other :=
      Function.update_of_ne (others other born) ..
    refine ⟨kept other born, (finished_congr same).trans live, ?_⟩
    rwa [show _ = _ from same]
  · intro worker other isCached
    exact kept other (located.cached worker other isCached)

omit [DecidableEq Worker] in
theorem schedule (located : s.Located) {fc : Option (Task Fiber Callback)}
    {thread : ThreadId Worker}
    (created : ∀ fiber, fc = some (.fiber fiber) → s.core.created fiber = true) :
    Located { s.submit fc thread with
      core := s.core.push (scheduleNolock s.core.m_fibers fc thread) } := by
  have queue : ∀ it ∈ s.core.m_fibers, it ∈ (scheduleNolock s.core.m_fibers fc thread).2 :=
    fun it member => List.mem_append_left _ member
  rcases fc with _ | fiber | cb
  · exact located.grow queue rfl rfl rfl rfl rfl
  · have pushed : Located { s with
        core := s.core.push (scheduleNolock s.core.m_fibers (some (.fiber fiber)) thread) } :=
      located.grow queue rfl rfl rfl rfl rfl
    constructor
    · intro other notEnded
      by_cases same : other = fiber
      · subst same
        refine ⟨created other rfl, ?_, .inl ⟨⟨.fiber other, thread⟩, ?_, rfl⟩⟩
        · rcases Bool.or_eq_true_iff.mp ((Function.update_self ..).symm.trans notEnded) with
            before | live
          · exact (located.accounted other before).live
          · exact Bool.not_eq_true' _ |>.mp live
        · exact List.mem_append_right _ (List.mem_singleton_self _)
      · obtain ⟨born, live, place⟩ :=
          pushed.accounted other ((Function.update_of_ne same ..).symm.trans notEnded)
        exact ⟨born, live, place⟩
    · exact located.cached
  · exact located.grow queue rfl rfl rfl rfl rfl

omit [DecidableEq Fiber] in
theorem quiet (located : s.Located) {core : Scheduler Worker Fiber Callback}
    (quiet : Quiet s.core core worker) : Located { s with core := core } := by
  constructor
  · intro fiber notEnded
    obtain ⟨born, live, place⟩ := located.accounted fiber notEnded
    have has : ∀ other, (s.core.stage other).Has fiber → (core.stage other).Has fiber := by
      intro other
      by_cases same : other = worker
      · subst same
        rw [Stage.Has, Stage.Has, quiet.hand, quiet.current]
        exact id
      · rw [quiet.others other same]
        exact id
    rcases quiet.states fiber with same | ⟨runs, readied⟩
    · refine ⟨quiet.created ▸ born, (finished_congr same).trans live, ?_⟩
      rcases place with queued | ⟨other, hasIt⟩ | held
      · exact .inl (quiet.m_fibers ▸ queued)
      · exact .inr (.inl ⟨other, has other hasIt⟩)
      · exact .inr (.inr (same.trans held))
    · refine ⟨quiet.created ▸ born, ?_, .inr (.inl ⟨worker, has worker (.inr runs)⟩)⟩
      simp [finished, readied]
  · rw [show core.created = _ from quiet.created, show core.cb_fiber = _ from quiet.cb_fiber]
    exact located.cached

/-- What is in a list is what a search finds first or what is left without it. -/
theorem found_or_left {α : Type} (p : α → Bool) {item : α} {items : List α}
    (member : item ∈ items) : items.find? p = some item ∨ item ∈ items.eraseP p := by
  induction items with
  | nil => cases member
  | cons head rest ih =>
      cases holds : p head with
      | true =>
          rw [List.find?_cons_of_pos holds, List.eraseP_cons_of_pos holds]
          rcases List.mem_cons.mp member with rfl | later
          · exact .inl rfl
          · exact .inr later
      | false =>
          rw [List.find?_cons_of_neg (by simp [holds]), List.eraseP_cons_of_neg (by simp [holds])]
          rcases List.mem_cons.mp member with rfl | later
          · exact .inr List.mem_cons_self
          · exact (ih later).imp_right (List.mem_cons_of_mem _)

omit [DecidableEq Fiber] in
/-- The entry that the scan takes goes into the hand of the worker. -/
theorem scan (located : s.Located) (scanning : s.core.stage worker = .next .scan)
    (ftThread : Worker → ThreadId Worker) :
    Located { s with core := s.core.scan worker, ftThread := ftThread } := by
  obtain ⟨m_fibers, -, hand, -⟩ := s.core.scan_spec worker
  constructor
  · intro fiber notEnded
    obtain ⟨born, live, place⟩ := located.accounted fiber notEnded
    refine ⟨born, live, ?_⟩
    rcases place with ⟨it, member, isFiber⟩ | ⟨other, has⟩ | held
    · rcases found_or_left (·.ready worker s.core.m_state) member with taken | kept
      · refine .inr (.inl ⟨worker, .inl ?_⟩)
        rw [show _ = _ from hand, taken, Option.map_some, isFiber]
      · exact .inl ⟨it, by rwa [show _ = _ from m_fibers], isFiber⟩
    · have different : other ≠ worker := by
        rintro rfl
        rw [scanning] at has
        exact Stage.not_has_of_handles rfl fiber has
      refine .inr (.inl ⟨other, ?_⟩)
      rwa [show (s.core.scan worker).stage other = _ from stage_setStage_ne _ different _]
    · exact .inr (.inr held)
  · exact located.cached

/-- A worker starts to run a fiber: the one in its hand, or one for the callback in it. -/
theorem run (located : s.Located) {phase : Phase} {viaCb : Bool}
    (queue : next.core.m_fibers = s.core.m_fibers)
    (stage : next.core.stage = Function.update s.core.stage worker (.running fiber phase viaCb))
    (m_state : next.core.m_state fiber = .EXEC)
    (states : ∀ other, other ≠ fiber → next.core.m_state other = s.core.m_state other)
    (created : ∀ other, s.core.created other = true → next.core.created other = true)
    (born : next.unfinished fiber = true → next.core.created fiber = true)
    (unfinished : ∀ other, other ≠ fiber → next.unfinished other = s.unfinished other)
    (hand : ∀ other, (s.core.stage worker).Has other → other = fiber)
    (cached : ∀ other cb_fiber, next.core.cb_fiber other = some cb_fiber →
      next.core.created cb_fiber = true) : next.Located where
  accounted other notEnded := by
    by_cases same : other = fiber
    · subst same
      refine ⟨born notEnded, by simp [finished, m_state], .inr (.inl ⟨worker, .inr ?_⟩)⟩
      rw [stage, Function.update_self]
      rfl
    · rw [unfinished other same] at notEnded
      refine (located.accounted other notEnded).frame worker (fun it member => queue ▸ member)
        (created other) (states other same) (fun _ different => ?_) fun has => same (hand other has)
      rw [stage, Function.update_of_ne different]
  cached := cached

omit [DecidableEq Worker] in
/-- A worker goes on without the fiber, which has ended or is still accounted for. -/
theorem release (located : s.Located) (fiber : Fiber)
    (queue : ∀ it ∈ s.core.m_fibers, it ∈ next.core.m_fibers)
    (others : ∀ other, other ≠ worker → next.core.stage other = s.core.stage other)
    (states : ∀ other, other ≠ fiber → next.core.m_state other = s.core.m_state other)
    (created : next.core.created = s.core.created)
    (unfinished : ∀ other, next.unfinished other = true → s.unfinished other = true)
    (has : ∀ other, (s.core.stage worker).Has other → other = fiber)
    (accounted : next.unfinished fiber = true → s.Accounted fiber → next.Accounted fiber)
    (cached : ∀ other cb_fiber, next.core.cb_fiber other = some cb_fiber →
      s.core.cb_fiber other = some cb_fiber) : next.Located where
  accounted other notEnded := by
    have before := located.accounted other (unfinished other notEnded)
    by_cases same : other = fiber
    · subst same
      exact accounted notEnded before
    · exact before.frame worker queue (by rw [created]; exact id) (states other same) others
        fun hasIt => same (has other hasIt)
  cached other cb_fiber isCached := by
    rw [created]
    exact located.cached other cb_fiber (cached other cb_fiber isCached)

theorem settle (located : s.Located) {viaCb : Bool} (settling : Worker → Bool)
    (swapped : s.core.stage worker = .swapped fiber viaCb) :
    Located { s with core := s.core.settle worker fiber viaCb, settling := settling } := by
  have spec := s.core.settle_spec worker fiber viaCb
  have queue : ∀ it ∈ s.core.m_fibers, it ∈ (s.core.settle worker fiber viaCb).m_fibers := by
    intro it member
    by_cases ready : s.core.m_state fiber = .READY
    · rw [(spec.requeued ready).2]
      exact List.mem_append_left _ member
    · rwa [spec.kept ready]
  refine located.release fiber queue spec.others spec.states spec.created (fun _ => id)
    (fun other has => ?_) (fun _ accounted => ?_) spec.cb_fiber
  · rw [swapped] at has
    exact Stage.eq_of_has_swapped has
  · obtain ⟨born, live, -⟩ := accounted
    simp only [finished, Bool.or_eq_false_iff, decide_eq_false_iff_not] at live
    by_cases ready : s.core.m_state fiber = .READY
    · obtain ⟨readied, m_fibers⟩ := spec.requeued ready
      refine ⟨spec.created ▸ born, by simp [finished, readied],
        .inl ⟨⟨.fiber fiber, .any⟩, ?_, rfl⟩⟩
      rw [show _ = _ from m_fibers]
      exact List.mem_append_right _ (List.mem_singleton_self _)
    · have held := spec.held ready live.1 live.2
      exact ⟨spec.created ▸ born, by simp [finished, held], .inr (.inr held)⟩

end Located

/-- The step lemma: every step keeps account of the fibers that have not ended. -/
theorem Located.step [Fintype Worker] {root : Option Worker} {label : Label Worker Fiber Callback}
    (located : s.Located) (stepped : Step root s label next) : next.Located := by
  cases stepped with
  | create fiber unborn => exact located.create unborn
  | schedule caller fc thread calls created => exact located.schedule created
  | scheduleRange caller cbs calls =>
      refine located.grow (fun it member => ?_) rfl rfl rfl rfl rfl
      dsimp only [Scheduler.push]
      rw [scheduleRange_append]
      exact List.mem_append_left _ member
  | quiet worker move inside isQuiet notEnded moved => exact located.quiet (.of_step isQuiet moved)
  | scan worker inside scanning => exact located.scan scanning _
  | swapIn worker inside held live idle =>
      refine located.run rfl rfl (Function.update_self ..) (fun _ => (Function.update_of_ne · ..))
        (fun _ => id) (fun notEnded => (located.accounted _ notEnded).created) (fun _ _ => rfl)
        (fun other has => ?_) located.cached
      rw [held] at has
      exact Stage.eq_of_has_handle has
  | swapInCb worker inside held isCached idle =>
      refine located.run rfl rfl (Function.update_self ..) (fun _ => (Function.update_of_ne · ..))
        (fun _ => id) (fun _ => located.cached worker _ isCached)
        (fun _ => (Function.update_of_ne · ..)) (fun other has => ?_) located.cached
      rw [held] at has
      exact (Stage.not_has_cb other has).elim
  | swapInNew worker fiber inside held none unborn =>
      have grown : ∀ other, s.core.created other = true →
          (s.core.construct fiber 0).created other = true := by
        intro other born
        refine (Function.update_of_ne ?_ ..).trans born
        rintro rfl
        rw [unborn] at born
        cases born
      have born : (s.core.construct fiber 0).created fiber = true := Function.update_self ..
      refine located.run rfl rfl (Function.update_self ..) (fun other different => ?_) grown
        (fun _ => born) (fun _ => (Function.update_of_ne · ..)) (fun other has => ?_)
        fun other cached isCached => ?_
      · exact (Function.update_of_ne different ..).trans (Function.update_of_ne different ..)
      · rw [held] at has
        exact (Stage.not_has_cb other has).elim
      · by_cases same : other = worker
        · subst same
          cases (Function.update_self ..).symm.trans isCached
          exact born
        · exact grown cached
            (located.cached other cached ((Function.update_of_ne same ..).symm.trans isCached))
  | drop worker inside held ended =>
      rename_i fiber
      refine located.release fiber (fun _ => id) (fun _ => (stage_setStage_ne _ · _)) (fun _ _ => rfl) rfl
        (fun _ => id) (fun other has => ?_) (fun _ accounted => ?_) fun _ _ => id
      · rw [held] at has
        exact Stage.eq_of_has_handle has
      · exact absurd ended (by simp [accounted.live])
  | finish worker state inside running ended =>
      rename_i fiber viaCb
      refine located.release fiber (fun _ => id) (fun _ => (stage_setStage_ne _ · _))
        (fun _ => (Function.update_of_ne · ..)) rfl (fun other notEnded => ?_) (fun other has => ?_)
        (fun notEnded _ => ?_) fun _ _ => id
      · by_cases same : other = fiber
        · subst same
          cases (Function.update_self ..).symm.trans notEnded
        · exact (Function.update_of_ne same ..).symm.trans notEnded
      · rw [running] at has
        exact Stage.eq_of_has_running has
      · cases (Function.update_self ..).symm.trans notEnded
  | settle worker inside swapped settles => exact located.settle _ swapped
  | endIdle worker inside idling stops =>
      constructor
      · intro fiber notEnded
        refine (located.accounted fiber notEnded).frame worker (fun _ => id) id rfl
          (fun _ => (stage_setStage_ne _ · _)) ?_
        rw [idling]
        exact Stage.not_has_of_handles rfl fiber
      · exact located.cached
  | tickle | write | update | exit | stopCall | stopEarly | stopAtOnce | stopFlag | stopTickle
  | stopWrite | stopNoRoot | stopTest | stopCallRoot | stopBack =>
      exact located.grow (fun _ => id) rfl rfl rfl rfl rfl

end

/-! ## The root fiber as the only worker -/

/-- `stop()` has been called, and there is nothing left to be run. -/
structure Over (s : Lifecycle Worker Fiber Callback) : Prop where
  autoStop : s.m_autoStop = true
  empty : s.core.m_fibers = []
  ended : ∀ fiber, s.unfinished fiber = false

/-- The root fiber is inside `run` only while `stop()` waits for it, and it leaves `run` and
`stop()` returns only when there is nothing left. -/
structure Alone (root : Worker) (s : Lifecycle Worker Fiber Callback) : Prop where
  inside : s.life root = .inside → s.stopper = .calling
  outside : s.life root = .outside → s.core.stage root = .next .scan
  left : s.life root = .left → s.idleEnded root = true
  idleEnded : s.idleEnded root = true → s.Over ∧ (s.core.stage root).past = true
  returned : s.stopper = .returned → s.Over

/-- Other threads schedule tasks only before `stop()` is called, and whenever `stopping()`
answers yes, no task is suspended that has not ended. -/
def Orderly (s : Lifecycle Worker Fiber Callback) : Label Worker Fiber Callback → Prop
  | .schedule none _ _ | .scheduleRange none _ => s.m_autoStop = false
  | .endIdle _ | .stop .atOnce | .stop .test =>
      ∀ fiber, s.unfinished fiber = true → s.core.m_state fiber ≠ .HOLD
  | _ => True

/-- No worker is inside `run`, the queue is empty, and every task has been executed to its
end. -/
structure ShutDown (s : Lifecycle Worker Fiber Callback) : Prop where
  left : ∀ worker, s.life worker ≠ .inside
  empty : s.core.m_fibers = []
  idle : ∀ worker, s.handling worker = false
  ended : ∀ fiber, s.unfinished fiber = false

variable {s next : Lifecycle Worker Fiber Callback} {root : Worker}

theorem Over.congr (isOver : s.Over) (autoStop : s.m_autoStop = true → next.m_autoStop = true)
    (m_fibers : next.core.m_fibers = s.core.m_fibers) (unfinished : next.unfinished = s.unfinished) :
    next.Over where
  autoStop := autoStop isOver.autoStop
  empty := m_fibers.trans isOver.empty
  ended fiber := (congrFun unfinished fiber).trans (isOver.ended fiber)

/-- `stopping()` answers yes while the only worker has no fiber and none is suspended. -/
theorem Located.toOver (located : s.Located) (single : ∀ worker, worker = root)
    (stops : s.stopping = true) (lacks : (s.core.stage root).handles = false)
    (awake : ∀ fiber, s.unfinished fiber = true → s.core.m_state fiber ≠ .HOLD) : s.Over := by
  simp only [stopping, Bool.and_eq_true, List.isEmpty_iff] at stops
  refine ⟨stops.1.1.1, stops.1.2, fun fiber => ?_⟩
  rw [← Bool.not_eq_true]
  intro notEnded
  rcases (located.accounted fiber notEnded).place with ⟨it, member, -⟩ | ⟨worker, has⟩ | held
  · rw [stops.1.2] at member
    cases member
  · rw [single worker] at has
    exact Stage.not_has_of_handles lacks fiber has
  · exact awake fiber notEnded held

namespace Alone

/-- A root fiber that is not inside `run` handles nothing. -/
theorem handles (alone : Alone root s) (notInside : s.life root ≠ .inside) :
    (s.core.stage root).handles = false := by
  cases life : s.life root with
  | inside => exact absurd life notInside
  | outside =>
      rw [alone.outside life]
      rfl
  | left => exact Stage.handles_of_past (alone.idleEnded (alone.left life)).2

/-- A step during which the root fiber is not on its way out and `stop()` has not returned. -/
theorem work (alone : Alone root s) (running : s.idleEnded root ≠ true)
    (waits : s.stopper ≠ .returned) (life : next.life = s.life)
    (stopper : next.stopper = s.stopper) (idleEnded : next.idleEnded = s.idleEnded)
    (stage : s.life root = .outside → next.core.stage root = s.core.stage root) :
    Alone root next where
  inside := by
    rw [life, stopper]
    exact alone.inside
  outside := by
    rw [life]
    exact fun outside => (stage outside).trans (alone.outside outside)
  left := by
    rw [life, idleEnded]
    exact alone.left
  idleEnded := by
    rw [idleEnded]
    exact fun ended => absurd ended running
  returned := by
    rw [stopper]
    exact fun returned => absurd returned waits

/-- A step of the root fiber itself that is not part of its way out. -/
theorem busy (alone : Alone root s) (inside : s.life root = .inside)
    (notOver : (s.core.stage root).past = false ∨ s.idleEnded root = false)
    (life : next.life = s.life) (stopper : next.stopper = s.stopper)
    (idleEnded : next.idleEnded = s.idleEnded) : Alone root next := by
  refine alone.work ?_ ?_ life stopper idleEnded ?_
  · intro ended
    rcases notOver with notOver | running
    · rw [(alone.idleEnded ended).2] at notOver
      cases notOver
    · rw [ended] at running
      cases running
  · rw [alone.inside inside]
    nofun
  · rw [inside]
    nofun

/-- A step of `stop()` while the root fiber is not being called. -/
theorem stop (alone : Alone root s) (notCalling : s.stopper ≠ .calling)
    (life : next.life = s.life) (idleEnded : next.idleEnded = s.idleEnded)
    (stage : next.core.stage = s.core.stage) (m_fibers : next.core.m_fibers = s.core.m_fibers)
    (unfinished : next.unfinished = s.unfinished)
    (autoStop : s.m_autoStop = true → next.m_autoStop = true)
    (returned : next.stopper = .returned → next.Over) : Alone root next where
  inside := by
    rw [life]
    exact fun inside => absurd (alone.inside inside) notCalling
  outside := by
    rw [life, stage]
    exact alone.outside
  left := by
    rw [life, idleEnded]
    exact alone.left
  idleEnded := by
    rw [idleEnded, stage]
    intro ended
    obtain ⟨isOver, atStage⟩ := alone.idleEnded ended
    exact ⟨isOver.congr autoStop m_fibers unfinished, atStage⟩
  returned := returned

end Alone

variable [DecidableEq Worker] [DecidableEq Fiber]

omit [DecidableEq Worker] in
theorem life_submit (s : Lifecycle Worker Fiber Callback) (fc : Option (Task Fiber Callback))
    (thread : ThreadId Worker) :
    (s.submit fc thread).life = s.life ∧ (s.submit fc thread).stopper = s.stopper ∧
      (s.submit fc thread).idleEnded = s.idleEnded := by
  rcases fc with _ | fiber | cb <;> exact ⟨rfl, rfl, rfl⟩

omit [DecidableEq Worker] [DecidableEq Fiber] in
/-- A thread that may call `schedule()` finds the root fiber running, or `stop()` not called. -/
theorem Alone.of_calls (alone : Alone root s) (single : ∀ worker, worker = root)
    {caller : Option Worker} (calls : s.Calls caller)
    (before : caller = none → s.m_autoStop = false) (life : next.life = s.life)
    (stopper : next.stopper = s.stopper) (idleEnded : next.idleEnded = s.idleEnded)
    (stage : next.core.stage = s.core.stage) : Alone root next := by
  cases caller with
  | none =>
      have notOver : ¬ s.Over := by
        intro isOver
        have called := isOver.autoStop
        rw [before rfl] at called
        cases called
      exact alone.work (fun ended => notOver (alone.idleEnded ended).1)
        (fun returned => notOver (alone.returned returned)) life stopper idleEnded
        fun _ => congrFun stage root
  | some worker =>
      obtain ⟨inside, calling⟩ := calls
      rw [single worker] at inside calling
      refine alone.busy inside (.inl ?_) life stopper idleEnded
      rw [← Bool.not_eq_true]
      intro isOver
      unfold Stage.calls at calling
      split at calling
      next running => rw [running] at isOver; cases isOver
      next woken => rw [woken] at isOver; cases isOver
      next => cases calling

/-- The step lemma: the root fiber and `stop()` end only when there is nothing left. -/
theorem Alone.step [Fintype Worker] {label : Label Worker Fiber Callback} (alone : Alone root s)
    (single : ∀ worker, worker = root) (located : s.Located) (orderly : s.Orderly label)
    (stepped : Step (some root) s label next) : Alone root next := by
  cases stepped with
  | create | tickle | write =>
      exact ⟨alone.inside, alone.outside, alone.left,
        fun ended => ⟨(alone.idleEnded ended).1.congr id rfl rfl, (alone.idleEnded ended).2⟩,
        fun returned => (alone.returned returned).congr id rfl rfl⟩
  | schedule caller fc thread calls created =>
      obtain ⟨life, stopper, idleEnded⟩ := s.life_submit fc thread
      refine alone.of_calls single calls ?_ life stopper idleEnded rfl
      rintro rfl
      exact orderly
  | scheduleRange caller cbs calls =>
      refine alone.of_calls single calls ?_ rfl rfl rfl rfl
      rintro rfl
      exact orderly
  | quiet worker move inside isQuiet notEnded moved =>
      cases single worker
      cases ended : s.idleEnded root with
      | false => exact alone.busy inside (.inr ended) rfl rfl rfl
      | true =>
          obtain ⟨isOver, atStage⟩ := alone.idleEnded ended
          have spec := Quiet.of_step isQuiet moved
          have stays := Stage.past_of_quiet isQuiet
            (fun entered => by rw [notEnded entered] at ended; cases ended) atStage moved
          refine ⟨alone.inside, fun outside => ?_, alone.left,
            fun _ => ⟨isOver.congr id spec.m_fibers rfl, stays⟩,
            fun returned => (alone.returned returned).congr id spec.m_fibers rfl⟩
          cases inside.symm.trans outside
  | scan worker inside scanning =>
      cases single worker
      cases ended : s.idleEnded root with
      | false => exact alone.busy inside (.inr ended) rfl rfl rfl
      | true =>
          obtain ⟨isOver, -⟩ := alone.idleEnded ended
          have empty : (s.core.scan root).m_fibers = s.core.m_fibers := by
            rw [(s.core.scan_spec root).1, isOver.empty]
            rfl
          have stage : (s.core.scan root).stage root = .next (.handle none) := by
            simp [Scheduler.scan, isOver.empty, scanQueue]
          refine ⟨alone.inside, fun outside => ?_, alone.left,
            fun _ => ⟨isOver.congr id empty rfl, by rw [show _ = _ from stage]; rfl⟩,
            fun returned => (alone.returned returned).congr id empty rfl⟩
          cases inside.symm.trans outside
  | swapIn worker inside held | drop worker inside held | swapInCb worker inside held
  | swapInNew worker fiber inside held | finish worker state inside held
  | update worker inside held | settle worker inside held =>
      cases single worker
      exact alone.busy inside (.inl (by rw [held]; rfl)) rfl rfl rfl
  | endIdle worker inside idling stops =>
      cases single worker
      have isOver : s.Over := located.toOver single stops (by rw [idling]; rfl) orderly
      refine ⟨alone.inside, fun outside => ?_, fun left => ?_, fun _ => ⟨isOver.congr id rfl rfl, ?_⟩,
        fun returned => (alone.returned returned).congr id rfl rfl⟩
      · cases inside.symm.trans outside
      · cases inside.symm.trans left
      · rw [show _ = _ from stage_setStage_self ..]
        rfl
  | exit worker inside nothing ended =>
      cases single worker
      have left : Function.update s.life root .left root = .left := Function.update_self ..
      refine ⟨fun inside => ?_, fun outside => ?_, fun _ => ended, fun ended => ?_, fun returned => ?_⟩
      · cases left.symm.trans inside
      · cases left.symm.trans outside
      · exact ⟨(alone.idleEnded ended).1.congr id rfl rfl, (alone.idleEnded ended).2⟩
      · exact (alone.returned returned).congr id rfl rfl
  | stopCall before =>
      refine alone.stop ?_ rfl rfl rfl rfl rfl (fun _ => rfl) (by rintro ⟨⟩)
      rcases before with outside | returned
      · simp [outside]
      · simp [returned]
  | stopEarly called =>
      exact alone.stop (by simp [called]) rfl rfl rfl rfl rfl id (by rintro ⟨⟩)
  | stopFlag called =>
      refine alone.stop ?_ rfl rfl rfl rfl rfl id (by rintro ⟨⟩)
      rcases called with ⟨called, -⟩ | early
      · simp [called]
      · simp [early]
  | stopTickle flagged =>
      refine alone.stop (by simp [flagged]) rfl rfl rfl rfl rfl id ?_
      dsimp only
      split <;> rintro ⟨⟩
  | stopWrite writing =>
      exact alone.stop (by simp [writing]) rfl rfl rfl rfl rfl id (by rintro ⟨⟩)
  | stopAtOnce early stops =>
      have notCalling : s.stopper ≠ .calling := by simp [early]
      have isOver : s.Over := located.toOver single stops
        (alone.handles fun inside => notCalling (alone.inside inside)) orderly
      exact alone.stop notCalling rfl rfl rfl rfl rfl id fun _ => isOver.congr id rfl rfl
  | stopNoRoot flagged noRoot => cases noRoot
  | stopTest flagged isRoot stops =>
      have notCalling : s.stopper ≠ .calling := by simp [flagged]
      have isOver : s.Over := located.toOver single stops
        (alone.handles fun inside => notCalling (alone.inside inside)) orderly
      exact alone.stop notCalling rfl rfl rfl rfl rfl id fun _ => isOver.congr id rfl rfl
  | stopCallRoot flagged isRoot outside =>
      cases isRoot
      have inside : Function.update s.life root .inside root = .inside := Function.update_self ..
      refine ⟨fun _ => rfl, fun outside => ?_, fun left => ?_, fun ended => ?_, by rintro ⟨⟩⟩
      · cases inside.symm.trans outside
      · cases inside.symm.trans left
      · exact ⟨(alone.idleEnded ended).1.congr id rfl rfl, (alone.idleEnded ended).2⟩
  | stopBack calling isRoot left =>
      cases isRoot
      have isOver := (alone.idleEnded (alone.left left)).1
      refine ⟨fun inside => ?_, alone.outside, alone.left, fun ended => ?_,
        fun _ => isOver.congr id rfl rfl⟩
      · cases left.symm.trans inside
      · exact ⟨isOver.congr id rfl rfl, (alone.idleEnded ended).2⟩

/-- Every state reached keeps account of the fibers that have not ended. -/
theorem exists_located [Fintype Worker] {root : Option Worker}
    {allowed : Lifecycle Worker Fiber Callback → Label Worker Fiber Callback → Prop}
    (reached : (lifecycle Worker Fiber Callback root).Reaches allowed s) : s.Located := by
  apply reached.invariant Located
  · rintro s rfl
    exact ⟨nofun, nofun⟩
  · exact fun _ _ _ _ located _ stepped => located.step stepped

omit [DecidableEq Fiber] in
theorem Alone.start : Alone root (Lifecycle.start (some root) : Lifecycle Worker Fiber Callback) where
  inside := by simp [Lifecycle.start]
  outside _ := rfl
  left := by simp [Lifecycle.start]
  idleEnded := nofun
  returned := nofun

/-- With the root fiber as the only worker nothing is left when `stop()` returns. -/
theorem shutDown_of_single [Fintype Worker] (single : ∀ worker, worker = root)
    (reached : (lifecycle Worker Fiber Callback (some root)).Reaches Orderly s)
    (returned : s.stopper = .returned) : s.ShutDown := by
  have alone : Alone root s := by
    apply reached.invariant (Alone root)
    · rintro s rfl
      exact Alone.start
    · exact fun _ _ _ before alone orderly stepped =>
        alone.step single (exists_located before) orderly stepped
  have notInside : s.life root ≠ .inside := by
    intro inside
    rw [alone.inside inside] at returned
    cases returned
  obtain ⟨-, empty, ended⟩ := alone.returned returned
  refine ⟨fun worker => ?_, empty, fun worker => ?_, ended⟩
  · rwa [single worker]
  · rw [single worker, handling, alone.handles notInside]
    rfl

/-- While no worker is idle the tickles of `stop()` only count down. -/
theorem reaches_tickled [Fintype Worker] {root : Option Worker} {tickles : Nat}
    (reached : (lifecycle Worker Fiber Callback root).Reaches Orderly s)
    (flagged : s.stopper = .flagged tickles) (busy : s.core.m_idleThreadCount = 0) :
    (lifecycle Worker Fiber Callback root).Reaches Orderly { s with stopper := .flagged 0 } := by
  induction tickles generalizing s with
  | zero => rwa [← flagged]
  | succ tickles ih =>
      have tickled := Library.System.Reaches.step reached (by exact trivial) (.stopTickle flagged)
      rw [busy, if_neg (Nat.lt_irrefl 0)] at tickled
      have rest := ih tickled rfl busy
      exact rest

/-- A worker that runs on a thread of the scheduler may still be inside `run` when `stop()`
returns. -/
theorem returned_inside [Fintype Worker] {root : Option Worker} {worker : Worker}
    (isThread : root ≠ some worker) :
    ∃ s : Lifecycle Worker Fiber Callback, (lifecycle Worker Fiber Callback root).Reaches Orderly s ∧
      s.stopper = .returned ∧ s.life worker = .inside := by
  have inside : (Lifecycle.start root : Lifecycle Worker Fiber Callback).life worker = .inside :=
    if_neg isThread
  have notAlone (s : Lifecycle Worker Fiber Callback) : ¬ RootOnly root s := by
    rintro ⟨other, isRoot, single, -⟩
    rw [isRoot, single worker] at isThread
    exact isThread rfl
  have called : (lifecycle Worker Fiber Callback root).Reaches Orderly _ :=
    .step (.initial rfl) (by exact trivial) (.stopCall (.inl rfl))
  have flagged : (lifecycle Worker Fiber Callback root).Reaches Orderly _ :=
    .step called (by exact trivial) (.stopFlag (.inl ⟨rfl, notAlone _⟩))
  have tickled := reaches_tickled flagged rfl rfl
  rcases root.eq_none_or_eq_some with noRoot | ⟨other, isRoot⟩
  · exact ⟨_, .step tickled (by exact trivial) (.stopNoRoot rfl noRoot), rfl, inside⟩
  · exact ⟨_, .step tickled (by exact nofun) (.stopTest rfl isRoot rfl), rfl, inside⟩

/-- When `stop()` returns every worker has left `run`, the queue is empty and every task has
been executed to its end, if and only if the root fiber is the only worker: `stop()` does
not wait for the threads of the scheduler. -/
theorem shut_down_iff [Fintype Worker] [Nonempty Worker] (root : Option Worker) :
    (∀ s, (lifecycle Worker Fiber Callback root).Reaches Orderly s → s.stopper = .returned →
      s.ShutDown) ↔ ∃ worker, root = some worker ∧ ∀ other, other = worker := by
  constructor
  · intro holds
    have noThread : ∀ worker, root = some worker := by
      intro worker
      by_contra isThread
      obtain ⟨s, reached, returned, inside⟩ : ∃ s : Lifecycle Worker Fiber Callback,
          (lifecycle Worker Fiber Callback root).Reaches Orderly s ∧ s.stopper = .returned ∧
            s.life worker = .inside := returned_inside isThread
      exact (holds s reached returned).left worker inside
    obtain ⟨worker⟩ := ‹Nonempty Worker›
    refine ⟨worker, noThread worker, fun other => ?_⟩
    exact Option.some.inj ((noThread other).symm.trans (noThread worker))
  · rintro ⟨worker, rfl, single⟩ s reached returned
    exact shutDown_of_single single reached returned

/-- The root fiber runs a callback that was scheduled before `stop()`, and ends. -/
theorem shut_down_iff_root :
    ∃ s : Lifecycle Unit Unit Unit, s.stopper = .returned ∧ s.core.created () = true ∧
      s.ShutDown := by
  have scheduled : (lifecycle Unit Unit Unit (some ())).Reaches Orderly _ :=
    .step (.initial rfl) (by exact rfl) (.schedule none (some (.cb ())) .any trivial nofun)
  have called : (lifecycle Unit Unit Unit (some ())).Reaches Orderly _ :=
    .step scheduled (by exact trivial) (.stopCall (.inl rfl))
  have early : (lifecycle Unit Unit Unit (some ())).Reaches Orderly _ :=
    .step called (by exact trivial) (.stopEarly rfl ⟨(), rfl, fun _ => rfl, nofun⟩)
  have flagged : (lifecycle Unit Unit Unit (some ())).Reaches Orderly _ :=
    .step early (by exact trivial) (.stopFlag (.inr rfl))
  have tickled : (lifecycle Unit Unit Unit (some ())).Reaches Orderly _ :=
    .step flagged (by exact trivial) (.stopTickle rfl)
  have entered : (lifecycle Unit Unit Unit (some ())).Reaches Orderly _ :=
    .step tickled (by exact trivial) (.stopCallRoot rfl rfl rfl)
  have taken : (lifecycle Unit Unit Unit (some ())).Reaches Orderly _ :=
    .step entered (by exact trivial) (.scan () rfl rfl)
  have running : (lifecycle Unit Unit Unit (some ())).Reaches Orderly _ :=
    .step taken (by exact trivial) (.swapInNew () () rfl rfl rfl rfl)
  have ended : (lifecycle Unit Unit Unit (some ())).Reaches Orderly _ :=
    .step running (by exact trivial) (.finish () .TERM rfl rfl (.inl rfl))
  have swapped : (lifecycle Unit Unit Unit (some ())).Reaches Orderly _ :=
    .step ended (by exact trivial) (.quiet () .swapOut rfl rfl nofun (.swapOut () rfl (by decide)))
  have updated : (lifecycle Unit Unit Unit (some ())).Reaches Orderly _ :=
    .step swapped (by exact trivial) (.update () rfl rfl rfl)
  have settled : (lifecycle Unit Unit Unit (some ())).Reaches Orderly _ :=
    .step updated (by exact trivial) (.settle () rfl rfl rfl)
  have scanned : (lifecycle Unit Unit Unit (some ())).Reaches Orderly _ :=
    .step settled (by exact trivial) (.scan () rfl rfl)
  have idling : (lifecycle Unit Unit Unit (some ())).Reaches Orderly _ :=
    .step scanned (by exact trivial) (.quiet () .enter rfl rfl (fun _ => rfl) (.enter () rfl))
  have idled : (lifecycle Unit Unit Unit (some ())).Reaches Orderly _ :=
    .step idling (by exact trivial) (.quiet () .idle rfl rfl nofun (.idle () rfl))
  have idleEnded : (lifecycle Unit Unit Unit (some ())).Reaches Orderly _ :=
    .step idled (by exact nofun) (.endIdle () rfl rfl rfl)
  have resumed : (lifecycle Unit Unit Unit (some ())).Reaches Orderly _ :=
    .step idleEnded (by exact trivial) (.quiet () .resume rfl rfl nofun (.resume () rfl))
  have scannedAgain : (lifecycle Unit Unit Unit (some ())).Reaches Orderly _ :=
    .step resumed (by exact trivial) (.scan () rfl rfl)
  have left : (lifecycle Unit Unit Unit (some ())).Reaches Orderly _ :=
    .step scannedAgain (by exact trivial) (.exit () rfl rfl rfl)
  have back : (lifecycle Unit Unit Unit (some ())).Reaches Orderly _ :=
    .step left (by exact trivial) (.stopBack rfl rfl rfl)
  exact ⟨_, rfl, rfl, (shut_down_iff (some ())).mpr ⟨(), rfl, fun _ => rfl⟩ _ back rfl⟩

/-- `stop()` returns while the only thread of the scheduler is inside `run`, and the callback
is still in the queue. -/
theorem stop_not_joined :
    ∃ s : Lifecycle Unit Unit Unit, (lifecycle Unit Unit Unit none).Reachable s ∧
      s.stopper = .returned ∧ s.life () = .inside ∧ s.core.m_fibers = [⟨.cb (), .any⟩] := by
  have scheduled : (lifecycle Unit Unit Unit none).Reachable _ :=
    .step (.initial rfl) trivial (.schedule none (some (.cb ())) .any trivial nofun)
  have called : (lifecycle Unit Unit Unit none).Reachable _ :=
    .step scheduled trivial (.stopCall (.inl rfl))
  have flagged : (lifecycle Unit Unit Unit none).Reachable _ :=
    .step called trivial (.stopFlag (.inl ⟨rfl, not_rootOnly_none _⟩))
  have tickled : (lifecycle Unit Unit Unit none).Reachable _ :=
    .step flagged trivial (.stopTickle rfl)
  have returned : (lifecycle Unit Unit Unit none).Reachable _ :=
    .step tickled trivial (.stopNoRoot rfl rfl)
  exact ⟨_, returned, rfl, rfl, rfl⟩

end Lifecycle

end Exhy
