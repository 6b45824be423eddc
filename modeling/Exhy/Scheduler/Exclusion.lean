import Exhy.Scheduler.Core

/-!
# A fiber runs on one worker at a time

Every fiber has one place: not constructed yet, waiting to be queued or queued, taken
from the queue by a worker, on a worker, or cached as a worker's callback fiber.  Each
step moves at most one fiber from one place to another, and the place bounds how often
the fiber may be in the queue.
-/

namespace Exhy.Scheduler

open IOManager (Task)

variable {Worker Fiber Callback : Type}

/-- Where a fiber is. -/
inductive Place (Worker : Type) where
  | unborn
  | waiting
  | held (worker : Worker)
  | running (worker : Worker) (phase : Phase)
  | swapped (worker : Worker)
  | cached (worker : Worker)

namespace Place

/-- The worker that alone may touch the fiber. -/
def owner : Place Worker → Option Worker
  | .unborn | .waiting => none
  | .held worker | .running worker _ | .swapped worker | .cached worker => some worker

/-- How many queue entries and outstanding wake-ups a fiber may have. -/
def budget : Place Worker → FiberState → Nat
  | .waiting, _ | .running _ .waiting, _ => 1
  | .swapped _, state => if state = .EXEC then 1 else 0
  | _, _ => 0

/-- The values of `m_state` that fit the place. -/
def Fits : Place Worker → FiberState → Prop
  | .unborn, state | .cached _, state => state = .INIT
  | .waiting, state | .held _, state => state ≠ .EXEC
  | .running _ .working, state | .running _ .waiting, state => state = .EXEC
  | .running _ .readying, state => state = .READY
  | .running _ .ending, state => state = .TERM ∨ state = .EXCEP
  | .swapped _, _ => True

end Place

namespace Stage

/-- The fiber that a worker has in hand, and its place. -/
def claim (worker : Worker) : Stage Fiber Callback → Option (Fiber × Place Worker)
  | .next (.handle (some (.fiber fiber))) | .tickling (.handle (some (.fiber fiber)))
  | .writing (.handle (some (.fiber fiber))) => some (fiber, .held worker)
  | .running fiber phase _ => some (fiber, .running worker phase)
  | .swapped fiber _ => some (fiber, .swapped worker)
  | _ => none

/-- The callback fiber that a worker is running. -/
def viaCb : Stage Fiber Callback → Option Fiber
  | .running fiber _ true | .swapped fiber true => some fiber
  | _ => none

/-- The fiber that is on a worker: from `swapIn` until the worker has dealt with its
swapping out. -/
def current : Stage Fiber Callback → Option Fiber
  | .running fiber _ _ | .swapped fiber _ => some fiber
  | _ => none

theorem claim_of_current {stage : Stage Fiber Callback} (worker : Worker) {fiber : Fiber}
    (runs : stage.current = some fiber) :
    (∃ phase, stage.claim worker = some (fiber, .running worker phase)) ∨
      stage.claim worker = some (fiber, .swapped worker) := by
  unfold current at runs
  split at runs <;> cases runs
  · exact .inl ⟨_, rfl⟩
  · exact .inr rfl

theorem claim_owner {stage : Stage Fiber Callback} {worker : Worker} {fiber : Fiber}
    {place : Place Worker} (claims : stage.claim worker = some (fiber, place)) :
    place.owner = some worker := by
  unfold claim at claims
  split at claims <;> cases claims <;> rfl

end Stage

/-! ## The queue -/

section Queue

variable [DecidableEq Fiber]

def isFiber (fiber : Fiber) : Task Fiber Callback → Bool
  | .fiber other => other = fiber
  | .cb _ => false

/-- How often a fiber is in the queue. -/
def queued (m_fibers : List (FiberAndThread Worker Fiber Callback)) (fiber : Fiber) : Nat :=
  m_fibers.countP fun it => isFiber fiber it.task

theorem queued_cons (it : FiberAndThread Worker Fiber Callback)
    (m_fibers : List (FiberAndThread Worker Fiber Callback)) (fiber : Fiber) :
    queued (it :: m_fibers) fiber = queued m_fibers fiber + (isFiber fiber it.task).toNat := by
  cases taken : isFiber fiber it.task <;> simp [queued, taken]

theorem queued_scheduleNolock (m_fibers : List (FiberAndThread Worker Fiber Callback))
    (fc : Option (Task Fiber Callback)) (thread : ThreadId Worker) (fiber : Fiber) :
    queued (scheduleNolock m_fibers fc thread).2 fiber =
      queued m_fibers fiber + (fc.any (isFiber fiber)).toNat := by
  cases fc with
  | none => simp [scheduleNolock, queued]
  | some task => cases same : isFiber fiber task <;> simp [scheduleNolock, queued, same]

theorem queued_scheduleRange (m_fibers : List (FiberAndThread Worker Fiber Callback))
    (cbs : List (Option Callback)) (fiber : Fiber) :
    queued (scheduleRange m_fibers (cbs.map fun cb => cb.map Task.cb)).2 fiber =
      queued m_fibers fiber := by
  induction cbs generalizing m_fibers with
  | nil => rfl
  | cons cb rest ih =>
      rw [List.map_cons, scheduleRange, ih, queued_scheduleNolock]
      cases cb <;> simp [isFiber]

variable [DecidableEq Worker]

/-- The scan takes out the task it returns and nothing else. -/
theorem queued_scanQueue (worker : Worker) (m_state : Fiber → FiberState)
    (m_fibers : List (FiberAndThread Worker Fiber Callback)) (fiber : Fiber) :
    queued (scanQueue worker m_state m_fibers).2.1 fiber +
        ((scanQueue worker m_state m_fibers).1.any (isFiber fiber)).toNat =
      queued m_fibers fiber := by
  induction m_fibers with
  | nil => rfl
  | cons it rest ih =>
      rw [scanQueue]
      generalize scanQueue worker m_state rest = result at ih ⊢
      obtain ⟨ft, kept, tickle_me⟩ := result
      split
      · rw [queued_cons, queued_cons, ← ih]
        exact Nat.add_right_comm ..
      · split
        · rw [queued_cons, queued_cons, ← ih]
          exact Nat.add_right_comm ..
        · rw [queued_cons]
          rfl

omit [DecidableEq Fiber] in
/-- A fiber that the scan returns is not in state `EXEC`. -/
theorem scanQueue_state {worker : Worker} {m_state : Fiber → FiberState}
    {m_fibers : List (FiberAndThread Worker Fiber Callback)} {fiber : Fiber}
    (found : (scanQueue worker m_state m_fibers).1 = some (.fiber fiber)) :
    m_state fiber ≠ .EXEC := by
  induction m_fibers with
  | nil => cases found
  | cons it rest ih =>
      rw [scanQueue] at found
      split at found
      · exact ih found
      · split at found
        · exact ih found
        next ready =>
          cases found' : it.task with
          | cb cb => simp [found'] at found
          | fiber other =>
              simp only [found', Option.some.injEq, Task.fiber.injEq] at found
              subst found
              simpa [FiberAndThread.executing, found'] using ready

end Queue

/-! ## The places of the fibers -/

variable [DecidableEq Fiber]

/-- The state agrees with the places of its fibers. -/
structure Placed (s : Scheduler Worker Fiber Callback) (place : Fiber → Place Worker) : Prop where
  claims : ∀ worker fiber here, (s.stage worker).claim worker = some (fiber, here) →
    place fiber = here
  created : ∀ fiber, s.created fiber = false → place fiber = .unborn
  budget : ∀ fiber, queued s.m_fibers fiber + s.wakes fiber ≤
    (place fiber).budget (s.m_state fiber)
  fits : ∀ fiber, (place fiber).Fits (s.m_state fiber)
  viaCb : ∀ worker fiber, (s.stage worker).viaCb = some fiber → s.cb_fiber worker = some fiber
  cached : ∀ worker fiber, s.cb_fiber worker = some fiber →
    (s.stage worker).viaCb = some fiber ∨ place fiber = .cached worker

namespace Placed

variable {s next : Scheduler Worker Fiber Callback} {place : Fiber → Place Worker}

theorem start : Placed (Scheduler.start : Scheduler Worker Fiber Callback) fun _ => .unborn where
  claims := by
    intro worker fiber here impossible
    cases impossible
  created := fun _ _ => rfl
  budget := fun _ => Nat.le_refl 0
  fits := fun _ => rfl
  viaCb := by
    intro worker fiber impossible
    cases impossible
  cached := by
    intro worker fiber impossible
    cases impossible

/-- The counters and the pipe say nothing about fibers. -/
theorem counters (placed : Placed s place)
    (m_activeThreadCount m_idleThreadCount tickleFd ticklers writers : Nat) :
    Placed { s with
      m_activeThreadCount := m_activeThreadCount
      m_idleThreadCount := m_idleThreadCount
      tickleFd := tickleFd
      ticklers := ticklers
      writers := writers } place :=
  ⟨placed.claims, placed.created, placed.budget, placed.fits, placed.viaCb, placed.cached⟩

theorem create (placed : Placed s place) {fiber : Fiber} (unborn : s.created fiber = false) :
    Placed (s.construct fiber 1) (Function.update place fiber .waiting) := by
  have here := placed.created fiber unborn
  have spare := placed.budget fiber
  rw [here] at spare
  refine ⟨fun worker other there claimed => ?_, fun other isUnborn => ?_, fun other => ?_,
    fun other => ?_, placed.viaCb, fun worker other isCached => ?_⟩
  · have placeEq := placed.claims worker other there claimed
    have different : other ≠ fiber := by
      rintro rfl
      have owner := Stage.claim_owner claimed
      rw [← placeEq, here] at owner
      cases owner
    rw [Function.update_of_ne different, placeEq]
  · have different : other ≠ fiber := by
      rintro rfl
      simp [construct] at isUnborn
    rw [Function.update_of_ne different]
    simp only [construct, Function.update_of_ne different] at isUnborn
    exact placed.created other isUnborn
  · by_cases same : other = fiber
    · subst same
      simp only [construct, Function.update_self, Place.budget] at spare ⊢
      omega
    · simpa only [construct, Function.update_of_ne same] using placed.budget other
  · by_cases same : other = fiber
    · subst same
      simp [construct, Place.Fits]
    · simpa only [construct, Function.update_of_ne same] using placed.fits other
  · rcases placed.cached worker other isCached with running | cachedHere
    · exact .inl running
    · have different : other ≠ fiber := by
        rintro rfl
        rw [here] at cachedHere
        cases cachedHere
      exact .inr (by rw [Function.update_of_ne different, cachedHere])

theorem schedule (placed : Placed s place) (fc : Option (Task Fiber Callback))
    (thread : ThreadId Worker) (due : ∀ fiber, fc = some (.fiber fiber) → 0 < s.wakes fiber) :
    Placed ((s.useWake fc).push (scheduleNolock s.m_fibers fc thread)) place := by
  -- the entry that is added is paid for by the wake-up that is used up
  have paid (fiber : Fiber) : queued (scheduleNolock s.m_fibers fc thread).2 fiber +
      (s.useWake fc).wakes fiber = queued s.m_fibers fiber + s.wakes fiber := by
    rw [queued_scheduleNolock]
    rcases fc with _ | other | cb
    · rfl
    · have positive := due other rfl
      by_cases same : other = fiber
      · subst same
        simp only [useWake, Option.any_some, isFiber, Function.update_self, decide_true,
          Bool.toNat_true]
        omega
      · simp [useWake, isFiber, same, Function.update_of_ne (Ne.symm same)]
    · rfl
  have rest : (s.useWake fc).stage = s.stage ∧ (s.useWake fc).created = s.created ∧
      (s.useWake fc).m_state = s.m_state ∧ (s.useWake fc).cb_fiber = s.cb_fiber := by
    rcases fc with _ | other | cb <;> exact ⟨rfl, rfl, rfl, rfl⟩
  obtain ⟨stageEq, createdEq, stateEq, cbEq⟩ := rest
  refine ⟨?_, ?_, fun fiber => ?_, ?_, ?_, ?_⟩
  · simpa only [push, stageEq] using placed.claims
  · simpa only [push, createdEq] using placed.created
  · simpa only [push, stateEq, paid] using placed.budget fiber
  · simpa only [push, stateEq] using placed.fits
  · simpa only [push, stageEq, cbEq] using placed.viaCb
  · simpa only [push, stageEq, cbEq] using placed.cached

theorem scheduleRange (placed : Placed s place) (cbs : List (Option Callback)) :
    Placed (s.push (Scheduler.scheduleRange s.m_fibers (cbs.map fun cb => cb.map Task.cb)))
      place := by
  refine ⟨placed.claims, placed.created, fun fiber => ?_, placed.fits, placed.viaCb,
    placed.cached⟩
  simpa only [push, queued_scheduleRange] using placed.budget fiber

variable {worker : Worker} {fiber : Fiber}

/-- A queued fiber that is not in state `EXEC` is waiting, and queued once. -/
theorem waiting_of_queued (placed : Placed s place) (isQueued : 0 < queued s.m_fibers fiber)
    (state : s.m_state fiber ≠ .EXEC) :
    place fiber = .waiting ∧ queued s.m_fibers fiber = 1 ∧ s.wakes fiber = 0 := by
  have budget := placed.budget fiber
  have fits := placed.fits fiber
  cases here : place fiber with
  | waiting =>
      rw [here, Place.budget] at budget
      exact ⟨rfl, by omega, by omega⟩
  | running worker phase =>
      cases phase with
      | waiting =>
          rw [here] at fits
          exact absurd fits state
      | working | readying | ending =>
          rw [here, Place.budget] at budget
          · omega
          all_goals simp
  | swapped worker =>
      rw [here, Place.budget, if_neg state] at budget
      omega
  | unborn | held worker | cached worker =>
      rw [here, Place.budget] at budget
      · omega
      all_goals simp

/-! ### The steps of a worker -/

variable [DecidableEq Worker]

/-- A step that moves no fiber: the worker has the same fiber in hand afterwards. -/
theorem stay (placed : Placed s place) (worker : Worker)
    (stages : ∀ other, other ≠ worker → next.stage other = s.stage other)
    (claim : (next.stage worker).claim worker = (s.stage worker).claim worker)
    (viaCb : (next.stage worker).viaCb = (s.stage worker).viaCb)
    (created : next.created = s.created)
    (queue : ∀ fiber, queued next.m_fibers fiber = queued s.m_fibers fiber)
    (wakes : next.wakes = s.wakes) (states : next.m_state = s.m_state)
    (cbFiber : next.cb_fiber = s.cb_fiber) : Placed next place where
  claims := by
    intro other fiber here claimed
    by_cases same : other = worker
    · subst same
      exact placed.claims other fiber here (claim ▸ claimed)
    · exact placed.claims other fiber here (stages other same ▸ claimed)
  created := by
    rw [created]
    exact placed.created
  budget := by
    intro fiber
    rw [queue, wakes, states]
    exact placed.budget fiber
  fits := by
    rw [states]
    exact placed.fits
  viaCb := by
    intro other fiber running
    rw [cbFiber]
    by_cases same : other = worker
    · subst same
      exact placed.viaCb other fiber (viaCb ▸ running)
    · exact placed.viaCb other fiber (stages other same ▸ running)
  cached := by
    intro other fiber cached
    rw [cbFiber] at cached
    by_cases same : other = worker
    · subst same
      rw [viaCb]
      exact placed.cached other fiber cached
    · rw [stages other same]
      exact placed.cached other fiber cached

/-- A step of one worker that moves one fiber, which no other worker may touch. -/
theorem move (placed : Placed s place) (worker : Worker) (fiber : Fiber) (there : Place Worker)
    (stages : ∀ other, other ≠ worker → next.stage other = s.stage other)
    (free : ∀ other, other ≠ worker → (place fiber).owner ≠ some other)
    (claims : ∀ other here, (next.stage worker).claim worker = some (other, here) →
      other = fiber ∧ here = there)
    (created : ∀ other, next.created other = false → other ≠ fiber ∧ s.created other = false)
    (others : ∀ other, other ≠ fiber →
      queued next.m_fibers other + next.wakes other = queued s.m_fibers other + s.wakes other ∧
        next.m_state other = s.m_state other)
    (budget : queued next.m_fibers fiber + next.wakes fiber ≤ there.budget (next.m_state fiber))
    (fits : there.Fits (next.m_state fiber))
    (cbFibers : ∀ other, other ≠ worker → next.cb_fiber other = s.cb_fiber other)
    (viaCb : ∀ other, (next.stage worker).viaCb = some other → next.cb_fiber worker = some other)
    (cached : ∀ other, next.cb_fiber worker = some other →
      (next.stage worker).viaCb = some other ∨ other = fiber ∧ there = .cached worker ∨
        other ≠ fiber ∧ place other = .cached worker) :
    Placed next (Function.update place fiber there) where
  claims := by
    intro other g here claimed
    by_cases same : other = worker
    · subst same
      obtain ⟨rfl, rfl⟩ := claims g here claimed
      rw [Function.update_self]
    · rw [stages other same] at claimed
      have placeEq := placed.claims other g here claimed
      have different : g ≠ fiber := by
        rintro rfl
        exact free other same (placeEq ▸ Stage.claim_owner claimed)
      rw [Function.update_of_ne different, placeEq]
  created := by
    intro g unborn
    obtain ⟨different, before⟩ := created g unborn
    rw [Function.update_of_ne different, placed.created g before]
  budget := by
    intro g
    by_cases same : g = fiber
    · subst same
      rwa [Function.update_self]
    · obtain ⟨count, state⟩ := others g same
      rw [Function.update_of_ne same, count, state]
      exact placed.budget g
  fits := by
    intro g
    by_cases same : g = fiber
    · subst same
      rwa [Function.update_self]
    · rw [Function.update_of_ne same, (others g same).2]
      exact placed.fits g
  viaCb := by
    intro other g running
    by_cases same : other = worker
    · subst same
      exact viaCb g running
    · rw [cbFibers other same]
      exact placed.viaCb other g (stages other same ▸ running)
  cached := by
    intro other g isCached
    by_cases same : other = worker
    · subst same
      rcases cached g isCached with running | ⟨rfl, rfl⟩ | ⟨different, here⟩
      · exact .inl running
      · exact .inr (Function.update_self ..)
      · exact .inr (by rw [Function.update_of_ne different, here])
    · rw [cbFibers other same] at isCached
      rw [stages other same]
      rcases placed.cached other g isCached with running | here
      · exact .inl running
      · have different : g ≠ fiber := by
          rintro rfl
          exact free other same (by rw [here, Place.owner])
        exact .inr (by rw [Function.update_of_ne different, here])

/-- A worker goes on with the same fiber, or with none before and after. -/
theorem setStage (placed : Placed s place) {worker : Worker} {stage : Stage Fiber Callback}
    (claim : stage.claim worker = (s.stage worker).claim worker)
    (viaCb : stage.viaCb = (s.stage worker).viaCb) : Placed (s.setStage worker stage) place :=
  placed.stay worker (fun other different => Function.update_of_ne different ..)
    (by rw [stage_setStage_self, claim]) (by rw [stage_setStage_self, viaCb]) rfl
    (fun _ => rfl) rfl rfl rfl

theorem scan (placed : Placed s place) (scanning : s.stage worker = .next .scan) :
    ∃ places, Placed (s.scan worker) places := by
  have queue := queued_scanQueue worker s.m_state s.m_fibers
  cases resultEq : scanQueue worker s.m_state s.m_fibers with
  | mk ft rest =>
      obtain ⟨kept, tickle_me⟩ := rest
      simp only [resultEq] at queue
      have scanned : s.scan worker = ({ s with
          m_fibers := kept
          m_activeThreadCount :=
            if ft.isSome then s.m_activeThreadCount + 1 else s.m_activeThreadCount
          }.setStage worker
            (if tickle_me then .tickling (.handle ft) else .next (.handle ft))) := by
        simp only [Scheduler.scan, resultEq]
      rw [scanned]
      rcases ft with _ | fiber | cb
      · refine ⟨place, placed.stay worker
          (fun other different => stage_setStage_ne _ different _) ?_ ?_ rfl queue rfl rfl rfl⟩
        all_goals
          rw [stage_setStage_self, scanning]
          cases tickle_me <;> rfl
      · have taken := queue fiber
        simp only [Option.any_some, isFiber, decide_true, Bool.toNat_true] at taken
        have state : s.m_state fiber ≠ .EXEC := scanQueue_state (by rw [resultEq])
        obtain ⟨here, once, spent⟩ := placed.waiting_of_queued (by omega) state
        refine ⟨_, placed.move worker fiber (.held worker)
          (fun other different => stage_setStage_ne _ different _) ?_ ?_ ?_ ?_ ?_ ?_ ?_ ?_ ?_⟩
        · intro other _
          rw [here]
          simp [Place.owner]
        · intro other there claimed
          rw [stage_setStage_self] at claimed
          cases tickle_me <;> cases claimed <;> exact ⟨rfl, rfl⟩
        · intro other unborn
          refine ⟨?_, unborn⟩
          rintro rfl
          rw [placed.created other unborn] at here
          cases here
        · intro other different
          have others := queue other
          simp only [Option.any_some, isFiber, Ne.symm different, decide_false,
            Bool.toNat_false] at others
          exact ⟨by simpa [Scheduler.setStage] using others, rfl⟩
        · simp only [Scheduler.setStage, Place.budget]
          omega
        · exact state
        · exact fun _ _ => rfl
        · intro other running
          rw [stage_setStage_self] at running
          cases tickle_me <;> cases running
        · intro other isCached
          rcases placed.cached worker other isCached with running | cachedHere
          · rw [scanning] at running
            cases running
          · refine .inr (.inr ⟨?_, cachedHere⟩)
            rintro rfl
            rw [here] at cachedHere
            cases cachedHere
      · refine ⟨place, placed.stay worker
          (fun other different => stage_setStage_ne _ different _) ?_ ?_ rfl queue rfl rfl rfl⟩
        all_goals
          rw [stage_setStage_self, scanning]
          cases tickle_me <;> rfl

/-- The fiber that a worker has in hand goes to its next place on that worker, or back to
waiting, while the queue, the wake-ups and the callback fibers stay as they are. -/
theorem advance (placed : Placed s place) {stage : Stage Fiber Callback}
    (here there : Place Worker) {state : FiberState}
    (inHand : (s.stage worker).claim worker = some (fiber, here))
    (claims : ∀ other next, stage.claim worker = some (other, next) →
      other = fiber ∧ next = there)
    (viaCb : stage.viaCb = (s.stage worker).viaCb)
    (budget : here.budget (s.m_state fiber) ≤ there.budget state) (fits : there.Fits state)
    (kept : here ≠ .cached worker) :
    ∃ places, Placed ((s.setState fiber state).setStage worker stage) places := by
  have hereEq := placed.claims worker fiber here inHand
  have spare := placed.budget fiber
  rw [hereEq] at spare
  refine ⟨_, placed.move worker fiber there
    (fun other different => stage_setStage_ne _ different _) ?_ ?_ ?_ ?_ ?_ ?_ ?_ ?_ ?_⟩
  · intro other different
    rw [hereEq, Stage.claim_owner inHand]
    simpa using Ne.symm different
  · intro other next claimed
    rw [stage_setStage_self] at claimed
    exact claims other next claimed
  · intro other unborn
    refine ⟨?_, unborn⟩
    rintro rfl
    have owner := Stage.claim_owner inHand
    rw [← hereEq, placed.created other unborn] at owner
    cases owner
  · intro other different
    exact ⟨rfl, Function.update_of_ne different ..⟩
  · have stateEq : ((s.setState fiber state).setStage worker stage).m_state fiber = state :=
      Function.update_self ..
    rw [stateEq]
    exact Nat.le_trans spare budget
  · have stateEq : ((s.setState fiber state).setStage worker stage).m_state fiber = state :=
      Function.update_self ..
    rwa [stateEq]
  · exact fun _ _ => rfl
  · intro other running
    rw [stage_setStage_self, viaCb] at running
    exact placed.viaCb worker other running
  · intro other isCached
    rw [stage_setStage_self, viaCb]
    rcases placed.cached worker other isCached with running | cachedHere
    · exact .inl running
    · refine .inr (.inr ⟨?_, cachedHere⟩)
      rintro rfl
      exact kept (hereEq.symm.trans cachedHere)

theorem swapIn (placed : Placed s place)
    (held : s.stage worker = .next (.handle (some (.fiber fiber)))) :
    ∃ places, Placed ((s.setState fiber .EXEC).setStage worker (.running fiber .working false))
      places := by
  refine placed.advance (.held worker) (.running worker .working) (by rw [held]; rfl) ?_
    (by rw [held]; rfl) (Nat.le_refl _) rfl (by simp)
  intro other next claimed
  cases claimed
  exact ⟨rfl, rfl⟩

theorem drop (placed : Placed s place)
    (held : s.stage worker = .next (.handle (some (.fiber fiber)))) :
    ∃ places, Placed (s.setStage worker (.next .scan)) places := by
  have fits := placed.fits fiber
  rw [placed.claims worker fiber (.held worker) (by rw [held]; rfl)] at fits
  have dropped : ∃ places,
      Placed ((s.setState fiber (s.m_state fiber)).setStage worker (.next .scan)) places := by
    refine placed.advance (.held worker) .waiting (by rw [held]; rfl) ?_ (by rw [held]; rfl)
      (Nat.zero_le _) fits (by simp)
    intro other next claimed
    cases claimed
  rwa [setState, Function.update_eq_self] at dropped

theorem yieldToReady (placed : Placed s place) {viaCb : Bool}
    (running : s.stage worker = .running fiber .working viaCb) :
    ∃ places, Placed
      ((s.setState fiber .READY).setStage worker (.running fiber .readying viaCb)) places := by
  refine placed.advance (.running worker .working) (.running worker .readying)
    (by rw [running]; rfl) ?_ (by rw [running]; cases viaCb <;> rfl) (Nat.le_refl _) rfl (by simp)
  intro other next claimed
  cases claimed
  exact ⟨rfl, rfl⟩

theorem finish (placed : Placed s place) {viaCb : Bool} {state : FiberState}
    (running : s.stage worker = .running fiber .working viaCb)
    (ended : state = .TERM ∨ state = .EXCEP) :
    ∃ places, Placed
      ((s.setState fiber state).setStage worker (.running fiber .ending viaCb)) places := by
  refine placed.advance (.running worker .working) (.running worker .ending)
    (by rw [running]; rfl) ?_ (by rw [running]; cases viaCb <;> rfl) (Nat.le_refl _) ended (by simp)
  intro other next claimed
  cases claimed
  exact ⟨rfl, rfl⟩

theorem swapOut (placed : Placed s place) {phase : Phase} {viaCb : Bool}
    (running : s.stage worker = .running fiber phase viaCb) :
    ∃ places, Placed (s.setStage worker (.swapped fiber viaCb)) places := by
  have inHand : (s.stage worker).claim worker = some (fiber, .running worker phase) := by
    rw [running]
    rfl
  have fits := placed.fits fiber
  rw [placed.claims worker fiber _ inHand] at fits
  have swapped : ∃ places, Placed
      ((s.setState fiber (s.m_state fiber)).setStage worker (.swapped fiber viaCb)) places := by
    refine placed.advance (.running worker phase) (.swapped worker) inHand ?_
      (by rw [running]; cases viaCb <;> rfl) ?_ trivial (by simp)
    · intro other next claimed
      cases claimed
      exact ⟨rfl, rfl⟩
    · -- only a fiber that has arranged its wake-up may already be queued, and it is in `EXEC`
      cases phase with
      | waiting =>
          rw [show s.m_state fiber = .EXEC from fits]
          exact Nat.le_refl _
      | working | readying | ending => exact Nat.zero_le _
  rwa [setState, Function.update_eq_self] at swapped

theorem wait (placed : Placed s place) {viaCb : Bool}
    (running : s.stage worker = .running fiber .working viaCb) :
    ∃ places, Placed
      ({ s with wakes := Function.update s.wakes fiber (s.wakes fiber + 1) }.setStage worker
        (.running fiber .waiting viaCb)) places := by
  have here : place fiber = .running worker .working :=
    placed.claims worker fiber _ (by rw [running]; rfl)
  have spare := placed.budget fiber
  have state := placed.fits fiber
  rw [here] at spare state
  refine ⟨_, placed.move worker fiber (.running worker .waiting)
    (fun other different => stage_setStage_ne _ different _) ?_ ?_ ?_ ?_ ?_ state
    (fun _ _ => rfl) ?_ ?_⟩
  · intro other different
    rw [here]
    simpa [Place.owner] using Ne.symm different
  · intro other next claimed
    rw [stage_setStage_self] at claimed
    cases claimed
    exact ⟨rfl, rfl⟩
  · intro other unborn
    refine ⟨?_, unborn⟩
    rintro rfl
    rw [placed.created other unborn] at here
    cases here
  · intro other different
    simp [Scheduler.setStage, Function.update_of_ne different]
  · simp only [Scheduler.setStage, Function.update_self]
    simp only [Place.budget] at spare ⊢
    omega
  · intro other runs
    rw [stage_setStage_self] at runs
    refine placed.viaCb worker other ?_
    rw [running]
    cases viaCb <;> exact runs
  · intro other isCached
    rw [stage_setStage_self]
    rcases placed.cached worker other isCached with runs | cachedHere
    · left
      rw [running] at runs
      cases viaCb <;> exact runs
    · refine .inr (.inr ⟨?_, cachedHere⟩)
      rintro rfl
      rw [here] at cachedHere
      cases cachedHere

/-- A callback starts on a fiber that only this worker has: its cached one or a new one. -/
theorem startCb (placed : Placed s place)
    (own : place fiber = .cached worker ∨ place fiber = .unborn ∧ s.cb_fiber worker = none)
    (stages : ∀ other, other ≠ worker → next.stage other = s.stage other)
    (stage : next.stage worker = .running fiber .working true)
    (created : ∀ other, next.created other = false → other ≠ fiber ∧ s.created other = false)
    (queue : next.m_fibers = s.m_fibers)
    (wakes : next.wakes = s.wakes) (state : next.m_state = Function.update s.m_state fiber .EXEC)
    (cbFibers : next.cb_fiber = Function.update s.cb_fiber worker (some fiber)) :
    ∃ places, Placed next places := by
  have spare : queued s.m_fibers fiber + s.wakes fiber ≤ 0 := by
    have budget := placed.budget fiber
    rcases own with here | ⟨here, -⟩ <;> rwa [here] at budget
  refine ⟨_, placed.move worker fiber (.running worker .working) stages ?_ ?_ created ?_ ?_ ?_
    ?_ ?_ ?_⟩
  · intro other different
    rcases own with here | ⟨here, -⟩ <;> rw [here]
    · simpa [Place.owner] using Ne.symm different
    · simp [Place.owner]
  · intro other there claimed
    rw [stage] at claimed
    cases claimed
    exact ⟨rfl, rfl⟩
  · intro other different
    rw [queue, wakes, state]
    exact ⟨rfl, Function.update_of_ne different ..⟩
  · rw [queue, wakes]
    exact Nat.le_trans spare (Nat.zero_le _)
  · rw [state, Function.update_self]
    rfl
  · intro other different
    rw [cbFibers, Function.update_of_ne different]
  · intro other runs
    rw [stage] at runs
    cases runs
    rw [cbFibers, Function.update_self]
  · intro other isCached
    rw [cbFibers, Function.update_self] at isCached
    cases isCached
    left
    rw [stage]
    rfl

theorem swapInCb (placed : Placed s place) {cb : Callback}
    (handling : s.stage worker = .next (.handle (some (.cb cb))))
    (cached : s.cb_fiber worker = some fiber) :
    ∃ places, Placed ((s.setState fiber .EXEC).setStage worker (.running fiber .working true))
      places := by
  have here : place fiber = .cached worker := by
    rcases placed.cached worker fiber cached with runs | here
    · rw [handling] at runs
      cases runs
    · exact here
  refine placed.startCb (.inl here) (fun other different => stage_setStage_ne _ different _)
    (stage_setStage_self ..) ?_ rfl rfl rfl ?_
  · intro other unborn
    refine ⟨?_, unborn⟩
    rintro rfl
    rw [placed.created other unborn] at here
    cases here
  · rw [← cached, Function.update_eq_self]
    rfl

theorem swapInNew (placed : Placed s place)
    (none : s.cb_fiber worker = none) (unborn : s.created fiber = false) :
    ∃ places, Placed
      ((((s.construct fiber 0).setState fiber .EXEC).setCbFiber worker (some fiber)).setStage
        worker (.running fiber .working true)) places := by
  have here := placed.created fiber unborn
  have spare := placed.budget fiber
  rw [here, Place.budget] at spare
  · refine placed.startCb (.inr ⟨here, none⟩)
      (fun other different => stage_setStage_ne _ different _) (stage_setStage_self ..) ?_ rfl ?_
      ?_ rfl
    · intro other isUnborn
      have different : other ≠ fiber := by
        rintro rfl
        simp [Scheduler.setStage, setCbFiber, setState, construct] at isUnborn
      simp only [Scheduler.setStage, setCbFiber, setState, construct,
        Function.update_of_ne different] at isUnborn
      exact ⟨different, isUnborn⟩
    · have spent : s.wakes fiber = 0 := by omega
      simp only [Scheduler.setStage, setCbFiber, setState, construct]
      rw [← spent, Function.update_eq_self]
    · simp only [Scheduler.setStage, setCbFiber, setState, construct, Function.update_idem]
  all_goals simp

/-- A fiber that has swapped out leaves its worker: it waits again, or it stays cached as
the worker's callback fiber. -/
theorem release (placed : Placed s place) {viaCb : Bool} (there : Place Worker)
    (swapped : s.stage worker = .swapped fiber viaCb)
    (stages : ∀ other, other ≠ worker → next.stage other = s.stage other)
    (stage : next.stage worker = .next .scan ∨ next.stage worker = .tickling .scan)
    (created : next.created = s.created)
    (others : ∀ other, other ≠ fiber →
      queued next.m_fibers other + next.wakes other = queued s.m_fibers other + s.wakes other ∧
        next.m_state other = s.m_state other)
    (budget : queued next.m_fibers fiber + next.wakes fiber ≤ there.budget (next.m_state fiber))
    (fits : there.Fits (next.m_state fiber))
    (cbFibers : ∀ other, other ≠ worker → next.cb_fiber other = s.cb_fiber other)
    (cbFiber : next.cb_fiber worker = (if viaCb then none else s.cb_fiber worker) ∨
      next.cb_fiber worker = s.cb_fiber worker ∧ there = .cached worker) :
    ∃ places, Placed next places := by
  have here : place fiber = .swapped worker :=
    placed.claims worker fiber _ (by rw [swapped]; rfl)
  have idle : (next.stage worker).claim worker = none ∧ (next.stage worker).viaCb = none := by
    rcases stage with stage | stage <;> rw [stage] <;> exact ⟨rfl, rfl⟩
  refine ⟨_, placed.move worker fiber there stages ?_ ?_ ?_ others budget fits cbFibers ?_ ?_⟩
  · intro other different
    rw [here]
    simpa [Place.owner] using Ne.symm different
  · intro other next claimed
    rw [idle.1] at claimed
    cases claimed
  · intro other unborn
    rw [created] at unborn
    refine ⟨?_, unborn⟩
    rintro rfl
    rw [placed.created other unborn] at here
    cases here
  · intro other runs
    rw [idle.2] at runs
    cases runs
  · intro other isCached
    have before : s.cb_fiber worker = some other := by
      rcases cbFiber with dropped | ⟨same, -⟩
      · rw [isCached] at dropped
        cases viaCb
        · exact dropped.symm
        · cases dropped
      · rw [← same, isCached]
    rcases placed.cached worker other before with runs | cachedHere
    · -- the callback fiber is the one that has just swapped out
      rw [swapped] at runs
      cases viaCb
      · cases runs
      · cases runs
        rcases cbFiber with dropped | ⟨-, cached⟩
        · rw [isCached] at dropped
          cases dropped
        · exact .inr (.inl ⟨rfl, cached⟩)
    · refine .inr (.inr ⟨?_, cachedHere⟩)
      rintro rfl
      rw [here] at cachedHere
      cases cachedHere

theorem reschedule (placed : Placed s place) {viaCb : Bool}
    (swapped : s.stage worker = .swapped fiber viaCb) (ready : s.m_state fiber = .READY) :
    ∃ places, Placed (s.reschedule worker fiber viaCb) places := by
  have spare := placed.budget fiber
  rw [placed.claims worker fiber (.swapped worker) (by rw [swapped]; rfl), Place.budget, ready,
    if_neg (by decide)] at spare
  have counts (other : Fiber) := queued_scheduleNolock s.m_fibers
    (some (.fiber fiber : Task Fiber Callback)) .any other
  refine placed.release .waiting swapped (fun other different => ?_) ?_ ?_
    (fun other different => ?_) ?_ ?_ (fun other different => ?_) (.inl ?_)
  · cases viaCb <;> simp [Scheduler.reschedule, stage_setStage_ne _ different, setCbFiber]
  · simp only [Scheduler.reschedule, stage_setStage_self]
    split
    · exact .inr rfl
    · exact .inl rfl
  · cases viaCb <;> rfl
  · have count := counts other
    simp only [Option.any_some, isFiber, Ne.symm different, decide_false,
      Bool.toNat_false] at count
    cases viaCb <;> simp [Scheduler.reschedule, Scheduler.setStage, setCbFiber, count]
  · have count := counts fiber
    simp only [Option.any_some, isFiber, decide_true, Bool.toNat_true] at count
    cases viaCb <;>
      simp only [Scheduler.reschedule, Scheduler.setStage, setCbFiber, Place.budget, if_true,
        Bool.false_eq_true, if_false] <;> omega
  · have fits : s.m_state fiber ≠ .EXEC := by simp [ready]
    cases viaCb <;> exact fits
  · cases viaCb
    · rfl
    · exact Function.update_of_ne different ..
  · cases viaCb
    · rfl
    · exact Function.update_self ..

theorem retire (placed : Placed s place) {viaCb : Bool}
    (swapped : s.stage worker = .swapped fiber viaCb)
    (ended : s.m_state fiber = .TERM ∨ s.m_state fiber = .EXCEP) :
    ∃ places, Placed (s.retire worker fiber viaCb) places := by
  have notExec : s.m_state fiber ≠ .EXEC := by rcases ended with ended | ended <;> simp [ended]
  have spare := placed.budget fiber
  rw [placed.claims worker fiber (.swapped worker) (by rw [swapped]; rfl), Place.budget,
    if_neg notExec] at spare
  cases viaCb with
  | false =>
      exact placed.release .waiting swapped
        (fun other different => stage_setStage_ne _ different _) (.inl (stage_setStage_self ..))
        rfl (fun _ _ => ⟨rfl, rfl⟩) (Nat.le_trans spare (Nat.zero_le _)) notExec
        (fun _ _ => rfl) (.inl rfl)
  | true =>
      have state : (s.retire worker fiber true).m_state fiber = .INIT := Function.update_self ..
      exact placed.release (.cached worker) swapped
        (fun other different => stage_setStage_ne _ different _) (.inl (stage_setStage_self ..))
        rfl (fun _ different => ⟨rfl, Function.update_of_ne different ..⟩) spare state
        (fun _ _ => rfl) (.inr ⟨rfl, rfl⟩)

theorem hold (placed : Placed s place) {viaCb : Bool}
    (swapped : s.stage worker = .swapped fiber viaCb) :
    ∃ places, Placed (s.hold worker fiber viaCb) places := by
  have spare : queued s.m_fibers fiber + s.wakes fiber ≤ 1 := by
    have budget := placed.budget fiber
    rw [placed.claims worker fiber (.swapped worker) (by rw [swapped]; rfl), Place.budget] at budget
    split at budget
    · exact budget
    · exact Nat.le_trans budget (Nat.zero_le _)
  have state : (s.hold worker fiber viaCb).m_state fiber = .HOLD := by
    cases viaCb <;> exact Function.update_self ..
  refine placed.release .waiting swapped
    (fun other different => ?_) (.inl (stage_setStage_self ..)) ?_
    (fun _ different => ?_) ?_ ?_ (fun other different => ?_) (.inl ?_)
  · cases viaCb <;> exact stage_setStage_ne _ different _
  · cases viaCb <;> rfl
  · cases viaCb <;> exact ⟨rfl, Function.update_of_ne different ..⟩
  · cases viaCb <;> exact spare
  · rw [state]
    simp [Place.Fits]
  · cases viaCb
    · rfl
    · exact Function.update_of_ne different ..
  · cases viaCb
    · rfl
    · exact Function.update_self ..

theorem update (placed : Placed s place) {viaCb : Bool}
    (swapped : s.stage worker = .swapped fiber viaCb) :
    ∃ places, Placed (s.update worker fiber viaCb) places := by
  have counted := placed.counters (s.m_activeThreadCount - 1) s.m_idleThreadCount s.tickleFd
    s.ticklers s.writers
  simp only [Scheduler.update]
  split
  next ready => exact counted.reschedule swapped ready
  next ended => exact counted.retire swapped (.inl ended)
  next ended => exact counted.retire swapped (.inr ended)
  next => exact counted.hold swapped

end Placed

/-- The step lemma: every step leaves each fiber in one place. -/
theorem placed_step {s next : Scheduler Worker Fiber Callback} {place : Fiber → Place Worker}
    {label : Label Worker Fiber Callback} [DecidableEq Worker] (placed : Placed s place)
    (stepped : Step s label next) : ∃ places, Placed next places := by
  cases stepped with
  | create fiber unborn => exact ⟨_, placed.create unborn⟩
  | schedule fc thread due => exact ⟨_, placed.schedule fc thread due⟩
  | scheduleRange cbs => exact ⟨_, placed.scheduleRange cbs⟩
  | tickle => exact ⟨_, placed.counters ..⟩
  | write => exact ⟨_, placed.counters ..⟩
  | scan worker scanning => exact placed.scan scanning
  | workerTickle worker tickling =>
      rename_i after
      refine ⟨_, placed.setStage ?_ ?_⟩
      all_goals
        rw [tickling]
        split <;> rcases after with _ | _ | fiber | cb <;> rfl
  | workerWrite worker writing =>
      rename_i after
      refine ⟨_, (placed.counters _ _ _ _ _).setStage ?_ ?_⟩
      all_goals
        rw [show _ = _ from writing]
        rcases after with _ | _ | fiber | cb <;> rfl
  | swapIn worker held => exact placed.swapIn held
  | drop worker held => exact placed.drop held
  | swapInCb worker handling cached => exact placed.swapInCb handling cached
  | swapInNew worker fiber handling none unborn => exact placed.swapInNew none unborn
  | enter worker nothing =>
      exact ⟨_, (placed.counters ..).setStage (by rw [show _ = _ from nothing]; rfl)
        (by rw [show _ = _ from nothing]; rfl)⟩
  | idle worker entered =>
      exact ⟨_, placed.setStage (by rw [entered]; rfl) (by rw [entered]; rfl)⟩
  | epollWait worker idling =>
      exact ⟨_, placed.setStage (by rw [idling]; rfl) (by rw [idling]; rfl)⟩
  | wake worker tickled blocked =>
      exact ⟨_, placed.setStage (by rw [blocked]; rfl) (by rw [blocked]; rfl)⟩
  | drain worker woken =>
      exact ⟨_, (placed.counters ..).setStage (by rw [show _ = _ from woken]; rfl)
        (by rw [show _ = _ from woken]; rfl)⟩
  | leave worker woken =>
      exact ⟨_, placed.setStage (by rw [woken]; rfl) (by rw [woken]; rfl)⟩
  | resume worker left =>
      exact ⟨_, (placed.counters ..).setStage (by rw [show _ = _ from left]; rfl)
        (by rw [show _ = _ from left]; rfl)⟩
  | wait worker running => exact placed.wait running
  | yieldToReady worker running => exact placed.yieldToReady running
  | finish worker state running ended => exact placed.finish running ended
  | swapOut worker running => exact placed.swapOut running
  | update worker swapped => exact placed.update swapped

theorem exists_placed [DecidableEq Worker] {s : Scheduler Worker Fiber Callback}
    (reached : (scheduling Worker Fiber Callback).Reachable s) : ∃ place, Placed s place := by
  refine reached.invariant (fun s => ∃ place, Placed s place) ?_ ?_
  · rintro s rfl
    exact ⟨_, Placed.start⟩
  · rintro s label next - ⟨place, placed⟩ - stepped
    exact placed_step placed stepped

namespace Placed

variable {s : Scheduler Worker Fiber Callback} {place : Fiber → Place Worker}

theorem of_current (placed : Placed s place) {worker : Worker} {fiber : Fiber}
    (runs : (s.stage worker).current = some fiber) :
    (∃ phase, place fiber = .running worker phase) ∨ place fiber = .swapped worker := by
  rcases Stage.claim_of_current worker runs with ⟨phase, claims⟩ | claims
  · exact .inl ⟨phase, placed.claims worker fiber _ claims⟩
  · exact .inr (placed.claims worker fiber _ claims)

/-- A fiber that is neither running nor swapping out anywhere may be swapped in. -/
theorem free (placed : Placed s place) {worker : Worker} {fiber : Fiber}
    (here : place fiber = .held worker ∨ place fiber = .cached worker) :
    s.m_state fiber ≠ .EXEC ∧ ∀ other, (s.stage other).current ≠ some fiber := by
  constructor
  · have fits := placed.fits fiber
    rcases here with here | here <;> rw [here] at fits
    · exact fits
    · rw [show s.m_state fiber = .INIT from fits]
      decide
  · intro other runs
    rcases placed.of_current runs with ⟨phase, there⟩ | there <;>
      rcases here with here | here <;> rw [here] at there <;> cases there

end Placed

/-- In every run a fiber is on at most one worker; a worker that is about to swap a fiber
in, from the queue or as its callback fiber, finds it on no worker and not in state
`EXEC`; and a fiber on the way to `YieldToHold` is in state `EXEC`. -/
theorem exclusive [DecidableEq Worker] {s : Scheduler Worker Fiber Callback}
    (reached : (scheduling Worker Fiber Callback).Reachable s) :
    (∀ worker other fiber, (s.stage worker).current = some fiber →
      (s.stage other).current = some fiber → worker = other) ∧
    (∀ worker fiber, s.stage worker = .next (.handle (some (.fiber fiber))) →
      s.m_state fiber ≠ .EXEC ∧ ∀ other, (s.stage other).current ≠ some fiber) ∧
    (∀ worker cb fiber, s.stage worker = .next (.handle (some (.cb cb))) →
      s.cb_fiber worker = some fiber →
      s.m_state fiber ≠ .EXEC ∧ ∀ other, (s.stage other).current ≠ some fiber) ∧
    ∀ worker fiber phase viaCb, s.stage worker = .running fiber phase viaCb →
      phase = .working ∨ phase = .waiting → s.m_state fiber = .EXEC := by
  obtain ⟨place, placed⟩ := exists_placed reached
  refine ⟨fun worker other fiber runs runsToo => ?_, fun worker fiber held => ?_,
    fun worker cb fiber handling cached => ?_, fun worker fiber phase viaCb running onTheWay => ?_⟩
  · rcases placed.of_current runs with ⟨phase, here⟩ | here <;>
      rcases placed.of_current runsToo with ⟨_, there⟩ | there <;>
        rw [here] at there <;> cases there <;> rfl
  · exact placed.free (.inl (placed.claims worker fiber _ (by rw [held]; rfl)))
  · rcases placed.cached worker fiber cached with runs | here
    · rw [handling] at runs
      cases runs
    · exact placed.free (.inr here)
  · have fits := placed.fits fiber
    rw [placed.claims worker fiber (.running worker phase) (by rw [running]; rfl)] at fits
    rcases onTheWay with rfl | rfl <;> exact fits

/-- One worker that has taken a newly scheduled fiber from the queue. -/
theorem exclusive_taken :
    ∃ s : Scheduler Unit Unit Unit, (scheduling Unit Unit Unit).Reachable s ∧
      s.stage () = .next (.handle (some (.fiber ()))) ∧ s.m_state () ≠ .EXEC := by
  have created : (scheduling Unit Unit Unit).Reachable _ :=
    .step (.initial rfl) trivial (.create () rfl)
  have scheduled : (scheduling Unit Unit Unit).Reachable _ :=
    .step created trivial (.schedule (some (.fiber ())) .any fun _ _ => Nat.one_pos)
  have scanned : (scheduling Unit Unit Unit).Reachable _ :=
    .step scheduled trivial (.scan () rfl)
  exact ⟨_, scanned, rfl, ((exclusive scanned).2.1 () () rfl).1⟩

end Exhy.Scheduler
