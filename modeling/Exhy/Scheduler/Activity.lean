import Exhy.Library.Count
import Exhy.Scheduler.Lifecycle

/-!
# The count of active workers

`m_activeThreadCount` goes up with every entry that a worker takes and down when the fiber
that the entry was run on has swapped out.  A finished fiber that is taken from the queue
is not run, and no branch of `run` takes its increment back.
-/

namespace Exhy.Lifecycle

open IOManager (Task)
open Library Scheduler

variable {Worker Fiber Callback : Type}

/-- The worker has dequeued an entry and not finished handling it: the task is in its hand,
running, or has swapped out and the worker has not come to its decrement. -/
def handling (s : Lifecycle Worker Fiber Callback) (worker : Worker) : Bool :=
  (s.core.stage worker).handles && !s.settling worker

theorem handling_swapped {s : Lifecycle Worker Fiber Callback} {worker : Worker}
    {fiber : Fiber} {viaCb : Bool} (swapped : s.core.stage worker = .swapped fiber viaCb) :
    s.handling worker = !s.settling worker := by
  simp [handling, swapped, Stage.handles, Stage.hand, Stage.current]

variable [Fintype Worker]

/-- The count is right up to the finished fibers that were dequeued, and a worker is between
its two steps only when a fiber has swapped out on it. -/
structure Counted (s : Lifecycle Worker Fiber Callback) : Prop where
  count : s.core.m_activeThreadCount = countWhere id s.handling + s.dropped
  settling : ∀ worker, s.settling worker = true →
    ∃ fiber viaCb, s.core.stage worker = .swapped fiber viaCb

namespace Counted

variable [DecidableEq Worker] {s next : Lifecycle Worker Fiber Callback} {worker : Worker}

omit [DecidableEq Worker] in
/-- A step that leaves the workers and the count alone. -/
theorem same (counted : s.Counted) (stage : next.core.stage = s.core.stage)
    (settling : next.settling = s.settling)
    (active : next.core.m_activeThreadCount = s.core.m_activeThreadCount)
    (dropped : next.dropped = s.dropped) : next.Counted where
  count := by
    have handling : next.handling = s.handling := by
      funext worker
      rw [Lifecycle.handling, stage, settling]
      rfl
    rw [active, dropped, handling]
    exact counted.count
  settling := by
    rw [stage, settling]
    exact counted.settling

/-- A step of one worker moves the count by what that worker handles before and after. -/
theorem move (counted : s.Counted) (worker : Worker)
    (others : ∀ other, other ≠ worker → next.core.stage other = s.core.stage other)
    (settles : ∀ other, other ≠ worker → next.settling other = s.settling other)
    (balance : next.core.m_activeThreadCount + (s.handling worker).toNat + s.dropped =
      s.core.m_activeThreadCount + (next.handling worker).toNat + next.dropped)
    (settling : next.settling worker = true →
      ∃ fiber viaCb, next.core.stage worker = .swapped fiber viaCb) : next.Counted where
  count := by
    have moved := countWhere_update id s.handling worker (next.handling worker)
    have handling : Function.update s.handling worker (next.handling worker) = next.handling := by
      funext other
      by_cases same : other = worker
      · subst same
        exact Function.update_self ..
      · rw [Function.update_of_ne same]
        simp only [Lifecycle.handling, others other same, settles other same]
    rw [handling] at moved
    have count := counted.count
    simp only [id] at moved
    omega
  settling other settlesNow := by
    by_cases same : other = worker
    · subst same
      exact settling settlesNow
    · rw [others other same]
      rw [settles other same] at settlesNow
      exact counted.settling other settlesNow

omit [DecidableEq Worker] in
/-- A worker whose fiber has not swapped out is not settling. -/
theorem not_settling (counted : s.Counted)
    (inside : ∀ fiber viaCb, s.core.stage worker ≠ .swapped fiber viaCb) :
    s.settling worker = false := by
  rw [← Bool.not_eq_true]
  intro settles
  obtain ⟨fiber, viaCb, swapped⟩ := counted.settling worker settles
  exact inside fiber viaCb swapped

/-- A step of a worker that does not settle before or after it, and that keeps the entry it
handles. -/
theorem carry (counted : s.Counted) (worker : Worker)
    (inside : ∀ fiber viaCb, s.core.stage worker ≠ .swapped fiber viaCb)
    (others : ∀ other, other ≠ worker → next.core.stage other = s.core.stage other)
    (settling : next.settling = s.settling)
    (balance : next.core.m_activeThreadCount + (s.core.stage worker).handles.toNat + s.dropped =
      s.core.m_activeThreadCount + (next.core.stage worker).handles.toNat + next.dropped) :
    next.Counted := by
  have before := counted.not_settling inside
  refine counted.move worker others (fun _ _ => congrFun settling _) ?_ ?_
  · simp only [handling, settling, before, Bool.not_false, Bool.and_true]
    exact balance
  · rw [settling, before]
    nofun

theorem quiet (counted : s.Counted) {core : Scheduler Worker Fiber Callback}
    (quiet : Quiet s.core core worker) : Counted { s with core := core } := by
  refine counted.carry worker quiet.inside quiet.others rfl ?_
  simp only [Stage.handles, quiet.active, quiet.hand, quiet.current]

theorem scan (counted : s.Counted) (scanning : s.core.stage worker = .next .scan)
    (ftThread : Worker → ThreadId Worker) :
    Counted { s with core := s.core.scan worker, ftThread := ftThread } := by
  obtain ⟨-, active, hand, current⟩ := s.core.scan_spec worker
  refine counted.carry worker (by simp [scanning])
    (fun other different => stage_setStage_ne _ different _) rfl ?_
  simp only [active, Stage.handles, hand, current, scanning, Option.isSome_map]
  simp [Stage.hand, Stage.current]

theorem update (counted : s.Counted) {fiber : Fiber} {viaCb : Bool}
    (swapped : s.core.stage worker = .swapped fiber viaCb) (pending : s.settling worker = false) :
    Counted { s with
      core := { s.core with m_activeThreadCount := s.core.m_activeThreadCount - 1 }
      settling := Function.update s.settling worker true } := by
  have before : s.handling worker = true := by
    rw [handling_swapped swapped, pending]
    rfl
  have counts : 0 < countWhere id s.handling := countWhere_pos before
  have count := counted.count
  refine counted.move worker (fun _ _ => rfl) (fun _ different => Function.update_of_ne different ..)
    ?_ fun _ => ⟨fiber, viaCb, swapped⟩
  rw [before]
  simp only [handling, Function.update_self, Bool.not_true, Bool.and_false, Bool.toNat_false,
    Bool.toNat_true]
  omega

theorem settle [DecidableEq Fiber] (counted : s.Counted) {fiber : Fiber} {viaCb : Bool}
    (swapped : s.core.stage worker = .swapped fiber viaCb) (settles : s.settling worker = true) :
    Counted { s with
      core := s.core.settle worker fiber viaCb
      settling := Function.update s.settling worker false } := by
  have spec := s.core.settle_spec worker fiber viaCb
  refine counted.move worker spec.others (fun _ different => Function.update_of_ne different ..) ?_ ?_
  · rw [handling_swapped swapped, settles, spec.active]
    have after : ((s.core.settle worker fiber viaCb).stage worker).handles = false := by
      rcases spec.stage with stage | stage <;> rw [stage] <;> rfl
    simp [handling, after]
  · intro again
    have cleared : Function.update s.settling worker false worker = false := Function.update_self ..
    cases cleared.symm.trans again

end Counted

variable [DecidableEq Worker] [DecidableEq Fiber] {root : Option Worker}
  {s next : Lifecycle Worker Fiber Callback}

/-- The step lemma: every step keeps the count. -/
theorem Counted.step {label : Label Worker Fiber Callback} (counted : s.Counted)
    (stepped : Step root s label next) : next.Counted := by
  cases stepped with
  | schedule caller fc thread =>
      refine counted.same rfl ?_ rfl ?_
      all_goals
        rcases fc with _ | fiber | cb <;> rfl
  | create | scheduleRange | tickle | write | stopCall | stopEarly | stopAtOnce | stopFlag
  | stopTickle | stopWrite | stopNoRoot | stopTest | stopCallRoot | stopBack | exit =>
      exact counted.same rfl rfl rfl rfl
  | quiet worker move inside isQuiet notEnded moved => exact counted.quiet (.of_step isQuiet moved)
  | scan worker inside scanning => exact counted.scan scanning _
  | swapIn worker inside held | drop worker inside held | swapInCb worker inside held
  | swapInNew worker fiber inside held | finish worker state inside held
  | endIdle worker inside held =>
      refine counted.carry worker (by simp [held])
        (fun other different => stage_setStage_ne _ different _) rfl ?_
      simp only [stage_setStage_self, held]
      simp [Stage.handles, Stage.hand, Stage.current, begin, Scheduler.setStage, setState, setCbFiber,
        construct]
      try omega
  | update worker inside swapped pending => exact counted.update swapped pending
  | settle worker inside swapped settles => exact counted.settle swapped settles

omit [DecidableEq Fiber] in
theorem Counted.start : Counted (Lifecycle.start root : Lifecycle Worker Fiber Callback) where
  count := (countWhere_eq_zero fun _ => rfl).symm
  settling := nofun

/-- In every run the count is the number of workers that are handling an entry, and one for
each finished fiber that was dequeued. -/
theorem exists_counted {allowed : Lifecycle Worker Fiber Callback →
    Label Worker Fiber Callback → Prop}
    (reached : (lifecycle Worker Fiber Callback root).Reaches allowed s) : s.Counted := by
  refine reached.invariant Counted ?_ fun _ _ _ _ counted _ stepped => counted.step stepped
  rintro s rfl
  exact Counted.start

/-- A worker that is about to run the fiber it has taken from the queue finds it unfinished. -/
def Live (s : Lifecycle Worker Fiber Callback) : Label Worker Fiber Callback → Prop
  | .worker worker _ => ∀ fiber, s.core.stage worker = .next (.handle (some (.fiber fiber))) →
      s.finished fiber = false
  | _ => True

theorem dropped_eq_zero
    (reached : (lifecycle Worker Fiber Callback root).Reaches Live s) : s.dropped = 0 := by
  refine reached.invariant (fun s => s.dropped = 0) ?_ ?_
  · rintro s rfl
    rfl
  · intro s label next _ none live stepped
    cases stepped with
    | schedule caller fc thread => rcases fc with _ | fiber | cb <;> exact none
    | drop worker inside held ended =>
        rw [live _ held] at ended
        cases ended
    | _ => exact none

/-- In the runs in which no finished fiber is dequeued, `m_activeThreadCount` is the number
of workers that are handling an entry; with an empty queue and no worker handling one it is
zero, and `stopping()` says what `stop()` has set. -/
theorem active_counted (reached : (lifecycle Worker Fiber Callback root).Reaches Live s) :
    s.core.m_activeThreadCount = countWhere id s.handling ∧
      (s.core.m_fibers = [] → (∀ worker, s.handling worker = false) →
        s.core.m_activeThreadCount = 0 ∧ s.stopping = (s.m_autoStop && s.m_stopping)) := by
  have count : s.core.m_activeThreadCount = countWhere id s.handling := by
    have counted := (exists_counted reached).count
    rwa [dropped_eq_zero reached] at counted
  refine ⟨count, fun empty nobody => ?_⟩
  have zero : s.core.m_activeThreadCount = 0 := count.trans (countWhere_eq_zero nobody)
  refine ⟨zero, ?_⟩
  simp [stopping, empty, zero]

/-- A worker that has taken a callback. -/
theorem active_counted_taken :
    ∃ s : Lifecycle Unit Unit Unit, s.core.stage () = .next (.handle (some (.cb ()))) ∧
      s.core.m_activeThreadCount = countWhere id s.handling := by
  have scheduled : (lifecycle Unit Unit Unit none).Reaches Live _ :=
    .step (.initial rfl) (by exact trivial) (.schedule none (some (.cb ())) .any trivial nofun)
  have scanned : (lifecycle Unit Unit Unit none).Reaches Live _ :=
    .step scheduled (by exact fun fiber held => nomatch held) (.scan () rfl rfl)
  exact ⟨_, rfl, (active_counted scanned).1⟩

/-- A fiber that is scheduled twice and ends in its first run: the second entry is dropped,
and `stop()` waits in vain. -/
theorem active_overcounted :
    ∃ s : Lifecycle Unit Unit Unit, (lifecycle Unit Unit Unit none).Reachable s ∧
      s.core.m_fibers = [] ∧ (∀ worker, s.handling worker = false) ∧
      s.core.m_activeThreadCount = 1 ∧ s.m_autoStop = true ∧ s.m_stopping = true ∧
      s.stopping = false := by
  have created : (lifecycle Unit Unit Unit none).Reachable _ :=
    .step (.initial rfl) trivial (.create () rfl)
  have once : (lifecycle Unit Unit Unit none).Reachable _ :=
    .step created trivial (.schedule none (some (.fiber ())) .any trivial fun _ _ => rfl)
  have twice : (lifecycle Unit Unit Unit none).Reachable _ :=
    .step once trivial (.schedule none (some (.fiber ())) .any trivial fun _ _ => rfl)
  have taken : (lifecycle Unit Unit Unit none).Reachable _ := .step twice trivial (.scan () rfl rfl)
  have tickled : (lifecycle Unit Unit Unit none).Reachable _ :=
    .step taken trivial (.quiet () .tickle rfl rfl nofun (.workerTickle () rfl))
  have running : (lifecycle Unit Unit Unit none).Reachable _ :=
    .step tickled trivial (.swapIn () rfl rfl rfl (by decide))
  have ended : (lifecycle Unit Unit Unit none).Reachable _ :=
    .step running trivial (.finish () .TERM rfl rfl (.inl rfl))
  have swapped : (lifecycle Unit Unit Unit none).Reachable _ :=
    .step ended trivial (.quiet () .swapOut rfl rfl nofun (.swapOut () rfl (by decide)))
  have updated : (lifecycle Unit Unit Unit none).Reachable _ :=
    .step swapped trivial (.update () rfl rfl rfl)
  have settled : (lifecycle Unit Unit Unit none).Reachable _ :=
    .step updated trivial (.settle () rfl rfl rfl)
  have takenAgain : (lifecycle Unit Unit Unit none).Reachable _ :=
    .step settled trivial (.scan () rfl rfl)
  have droppedIt : (lifecycle Unit Unit Unit none).Reachable _ :=
    .step takenAgain trivial (.drop () rfl rfl rfl)
  have stopCalled : (lifecycle Unit Unit Unit none).Reachable _ :=
    .step droppedIt trivial (.stopCall (.inl rfl))
  have flagged : (lifecycle Unit Unit Unit none).Reachable _ :=
    .step stopCalled trivial (.stopFlag (.inl ⟨rfl, not_rootOnly_none _⟩))
  exact ⟨_, flagged, rfl, fun _ => rfl, rfl, rfl, rfl, rfl⟩

end Exhy.Lifecycle
