import Exhy.Library.Transition
import Exhy.Timer.Order
import Mathlib.Algebra.Group.Int.Defs

/-!
# Wake-ups for timers

The workers inside `IOManager::idle`, the threads that insert timers, and the pipe between
them.  A front insertion tickles only while `m_tickled` is clear, and `m_tickled` is
cleared only by `getNextTimer`; a worker that has drained the byte and leaves `idle` for a
task takes the wake-up with it.  In the runs in which no leaving worker was the last one to
watch the earliest deadline, the blocked workers are in time for every timer.
-/

namespace Exhy

open Library

/-- `(int)x` for an unsigned 64-bit `x`: its low 32 bits as a signed number. -/
def castInt (x : UInt64) : Int :=
  if x.toNat % 2 ^ 32 < 2 ^ 31 then (x.toNat % 2 ^ 32 : Nat)
  else ((x.toNat % 2 ^ 32 : Nat) : Int) - 2 ^ 32

/-- The last argument of `epoll_wait` in `idle`, for a delay that `getNextTimer` returned. -/
def epollTimeout (next_timeout : UInt64) : Int :=
  if next_timeout ≠ 0xFFFFFFFFFFFFFFFF then
    castInt (if castInt next_timeout > 3000 then 3000 else next_timeout)
  else 3000

namespace TimerWakeup

/-- Until when `epoll_wait` blocks: not at all for a timeout of zero, for ever for a
negative one. -/
inductive Wait where
  | poll
  | until (time : Nat)
  | never
  deriving DecidableEq, Repr

def Wait.ofDelay (now_ms : UInt64) (delay : UInt64) : Wait :=
  let timeout := epollTimeout delay
  if timeout < 0 then .never
  else if timeout = 0 then .poll
  else .until (now_ms.toNat + timeout.toNat)

/-- A worker that runs a task, or its place in `idle`: before `getNextTimer`, before
`epoll_wait`, blocked, and with the events in hand before and after `listExpiredCb`.  The
flag says whether the pipe was among the events and has not been drained yet. -/
inductive Stage where
  | away
  | top
  | ready (wait : Wait)
  | blocked (wait : Wait)
  | woken (tickled : Bool)
  | expired (tickled : Bool)
  deriving DecidableEq, Repr

namespace Stage

/-- The worker is inside `idle` and not blocked. -/
def inside : Stage → Bool
  | .away | .blocked _ => false
  | _ => true

/-- The worker is inside `idle` and will not block before it calls `getNextTimer` again. -/
def alert : Stage → Bool
  | .top | .ready .poll | .woken _ | .expired _ => true
  | _ => false

/-- The worker blocks, or is about to, for a time it has computed. -/
def waiting : Stage → Bool
  | .ready _ | .blocked _ => true
  | _ => false

/-- The worker wakes up by the deadline. -/
def Due (stage : Stage) (deadline : UInt64) : Prop :=
  ∃ time, (stage = .ready (.until time) ∨ stage = .blocked (.until time)) ∧
    time ≤ deadline.toNat

theorem inside_of_alert {stage : Stage} (isAlert : stage.alert = true) : stage.inside = true := by
  unfold alert at isAlert
  split at isAlert
  · rfl
  · rfl
  · rfl
  · rfl
  · cases isAlert

end Stage

/-- The state: `ticklers` and `writers` count the threads inside `onTimerInsertedAtFront`,
before the test and before the write of `tickle()`. -/
structure State (Worker Ref Callback : Type) where
  manager : TimerManager Ref Callback
  clock : UInt64
  stage : Worker → Stage
  tickleFd : Nat
  ticklers : Nat
  writers : Nat

variable {Worker Ref Callback : Type} [DecidableEq Worker] [LinearOrder Ref]

namespace State

def setStage (s : State Worker Ref Callback) (worker : Worker) (stage : Stage) :
    State Worker Ref Callback :=
  { s with stage := Function.update s.stage worker stage }

/-- The manager after a locked region that may have inserted a timer in front. -/
def insertTimer (s : State Worker Ref Callback) (manager : TimerManager Ref Callback)
    (at_front : Bool) : State Worker Ref Callback :=
  { s with
    manager := manager
    ticklers := if at_front then s.ticklers + 1 else s.ticklers }

/-- A worker calls `getNextTimer` and computes its timeout. -/
def getNextTimer (s : State Worker Ref Callback) (worker : Worker) :
    State Worker Ref Callback :=
  let (delay, manager) := s.manager.getNextTimer s.clock
  { s with manager := manager }.setStage worker (.ready (.ofDelay s.clock delay))

end State

inductive Label (Worker Ref Callback : Type) where
  | tick (clock : UInt64)
  | addTimer (ref : Ref) (ms : UInt64) (cb : Option Callback) (recurring : Bool)
      (now_ms : UInt64)
  | reset (ref : Ref) (ms : UInt64) (from_now : Bool)
  | cancel (ref : Ref)
  | tickle
  | write
  | enter (worker : Worker)
  | getNextTimer (worker : Worker)
  | epollWait (worker : Worker)
  | poll (worker : Worker) (tickled : Bool)
  | wake (worker : Worker) (tickled : Bool)
  | skip (worker : Worker)
  | expire (worker : Worker) (now_ms : UInt64) (now_timer : Ref)
  | drain (worker : Worker)
  | leave (worker : Worker)

inductive Step : State Worker Ref Callback → Label Worker Ref Callback →
    State Worker Ref Callback → Prop where
  | tick {s : State Worker Ref Callback} (clock : UInt64) : s.clock ≤ clock →
      Step s (.tick clock) { s with clock := clock }
  /-- A new timer has an address of its own; its constructor has read the clock before. -/
  | addTimer {s : State Worker Ref Callback} (ref : Ref) (ms : UInt64) (cb : Option Callback)
      (recurring : Bool) (now_ms : UInt64) : ref ∉ s.manager.m_timers → now_ms ≤ s.clock →
      Step s (.addTimer ref ms cb recurring now_ms)
        (s.insertTimer (s.manager.addTimer ref ms cb recurring now_ms).1
          (s.manager.addTimer ref ms cb recurring now_ms).2)
  | reset {s : State Worker Ref Callback} (ref : Ref) (ms : UInt64) (from_now : Bool) :
      Step s (.reset ref ms from_now)
        (s.insertTimer (s.manager.reset ref ms from_now s.clock).1
          (s.manager.reset ref ms from_now s.clock).2.2)
  | cancel {s : State Worker Ref Callback} (ref : Ref)
      {manager : TimerManager Ref Callback} {result : Bool} :
      s.manager.cancel ref = some (manager, result) →
      Step s (.cancel ref) { s with manager := manager }
  /-- The test of `hasIdleThread()`: the workers inside `idle` are counted there. -/
  | tickle {s : State Worker Ref Callback} (worker : Worker) : 0 < s.ticklers →
      s.stage worker ≠ .away →
      Step s .tickle { s with ticklers := s.ticklers - 1, writers := s.writers + 1 }
  | tickleNoIdle {s : State Worker Ref Callback} : 0 < s.ticklers →
      (∀ worker, s.stage worker = .away) →
      Step s .tickle { s with ticklers := s.ticklers - 1 }
  | write {s : State Worker Ref Callback} : 0 < s.writers →
      Step s .write { s with writers := s.writers - 1, tickleFd := s.tickleFd + 1 }
  | enter {s : State Worker Ref Callback} (worker : Worker) : s.stage worker = .away →
      Step s (.enter worker) (s.setStage worker .top)
  | getNextTimer {s : State Worker Ref Callback} (worker : Worker) : s.stage worker = .top →
      Step s (.getNextTimer worker) (s.getNextTimer worker)
  | epollWait {s : State Worker Ref Callback} (worker : Worker) {wait : Wait} :
      s.stage worker = .ready wait → wait ≠ .poll →
      Step s (.epollWait worker) (s.setStage worker (.blocked wait))
  | poll {s : State Worker Ref Callback} (worker : Worker) (tickled : Bool) :
      s.stage worker = .ready .poll → (tickled = true → 0 < s.tickleFd) →
      Step s (.poll worker tickled) (s.setStage worker (.woken tickled))
  /-- `epoll_wait` may return at any time: for the pipe, for an event or for its timeout. -/
  | wake {s : State Worker Ref Callback} (worker : Worker) (tickled : Bool) {wait : Wait} :
      s.stage worker = .blocked wait → (tickled = true → 0 < s.tickleFd) →
      Step s (.wake worker tickled) (s.setStage worker (.woken tickled))
  /-- `listExpiredCb` finds the set empty. -/
  | skip {s : State Worker Ref Callback} (worker : Worker) {tickled : Bool} :
      s.stage worker = .woken tickled → s.manager.m_timers = [] →
      Step s (.skip worker) (s.setStage worker (.expired tickled))
  | expire {s : State Worker Ref Callback} (worker : Worker) (now_ms : UInt64) (now_timer : Ref)
      {tickled : Bool} {manager : TimerManager Ref Callback} {cbs : List (Option Callback)} :
      s.stage worker = .woken tickled → now_ms ≤ s.clock →
      s.manager.listExpiredCb now_ms now_timer = some (manager, cbs) →
      Step s (.expire worker now_ms now_timer)
        ({ s with manager := manager }.setStage worker (.expired tickled))
  | drain {s : State Worker Ref Callback} (worker : Worker) :
      s.stage worker = .expired true →
      Step s (.drain worker) ({ s with tickleFd := 0 }.setStage worker (.expired false))
  | leave {s : State Worker Ref Callback} (worker : Worker) :
      s.stage worker = .expired false → Step s (.leave worker) (s.setStage worker .away)

end TimerWakeup

/-- Every interleaving of the workers with the threads that insert timers. -/
def timerWakeup (Worker Ref Callback : Type) [DecidableEq Worker] [LinearOrder Ref] :
    System (TimerWakeup.State Worker Ref Callback) (TimerWakeup.Label Worker Ref Callback) where
  initial s := s.manager.m_timers = [] ∧ s.manager.m_tickled = false ∧
    (∀ worker, s.stage worker = .away) ∧ s.tickleFd = 0 ∧ s.ticklers = 0 ∧ s.writers = 0
  step := TimerWakeup.Step

namespace TimerWakeup

variable {Worker Ref Callback : Type}

/-- Where a worker waits, a wake-up is under way, or `m_tickled` is clear and some waiting
worker is in time for the earliest deadline. -/
def Watched (s : State Worker Ref Callback) : Prop :=
  (∃ worker, (s.stage worker).waiting = true) →
    0 < s.tickleFd ∨ 0 < s.ticklers ∨ 0 < s.writers ∨ (∃ worker, (s.stage worker).alert = true) ∨
      s.manager.m_tickled = false ∧ ∀ deadline, s.manager.earliest = some deadline →
        ∃ worker, (s.stage worker).Due deadline

/-- The condition on the steps: a worker that leaves `idle` leaves the others watched, and
so does one whose delay, as an `int`, is negative. -/
def WatchKept [DecidableEq Worker] (s : State Worker Ref Callback) :
    Label Worker Ref Callback → Prop
  | .leave worker => Watched (s.setStage worker .away)
  | .getNextTimer worker => epollTimeout (s.manager.getNextTimer s.clock).1 < 0 →
      Watched (s.getNextTimer worker)
  | _ => True

/-- When a worker is blocked and every blocked worker is to wake up later than the earliest
deadline, and no insertion is on its way to the pipe, a byte is in the pipe or a worker is
inside `idle` and not blocked. -/
def NoLostTimer (s : State Worker Ref Callback) : Prop :=
  s.ticklers = 0 → s.writers = 0 → ∀ deadline, s.manager.earliest = some deadline →
    (∃ worker wait, s.stage worker = .blocked wait) →
    (∀ worker time, s.stage worker = .blocked (.until time) → deadline.toNat < time) →
    0 < s.tickleFd ∨ ∃ worker, (s.stage worker).inside = true

/-! ## The timeout -/

/-- A timeout that is not negative is at most the delay. -/
theorem epollTimeout_le {delay : UInt64} (nonneg : 0 ≤ epollTimeout delay) :
    (epollTimeout delay).toNat ≤ delay.toNat := by
  rw [epollTimeout] at nonneg ⊢
  split
  next finite =>
    rw [if_pos finite] at nonneg
    split
    next long =>
      rw [castInt] at long
      have capped : castInt 3000 = 3000 := by decide
      rw [capped]
      split at long <;> omega
    next short =>
      rw [if_neg short] at nonneg
      rw [castInt] at nonneg ⊢
      split at nonneg
      next low =>
        rw [if_pos low]
        omega
      next high => omega
  next infinite =>
    simp only [ne_eq, not_not] at infinite
    rw [infinite]
    decide

/-! ## The invariant -/

section Steps

variable [DecidableEq Worker] {s next : State Worker Ref Callback} {worker : Worker}
variable {stage : Stage}

omit [DecidableEq Worker] in
theorem Watched.of_alert (alert : (next.stage worker).alert = true) : Watched next :=
  fun _ => .inr (.inr (.inr (.inl ⟨worker, alert⟩)))

@[simp] theorem stage_setStage_self : (s.setStage worker stage).stage worker = stage :=
  Function.update_self ..

theorem stage_setStage_ne {other : Worker} (different : other ≠ worker) :
    (s.setStage worker stage).stage other = s.stage other :=
  Function.update_of_ne different ..

omit [DecidableEq Worker] in
/-- A change of the timers that is announced, or spared by `m_tickled`, or makes no
deadline earlier. -/
theorem Watched.timers (watched : Watched s) {manager : TimerManager Ref Callback}
    {at_front : Bool}
    (announced : at_front = true ∨ manager.m_tickled = s.manager.m_tickled ∧
      (s.manager.m_tickled = true ∨ s.manager.NoEarlier manager)) :
    Watched (s.insertTimer manager at_front) := by
  intro waits
  rcases announced with rfl | ⟨tickled, spared⟩
  · exact .inr (.inl (Nat.succ_pos _))
  · have ticklers : s.ticklers ≤ (s.insertTimer manager at_front).ticklers := by
      simp only [State.insertTimer]
      split
      · exact Nat.le_succ _
      · exact Nat.le_refl _
    rcases watched waits with byte | tickler | writer | alert | ⟨clear, due⟩
    · exact .inl byte
    · exact .inr (.inl (Nat.lt_of_lt_of_le tickler ticklers))
    · exact .inr (.inr (.inl writer))
    · exact .inr (.inr (.inr (.inl alert)))
    · refine .inr (.inr (.inr (.inr ⟨tickled.trans clear, fun deadline first => ?_⟩)))
      rcases spared with set | noEarlier
      · rw [clear] at set
        cases set
      · obtain ⟨before, beforeFirst, le⟩ := noEarlier deadline first
        obtain ⟨other, time, stage, inTime⟩ := due before beforeFirst
        exact ⟨other, time, stage, Nat.le_trans inTime (UInt64.le_iff_toNat_le.mp le)⟩

/-- A delay of `getNextTimer` that is not negative as an `int` wakes the worker in time. -/
theorem getNextTimer_due [LinearOrder Ref] {m : TimerManager Ref Callback} {now_ms : UInt64}
    (nonneg : 0 ≤ epollTimeout (m.getNextTimer now_ms).1) :
    Wait.ofDelay now_ms (m.getNextTimer now_ms).1 = .poll ∨
      ∃ time, Wait.ofDelay now_ms (m.getNextTimer now_ms).1 = .until time ∧
        ∀ deadline, m.earliest = some deadline → time ≤ deadline.toNat := by
  by_cases zero : epollTimeout (m.getNextTimer now_ms).1 = 0
  · left
    simp [Wait.ofDelay, zero]
  · right
    refine ⟨now_ms.toNat + (epollTimeout (m.getNextTimer now_ms).1).toNat, ?_,
      fun deadline first => ?_⟩
    · simp [Wait.ofDelay, zero, Int.not_lt.mpr nonneg]
    · have bound := epollTimeout_le nonneg
      obtain ⟨front, head, rfl⟩ := Option.map_eq_some_iff.mp first
      simp only [TimerManager.getNextTimer, head] at bound zero ⊢
      by_cases due : now_ms ≥ (m.timer front).m_next
      · rw [if_pos due] at zero
        exact absurd (by decide) zero
      · rw [if_neg due] at bound ⊢
        have before : now_ms ≤ (m.timer front).m_next := by
          rw [UInt64.le_iff_toNat_le]
          rw [ge_iff_le, UInt64.le_iff_toNat_le] at due
          omega
        rw [UInt64.toNat_sub_of_le _ _ before] at bound
        rw [UInt64.le_iff_toNat_le] at before
        omega

theorem Watched.getNextTimer [LinearOrder Ref]
    (kept : epollTimeout (s.manager.getNextTimer s.clock).1 < 0 →
      Watched (s.getNextTimer worker)) : Watched (s.getNextTimer worker) := by
  by_cases negative : epollTimeout (s.manager.getNextTimer s.clock).1 < 0
  · exact kept negative
  · intro _
    rcases getNextTimer_due (Int.not_lt.mp negative) with poll | ⟨time, wait, inTime⟩
    · refine .inr (.inr (.inr (.inl ⟨worker, ?_⟩)))
      rw [State.getNextTimer, stage_setStage_self, poll]
      rfl
    · refine .inr (.inr (.inr (.inr ⟨rfl, fun deadline first => ⟨worker, time, .inl ?_,
        inTime deadline first⟩⟩)))
      rw [State.getNextTimer, stage_setStage_self, wait]

/-- A worker that goes on to block keeps its wake-up time. -/
theorem Watched.epollWait (watched : Watched s) {wait : Wait}
    (ready : s.stage worker = .ready wait) (notPoll : wait ≠ .poll) :
    Watched (s.setStage worker (.blocked wait)) := by
  intro _
  have waits : (s.stage worker).waiting = true := by
    rw [ready]
    rfl
  rcases watched ⟨worker, waits⟩ with byte | tickler | writer | ⟨other, alert⟩ | ⟨clear, due⟩
  · exact .inl byte
  · exact .inr (.inl tickler)
  · exact .inr (.inr (.inl writer))
  · refine .inr (.inr (.inr (.inl ⟨other, ?_⟩)))
    have different : other ≠ worker := by
      rintro rfl
      rw [ready] at alert
      cases wait with
      | poll => exact notPoll rfl
      | «until» time => cases alert
      | never => cases alert
    rwa [stage_setStage_ne different]
  · refine .inr (.inr (.inr (.inr ⟨clear, fun deadline first => ?_⟩)))
    obtain ⟨other, time, stage, inTime⟩ := due deadline first
    refine ⟨other, time, ?_, inTime⟩
    by_cases same : other = worker
    · subst same
      rw [stage_setStage_self]
      rw [ready] at stage
      rcases stage with stage | stage
      · cases stage
        exact .inr rfl
      · cases stage
    · rwa [stage_setStage_ne same]

theorem watched_step [LinearOrder Ref] {label : Label Worker Ref Callback}
    (sorted : s.manager.Sorted) (watched : Watched s) (kept : WatchKept s label)
    (stepped : Step s label next) : next.manager.Sorted ∧ Watched next := by
  cases stepped with
  | tick clock => exact ⟨sorted, watched⟩
  | addTimer ref ms cb recurring now_ms fresh =>
      obtain ⟨keptSorted, announced⟩ :=
        TimerManager.addTimer_spec sorted fresh ms cb recurring now_ms
      exact ⟨keptSorted, watched.timers announced⟩
  | reset ref ms from_now =>
      obtain ⟨keptSorted, announced⟩ := TimerManager.reset_spec sorted ref ms from_now s.clock
      exact ⟨keptSorted, watched.timers announced⟩
  | cancel ref done =>
      obtain ⟨keptSorted, tickled, noEarlier⟩ := TimerManager.cancel_spec sorted done
      exact ⟨keptSorted, watched.timers
        (show false = true ∨ _ from .inr ⟨tickled, .inr noEarlier⟩)⟩
  | tickle worker tickler idle => exact ⟨sorted, fun _ => .inr (.inr (.inl (Nat.succ_pos _)))⟩
  | tickleNoIdle tickler away =>
      refine ⟨sorted, fun ⟨other, waits⟩ => ?_⟩
      rw [show s.stage other = .away from away other] at waits
      cases waits
  | write writer => exact ⟨sorted, fun _ => .inl (Nat.succ_pos _)⟩
  | enter worker away => exact ⟨sorted, .of_alert (by rw [stage_setStage_self]; rfl)⟩
  | getNextTimer worker top => exact ⟨sorted, .getNextTimer kept⟩
  | epollWait worker ready notPoll => exact ⟨sorted, watched.epollWait ready notPoll⟩
  | poll worker tickled ready => exact ⟨sorted, .of_alert (by rw [stage_setStage_self]; rfl)⟩
  | wake worker tickled blocked =>
      exact ⟨sorted, .of_alert (by rw [stage_setStage_self]; rfl)⟩
  | skip worker woken => exact ⟨sorted, .of_alert (by rw [stage_setStage_self]; rfl)⟩
  | expire worker now_ms now_timer woken past done =>
      exact ⟨TimerManager.listExpiredCb_sorted sorted done,
        .of_alert (by rw [stage_setStage_self]; rfl)⟩
  | drain worker expired => exact ⟨sorted, .of_alert (by rw [stage_setStage_self]; rfl)⟩
  | leave worker expired => exact ⟨sorted, kept⟩

end Steps

/-- In every run in which a worker that leaves `idle` leaves the others watched, and so
does one whose delay is negative as an `int`, no timer loses its wake-up. -/
theorem timer_wakeup_kept [DecidableEq Worker] [LinearOrder Ref] {s : State Worker Ref Callback}
    (reached : (timerWakeup Worker Ref Callback).Reaches WatchKept s) : NoLostTimer s := by
  have inv : s.manager.Sorted ∧ Watched s := by
    refine reached.invariant (fun s => s.manager.Sorted ∧ Watched s) ?_ ?_
    · rintro s ⟨empty, -, away, -⟩
      refine ⟨by rw [TimerManager.Sorted, empty]; exact List.Pairwise.nil, ?_⟩
      rintro ⟨worker, waits⟩
      rw [away worker] at waits
      cases waits
    · rintro s label next - ⟨sorted, watched⟩ kept stepped
      exact watched_step sorted watched kept stepped
  rintro noTickler noWriter deadline first ⟨worker, wait, blocked⟩ late
  rcases inv.2 ⟨worker, by rw [blocked]; rfl⟩ with
    byte | tickler | writer | ⟨other, alert⟩ | ⟨-, due⟩
  · exact .inl byte
  · rw [noTickler] at tickler
    exact absurd tickler (Nat.lt_irrefl 0)
  · rw [noWriter] at writer
    exact absurd writer (Nat.lt_irrefl 0)
  · exact .inr ⟨other, Stage.inside_of_alert alert⟩
  · obtain ⟨other, time, stage, inTime⟩ := due deadline first
    rcases stage with stage | stage
    · exact .inr ⟨other, by rw [stage]; rfl⟩
    · exact absurd inTime (Nat.not_le.mpr (late other time stage))

/-- Two workers that have not started. -/
def twoWorkers : State Bool Nat Unit where
  manager := { timer := fun _ => {}, m_timers := [], m_previouseTime := 0 }
  clock := 0
  stage := fun _ => .away
  tickleFd := 0
  ticklers := 0
  writers := 0

/-- A worker that is blocked when a timer of 100 ms is added. -/
theorem timer_wakeup_kept_blocked :
    ∃ s : State Bool Nat Unit, (timerWakeup Bool Nat Unit).Reaches WatchKept s ∧
      s.manager.earliest = some 100 ∧ s.stage false = .blocked (.until 3000) ∧
      0 < s.tickleFd := by
  have entered : (timerWakeup Bool Nat Unit).Reaches WatchKept _ :=
    .step (.initial (show (timerWakeup Bool Nat Unit).initial twoWorkers from
      ⟨rfl, rfl, fun _ => rfl, rfl, rfl, rfl⟩)) (by exact trivial) (.enter false rfl)
  have ready : (timerWakeup Bool Nat Unit).Reaches WatchKept _ :=
    .step entered (by exact fun negative => absurd negative (by decide)) (.getNextTimer false rfl)
  have blocked : (timerWakeup Bool Nat Unit).Reaches WatchKept _ :=
    .step ready (by exact trivial) (.epollWait false rfl (by decide))
  have added : (timerWakeup Bool Nat Unit).Reaches WatchKept _ :=
    .step blocked (by exact trivial)
      (.addTimer 0 100 (some ()) false 0 List.not_mem_nil (by decide))
  have tickled : (timerWakeup Bool Nat Unit).Reaches WatchKept _ :=
    .step added (by exact trivial) (.tickle false Nat.one_pos (by decide))
  have written : (timerWakeup Bool Nat Unit).Reaches WatchKept _ :=
    .step tickled (by exact trivial) (.write Nat.one_pos)
  refine ⟨_, written, rfl, rfl, ?_⟩
  rcases timer_wakeup_kept written rfl rfl 100 rfl ⟨false, _, rfl⟩ (by
    intro worker time isBlocked
    cases worker <;> cases isBlocked
    decide) with byte | ⟨worker, inside⟩
  · exact byte
  · cases worker <;> cases inside

/-- Both workers are blocked when a timer of 100 ms is added; the one that drains the
byte leaves `idle` for a task. -/
theorem timer_wakeup_lost :
    ∃ s : State Bool Nat Unit, (timerWakeup Bool Nat Unit).Reachable s ∧ ¬ NoLostTimer s := by
  have entered : (timerWakeup Bool Nat Unit).Reachable _ :=
    .step (.initial (show (timerWakeup Bool Nat Unit).initial twoWorkers from
      ⟨rfl, rfl, fun _ => rfl, rfl, rfl, rfl⟩)) trivial (.enter false rfl)
  have enteredToo : (timerWakeup Bool Nat Unit).Reachable _ := .step entered trivial (.enter true rfl)
  have ready : (timerWakeup Bool Nat Unit).Reachable _ :=
    .step enteredToo trivial (.getNextTimer false rfl)
  have readyToo : (timerWakeup Bool Nat Unit).Reachable _ :=
    .step ready trivial (.getNextTimer true rfl)
  have blocked : (timerWakeup Bool Nat Unit).Reachable _ :=
    .step readyToo trivial (.epollWait false rfl (by decide))
  have blockedToo : (timerWakeup Bool Nat Unit).Reachable _ :=
    .step blocked trivial (.epollWait true rfl (by decide))
  have added : (timerWakeup Bool Nat Unit).Reachable _ :=
    .step blockedToo trivial
      (.addTimer 0 100 (some ()) false 0 List.not_mem_nil (by decide))
  have tickled : (timerWakeup Bool Nat Unit).Reachable _ :=
    .step added trivial (.tickle false Nat.one_pos (by decide))
  have written : (timerWakeup Bool Nat Unit).Reachable _ :=
    .step tickled trivial (.write Nat.one_pos)
  have woken : (timerWakeup Bool Nat Unit).Reachable _ :=
    .step written trivial (.wake true true rfl fun _ => Nat.one_pos)
  have expired : (timerWakeup Bool Nat Unit).Reachable _ :=
    .step woken trivial (.expire true 0 1 rfl (by decide) rfl)
  have drained : (timerWakeup Bool Nat Unit).Reachable _ := .step expired trivial (.drain true rfl)
  have left : (timerWakeup Bool Nat Unit).Reachable _ := .step drained trivial (.leave true rfl)
  refine ⟨_, left, fun noLost => ?_⟩
  rcases noLost rfl rfl 100 rfl ⟨false, _, rfl⟩ (by
    intro worker time isBlocked
    cases worker <;> cases isBlocked
    decide) with byte | ⟨worker, inside⟩
  · exact Nat.lt_irrefl 0 byte
  · cases worker <;> cases inside

end TimerWakeup

end Exhy
