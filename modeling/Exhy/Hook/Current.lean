import Exhy.Hook.Core

/-!
# The timer and the callbacks of the current wait

A call begins a wait with a new timer.  While no callback of an earlier wait is left over
when it does, every timer in `m_timers` that would cancel the call, and every callback that
is on its way to do so, belongs to the current wait.
-/

namespace Exhy.TimedCall

open Library IOManager

/-- The timer has been armed and `cancel()` has not been called on it. -/
def Pc.armed : Pc → Bool
  | .addEvent | .yield | .parked | .cancelTimer | .unwind => true
  | _ => false

variable {Scheduler Fiber Callback Ref : Type}
variable {call : TimedCall Scheduler Fiber} {s next : State Scheduler Fiber Callback Ref}

/-- A wait begins when no callback of an earlier wait is under way or has set `cancelled`. -/
def NoStale (s : State Scheduler Fiber Callback Ref) : Label Scheduler Fiber Callback Ref → Prop
  | .addConditionTimer .. | .noTimer => s.running = [] ∧ s.cancelled = none
  | _ => True

/-- A timer that cancels the call is the timer of the current wait. -/
def OwnTimers (call : TimedCall Scheduler Fiber) (s : State Scheduler Fiber Callback Ref) : Prop :=
  ∀ ref ∈ s.manager.m_timers, ∀ wait, (s.manager.timer ref).m_cb = some (.timeout wait) →
    s.pc.armed = true ∧ s.timer = some ref ∧ wait = s.wait ∧
      (s.manager.timer ref).m_recurring = false ∧
      (s.manager.timer ref).m_next = s.armedAt + call.timeout_ms

structure Current (call : TimedCall Scheduler Fiber) (s : State Scheduler Fiber Callback Ref) :
    Prop where
  timers : OwnTimers call s
  running : ∀ wait phase, (wait, phase) ∈ s.running → wait = s.wait
  cancelled : ∀ wait, s.cancelled = some wait → wait = s.wait

theorem OwnTimers.of_manager (own : OwnTimers call s) {manager : TimerManager Ref HookCallback}
    (unchanged : ∀ ref ∈ manager.m_timers, ∀ wait,
      (manager.timer ref).m_cb = some (.timeout wait) →
        ref ∈ s.manager.m_timers ∧ manager.timer ref = s.manager.timer ref) :
    OwnTimers call { s with manager := manager } := by
  intro ref member wait isTimeout
  obtain ⟨before, same⟩ := unchanged ref member wait isTimeout
  rw [same] at isTimeout ⊢
  exact own ref before wait isTimeout

/-- Elsewhere the call goes on with the timer that it has. -/
theorem OwnTimers.move (own : OwnTimers call s) (armed : s.pc.armed = true → next.pc.armed = true)
    (manager : next.manager = s.manager) (timer : next.timer = s.timer)
    (wait : next.wait = s.wait) (armedAt : next.armedAt = s.armedAt) : OwnTimers call next := by
  rw [OwnTimers, manager, timer, wait, armedAt]
  intro ref member wait isTimeout
  obtain ⟨isArmed, rest⟩ := own ref member wait isTimeout
  exact ⟨armed isArmed, rest⟩

/-- Where no timer cancels the call, the other fields do not matter. -/
theorem OwnTimers.of_none (none : ∀ ref ∈ s.manager.m_timers, ∀ wait,
    (s.manager.timer ref).m_cb ≠ some (.timeout wait)) : OwnTimers call s :=
  fun ref member wait isTimeout => absurd isTimeout (none ref member wait)

theorem OwnTimers.expire (own : OwnTimers call s) {now_ms : UInt64}
    {manager : TimerManager Ref HookCallback} {cbs : List (Option HookCallback)}
    (lists : TimerManager.Lists now_ms s.manager manager cbs) :
    OwnTimers call { s with manager := manager } := by
  refine own.of_manager fun ref member wait isTimeout => ?_
  obtain ⟨before, same, unchanged⟩ := lists.left ref member
  rw [same] at isTimeout
  exact ⟨before, unchanged (own ref before wait isTimeout).2.2.2.1⟩

theorem OwnTimers.none_of_notArmed (own : OwnTimers call s) (notArmed : s.pc.armed = false) :
    ∀ ref ∈ s.manager.m_timers, ∀ wait, (s.manager.timer ref).m_cb ≠ some (.timeout wait) := by
  intro ref member wait isTimeout
  have armed := (own ref member wait isTimeout).1
  rw [notArmed] at armed
  cases armed

variable [LinearOrder Ref]

/-- A new wait begins with a new timer. -/
theorem OwnTimers.arm (none : ∀ ref ∈ s.manager.m_timers, ∀ wait,
    (s.manager.timer ref).m_cb ≠ some (.timeout wait)) (ref : Ref) (now_ms : UInt64) :
    OwnTimers call { s with
      manager := (s.manager.addTimer ref call.timeout_ms (some (.timeout (s.wait + 1)))
        false now_ms).1
      wait := s.wait + 1
      timer := some ref
      armedAt := now_ms
      pc := .addEvent } := by
  intro other member wait isTimeout
  by_cases same : other = ref
  · subst same
    rw [TimerManager.timer_addTimer_self, TimerManager.newTimer] at isTimeout ⊢
    cases isTimeout
    exact ⟨rfl, rfl, rfl, rfl, rfl⟩
  · obtain ⟨memberIff, timerEq⟩ := TimerManager.addTimer_touches call.timeout_ms
      (some (HookCallback.timeout (s.wait + 1))) false now_ms other same
    rw [timerEq] at isTimeout
    exact absurd isTimeout (none other (memberIff.mp member) wait)

/-- After `timer->cancel()` no timer cancels the call. -/
theorem OwnTimers.cancelTimer (own : OwnTimers call s) {manager : TimerManager Ref HookCallback}
    (done : s.cancelTimer = some manager) :
    ∀ ref ∈ manager.m_timers, ∀ wait, (manager.timer ref).m_cb ≠ some (.timeout wait) := by
  intro ref member wait isTimeout
  rw [State.cancelTimer] at done
  split at done
  next noTimer =>
    cases done
    have isOwn := (own ref member wait isTimeout).2.1
    rw [noTimer] at isOwn
    cases isOwn
  next timer isTimer =>
    obtain ⟨⟨_, result⟩, cancelled, rfl⟩ := Option.map_eq_some_iff.mp done
    obtain ⟨touches, empty⟩ := TimerManager.cancel_touches cancelled
    by_cases same : ref = timer
    · subst same
      rw [empty] at isTimeout
      cases isTimeout
    · obtain ⟨memberIff, timerEq⟩ := touches ref same
      rw [timerEq] at isTimeout
      have isOwn := (own ref (memberIff.mp member) wait isTimeout).2.1
      rw [isTimer, Option.some.injEq] at isOwn
      exact same isOwn.symm

/-- What another task does to its timers does not concern the call. -/
theorem TimerOp.exec_spec {m manager : TimerManager Ref HookCallback} (sorted : m.Sorted)
    {ref : Ref} {op : TimerOp} (fresh : op.Fresh m ref) {now_ms : UInt64}
    (done : op.exec m ref now_ms = some manager) :
    manager.Sorted ∧ TimerManager.Touches ref m manager ∧
      (ref ∈ manager.m_timers → ∀ wait, (manager.timer ref).m_cb = some (.timeout wait) →
        ref ∈ m.m_timers ∧ (m.timer ref).m_cb = some (.timeout wait)) := by
  cases op with
  | addTimer ms recurring made_at =>
      cases done
      refine ⟨(TimerManager.addTimer_spec sorted fresh ms _ recurring made_at).1,
        TimerManager.addTimer_touches ms _ recurring made_at, fun _ wait isTimeout => ?_⟩
      rw [TimerManager.timer_addTimer_self] at isTimeout
      cases isTimeout
  | cancel =>
      obtain ⟨⟨_, result⟩, cancelled, rfl⟩ := Option.map_eq_some_iff.mp done
      obtain ⟨touches, empty⟩ := TimerManager.cancel_touches cancelled
      refine ⟨(TimerManager.cancel_spec sorted cancelled).1, touches, fun _ wait isTimeout => ?_⟩
      rw [empty] at isTimeout
      cases isTimeout
  | refresh =>
      cases done
      obtain ⟨touches, same, before⟩ := TimerManager.refresh_touches m ref now_ms
      refine ⟨TimerManager.refresh_sorted sorted now_ms, touches, fun member wait isTimeout => ?_⟩
      exact ⟨before member, same ▸ isTimeout⟩
  | reset ms from_now =>
      cases done
      obtain ⟨touches, same, before⟩ := TimerManager.reset_touches m ref ms from_now now_ms
      refine ⟨(TimerManager.reset_spec sorted ref ms from_now now_ms).1, touches,
        fun member wait isTimeout => ?_⟩
      exact ⟨before member, same ▸ isTimeout⟩

theorem OwnTimers.timer (own : OwnTimers call s) (sorted : s.manager.Sorted) {ref : Ref}
    {op : TimerOp} (other : s.timer ≠ some ref) (fresh : op.Fresh s.manager ref) {now_ms : UInt64}
    {manager : TimerManager Ref HookCallback} (done : op.exec s.manager ref now_ms = some manager) :
    OwnTimers call { s with manager := manager } := by
  obtain ⟨-, touches, self⟩ := TimerOp.exec_spec sorted fresh done
  refine own.of_manager fun timer member wait isTimeout => ?_
  by_cases same : timer = ref
  · subst same
    obtain ⟨before, isTimeout⟩ := self member wait isTimeout
    exact absurd (own timer before wait isTimeout).2.1 other
  · exact ⟨(touches timer same).1.mp member, (touches timer same).2⟩

theorem cancelTimer_sorted (sorted : s.manager.Sorted) {manager : TimerManager Ref HookCallback}
    (done : s.cancelTimer = some manager) : manager.Sorted := by
  rw [State.cancelTimer] at done
  split at done
  · cases done
    exact sorted
  · obtain ⟨⟨_, result⟩, cancelled, rfl⟩ := Option.map_eq_some_iff.mp done
    exact (TimerManager.cancel_spec sorted cancelled).1

variable [DecidableEq Scheduler] [DecidableEq Fiber] [DecidableEq Callback]
variable {label : Label Scheduler Fiber Callback Ref}

/-- The step does not make the table of contexts longer than an `int` counts. -/
def TableFits (call : TimedCall Scheduler Fiber) : Label Scheduler Fiber Callback Ref → Prop
  | .addEvent _ => call.fd.val * 3 / 2 < 2 ^ 31
  | .operate op => op.Fits
  | _ => True

theorem invariant_step (inv : Invariant s.io s.log) (fits : TableFits call label)
    (stepped : call.Step s label next) : Invariant next.io next.log := by
  cases stepped with
  | addEvent ctl at_ disarmed done =>
      obtain ⟨after, effects, done', afterInv, -⟩ :=
        addEvent_spec inv fits disarmed none call.scheduler call.fiber ctl
      rw [done] at done'
      cases done'
      exact afterInv
  | cancelEvent wait ctl member done =>
      obtain ⟨after, result, effects, done', afterInv, -⟩ :=
        cancelEvent_spec inv call.fd call.event ctl
      rw [done] at done'
      cases done'
      exact afterInv
  | operate op allowed spares done =>
      obtain ⟨after, result, effects, done', afterInv, -⟩ := exec_spec inv allowed fits
      rw [done] at done'
      cases done'
      exact afterInv
  | _ => exact inv

theorem sorted_step (sorted : s.manager.Sorted) (stepped : call.Step s label next) :
    next.manager.Sorted := by
  cases stepped with
  | addConditionTimer ref now_ms at_ finite fresh =>
      exact (TimerManager.addTimer_spec sorted fresh _ _ _ now_ms).1
  | cancelTimer at_ done => exact cancelTimer_sorted sorted done
  | unwind at_ done => exact cancelTimer_sorted sorted done
  | expire now_ms now_timer past done => exact TimerManager.listExpiredCb_sorted sorted done
  | timer ref op other fresh done => exact (TimerOp.exec_spec sorted fresh done).1
  | _ => exact sorted

theorem current_step (current : Current call s) (sorted : s.manager.Sorted)
    (noStale : NoStale s label) (stepped : call.Step s label next) : Current call next := by
  obtain ⟨timers, running, cancelled⟩ := current
  have notArmed (isNot : s.pc.armed = false) := timers.none_of_notArmed isNot
  -- a new wait finds no callback left over
  have fresh {wait : Nat} (begins : s.running = [] ∧ s.cancelled = none) :
      (∀ other phase, (other, phase) ∈ s.running → other = wait) ∧
        ∀ other, s.cancelled = some other → other = wait := by
    rw [begins.1, begins.2]
    simp
  cases stepped with
  | complete pc => exact ⟨.of_none (notArmed (by rw [pc]; rfl)), running, cancelled⟩
  | again pc => exact ⟨.of_none (notArmed (by rw [pc]; rfl)), running, cancelled⟩
  | addConditionTimer ref now_ms pc =>
      exact ⟨.arm (notArmed (by rw [pc]; rfl)) ref now_ms, (fresh noStale).1, (fresh noStale).2⟩
  | noTimer pc =>
      exact ⟨.of_none (notArmed (by rw [pc]; rfl)), (fresh noStale).1, (fresh noStale).2⟩
  | addEvent ctl pc disarmed done =>
      refine ⟨timers.move (fun _ => ?_) rfl rfl rfl rfl, running, cancelled⟩
      simp only [State.perform]
      split <;> rfl
  | yieldToHold pc => exact ⟨timers.move (fun _ => rfl) rfl rfl rfl rfl, running, cancelled⟩
  | resume registration pc => exact ⟨timers.move (fun _ => rfl) rfl rfl rfl rfl, running, cancelled⟩
  | cancelTimer pc done => exact ⟨.of_none (timers.cancelTimer done), running, cancelled⟩
  | timedOut pc => exact ⟨.of_none (notArmed (by rw [pc]; rfl)), running, cancelled⟩
  | retry pc => exact ⟨.of_none (notArmed (by rw [pc]; rfl)), running, cancelled⟩
  | finish pc => exact ⟨.of_none (notArmed (by rw [pc]; rfl)), running, cancelled⟩
  | unwind pc done => exact ⟨.of_none (timers.cancelTimer done), running, cancelled⟩
  | tick clock => exact ⟨timers, running, cancelled⟩
  | expire now_ms now_timer past done =>
      have lists := TimerManager.listExpiredCb_spec sorted done
      refine ⟨timers.expire lists, fun wait phase member => ?_, cancelled⟩
      rcases List.mem_append.mp member with old | new
      · exact running wait phase old
      · obtain ⟨ref, isOwn, isTimeout, -⟩ := lists.callbacks _ (mem_extracted.mp new).1
        exact (timers ref isOwn wait isTimeout).2.2.1
  | test wait member =>
      have isOwn := running wait .extracted member
      refine ⟨timers, fun other phase inRunning => ?_, cancelled⟩
      simp only [State.test] at inRunning
      split at inRunning
      · rcases List.mem_cons.mp inRunning with same | rest
        · cases same
          exact isOwn
        · exact running other phase (List.mem_of_mem_erase rest)
      · exact running other phase (List.mem_of_mem_erase inRunning)
  | set wait member =>
      have isOwn := running wait .tested member
      refine ⟨timers, fun other phase inRunning => ?_, fun other isCancelled => ?_⟩
      · rcases List.mem_cons.mp inRunning with same | rest
        · cases same
          exact isOwn
        · exact running other phase (List.mem_of_mem_erase rest)
      · cases isCancelled
        exact isOwn
  | cancelEvent wait ctl member done =>
      exact ⟨timers, fun other phase rest => running other phase (List.mem_of_mem_erase rest),
        cancelled⟩
  | operate op => exact ⟨timers, running, cancelled⟩
  | take registration => exact ⟨timers, running, cancelled⟩
  | timer ref op other fresh done => exact ⟨timers.timer sorted other fresh done, running, cancelled⟩

end Exhy.TimedCall
