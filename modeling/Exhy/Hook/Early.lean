import Exhy.Hook.Timeout

/-!
# A timed call does not time out early

A call that returns with `ETIMEDOUT` was cancelled by the timer of its last wait.  This
needs that no callback of an earlier wait was left over when that wait began: such a
callback passes the test of `cancelled` and cancels the new wait.
-/

namespace Exhy.TimedCall

open Library IOManager

variable {Scheduler Fiber Callback Ref : Type}
variable {call : TimedCall Scheduler Fiber} {s next : State Scheduler Fiber Callback Ref}

/-- A call that has timed out returns no earlier than its timeout after it last parked, and
a callback that cancels the call belongs to its current wait. -/
def NotEarly (call : TimedCall Scheduler Fiber) (s : State Scheduler Fiber Callback Ref) : Prop :=
  (s.pc = .done true → s.parkedAt.toNat + call.timeout_ms.toNat ≤ s.doneAt.toNat) ∧
    (∀ wait phase, (wait, phase) ∈ s.running → phase ≠ .extracted → wait = s.wait) ∧
    ∀ wait, s.cancelled = some wait → wait = s.wait

/-- A wait begins with nothing left over, no deadline wraps around, and the clock does not
roll over. -/
def Timely (call : TimedCall Scheduler Fiber)
    (s : State Scheduler Fiber Callback Ref) : Label Scheduler Fiber Callback Ref → Prop
  | .addConditionTimer _ now_ms => (s.running = [] ∧ s.cancelled = none) ∧
      now_ms.toNat + call.timeout_ms.toNat < 2 ^ 64
  | .noTimer => s.running = [] ∧ s.cancelled = none
  | .expire now_ms _ => (s.manager.detectClockRollOver now_ms).1 = false
  | _ => True

/-- The condition on the steps: moreover a call parks in the millisecond in which its timer
was made. -/
def OnTime (call : TimedCall Scheduler Fiber)
    (s : State Scheduler Fiber Callback Ref) (label : Label Scheduler Fiber Callback Ref) : Prop :=
  Timely call s label ∧
    match label with
    | .yieldToHold => s.clock = s.armedAt
    | _ => True

theorem Timely.noStale {label : Label Scheduler Fiber Callback Ref}
    (timely : Timely call s label) : NoStale s label := by
  cases label with
  | addConditionTimer ref now_ms => exact timely.1
  | noTimer => exact timely
  | _ => exact trivial

/-- A callback that is under way, or has set `cancelled`, is not early. -/
structure Late (call : TimedCall Scheduler Fiber) (s : State Scheduler Fiber Callback Ref) :
    Prop where
  room : s.timer.isSome → s.pc.armed = true →
    s.armedAt.toNat + call.timeout_ms.toNat < 2 ^ 64
  due : s.running ≠ [] ∨ s.cancelled.isSome →
    s.armedAt.toNat + call.timeout_ms.toNat ≤ s.clock.toNat
  done : s.pc = .done true → s.armedAt.toNat + call.timeout_ms.toNat ≤ s.doneAt.toNat

theorem running_ne_nil {running : List (Nat × Phase)} {callback : Nat × Phase}
    (member : callback ∈ running) : running ≠ [] := by
  rintro rfl
  cases member

theorem Late.expire (late : Late call s) (own : OwnTimers call s) {now_ms : UInt64}
    {manager : TimerManager Ref HookCallback} {cbs : List (Option HookCallback)}
    (noRollOver : (s.manager.detectClockRollOver now_ms).1 = false) (past : now_ms ≤ s.clock)
    (lists : TimerManager.Lists now_ms s.manager manager cbs) :
    Late call { s with manager := manager, running := s.running ++ extracted cbs } := by
  refine ⟨late.room, fun pending => ?_, late.done⟩
  by_cases before : s.running ≠ [] ∨ s.cancelled.isSome
  · exact late.due before
  · rw [not_or, not_not] at before
    rcases pending with new | isCancelled
    · rw [before.1, List.nil_append] at new
      obtain ⟨⟨wait, phase⟩, member⟩ := List.exists_mem_of_ne_nil _ new
      obtain ⟨ref, isOwn, isTimeout, dueNow⟩ := lists.callbacks _ (mem_extracted.mp member).1
      obtain ⟨armed, isTimer, -, -, deadline⟩ := own ref isOwn wait isTimeout
      have room := late.room (by rw [isTimer]; rfl) armed
      have inTime := dueNow noRollOver
      rw [deadline, UInt64.le_iff_toNat_le, UInt64.toNat_add, Nat.mod_eq_of_lt room] at inTime
      exact Nat.le_trans inTime (UInt64.le_iff_toNat_le.mp past)
    · exact absurd isCancelled before.2

variable [LinearOrder Ref]
variable [DecidableEq Scheduler] [DecidableEq Fiber] [DecidableEq Callback]

theorem late_step {label : Label Scheduler Fiber Callback Ref} (current : Current call s)
    (sorted : s.manager.Sorted) (timely : Timely call s label) (late : Late call s)
    (stepped : call.Step s label next) : Late call next := by
  obtain ⟨room, due, done⟩ := late
  cases stepped with
  | addConditionTimer ref now_ms pc =>
      refine ⟨fun _ _ => timely.2, fun pending => ?_, fun isDone => by cases isDone⟩
      obtain ⟨⟨noCallback, notCancelled⟩, -⟩ := timely
      simp [noCallback, notCancelled] at pending
  | noTimer pc =>
      refine ⟨(fun isTimer => by cases isTimer), fun pending => ?_, fun isDone => by cases isDone⟩
      obtain ⟨noCallback, notCancelled⟩ := timely
      simp [noCallback, notCancelled] at pending
  | addEvent ctl pc =>
      refine ⟨fun isTimer _ => room isTimer (by rw [pc]; rfl), due, fun isDone => ?_⟩
      simp only [State.perform] at isDone
      split at isDone <;> cases isDone
  | yieldToHold pc =>
      exact ⟨fun isTimer _ => room isTimer (by rw [pc]; rfl), due, fun isDone => by cases isDone⟩
  | resume registration pc =>
      exact ⟨fun isTimer _ => room isTimer (by rw [pc]; rfl), due, fun isDone => by cases isDone⟩
  | timedOut pc isCancelled =>
      exact ⟨(fun _ armed => by cases armed), due, fun _ => due (.inr isCancelled)⟩
  | tick clock forward =>
      exact ⟨room, fun pending => Nat.le_trans (due pending) (UInt64.le_iff_toNat_le.mp forward),
        done⟩
  | expire now_ms now_timer past expired =>
      exact Late.expire ⟨room, due, done⟩ current.timers timely past
        (TimerManager.listExpiredCb_spec sorted expired)
  | test wait member =>
      exact ⟨room, fun _ => due (.inl (running_ne_nil member)), done⟩
  | set wait member =>
      exact ⟨room, fun _ => due (.inl (running_ne_nil member)), done⟩
  | cancelEvent wait ctl member =>
      exact ⟨room, fun _ => due (.inl (running_ne_nil member)), done⟩
  | operate op => exact ⟨room, due, done⟩
  | take registration => exact ⟨room, due, done⟩
  | timer ref op => exact ⟨room, due, done⟩
  | _ => exact ⟨(fun _ armed => by cases armed), due, fun isDone => by cases isDone⟩

/-- What a run that is timely has in every state. -/
theorem late_of_timely (reached : (call.interleavings :
    System (State Scheduler Fiber Callback Ref) _).Reaches (Timely call) s) :
    s.manager.Sorted ∧ Current call s ∧ Late call s := by
  refine reached.invariant (fun s => s.manager.Sorted ∧ Current call s ∧ Late call s) ?_ ?_
  · rintro s ⟨-, -, sorted, noTimers, pc, -, noTimer, notCancelled, noCallback⟩
    refine ⟨sorted, ⟨.of_none noTimers, ?_, ?_⟩, ⟨?_, ?_, ?_⟩⟩
    · simp [noCallback]
    · simp [notCancelled]
    · simp [noTimer]
    · simp [noCallback, notCancelled]
    · simp [pc]
  · rintro s label next - ⟨sorted, current, late⟩ timely stepped
    exact ⟨sorted_step sorted stepped, current_step current sorted timely.noStale stepped,
      late_step current sorted timely late stepped⟩

/-- In a timely run a call that times out returns no earlier than its timeout after it made
its last timer, however long it took to park. -/
theorem timeout_after_arming (reached : (call.interleavings :
    System (State Scheduler Fiber Callback Ref) _).Reaches (Timely call) s)
    (timedOut : s.pc = .done true) :
    s.armedAt.toNat + call.timeout_ms.toNat ≤ s.doneAt.toNat :=
  (late_of_timely reached).2.2.done timedOut

/-- The call has parked in its current wait. -/
def Pc.hasParked : Pc → Bool
  | .parked | .cancelTimer | .check | .done true => true
  | _ => false

theorem parkedAt_step {label : Label Scheduler Fiber Callback Ref}
    (parked : s.pc.hasParked = true → s.parkedAt = s.armedAt)
    (onTime : OnTime call s label) (stepped : call.Step s label next) :
    next.pc.hasParked = true → next.parkedAt = next.armedAt := by
  intro hasParked
  cases stepped with
  | addEvent ctl pc =>
      simp only [State.perform] at hasParked
      split at hasParked <;> cases hasParked
  | yieldToHold pc => exact onTime.2
  | resume registration pc => exact parked (by rw [pc]; rfl)
  | cancelTimer pc => exact parked (by rw [pc]; rfl)
  | timedOut pc => exact parked (by rw [pc]; rfl)
  | complete => cases hasParked
  | again => cases hasParked
  | addConditionTimer => cases hasParked
  | noTimer => cases hasParked
  | retry => cases hasParked
  | finish => cases hasParked
  | unwind => cases hasParked
  | _ => exact parked hasParked

/-- In every run in which each wait begins with nothing left over and no deadline wraps
around, the clock does not roll over, and each call parks in the millisecond in which its
timer was made, no call times out early. -/
theorem never_early (reached : (call.interleavings :
    System (State Scheduler Fiber Callback Ref) _).Reaches (OnTime call) s) :
    NotEarly call s := by
  have timely := reached.mono fun _ _ (onTime : OnTime call _ _) => onTime.1
  obtain ⟨-, current, late⟩ := late_of_timely timely
  have parked : s.pc.hasParked = true → s.parkedAt = s.armedAt := by
    refine reached.invariant (fun s => s.pc.hasParked = true → s.parkedAt = s.armedAt) ?_ ?_
    · rintro s ⟨-, -, -, -, pc, -⟩ hasParked
      rw [pc] at hasParked
      cases hasParked
    · rintro s label next - parked onTime stepped
      exact parkedAt_step parked onTime stepped
  refine ⟨fun timedOut => ?_, fun wait phase member _ => current.running wait phase member,
    current.cancelled⟩
  rw [parked (by rw [timedOut]; rfl)]
  exact late.done timedOut

/-- A call that waits one millisecond in vain. -/
theorem never_early_in_vain :
    ∃ s : State Unit Unit Unit Nat, (readCall.interleavings.Reaches (OnTime readCall) s ∧
      s.pc = .done true) ∧ s.parkedAt.toNat + 1 ≤ s.doneAt.toNat := by
  have again : readCall.interleavings.Reaches (OnTime readCall) _ :=
    .step (.initial start_initial) (by exact ⟨trivial, trivial⟩) (.again rfl)
  have armed : readCall.interleavings.Reaches (OnTime readCall) _ :=
    .step again (by exact ⟨⟨⟨rfl, rfl⟩, by decide⟩, trivial⟩)
      (.addConditionTimer 0 0 rfl (by decide) List.not_mem_nil (by decide))
  have added : readCall.interleavings.Reaches (OnTime readCall) _ :=
    .step armed (by exact ⟨trivial, trivial⟩) (.addEvent true rfl (by decide) rfl)
  have parked : readCall.interleavings.Reaches (OnTime readCall) _ :=
    .step added (by exact ⟨trivial, rfl⟩) (.yieldToHold rfl)
  have later : readCall.interleavings.Reaches (OnTime readCall) _ :=
    .step parked (by exact ⟨trivial, trivial⟩) (.tick 1 (by decide))
  have expired : readCall.interleavings.Reaches (OnTime readCall) _ :=
    .step later (by exact ⟨rfl, trivial⟩) (.expire 1 1 (by decide) rfl)
  have tested : readCall.interleavings.Reaches (OnTime readCall) _ :=
    .step expired (by exact ⟨trivial, trivial⟩) (.test 1 (List.mem_singleton.mpr rfl))
  have set : readCall.interleavings.Reaches (OnTime readCall) _ :=
    .step tested (by exact ⟨trivial, trivial⟩) (.set 1 (List.mem_singleton.mpr rfl))
  have cancelled : readCall.interleavings.Reaches (OnTime readCall) _ :=
    .step set (by exact ⟨trivial, trivial⟩) (.cancelEvent 1 true (List.mem_singleton.mpr rfl) rfl)
  have resumed : readCall.interleavings.Reaches (OnTime readCall) _ :=
    .step cancelled (by exact ⟨trivial, trivial⟩)
      (.resume ⟨(), .fiber ()⟩ rfl (List.mem_singleton.mpr rfl) rfl)
  have checks : readCall.interleavings.Reaches (OnTime readCall) _ :=
    .step resumed (by exact ⟨trivial, trivial⟩) (.cancelTimer rfl rfl)
  have returned : readCall.interleavings.Reaches (OnTime readCall) _ :=
    .step checks (by exact ⟨trivial, trivial⟩) (.timedOut rfl rfl)
  exact ⟨_, ⟨returned, rfl⟩, (never_early returned).1 rfl⟩

/-- The timer of the first wait expires in the round of `idle` that reports the event; the
call retries and parks again, and the callback of the first wait cancels the second. -/
theorem early_after_retry :
    ∃ s : State Unit Unit Unit Nat, readCall.interleavings.Reachable s ∧
      ¬ NotEarly readCall s := by
  have again : readCall.interleavings.Reachable _ :=
    .step (.initial start_initial) trivial (.again rfl)
  have armed : readCall.interleavings.Reachable _ :=
    .step again trivial (.addConditionTimer 0 0 rfl (by decide) List.not_mem_nil (by decide))
  have added : readCall.interleavings.Reachable _ :=
    .step armed trivial (.addEvent true rfl (by decide) rfl)
  have parked : readCall.interleavings.Reachable _ := .step added trivial (.yieldToHold rfl)
  have later : readCall.interleavings.Reachable _ := .step parked trivial (.tick 1 (by decide))
  have expired : readCall.interleavings.Reachable _ :=
    .step later trivial (.expire 1 1 (by decide) rfl)
  have dispatched : readCall.interleavings.Reachable _ :=
    .step expired trivial (.operate (.idle [⟨3, { EPOLLIN := true }, true⟩])
      ⟨by decide, by simp; exact ⟨_, rfl, by decide⟩⟩ trivial rfl)
  have resumed : readCall.interleavings.Reachable _ :=
    .step dispatched trivial (.resume ⟨(), .fiber ()⟩ rfl (List.mem_singleton.mpr rfl) rfl)
  have checks : readCall.interleavings.Reachable _ := .step resumed trivial (.cancelTimer rfl rfl)
  have retries : readCall.interleavings.Reachable _ := .step checks trivial (.retry rfl rfl rfl)
  have againToo : readCall.interleavings.Reachable _ := .step retries trivial (.again rfl)
  have armedToo : readCall.interleavings.Reachable _ :=
    .step againToo trivial (.addConditionTimer 1 1 rfl (by decide) List.not_mem_nil (by decide))
  have addedToo : readCall.interleavings.Reachable _ :=
    .step armedToo trivial (.addEvent true rfl (by decide) rfl)
  have parkedToo : readCall.interleavings.Reachable _ := .step addedToo trivial (.yieldToHold rfl)
  have tested : readCall.interleavings.Reachable _ :=
    .step parkedToo trivial (.test 1 (List.mem_singleton.mpr rfl))
  have set : readCall.interleavings.Reachable _ :=
    .step tested trivial (.set 1 (List.mem_singleton.mpr rfl))
  have cancelled : readCall.interleavings.Reachable _ :=
    .step set trivial (.cancelEvent 1 true (List.mem_singleton.mpr rfl) rfl)
  have resumedToo : readCall.interleavings.Reachable _ :=
    .step cancelled trivial (.resume ⟨(), .fiber ()⟩ rfl (List.mem_singleton.mpr rfl) rfl)
  have checksToo : readCall.interleavings.Reachable _ :=
    .step resumedToo trivial (.cancelTimer rfl rfl)
  have returned : readCall.interleavings.Reachable _ := .step checksToo trivial (.timedOut rfl rfl)
  refine ⟨_, returned, fun notEarly => ?_⟩
  have late := notEarly.1 rfl
  exact absurd late (by decide)

end Exhy.TimedCall
