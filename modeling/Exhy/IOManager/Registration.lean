import Exhy.IOManager.Operations

/-!
# One registration

What an operation can do to a task that is registered for an event.  An operation that
neither adds nor deletes the event leaves the registration in place or schedules it, so
the task is not lost.
-/

namespace Exhy.IOManager

variable {Scheduler Fiber Callback : Type}

/-- What was handed to the schedulers, in order. -/
def scheduled (effects : List (Effect Scheduler Fiber Callback)) :
    List (Registration Scheduler Fiber Callback) :=
  effects.filterMap fun effect =>
    match effect.action with
    | .scheduled registration => some registration
    | _ => none

/-- The operation neither adds nor deletes the event. -/
def Op.Spares (fd : Nat) (event : Event) : Op Scheduler Fiber Callback → Prop
  | .addEvent otherFd otherEvent .. | .delEvent otherFd otherEvent _ =>
      otherFd.val ≠ fd ∨ otherEvent ≠ event
  | _ => True

/-- All that happened to the event is that a task was scheduled. -/
def OnlySchedules (effects : List (Effect Scheduler Fiber Callback)) (fd : Nat) (event : Event) :
    Prop :=
  ∀ effect ∈ effects, effect.fd = fd → effect.event = event →
    ∃ registration, effect.action = .scheduled registration

theorem Op.Does.onlySchedules {op : Op Scheduler Fiber Callback} {fd : Nat} {event : Event}
    {io : IOManager Scheduler Fiber Callback} {result : Result}
    {effects : List (Effect Scheduler Fiber Callback)} (does : op.Does io result effects)
    (spares : op.Spares fd event) : OnlySchedules effects fd event := by
  intro effect member sameFd sameEvent
  rcases does.kind with ⟨_, _, _, _, _, _, _, rfl, rfl⟩ | ⟨_, _, rfl, -, rfl⟩ | schedules
  · cases List.mem_singleton.mp member
    rcases spares with fdNe | eventNe
    · exact absurd sameFd fdNe
    · exact absurd sameEvent eventNe
  · cases List.mem_singleton.mp member
    rcases spares with fdNe | eventNe
    · exact absurd sameFd fdNe
    · exact absurd sameEvent eventNe
  · exact schedules effect member

section

variable [DecidableEq Scheduler] [DecidableEq Fiber] [DecidableEq Callback]
variable {io after : IOManager Scheduler Fiber Callback}
variable {log effects : List (Effect Scheduler Fiber Callback)}

/-- A registration is kept or scheduled. -/
theorem Invariant.kept_or_scheduled (inv : Invariant io log)
    (afterInv : Invariant after (log ++ effects)) {fd : Nat} {event : Event}
    (only : OnlySchedules effects fd event) :
    after.registered fd event = io.registered fd event ∨
      ∃ registration, io.registered fd event = some registration ∧
        registration ∈ scheduled effects := by
  have replays := inv.replay_effects afterInv fd event
  cases actions : history effects fd event with
  | nil =>
      rw [actions, replay, Option.some.injEq] at replays
      exact .inl replays.symm
  | cons action rest =>
      have member : action ∈ history effects fd event := by
        rw [actions]
        simp
      rw [history, List.mem_map] at member
      obtain ⟨effect, isEffect, rfl⟩ := member
      rw [List.mem_filter, decide_eq_true_eq] at isEffect
      obtain ⟨isEffect, sameFd, sameEvent⟩ := isEffect
      obtain ⟨registration, action⟩ := only effect isEffect sameFd sameEvent
      rw [actions, action] at replays
      cases before : io.registered fd event with
      | none =>
          rw [before, replay] at replays
          cases replays
          all_goals simp
      | some registered =>
          rw [before, replay] at replays
          split at replays
          next same =>
            subst same
            refine .inr ⟨registration, rfl, List.mem_filterMap.mpr ⟨effect, isEffect, ?_⟩⟩
            rw [action]
          next => cases replays

theorem addEvent_registers (inv : Invariant io log) {fd : Fd} {event : Event}
    (fits : fd.val * 3 / 2 < 2 ^ 31) (disarmed : event ∉ (io.contextAt fd.val).events) (cb : Option Callback)
    (self : Scheduler) (cur : Fiber) :
    ∃ after effects, io.addEvent fd event cb (some self) cur true = .ok (after, 0, effects) ∧
      after.registered fd.val event = some ⟨self, Task.ofCallback cb cur⟩ := by
  obtain ⟨after, effects, done, afterInv, rfl, -⟩ :=
    addEvent_spec inv fits disarmed cb self cur true
  refine ⟨after, _, done, ?_⟩
  have replays := inv.replay_effects afterInv fd.val event
  have nothing : io.registered fd.val event = none := by
    rw [registered_eq, FdContext.registration]
    simp [disarmed]
  rw [nothing] at replays
  simpa [history, replay] using replays.symm

/-- A cancelled event is disarmed. -/
theorem cancelEvent_disarms (inv : Invariant io log) {fd : Fd} {event : Event} {result : Bool}
    (done : io.cancelEvent fd event true = .ok (after, result, effects)) :
    after.registered fd.val event = none := by
  rw [cancelEvent, inv.lookup] at done
  split at done
  next outside =>
    cases done
    rw [registered, outside]
    rfl
  next fd_ctx here =>
    by_cases armed : event ∈ fd_ctx.events
    · obtain ⟨registration, -, fired, -⟩ := fire_spec inv here armed
      simp only [armed, not_true, if_false, Bool.true_eq_false, fired, Except.map,
        Except.ok.injEq, Prod.mk.injEq] at done
      rw [← done.1, registered, getElem?_consume_self here, Option.bind_some,
        FdContext.registration_disarm, if_pos rfl]
    · rw [if_pos armed] at done
      cases done
      rw [registered, here, Option.bind_some, FdContext.registration, if_neg armed]

end

end Exhy.IOManager
