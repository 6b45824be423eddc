import Exhy.Hook.Current

/-!
# A timed call keeps its timeout

A parked call has its timer in `m_timers`, or the timer's callback on the way, or is in a
queue.  This needs more than a fresh wait: a callback that runs between the insertion of
the timer and `addEvent` finds no event to cancel, and one whose `epoll_ctl` fails cancels
none, and neither comes back.
-/

namespace Exhy.TimedCall

open Library IOManager

variable {Scheduler Fiber Callback Ref : Type}
variable {call : TimedCall Scheduler Fiber} {s next : State Scheduler Fiber Callback Ref}

/-- The fiber is in a queue of a scheduler. -/
def Queued (call : TimedCall Scheduler Fiber) (s : State Scheduler Fiber Callback Ref) : Prop :=
  ∃ registration ∈ s.queue, registration.task = .fiber call.fiber

/-- A parked call has a timer, a callback of the current wait that has not finished, or a
place in a queue. -/
def KeepsTimeout (call : TimedCall Scheduler Fiber) (s : State Scheduler Fiber Callback Ref) :
    Prop :=
  s.pc = .parked → (∃ ref, s.timer = some ref ∧ ref ∈ s.manager.m_timers) ∨
    (∃ phase, (s.wait, phase) ∈ s.running) ∨ Queued call s

/-- The condition on the steps: a wait begins with nothing left over, no callback has
finished when its event is added, the `epoll_ctl` of a callback succeeds, and no `addEvent` makes
the table of contexts longer than an `int` counts. -/
def TimeoutKept (call : TimedCall Scheduler Fiber) (s : State Scheduler Fiber Callback Ref) :
    Label Scheduler Fiber Callback Ref → Prop
  | .addConditionTimer .. | .noTimer => s.running = [] ∧ s.cancelled = none
  | .addEvent _ => (s.cancelled = none ∨ ∃ wait, (wait, .cancelling) ∈ s.running) ∧
      call.fd.val * 3 / 2 < 2 ^ 31
  | .cancelEvent _ ctl => ctl = true
  | .operate op => op.Fits
  | _ => True

theorem TimeoutKept.noStale {label : Label Scheduler Fiber Callback Ref}
    (kept : TimeoutKept call s label) : NoStale s label := by
  cases label with
  | addConditionTimer ref now_ms => exact kept
  | noTimer => exact kept
  | _ => exact trivial

theorem TimeoutKept.tableFits {label : Label Scheduler Fiber Callback Ref}
    (kept : TimeoutKept call s label) : TableFits call label := by
  cases label with
  | addEvent ctl => exact kept.2
  | operate op => exact kept
  | _ => exact trivial

/-- The timer of the current wait will hand out its callback. -/
def HasTimer (s : State Scheduler Fiber Callback Ref) : Prop :=
  ∃ ref, s.timer = some ref ∧ ref ∈ s.manager.m_timers ∧
    (s.manager.timer ref).m_cb = some (.timeout s.wait)

/-- The call has armed its timer and waits or is about to. -/
def Pc.waits : Pc → Bool
  | .addEvent | .yield | .parked => true
  | _ => false

/-- The event has been added and the fiber has not been resumed. -/
def Pc.registered : Pc → Bool
  | .yield | .parked => true
  | _ => false

/-- What keeps a waiting call from waiting on its event alone. -/
structure Watched (call : TimedCall Scheduler Fiber) (s : State Scheduler Fiber Callback Ref) :
    Prop where
  timeout : s.pc.waits = true →
    HasTimer s ∨ (∃ phase, (s.wait, phase) ∈ s.running) ∨ s.cancelled.isSome
  setting : ∀ wait, (wait, .cancelling) ∈ s.running → s.cancelled.isSome
  cancelled : s.pc.registered = true → s.cancelled.isSome →
    (∃ wait, (wait, .cancelling) ∈ s.running) ∨ Queued call s
  registered : s.pc.registered = true →
    s.io.registered call.fd.val call.event = some ⟨call.scheduler, .fiber call.fiber⟩ ∨
      Queued call s

/-- A call that does not wait needs nothing. -/
theorem Watched.of_not_waits (notWaits : s.pc.waits = false)
    (setting : ∀ wait, (wait, .cancelling) ∈ s.running → s.cancelled.isSome) : Watched call s := by
  have notRegistered : s.pc.registered = false := by
    cases pc : s.pc <;> rw [pc] at notWaits <;> first | rfl | cases notWaits
  refine ⟨fun waits => ?_, setting, fun isRegistered => ?_, fun isRegistered => ?_⟩
  · rw [notWaits] at waits
    cases waits
  · rw [notRegistered] at isRegistered
    cases isRegistered
  · rw [notRegistered] at isRegistered
    cases isRegistered

theorem Queued.append {registrations : List (Registration Scheduler Fiber Callback)}
    (queued : Queued call s) : Queued call { s with queue := s.queue ++ registrations } := by
  obtain ⟨registration, member, isFiber⟩ := queued
  exact ⟨registration, List.mem_append_left _ member, isFiber⟩

/-- A one-shot timer stays in the set or hands out its callback. -/
theorem HasTimer.expire (own : OwnTimers call s) (hasTimer : HasTimer s) {now_ms : UInt64}
    {manager : TimerManager Ref HookCallback} {cbs : List (Option HookCallback)}
    (lists : TimerManager.Lists now_ms s.manager manager cbs) :
    HasTimer { s with manager := manager } ∨ (s.wait, .extracted) ∈ extracted cbs := by
  obtain ⟨ref, isTimer, member, isTimeout⟩ := hasTimer
  have once := (own ref member s.wait isTimeout).2.2.2.1
  rcases lists.oneShot ref member once with ⟨stays, same⟩ | handed
  · exact .inl ⟨ref, isTimer, stays, by rw [← isTimeout, same]⟩
  · rw [isTimeout] at handed
    exact .inr (mem_extracted.mpr ⟨handed, rfl⟩)

/-- A timer of another task does not take the place of the call's. -/
theorem HasTimer.timer (hasTimer : HasTimer s) {ref : Ref} (other : s.timer ≠ some ref)
    {manager : TimerManager Ref HookCallback}
    (touches : TimerManager.Touches ref s.manager manager) :
    HasTimer { s with manager := manager } := by
  obtain ⟨own, isTimer, member, isTimeout⟩ := hasTimer
  have different : own ≠ ref := by
    rintro rfl
    exact other isTimer
  obtain ⟨memberIff, same⟩ := touches own different
  exact ⟨own, isTimer, memberIff.mpr member, by rw [← isTimeout, same]⟩

theorem Watched.test (watched : Watched call s) (current : Current call s) {wait : Nat}
    (member : (wait, .extracted) ∈ s.running) : Watched call (s.test wait) where
  timeout waits := by
    rcases watched.timeout waits with timer | underWay | isCancelled
    · exact .inl timer
    · rw [State.test]
      split
      next passes =>
        right; left
        exact ⟨.tested, by rw [current.running wait _ member]; simp⟩
      next fails =>
        rw [Bool.and_eq_true, not_and] at fails
        have isAlive : s.alive = true := by
          rw [State.alive]
          cases pc : s.pc with
          | done timedOut =>
              have notDone : s.pc.waits = true := waits
              rw [pc] at notDone
              cases notDone
          | _ => rfl
        right; right
        simpa [Option.isSome_iff_ne_none] using fails isAlive
    · exact .inr (.inr isCancelled)
  setting other inRunning := by
    simp only [State.test] at inRunning
    split at inRunning
    · rcases List.mem_cons.mp inRunning with same | rest
      · cases same
      · exact watched.setting other (List.mem_of_mem_erase rest)
    · exact watched.setting other (List.mem_of_mem_erase inRunning)
  cancelled isRegistered isCancelled := by
    rcases watched.cancelled isRegistered isCancelled with ⟨other, cancelling⟩ | queued
    · left
      have stays : (other, .cancelling) ∈ s.running.erase (wait, .extracted) :=
        (List.mem_erase_of_ne (by simp)).mpr cancelling
      refine ⟨other, ?_⟩
      simp only [State.test]
      split
      · exact List.mem_cons_of_mem _ stays
      · exact stays
    · exact .inr queued
  registered := watched.registered

variable [DecidableEq Scheduler] [DecidableEq Fiber] [DecidableEq Callback]

/-- An operation that leaves the event in place or schedules it keeps the call watched. -/
theorem Watched.perform (watched : Watched call s) (inv : Invariant s.io s.log)
    {io : IOManager Scheduler Fiber Callback} {effects : List (Effect Scheduler Fiber Callback)}
    (afterInv : Invariant io (s.log ++ effects))
    (only : OnlySchedules effects call.fd.val call.event) : Watched call (s.perform io effects) where
  timeout := watched.timeout
  setting := watched.setting
  cancelled isRegistered isCancelled :=
    (watched.cancelled isRegistered isCancelled).imp_right Queued.append
  registered isRegistered := by
    rcases watched.registered isRegistered with here | queued
    · rcases inv.kept_or_scheduled afterInv only with same | ⟨registration, was, pushed⟩
      · exact .inl (same.trans here)
      · rw [here, Option.some.injEq] at was
        exact .inr ⟨registration, List.mem_append_right _ pushed, was ▸ rfl⟩
    · exact .inr queued.append

/-- The callback of the current wait is still under way after a step of some callback, unless
it is the one that has ended. -/
theorem running_erase {running : List (Nat × Phase)} {wait : Nat} (ended : Nat × Phase)
    (underWay : ∃ phase, (wait, phase) ∈ running) :
    (∃ phase, (wait, phase) ∈ running.erase ended) ∨ ended.1 = wait := by
  obtain ⟨phase, member⟩ := underWay
  by_cases same : (wait, phase) = ended
  · exact .inr (congrArg Prod.fst same).symm
  · exact .inl ⟨phase, (List.mem_erase_of_ne same).mpr member⟩

theorem Watched.addEvent (watched : Watched call s) (inv : Invariant s.io s.log)
    (pc : s.pc = .addEvent) (fits : call.fd.val * 3 / 2 < 2 ^ 31) (disarmed : call.event ∉ (s.io.contextAt call.fd.val).events)
    {ctl : Bool} {io : IOManager Scheduler Fiber Callback} {rt : Int}
    {effects : List (Effect Scheduler Fiber Callback)}
    (kept : s.cancelled = none ∨ ∃ wait, (wait, .cancelling) ∈ s.running)
    (done : s.io.addEvent call.fd call.event none (some call.scheduler) call.fiber ctl =
      .ok (io, rt, effects)) :
    Watched call ({ s with pc := if rt = 0 then .yield else .unwind }.perform io effects) := by
  cases ctl with
  | false =>
      obtain ⟨after, effects, done', -⟩ :=
        addEvent_spec inv fits disarmed none call.scheduler call.fiber false
      rw [done] at done'
      cases done'
      exact .of_not_waits rfl watched.setting
  | true =>
      obtain ⟨after, effects, done', registered⟩ :=
        addEvent_registers inv fits disarmed none call.scheduler call.fiber
      rw [done] at done'
      cases done'
      refine ⟨fun _ => watched.timeout (by rw [pc]; rfl), watched.setting, fun _ isCancelled => ?_,
        fun _ => .inl registered⟩
      rcases kept with notCancelled | cancelling
      · have some : s.cancelled.isSome := isCancelled
        rw [notCancelled] at some
        cases some
      · exact .inl cancelling

theorem Watched.cancelEvent (watched : Watched call s) (inv : Invariant s.io s.log)
    {wait : Nat} (member : (wait, .cancelling) ∈ s.running)
    {io : IOManager Scheduler Fiber Callback} {result : Bool}
    {effects : List (Effect Scheduler Fiber Callback)}
    (done : s.io.cancelEvent call.fd call.event true = .ok (io, result, effects)) :
    Watched call
      ({ s with running := s.running.erase (wait, .cancelling) }.perform io effects) := by
  obtain ⟨after, ok, effects', done', afterInv, does, -⟩ :=
    cancelEvent_spec inv call.fd call.event true
  rw [done] at done'
  cases done'
  have queued (isRegistered : s.pc.registered = true) :
      Queued call ({ s with running := s.running.erase (wait, .cancelling) }.perform io effects) := by
    rcases watched.registered isRegistered with here | queued
    · have only : OnlySchedules effects call.fd.val call.event := does.onlySchedules trivial
      rcases inv.kept_or_scheduled afterInv only with same | ⟨registration, was, pushed⟩
      · rw [cancelEvent_disarms inv done, here] at same
        cases same
      · rw [here, Option.some.injEq] at was
        exact ⟨registration, List.mem_append_right _ pushed, was ▸ rfl⟩
    · exact queued.append
  refine ⟨fun waits => ?_, fun other inRunning => ?_, fun isRegistered _ => .inr (queued isRegistered),
    fun isRegistered => .inr (queued isRegistered)⟩
  · rcases watched.timeout waits with timer | underWay | isCancelled
    · exact .inl timer
    · rcases running_erase (wait, .cancelling) underWay with stays | ended
      · exact .inr (.inl stays)
      · exact .inr (.inr (watched.setting wait member))
    · exact .inr (.inr isCancelled)
  · exact watched.setting other (List.mem_of_mem_erase inRunning)

variable [LinearOrder Ref]

theorem watched_step {label : Label Scheduler Fiber Callback Ref} (finite : call.timeout_ms ≠ infinite)
    (current : Current call s) (inv : Invariant s.io s.log) (sorted : s.manager.Sorted)
    (kept : TimeoutKept call s label) (watched : Watched call s) (stepped : call.Step s label next) :
    Watched call next := by
  cases stepped with
  | addConditionTimer ref now_ms pc finite fresh =>
      refine ⟨fun _ => .inl ⟨ref, rfl, TimerManager.addTimer_mem fresh .., ?_⟩, watched.setting,
        (fun isRegistered => by cases isRegistered), (fun isRegistered => by cases isRegistered)⟩
      rw [TimerManager.timer_addTimer_self, TimerManager.newTimer]
  | noTimer pc isInfinite => exact absurd isInfinite finite
  | addEvent ctl pc disarmed done => exact watched.addEvent inv pc kept.2 disarmed kept.1 done
  | yieldToHold pc =>
      exact ⟨fun _ => watched.timeout (by rw [pc]; rfl), watched.setting,
        fun _ => watched.cancelled (by rw [pc]; rfl), fun _ => watched.registered (by rw [pc]; rfl)⟩
  | expire now_ms now_timer past done =>
      have lists := TimerManager.listExpiredCb_spec sorted done
      refine ⟨fun waits => ?_, fun wait member => ?_, fun isRegistered isCancelled => ?_,
        watched.registered⟩
      · rcases watched.timeout waits with timer | ⟨phase, underWay⟩ | isCancelled
        · rcases timer.expire current.timers lists with stays | handed
          · exact .inl stays
          · exact .inr (.inl ⟨_, List.mem_append_right _ handed⟩)
        · exact .inr (.inl ⟨phase, List.mem_append_left _ underWay⟩)
        · exact .inr (.inr isCancelled)
      · rcases List.mem_append.mp member with old | new
        · exact watched.setting wait old
        · cases (mem_extracted.mp new).2
      · apply (watched.cancelled isRegistered isCancelled).imp_left
        rintro ⟨wait, cancelling⟩
        exact ⟨wait, List.mem_append_left _ cancelling⟩
  | test wait member => exact watched.test current member
  | set wait member =>
      exact ⟨fun _ => .inr (.inr rfl), fun _ _ => rfl, fun _ _ => .inl ⟨wait, by simp⟩,
        watched.registered⟩
  | cancelEvent wait ctl member done =>
      cases kept
      exact watched.cancelEvent inv member done
  | operate op allowed spares done =>
      obtain ⟨after, result, effects, done', afterInv, does⟩ := exec_spec inv allowed kept
      rw [done] at done'
      cases done'
      exact watched.perform inv afterInv (does.onlySchedules spares)
  | take registration member other =>
      have stays : Queued call s → Queued call
          { s with queue := s.queue.erase registration } := by
        rintro ⟨own, inQueue, isFiber⟩
        exact ⟨own, (List.mem_erase_of_ne (by rintro rfl; exact other isFiber)).mpr inQueue, isFiber⟩
      exact ⟨watched.timeout, watched.setting,
        fun isRegistered isCancelled =>
          (watched.cancelled isRegistered isCancelled).imp_right stays,
        fun isRegistered => (watched.registered isRegistered).imp_right stays⟩
  | timer ref op other fresh done =>
      obtain ⟨-, touches, -⟩ := TimerOp.exec_spec sorted fresh done
      exact ⟨fun waits => (watched.timeout waits).imp_left fun timer => timer.timer other touches,
        watched.setting, watched.cancelled, watched.registered⟩
  | tick clock => exact ⟨watched.timeout, watched.setting, watched.cancelled, watched.registered⟩
  | _ => exact .of_not_waits rfl watched.setting

/-- In every run in which each wait begins with nothing left over, no callback has finished
when its event is added, the `epoll_ctl` of each callback succeeds, and the table of contexts stays
an `int` long, a parked call keeps its timeout. -/
theorem timeout_kept (finite : call.timeout_ms ≠ infinite)
    (reached : (call.interleavings :
      System (State Scheduler Fiber Callback Ref) _).Reaches (TimeoutKept call) s) :
    KeepsTimeout call s := by
  have inv : (Invariant s.io s.log ∧ s.manager.Sorted) ∧ Current call s ∧ Watched call s := by
    refine reached.invariant (fun s => (Invariant s.io s.log ∧ s.manager.Sorted) ∧
      Current call s ∧ Watched call s) ?_ ?_
    · rintro s ⟨books, -, sorted, noTimers, pc, -, -, notCancelled, noCallback⟩
      refine ⟨⟨books, sorted⟩, ⟨.of_none noTimers, ?_, ?_⟩, .of_not_waits (by rw [pc]; rfl) ?_⟩
      · simp [noCallback]
      · simp [notCancelled]
      · simp [noCallback]
    · rintro s label next - ⟨⟨books, sorted⟩, current, watched⟩ kept stepped
      exact ⟨⟨invariant_step books kept.tableFits stepped, sorted_step sorted stepped⟩,
        current_step current sorted kept.noStale stepped,
        watched_step finite current books sorted kept watched stepped⟩
  intro parked
  obtain ⟨-, current, watched⟩ := inv
  have waits : s.pc.waits = true := by
    rw [parked]
    rfl
  have isRegistered : s.pc.registered = true := by
    rw [parked]
    rfl
  rcases watched.timeout waits with ⟨ref, isTimer, member, -⟩ | underWay | isCancelled
  · exact .inl ⟨ref, isTimer, member⟩
  · exact .inr (.inl underWay)
  · rcases watched.cancelled isRegistered isCancelled with ⟨wait, cancelling⟩ | queued
    · exact .inr (.inl ⟨_, current.running wait _ cancelling ▸ cancelling⟩)
    · exact .inr (.inr queued)

/-- `read` on descriptor 3 with a timeout of one millisecond. -/
def readCall : TimedCall Unit Unit where
  fiber := ()
  scheduler := ()
  fd := 3
  event := .READ
  timeout_ms := 1
  retries := true

/-- The call at its first system call, with no timers and no armed events. -/
def start : State Unit Unit Unit Nat where
  io := .new
  log := []
  queue := []
  manager := { timer := fun _ => {}, m_timers := [], m_previouseTime := 0 }
  clock := 0
  pc := .syscall
  wait := 0
  timer := none
  cancelled := none
  running := []
  armedAt := 0
  parkedAt := 0
  doneAt := 0

theorem start_initial : readCall.Initial start :=
  ⟨new_invariant, by decide, List.Pairwise.nil, by simp [start], rfl, rfl, rfl, rfl, rfl⟩

/-- The timer of the parked call has expired. -/
theorem timeout_kept_expired :
    ∃ s : State Unit Unit Unit Nat, (readCall.interleavings.Reaches (TimeoutKept readCall) s ∧
      s.pc = .parked ∧ s.manager.m_timers = []) ∧ ∃ phase, (1, phase) ∈ s.running := by
  have again : readCall.interleavings.Reaches (TimeoutKept readCall) _ :=
    .step (.initial start_initial) (by exact trivial) (.again rfl)
  have armed : readCall.interleavings.Reaches (TimeoutKept readCall) _ :=
    .step again (by exact ⟨rfl, rfl⟩)
      (.addConditionTimer 0 0 rfl (by decide) List.not_mem_nil (by decide))
  have added : readCall.interleavings.Reaches (TimeoutKept readCall) _ :=
    .step armed (by exact ⟨.inl rfl, by decide⟩) (.addEvent true rfl (by decide) rfl)
  have parked : readCall.interleavings.Reaches (TimeoutKept readCall) _ :=
    .step added (by exact trivial) (.yieldToHold rfl)
  have later : readCall.interleavings.Reaches (TimeoutKept readCall) _ :=
    .step parked (by exact trivial) (.tick 1 (by decide))
  have expired : readCall.interleavings.Reaches (TimeoutKept readCall) _ :=
    .step later (by exact trivial) (.expire 1 1 (by decide) rfl)
  refine ⟨_, ⟨expired, rfl, rfl⟩, ?_⟩
  have keeps := timeout_kept (by decide) expired rfl
  rcases keeps with ⟨ref, -, member⟩ | underWay | ⟨_, member, -⟩
  · cases member
  · exact underWay
  · cases member

/-- The timer expires and its callback runs before the event is added; then the call parks
with its event alone. -/
theorem timeout_lost :
    ∃ s : State Unit Unit Unit Nat, readCall.interleavings.Reachable s ∧
      ¬ KeepsTimeout readCall s := by
  have again : readCall.interleavings.Reachable _ :=
    .step (.initial start_initial) trivial (.again rfl)
  have armed : readCall.interleavings.Reachable _ :=
    .step again trivial (.addConditionTimer 0 0 rfl (by decide) List.not_mem_nil (by decide))
  have later : readCall.interleavings.Reachable _ := .step armed trivial (.tick 1 (by decide))
  have expired : readCall.interleavings.Reachable _ :=
    .step later trivial (.expire 1 1 (by decide) rfl)
  have tested : readCall.interleavings.Reachable _ :=
    .step expired trivial (.test 1 (List.mem_singleton.mpr rfl))
  have set : readCall.interleavings.Reachable _ :=
    .step tested trivial (.set 1 (List.mem_singleton.mpr rfl))
  have cancelled : readCall.interleavings.Reachable _ :=
    .step set trivial (.cancelEvent 1 true (List.mem_singleton.mpr rfl) rfl)
  have added : readCall.interleavings.Reachable _ :=
    .step cancelled trivial (.addEvent true rfl (by decide) rfl)
  have parked : readCall.interleavings.Reachable _ := .step added trivial (.yieldToHold rfl)
  refine ⟨_, parked, fun keeps => ?_⟩
  rcases keeps rfl with ⟨ref, -, member⟩ | ⟨phase, member⟩ | ⟨_, member, -⟩
  · cases member
  · cases member
  · cases member

end Exhy.TimedCall
