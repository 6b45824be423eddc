import Exhy.IOManager.Operations
import Mathlib.Logic.Function.Basic

/-!
# Dispatch of reported events

`epoll_wait` fills a worker's array before the mutex of any context is taken, so other
threads may arm and disarm events between the report and its dispatch.  Here reporting
is one step and the dispatch of each entry another.
-/

namespace Exhy.IOManager

open Library

variable {Worker Scheduler Fiber Callback : Type}

/-- One entry of `events[]`: the descriptor and what was reported for it. -/
structure Report where
  fd : Fd
  events : EpollEvents
  deriving DecidableEq, Repr

/-- The events that are reported by name, without the error and hang-up bits. -/
def EpollEvents.reported (events : EpollEvents) : Finset Event :=
  (if events.EPOLLIN then {Event.READ} else ∅) ∪ (if events.EPOLLOUT then {Event.WRITE} else ∅)

/-- The table, what each worker still has to dispatch, and the assertion that has failed. -/
structure Polling (Worker Scheduler Fiber Callback : Type) where
  io : IOManager Scheduler Fiber Callback
  reports : Worker → List Report
  fault : Option Fault

inductive PollingLabel (Worker Scheduler Fiber Callback : Type) where
  | call (op : Op Scheduler Fiber Callback)
  | epollWait (worker : Worker) (reports : List Report)
  | dispatch (worker : Worker) (ctl : Bool)

/-- The operations that any thread may call. -/
def Op.External : Op Scheduler Fiber Callback → Prop
  | .idle _ => False
  | _ => True

namespace Polling

/-- The state after an operation on the table: the new table, or the failure. -/
def settle (polling : Polling Worker Scheduler Fiber Callback) :
    Except Fault (IOManager Scheduler Fiber Callback × List (Effect Scheduler Fiber Callback)) →
    Polling Worker Scheduler Fiber Callback
  | .ok (io, _) => { polling with io := io }
  | .error fault => { polling with fault := some fault }

variable [DecidableEq Worker] [DecidableEq Scheduler] [DecidableEq Fiber] [DecidableEq Callback]

inductive Step : Polling Worker Scheduler Fiber Callback →
    PollingLabel Worker Scheduler Fiber Callback →
    Polling Worker Scheduler Fiber Callback → Prop where
  | call {polling : Polling Worker Scheduler Fiber Callback}
      (op : Op Scheduler Fiber Callback) : polling.fault = none → op.External →
      Step polling (.call op) (polling.settle (op.exec polling.io))
  /-- The kernel reports armed events by name, each descriptor once; errors and hang-ups
  are reported whatever is armed. -/
  | epollWait {polling : Polling Worker Scheduler Fiber Callback} (worker : Worker)
      (reports : List Report) : polling.fault = none → polling.reports worker = [] →
      (reports.map Report.fd).Nodup →
      (∀ report ∈ reports, ∃ fd_ctx, polling.io.m_fdContexts[report.fd.val]? = some fd_ctx ∧
        report.events.reported ⊆ fd_ctx.events) →
      Step polling (.epollWait worker reports)
        { polling with reports := Function.update polling.reports worker reports }
  | dispatch {polling : Polling Worker Scheduler Fiber Callback} (worker : Worker)
      (ctl : Bool) {report : Report} {rest : List Report} : polling.fault = none →
      polling.reports worker = report :: rest →
      Step polling (.dispatch worker ctl)
        ({ polling with reports := Function.update polling.reports worker rest }.settle
          (polling.io.dispatch ⟨report.fd, report.events, ctl⟩))

end Polling

/-- A fresh `IOManager` whose workers have nothing to dispatch. -/
def polling (Worker Scheduler Fiber Callback : Type) [DecidableEq Worker]
    [DecidableEq Scheduler] [DecidableEq Fiber] [DecidableEq Callback] :
    System (Polling Worker Scheduler Fiber Callback)
      (PollingLabel Worker Scheduler Fiber Callback) where
  initial polling := polling = ⟨new, fun _ => [], none⟩
  step := Polling.Step

/-! ## Triggering what is armed -/

/-- The assertion at the head of `triggerEvent`. -/
def notArmed : Fault := .assertion "events & event"

section Trigger

variable {io : IOManager Scheduler Fiber Callback}

theorem triggerEvent_armed {fd_ctx : FdContext Scheduler Fiber Callback} {event : Event}
    (armed : event ∈ fd_ctx.events) :
    fd_ctx.triggerEvent event = .error .nullScheduler ∨
      ∃ left effects, fd_ctx.triggerEvent event = .ok (left, effects) ∧
        left.events = fd_ctx.events.erase event := by
  simp only [FdContext.triggerEvent, if_pos armed]
  split
  · exact .inl rfl
  · split <;> exact .inr ⟨_, _, rfl, FdContext.events_setContext _⟩

theorem fire_armed {fd : Nat} {event : Event} {fd_ctx : FdContext Scheduler Fiber Callback}
    (here : io.m_fdContexts[fd]? = some fd_ctx) (armed : event ∈ fd_ctx.events) :
    io.fire fd event = .error .nullScheduler ∨
      ∃ after effects left, io.fire fd event = .ok (after, effects) ∧
        after.m_fdContexts[fd]? = some left ∧ left.events = fd_ctx.events.erase event := by
  have inside : fd < io.m_fdContexts.length := (List.getElem?_eq_some_iff.mp here).1
  rcases triggerEvent_armed armed with crashed | ⟨left, effects, triggered, leftEvents⟩
  · left
    simp only [fire, here, crashed]
  · right
    refine ⟨_, effects, left, by simp only [fire, here, triggered]; rfl, ?_, leftEvents⟩
    simp [setFdContext, inside]

theorem fireIf_armed {fd : Nat} {mask : Finset Event} {event : Event}
    {fd_ctx : FdContext Scheduler Fiber Callback} (here : io.m_fdContexts[fd]? = some fd_ctx)
    (armed : event ∈ mask → event ∈ fd_ctx.events) :
    io.fireIf fd mask event = .error .nullScheduler ∨
      ∃ after effects left, io.fireIf fd mask event = .ok (after, effects) ∧
        after.m_fdContexts[fd]? = some left ∧ ∀ other, other ≠ event →
          (other ∈ left.events ↔ other ∈ fd_ctx.events) := by
  rw [fireIf]
  by_cases wanted : event ∈ mask
  · rw [if_pos wanted]
    rcases fire_armed here (armed wanted) with crashed | ⟨after, effects, left, done, found, eq⟩
    · exact .inl crashed
    · refine .inr ⟨after, effects, left, done, found, fun other different => ?_⟩
      rw [eq, Finset.mem_erase]
      simp [different]
  · rw [if_neg wanted]
    exact .inr ⟨io, [], fd_ctx, rfl, here, fun _ _ => Iff.rfl⟩

/-- Triggering armed events never fails the assertion: the first trigger leaves the
second event armed. -/
theorem fireAll_armed {fd : Nat} {mask : Finset Event}
    {fd_ctx : FdContext Scheduler Fiber Callback} (here : io.m_fdContexts[fd]? = some fd_ctx)
    (armed : mask ⊆ fd_ctx.events) :
    io.fireAll fd mask = .error .nullScheduler ∨ ∃ result, io.fireAll fd mask = .ok result := by
  rcases fireIf_armed here fun wanted : Event.READ ∈ mask => armed wanted with
    crashed | ⟨middle, reads, middleCtx, readOk, middleHere, kept⟩
  · left
    simp only [fireAll, crashed, bind, Except.bind]
  · have writeArmed : Event.WRITE ∈ mask → Event.WRITE ∈ middleCtx.events := fun wanted =>
      (kept .WRITE (by decide)).mpr (armed wanted)
    rcases fireIf_armed middleHere writeArmed with crashed | ⟨after, writes, -, writeOk, -⟩
    · left
      simp only [fireAll, readOk, crashed, bind, Except.bind]
    · right
      simp only [fireAll, readOk, writeOk, bind, Except.bind]
      exact ⟨_, rfl⟩

theorem external_asserts [DecidableEq Scheduler] [DecidableEq Fiber] [DecidableEq Callback]
    {op : Op Scheduler Fiber Callback} (isExternal : op.External) :
    op.exec io ≠ .error notArmed := by
  cases op with
  | addEvent fd event cb self cur ctl =>
      simp only [Op.exec, Op.call, addEvent]
      split
      · simp [Except.map, notArmed]
      · split
        · simp [Except.map, notArmed]
        · split
          · simp [Except.map]
          · split <;> simp [Except.map, notArmed]
  | delEvent fd event ctl =>
      simp only [Op.exec, Op.call, delEvent]
      split
      · simp [Except.map]
      · split
        · simp [Except.map]
        · split <;> simp [Except.map]
  | cancelEvent fd event ctl =>
      simp only [Op.exec, Op.call, cancelEvent]
      split
      · simp [Except.map]
      next fd_ctx found =>
        have here := getElem?_of_lookup found
        by_cases armed : event ∈ fd_ctx.events
        · rcases fire_armed here armed with crashed | ⟨after, effects, left, done, -⟩
          · cases ctl <;> simp [armed, crashed, Except.map, notArmed]
          · cases ctl <;> simp [armed, done, Except.map]
        · simp [armed, Except.map]
  | cancelAll fd ctl =>
      simp only [Op.exec, Op.call, cancelAll]
      split
      · simp [Except.map]
      next fd_ctx found =>
        have here := getElem?_of_lookup found
        rcases fireAll_armed here (Finset.Subset.refl _) with crashed | ⟨⟨after, effects⟩, done⟩
        · cases ctl <;> simp only [crashed] <;> split <;> simp [Except.map, notArmed]
        · by_cases empty : fd_ctx.events = ∅
          · simp [empty, Except.map]
          · cases ctl with
            | false => simp [empty, Except.map]
            | true =>
                simp only [if_neg empty, done]
                by_cases cleared : after.m_fdContexts[fd.val]?.map FdContext.events = some ∅
                · simp [cleared, Except.map]
                · simp [cleared, Except.map, notArmed]
  | idle ready => exact isExternal.elim

end Trigger

/-! ## Which dispatch goes wrong -/

/-- An event that was reported by name has been disarmed, while another event is armed
that was reported as well or that an error or hang-up stands for. -/
def PartlyDisarmed (io : IOManager Scheduler Fiber Callback) (fd : Fd)
    (events : EpollEvents) : Prop :=
  ∃ gone ∈ events.reported, gone ∉ (io.contextAt fd.val).events ∧
    ∃ left ∈ (io.contextAt fd.val).events,
      left ∈ events.reported ∨ events.EPOLLERR = true ∨ events.EPOLLHUP = true

section Exact

variable {io : IOManager Scheduler Fiber Callback}

theorem realEvents_eq (events : EpollEvents) (armed : Finset Event) :
    events.realEvents armed = events.reported ∪
      if events.EPOLLERR || events.EPOLLHUP then armed else ∅ := by
  obtain ⟨isIn, isOut, isErr, isHup⟩ := events
  ext event
  by_cases read : Event.READ ∈ armed <;> by_cases write : Event.WRITE ∈ armed <;>
    cases event <;> cases isIn <;> cases isOut <;> cases isErr <;> cases isHup <;>
      simp [EpollEvents.realEvents, EpollEvents.reported, read, write]

/-- The events of a dispatch are neither all armed nor all disarmed exactly when some
were disarmed since the report and some were not. -/
theorem partlyDisarmed_iff (fd : Fd) (events : EpollEvents) :
    io.PartlyDisarmed fd events ↔
      (io.contextAt fd.val).events ∩ events.realEvents (io.contextAt fd.val).events ≠ ∅ ∧
        ¬ events.realEvents (io.contextAt fd.val).events ⊆ (io.contextAt fd.val).events := by
  rw [PartlyDisarmed, realEvents_eq]
  generalize (io.contextAt fd.val).events = armed
  rw [ne_eq, ← Finset.not_nonempty_iff_eq_empty, not_not, Finset.not_subset]
  constructor
  · rintro ⟨gone, reported, disarmed, left, leftArmed, cause⟩
    refine ⟨⟨left, Finset.mem_inter.mpr ⟨leftArmed, Finset.mem_union.mpr ?_⟩⟩,
      gone, Finset.mem_union_left _ reported, disarmed⟩
    rcases cause with byName | err | hup
    · exact .inl byName
    · simp [err, leftArmed]
    · simp [hup, leftArmed]
  · rintro ⟨⟨left, leftBoth⟩, gone, goneReal, disarmed⟩
    obtain ⟨leftArmed, leftReal⟩ := Finset.mem_inter.mp leftBoth
    have goneReported : gone ∈ events.reported := by
      rcases Finset.mem_union.mp goneReal with reported | covered
      · exact reported
      · split at covered
        · exact absurd covered disarmed
        · simp at covered
    refine ⟨gone, goneReported, disarmed, left, leftArmed, ?_⟩
    rcases Finset.mem_union.mp leftReal with reported | covered
    · exact .inl reported
    · split at covered
      next all => exact .inr (by simpa using all)
      · simp at covered

theorem dispatch_armed {ready : Ready}
    (condition : ready.ctl = true → ¬ io.PartlyDisarmed ready.fd ready.events) :
    io.dispatch ready ≠ .error notArmed := by
  simp only [dispatch]
  split
  · simp [notArmed]
  next fd_ctx here =>
    rw [partlyDisarmed_iff, contextAt_eq here] at condition
    by_cases nothing : fd_ctx.events ∩ ready.events.realEvents fd_ctx.events = ∅
    · simp [nothing]
    · rw [if_neg nothing]
      cases ctlEq : ready.ctl with
      | false => simp
      | true =>
          have armed : ready.events.realEvents fd_ctx.events ⊆ fd_ctx.events := by
            by_contra notSubset
            exact condition ctlEq ⟨nothing, notSubset⟩
          rcases fireAll_armed here armed with crashed | ⟨result, done⟩
          · simp [crashed, notArmed]
          · simp [done]

/-- With contexts that agree with their event bits, a mask that is not all armed fails
the assertion: at `READ` if that is the one missing, else at `WRITE`. -/
theorem fireAll_asserts {fd : Nat} {mask : Finset Event}
    {fd_ctx : FdContext Scheduler Fiber Callback} (here : io.m_fdContexts[fd]? = some fd_ctx)
    (consistent : ∀ event, fd_ctx.Consistent event) (missing : ¬ mask ⊆ fd_ctx.events) :
    io.fireAll fd mask = .error notArmed := by
  have stops {table : IOManager Scheduler Fiber Callback} {event : Event}
      {ctx : FdContext Scheduler Fiber Callback} (found : table.m_fdContexts[fd]? = some ctx)
      (wanted : event ∈ mask) (disarmed : event ∉ ctx.events) :
      table.fireIf fd mask event = .error notArmed := by
    simp only [fireIf, if_pos wanted, fire, found, FdContext.triggerEvent, if_neg disarmed]
    rfl
  by_cases readMissing : Event.READ ∈ mask ∧ Event.READ ∉ fd_ctx.events
  · simp only [fireAll, stops here readMissing.1 readMissing.2, bind, Except.bind]
  · obtain ⟨gone, goneWanted, goneDisarmed⟩ := Finset.not_subset.mp missing
    cases gone with
    | READ => exact absurd ⟨goneWanted, goneDisarmed⟩ readMissing
    | WRITE =>
        by_cases readWanted : Event.READ ∈ mask
        · have readArmed : Event.READ ∈ fd_ctx.events := by
            by_contra disarmed
            exact readMissing ⟨readWanted, disarmed⟩
          obtain ⟨registration, -, triggered⟩ :=
            FdContext.triggerEvent_spec (consistent .READ) readArmed
          have inside : fd < io.m_fdContexts.length := (List.getElem?_eq_some_iff.mp here).1
          have readOk : io.fireIf fd mask .READ = .ok (io.consume fd fd_ctx .READ,
              [⟨fd_ctx.fd, .READ, .scheduled registration⟩]) := by
            simp only [fireIf, if_pos readWanted, fire, here, triggered, IOManager.consume]
          have writeStops := stops (getElem?_consume_self here .READ) goneWanted
            (by simpa using goneDisarmed)
          simp only [fireAll, readOk, writeStops, bind, Except.bind]
        · have readOk : io.fireIf fd mask .READ = .ok (io, []) := by
            rw [fireIf, if_neg readWanted]
          simp only [fireAll, readOk, stops here goneWanted goneDisarmed, bind, Except.bind]

/-- The condition is exact: between consistent contexts, a dispatch fails the assertion
if and only if its `epoll_ctl` succeeds and its events are partly disarmed. -/
theorem dispatch_asserts_iff {ready : Ready}
    (consistent : ∀ fd_ctx ∈ io.m_fdContexts, ∀ event, fd_ctx.Consistent event)
    (inside : ready.fd.val < io.m_fdContexts.length) :
    io.dispatch ready = .error notArmed ↔
      ready.ctl = true ∧ io.PartlyDisarmed ready.fd ready.events := by
  constructor
  · intro asserts
    by_contra condition
    exact dispatch_armed (fun succeeded partly => condition ⟨succeeded, partly⟩) asserts
  · rintro ⟨succeeded, partly⟩
    have here := List.getElem?_eq_getElem inside
    rw [partlyDisarmed_iff, contextAt_eq here] at partly
    simp only [dispatch, here, if_neg partly.1, succeeded]
    exact fireAll_asserts here (consistent _ (List.getElem_mem inside)) partly.2

end Exact

/-! ## Runs -/

/-- In every run in which no dispatch finds its events partly disarmed, unless its
`epoll_ctl` fails, the assertion of `triggerEvent` never fails. -/
theorem triggerEvent_asserts [DecidableEq Worker] [DecidableEq Scheduler] [DecidableEq Fiber]
    [DecidableEq Callback] {state : Polling Worker Scheduler Fiber Callback}
    (reached : (polling Worker Scheduler Fiber Callback).Reaches
      (fun state label => ∀ worker report rest, label = .dispatch worker true →
        state.reports worker = report :: rest →
        ¬ state.io.PartlyDisarmed report.fd report.events) state) :
    state.fault ≠ some notArmed := by
  refine reached.invariant (fun state => state.fault ≠ some notArmed) ?_ ?_
  · rintro state rfl
    simp
  · rintro state label next - noFault condition stepped
    cases stepped with
    | call op running isExternal =>
        have never : op.exec state.io ≠ .error notArmed := external_asserts isExternal
        cases result : op.exec state.io with
        | ok pair => simpa [Polling.settle] using noFault
        | error fault =>
            rw [result] at never
            simpa [Polling.settle] using never
    | epollWait worker reports running => simpa using noFault
    | dispatch worker ctl running pending =>
        rename_i report rest
        have never : state.io.dispatch ⟨report.fd, report.events, ctl⟩ ≠ .error notArmed := by
          refine dispatch_armed fun succeeded => ?_
          cases (succeeded : ctl = true)
          exact condition worker report rest rfl pending
        cases result : state.io.dispatch ⟨report.fd, report.events, ctl⟩ with
        | ok pair => simpa [Polling.settle] using noFault
        | error fault =>
            rw [result] at never
            simpa [Polling.settle] using never

/-- A report that is dispatched while its event is still armed. -/
theorem triggerEvent_asserts_read :
    ∃ state : Polling Unit Unit Unit Unit, state.io.m_pendingEventCount = 0 ∧
      state.reports () = [] ∧ state.fault ≠ some notArmed := by
  let condition (state : Polling Unit Unit Unit Unit) (label : PollingLabel Unit Unit Unit Unit) :
      Prop :=
    ∀ worker report rest, label = .dispatch worker true →
      state.reports worker = report :: rest → ¬ state.io.PartlyDisarmed report.fd report.events
  have armed : (polling Unit Unit Unit Unit).Reaches condition _ :=
    .step (.initial rfl) (by intro _ _ _ impossible; cases impossible)
      (.call (.addEvent 3 .READ none (some ()) () true) rfl trivial)
  have reported : (polling Unit Unit Unit Unit).Reaches condition _ :=
    .step armed (by intro _ _ _ impossible; cases impossible)
      (.epollWait () [⟨3, { EPOLLIN := true }⟩] rfl rfl (by decide) (by
        intro report member
        rw [List.mem_singleton.mp member]
        exact ⟨_, rfl, by decide⟩))
  have dispatched : (polling Unit Unit Unit Unit).Reaches condition _ :=
    .step reported (by
        rintro ⟨⟩ report rest - pending
        obtain ⟨rfl, rfl⟩ := List.cons.inj (pending : [_] = _)
        rintro ⟨gone, goneReported, disarmed, -⟩
        revert gone
        decide)
      (.dispatch () true rfl rfl)
  exact ⟨_, rfl, rfl, triggerEvent_asserts dispatched⟩

/-- `READ` and `WRITE` of descriptor 3 are armed and reported together; another thread
removes `READ` before the report is dispatched. -/
theorem triggerEvent_asserts_fails :
    ∃ state : Polling Unit Unit Unit Unit,
      (polling Unit Unit Unit Unit).Reachable state ∧ state.fault = some notArmed := by
  have armRead : (polling Unit Unit Unit Unit).Reachable _ :=
    .step (.initial rfl) trivial
      (.call (.addEvent 3 .READ none (some ()) () true) rfl trivial)
  have armWrite : (polling Unit Unit Unit Unit).Reachable _ :=
    .step armRead trivial (.call (.addEvent 3 .WRITE none (some ()) () true) rfl trivial)
  have reported : (polling Unit Unit Unit Unit).Reachable _ :=
    .step armWrite trivial
      (.epollWait () [⟨3, { EPOLLIN := true, EPOLLOUT := true }⟩] rfl rfl (by decide) (by
        intro report member
        rw [List.mem_singleton.mp member]
        exact ⟨_, rfl, by decide⟩))
  have removed : (polling Unit Unit Unit Unit).Reachable _ :=
    .step reported trivial (.call (.delEvent 3 .READ true) rfl trivial)
  exact ⟨_, .step removed trivial (.dispatch () true rfl rfl), rfl⟩

end Exhy.IOManager
