import Exhy.IOManager.Bookkeeping

/-!
# The event operations keep the books

One spec lemma for each operation of the I/O manager, and from them the result for every
sequence of operations, with `epoll_ctl` succeeding or failing arbitrarily.
-/

namespace Exhy.IOManager

open Library

variable {Scheduler Fiber Callback : Type}

/-- One operation, with the outcomes of its `epoll_ctl` calls.  `idle` dispatches what
one `epoll_wait` reported. -/
inductive Op (Scheduler Fiber Callback : Type) where
  | addEvent (fd : Fd) (event : Event) (cb : Option Callback) (self : Option Scheduler)
      (cur : Fiber) (ctl : Bool)
  | delEvent (fd : Fd) (event : Event) (ctl : Bool)
  | cancelEvent (fd : Fd) (event : Event) (ctl : Bool)
  | cancelAll (fd : Fd) (ctl : Bool)
  | idle (ready : List Ready)

/-- `epoll_wait` reports each descriptor once, and only events that are armed. -/
def ReadyArmed (io : IOManager Scheduler Fiber Callback) (ready : List Ready) : Prop :=
  (ready.map Ready.fd).Nodup ∧
    ∀ item ∈ ready, ∃ fd_ctx, io.m_fdContexts[item.fd.val]? = some fd_ctx ∧
      item.events.realEvents fd_ctx.events ⊆ fd_ctx.events

/-- What a call returns: an `int`, a `bool`, or nothing. -/
inductive Result where
  | rt (value : Int)
  | ok (value : Bool)
  | nothing
  deriving DecidableEq, Repr

namespace Op

/-- The table after the operation, what it returns and what it did. -/
def call [DecidableEq Scheduler] [DecidableEq Fiber] [DecidableEq Callback]
    (op : Op Scheduler Fiber Callback) (io : IOManager Scheduler Fiber Callback) :
    Except Fault (IOManager Scheduler Fiber Callback × Result ×
      List (Effect Scheduler Fiber Callback)) :=
  match op with
  | .addEvent fd event cb self cur ctl =>
      (io.addEvent fd event cb self cur ctl).map fun (io, rt, effects) => (io, .rt rt, effects)
  | .delEvent fd event ctl =>
      (io.delEvent fd event ctl).map fun (io, ok, effects) => (io, .ok ok, effects)
  | .cancelEvent fd event ctl =>
      (io.cancelEvent fd event ctl).map fun (io, ok, effects) => (io, .ok ok, effects)
  | .cancelAll fd ctl => (io.cancelAll fd ctl).map fun (io, ok, effects) => (io, .ok ok, effects)
  | .idle ready => (io.dispatchAll ready).map fun (io, effects) => (io, .nothing, effects)

/-- The same for a caller that does not look at the result. -/
def exec [DecidableEq Scheduler] [DecidableEq Fiber] [DecidableEq Callback]
    (op : Op Scheduler Fiber Callback) (io : IOManager Scheduler Fiber Callback) :
    Except Fault (IOManager Scheduler Fiber Callback × List (Effect Scheduler Fiber Callback)) :=
  (op.call io).map fun (io, _, effects) => (io, effects)

/-- What the callers observe: an event is added with a current scheduler and while it is
not armed, and only armed events are reported ready. -/
def Allowed (op : Op Scheduler Fiber Callback) (io : IOManager Scheduler Fiber Callback) :
    Prop :=
  match op with
  | .addEvent fd event _ self _ _ => event ∉ (io.contextAt fd.val).events ∧ self.isSome
  | .idle ready => io.ReadyArmed ready
  | _ => True

/-- The size that the operation may resize the table to is an `int`. -/
def Fits : Op Scheduler Fiber Callback → Prop
  | .addEvent fd .. => fd.val * 3 / 2 < 2 ^ 31
  | _ => True

/-- An `epoll_ctl` of the operation is for the descriptor and fails. -/
def FailsAt (fd : Fd) : Op Scheduler Fiber Callback → Prop
  | .addEvent other _ _ _ _ ctl | .delEvent other _ ctl | .cancelEvent other _ ctl
  | .cancelAll other ctl => other = fd ∧ ctl = false
  | .idle ready => ∃ item ∈ ready, item.fd = fd ∧ item.ctl = false

/-- Every `epoll_ctl` of the operation fails. -/
def CtlFails : Op Scheduler Fiber Callback → Prop
  | .addEvent _ _ _ _ _ ctl | .delEvent _ _ ctl | .cancelEvent _ _ ctl | .cancelAll _ ctl =>
      ctl = false
  | .idle ready => ∀ item ∈ ready, item.ctl = false

end Op

/-! ## What an operation hands out -/

/-- The schedule of what is registered for an event, if the event is among some. -/
def dueOf (io : IOManager Scheduler Fiber Callback) (fd : Nat) (mask : Finset Event)
    (event : Event) : List (Effect Scheduler Fiber Callback) :=
  if event ∈ mask then
    (io.registered fd event).toList.map fun registration => ⟨fd, event, .scheduled registration⟩
  else []

/-- The schedules of what is registered for some events, `READ` first. -/
def due (io : IOManager Scheduler Fiber Callback) (fd : Nat) (mask : Finset Event) :
    List (Effect Scheduler Fiber Callback) :=
  io.dueOf fd mask .READ ++ io.dueOf fd mask .WRITE

/-- What one reported event hands out. -/
def dueReady (io : IOManager Scheduler Fiber Callback) (ready : Ready) :
    List (Effect Scheduler Fiber Callback) :=
  if ready.ctl then io.due ready.fd.val (ready.events.realEvents (io.contextAt ready.fd.val).events)
  else []

/-- What each operation returns and does, by the table before it: `addEvent` returns 0 and arms
its event, `delEvent` removes an armed event and schedules nothing, and the others schedule what
is registered for the events that they consume.  Without the `epoll_ctl` nothing happens. -/
def Op.Does (io : IOManager Scheduler Fiber Callback) (result : Result)
    (effects : List (Effect Scheduler Fiber Callback)) : Op Scheduler Fiber Callback → Prop
  | .addEvent fd event cb self cur ctl => ∃ scheduler, self = some scheduler ∧
      if ctl then result = .rt 0 ∧
        effects = [⟨fd.val, event, .armed ⟨scheduler, Task.ofCallback cb cur⟩⟩]
      else result = .rt (-1) ∧ effects = []
  | .delEvent fd event ctl =>
      if ctl ∧ event ∈ (io.contextAt fd.val).events then
        result = .ok true ∧ effects = [⟨fd.val, event, .removed⟩]
      else result = .ok false ∧ effects = []
  | .cancelEvent fd event ctl =>
      if ctl ∧ event ∈ (io.contextAt fd.val).events then
        result = .ok true ∧ ∃ registration, io.registered fd.val event = some registration ∧
          effects = [⟨fd.val, event, .scheduled registration⟩]
      else result = .ok false ∧ effects = []
  | .cancelAll fd ctl =>
      if ctl ∧ (io.contextAt fd.val).events ≠ ∅ then
        result = .ok true ∧ effects = io.due fd.val (io.contextAt fd.val).events
      else result = .ok false ∧ effects = []
  | .idle ready => result = .nothing ∧ effects = ready.flatMap io.dueReady

section Specs

variable {io : IOManager Scheduler Fiber Callback}

theorem contextAt_eq {fd : Nat} {fd_ctx : FdContext Scheduler Fiber Callback}
    (here : io.m_fdContexts[fd]? = some fd_ctx) : io.contextAt fd = fd_ctx := by
  rw [contextAt, here, Option.getD_some]

/-- A table that grows keeps its contexts and appends fresh ones. -/
theorem contextResize_grow {size : Nat} (grows : io.m_fdContexts.length ≤ size) :
    (io.contextResize size).m_fdContexts = io.m_fdContexts ++
      (List.range (size - io.m_fdContexts.length)).map fun i =>
        ({ fd := io.m_fdContexts.length + i } : FdContext Scheduler Fiber Callback) := by
  simp only [contextResize, List.take_of_length_le grows]

theorem contextAt_contextResize {size : Nat} (grows : io.m_fdContexts.length ≤ size)
    (fd : Nat) : (io.contextResize size).contextAt fd = io.contextAt fd := by
  rw [contextAt, contextAt, contextResize_grow grows]
  by_cases old : fd < io.m_fdContexts.length
  · rw [List.getElem?_append_left old]
  · rw [List.getElem?_append_right (by omega), List.getElem?_map, List.getElem?_eq_none
      (by omega : io.m_fdContexts.length ≤ fd)]
    by_cases new : fd - io.m_fdContexts.length < size - io.m_fdContexts.length
    · rw [List.getElem?_range new]
      simp only [Option.map_some, Option.getD_some, Option.getD_none]
      congr 1
      omega
    · rw [List.getElem?_eq_none (by simpa using Nat.not_lt.mp new)]
      rfl

theorem registered_eq (fd : Nat) (event : Event) :
    io.registered fd event = (io.contextAt fd).registration event := by
  rw [registered, contextAt]
  cases io.m_fdContexts[fd]? with
  | none => cases event <;> rfl
  | some fd_ctx => rfl

/-- What is due at a descriptor depends on its context alone. -/
theorem dueReady_congr {after : IOManager Scheduler Fiber Callback} {ready : Ready}
    (same : after.m_fdContexts[ready.fd.val]? = io.m_fdContexts[ready.fd.val]?) :
    after.dueReady ready = io.dueReady ready := by
  have registered (event : Event) :
      after.registered ready.fd.val event = io.registered ready.fd.val event := by
    rw [IOManager.registered, IOManager.registered, same]
  rw [dueReady, dueReady, contextAt, contextAt, same, due, due]
  simp only [dueOf, registered]

variable [DecidableEq Scheduler] [DecidableEq Fiber] [DecidableEq Callback]
variable {log : List (Effect Scheduler Fiber Callback)}

theorem Invariant.contextResize (inv : Invariant io log) {size : Nat}
    (grows : io.m_fdContexts.length ≤ size) (bounded : size < 2 ^ 31) :
    Invariant (io.contextResize size) log where
  enough := by
    have enough := inv.enough
    simp only [contextResize_grow grows, List.length_append, List.length_map,
      List.length_range]
    omega
  bounded := by
    simp only [contextResize_grow grows, List.length_append, List.length_map,
      List.length_range]
    omega
  own_fd := by
    intro fd fd_ctx found
    rw [contextResize_grow grows, List.getElem?_append] at found
    split at found
    · exact inv.own_fd fd fd_ctx found
    · rw [List.getElem?_map, Option.map_eq_some_iff] at found
      obtain ⟨index, indexFound, rfl⟩ := found
      obtain ⟨inside, rfl⟩ := List.getElem?_eq_some_iff.mp indexFound
      simp only [List.getElem_range]
      omega
  consistent := by
    intro fd_ctx member event
    rw [contextResize_grow grows] at member
    rcases List.mem_append.mp member with old | new
    · exact inv.consistent fd_ctx old event
    · obtain ⟨index, -, rfl⟩ := List.mem_map.mp new
      cases event <;> simp [FdContext.Consistent, FdContext.getContext]
  count := by
    have old := inv.count
    simp only [armedCount, contextResize_grow grows, List.map_append, List.map_map,
      List.sum_append] at old ⊢
    simpa [IOManager.contextResize, Function.comp_def] using old
  replays := by
    intro fd event
    rw [registered_eq, contextAt_contextResize grows, ← registered_eq]
    exact inv.replays fd event

theorem new_invariant : Invariant (new : IOManager Scheduler Fiber Callback) [] := by
  refine ⟨by simp [new, IOManager.contextResize], by simp [new, IOManager.contextResize],
    ?_, ?_, ?_, ?_⟩
  · intro fd fd_ctx found
    simp only [new, IOManager.contextResize, List.take_nil, List.nil_append, List.length_nil,
      List.getElem?_map, Option.map_eq_some_iff] at found
    obtain ⟨index, indexFound, rfl⟩ := found
    obtain ⟨inside, rfl⟩ := List.getElem?_eq_some_iff.mp indexFound
    simp
  · intro fd_ctx member event
    simp only [new, IOManager.contextResize, List.take_nil, List.nil_append,
      List.mem_map] at member
    obtain ⟨index, -, rfl⟩ := member
    cases event <;> simp [FdContext.Consistent, FdContext.getContext]
  · simp [new, IOManager.contextResize, armedCount, Function.comp_def]
  · intro fd event
    rw [registered_eq, new, contextAt_contextResize (by simp)]
    cases event <;> rfl

/-! ## Specifications -/

/-- The cast of the size changes nothing. -/
theorem Invariant.covers_iff (inv : Invariant io log) (fd : Fd) :
    io.Covers fd ↔ fd.val < io.m_fdContexts.length := by
  rw [IOManager.covers_iff, toInt32_of_small inv.bounded]
  exact Int.ofNat_lt

theorem Invariant.lookup (inv : Invariant io log) (fd : Fd) :
    io.lookup fd = io.m_fdContexts[fd.val]? := by
  rw [IOManager.lookup, if_congr (inv.covers_iff fd) rfl rfl]
  split
  next => rfl
  next outside => rw [List.getElem?_eq_none (by omega)]

/-- The descriptor's context exists after `reserve`, and nothing that was in the table is
lost. -/
theorem reserve_spec (inv : Invariant io log) {fd : Fd} (fits : fd.val * 3 / 2 < 2 ^ 31) :
    Invariant (io.reserve fd) log ∧
      (io.reserve fd).m_fdContexts[fd.val]? = some (io.contextAt fd.val) ∧
      (io.reserve fd).m_pendingEventCount = io.m_pendingEventCount ∧
      ∀ index, (io.reserve fd).contextAt index = io.contextAt index := by
  rw [reserve, if_congr (inv.covers_iff fd) rfl rfl]
  have present {table : IOManager Scheduler Fiber Callback}
      (inside : fd.val < table.m_fdContexts.length) :
      table.m_fdContexts[fd.val]? = some (table.contextAt fd.val) := by
    rw [contextAt, List.getElem?_eq_getElem inside, Option.getD_some]
  by_cases inside : fd.val < io.m_fdContexts.length
  · rw [if_pos inside]
    exact ⟨inv, present inside, rfl, fun _ => rfl⟩
  · have enough := inv.enough
    have grows : io.m_fdContexts.length ≤ fd.val * 3 / 2 := by omega
    rw [if_neg inside]
    refine ⟨inv.contextResize grows fits, ?_, rfl, contextAt_contextResize grows⟩
    rw [present, contextAt_contextResize grows]
    simp only [contextResize_grow grows, List.length_append, List.length_map, List.length_range]
    omega

theorem addEvent_spec (inv : Invariant io log) {fd : Fd} {event : Event}
    (fits : fd.val * 3 / 2 < 2 ^ 31) (disarmed : event ∉ (io.contextAt fd.val).events) (cb : Option Callback)
    (self : Scheduler) (cur : Fiber) (ctl : Bool) :
    ∃ after effects, io.addEvent fd event cb (some self) cur ctl =
        .ok (after, if ctl then 0 else -1, effects) ∧
      Invariant after (log ++ effects) ∧
      (effects = if ctl then [⟨fd.val, event, .armed ⟨self, Task.ofCallback cb cur⟩⟩] else []) ∧
      (ctl = false → after.m_pendingEventCount = io.m_pendingEventCount ∧
        ∀ index, after.contextAt index = io.contextAt index) := by
  obtain ⟨grownInv, here, countEq, kept⟩ := reserve_spec inv fits
  have consistent := grownInv.consistent _ (List.mem_of_getElem? here)
  have fdEq := grownInv.own_fd _ _ here
  generalize grownEq : io.reserve fd = grown at *
  generalize fdCtxEq : io.contextAt fd.val = fd_ctx at *
  have empty : fd_ctx.getContext event = {} := by
    simpa only [FdContext.Consistent, if_neg disarmed] using consistent event
  cases ctl with
  | false =>
      refine ⟨grown, [], ?_, by simpa using grownInv, rfl, fun _ => ⟨countEq, ?_⟩⟩
      · simp [addEvent, grownEq, here, disarmed]
      · intro index
        rw [kept]
  | true =>
      -- the context that the event gets
      let ctx : EventContext Scheduler Fiber Callback :=
        cb.elim { scheduler := some self, fiber := some cur } fun cb =>
          { scheduler := some self, cb := some cb }
      let armedCtx := { fd_ctx with events := insert event fd_ctx.events }.setContext event ctx
      have done : io.addEvent fd event cb (some self) cur true =
          .ok ({ grown.setFdContext fd.val armedCtx with
            m_pendingEventCount := grown.m_pendingEventCount + 1 },
            0, [⟨fd.val, event, .armed ⟨self, Task.ofCallback cb cur⟩⟩]) := by
        simp only [addEvent, grownEq, here, if_neg disarmed, empty]
        cases cb <;> simp [fdEq, armedCtx, ctx]
      have eventsEq : armedCtx.events = insert event fd_ctx.events := by simp [armedCtx]
      have contextEq : armedCtx.getContext event = ctx := by simp [armedCtx]
      have otherEq : ∀ other, other ≠ event →
          armedCtx.getContext other = fd_ctx.getContext other := by
        intro other different
        simp only [armedCtx, FdContext.getContext_setContext_ne different,
          FdContext.getContext_events]
      refine ⟨_, _, done, ?_, rfl, by rintro ⟨⟩⟩
      refine grownInv.store here ?_ ?_ ?_ (by simp) ?_
      · simp [armedCtx, fdEq]
      · intro other
        by_cases same : other = event
        · subst same
          simp only [FdContext.Consistent, eventsEq, contextEq, Finset.mem_insert_self, if_true]
          cases cb <;> simp [ctx]
        · have old := consistent other
          simp only [FdContext.Consistent, eventsEq, otherEq other same, Finset.mem_insert,
            same, false_or] at old ⊢
          exact old
      · have room := grownInv.armedCount_le
        have count := grownInv.count
        have incremented : (grown.m_pendingEventCount + 1).toNat =
            grown.m_pendingEventCount.toNat + 1 := by
          rw [UInt64.toNat_add, UInt64.toNat_one, Nat.mod_eq_of_lt (by omega)]
        rw [incremented, eventsEq, Finset.card_insert_of_notMem disarmed]
        omega
      · intro other
        by_cases same : other = event
        · subst same
          have before : fd_ctx.registration other = none := by
            simp [FdContext.registration, disarmed]
          have after : armedCtx.registration other = some ⟨self, Task.ofCallback cb cur⟩ := by
            simp only [FdContext.registration, eventsEq, contextEq, Finset.mem_insert_self,
              if_true]
            cases cb <;> rfl
          simp [history, before, after, replay]
        · rw [history_eq_nil (by simp [Ne.symm same]), replay]
          simp only [FdContext.registration, eventsEq, otherEq other same, Finset.mem_insert,
            same, false_or]

theorem fire_spec (inv : Invariant io log) {fd : Nat} {event : Event}
    {fd_ctx : FdContext Scheduler Fiber Callback} (here : io.m_fdContexts[fd]? = some fd_ctx)
    (armed : event ∈ fd_ctx.events) :
    ∃ registration, fd_ctx.registration event = some registration ∧
      io.fire fd event =
        .ok (io.consume fd fd_ctx event, [⟨fd, event, .scheduled registration⟩]) ∧
      Invariant (io.consume fd fd_ctx event) (log ++ [⟨fd, event, .scheduled registration⟩]) := by
  have consistent := inv.consistent _ (List.mem_of_getElem? here)
  obtain ⟨registration, registrationEq, triggered⟩ :=
    FdContext.triggerEvent_spec (consistent event) armed
  rw [inv.own_fd _ _ here] at triggered
  refine ⟨registration, registrationEq, ?_, inv.consume here armed fun rest => ?_⟩
  · simp only [fire, here, triggered, IOManager.consume]
  · rw [registrationEq]
    simp [replay]

/-- A bit that is set is consumed, one that is not is skipped. -/
theorem fireIf_spec (inv : Invariant io log) {fd : Nat} {mask : Finset Event} {event : Event}
    {fd_ctx : FdContext Scheduler Fiber Callback} (here : io.m_fdContexts[fd]? = some fd_ctx)
    (armed : event ∈ mask → event ∈ fd_ctx.events) :
    ∃ after, io.fireIf fd mask event = .ok (after, io.dueOf fd mask event) ∧
      Invariant after (log ++ io.dueOf fd mask event) ∧
      (∃ left, after.m_fdContexts[fd]? = some left ∧
        (left.events = if event ∈ mask then fd_ctx.events.erase event else fd_ctx.events) ∧
        ∀ other, other ≠ event → left.registration other = fd_ctx.registration other) ∧
      ∀ other, other ≠ fd → after.m_fdContexts[other]? = io.m_fdContexts[other]? := by
  rw [fireIf, dueOf]
  by_cases wanted : event ∈ mask
  · obtain ⟨registration, isRegistered, fired, firedInv⟩ := fire_spec inv here (armed wanted)
    rw [if_pos wanted, if_pos wanted, if_pos wanted, registered, here, Option.bind_some,
      isRegistered]
    refine ⟨_, fired, firedInv, ⟨_, getElem?_consume_self here event, by simp, ?_⟩,
      fun other different => getElem?_consume_ne different fd_ctx event⟩
    intro other different
    rw [FdContext.registration_disarm, if_neg different]
  · rw [if_neg wanted, if_neg wanted, if_neg wanted]
    exact ⟨io, rfl, by simpa using inv, ⟨fd_ctx, here, rfl, fun _ _ => rfl⟩, fun _ _ => rfl⟩

/-- Triggering a set of armed events consumes exactly these. -/
theorem fireAll_spec (inv : Invariant io log) {fd : Nat} {mask : Finset Event}
    {fd_ctx : FdContext Scheduler Fiber Callback} (here : io.m_fdContexts[fd]? = some fd_ctx)
    (armed : mask ⊆ fd_ctx.events) :
    ∃ after, io.fireAll fd mask = .ok (after, io.due fd mask) ∧
      Invariant after (log ++ io.due fd mask) ∧
      (after.m_fdContexts[fd]?.map FdContext.events) = some (fd_ctx.events \ mask) ∧
      ∀ other, other ≠ fd → after.m_fdContexts[other]? = io.m_fdContexts[other]? := by
  obtain ⟨middle, readOk, middleInv, ⟨middleCtx, middleHere, middleEvents, kept⟩, middleKept⟩ :=
    fireIf_spec inv here fun wanted : Event.READ ∈ mask => armed wanted
  obtain ⟨after, writeOk, afterInv, ⟨afterCtx, afterHere, afterEvents, -⟩, afterKept⟩ :=
    fireIf_spec middleInv middleHere fun wanted : Event.WRITE ∈ mask => by
      rw [middleEvents]
      split
      · exact Finset.mem_erase.mpr ⟨by decide, armed wanted⟩
      · exact armed wanted
  -- `WRITE` is registered as before `READ` was triggered
  have writeDue : middle.dueOf fd mask .WRITE = io.dueOf fd mask .WRITE := by
    rw [dueOf, dueOf, registered, registered, middleHere, here, Option.bind_some, Option.bind_some,
      kept .WRITE (by decide)]
  rw [writeDue] at writeOk afterInv
  refine ⟨after, ?_, by rwa [due, ← List.append_assoc], ?_,
    fun other different => (afterKept other different).trans (middleKept other different)⟩
  · simp only [fireAll, readOk, bind, Except.bind, writeOk]
    rfl
  · rw [afterHere, Option.map_some, afterEvents, middleEvents]
    congr 1
    ext event
    cases event <;> by_cases read : Event.READ ∈ mask <;> by_cases write : Event.WRITE ∈ mask <;>
      simp [read, write]

theorem delEvent_spec (inv : Invariant io log) (fd : Fd) (event : Event) (ctl : Bool) :
    ∃ after ok effects, io.delEvent fd event ctl = .ok (after, ok, effects) ∧
      Invariant after (log ++ effects) ∧ (Op.delEvent fd event ctl).Does io (.ok ok) effects ∧
      (ctl = false → after = io) := by
  rw [delEvent, inv.lookup]
  cases here : io.m_fdContexts[fd.val]? with
  | none =>
      refine ⟨io, false, [], rfl, by simpa using inv, ?_, fun _ => rfl⟩
      simp [Op.Does, contextAt, here]
  | some fd_ctx =>
      by_cases armed : event ∈ fd_ctx.events
      · cases ctl with
        | false => exact ⟨io, false, [], by simp [armed], by simpa using inv, by simp [Op.Does],
            fun _ => rfl⟩
        | true =>
            have consistent := inv.consistent _ (List.mem_of_getElem? here)
            obtain ⟨registration, registrationEq⟩ := Option.isSome_iff_exists.mp
              ((FdContext.registration_isSome (consistent event)).mpr armed)
            refine ⟨io.consume fd.val fd_ctx event, true, [⟨fd.val, event, .removed⟩], ?_,
              inv.consume here armed fun rest => ?_, ?_, fun impossible => nomatch impossible⟩
            · simp [armed, IOManager.consume, FdContext.disarm, inv.own_fd _ _ here]
            · rw [registrationEq]
              simp [replay]
            · simp [Op.Does, contextAt_eq here, armed]
      · exact ⟨io, false, [], by simp [armed], by simpa using inv,
          by simp [Op.Does, contextAt_eq here, armed], fun _ => rfl⟩

theorem cancelEvent_spec (inv : Invariant io log) (fd : Fd) (event : Event) (ctl : Bool) :
    ∃ after ok effects, io.cancelEvent fd event ctl = .ok (after, ok, effects) ∧
      Invariant after (log ++ effects) ∧ (Op.cancelEvent fd event ctl).Does io (.ok ok) effects ∧
      (ctl = false → after = io) := by
  rw [cancelEvent, inv.lookup]
  cases here : io.m_fdContexts[fd.val]? with
  | none =>
      refine ⟨io, false, [], rfl, by simpa using inv, ?_, fun _ => rfl⟩
      simp [Op.Does, contextAt, here]
  | some fd_ctx =>
      by_cases armed : event ∈ fd_ctx.events
      · cases ctl with
        | false => exact ⟨io, false, [], by simp [armed], by simpa using inv, by simp [Op.Does],
            fun _ => rfl⟩
        | true =>
            obtain ⟨registration, registrationEq, fired, firedInv⟩ := fire_spec inv here armed
            refine ⟨_, true, _, by simp [armed, fired, Except.map], firedInv, ?_,
              fun impossible => nomatch impossible⟩
            simp [Op.Does, contextAt_eq here, armed, registered, here, registrationEq]
      · exact ⟨io, false, [], by simp [armed], by simpa using inv,
          by simp [Op.Does, contextAt_eq here, armed], fun _ => rfl⟩

theorem cancelAll_spec (inv : Invariant io log) (fd : Fd) (ctl : Bool) :
    ∃ after ok effects, io.cancelAll fd ctl = .ok (after, ok, effects) ∧
      Invariant after (log ++ effects) ∧ (Op.cancelAll fd ctl).Does io (.ok ok) effects ∧
      (ctl = false → after = io) := by
  rw [cancelAll, inv.lookup]
  cases here : io.m_fdContexts[fd.val]? with
  | none =>
      refine ⟨io, false, [], rfl, by simpa using inv, ?_, fun _ => rfl⟩
      simp [Op.Does, contextAt, here]
  | some fd_ctx =>
      by_cases empty : fd_ctx.events = ∅
      · exact ⟨io, false, [], by simp [empty], by simpa using inv,
          by simp [Op.Does, contextAt_eq here, empty], fun _ => rfl⟩
      · cases ctl with
        | false => exact ⟨io, false, [], by simp [empty], by simpa using inv, by simp [Op.Does],
            fun _ => rfl⟩
        | true =>
            obtain ⟨after, fired, afterInv, cleared, -⟩ :=
              fireAll_spec inv here (Finset.Subset.refl _)
            rw [sdiff_self] at cleared
            refine ⟨after, true, _, ?_, afterInv, ?_, fun impossible => nomatch impossible⟩
            · simp only [if_neg empty, fired, cleared]
              rfl
            · simp [Op.Does, contextAt_eq here, empty]

/-- A dispatch schedules what is armed and reported, and touches its own descriptor alone. -/
theorem dispatch_spec (inv : Invariant io log) {ready : Ready}
    {fd_ctx : FdContext Scheduler Fiber Callback}
    (here : io.m_fdContexts[ready.fd.val]? = some fd_ctx)
    (armed : ready.events.realEvents fd_ctx.events ⊆ fd_ctx.events) :
    ∃ after, io.dispatch ready = .ok (after, io.dueReady ready) ∧
      Invariant after (log ++ io.dueReady ready) ∧ (ready.ctl = false → after = io) ∧
      ∀ other, other ≠ ready.fd.val → after.m_fdContexts[other]? = io.m_fdContexts[other]? := by
  simp only [dispatch, here, dueReady, contextAt_eq here]
  by_cases nothing : fd_ctx.events ∩ ready.events.realEvents fd_ctx.events = ∅
  · have none : ready.events.realEvents fd_ctx.events = ∅ := by
      rwa [Finset.inter_eq_right.mpr armed] at nothing
    rw [if_pos nothing, none]
    refine ⟨io, ?_, ?_, fun _ => rfl, fun _ _ => rfl⟩
    · simp [due, dueOf]
    · simpa [due, dueOf] using inv
  · rw [if_neg nothing]
    cases ready.ctl with
    | false => exact ⟨io, rfl, by simpa using inv, fun _ => rfl, fun _ _ => rfl⟩
    | true =>
        obtain ⟨after, fired, afterInv, -, kept⟩ := fireAll_spec inv here armed
        exact ⟨after, fired, afterInv, (fun impossible => nomatch impossible), kept⟩

theorem dispatchAll_spec (inv : Invariant io log) {ready : List Ready}
    (armed : io.ReadyArmed ready) :
    ∃ after, io.dispatchAll ready = .ok (after, ready.flatMap io.dueReady) ∧
      Invariant after (log ++ ready.flatMap io.dueReady) ∧
      ((∀ item ∈ ready, item.ctl = false) → after = io) ∧
      ∀ other, (∀ item ∈ ready, item.fd.val = other → item.ctl = false) →
        after.m_fdContexts[other]? = io.m_fdContexts[other]? := by
  induction ready generalizing io log with
  | nil => exact ⟨io, rfl, by simpa using inv, fun _ => rfl, fun _ _ => rfl⟩
  | cons item rest ih =>
      obtain ⟨distinct, itemsArmed⟩ := armed
      obtain ⟨fd_ctx, here, itemArmed⟩ := itemsArmed item List.mem_cons_self
      obtain ⟨middle, dispatched, middleInv, middleFails, kept⟩ := dispatch_spec inv here itemArmed
      rw [List.map_cons, List.nodup_cons] at distinct
      have elsewhere : ∀ other ∈ rest, other.fd.val ≠ item.fd.val := by
        intro other member same
        exact distinct.1 (List.mem_map.mpr ⟨other, member, Fin.ext same⟩)
      have restArmed : middle.ReadyArmed rest := by
        refine ⟨distinct.2, fun other member => ?_⟩
        rw [kept _ (elsewhere other member)]
        exact itemsArmed other (List.mem_cons_of_mem _ member)
      have restDue : rest.flatMap middle.dueReady = rest.flatMap io.dueReady := by
        apply List.flatMap_congr
        intro other member
        exact dueReady_congr (kept _ (elsewhere other member))
      obtain ⟨after, restDone, afterInv, restFails, restKept⟩ := ih middleInv restArmed
      rw [restDue] at restDone afterInv
      refine ⟨after, ?_, ?_, fun fails => ?_, fun other fails => ?_⟩
      · simp only [dispatchAll, dispatched, bind, Except.bind, restDone]
        rfl
      · rwa [List.flatMap_cons, ← List.append_assoc]
      · rw [restFails fun other member => fails other (List.mem_cons_of_mem _ member),
          middleFails (fails item List.mem_cons_self)]
      · rw [restKept other fun next member => fails next (List.mem_cons_of_mem _ member)]
        by_cases same : item.fd.val = other
        · rw [middleFails (fails item List.mem_cons_self same)]
        · exact kept other (Ne.symm same)

/-- An allowed operation runs without a failed assertion, keeps the books and does what it
should.  It leaves alone the counter, if all its `epoll_ctl` fail, and the contexts of the
descriptors for which they do. -/
theorem call_spec (inv : Invariant io log) {op : Op Scheduler Fiber Callback}
    (allowed : op.Allowed io) (fits : op.Fits) :
    ∃ after result effects, op.call io = .ok (after, result, effects) ∧
      Invariant after (log ++ effects) ∧ op.Does io result effects ∧
      (op.CtlFails → after.m_pendingEventCount = io.m_pendingEventCount ∧
        ∀ fd, after.contextAt fd = io.contextAt fd) ∧
      ∀ fd, op.FailsAt fd → after.contextAt fd.val = io.contextAt fd.val := by
  cases op with
  | addEvent fd event cb self cur ctl =>
      obtain ⟨disarmed, hasSelf⟩ := allowed
      obtain ⟨self, rfl⟩ := Option.isSome_iff_exists.mp hasSelf
      obtain ⟨after, effects, done, afterInv, does, fails⟩ :=
        addEvent_spec inv fits disarmed cb self cur ctl
      refine ⟨after, _, effects, by simp [Op.call, done, Except.map]; rfl, afterInv, ⟨self, rfl, ?_⟩,
        fails, fun _ failed => (fails failed.2).2 _⟩
      cases ctl with
      | false => exact ⟨rfl, does⟩
      | true => exact ⟨rfl, does⟩
  | delEvent fd event ctl =>
      obtain ⟨after, ok, effects, done, afterInv, does, fails⟩ := delEvent_spec inv fd event ctl
      refine ⟨after, .ok ok, effects, by simp [Op.call, done, Except.map], afterInv, does, ?_, ?_⟩
      · intro failed
        exact fails failed ▸ ⟨rfl, fun _ => rfl⟩
      · rintro _ ⟨-, failed⟩
        rw [fails failed]
  | cancelEvent fd event ctl =>
      obtain ⟨after, ok, effects, done, afterInv, does, fails⟩ := cancelEvent_spec inv fd event ctl
      refine ⟨after, .ok ok, effects, by simp [Op.call, done, Except.map], afterInv, does, ?_, ?_⟩
      · intro failed
        exact fails failed ▸ ⟨rfl, fun _ => rfl⟩
      · rintro _ ⟨-, failed⟩
        rw [fails failed]
  | cancelAll fd ctl =>
      obtain ⟨after, ok, effects, done, afterInv, does, fails⟩ := cancelAll_spec inv fd ctl
      refine ⟨after, .ok ok, effects, by simp [Op.call, done, Except.map], afterInv, does, ?_, ?_⟩
      · intro failed
        exact fails failed ▸ ⟨rfl, fun _ => rfl⟩
      · rintro _ ⟨-, failed⟩
        rw [fails failed]
  | idle ready =>
      obtain ⟨after, done, afterInv, fails, kept⟩ := dispatchAll_spec inv allowed
      refine ⟨after, .nothing, _, by simp [Op.call, done, Except.map], afterInv, ⟨rfl, rfl⟩, ?_, ?_⟩
      · intro failed
        exact fails failed ▸ ⟨rfl, fun _ => rfl⟩
      · rintro fd ⟨item, member, rfl, failed⟩
        have alone : ∀ other ∈ ready, other.fd.val = item.fd.val → other.ctl = false := by
          intro other otherMember same
          rwa [List.inj_on_of_nodup_map allowed.1 otherMember member (Fin.ext same)]
        rw [contextAt, contextAt, kept _ alone]

theorem exec_spec (inv : Invariant io log) {op : Op Scheduler Fiber Callback}
    (allowed : op.Allowed io) (fits : op.Fits) :
    ∃ after result effects, op.exec io = .ok (after, effects) ∧ Invariant after (log ++ effects) ∧
      op.Does io result effects := by
  obtain ⟨after, result, effects, done, afterInv, does, -⟩ := call_spec inv allowed fits
  exact ⟨after, result, effects, by rw [Op.exec, done]; rfl, afterInv, does⟩

end Specs

theorem due_schedules {io : IOManager Scheduler Fiber Callback} {fd : Nat} {mask : Finset Event} :
    ∀ effect ∈ io.due fd mask, ∃ registration, effect.action = .scheduled registration := by
  have each (event : Event) : ∀ effect ∈ io.dueOf fd mask event,
      ∃ registration, effect.action = .scheduled registration := by
    intro effect member
    rw [dueOf] at member
    split at member
    next =>
      obtain ⟨registration, -, rfl⟩ := List.mem_map.mp member
      exact ⟨registration, rfl⟩
    next => cases member
  intro effect member
  rcases List.mem_append.mp member with read | write
  · exact each .READ effect read
  · exact each .WRITE effect write

/-- A call arms, removes, or schedules. -/
theorem Op.Does.kind {op : Op Scheduler Fiber Callback} {io : IOManager Scheduler Fiber Callback}
    {result : Result} {effects : List (Effect Scheduler Fiber Callback)}
    (does : op.Does io result effects) :
    (∃ fd event cb self cur ctl registration, op = .addEvent fd event cb self cur ctl ∧
        effects = [⟨fd.val, event, .armed registration⟩]) ∨
      (∃ fd event, op = .delEvent fd event true ∧ result = .ok true ∧
        effects = [⟨fd.val, event, .removed⟩]) ∨
      ∀ effect ∈ effects, ∃ registration, effect.action = .scheduled registration := by
  cases op with
  | addEvent fd event cb self cur ctl =>
      obtain ⟨scheduler, -, does⟩ := does
      split at does
      next => exact .inl ⟨fd, event, cb, self, cur, ctl, _, rfl, does.2⟩
      next => exact .inr (.inr (by simp [does.2]))
  | delEvent fd event ctl =>
      rw [Op.Does] at does
      split at does
      next both => exact .inr (.inl ⟨fd, event, both.1 ▸ rfl, does⟩)
      next => exact .inr (.inr (by simp [does.2]))
  | cancelEvent fd event ctl =>
      rw [Op.Does] at does
      split at does
      next =>
        obtain ⟨-, registration, -, rfl⟩ := does
        exact .inr (.inr (by simp))
      next => exact .inr (.inr (by simp [does.2]))
  | cancelAll fd ctl =>
      rw [Op.Does] at does
      split at does
      next => exact .inr (.inr (does.2 ▸ due_schedules))
      next => exact .inr (.inr (by simp [does.2]))
  | idle ready =>
      refine .inr (.inr fun effect member => ?_)
      rw [does.2, List.mem_flatMap] at member
      obtain ⟨item, -, isDue⟩ := member
      rw [dueReady] at isDue
      split at isDue
      next => exact due_schedules effect isDue
      next => cases isDue

/-- Without its `epoll_ctl` a call does nothing. -/
theorem Op.Does.nothing {op : Op Scheduler Fiber Callback} {io : IOManager Scheduler Fiber Callback}
    {result : Result} {effects : List (Effect Scheduler Fiber Callback)}
    (does : op.Does io result effects) (failed : op.CtlFails) : effects = [] := by
  cases op with
  | addEvent fd event cb self cur ctl =>
      obtain ⟨scheduler, -, does⟩ := does
      cases (failed : ctl = false)
      exact does.2
  | delEvent fd event ctl | cancelEvent fd event ctl | cancelAll fd ctl =>
      cases (failed : ctl = false)
      rw [Op.Does, if_neg (by simp)] at does
      exact does.2
  | idle ready =>
      rw [does.2, List.flatMap_eq_nil_iff]
      intro item member
      rw [dueReady, failed item member]
      rfl

theorem fd_of_mem_due {io : IOManager Scheduler Fiber Callback} {fd : Nat} {mask : Finset Event} :
    ∀ effect ∈ io.due fd mask, effect.fd = fd := by
  have each (event : Event) : ∀ effect ∈ io.dueOf fd mask event, effect.fd = fd := by
    intro effect member
    rw [dueOf] at member
    split at member
    next =>
      obtain ⟨registration, -, rfl⟩ := List.mem_map.mp member
      rfl
    next => cases member
  intro effect member
  rcases List.mem_append.mp member with read | write
  · exact each .READ effect read
  · exact each .WRITE effect write

/-- A call does nothing at a descriptor for which its `epoll_ctl` fails. -/
theorem Op.Does.elsewhere {op : Op Scheduler Fiber Callback} {io : IOManager Scheduler Fiber Callback}
    {result : Result} {effects : List (Effect Scheduler Fiber Callback)}
    (does : op.Does io result effects) (allowed : op.Allowed io) {fd : Fd} (failed : op.FailsAt fd) :
    ∀ effect ∈ effects, effect.fd ≠ fd.val := by
  cases op with
  | idle ready =>
      obtain ⟨item, member, rfl, failed⟩ := failed
      rintro effect isEffect here
      rw [does.2, List.mem_flatMap] at isEffect
      obtain ⟨other, otherMember, isDue⟩ := isEffect
      rw [dueReady] at isDue
      split at isDue
      next succeeded =>
        have same : other.fd = item.fd := Fin.ext ((fd_of_mem_due effect isDue).symm.trans here)
        cases List.inj_on_of_nodup_map allowed.1 otherMember member same
        rw [failed] at succeeded
        cases succeeded
      next => cases isDue
  | addEvent | delEvent | cancelEvent | cancelAll =>
      rw [does.nothing failed.2]
      exact fun effect member => nomatch member

/-! ## Runs -/

/-- A call that has been made. -/
structure Entry (Scheduler Fiber Callback : Type) where
  op : Op Scheduler Fiber Callback
  result : Result
  effects : List (Effect Scheduler Fiber Callback)

/-- The table and the calls since the constructor. -/
structure Books (Scheduler Fiber Callback : Type) where
  io : IOManager Scheduler Fiber Callback
  calls : List (Entry Scheduler Fiber Callback)

/-- Everything that has happened to the table. -/
def Books.log (books : Books Scheduler Fiber Callback) : List (Effect Scheduler Fiber Callback) :=
  books.calls.flatMap Entry.effects

/-- None of the calls does anything to the event. -/
def Untouched (calls : List (Entry Scheduler Fiber Callback)) (fd : Fd) (event : Event) : Prop :=
  ∀ entry ∈ calls, history entry.effects fd.val event = []

/-- The call schedules the registration, once, or is a `delEvent` that succeeds and schedules
nothing. -/
def Entry.Consumes (entry : Entry Scheduler Fiber Callback) (fd : Fd) (event : Event)
    (registration : Registration Scheduler Fiber Callback) : Prop :=
  history entry.effects fd.val event = [.scheduled registration] ∨
    entry.op = .delEvent fd event true ∧ entry.result = .ok true ∧
      entry.effects = [⟨fd.val, event, .removed⟩]

/-- What becomes of a registration in the calls behind its `addEvent`: it is still registered, or
one of them consumes it and the event is not touched again before something else is armed. -/
def ConsumedOnce (io : IOManager Scheduler Fiber Callback)
    (later : List (Entry Scheduler Fiber Callback)) (fd : Fd) (event : Event)
    (registration : Registration Scheduler Fiber Callback) : Prop :=
  Untouched later fd event ∧ io.registered fd.val event = some registration ∨
    ∃ waiting consumer rest, later = waiting ++ consumer :: rest ∧ Untouched waiting fd event ∧
      consumer.Consumes fd event registration ∧
      ∀ action ∈ (history (rest.flatMap Entry.effects) fd.val event).head?,
        ∃ other, action = .armed other

/-- What holds of each call in a run. -/
structure Entry.Fair (entry : Entry Scheduler Fiber Callback) : Prop where
  does : ∃ io, entry.op.Does io entry.result entry.effects
  single : ∀ fd event, (history entry.effects fd event).length ≤ 1

/-- A call that does one thing to an event, and does not arm it, consumes what is registered. -/
theorem Entry.Fair.consumes {entry : Entry Scheduler Fiber Callback} (fair : entry.Fair) {fd : Fd}
    {event : Event} {registration : Registration Scheduler Fiber Callback}
    (one : history entry.effects fd.val event = [.scheduled registration] ∨
      history entry.effects fd.val event = [.removed]) : entry.Consumes fd event registration := by
  rcases one with scheduled | removed
  · exact .inl scheduled
  · right
    have member : ⟨fd.val, event, .removed⟩ ∈ entry.effects := by
      rw [← mem_history, removed]
      exact List.mem_cons_self
    obtain ⟨io, does⟩ := fair.does
    rcases does.kind with ⟨_, _, _, _, _, _, _, -, same⟩ |
      ⟨other, otherEvent, isDel, ok, same⟩ | schedules
    · rw [same, List.mem_singleton, Effect.mk.injEq] at member
      cases member.2.2
    · rw [same, List.mem_singleton, Effect.mk.injEq] at member
      obtain ⟨sameFd, rfl, -⟩ := member
      obtain rfl : fd = other := Fin.ext sameFd
      exact ⟨isDel, ok, same⟩
    · obtain ⟨_, impossible⟩ := schedules _ member
      cases impossible

section Runs

variable [DecidableEq Scheduler] [DecidableEq Fiber] [DecidableEq Callback]

/-- Sequences of operations on a fresh `IOManager`, each taken as atomic. -/
def operations (Scheduler Fiber Callback : Type) [DecidableEq Scheduler] [DecidableEq Fiber]
    [DecidableEq Callback] :
    System (Books Scheduler Fiber Callback) (Op Scheduler Fiber Callback) where
  initial books := books = ⟨new, []⟩
  step books op next := ∃ result effects,
    op.call books.io = .ok (next.io, result, effects) ∧
      next.calls = books.calls ++ [⟨op, result, effects⟩]

/-- The calls are allowed where they are made, and the size of the table stays an `int`. -/
def Proper (books : Books Scheduler Fiber Callback) (op : Op Scheduler Fiber Callback) : Prop :=
  op.Allowed books.io ∧ op.Fits

theorem Entry.Fair.of_call {io after : IOManager Scheduler Fiber Callback}
    {log effects : List (Effect Scheduler Fiber Callback)} {op : Op Scheduler Fiber Callback}
    {result : Result} (inv : Invariant io log) (afterInv : Invariant after (log ++ effects))
    (does : op.Does io result effects) : (⟨op, result, effects⟩ : Entry _ _ _).Fair where
  does := ⟨io, does⟩
  single fd event := by
    rcases does.kind with ⟨_, _, _, _, _, _, _, -, rfl⟩ | ⟨_, _, -, -, rfl⟩ | schedules
    · exact length_history_le ..
    · exact length_history_le ..
    · refine length_of_schedules (fun action member => ?_) (inv.replay_effects afterInv fd event)
      exact schedules _ (mem_history.mp member)

/-- Between calls the table agrees with the history, and each call was a fair one. -/
structure Kept (books : Books Scheduler Fiber Callback) : Prop where
  table : Invariant books.io books.log
  fair : ∀ entry ∈ books.calls, entry.Fair

theorem reaches_kept {books : Books Scheduler Fiber Callback}
    (reached : (operations Scheduler Fiber Callback).Reaches Proper books) : Kept books := by
  refine reached.invariant Kept ?_ ?_
  · rintro books rfl
    exact ⟨new_invariant, fun entry member => nomatch member⟩
  · rintro books op next - kept ⟨allowed, fits⟩ ⟨result, effects, done, logged⟩
    obtain ⟨after, result', effects', done', afterInv, does, -⟩ :=
      call_spec kept.table allowed fits
    rw [done] at done'
    cases done'
    have log : next.log = books.log ++ effects := by
      rw [Books.log, logged, List.flatMap_append, List.flatMap_singleton]
      rfl
    refine ⟨log ▸ afterInv, fun entry member => ?_⟩
    rw [logged, List.mem_append, List.mem_singleton] at member
    rcases member with old | rfl
    · exact kept.fair entry old
    · exact .of_call kept.table afterInv does

/-- What is armed by a call is consumed once or still registered. -/
theorem Kept.consumedOnce {books : Books Scheduler Fiber Callback} (kept : Kept books)
    {before later : List (Entry Scheduler Fiber Callback)} {added : Entry Scheduler Fiber Callback}
    (parts : books.calls = before ++ added :: later) {fd : Fd} {event : Event}
    {registration : Registration Scheduler Fiber Callback}
    (armed : added.effects = [⟨fd.val, event, .armed registration⟩]) :
    ConsumedOnce books.io later fd event registration := by
  have replays := kept.table.replays fd.val event
  have here : history added.effects fd.val event = [.armed registration] := by
    rw [armed]
    simp [history]
  rw [Books.log, parts, List.flatMap_append, List.flatMap_cons, history_append, history_append, here,
    replay_append] at replays
  obtain ⟨middle, -, replays⟩ := Option.bind_eq_some_iff.mp replays
  obtain rfl : middle = none := by
    cases middle with
    | none => rfl
    | some other => cases replays
  -- behind the arming
  rw [List.singleton_append, replay, history_flatMap] at replays
  have fair : ∀ entry ∈ later, entry.Fair := fun entry member =>
    kept.fair entry (parts ▸ List.mem_append_right _ (List.mem_cons_of_mem _ member))
  have single : ∀ part ∈ later.map fun entry => history entry.effects fd.val event,
      part.length ≤ 1 := by
    intro part member
    obtain ⟨entry, isLater, rfl⟩ := List.mem_map.mp member
    exact (fair entry isLater).single fd.val event
  rcases replay_parts single replays with ⟨untouched, same⟩ |
    ⟨waiting, consumer, rest, isLater, untouched, consumes, onward⟩
  · exact .inl ⟨fun entry member => untouched _ (List.mem_map_of_mem member), same⟩
  · obtain ⟨waits, more, rfl, rfl, isMore⟩ := List.map_eq_append_iff.mp isLater
    obtain ⟨entry, others, rfl, rfl, rfl⟩ := List.map_eq_cons_iff.mp isMore
    refine .inr ⟨waits, entry, others, rfl, fun other member => ?_, ?_, ?_⟩
    · exact untouched _ (List.mem_map_of_mem member)
    · exact (fair entry (by simp)).consumes consumes
    · rw [history_flatMap]
      exact replay_none_head onward

/-- In every run whose `addEvent` calls keep the table an `int` long, the counter is the number of
armed events, the contexts agree with the event bits, and what an `addEvent` arms is consumed
once, by a schedule of what it registered or by a removal, or is still registered.  The next
operation never fails an assertion, returns and does what it should, and changes nothing where its
`epoll_ctl` fails. -/
theorem bookkeeping {books : Books Scheduler Fiber Callback}
    (reached : (operations Scheduler Fiber Callback).Reaches Proper books) :
    books.io.m_pendingEventCount.toNat = books.io.armedCount ∧
      (∀ fd_ctx ∈ books.io.m_fdContexts, ∀ event, fd_ctx.Consistent event) ∧
      (∀ before added later fd event cb self cur ctl, books.calls = before ++ added :: later →
        added.op = .addEvent fd event cb (some self) cur ctl → added.result = .rt 0 →
          ConsumedOnce books.io later fd event ⟨self, Task.ofCallback cb cur⟩) ∧
      ∀ op : Op Scheduler Fiber Callback, op.Allowed books.io → op.Fits →
        ∃ after result effects, op.call books.io = .ok (after, result, effects) ∧
          op.Does books.io result effects ∧
          (op.CtlFails → effects = [] ∧
            after.m_pendingEventCount = books.io.m_pendingEventCount ∧
            ∀ fd, after.contextAt fd = books.io.contextAt fd) ∧
          ∀ fd, op.FailsAt fd → (∀ effect ∈ effects, effect.fd ≠ fd.val) ∧
            after.contextAt fd.val = books.io.contextAt fd.val := by
  have kept := reaches_kept reached
  refine ⟨kept.table.count, kept.table.consistent, ?_, ?_⟩
  · intro before added later fd event cb self cur ctl parts isAdd success
    apply kept.consumedOnce parts
    obtain ⟨io, does⟩ := (kept.fair added (by simp [parts])).does
    rw [isAdd, success] at does
    obtain ⟨scheduler, isSelf, does⟩ := does
    cases isSelf
    split at does
    next => exact does.2
    next => cases does.1
  · intro op allowed fits
    obtain ⟨after, result, effects, done, -, does, fails, failsAt⟩ :=
      call_spec kept.table allowed fits
    refine ⟨after, result, effects, done, does, ?_, ?_⟩
    · exact fun failed => ⟨does.nothing failed, fails failed⟩
    · exact fun fd failed => ⟨does.elsewhere allowed failed, failsAt fd failed⟩

/-- Arming `READ` of descriptor 3 on a fresh table, and cancelling it. -/
theorem bookkeeping_armed :
    ∃ books : Books Unit Unit Unit, (operations Unit Unit Unit).Reaches Proper books ∧
      books.calls.length = 2 ∧ books.io.armedCount = 0 ∧
        books.io.m_pendingEventCount.toNat = books.io.armedCount := by
  have armed : (operations Unit Unit Unit).Reaches Proper
      ⟨_, [⟨.addEvent 3 .READ none (some ()) () true, .rt 0, [⟨3, .READ, .armed ⟨(), .fiber ()⟩⟩]⟩]⟩ :=
    .step (.initial rfl)
      (show Proper ⟨new, []⟩ (Op.addEvent 3 .READ none (some ()) () true : Op Unit Unit Unit) from
        ⟨⟨by decide, rfl⟩, show 3 * 3 / 2 < 2 ^ 31 by decide⟩)
      ⟨_, _, rfl, rfl⟩
  have cancelled : (operations Unit Unit Unit).Reaches Proper ⟨_, _ ++ [⟨.cancelEvent 3 .READ true,
      .ok true, [⟨3, .READ, .scheduled ⟨(), .fiber ()⟩⟩]⟩]⟩ :=
    .step armed
      (show Proper _ (Op.cancelEvent 3 .READ true : Op Unit Unit Unit) from ⟨trivial, trivial⟩)
      ⟨_, _, rfl, rfl⟩
  exact ⟨_, cancelled, rfl, by decide, (bookkeeping cancelled).1⟩

end Runs

/-! ## More contexts than an `int` counts -/

/-- The contexts of a table in which nothing is armed. -/
def freshContexts (size : Nat) : List (FdContext Unit Unit Unit) :=
  (List.range size).map fun fd => { fd := fd }

theorem contextResize_new {size : Nat} (grows : 32 ≤ size) :
    contextResize (new : IOManager Unit Unit Unit) size = ⟨freshContexts size, 0⟩ := by
  obtain ⟨added, rfl⟩ := Nat.exists_eq_add_of_le grows
  have length : (new : IOManager Unit Unit Unit).m_fdContexts.length = 32 := rfl
  have old : (new : IOManager Unit Unit Unit).m_fdContexts = freshContexts 32 := rfl
  have contexts := contextResize_grow (length ▸ grows)
  rw [length, old, Nat.add_sub_cancel_left] at contexts
  rw [freshContexts, List.range_add, List.map_append, List.map_map]
  exact congrArg (IOManager.mk · 0) contexts

/-- The context of a descriptor with `READ` armed. -/
def readContext (fd : Nat) : FdContext Unit Unit Unit where
  read := { scheduler := some (), fiber := some () }
  fd := fd
  events := {.READ}

/-- `addEvent` for a descriptor beyond the table of the constructor. -/
theorem addEvent_new {fd : Fd} (beyond : 32 ≤ fd.val) :
    addEvent (new : IOManager Unit Unit Unit) fd .READ none (some ()) () true =
      .ok (⟨(freshContexts (fd.val * 3 / 2)).set fd.val (readContext fd.val), 1⟩, 0,
        [⟨fd.val, .READ, .armed ⟨(), .fiber ()⟩⟩]) := by
  have outside : ¬ (new : IOManager Unit Unit Unit).Covers fd := by
    rw [Covers, show (new : IOManager Unit Unit Unit).m_fdContexts.length = 32 from rfl]
    omega
  have here : (freshContexts (fd.val * 3 / 2))[fd.val]? = some { fd := fd.val } := by
    rw [freshContexts, List.getElem?_map, List.getElem?_range (by omega)]
    rfl
  rw [addEvent, reserve, if_neg outside, contextResize_new (by omega)]
  dsimp only
  rw [here]
  rfl

/-- From `2^31` contexts on, `addEvent` for descriptor 40 shrinks the table to 60. -/
theorem addEvent_shrinks {fd : Fd} (large : 2 ^ 31 ≤ fd.val * 3 / 2) :
    addEvent (⟨(freshContexts (fd.val * 3 / 2)).set fd.val (readContext fd.val), 1⟩ :
        IOManager Unit Unit Unit) 40 .READ none (some ()) () true =
      .ok (⟨(freshContexts 60).set 40 (readContext 40), 2⟩, 0,
        [⟨40, .READ, .armed ⟨(), .fiber ()⟩⟩]) := by
  have inside := fd.isLt
  have low : fd.val * 3 / 2 < 2 ^ 32 := by omega
  have negative : ¬ (⟨(freshContexts (fd.val * 3 / 2)).set fd.val (readContext fd.val), 1⟩ :
      IOManager Unit Unit Unit).Covers 40 := by
    rw [Covers]
    dsimp only
    rw [List.length_set, freshContexts, List.length_map, List.length_range, Nat.mod_eq_of_lt low]
    exact fun covers => absurd covers.2 (Nat.not_lt.mpr large)
  have kept : ((freshContexts (fd.val * 3 / 2)).set fd.val (readContext fd.val)).take 60 =
      freshContexts 60 := by
    rw [List.take_set_of_le (by omega), freshContexts, ← List.map_take, List.take_range,
      Nat.min_eq_left (by omega)]
    rfl
  rw [addEvent, reserve, if_neg negative, contextResize]
  dsimp only
  rw [show (40 : Fd).val * 3 / 2 = 60 from rfl, kept]
  rfl

/-- Two calls after which the counter is 2 and the table has one armed event, for every
descriptor that does not fit. -/
theorem far_reachable {fd : Fd} (large : 2 ^ 31 ≤ fd.val * 3 / 2) :
    ∃ books : Books Unit Unit Unit,
      (operations Unit Unit Unit).Reaches (fun books op => op.Allowed books.io) books ∧
        books.io.m_pendingEventCount = 2 ∧ books.io.armedCount = 1 := by
  have disarmed : Event.READ ∉ ((new : IOManager Unit Unit Unit).contextAt fd.val).events := by
    rw [contextAt, List.getElem?_eq_none (show 32 ≤ fd.val by omega)]
    exact Finset.notMem_empty _
  have disarmedToo : Event.READ ∉ ((⟨(freshContexts (fd.val * 3 / 2)).set fd.val
      (readContext fd.val), 1⟩ : IOManager Unit Unit Unit).contextAt 40).events := by
    rw [contextAt]
    dsimp only
    rw [List.getElem?_set_ne (by omega), freshContexts, List.getElem?_map,
      List.getElem?_range (by omega)]
    exact Finset.notMem_empty _
  have armed : (operations Unit Unit Unit).Reaches (fun books op => op.Allowed books.io)
      ⟨⟨(freshContexts (fd.val * 3 / 2)).set fd.val (readContext fd.val), 1⟩, [⟨_, .rt 0, _⟩]⟩ :=
    .step (.initial rfl)
      (show (Op.addEvent fd .READ none (some ()) () true : Op Unit Unit Unit).Allowed new from
        ⟨disarmed, rfl⟩)
      ⟨_, _, by rw [Op.call, addEvent_new (by omega)]; rfl, rfl⟩
  have shrunk : (operations Unit Unit Unit).Reaches (fun books op => op.Allowed books.io)
      ⟨⟨(freshContexts 60).set 40 (readContext 40), 2⟩, _⟩ :=
    .step armed
      (show (Op.addEvent 40 .READ none (some ()) () true : Op Unit Unit Unit).Allowed _ from
        ⟨disarmedToo, rfl⟩)
      ⟨_, _, by rw [Op.call, addEvent_shrinks large]; rfl, rfl⟩
  have one : armedCount (⟨(freshContexts 60).set 40 (readContext 40), 2⟩ : IOManager Unit Unit Unit) =
      1 := by
    decide
  exact ⟨_, shrunk, rfl, one⟩

/-- Descriptor 1431655766 asks for 2147483649 contexts. -/
theorem bookkeeping_shrunk :
    ∃ books : Books Unit Unit Unit,
      (operations Unit Unit Unit).Reaches (fun books op => op.Allowed books.io) books ∧
        books.io.m_pendingEventCount.toNat ≠ books.io.armedCount := by
  obtain ⟨books, reached, count, armed⟩ := @far_reachable 1431655766 (by decide)
  refine ⟨books, reached, ?_⟩
  rw [count, armed]
  decide

end Exhy.IOManager
