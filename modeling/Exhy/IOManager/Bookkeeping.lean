import Exhy.IOManager.Event
import Exhy.Library.Transition
import Mathlib.Algebra.BigOperators.Group.List.Basic
import Mathlib.Algebra.Order.BigOperators.Group.List
import Mathlib.Algebra.Order.Ring.Nat

/-!
# Event bookkeeping

What the event operations keep true of the table, of `m_pendingEventCount` and of the
history of arming, scheduling and removing.  An armed event holds a scheduler and one
task; everything ever armed is consumed once or still armed; and the counter is the
number of armed events.
-/

namespace Exhy.IOManager

variable {Scheduler Fiber Callback : Type}

/-! ## One context -/

namespace FdContext

variable {fd_ctx : FdContext Scheduler Fiber Callback} {event other : Event}

/-- The context of an event holds a scheduler and exactly one of a callback or a fiber
when the event's bit is set, and nothing when it is not. -/
def Consistent (fd_ctx : FdContext Scheduler Fiber Callback) (event : Event) : Prop :=
  let ctx := fd_ctx.getContext event
  if event ∈ fd_ctx.events then
    ctx.scheduler.isSome ∧ (ctx.cb.isSome ↔ ctx.fiber.isNone)
  else ctx = {}

/-- What is registered for an event: the content of its context while its bit is set. -/
def registration (fd_ctx : FdContext Scheduler Fiber Callback) (event : Event) :
    Option (Registration Scheduler Fiber Callback) :=
  let ctx := fd_ctx.getContext event
  if event ∈ fd_ctx.events then
    match ctx.scheduler, ctx.cb, ctx.fiber with
    | some scheduler, some cb, _ => some ⟨scheduler, .cb cb⟩
    | some scheduler, none, some fiber => some ⟨scheduler, .fiber fiber⟩
    | _, _, _ => none
  else none

/-- Clear an event's bit and its context. -/
def disarm (fd_ctx : FdContext Scheduler Fiber Callback) (event : Event) :
    FdContext Scheduler Fiber Callback :=
  { fd_ctx with events := fd_ctx.events.erase event }.resetContext event

@[simp] theorem getContext_setContext_self (ctx : EventContext Scheduler Fiber Callback) :
    (fd_ctx.setContext event ctx).getContext event = ctx := by
  cases event <;> rfl

theorem getContext_setContext_ne (different : other ≠ event)
    (ctx : EventContext Scheduler Fiber Callback) :
    (fd_ctx.setContext event ctx).getContext other = fd_ctx.getContext other := by
  cases event <;> cases other <;> first | rfl | exact (different rfl).elim

@[simp] theorem events_setContext (ctx : EventContext Scheduler Fiber Callback) :
    (fd_ctx.setContext event ctx).events = fd_ctx.events := by
  cases event <;> rfl

@[simp] theorem fd_setContext (ctx : EventContext Scheduler Fiber Callback) :
    (fd_ctx.setContext event ctx).fd = fd_ctx.fd := by
  cases event <;> rfl

@[simp] theorem getContext_events (events : Finset Event) :
    { fd_ctx with events := events }.getContext event = fd_ctx.getContext event := by
  cases event <;> rfl

@[simp] theorem events_disarm : (fd_ctx.disarm event).events = fd_ctx.events.erase event := by
  simp [disarm, resetContext]

@[simp] theorem fd_disarm : (fd_ctx.disarm event).fd = fd_ctx.fd := by
  simp [disarm, resetContext]

theorem getContext_disarm_ne (different : other ≠ event) :
    (fd_ctx.disarm event).getContext other = fd_ctx.getContext other := by
  rw [disarm, resetContext, getContext_setContext_ne different, getContext_events]

theorem disarm_consistent (consistent : ∀ event, fd_ctx.Consistent event) :
    (fd_ctx.disarm event).Consistent other := by
  by_cases same : other = event
  · subst same
    simp [Consistent, disarm, resetContext]
  · have unchanged := consistent other
    simp only [Consistent, events_disarm, getContext_disarm_ne same,
      Finset.mem_erase, ne_eq, same, not_false_eq_true, true_and] at unchanged ⊢
    exact unchanged

theorem registration_disarm :
    (fd_ctx.disarm event).registration other =
      if other = event then none else fd_ctx.registration other := by
  by_cases same : other = event
  · simp [registration, same]
  · simp [registration, getContext_disarm_ne same, same]

/-- Under consistency an event is armed exactly when something is registered for it. -/
theorem registration_isSome (consistent : fd_ctx.Consistent event) :
    (fd_ctx.registration event).isSome ↔ event ∈ fd_ctx.events := by
  by_cases armed : event ∈ fd_ctx.events
  · simp only [Consistent, if_pos armed] at consistent
    simp only [registration, armed, if_true, iff_true]
    generalize fd_ctx.getContext event = ctx at consistent ⊢
    rcases ctx with ⟨_ | scheduler, _ | fiber, _ | cb⟩ <;> simp_all
  · simp [registration, armed]

/-- Triggering an armed event schedules what is registered for it, once, and disarms it. -/
theorem triggerEvent_spec (consistent : fd_ctx.Consistent event)
    (armed : event ∈ fd_ctx.events) :
    ∃ registration, fd_ctx.registration event = some registration ∧
      fd_ctx.triggerEvent event =
        .ok (fd_ctx.disarm event, [⟨fd_ctx.fd, event, .scheduled registration⟩]) := by
  simp only [Consistent, if_pos armed] at consistent
  simp only [registration, triggerEvent, if_pos armed, getContext_events, disarm, resetContext]
  generalize fd_ctx.getContext event = ctx at consistent ⊢
  rcases ctx with ⟨_ | scheduler, fiber, cb⟩
  · simp at consistent
  · rcases fiber with _ | fiber <;> rcases cb with _ | cb
    · simp at consistent
    · exact ⟨⟨scheduler, .cb cb⟩, rfl, rfl⟩
    · exact ⟨⟨scheduler, .fiber fiber⟩, rfl, rfl⟩
    · simp at consistent

end FdContext

/-! ## The history of one event -/

/-- What happened to one event of one descriptor, in order. -/
def history (log : List (Effect Scheduler Fiber Callback)) (fd : Nat) (event : Event) :
    List (Action Scheduler Fiber Callback) :=
  (log.filter fun effect => effect.fd = fd ∧ effect.event = event).map Effect.action

/-- Follow a history from what is registered before it to what is registered after it.
Arming must find nothing registered; a schedule must be of what is registered, and it
or a removal consumes it.  An action out of turn gives `none`. -/
def replay [DecidableEq Scheduler] [DecidableEq Fiber] [DecidableEq Callback] :
    Option (Registration Scheduler Fiber Callback) → List (Action Scheduler Fiber Callback) →
    Option (Option (Registration Scheduler Fiber Callback))
  | registered, [] => some registered
  | none, .armed registration :: rest => replay (some registration) rest
  | some registered, .scheduled registration :: rest =>
      if registration = registered then replay none rest else none
  | some _, .removed :: rest => replay none rest
  | _, _ :: _ => none

@[simp] theorem history_append (before after : List (Effect Scheduler Fiber Callback))
    (fd : Nat) (event : Event) :
    history (before ++ after) fd event = history before fd event ++ history after fd event := by
  simp [history]

theorem mem_history {log : List (Effect Scheduler Fiber Callback)} {fd : Nat} {event : Event}
    {action : Action Scheduler Fiber Callback} :
    action ∈ history log fd event ↔ ⟨fd, event, action⟩ ∈ log := by
  rw [history, List.mem_map]
  constructor
  · rintro ⟨⟨_, _, _⟩, member, rfl⟩
    obtain ⟨inLog, here⟩ := List.mem_filter.mp member
    obtain ⟨rfl, rfl⟩ := of_decide_eq_true here
    exact inLog
  · intro inLog
    exact ⟨_, List.mem_filter.mpr ⟨inLog, decide_eq_true ⟨rfl, rfl⟩⟩, rfl⟩

theorem length_history_le (log : List (Effect Scheduler Fiber Callback)) (fd : Nat) (event : Event) :
    (history log fd event).length ≤ log.length := by
  rw [history, List.length_map]
  exact List.length_filter_le ..

theorem history_flatMap {Call : Type} (effects : Call → List (Effect Scheduler Fiber Callback))
    (calls : List Call) (fd : Nat) (event : Event) :
    history (calls.flatMap effects) fd event =
      (calls.map fun call => history (effects call) fd event).flatten := by
  induction calls with
  | nil => rfl
  | cons call rest ih => rw [List.flatMap_cons, history_append, ih, List.map_cons, List.flatten_cons]

theorem history_eq_nil {log : List (Effect Scheduler Fiber Callback)} {fd : Nat} {event : Event}
    (elsewhere : ∀ effect ∈ log, effect.fd ≠ fd ∨ effect.event ≠ event) :
    history log fd event = [] := by
  simp only [history, List.map_eq_nil_iff, List.filter_eq_nil_iff, decide_eq_true_eq]
  intro effect member both
  rcases elsewhere effect member with fdNe | eventNe
  · exact fdNe both.1
  · exact eventNe both.2

section Replay

variable [DecidableEq Scheduler] [DecidableEq Fiber] [DecidableEq Callback]

/-- The second part starts where the first one ends. -/
theorem replay_append (registered : Option (Registration Scheduler Fiber Callback))
    (first second : List (Action Scheduler Fiber Callback)) :
    replay registered (first ++ second) =
      (replay registered first).bind fun middle => replay middle second := by
  induction first generalizing registered with
  | nil => rfl
  | cons action rest ih =>
      cases registered with
      | none =>
          cases action with
          | armed registration => exact ih (some registration)
          | scheduled registration | removed => rfl
      | some registration =>
          cases action with
          | armed other => rfl
          | scheduled other =>
              simp only [replay, List.cons_append]
              split
              next => exact ih none
              next => rfl
          | removed => exact ih none

/-- Schedules alone: there is one thing to schedule at most. -/
theorem length_of_schedules {registered after : Option (Registration Scheduler Fiber Callback)}
    {actions : List (Action Scheduler Fiber Callback)}
    (schedules : ∀ action ∈ actions, ∃ registration, action = .scheduled registration)
    (replays : replay registered actions = some after) : actions.length ≤ 1 := by
  match actions with
  | [] => exact Nat.zero_le 1
  | [_] => exact Nat.le_refl 1
  | first :: second :: rest =>
      obtain ⟨registration, rfl⟩ := schedules first List.mem_cons_self
      obtain ⟨other, rfl⟩ := schedules second (List.mem_cons_of_mem _ List.mem_cons_self)
      cases registered with
      | none => cases replays
      | some registered =>
          rw [replay] at replays
          split at replays
          next => cases replays
          next => cases replays

/-- What is registered is left alone, or one of the parts consumes it alone and the rest starts
with an arming or with nothing. -/
theorem replay_parts {parts : List (List (Action Scheduler Fiber Callback))}
    (single : ∀ part ∈ parts, part.length ≤ 1)
    {registration : Registration Scheduler Fiber Callback}
    {after : Option (Registration Scheduler Fiber Callback)}
    (replays : replay (some registration) parts.flatten = some after) :
    (∀ part ∈ parts, part = []) ∧ after = some registration ∨
      ∃ waiting consumer later, parts = waiting ++ consumer :: later ∧
        (∀ part ∈ waiting, part = []) ∧
        (consumer = [.scheduled registration] ∨ consumer = [.removed]) ∧
        replay none later.flatten = some after := by
  induction parts with
  | nil =>
      rw [List.flatten_nil, replay, Option.some.injEq] at replays
      exact .inl ⟨(fun part member => nomatch member), replays.symm⟩
  | cons part rest ih =>
      have restSingle := fun other member => single other (List.mem_cons_of_mem part member)
      rw [List.flatten_cons] at replays
      match part, single part List.mem_cons_self with
      | [], _ =>
          rw [List.nil_append] at replays
          rcases ih restSingle replays with ⟨untouched, same⟩ |
            ⟨waiting, consumer, later, rfl, untouched, consumes, onward⟩
          · exact .inl ⟨by simpa using untouched, same⟩
          · exact .inr ⟨[] :: waiting, consumer, later, rfl, by simpa using untouched, consumes, onward⟩
      | [action], _ =>
          rw [List.cons_append, List.nil_append] at replays
          right
          cases action with
          | armed other => cases replays
          | scheduled other =>
              rw [replay] at replays
              split at replays
              next same =>
                exact ⟨[], _, rest, rfl, by simp, .inl (same ▸ rfl), replays⟩
              next => cases replays
          | removed => exact ⟨[], _, rest, rfl, by simp, .inr rfl, replays⟩

/-- With nothing registered the next action is an arming. -/
theorem replay_none_head {actions : List (Action Scheduler Fiber Callback)}
    {after : Option (Registration Scheduler Fiber Callback)}
    (replays : replay none actions = some after) :
    ∀ action ∈ actions.head?, ∃ registration, action = .armed registration := by
  intro action first
  cases actions with
  | nil => cases first
  | cons head rest =>
      cases first
      cases action with
      | armed registration => exact ⟨registration, rfl⟩
      | scheduled | removed => cases replays

end Replay

/-! ## The table -/

/-- The number of armed events of all descriptors. -/
def armedCount (io : IOManager Scheduler Fiber Callback) : Nat :=
  (io.m_fdContexts.map fun fd_ctx => fd_ctx.events.card).sum

/-- What is registered for an event of a descriptor. -/
def registered (io : IOManager Scheduler Fiber Callback) (fd : Nat) (event : Event) :
    Option (Registration Scheduler Fiber Callback) :=
  io.m_fdContexts[fd]?.bind fun fd_ctx => fd_ctx.registration event

/-- The context of a descriptor; beyond the end of the table it is a fresh one. -/
def contextAt (io : IOManager Scheduler Fiber Callback) (fd : Nat) :
    FdContext Scheduler Fiber Callback :=
  io.m_fdContexts[fd]?.getD { fd := fd }

/-- The table after the event of one of its contexts has been consumed. -/
def consume (io : IOManager Scheduler Fiber Callback) (fd : Nat)
    (fd_ctx : FdContext Scheduler Fiber Callback) (event : Event) :
    IOManager Scheduler Fiber Callback :=
  { io.setFdContext fd (fd_ctx.disarm event) with
    m_pendingEventCount := io.m_pendingEventCount - 1 }

theorem getElem?_consume_ne {io : IOManager Scheduler Fiber Callback} {fd other : Nat} (different : other ≠ fd)
    (fd_ctx : FdContext Scheduler Fiber Callback) (event : Event) :
    (io.consume fd fd_ctx event).m_fdContexts[other]? = io.m_fdContexts[other]? := by
  simp [IOManager.consume, setFdContext, Ne.symm different]

theorem getElem?_consume_self {io : IOManager Scheduler Fiber Callback} {fd : Nat}
    {fd_ctx : FdContext Scheduler Fiber Callback}
    (here : io.m_fdContexts[fd]? = some fd_ctx) (event : Event) :
    (io.consume fd fd_ctx event).m_fdContexts[fd]? = some (fd_ctx.disarm event) := by
  have inside : fd < io.m_fdContexts.length := (List.getElem?_eq_some_iff.mp here).1
  simp [IOManager.consume, setFdContext, inside]

section Invariant

variable [DecidableEq Scheduler] [DecidableEq Fiber] [DecidableEq Callback]
variable {io : IOManager Scheduler Fiber Callback}
variable {log : List (Effect Scheduler Fiber Callback)}

/-- What holds between operations.  The number of contexts is an `int`, which also keeps the
number of armed events far below the range of the counter. -/
structure Invariant (io : IOManager Scheduler Fiber Callback)
    (log : List (Effect Scheduler Fiber Callback)) : Prop where
  enough : 32 ≤ io.m_fdContexts.length
  bounded : io.m_fdContexts.length < 2 ^ 31
  own_fd : ∀ (fd : Nat) (fd_ctx : FdContext Scheduler Fiber Callback),
    io.m_fdContexts[fd]? = some fd_ctx → fd_ctx.fd = fd
  consistent : ∀ fd_ctx ∈ io.m_fdContexts, ∀ event, fd_ctx.Consistent event
  count : io.m_pendingEventCount.toNat = io.armedCount
  replays : ∀ fd event, replay none (history log fd event) = some (io.registered fd event)

theorem card_events_le (events : Finset Event) : events.card ≤ 2 := by
  have subset : events ⊆ {.READ, .WRITE} := by
    intro event _
    cases event <;> simp
  exact Finset.card_le_card subset

theorem sum_map_set {α : Type} (weight : α → Nat) {items : List α} {index : Nat}
    {before : α} (here : items[index]? = some before) (after : α) :
    ((items.set index after).map weight).sum + weight before =
      (items.map weight).sum + weight after := by
  induction items generalizing index with
  | nil => simp at here
  | cons item items ih =>
      cases index with
      | zero =>
          simp only [List.getElem?_cons_zero, Option.some.injEq] at here
          subst here
          simp only [List.set_cons_zero, List.map_cons, List.sum_cons]
          omega
      | succ index =>
          have tail := ih (by simpa using here)
          simp only [List.set_cons_succ, List.map_cons, List.sum_cons]
          omega

theorem Invariant.armedCount_le (inv : Invariant io log) : io.armedCount ≤ 2 ^ 33 := by
  have bound := List.sum_le_card_nsmul
    (io.m_fdContexts.map fun fd_ctx => fd_ctx.events.card) 2 (by
      intro card member
      obtain ⟨fd_ctx, -, rfl⟩ := List.mem_map.mp member
      exact card_events_le _)
  have small := inv.bounded
  simp only [List.length_map, Nat.nsmul_eq_mul] at bound
  rw [armedCount]
  omega

/-- Replacing one context keeps the invariant when the counter and the history of its
events follow the replacement. -/
theorem Invariant.store (inv : Invariant io log) {fd : Nat}
    {before after : FdContext Scheduler Fiber Callback} {count : UInt64}
    {effects : List (Effect Scheduler Fiber Callback)}
    (here : io.m_fdContexts[fd]? = some before) (fdEq : after.fd = fd)
    (consistent : ∀ event, after.Consistent event)
    (countEq : count.toNat + before.events.card =
      io.m_pendingEventCount.toNat + after.events.card)
    (onFd : ∀ effect ∈ effects, effect.fd = fd)
    (replays : ∀ event,
      replay (before.registration event) (history effects fd event) =
        some (after.registration event)) :
    Invariant { io.setFdContext fd after with m_pendingEventCount := count }
      (log ++ effects) where
  enough := by simpa [setFdContext] using inv.enough
  bounded := by simpa [setFdContext] using inv.bounded
  own_fd := by
    intro index fd_ctx found
    simp only [setFdContext, List.getElem?_set] at found
    split at found
    · split at found
      · simp only [Option.some.injEq] at found
        subst found
        omega
      · simp at found
    · exact inv.own_fd index fd_ctx found
  consistent := by
    intro fd_ctx member
    rcases List.mem_or_eq_of_mem_set member with old | rfl
    · exact inv.consistent fd_ctx old
    · exact consistent
  count := by
    have sums := sum_map_set (fun fd_ctx => fd_ctx.events.card) here after
    have old := inv.count
    simp only [armedCount, setFdContext] at sums old ⊢
    omega
  replays := by
    intro index event
    rw [history_append, replay_append, inv.replays index event, Option.bind_some]
    by_cases same : fd = index
    · subst same
      have inside : fd < io.m_fdContexts.length := (List.getElem?_eq_some_iff.mp here).1
      simpa only [registered, setFdContext, here, Option.bind_some,
        List.getElem?_set_self inside] using replays event
    · rw [history_eq_nil fun effect member => .inl (by rw [onFd effect member]; exact same)]
      simp [registered, setFdContext, same, replay]

/-- What happened to an event leads from the registration before to the one after. -/
theorem Invariant.replay_effects (inv : Invariant io log) {after : IOManager Scheduler Fiber Callback}
    {effects : List (Effect Scheduler Fiber Callback)} (afterInv : Invariant after (log ++ effects))
    (fd : Nat) (event : Event) :
    replay (io.registered fd event) (history effects fd event) =
      some (after.registered fd event) := by
  have whole := afterInv.replays fd event
  rwa [history_append, replay_append, inv.replays fd event, Option.bind_some] at whole

/-- Consuming an armed event, by the action that its history calls for, keeps the
invariant and changes no other descriptor. -/
theorem Invariant.consume (inv : Invariant io log) {fd : Nat} {event : Event}
    {fd_ctx : FdContext Scheduler Fiber Callback} (here : io.m_fdContexts[fd]? = some fd_ctx)
    (armed : event ∈ fd_ctx.events) {action : Action Scheduler Fiber Callback}
    (consumes : ∀ rest, replay (fd_ctx.registration event) (action :: rest) = replay none rest) :
    Invariant (io.consume fd fd_ctx event) (log ++ [⟨fd, event, action⟩]) := by
  have consistent := inv.consistent fd_ctx (List.mem_of_getElem? here)
  have card := Finset.card_erase_add_one armed
  have positive : 1 ≤ io.m_pendingEventCount.toNat := by
    have sums := sum_map_set (fun fd_ctx => fd_ctx.events.card) here (fd_ctx.disarm event)
    have old := inv.count
    simp only [FdContext.events_disarm] at sums
    rw [armedCount] at old
    omega
  refine inv.store here ?_ (fun _ => FdContext.disarm_consistent consistent) ?_ (by simp) ?_
  · rw [FdContext.fd_disarm]
    exact inv.own_fd fd fd_ctx here
  · have decremented : (io.m_pendingEventCount - 1).toNat = io.m_pendingEventCount.toNat - 1 :=
      UInt64.toNat_sub_of_le _ _ (UInt64.le_iff_toNat_le.mpr positive)
    rw [decremented, FdContext.events_disarm]
    omega
  · intro other
    rw [FdContext.registration_disarm]
    by_cases same : other = event
    · subst same
      simp only [history, and_self, decide_true, List.filter_cons_of_pos, List.filter_nil,
        List.map_cons, List.map_nil, if_pos]
      rw [consumes, replay]
    · rw [history_eq_nil (by simp [Ne.symm same]), if_neg same, replay]

end Invariant

end Exhy.IOManager
