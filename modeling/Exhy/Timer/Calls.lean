import Exhy.Timer.Queue

/-!
# Calls from several threads

`listExpiredCb` looks whether the set is empty in one region under `m_mutex` and uses
`m_timers.begin()` in the next.  Every other function is one region, and any number of threads
may be between the two regions of `listExpiredCb`.
-/

namespace Exhy

open Library

namespace TimerManager

variable {Ref Callback : Type} [LinearOrder Ref] {m next : TimerManager Ref Callback} {ref : Ref}

/-! ## A timer with new times -/

/-- Only the times of one timer have changed. -/
structure Rearms (ref : Ref) (m_ms m_next : UInt64) (m next : TimerManager Ref Callback) : Prop where
  sorted : next.Sorted
  members : ∀ other, other ∈ next.m_timers ↔ other ∈ m.m_timers
  self : next.timer ref = { m.timer ref with m_ms := m_ms, m_next := m_next }
  others : ∀ other, other ≠ ref → next.timer other = m.timer other

theorem Sorted.rearms (sorted : m.Sorted) {found : Ref} (isFound : m.find ref = some found)
    (m_ms m_next : UInt64) :
    Rearms ref m_ms m_next m (((m.erase ref).setTimer ref
      { m.timer ref with m_ms := m_ms, m_next := m_next }).insert ref) where
  sorted := ((sorted.erase ref).setTimer (sorted.notMem_erase isFound) _).insert ref
  members := sorted.mem_reinsert isFound _
  self := timer_setTimer_self ..
  others _ different := timer_setTimer_ne _ different _

theorem refresh_none (none : (m.timer ref).m_cb = none) (now_ms : UInt64) :
    m.refresh ref now_ms = (m, false) := by
  rw [refresh, none]
  rfl

theorem refresh_some (sorted : m.Sorted) (member : ref ∈ m.m_timers)
    (filled : (m.timer ref).m_cb ≠ none) (now_ms : UInt64) :
    (m.refresh ref now_ms).2 = true ∧
      Rearms ref (m.timer ref).m_ms (now_ms + (m.timer ref).m_ms) m (m.refresh ref now_ms).1 := by
  obtain ⟨found, isFound⟩ := Option.ne_none_iff_exists'.mp (find_ne_none member)
  have isSome : ¬ (m.timer ref).m_cb.isNone = true := mt Option.isNone_iff_eq_none.mp filled
  rw [refresh, if_neg isSome, isFound]
  exact ⟨rfl, sorted.rearms isFound _ _⟩

theorem reset_same {ms : UInt64} (same : ms = (m.timer ref).m_ms) (now_ms : UInt64) :
    m.reset ref ms false now_ms = (m, true, false) := by
  rw [reset, same]
  simp

/-- The shortcut of `reset`. -/
def Shortcut (m : TimerManager Ref Callback) (ref : Ref) (ms : UInt64) (from_now : Bool) : Prop :=
  ms = (m.timer ref).m_ms ∧ from_now = false

instance (m : TimerManager Ref Callback) (ref : Ref) (ms : UInt64) (from_now : Bool) :
    Decidable (m.Shortcut ref ms from_now) :=
  inferInstanceAs (Decidable (_ ∧ _))

theorem reset_none {ms : UInt64} {from_now : Bool} (changes : ¬ m.Shortcut ref ms from_now)
    (none : (m.timer ref).m_cb = none) (now_ms : UInt64) :
    m.reset ref ms from_now now_ms = (m, false, false) := by
  have goesOn : ¬ (ms = (m.timer ref).m_ms ∧ (!from_now) = true) := by
    rw [Bool.not_eq_true']
    exact changes
  rw [reset]
  dsimp only
  rw [if_neg (by simpa using goesOn), none]
  rfl

theorem reset_some (sorted : m.Sorted) {ms : UInt64} {from_now : Bool}
    (changes : ¬ m.Shortcut ref ms from_now) (member : ref ∈ m.m_timers)
    (filled : (m.timer ref).m_cb ≠ none) (now_ms : UInt64) :
    (m.reset ref ms from_now now_ms).2.1 = true ∧
      Rearms ref ms
        ((if from_now then now_ms else (m.timer ref).m_next - (m.timer ref).m_ms) + ms) m
        (m.reset ref ms from_now now_ms).1 := by
  have goesOn : ¬ (ms = (m.timer ref).m_ms ∧ (!from_now) = true) := by
    rw [Bool.not_eq_true']
    exact changes
  obtain ⟨found, isFound⟩ := Option.ne_none_iff_exists'.mp (find_ne_none member)
  have isSome : ¬ (m.timer ref).m_cb.isNone = true := mt Option.isNone_iff_eq_none.mp filled
  rw [reset]
  dsimp only
  rw [if_neg (by simpa using goesOn), if_neg isSome, isFound]
  have rearms := sorted.rearms isFound ms
    ((if from_now then now_ms else (m.timer ref).m_next - (m.timer ref).m_ms) + ms)
  exact ⟨rfl, rearms.sorted, rearms.members, rearms.self, rearms.others⟩

theorem listExpiredCb_expires (sorted : m.Sorted) {now_ms : UInt64} {now_timer : Ref}
    {cbs : List (Option Callback)} (done : m.listExpiredCb now_ms now_timer = some (next, cbs)) :
    Expires now_ms (m.expired now_ms now_timer) m next cbs := by
  have through : (m.detectClockRollOver now_ms).1 = true ∨ m.m_timers ≠ [] := by
    by_contra stops
    rw [not_or, Bool.not_eq_true, not_not] at stops
    rw [(listExpiredCb_eq_none_iff m now_ms now_timer).mpr stops] at done
    cases done
  obtain ⟨kept, parts, result⟩ := listExpiredCb_eq now_ms now_timer through
  have expires := Expires.of_foldl sorted now_ms now_ms parts
  rw [done, Option.some.injEq] at result
  rwa [← result] at expires

/-- Every timer with a callback is in the set. -/
def Held (m : TimerManager Ref Callback) : Prop :=
  ∀ ref, (m.timer ref).m_cb.isSome = true → ref ∈ m.m_timers

theorem Rearms.held {m_ms m_next : UInt64} (rearms : Rearms ref m_ms m_next m next) (held : m.Held) :
    next.Held := by
  intro other filled
  rw [rearms.members]
  apply held
  by_cases same : other = ref
  · rw [same, rearms.self] at filled
    rwa [same]
  · rwa [rearms.others other same] at filled

theorem Rearms.nil_iff {m_ms m_next : UInt64} (rearms : Rearms ref m_ms m_next m next) :
    next.m_timers = [] ↔ m.m_timers = [] := by
  simp only [List.eq_nil_iff_forall_not_mem, rearms.members]

end TimerManager

/-! ## Runs -/

/-- The manager with the calls of `listExpiredCb` that have passed their check, and the reading
that each of them goes by.  `start` is the reading that the deadline of a timer counts from.
`emptied` says of such a call that the last timer has been taken out of the set since its check
and none put in.  `stray` is set by the use of `begin()` of an empty set. -/
structure TimerCalls (Thread Ref Callback : Type) where
  manager : TimerManager Ref Callback
  start : Ref → UInt64
  waiting : Thread → Option UInt64
  emptied : Thread → Bool
  stray : Bool

namespace TimerCalls

variable {Thread Ref Callback : Type} [DecidableEq Thread] [LinearOrder Ref]

inductive Label (Thread Ref Callback : Type) where
  | addTimer (ref : Ref) (ms : UInt64) (cb : Option Callback) (recurring : Bool) (now_ms : UInt64)
  | cancel (ref : Ref)
  | refresh (ref : Ref) (now_ms : UInt64)
  | reset (ref : Ref) (ms : UInt64) (from_now : Bool) (now_ms : UInt64)
  | getNextTimer (now_ms : UInt64)
  | check (thread : Thread) (now_ms : UInt64)
  | expire (thread : Thread) (now_timer : Ref)

/-- The `cancel` takes the last timer out. -/
def cancelsLast (m : TimerManager Ref Callback) (ref : Ref) : Bool :=
  (m.timer ref).m_cb.isSome && m.m_timers.all fun other => other = ref

/-- The expiry takes all timers out and puts none back. -/
def expiresLast (m : TimerManager Ref Callback) (now_ms : UInt64) (now_timer : Ref) : Bool :=
  m.m_timers.all fun ref => ref ∈ m.expired now_ms now_timer && !(m.timer ref).m_recurring

/-- What an expiry makes of the readings that the deadlines count from. -/
def restart (s : TimerCalls Thread Ref Callback) (now_ms : UInt64) (now_timer : Ref) (ref : Ref) :
    UInt64 :=
  if ref ∈ s.manager.expired now_ms now_timer ∧ (s.manager.timer ref).m_recurring = true then now_ms
  else s.start ref

inductive Step : TimerCalls Thread Ref Callback → Label Thread Ref Callback →
    TimerCalls Thread Ref Callback → Prop where
  /-- A new timer has an address of its own. -/
  | addTimer {s : TimerCalls Thread Ref Callback} (ref : Ref) (ms : UInt64) (cb : Option Callback)
      (recurring : Bool) (now_ms : UInt64) : ref ∉ s.manager.m_timers →
      Step s (.addTimer ref ms cb recurring now_ms)
        { s with
          manager := (s.manager.addTimer ref ms cb recurring now_ms).1
          start := Function.update s.start ref now_ms
          emptied := fun _ => false }
  | cancel {s : TimerCalls Thread Ref Callback} (ref : Ref) {manager : TimerManager Ref Callback}
      {result : Bool} : s.manager.cancel ref = some (manager, result) →
      Step s (.cancel ref)
        { s with
          manager := manager
          emptied := fun thread => s.emptied thread || cancelsLast s.manager ref }
  | refresh {s : TimerCalls Thread Ref Callback} (ref : Ref) (now_ms : UInt64) :
      Step s (.refresh ref now_ms)
        { s with
          manager := (s.manager.refresh ref now_ms).1
          start := if (s.manager.refresh ref now_ms).2 then Function.update s.start ref now_ms
            else s.start }
  | reset {s : TimerCalls Thread Ref Callback} (ref : Ref) (ms : UInt64) (from_now : Bool)
      (now_ms : UInt64) :
      Step s (.reset ref ms from_now now_ms)
        { s with
          manager := (s.manager.reset ref ms from_now now_ms).1
          start := if (s.manager.reset ref ms from_now now_ms).2.1 && from_now then
              Function.update s.start ref now_ms
            else s.start }
  | getNextTimer {s : TimerCalls Thread Ref Callback} (now_ms : UInt64) :
      Step s (.getNextTimer now_ms) { s with manager := (s.manager.getNextTimer now_ms).2 }
  /-- The first region of `listExpiredCb` finds a timer. -/
  | check {s : TimerCalls Thread Ref Callback} (thread : Thread) (now_ms : UInt64) :
      s.waiting thread = none → s.manager.m_timers ≠ [] →
      Step s (.check thread now_ms)
        { s with
          waiting := Function.update s.waiting thread (some now_ms)
          emptied := Function.update s.emptied thread false }
  /-- The second region. -/
  | expire {s : TimerCalls Thread Ref Callback} (thread : Thread) {now_ms : UInt64} (now_timer : Ref)
      {manager : TimerManager Ref Callback} {cbs : List (Option Callback)} :
      s.waiting thread = some now_ms →
      s.manager.listExpiredCb now_ms now_timer = some (manager, cbs) →
      Step s (.expire thread now_timer)
        { s with
          manager := manager
          start := s.restart now_ms now_timer
          waiting := Function.update s.waiting thread none
          emptied := fun other => s.emptied other || expiresLast s.manager now_ms now_timer }
  | stray {s : TimerCalls Thread Ref Callback} (thread : Thread) {now_ms : UInt64} (now_timer : Ref) :
      s.waiting thread = some now_ms → s.manager.listExpiredCb now_ms now_timer = none →
      Step s (.expire thread now_timer) { s with stray := true }

end TimerCalls

/-- Every interleaving of the calls on a new manager, up to a stray access. -/
def timerCalls (Thread Ref Callback : Type) [DecidableEq Thread] [LinearOrder Ref] :
    System (TimerCalls Thread Ref Callback) (TimerCalls.Label Thread Ref Callback) where
  initial s := s.manager.m_timers = [] ∧ (∀ ref, (s.manager.timer ref).m_cb = none) ∧
    (∀ thread, s.waiting thread = none) ∧ s.stray = false
  step s label next := s.stray = false ∧ TimerCalls.Step s label next

namespace TimerCalls

variable {Thread Ref Callback : Type} [LinearOrder Ref]

/-- What every state keeps. -/
structure Kept (s : TimerCalls Thread Ref Callback) : Prop where
  sorted : s.manager.Sorted
  held : s.manager.Held
  deadline : ∀ ref ∈ s.manager.m_timers,
    (s.manager.timer ref).m_next = s.start ref + (s.manager.timer ref).m_ms
  emptied : ∀ thread, s.waiting thread ≠ none →
    (s.emptied thread = true ↔ s.manager.m_timers = [])

/-! ## The last timer -/

section Last

variable {m manager : TimerManager Ref Callback} {ref : Ref}

theorem cancelsLast_iff (cancels : TimerManager.Cancels ref m manager) :
    manager.m_timers = [] ↔ m.m_timers = [] ∨ cancelsLast m ref = true := by
  rw [cancelsLast, Bool.and_eq_true, List.all_eq_true, List.eq_nil_iff_forall_not_mem]
  simp only [cancels.members, decide_eq_true_eq]
  constructor
  · intro nothing
    by_cases filled : (m.timer ref).m_cb = none
    · left
      apply List.eq_nil_iff_forall_not_mem.mpr
      intro other member
      exact nothing other ⟨member, fun _ => filled⟩
    · right
      refine ⟨Option.isSome_iff_ne_none.mpr filled, fun other member => ?_⟩
      by_contra different
      exact nothing other ⟨member, fun same => absurd same different⟩
  · rintro (empty | ⟨filled, only⟩) other ⟨member, stays⟩
    · rw [empty] at member
      cases member
    · rw [stays (only other member)] at filled
      cases filled

theorem expiresLast_iff {now_ms : UInt64} {now_timer : Ref} {cbs : List (Option Callback)}
    (expires : TimerManager.Expires now_ms (m.expired now_ms now_timer) m manager cbs) :
    manager.m_timers = [] ↔ expiresLast m now_ms now_timer = true := by
  rw [expiresLast, List.all_eq_true, List.eq_nil_iff_forall_not_mem]
  simp only [expires.members, Bool.and_eq_true, decide_eq_true_eq, Bool.not_eq_true']
  constructor
  · intro nothing other member
    by_contra stays
    apply nothing other
    refine ⟨member, fun isExpired => ?_⟩
    by_contra once
    exact stays ⟨isExpired, Bool.not_eq_true _ ▸ once⟩
  · rintro all other ⟨member, again⟩
    obtain ⟨isExpired, once⟩ := all other member
    rw [again isExpired] at once
    cases once

end Last

/-! ## Every step keeps it -/

section Step

variable {s next : TimerCalls Thread Ref Callback} {ref : Ref}

theorem Kept.addTimer (kept : s.Kept) (fresh : ref ∉ s.manager.m_timers) (ms : UInt64)
    (cb : Option Callback) (recurring : Bool) (now_ms : UInt64) :
    Kept { s with
      manager := (s.manager.addTimer ref ms cb recurring now_ms).1
      start := Function.update s.start ref now_ms
      emptied := fun _ => false } := by
  have member := TimerManager.addTimer_mem fresh ms cb recurring now_ms
  have touches : TimerManager.Touches ref s.manager _ :=
    TimerManager.addTimer_touches ms cb recurring now_ms
  refine ⟨(TimerManager.addTimer_spec kept.sorted fresh ms cb recurring now_ms).1, ?_, ?_, ?_⟩
  · intro other filled
    by_cases same : other = ref
    · rw [same]
      exact member
    · dsimp only at filled ⊢
      rw [(touches other same).1]
      rw [(touches other same).2] at filled
      exact kept.held other filled
  · intro other inSet
    dsimp only at inSet ⊢
    by_cases same : other = ref
    · rw [same, TimerManager.timer_addTimer_self, Function.update_self]
      rfl
    · rw [(touches other same).1] at inSet
      rw [(touches other same).2, Function.update_of_ne same]
      exact kept.deadline other inSet
  · intro thread _
    apply iff_of_false Bool.false_ne_true
    intro empty
    dsimp only at empty
    rw [empty] at member
    cases member

theorem Kept.cancel (kept : s.Kept) {manager : TimerManager Ref Callback} {result : Bool}
    (done : s.manager.cancel ref = some (manager, result)) :
    Kept { s with
      manager := manager
      emptied := fun thread => s.emptied thread || cancelsLast s.manager ref } := by
  obtain ⟨after, same, cancels⟩ := TimerManager.cancel_held kept.sorted (kept.held ref)
  cases done.symm.trans same
  refine ⟨cancels.sorted, ?_, ?_, ?_⟩
  · intro other filled
    have different : other ≠ ref := by
      rintro rfl
      dsimp only at filled
      rw [cancels.callback] at filled
      cases filled
    dsimp only at filled ⊢
    rw [cancels.others other different] at filled
    exact (cancels.members other).mpr ⟨kept.held other filled, fun isRef => absurd isRef different⟩
  · intro other member
    dsimp only at member ⊢
    obtain ⟨inSet, stays⟩ := (cancels.members other).mp member
    by_cases same : other = ref
    · rw [cancels.idle (stays same)]
      exact kept.deadline other inSet
    · rw [cancels.others other same]
      exact kept.deadline other inSet
  · intro thread isWaiting
    dsimp only
    rw [Bool.or_eq_true, kept.emptied thread isWaiting]
    exact (cancelsLast_iff cancels).symm

/-- A timer with new times counts from where its deadline says. -/
theorem Kept.rearms (kept : s.Kept) {manager : TimerManager Ref Callback} {m_ms m_next : UInt64}
    (rearms : TimerManager.Rearms ref m_ms m_next s.manager manager) {start : Ref → UInt64}
    (counts : m_next = start ref + m_ms) (others : ∀ other, other ≠ ref → start other = s.start other) :
    Kept { s with manager := manager, start := start } := by
  refine ⟨rearms.sorted, rearms.held kept.held, ?_, ?_⟩
  · intro other member
    dsimp only at member ⊢
    by_cases same : other = ref
    · rw [same, rearms.self]
      exact counts
    · rw [rearms.others other same, others other same]
      exact kept.deadline other ((rearms.members other).mp member)
  · intro thread isWaiting
    dsimp only
    rw [rearms.nil_iff]
    exact kept.emptied thread isWaiting

theorem Kept.refresh (kept : s.Kept) (ref : Ref) (now_ms : UInt64) :
    Kept { s with
      manager := (s.manager.refresh ref now_ms).1
      start := if (s.manager.refresh ref now_ms).2 then Function.update s.start ref now_ms
        else s.start } := by
  by_cases filled : (s.manager.timer ref).m_cb = none
  · rw [TimerManager.refresh_none filled]
    exact kept
  · have member := kept.held ref (Option.isSome_iff_ne_none.mpr filled)
    obtain ⟨done, rearms⟩ := TimerManager.refresh_some kept.sorted member filled now_ms
    rw [done, if_pos rfl]
    apply kept.rearms rearms
    · rw [Function.update_self]
    · exact fun other different => Function.update_of_ne different ..

theorem Kept.reset (kept : s.Kept) (ref : Ref) (ms : UInt64) (from_now : Bool) (now_ms : UInt64) :
    Kept { s with
      manager := (s.manager.reset ref ms from_now now_ms).1
      start := if (s.manager.reset ref ms from_now now_ms).2.1 && from_now then
          Function.update s.start ref now_ms
        else s.start } := by
  by_cases shortcut : s.manager.Shortcut ref ms from_now
  · obtain ⟨same, rfl⟩ := shortcut
    rw [TimerManager.reset_same same]
    exact kept
  · by_cases filled : (s.manager.timer ref).m_cb = none
    · rw [TimerManager.reset_none shortcut filled]
      exact kept
    · have member := kept.held ref (Option.isSome_iff_ne_none.mpr filled)
      obtain ⟨done, rearms⟩ := TimerManager.reset_some kept.sorted shortcut member filled now_ms
      rw [done, Bool.true_and]
      apply kept.rearms rearms
      · cases from_now with
        | true => rw [if_pos rfl, if_pos rfl, Function.update_self]
        | false =>
            rw [if_neg Bool.false_ne_true, if_neg Bool.false_ne_true, kept.deadline ref member,
              UInt64.add_sub_cancel]
      · intro other different
        split
        · exact Function.update_of_ne different ..
        · rfl

variable [DecidableEq Thread]

theorem Kept.expire (kept : s.Kept) {thread : Thread} {now_ms : UInt64} {now_timer : Ref}
    {manager : TimerManager Ref Callback} {cbs : List (Option Callback)}
    (done : s.manager.listExpiredCb now_ms now_timer = some (manager, cbs)) :
    Kept { s with
      manager := manager
      start := s.restart now_ms now_timer
      waiting := Function.update s.waiting thread none
      emptied := fun other => s.emptied other || expiresLast s.manager now_ms now_timer } := by
  have expires := TimerManager.listExpiredCb_expires kept.sorted done
  refine ⟨expires.sorted, ?_, ?_, ?_⟩
  · intro ref filled
    dsimp only at filled ⊢
    rw [expires.timer] at filled
    rw [expires.members]
    split at filled
    next isExpired =>
      refine ⟨expires.inSet ref isExpired, fun _ => ?_⟩
      by_contra once
      rw [TimerManager.afterExpiry, if_neg once] at filled
      cases filled
    next notExpired => exact ⟨kept.held ref filled, fun isExpired => absurd isExpired notExpired⟩
  · intro ref member
    dsimp only at member ⊢
    obtain ⟨inSet, again⟩ := (expires.members ref).mp member
    rw [expires.timer, restart]
    by_cases isExpired : ref ∈ s.manager.expired now_ms now_timer
    · rw [if_pos isExpired, if_pos ⟨isExpired, again isExpired⟩, TimerManager.afterExpiry,
        if_pos (again isExpired)]
    · rw [if_neg isExpired, if_neg fun both => isExpired both.1]
      exact kept.deadline ref inSet
  · intro other isWaiting
    dsimp only at isWaiting ⊢
    have before : s.waiting other ≠ none := by
      by_cases same : other = thread
      · rw [same, Function.update_self] at isWaiting
        exact absurd rfl isWaiting
      · rwa [Function.update_of_ne same] at isWaiting
    rw [Bool.or_eq_true, kept.emptied other before, expiresLast_iff expires, or_iff_right_iff_imp]
    intro empty
    rw [expiresLast, empty]
    rfl

theorem Kept.step {label : Label Thread Ref Callback} (kept : s.Kept)
    (stepped : Step s label next) : next.Kept := by
  cases stepped with
  | addTimer ref ms cb recurring now_ms fresh => exact kept.addTimer fresh ms cb recurring now_ms
  | cancel ref done => exact kept.cancel done
  | refresh ref now_ms => exact kept.refresh ref now_ms
  | reset ref ms from_now now_ms => exact kept.reset ref ms from_now now_ms
  | getNextTimer now_ms => exact ⟨kept.sorted, kept.held, kept.deadline, kept.emptied⟩
  | check thread now_ms idle filled =>
      refine ⟨kept.sorted, kept.held, kept.deadline, fun other isWaiting => ?_⟩
      dsimp only at isWaiting ⊢
      by_cases same : other = thread
      · rw [same, Function.update_self]
        exact iff_of_false Bool.false_ne_true filled
      · rw [Function.update_of_ne same] at isWaiting ⊢
        exact kept.emptied other isWaiting
  | expire thread now_timer isWaiting done => exact kept.expire done
  | stray thread now_timer isWaiting none =>
      exact ⟨kept.sorted, kept.held, kept.deadline, kept.emptied⟩

theorem reaches_kept {allowed : TimerCalls Thread Ref Callback → Label Thread Ref Callback → Prop}
    (reached : (timerCalls Thread Ref Callback).Reaches allowed s) : s.Kept := by
  apply reached.invariant Kept
  · rintro s ⟨empty, none, idle, -⟩
    refine ⟨?_, ?_, ?_, fun thread isWaiting => absurd (idle thread) isWaiting⟩
    · rw [TimerManager.Sorted, empty]
      exact List.Pairwise.nil
    · intro ref filled
      rw [none] at filled
      cases filled
    · intro ref member
      rw [empty] at member
      cases member
  · intro _ _ _ _ kept _ stepped
    exact kept.step stepped.2

end Step

/-! ## The use of `begin()` -/

/-- What the second region of `listExpiredCb` is asked for: since the check no `cancel` and no
other `listExpiredCb` has taken the last timer out of the set, or one has been put in again, or
the clock has rolled over. -/
def Guarded (s : TimerCalls Thread Ref Callback) : Label Thread Ref Callback → Prop
  | .expire thread _ => ∀ now_ms, s.waiting thread = some now_ms →
      s.emptied thread = false ∨ (s.manager.detectClockRollOver now_ms).1 = true
  | _ => True

section Begin

variable {s : TimerCalls Thread Ref Callback}

theorem Kept.isGuarded_iff (kept : s.Kept) {thread : Thread} {now_ms : UInt64} (now_timer : Ref)
    (isWaiting : s.waiting thread = some now_ms) :
    s.manager.listExpiredCb now_ms now_timer ≠ none ↔ Guarded s (.expire thread now_timer) := by
  have emptied := kept.emptied thread (by rw [isWaiting]; exact Option.some_ne_none _)
  rw [ne_eq, TimerManager.listExpiredCb_eq_none_iff, not_and, ← emptied, Guarded]
  constructor
  · intro through other same
    rw [isWaiting, Option.some.injEq] at same
    cases rollover : (s.manager.detectClockRollOver other).1 with
    | true => exact .inr rfl
    | false =>
        left
        rw [← same] at rollover
        exact Bool.not_eq_true _ ▸ through rollover
  · intro guarded rollover isEmptied
    rcases guarded now_ms isWaiting with stays | rolls
    · rw [stays] at isEmptied
      cases isEmptied
    · rw [rolls] at rollover
      cases rollover

variable [DecidableEq Thread]

/-- In the runs that keep to the condition `begin()` is never used of an empty set, and a second
region that does not keep to it, in whatever state, uses it so. -/
theorem begin_guarded :
    (∀ s : TimerCalls Thread Ref Callback, (timerCalls Thread Ref Callback).Reaches Guarded s →
      s.stray = false) ∧
    ∀ s : TimerCalls Thread Ref Callback, (timerCalls Thread Ref Callback).Reachable s →
      ∀ thread now_ms now_timer, s.waiting thread = some now_ms →
        (s.manager.listExpiredCb now_ms now_timer ≠ none ↔
          Guarded s (.expire thread now_timer)) := by
  constructor
  · intro s reached
    apply reached.invariant fun s => s.stray = false
    · exact fun _ isInitial => isInitial.2.2.2
    · intro s label next before quiet guarded stepped
      have kept := reaches_kept before
      cases stepped.2 with
      | stray thread now_timer isWaiting none =>
          exact absurd none ((kept.isGuarded_iff now_timer isWaiting).mpr guarded)
      | _ => exact quiet
  · exact fun s reached thread now_ms now_timer isWaiting =>
      (reaches_kept reached).isGuarded_iff now_timer isWaiting

end Begin

/-! ## One thread -/

/-- A manager constructed at the reading. -/
def constructed (reading : UInt64) : TimerCalls Unit Nat Unit :=
  ⟨⟨fun _ => {}, [], false, reading⟩, fun _ => 0, fun _ => none, fun _ => false, false⟩

theorem constructed_reaches (allowed : TimerCalls Unit Nat Unit → Label Unit Nat Unit → Prop)
    (reading : UInt64) : (timerCalls Unit Nat Unit).Reaches allowed (constructed reading) :=
  .initial ⟨rfl, fun _ => rfl, fun _ => rfl, rfl⟩

/-- A call between whose regions one of two timers is cancelled. -/
theorem begin_guarded_two :
    ∃ s : TimerCalls Unit Nat Unit, s.manager.m_timers = [] ∧ s.stray = false := by
  have added : (timerCalls Unit Nat Unit).Reaches Guarded _ :=
    .step (constructed_reaches Guarded 50) (by exact trivial)
      ⟨rfl, .addTimer 1 10 (some ()) false 100 List.not_mem_nil⟩
  have addedToo : (timerCalls Unit Nat Unit).Reaches Guarded _ :=
    .step added (by exact trivial) ⟨rfl, .addTimer 2 20 (some ()) false 100 (by decide)⟩
  have checked : (timerCalls Unit Nat Unit).Reaches Guarded _ :=
    .step addedToo (by exact trivial) ⟨rfl, .check () 130 rfl (by decide)⟩
  have cancelled : (timerCalls Unit Nat Unit).Reaches Guarded _ :=
    .step checked (by exact trivial) ⟨rfl, .cancel 2 rfl⟩
  have expired : (timerCalls Unit Nat Unit).Reaches Guarded _ :=
    .step cancelled (by exact fun _ _ => .inl rfl) ⟨rfl, .expire () 3 rfl rfl⟩
  exact ⟨_, rfl, begin_guarded.1 _ expired⟩

/-- The only timer is cancelled between the check and the use of `begin()`. -/
theorem begin_of_empty :
    ∃ s : TimerCalls Unit Nat Unit, (timerCalls Unit Nat Unit).Reachable s ∧
      s.manager.m_timers = [] ∧ s.stray = true := by
  have added : (timerCalls Unit Nat Unit).Reachable _ :=
    .step (constructed_reaches _ 50) trivial
      ⟨rfl, .addTimer 1 10 (some ()) false 100 List.not_mem_nil⟩
  have checked : (timerCalls Unit Nat Unit).Reachable _ :=
    .step added trivial ⟨rfl, .check () 130 rfl (by decide)⟩
  have cancelled : (timerCalls Unit Nat Unit).Reachable _ :=
    .step checked trivial ⟨rfl, .cancel 1 rfl⟩
  have used : (timerCalls Unit Nat Unit).Reachable _ :=
    .step cancelled trivial ⟨rfl, .stray () 3 rfl rfl⟩
  exact ⟨_, used, rfl, rfl⟩

end TimerCalls

end Exhy
