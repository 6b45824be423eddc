import Exhy.Library.Transition
import Exhy.Timer.Expiry
import Mathlib.Data.List.Nodup

/-!
# The timer queue over whole runs

Every sequence of the operations on the timers of one manager, at any readings of the
clock.  A timer is in the set exactly as long as it has a callback, and a one-shot timer
is handed out once or cancelled once, never both.
-/

namespace Exhy

open Library

namespace TimerManager

variable {Ref Callback : Type} [LinearOrder Ref]

/-- The local `expired` of `listExpiredCb`. -/
def expired (m : TimerManager Ref Callback) (now_ms : UInt64) (now_timer : Ref) : List Ref :=
  if (m.detectClockRollOver now_ms).1 then m.m_timers
  else
    match m.earliest with
    | none => []
    | some deadline =>
        if deadline > now_ms then []
        else takeUpTo (key m.timer) (toLex (now_ms.toNat, now_timer)) m.m_timers

/-- `listExpiredCb()` as a whole, while no other thread takes timers out. -/
def listExpiredCbAlone (m : TimerManager Ref Callback) (now_ms : UInt64) (now_timer : Ref) :
    Option (TimerManager Ref Callback × List (Option Callback)) :=
  if m.m_timers = [] then some (m, []) else m.listExpiredCb now_ms now_timer

variable {m next : TimerManager Ref Callback} {ref : Ref}

/-- An expiry that goes through is a run of the loop over the first part of the set. -/
theorem listExpiredCb_eq (now_ms : UInt64) (now_timer : Ref)
    (through : (m.detectClockRollOver now_ms).1 = true ∨ m.m_timers ≠ []) :
    ∃ kept, m.expired now_ms now_timer ++ kept = m.m_timers ∧
      m.listExpiredCb now_ms now_timer =
        some ((m.expired now_ms now_timer).foldl (expireOne now_ms)
          ({ m with m_timers := kept, m_previouseTime := now_ms }, [])) := by
  rw [listExpiredCb, expired]
  cases rollover : (m.detectClockRollOver now_ms).1 with
  | true =>
      refine ⟨[], by simp, ?_⟩
      simp only [rollover, if_true]
      rfl
  | false =>
      have filled : m.m_timers ≠ [] := by
        rw [rollover] at through
        exact through.resolve_left Bool.false_ne_true
      obtain ⟨first, head⟩ := Option.ne_none_iff_exists'.mp (mt List.head?_eq_none_iff.mp filled)
      have deadline : m.earliest = some (m.timer first).m_next := by
        rw [earliest, head, Option.map_some]
      have same : (m.detectClockRollOver now_ms).2.earliest = some (m.timer first).m_next :=
        deadline
      simp only [rollover, same, deadline, Bool.false_eq_true, if_false]
      by_cases early : (m.timer first).m_next > now_ms
      · simp only [if_pos early]
        exact ⟨m.m_timers, rfl, rfl⟩
      · simp only [if_neg early]
        exact ⟨_, takeUpTo_append_dropUpTo .., rfl⟩

/-- The set is dereferenced without a roll-over. -/
theorem listExpiredCb_eq_none_iff (m : TimerManager Ref Callback) (now_ms : UInt64)
    (now_timer : Ref) :
    m.listExpiredCb now_ms now_timer = none ↔
      (m.detectClockRollOver now_ms).1 = false ∧ m.m_timers = [] := by
  constructor
  · intro stray
    by_contra through
    have goes : (m.detectClockRollOver now_ms).1 = true ∨ m.m_timers ≠ [] := by
      cases rollover : (m.detectClockRollOver now_ms).1 with
      | true => exact .inl rfl
      | false => exact .inr fun empty => through ⟨rollover, empty⟩
    obtain ⟨kept, -, result⟩ := listExpiredCb_eq now_ms now_timer goes
    rw [stray] at result
    cases result
  · rintro ⟨rollover, empty⟩
    have none : (m.detectClockRollOver now_ms).2.earliest = none := by
      rw [earliest, Option.map_eq_none_iff, List.head?_eq_none_iff]
      exact empty
    simp only [listExpiredCb, rollover, none, Bool.false_eq_true, if_false]

/-- Every expiry is a run of the loop over the first part of the set. -/
theorem listExpiredCbAlone_eq (m : TimerManager Ref Callback) (now_ms : UInt64)
    (now_timer : Ref) :
    ∃ kept previouse, m.expired now_ms now_timer ++ kept = m.m_timers ∧
      m.listExpiredCbAlone now_ms now_timer =
        some ((m.expired now_ms now_timer).foldl (expireOne now_ms)
          ({ m with m_timers := kept, m_previouseTime := previouse }, [])) := by
  rw [listExpiredCbAlone]
  split
  next empty =>
    have nothing : m.expired now_ms now_timer = [] := by
      simp [expired, earliest, empty]
    exact ⟨m.m_timers, m.m_previouseTime, by rw [nothing]; rfl, by rw [nothing]; rfl⟩
  next filled =>
    obtain ⟨kept, parts, result⟩ := listExpiredCb_eq now_ms now_timer (.inr filled)
    exact ⟨kept, now_ms, parts, result⟩

/-! ## The set and the callbacks -/

/-- A timer is in the set exactly when it has a callback. -/
def Present (m : TimerManager Ref Callback) : Prop :=
  ∀ ref, ref ∈ m.m_timers ↔ (m.timer ref).m_cb.isSome = true

/-- An erased timer is back after its insertion. -/
theorem Sorted.mem_reinsert (sorted : m.Sorted) {found : Ref} (isFound : m.find ref = some found)
    (timer : Timer Callback) (other : Ref) :
    other ∈ (((m.erase ref).setTimer ref timer).insert ref).m_timers ↔ other ∈ m.m_timers := by
  by_cases same : other = ref
  · subst same
    exact iff_of_true (mem_insert_self (m := (m.erase other).setTimer other timer)
      (sorted.notMem_erase isFound)) (mem_of_find isFound)
  · exact ((erase_touches.trans ((setTimer_touches timer).trans insert_touches)) other same).1

/-- An operation on one timer that leaves every callback where it was. -/
def Moves (m next : TimerManager Ref Callback) : Prop :=
  next.Sorted ∧ ∀ ref, (ref ∈ next.m_timers ↔ ref ∈ m.m_timers) ∧
    (next.timer ref).m_cb = (m.timer ref).m_cb ∧
    (next.timer ref).m_recurring = (m.timer ref).m_recurring

theorem Moves.refl (sorted : m.Sorted) : Moves m m := ⟨sorted, fun _ => ⟨Iff.rfl, rfl, rfl⟩⟩

theorem Moves.present (moves : Moves m next) (present : m.Present) : next.Present := by
  intro ref
  obtain ⟨member, callback, -⟩ := moves.2 ref
  rw [member, callback]
  exact present ref

/-- Taking a timer out, changing its times and putting it back. -/
theorem Sorted.moves_reinsert (sorted : m.Sorted) {found : Ref} (isFound : m.find ref = some found)
    (m_ms m_next : UInt64) :
    Moves m (((m.erase ref).setTimer ref
      { m.timer ref with m_ms := m_ms, m_next := m_next }).insert ref) := by
  refine ⟨((sorted.erase ref).setTimer (sorted.notMem_erase isFound) _).insert ref,
    fun other => ⟨sorted.mem_reinsert isFound _ other, ?_⟩⟩
  by_cases same : other = ref
  · subst same
    simp [TimerManager.insert]
  · simp [TimerManager.insert, TimerManager.erase, timer_setTimer_ne _ same]

theorem refresh_moves (sorted : m.Sorted) (ref : Ref) (now_ms : UInt64) :
    Moves m (m.refresh ref now_ms).1 := by
  simp only [refresh]
  split
  · exact .refl sorted
  · split
    · exact .refl sorted
    next found => exact sorted.moves_reinsert found (m.timer ref).m_ms _

theorem reset_moves (sorted : m.Sorted) (ref : Ref) (ms : UInt64) (from_now : Bool)
    (now_ms : UInt64) : Moves m (m.reset ref ms from_now now_ms).1 := by
  simp only [reset]
  split
  · exact .refl sorted
  · split
    · exact .refl sorted
    · split
      · exact .refl sorted
      next found => exact sorted.moves_reinsert found ms _

theorem find_ne_none (member : ref ∈ m.m_timers) : m.find ref ≠ none := by
  rw [find, findBy, ne_eq, List.find?_eq_none]
  intro absent
  exact absent ref member (decide_eq_true rfl)

/-- What `cancel` does where a timer with a callback is in the set. -/
structure Cancels (ref : Ref) (m next : TimerManager Ref Callback) : Prop where
  sorted : next.Sorted
  callback : (next.timer ref).m_cb = none
  recurring : (next.timer ref).m_recurring = (m.timer ref).m_recurring
  others : ∀ other, other ≠ ref → next.timer other = m.timer other
  members : ∀ other, other ∈ next.m_timers ↔
    other ∈ m.m_timers ∧ (other = ref → (m.timer ref).m_cb = none)
  idle : (m.timer ref).m_cb = none → next = m

theorem cancel_held (sorted : m.Sorted)
    (held : (m.timer ref).m_cb.isSome = true → ref ∈ m.m_timers) :
    ∃ next, m.cancel ref = some (next, (m.timer ref).m_cb.isSome) ∧ Cancels ref m next := by
  simp only [cancel]
  split
  next filled =>
    have keys : key (m.setTimer ref { m.timer ref with m_cb := none }).timer = key m.timer :=
      key_setCallback ref none
    have findEq : (m.setTimer ref { m.timer ref with m_cb := none }).find ref = m.find ref := by
      simp only [find, keys]
      rfl
    have eraseEq : ((m.setTimer ref { m.timer ref with m_cb := none }).erase ref).m_timers =
        (m.erase ref).m_timers := by
      simp only [TimerManager.erase, keys]
      rfl
    obtain ⟨found, isFound⟩ := Option.ne_none_iff_exists'.mp (find_ne_none (held filled))
    rw [findEq, isFound, filled]
    have self : ((m.setTimer ref { m.timer ref with m_cb := none }).erase ref).timer ref =
        { m.timer ref with m_cb := none } := timer_setTimer_self ..
    refine ⟨_, rfl, ?_, by rw [self], by rw [self], fun other different => ?_, fun other => ?_,
      fun none => ?_⟩
    · rw [Sorted, eraseEq]
      change Ordered (key (m.setTimer ref { m.timer ref with m_cb := none }).timer) _
      rw [keys]
      exact sorted.erase ref
    · exact timer_setTimer_ne _ different _
    · rw [eraseEq]
      by_cases same : other = ref
      · subst same
        apply iff_of_false (sorted.notMem_erase isFound)
        rintro ⟨-, isNone⟩
        rw [isNone rfl] at filled
        cases filled
      · rw [(erase_touches other same).1]
        exact ⟨fun member => ⟨member, fun isRef => absurd isRef same⟩, And.left⟩
    · rw [none] at filled
      cases filled
  next empty =>
    have none : (m.timer ref).m_cb = none := by simpa using empty
    rw [none]
    exact ⟨m, rfl, sorted, none, rfl, fun _ _ => rfl,
      fun other => ⟨fun member => ⟨member, fun _ => none⟩, And.left⟩, fun _ => rfl⟩

/-- In a set that holds every timer with a callback, `cancel` finds what it erases. -/
theorem cancel_eq (sorted : m.Sorted) (present : m.Present) (ref : Ref) :
    ∃ next, m.cancel ref = some (next, (m.timer ref).m_cb.isSome) ∧ next.Sorted ∧
      next.Present ∧ (next.timer ref).m_cb = none ∧
      (next.timer ref).m_recurring = (m.timer ref).m_recurring ∧
      ∀ other, other ≠ ref → next.timer other = m.timer other := by
  obtain ⟨next, result, cancels⟩ := cancel_held sorted (present ref).mpr
  refine ⟨next, result, cancels.sorted, fun other => ?_, cancels.callback, cancels.recurring,
    cancels.others⟩
  rw [cancels.members]
  by_cases same : other = ref
  · subst same
    rw [cancels.callback, present other]
    apply iff_of_false _ Bool.false_ne_true
    rintro ⟨filled, none⟩
    rw [none rfl] at filled
    cases filled
  · rw [cancels.others other same, ← present other]
    exact ⟨And.left, fun member => ⟨member, fun isRef => absurd isRef same⟩⟩

/-! ## Expiry -/

/-- The timers of `expired` are taken out and their callbacks handed out in order; recurring
ones are put back. -/
structure Expires (now_ms : UInt64) (expired : List Ref) (m next : TimerManager Ref Callback)
    (cbs : List (Option Callback)) : Prop where
  callbacks : cbs = expired.map fun ref => (m.timer ref).m_cb
  sorted : next.Sorted
  nodup : expired.Nodup
  inSet : ∀ ref ∈ expired, ref ∈ m.m_timers
  timer : ∀ ref, next.timer ref =
    if ref ∈ expired then afterExpiry now_ms (m.timer ref) else m.timer ref
  members : ∀ ref, ref ∈ next.m_timers ↔
    ref ∈ m.m_timers ∧ (ref ∈ expired → (m.timer ref).m_recurring = true)

theorem Expires.of_foldl (sorted : m.Sorted) (now_ms previouse : UInt64) {expired kept : List Ref}
    (parts : expired ++ kept = m.m_timers) :
    Expires now_ms expired m
      (expired.foldl (expireOne now_ms)
        ({ m with m_timers := kept, m_previouseTime := previouse }, [])).1
      (expired.foldl (expireOne now_ms)
        ({ m with m_timers := kept, m_previouseTime := previouse }, [])).2 := by
  have nodup : (expired ++ kept).Nodup := parts ▸ Ordered.nodup sorted
  rw [List.nodup_append] at nodup
  obtain ⟨distinct, -, apart⟩ := nodup
  have fresh : ∀ ref ∈ expired, ref ∉ kept := fun ref isExpired isKept =>
    apart ref isExpired ref isKept rfl
  have keptSorted : Ordered (key m.timer) kept :=
    List.Pairwise.sublist (List.sublist_append_right expired kept) (parts ▸ sorted)
  obtain ⟨callbacks, timers⟩ := expireAll_eq now_ms expired
    ({ m with m_timers := kept, m_previouseTime := previouse }, []) distinct fresh
  refine ⟨callbacks, expireAll_sorted now_ms expired _ keptSorted distinct fresh, distinct,
    fun ref isExpired => parts ▸ List.mem_append_left kept isExpired, fun ref => (timers ref).1,
    fun ref => ?_⟩
  rw [(timers ref).2, ← parts, List.mem_append]
  by_cases isExpired : ref ∈ expired
  · simp [isExpired, fresh ref isExpired]
  · simp [isExpired]

theorem listExpiredCbAlone_expires (sorted : m.Sorted) (now_ms : UInt64) (now_timer : Ref) :
    ∃ next cbs, m.listExpiredCbAlone now_ms now_timer = some (next, cbs) ∧
      Expires now_ms (m.expired now_ms now_timer) m next cbs := by
  obtain ⟨kept, previouse, parts, result⟩ := listExpiredCbAlone_eq m now_ms now_timer
  exact ⟨_, _, result, .of_foldl sorted now_ms previouse parts⟩

/-- An expiry takes out the timers of `expired` and hands out their callbacks in order;
recurring ones are put back. -/
theorem listExpiredCbAlone_spec (sorted : m.Sorted) (present : m.Present) (now_ms : UInt64)
    (now_timer : Ref) :
    ∃ next, m.listExpiredCbAlone now_ms now_timer =
        some (next, (m.expired now_ms now_timer).map fun ref => (m.timer ref).m_cb) ∧
      next.Sorted ∧ next.Present ∧ (m.expired now_ms now_timer).Nodup ∧
      (∀ ref ∈ m.expired now_ms now_timer, ref ∈ m.m_timers) ∧
      ∀ ref, next.timer ref =
        if ref ∈ m.expired now_ms now_timer then afterExpiry now_ms (m.timer ref)
        else m.timer ref := by
  obtain ⟨next, cbs, result, expires⟩ := listExpiredCbAlone_expires sorted now_ms now_timer
  rw [← expires.callbacks]
  refine ⟨_, result, expires.sorted, fun ref => ?_, expires.nodup, expires.inSet, expires.timer⟩
  rw [expires.members, expires.timer]
  by_cases isExpired : ref ∈ m.expired now_ms now_timer
  · have inSet := expires.inSet ref isExpired
    have filled := (present ref).mp inSet
    cases again : (m.timer ref).m_recurring with
    | true => simp [isExpired, afterExpiry, again, filled, inSet]
    | false => simp [isExpired, afterExpiry, again]
  · rw [if_neg isExpired, present ref]
    exact ⟨And.left, fun filled => ⟨filled, fun member => absurd member isExpired⟩⟩

end TimerManager

/-! ## Runs -/

/-- The state of a manager with the history of its timers: how often the callback of the
timer at an address has been handed out since its construction, whether its `cancel` has
returned true, the deadline and the reading of every callback handed out, and the last
reading of the constructor or of `listExpiredCb`. -/
structure TimerQueue (Ref Callback : Type) where
  manager : TimerManager Ref Callback
  handedOut : Ref → Nat
  cancelled : Ref → Bool
  fired : List (UInt64 × UInt64)
  reading : UInt64

namespace TimerQueue

variable {Ref Callback : Type} [LinearOrder Ref]

inductive Label (Ref Callback : Type) where
  | addTimer (ref : Ref) (ms : UInt64) (cb : Callback) (recurring : Bool) (now_ms : UInt64)
  | cancel (ref : Ref)
  | refresh (ref : Ref) (now_ms : UInt64)
  | reset (ref : Ref) (ms : UInt64) (from_now : Bool) (now_ms : UInt64)
  | listExpiredCb (now_ms : UInt64) (now_timer : Ref)

inductive Step : TimerQueue Ref Callback → Label Ref Callback → TimerQueue Ref Callback →
    Prop where
  /-- A new timer has an address of its own. -/
  | addTimer {s : TimerQueue Ref Callback} (ref : Ref) (ms : UInt64) (cb : Callback)
      (recurring : Bool) (now_ms : UInt64) : ref ∉ s.manager.m_timers →
      Step s (.addTimer ref ms cb recurring now_ms)
        { s with
          manager := (s.manager.addTimer ref ms (some cb) recurring now_ms).1
          handedOut := Function.update s.handedOut ref 0
          cancelled := Function.update s.cancelled ref false }
  | cancel {s : TimerQueue Ref Callback} (ref : Ref) {manager : TimerManager Ref Callback}
      {result : Bool} : s.manager.cancel ref = some (manager, result) →
      Step s (.cancel ref)
        { s with
          manager := manager
          cancelled := Function.update s.cancelled ref (s.cancelled ref || result) }
  | refresh {s : TimerQueue Ref Callback} (ref : Ref) (now_ms : UInt64) :
      Step s (.refresh ref now_ms) { s with manager := (s.manager.refresh ref now_ms).1 }
  | reset {s : TimerQueue Ref Callback} (ref : Ref) (ms : UInt64) (from_now : Bool)
      (now_ms : UInt64) :
      Step s (.reset ref ms from_now now_ms)
        { s with manager := (s.manager.reset ref ms from_now now_ms).1 }
  | listExpiredCb {s : TimerQueue Ref Callback} (now_ms : UInt64) (now_timer : Ref)
      {manager : TimerManager Ref Callback} {cbs : List (Option Callback)} :
      s.manager.listExpiredCbAlone now_ms now_timer = some (manager, cbs) →
      Step s (.listExpiredCb now_ms now_timer)
        { manager := manager
          handedOut := fun ref =>
            s.handedOut ref + (s.manager.expired now_ms now_timer).count ref
          cancelled := s.cancelled
          fired := s.fired ++ (s.manager.expired now_ms now_timer).map fun ref =>
            ((s.manager.timer ref).m_next, now_ms)
          reading := now_ms }

end TimerQueue

/-- Every sequence of operations on a new manager. -/
def timerQueue (Ref Callback : Type) [LinearOrder Ref] :
    System (TimerQueue Ref Callback) (TimerQueue.Label Ref Callback) where
  initial s := s.manager.m_timers = [] ∧ (∀ ref, (s.manager.timer ref).m_cb = none) ∧
    (∀ ref, s.handedOut ref = 0 ∧ s.cancelled ref = false) ∧ s.fired = [] ∧
    s.manager.m_previouseTime = s.reading
  step := TimerQueue.Step

namespace TimerQueue

variable {Ref Callback : Type} [LinearOrder Ref]

/-- A timer that is not recurring is in the set, or cancelled, or handed out, and only once. -/
structure Invariant (s : TimerQueue Ref Callback) : Prop where
  sorted : s.manager.Sorted
  present : s.manager.Present
  once : ∀ ref, (s.manager.timer ref).m_recurring = false →
    s.handedOut ref + (s.cancelled ref).toNat + (s.manager.timer ref).m_cb.isSome.toNat ≤ 1

theorem Invariant.moves {s : TimerQueue Ref Callback} (inv : s.Invariant)
    {manager : TimerManager Ref Callback} (moves : TimerManager.Moves s.manager manager) :
    Invariant { s with manager := manager } := by
  refine ⟨moves.1, moves.present inv.present, fun ref isOnce => ?_⟩
  obtain ⟨-, callback, recurring⟩ := moves.2 ref
  rw [recurring] at isOnce
  rw [callback]
  exact inv.once ref isOnce

theorem Invariant.step {s next : TimerQueue Ref Callback} {label : Label Ref Callback}
    (inv : s.Invariant) (stepped : Step s label next) : next.Invariant := by
  cases stepped with
  | addTimer ref ms cb recurring now_ms fresh =>
      have timerEq : (s.manager.addTimer ref ms (some cb) recurring now_ms).1.timer ref =
          TimerManager.newTimer ms (some cb) recurring now_ms := TimerManager.timer_addTimer_self ..
      have touches : TimerManager.Touches ref s.manager
          (s.manager.addTimer ref ms (some cb) recurring now_ms).1 :=
        TimerManager.addTimer_touches ms (some cb) recurring now_ms
      refine ⟨(TimerManager.addTimer_spec inv.sorted fresh ms _ recurring now_ms).1,
        fun other => ?_, fun other isOnce => ?_⟩
      · by_cases same : other = ref
        · subst same
          rw [timerEq]
          exact iff_of_true (TimerManager.addTimer_mem fresh ms _ recurring now_ms) rfl
        · rw [(touches other same).1, (touches other same).2]
          exact inv.present other
      · by_cases same : other = ref
        · subst same
          rw [timerEq]
          simp [TimerManager.newTimer]
        · rw [(touches other same).2] at isOnce ⊢
          simpa only [Function.update_of_ne same] using inv.once other isOnce
  | cancel ref cancels =>
      obtain ⟨after, result, sorted, present, callback, recurring, others⟩ :=
        TimerManager.cancel_eq inv.sorted inv.present ref
      cases cancels.symm.trans result
      refine ⟨sorted, present, fun other isOnce => ?_⟩
      dsimp only at isOnce ⊢
      by_cases same : other = ref
      · subst same
        rw [recurring] at isOnce
        have before := inv.once other isOnce
        rw [callback, Function.update_self, Option.isSome_none, Bool.toNat_false]
        generalize (s.manager.timer other).m_cb.isSome = filled at before ⊢
        have joined : (s.cancelled other || filled).toNat ≤
            (s.cancelled other).toNat + filled.toNat := by
          cases s.cancelled other <;> cases filled <;> decide
        omega
      · rw [others other same] at isOnce ⊢
        rw [Function.update_of_ne same]
        exact inv.once other isOnce
  | refresh ref now_ms => exact inv.moves (TimerManager.refresh_moves inv.sorted ref now_ms)
  | reset ref ms from_now now_ms =>
      exact inv.moves (TimerManager.reset_moves inv.sorted ref ms from_now now_ms)
  | listExpiredCb now_ms now_timer lists =>
      obtain ⟨after, result, sorted, present, distinct, inSet, timers⟩ :=
        TimerManager.listExpiredCbAlone_spec inv.sorted inv.present now_ms now_timer
      cases lists.symm.trans result
      refine ⟨sorted, present, fun ref isOnce => ?_⟩
      rw [timers] at isOnce ⊢
      dsimp only
      by_cases isExpired : ref ∈ s.manager.expired now_ms now_timer
      · -- the callback moves from the set to what is handed out
        rw [if_pos isExpired] at isOnce ⊢
        have filled := (inv.present ref).mp (inSet ref isExpired)
        rw [List.count_eq_one_of_mem distinct isExpired]
        cases again : (s.manager.timer ref).m_recurring with
        | true => simp [TimerManager.afterExpiry, again] at isOnce
        | false =>
            have before := inv.once ref again
            have emptied : (TimerManager.afterExpiry now_ms (s.manager.timer ref)).m_cb = none := by
              simp [TimerManager.afterExpiry, again]
            rw [filled, Bool.toNat_true] at before
            rw [emptied, Option.isSome_none, Bool.toNat_false]
            omega
      · rw [if_neg isExpired] at isOnce ⊢
        rw [List.count_eq_zero.mpr isExpired]
        exact inv.once ref isOnce

theorem reaches_invariant {allowed : TimerQueue Ref Callback → Label Ref Callback → Prop}
    {s : TimerQueue Ref Callback} (reached : (timerQueue Ref Callback).Reaches allowed s) :
    s.Invariant := by
  refine reached.invariant Invariant (fun state isInitial => ?_)
    fun _ _ _ _ inv _ stepped => inv.step stepped
  obtain ⟨empty, none, fresh, -, -⟩ := isInitial
  refine ⟨?_, fun ref => ?_, fun ref _ => ?_⟩
  · rw [TimerManager.Sorted, empty]
    exact List.Pairwise.nil
  · simp [empty, none ref]
  · simp [fresh ref, none ref]

/-- The timer queue over every run: strictly ordered, each timer in it once and exactly as
long as it has a callback, so that `cancel` never erases the end; an expiry hands out the
callbacks of the timers in `expired`, a one-shot timer at most once and not when it has been
cancelled. -/
theorem queue_kept {s : TimerQueue Ref Callback} (reached : (timerQueue Ref Callback).Reachable s) :
    s.manager.Sorted ∧ s.manager.m_timers.Nodup ∧
      (∀ ref, ref ∈ s.manager.m_timers ↔ (s.manager.timer ref).m_cb ≠ none) ∧
      (∀ ref, s.manager.cancel ref ≠ none) ∧
      (∀ now_ms now_timer, ∃ next, s.manager.listExpiredCbAlone now_ms now_timer = some (next,
        (s.manager.expired now_ms now_timer).map fun ref => (s.manager.timer ref).m_cb)) ∧
      ∀ ref, (s.manager.timer ref).m_recurring = false →
        s.handedOut ref ≤ 1 ∧ (s.cancelled ref = true → s.handedOut ref = 0) := by
  have inv := reaches_invariant reached
  refine ⟨inv.sorted, Ordered.nodup inv.sorted, fun ref => ?_, fun ref => ?_,
    fun now_ms now_timer => ?_, fun ref isOnce => ?_⟩
  · rw [inv.present ref, Option.isSome_iff_ne_none]
  · obtain ⟨next, result, -⟩ := TimerManager.cancel_eq inv.sorted inv.present ref
    rw [result]
    exact Option.some_ne_none _
  · obtain ⟨next, result, -⟩ :=
      TimerManager.listExpiredCbAlone_spec inv.sorted inv.present now_ms now_timer
    exact ⟨next, result⟩
  · have bound := inv.once ref isOnce
    refine ⟨by omega, fun isCancelled => ?_⟩
    rw [isCancelled, Bool.toNat_true] at bound
    omega

/-- A timer that has been handed out stays out of the set. -/
theorem queue_kept_expired :
    ∃ s : TimerQueue Nat Unit, s.handedOut 1 = 1 ∧ s.manager.Sorted ∧
      (∀ ref, ref ∈ s.manager.m_timers ↔ (s.manager.timer ref).m_cb ≠ none) ∧
      (∀ ref, s.manager.cancel ref ≠ none) := by
  have start : (timerQueue Nat Unit).Reachable
      ⟨⟨fun _ => {}, [], false, 50⟩, fun _ => 0, fun _ => false, [], 50⟩ :=
    .initial ⟨rfl, fun _ => rfl, fun _ => ⟨rfl, rfl⟩, rfl, rfl⟩
  have added : (timerQueue Nat Unit).Reachable _ :=
    .step start trivial (.addTimer 1 10 () false 100 List.not_mem_nil)
  have addedToo : (timerQueue Nat Unit).Reachable _ :=
    .step added trivial (.addTimer 2 20 () true 100 (by decide))
  have expired : (timerQueue Nat Unit).Reachable _ :=
    .step addedToo trivial (.listExpiredCb 115 3 rfl)
  have kept := queue_kept expired
  exact ⟨_, by decide, kept.1, kept.2.2.1, kept.2.2.2.1⟩

end TimerQueue

end Exhy
