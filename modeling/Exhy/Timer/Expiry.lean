import Exhy.Timer.Order

/-!
# What an operation does to each timer

Insertion, cancellation, refresh and reset touch one timer.  An expiry hands out the
callback of every timer that it takes out; a one-shot timer stays as it was or is handed
out.
-/

namespace Exhy.TimerManager

open Library

variable {Ref Callback : Type} {m next last : TimerManager Ref Callback} {ref : Ref}

/-- Only the timer at `ref` is touched. -/
def Touches (ref : Ref) (m next : TimerManager Ref Callback) : Prop :=
  ∀ other, other ≠ ref →
    (other ∈ next.m_timers ↔ other ∈ m.m_timers) ∧ next.timer other = m.timer other

theorem Touches.refl : Touches ref m m := fun _ _ => ⟨Iff.rfl, rfl⟩

theorem Touches.trans (first : Touches ref m next) (second : Touches ref next last) :
    Touches ref m last := fun other different =>
  ⟨(second other different).1.trans (first other different).1,
    (second other different).2.trans (first other different).2⟩

variable [LinearOrder Ref]

theorem setTimer_touches (timer : Timer Callback) : Touches ref m (m.setTimer ref timer) :=
  fun _ different => ⟨Iff.rfl, timer_setTimer_ne _ different _⟩

theorem insert_touches : Touches ref m (m.insert ref) := fun _ different =>
  ⟨⟨fun member => (mem_insertBy member).resolve_left different, mem_insertBy_of_mem⟩, rfl⟩

theorem erase_touches : Touches ref m (m.erase ref) := by
  refine fun other different => ⟨List.mem_eraseP_of_neg ?_, rfl⟩
  rw [decide_eq_true_eq, key, key, toLex_inj, Prod.mk.injEq]
  exact fun same => different same.2

theorem addTimer_touches (ms : UInt64) (cb : Option Callback) (recurring : Bool)
    (now_ms : UInt64) : Touches ref m (m.addTimer ref ms cb recurring now_ms).1 :=
  (setTimer_touches _).trans insert_touches

theorem timer_addTimer_self (ms : UInt64) (cb : Option Callback) (recurring : Bool)
    (now_ms : UInt64) :
    (m.addTimer ref ms cb recurring now_ms).1.timer ref = newTimer ms cb recurring now_ms :=
  timer_setTimer_self ..

theorem mem_insert_self (fresh : ref ∉ m.m_timers) : ref ∈ (m.insert ref).m_timers := by
  refine mem_insertBy_self fun other member same => ?_
  rw [key, key, toLex_inj, Prod.mk.injEq] at same
  exact fresh (same.2 ▸ member)

theorem addTimer_mem (fresh : ref ∉ m.m_timers) (ms : UInt64) (cb : Option Callback)
    (recurring : Bool) (now_ms : UInt64) :
    ref ∈ (m.addTimer ref ms cb recurring now_ms).1.m_timers :=
  mem_insert_self (m := m.setTimer ref (newTimer ms cb recurring now_ms)) fresh

theorem cancel_touches {result : Bool} (done : m.cancel ref = some (next, result)) :
    Touches ref m next ∧ (next.timer ref).m_cb = none := by
  simp only [cancel] at done
  split at done
  · split at done
    · cases done
    · cases done
      exact ⟨(setTimer_touches _).trans erase_touches, congrArg Timer.m_cb (timer_setTimer_self ..)⟩
  next empty =>
    cases done
    exact ⟨.refl, by simpa using empty⟩

/-- A timer that is refreshed was in the set and keeps its callback. -/
theorem refresh_touches (m : TimerManager Ref Callback) (ref : Ref) (now_ms : UInt64) :
    Touches ref m (m.refresh ref now_ms).1 ∧
      ((m.refresh ref now_ms).1.timer ref).m_cb = (m.timer ref).m_cb ∧
      (ref ∈ (m.refresh ref now_ms).1.m_timers → ref ∈ m.m_timers) := by
  simp only [refresh]
  split
  · exact ⟨.refl, rfl, id⟩
  · split
    · exact ⟨.refl, rfl, id⟩
    next found =>
      refine ⟨erase_touches.trans ((setTimer_touches _).trans insert_touches), ?_,
        fun _ => mem_of_find found⟩
      simp [TimerManager.insert, TimerManager.erase]

theorem refresh_sorted (sorted : m.Sorted) (now_ms : UInt64) : (m.refresh ref now_ms).1.Sorted := by
  simp only [refresh]
  split
  · exact sorted
  · split
    · exact sorted
    next found =>
      exact ((sorted.erase ref).setTimer (sorted.notMem_erase found) _).insert ref

theorem reset_touches (m : TimerManager Ref Callback) (ref : Ref) (ms : UInt64) (from_now : Bool)
    (now_ms : UInt64) :
    Touches ref m (m.reset ref ms from_now now_ms).1 ∧
      ((m.reset ref ms from_now now_ms).1.timer ref).m_cb = (m.timer ref).m_cb ∧
      (ref ∈ (m.reset ref ms from_now now_ms).1.m_timers → ref ∈ m.m_timers) := by
  simp only [reset]
  split
  · exact ⟨.refl, rfl, id⟩
  · split
    · exact ⟨.refl, rfl, id⟩
    · split
      · exact ⟨.refl, rfl, id⟩
      next found =>
        refine ⟨erase_touches.trans ((setTimer_touches _).trans insert_touches), ?_,
          fun _ => mem_of_find found⟩
        simp [addTimerLocked, TimerManager.insert]

/-! ## Expiry -/

/-- What the loop over `expired` has made of the timers and of `cbs`. -/
structure Expired (expired : List Ref) (m next : TimerManager Ref Callback)
    (before cbs : List (Option Callback)) : Prop where
  others : ∀ other, other ∉ expired →
    (other ∈ next.m_timers ↔ other ∈ m.m_timers) ∧ next.timer other = m.timer other
  callbacks : ∀ cb, cb ∈ cbs ↔ cb ∈ before ∨ ∃ ref ∈ expired, (m.timer ref).m_cb = cb
  recurring : ∀ ref ∈ expired, (m.timer ref).m_recurring = true →
    (next.timer ref).m_cb = (m.timer ref).m_cb ∧ (next.timer ref).m_recurring = true
  oneShot : ∀ ref ∈ expired, (m.timer ref).m_recurring = false → ref ∉ next.m_timers

/-- What one round makes of the timer that it handles. -/
def afterExpiry (now_ms : UInt64) (timer : Timer Callback) : Timer Callback :=
  if timer.m_recurring then { timer with m_next := now_ms + timer.m_ms }
  else { timer with m_cb := none }

theorem expireOne_eq (now_ms : UInt64) (before : List (Option Callback))
    (fresh : ref ∉ m.m_timers) :
    (expireOne now_ms (m, before) ref).2 = before ++ [(m.timer ref).m_cb] ∧
      (expireOne now_ms (m, before) ref).1.timer =
        Function.update m.timer ref (afterExpiry now_ms (m.timer ref)) ∧
      ∀ other, other ∈ (expireOne now_ms (m, before) ref).1.m_timers ↔
        other ∈ m.m_timers ∨ other = ref ∧ (m.timer ref).m_recurring = true := by
  simp only [expireOne, afterExpiry]
  split
  next again =>
    refine ⟨rfl, rfl, fun other => ?_⟩
    by_cases same : other = ref
    · subst same
      exact iff_of_true (mem_insert_self (m := m.setTimer other _) fresh) (.inr ⟨rfl, again⟩)
    · rw [(insert_touches other same).1]
      simp [same, setTimer]
  next once =>
    refine ⟨rfl, rfl, fun other => ?_⟩
    simp [once, setTimer]

/-- Each timer is handled once, as it was before the loop. -/
theorem expireAll_eq (now_ms : UInt64) (expired : List Ref)
    (state : TimerManager Ref Callback × List (Option Callback)) (distinct : expired.Nodup)
    (fresh : ∀ ref ∈ expired, ref ∉ state.1.m_timers) :
    (expired.foldl (expireOne now_ms) state).2 =
        state.2 ++ expired.map (fun ref => (state.1.timer ref).m_cb) ∧
      ∀ ref, (expired.foldl (expireOne now_ms) state).1.timer ref =
          (if ref ∈ expired then afterExpiry now_ms (state.1.timer ref)
          else state.1.timer ref) ∧
        (ref ∈ (expired.foldl (expireOne now_ms) state).1.m_timers ↔
          ref ∈ state.1.m_timers ∨ ref ∈ expired ∧ (state.1.timer ref).m_recurring = true) := by
  induction expired generalizing state with
  | nil => simp
  | cons ref rest ih =>
      obtain ⟨m, before⟩ := state
      rw [List.nodup_cons] at distinct
      obtain ⟨callbacks, timers, members⟩ := expireOne_eq now_ms before (fresh ref (by simp))
      rw [List.foldl_cons]
      generalize expireOne now_ms (m, before) ref = middle at callbacks timers members ⊢
      obtain ⟨callbacksLater, later⟩ := ih middle distinct.2 fun other member back => by
        rcases (members other).mp back with inSet | ⟨rfl, -⟩
        · exact fresh other (by simp [member]) inSet
        · exact distinct.1 member
      -- the first round leaves the timers of the others alone
      have same : ∀ other ∈ rest, middle.1.timer other = m.timer other := by
        intro other member
        rw [timers, Function.update_of_ne]
        exact fun same => distinct.1 (same ▸ member)
      constructor
      · rw [callbacksLater, callbacks, List.append_assoc, List.map_cons, List.singleton_append]
        congr 2
        exact List.map_congr_left fun other member => by rw [same other member]
      · intro other
        obtain ⟨timerLater, memberLater⟩ := later other
        rw [timerLater, memberLater, members]
        by_cases here : other = ref
        · subst here
          simp [distinct.1, timers]
        · by_cases inRest : other ∈ rest
          · simp [here, inRest, same other inRest]
          · simp [here, inRest, timers]

theorem expireAll_spec (now_ms : UInt64) (expired : List Ref)
    (state : TimerManager Ref Callback × List (Option Callback)) (distinct : expired.Nodup)
    (fresh : ∀ ref ∈ expired, ref ∉ state.1.m_timers) :
    Expired expired state.1 (expired.foldl (expireOne now_ms) state).1 state.2
      (expired.foldl (expireOne now_ms) state).2 := by
  obtain ⟨callbacks, timers⟩ := expireAll_eq now_ms expired state distinct fresh
  refine ⟨fun other notIn => ?_, fun cb => ?_, fun ref member again => ?_,
    fun ref member once => ?_⟩
  · obtain ⟨timer, inSet⟩ := timers other
    rw [timer, inSet, if_neg notIn]
    simp [notIn]
  · rw [callbacks, List.mem_append, List.mem_map]
  · rw [(timers ref).1, if_pos member, afterExpiry, if_pos again]
    exact ⟨rfl, again⟩
  · rw [(timers ref).2, once]
    simp [fresh ref member]

/-- Every timer that expires was in the set, and was due unless the clock rolled over; one
that is left in the set keeps its callback; and a one-shot timer stays in the set as it was
or its callback is handed out. -/
structure Lists (now_ms : UInt64) (m next : TimerManager Ref Callback)
    (cbs : List (Option Callback)) : Prop where
  callbacks : ∀ cb ∈ cbs, ∃ ref ∈ m.m_timers, (m.timer ref).m_cb = cb ∧
    ((m.detectClockRollOver now_ms).1 = false → (m.timer ref).m_next ≤ now_ms)
  left : ∀ ref ∈ next.m_timers, ref ∈ m.m_timers ∧ (next.timer ref).m_cb = (m.timer ref).m_cb ∧
    ((m.timer ref).m_recurring = false → next.timer ref = m.timer ref)
  oneShot : ∀ ref ∈ m.m_timers, (m.timer ref).m_recurring = false →
    ref ∈ next.m_timers ∧ next.timer ref = m.timer ref ∨ (m.timer ref).m_cb ∈ cbs

/-- The loop over the first part of an ordered set. -/
theorem Lists.of_split (sorted : m.Sorted) {now_ms : UInt64} {expired kept : List Ref}
    (parts : expired ++ kept = m.m_timers)
    (due : (m.detectClockRollOver now_ms).1 = false → ∀ ref ∈ expired,
      (m.timer ref).m_next ≤ now_ms) (previouse : UInt64) :
    Lists now_ms m
      (expired.foldl (expireOne now_ms)
        ({ m with m_timers := kept, m_previouseTime := previouse }, [])).1
      (expired.foldl (expireOne now_ms)
        ({ m with m_timers := kept, m_previouseTime := previouse }, [])).2 := by
  have nodup : (expired ++ kept).Nodup := parts ▸ Ordered.nodup sorted
  rw [List.nodup_append] at nodup
  obtain ⟨distinct, -, apart⟩ := nodup
  have loop := expireAll_spec now_ms expired
    ({ m with m_timers := kept, m_previouseTime := previouse }, []) distinct
    fun ref isExpired isKept => apart ref isExpired ref isKept rfl
  have memberIff : ∀ ref, ref ∈ m.m_timers ↔ ref ∈ expired ∨ ref ∈ kept := fun ref => by
    rw [← parts, List.mem_append]
  refine ⟨fun cb member => ?_, fun ref member => ?_, fun ref member once => ?_⟩
  · obtain inNil | ⟨ref, isExpired, is⟩ := (loop.callbacks cb).mp member
    · cases inNil
    · exact ⟨ref, (memberIff ref).mpr (.inl isExpired), is, fun noRollOver =>
        due noRollOver ref isExpired⟩
  · by_cases isExpired : ref ∈ expired
    · cases again : (m.timer ref).m_recurring with
      | true =>
          exact ⟨(memberIff ref).mpr (.inl isExpired), (loop.recurring ref isExpired again).1,
            fun once => by cases once⟩
      | false => exact absurd member (loop.oneShot ref isExpired again)
    · obtain ⟨isKept, same⟩ := loop.others ref isExpired
      exact ⟨(memberIff ref).mpr (.inr (isKept.mp member)), congrArg Timer.m_cb same, fun _ => same⟩
  · by_cases isExpired : ref ∈ expired
    · exact .inr ((loop.callbacks _).mpr (.inr ⟨ref, isExpired, rfl⟩))
    · obtain ⟨isKept, same⟩ := loop.others ref isExpired
      exact .inl ⟨isKept.mpr (((memberIff ref).mp member).resolve_left isExpired), same⟩

/-- A timer up to `now_timer` is due. -/
theorem due_of_mem_takeUpTo {now_ms : UInt64} {now_timer : Ref}
    (member : ref ∈ takeUpTo (key m.timer) (toLex (now_ms.toNat, now_timer)) m.m_timers) :
    (m.timer ref).m_next ≤ now_ms := by
  have upTo := le_of_mem_takeUpTo member
  rw [key, Prod.Lex.toLex_le_toLex] at upTo
  rw [UInt64.le_iff_toNat_le]
  rcases upTo with before | ⟨same, -⟩
  · exact Nat.le_of_lt before
  · exact Nat.le_of_eq same

theorem listExpiredCb_spec (sorted : m.Sorted) {now_ms : UInt64} {now_timer : Ref}
    {cbs : List (Option Callback)} (done : m.listExpiredCb now_ms now_timer = some (next, cbs)) :
    Lists now_ms m next cbs := by
  rw [listExpiredCb] at done
  cases rollover : (m.detectClockRollOver now_ms).1 with
  | true =>
      have all : Lists now_ms m _ _ := Lists.of_split sorted (List.append_nil _)
        (fun none => by rw [rollover] at none; cases none) now_ms
      simp only [rollover, if_true, Option.some.injEq] at done
      change m.m_timers.foldl (expireOne now_ms)
        ({ m with m_timers := [], m_previouseTime := now_ms }, []) = (next, cbs) at done
      rwa [done] at all
  | false =>
      simp only [rollover, Bool.false_eq_true, if_false] at done
      split at done
      · cases done
      · split at done
        · cases done
          exact ⟨by simp, fun ref member => ⟨member, rfl, fun _ => rfl⟩,
            fun ref member _ => .inl ⟨member, rfl⟩⟩
        · have upTo : Lists now_ms m _ _ := Lists.of_split sorted
            (takeUpTo_append_dropUpTo (key m.timer) (toLex (now_ms.toNat, now_timer)) m.m_timers)
            (fun _ ref member => due_of_mem_takeUpTo member) now_ms
          rw [Option.some.injEq] at done
          change (takeUpTo (key m.timer) (toLex (now_ms.toNat, now_timer)) m.m_timers).foldl
            (expireOne now_ms) ({ m with
              m_timers := dropUpTo (key m.timer) (toLex (now_ms.toNat, now_timer)) m.m_timers
              m_previouseTime := now_ms }, []) = (next, cbs) at done
          rwa [done] at upTo

end Exhy.TimerManager
