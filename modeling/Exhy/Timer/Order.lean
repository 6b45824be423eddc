import Exhy.Timer.Core

/-!
# The order of the timers

Every operation keeps `m_timers` strictly ordered by deadline and address, so its first
timer has the earliest deadline.
-/

namespace Exhy.TimerManager

open Library

variable {Ref Callback : Type} {m : TimerManager Ref Callback}

/-- The timers of `next` have no earlier deadline than those of `m`. -/
def NoEarlier (m next : TimerManager Ref Callback) : Prop :=
  ∀ deadline, next.earliest = some deadline →
    ∃ before, m.earliest = some before ∧ before ≤ deadline

theorem NoEarlier.of_eq {next : TimerManager Ref Callback} (same : next.earliest = m.earliest) :
    NoEarlier m next := by
  intro deadline first
  exact ⟨deadline, same ▸ first, UInt64.le_refl _⟩

variable [LinearOrder Ref]

def Sorted (m : TimerManager Ref Callback) : Prop :=
  Ordered (key m.timer) m.m_timers

theorem key_setTimer {ref other : Ref} (different : other ≠ ref) (timer : Timer Callback) :
    key (m.setTimer ref timer).timer other = key m.timer other := by
  rw [key, key, timer_setTimer_ne _ different]

/-- The order does not depend on the callbacks. -/
theorem key_setCallback (ref : Ref) (cb : Option Callback) :
    key (m.setTimer ref { m.timer ref with m_cb := cb }).timer = key m.timer := by
  funext other
  by_cases same : other = ref
  · subst same
    simp [key]
  · exact key_setTimer same _

theorem Sorted.setTimer (sorted : m.Sorted) {ref : Ref} (fresh : ref ∉ m.m_timers)
    (timer : Timer Callback) : (m.setTimer ref timer).Sorted :=
  Ordered.congr sorted fun other member => key_setTimer (by
    rintro rfl
    exact fresh member) timer

theorem earliest_setTimer {ref : Ref} (fresh : ref ∉ m.m_timers) (timer : Timer Callback) :
    (m.setTimer ref timer).earliest = m.earliest := by
  rw [earliest, earliest]
  cases headEq : m.m_timers.head? with
  | none => simp [TimerManager.setTimer, headEq]
  | some first =>
      have different : first ≠ ref := fun same =>
        fresh (same ▸ List.mem_of_mem_head? headEq)
      simp [TimerManager.setTimer, headEq, Function.update_of_ne different]

theorem Sorted.insert (sorted : m.Sorted) (ref : Ref) : (m.insert ref).Sorted :=
  Ordered.insertBy sorted

theorem Sorted.erase (sorted : m.Sorted) (ref : Ref) : (m.erase ref).Sorted :=
  Ordered.eraseBy sorted

/-- A timer whose key is found is in the set. -/
theorem mem_of_find {ref found : Ref} (isFound : m.find ref = some found) : ref ∈ m.m_timers := by
  have same := List.find?_some isFound
  have member := List.mem_of_find?_eq_some isFound
  rw [decide_eq_true_eq, key, key, toLex_inj, Prod.mk.injEq] at same
  exact same.2 ▸ member

theorem Sorted.notMem_erase (sorted : m.Sorted) {ref found : Ref}
    (isFound : m.find ref = some found) : ref ∉ (m.erase ref).m_timers := fun member =>
  ((Ordered.mem_eraseBy_iff sorted (mem_of_find isFound)).mp member).2 rfl

theorem Sorted.earliest_le (sorted : m.Sorted) {deadline : UInt64}
    (first : m.earliest = some deadline) {ref : Ref} (member : ref ∈ m.m_timers) :
    deadline ≤ (m.timer ref).m_next := by
  obtain ⟨front, head, rfl⟩ := Option.map_eq_some_iff.mp first
  have before := Ordered.head_le sorted head member
  rw [key, key, Prod.Lex.toLex_le_toLex] at before
  rw [UInt64.le_iff_toNat_le]
  rcases before with before | ⟨same, -⟩
  · exact Nat.le_of_lt before
  · exact Nat.le_of_eq same

theorem Sorted.erase_noEarlier (sorted : m.Sorted) (ref : Ref) : NoEarlier m (m.erase ref) := by
  intro deadline first
  obtain ⟨front, head, rfl⟩ := Option.map_eq_some_iff.mp first
  have member : front ∈ m.m_timers := mem_of_mem_eraseBy (List.mem_of_mem_head? head)
  cases headEq : m.m_timers.head? with
  | none =>
      rw [List.head?_eq_none_iff] at headEq
      rw [headEq] at member
      cases member
  | some before =>
      have earliestEq : m.earliest = some (m.timer before).m_next := by
        rw [earliest, headEq, Option.map_some]
      exact ⟨_, earliestEq, sorted.earliest_le earliestEq member⟩

/-- An insertion either is announced, or finds `m_tickled` set, or leaves the earliest
deadline as it was. -/
theorem addTimerLocked_spec (sorted : m.Sorted) (val : Ref) :
    (m.addTimerLocked val).1.Sorted ∧
      ((m.addTimerLocked val).2 = true ∨
        (m.addTimerLocked val).1.m_tickled = m.m_tickled ∧
          (m.m_tickled = true ∨ (m.addTimerLocked val).1.earliest = m.earliest)) := by
  refine ⟨sorted.insert val, ?_⟩
  simp only [addTimerLocked]
  cases tickled : m.m_tickled with
  | true =>
      right
      simp [TimerManager.insert, tickled]
  | false =>
      rcases head?_insertBy (key m.timer) val m.m_timers with front | same
      · left
        simp [TimerManager.insert, tickled, front]
      · by_cases front : (m.insert val).m_timers.head? = some val
        · left
          rw [front]
          simp [TimerManager.insert, tickled]
        · right
          simp only [front, decide_false, Bool.false_and, Bool.or_false]
          exact ⟨tickled, .inr (by rw [earliest, earliest]; exact congrArg _ same)⟩

theorem addTimer_spec (sorted : m.Sorted) {ref : Ref} (fresh : ref ∉ m.m_timers) (ms : UInt64)
    (cb : Option Callback) (recurring : Bool) (now_ms : UInt64) :
    (m.addTimer ref ms cb recurring now_ms).1.Sorted ∧
      ((m.addTimer ref ms cb recurring now_ms).2 = true ∨
        (m.addTimer ref ms cb recurring now_ms).1.m_tickled = m.m_tickled ∧
          (m.m_tickled = true ∨
            NoEarlier m (m.addTimer ref ms cb recurring now_ms).1)) := by
  obtain ⟨kept, announced⟩ :=
    addTimerLocked_spec (sorted.setTimer fresh (newTimer ms cb recurring now_ms)) ref
  refine ⟨kept, ?_⟩
  rcases announced with front | ⟨tickled, spared⟩
  · exact .inl front
  · refine .inr ⟨tickled, spared.imp_right fun same => .of_eq ?_⟩
    rw [addTimer, same, earliest_setTimer fresh]

theorem reset_spec (sorted : m.Sorted) (ref : Ref) (ms : UInt64) (from_now : Bool)
    (now_ms : UInt64) :
    (m.reset ref ms from_now now_ms).1.Sorted ∧
      ((m.reset ref ms from_now now_ms).2.2 = true ∨
        (m.reset ref ms from_now now_ms).1.m_tickled = m.m_tickled ∧
          (m.m_tickled = true ∨ NoEarlier m (m.reset ref ms from_now now_ms).1)) := by
  have unchanged : m.Sorted ∧ (false = true ∨ m.m_tickled = m.m_tickled ∧
      (m.m_tickled = true ∨ NoEarlier m m)) :=
    ⟨sorted, .inr ⟨rfl, .inr (.of_eq rfl)⟩⟩
  simp only [reset]
  split
  · exact unchanged
  · split
    · exact unchanged
    · split
      · exact unchanged
      next found =>
        have fresh := sorted.notMem_erase found
        obtain ⟨kept, announced⟩ := addTimerLocked_spec
          ((sorted.erase ref).setTimer fresh { m.timer ref with
            m_ms := ms
            m_next := (if from_now then now_ms else (m.timer ref).m_next - (m.timer ref).m_ms) + ms })
          ref
        refine ⟨kept, ?_⟩
        rcases announced with front | ⟨tickled, spared⟩
        · exact .inl front
        · refine .inr ⟨tickled, spared.imp_right fun same deadline first => ?_⟩
          rw [same, earliest_setTimer fresh] at first
          exact sorted.erase_noEarlier ref deadline first

theorem cancel_spec (sorted : m.Sorted) {ref : Ref} {next : TimerManager Ref Callback}
    {result : Bool} (done : m.cancel ref = some (next, result)) :
    next.Sorted ∧ next.m_tickled = m.m_tickled ∧ NoEarlier m next := by
  simp only [cancel] at done
  split at done
  · split at done
    · cases done
    · cases done
      have keys : key (m.setTimer ref { m.timer ref with m_cb := none }).timer = key m.timer :=
        key_setCallback ref none
      have eraseEq : ((m.setTimer ref { m.timer ref with m_cb := none }).erase ref).m_timers =
          (m.erase ref).m_timers := by
        simp only [TimerManager.erase, keys]
        rfl
      refine ⟨?_, rfl, fun deadline first => ?_⟩
      · rw [Sorted, eraseEq]
        change Ordered (key (m.setTimer ref { m.timer ref with m_cb := none }).timer) _
        rw [keys]
        exact sorted.erase ref
      · refine sorted.erase_noEarlier ref deadline ?_
        obtain ⟨front, head, rfl⟩ := Option.map_eq_some_iff.mp first
        rw [eraseEq] at head
        rw [earliest, head, Option.map_some]
        by_cases same : front = ref
        · subst same
          simp [TimerManager.erase, setTimer]
        · simp [TimerManager.erase, setTimer, Function.update_of_ne same]
  · cases done
    exact ⟨sorted, rfl, .of_eq rfl⟩

theorem expireOne_sorted (cbs : List (Option Callback)) (now_ms : UInt64) {ref : Ref}
    (sorted : m.Sorted) (fresh : ref ∉ m.m_timers) :
    (expireOne now_ms (m, cbs) ref).1.Sorted ∧
      ∀ other ∈ (expireOne now_ms (m, cbs) ref).1.m_timers, other = ref ∨ other ∈ m.m_timers := by
  simp only [expireOne]
  split
  · exact ⟨(sorted.setTimer fresh _).insert ref, fun other member => mem_insertBy member⟩
  · exact ⟨sorted.setTimer fresh _, fun other member => .inr member⟩

/-- The loop over `expired` puts recurring timers back in order. -/
theorem expireAll_sorted (now_ms : UInt64) (expired : List Ref)
    (state : TimerManager Ref Callback × List (Option Callback)) (sorted : state.1.Sorted)
    (distinct : expired.Nodup) (fresh : ∀ ref ∈ expired, ref ∉ state.1.m_timers) :
    (expired.foldl (expireOne now_ms) state).1.Sorted := by
  induction expired generalizing state with
  | nil => exact sorted
  | cons ref rest ih =>
      rw [List.nodup_cons] at distinct
      obtain ⟨m, cbs⟩ := state
      obtain ⟨kept, added⟩ :=
        expireOne_sorted cbs now_ms sorted (fresh ref (by simp))
      refine ih _ kept distinct.2 fun other member back => ?_
      rcases added other back with rfl | before
      · exact distinct.1 member
      · exact fresh other (by simp [member]) before

theorem listExpiredCb_sorted (sorted : m.Sorted) {now_ms : UInt64} {now_timer : Ref}
    {next : TimerManager Ref Callback} {cbs : List (Option Callback)}
    (done : m.listExpiredCb now_ms now_timer = some (next, cbs)) : next.Sorted := by
  rw [listExpiredCb] at done
  generalize detected : m.detectClockRollOver now_ms = result at done
  obtain ⟨rollover, after⟩ := result
  have afterSorted : after.Sorted := by
    cases detected
    exact sorted
  cases rollover with
  | true =>
      have kept := expireAll_sorted now_ms after.m_timers ({ after with m_timers := [] }, [])
        List.Pairwise.nil (Ordered.nodup afterSorted) (fun _ _ => List.not_mem_nil)
      simp only [if_true, Option.some.injEq] at done
      rwa [done] at kept
  | false =>
      simp only [Bool.false_eq_true, if_false] at done
      split at done
      · cases done
      · split at done
        · cases done
          exact afterSorted
        · obtain ⟨distinct, fresh⟩ :=
            Ordered.takeUpTo_spec afterSorted (toLex (now_ms.toNat, now_timer))
          have kept := expireAll_sorted now_ms _ ({ after with
            m_timers := dropUpTo (key after.timer) (toLex (now_ms.toNat, now_timer))
              after.m_timers }, []) (Ordered.dropUpTo afterSorted) distinct fresh
          rw [Option.some.injEq] at done
          rwa [done] at kept

end Exhy.TimerManager
