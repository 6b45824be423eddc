import Exhy.Timer.Queue

/-!
# Early timers

An expiry hands out every timer when the clock seems to have rolled over.  The test for
that wraps around near zero, and it compares with the last reading that found a timer in
the set.  In the runs in which it answers no, or every timer is due, no timer is early.
-/

namespace Exhy

open Library

namespace TimerManager

variable {Ref Callback : Type}

/-- The clock is behind the last reading by more than an hour, or at all while that reading
is less than an hour. -/
theorem detectClockRollOver_iff (m : TimerManager Ref Callback) (now_ms : UInt64) :
    (m.detectClockRollOver now_ms).1 = false ↔
      m.m_previouseTime ≤ now_ms ∨
        3600000 ≤ m.m_previouseTime ∧ m.m_previouseTime - 3600000 ≤ now_ms := by
  have wrapped : (m.m_previouseTime - 3600000).toNat =
      (2 ^ 64 - 3600000 + m.m_previouseTime.toNat) % 2 ^ 64 := UInt64.toNat_sub ..
  have hour : (60 * 60 * 1000 : UInt64) = 3600000 := by decide
  have hourNat : (3600000 : UInt64).toNat = 3600000 := by decide
  have below := m.m_previouseTime.toNat_lt
  simp only [detectClockRollOver, hour, Bool.and_eq_false_iff, decide_eq_false_iff_not,
    UInt64.lt_iff_toNat_lt, UInt64.le_iff_toNat_le, wrapped, hourNat]
  omega

variable [LinearOrder Ref]

/-- Of some timers an expiry takes one out early exactly when it takes the whole set out and one
of them is not due. -/
theorem expired_due_among_iff (m : TimerManager Ref Callback) (now_ms : UInt64) (now_timer : Ref)
    (among : Ref → Prop) :
    (∀ ref ∈ m.expired now_ms now_timer, among ref → (m.timer ref).m_next ≤ now_ms) ↔
      (∀ ref ∈ m.m_timers, among ref → (m.timer ref).m_next ≤ now_ms) ∨
        (m.detectClockRollOver now_ms).1 = false := by
  rw [expired]
  cases (m.detectClockRollOver now_ms).1 with
  | true => simp
  | false =>
      refine iff_of_true (fun ref member _ => ?_) (.inr rfl)
      rw [if_neg Bool.false_ne_true] at member
      split at member
      · cases member
      · split at member
        · cases member
        · exact due_of_mem_takeUpTo member

/-- An expiry is early exactly when it takes the whole set out and some timer is not due. -/
theorem expired_due_iff (m : TimerManager Ref Callback) (now_ms : UInt64) (now_timer : Ref) :
    (∀ ref ∈ m.expired now_ms now_timer, (m.timer ref).m_next ≤ now_ms) ↔
      (∀ ref ∈ m.m_timers, (m.timer ref).m_next ≤ now_ms) ∨
        (m.detectClockRollOver now_ms).1 = false := by
  simpa only [forall_const] using expired_due_among_iff m now_ms now_timer fun _ => True

end TimerManager

namespace TimerQueue

variable {Ref Callback : Type} [LinearOrder Ref]

/-- What the runs are asked for: the clock steps back at most an hour from one expiry to
the next, and no deadline wraps around. -/
def Steady (s : TimerQueue Ref Callback) : Label Ref Callback → Prop
  | .addTimer _ ms _ _ now_ms => now_ms.toNat + ms.toNat < 2 ^ 64
  | .cancel _ => True
  | .refresh ref now_ms => now_ms.toNat + (s.manager.timer ref).m_ms.toNat < 2 ^ 64
  | .reset _ ms _ now_ms => now_ms.toNat + ms.toNat < 2 ^ 64
  | .listExpiredCb now_ms _ => s.reading.toNat ≤ now_ms.toNat + 3600000

instance (s : TimerQueue Ref Callback) (label : Label Ref Callback) : Decidable (Steady s label) :=
  match label with
  | .addTimer _ ms _ _ now_ms => inferInstanceAs (Decidable (now_ms.toNat + ms.toNat < 2 ^ 64))
  | .cancel _ => inferInstanceAs (Decidable True)
  | .refresh ref now_ms =>
      inferInstanceAs (Decidable (now_ms.toNat + (s.manager.timer ref).m_ms.toNat < 2 ^ 64))
  | .reset _ ms _ now_ms => inferInstanceAs (Decidable (now_ms.toNat + ms.toNat < 2 ^ 64))
  | .listExpiredCb now_ms _ =>
      inferInstanceAs (Decidable (s.reading.toNat ≤ now_ms.toNat + 3600000))

/-- The condition on an expiry: every timer is due, or the clock is not behind
`m_previouseTime`, or it is at most an hour behind and `m_previouseTime` at least an hour. -/
def InTime (s : TimerQueue Ref Callback) : Label Ref Callback → Prop
  | .listExpiredCb now_ms _ =>
      (∀ ref ∈ s.manager.m_timers, (s.manager.timer ref).m_next ≤ now_ms) ∨
        s.manager.m_previouseTime ≤ now_ms ∨
          3600000 ≤ s.manager.m_previouseTime ∧ s.manager.m_previouseTime - 3600000 ≤ now_ms
  | _ => True

theorem expired_inTime_iff (s : TimerQueue Ref Callback) (now_ms : UInt64) (now_timer : Ref) :
    (∀ ref ∈ s.manager.expired now_ms now_timer, (s.manager.timer ref).m_next ≤ now_ms) ↔
      InTime s (.listExpiredCb now_ms now_timer) := by
  rw [TimerManager.expired_due_iff, TimerManager.detectClockRollOver_iff, InTime]

theorem fired_step {s next : TimerQueue Ref Callback} {label : Label Ref Callback}
    (inTime : InTime s label) (due : ∀ entry ∈ s.fired, entry.1 ≤ entry.2)
    (stepped : Step s label next) : ∀ entry ∈ next.fired, entry.1 ≤ entry.2 := by
  cases stepped with
  | addTimer ref ms cb recurring now_ms fresh => exact due
  | cancel ref cancels => exact due
  | refresh ref now_ms => exact due
  | reset ref ms from_now now_ms => exact due
  | listExpiredCb now_ms now_timer lists =>
      intro entry member
      rcases List.mem_append.mp member with before | here
      · exact due entry before
      · obtain ⟨ref, isExpired, rfl⟩ := List.mem_map.mp here
        exact (expired_inTime_iff s now_ms now_timer).mpr inTime ref isExpired

/-- No timer is early in the runs that keep to the condition, and an expiry that does not
keep to it, in whatever state, hands out a timer early. -/
theorem fires_in_time :
    (∀ s : TimerQueue Ref Callback, (timerQueue Ref Callback).Reaches InTime s →
      ∀ entry ∈ s.fired, entry.1 ≤ entry.2) ∧
    ∀ (s : TimerQueue Ref Callback) (now_ms : UInt64) (now_timer : Ref),
      (∀ ref ∈ s.manager.expired now_ms now_timer, (s.manager.timer ref).m_next ≤ now_ms) ↔
        InTime s (.listExpiredCb now_ms now_timer) := by
  refine ⟨fun s reached => ?_, expired_inTime_iff⟩
  refine reached.invariant (fun state => ∀ entry ∈ state.fired, entry.1 ≤ entry.2)
    (fun state isInitial entry member => ?_)
    fun _ _ _ _ due inTime stepped => fired_step inTime due stepped
  rw [isInitial.2.2.2.1] at member
  cases member

/-- A manager constructed at the reading. -/
def constructed (reading : UInt64) : TimerQueue Nat Unit :=
  ⟨⟨fun _ => {}, [], false, reading⟩, fun _ => 0, fun _ => false, [], reading⟩

theorem constructed_reaches (allowed : TimerQueue Nat Unit → Label Nat Unit → Prop)
    (reading : UInt64) : (timerQueue Nat Unit).Reaches allowed (constructed reading) :=
  .initial ⟨rfl, fun _ => rfl, fun _ => ⟨rfl, rfl⟩, rfl, rfl⟩

theorem fires_in_time_due :
    ∃ s : TimerQueue Nat Unit, s.fired = [(110, 115)] ∧ ∀ entry ∈ s.fired, entry.1 ≤ entry.2 := by
  have added : (timerQueue Nat Unit).Reaches InTime _ :=
    .step (constructed_reaches InTime 50) (by exact trivial)
      (.addTimer 1 10 () false 100 List.not_mem_nil)
  have expired : (timerQueue Nat Unit).Reaches InTime _ :=
    .step added (by exact .inr (.inl (by decide))) (.listExpiredCb 115 3 rfl)
  exact ⟨_, by decide, fires_in_time.1 _ expired⟩

/-- Near zero a step back by one millisecond hands out a timer that is due five seconds
later; and later, three readings that step back by fifty minutes each, of which the middle
one finds the set empty, hand out a timer at once. -/
theorem fires_early :
    (∃ s : TimerQueue Nat Unit, (timerQueue Nat Unit).Reaches Steady s ∧
      ∃ entry ∈ s.fired, entry = (6000, 999)) ∧
    ∃ s : TimerQueue Nat Unit, (timerQueue Nat Unit).Reaches Steady s ∧
      ∃ entry ∈ s.fired, entry = (24005000, 24000000) := by
  constructor
  · have added : (timerQueue Nat Unit).Reaches Steady _ :=
      .step (constructed_reaches Steady 1000) (by decide)
        (.addTimer 1 5000 () false 1000 List.not_mem_nil)
    have expired : (timerQueue Nat Unit).Reaches Steady _ :=
      .step added (by decide) (.listExpiredCb 1000 2 rfl)
    have early : (timerQueue Nat Unit).Reaches Steady _ :=
      .step expired (by decide) (.listExpiredCb 999 2 rfl)
    exact ⟨_, early, _, List.mem_cons_self .., rfl⟩
  · have added : (timerQueue Nat Unit).Reaches Steady _ :=
      .step (constructed_reaches Steady 30000000) (by decide)
        (.addTimer 1 5000 () false 30000000 List.not_mem_nil)
    have expired : (timerQueue Nat Unit).Reaches Steady _ :=
      .step added (by decide) (.listExpiredCb 30000000 2 rfl)
    have cancelled : (timerQueue Nat Unit).Reaches Steady _ :=
      .step expired (by decide) (.cancel 1 rfl)
    have skipped : (timerQueue Nat Unit).Reaches Steady _ :=
      .step cancelled (by decide) (.listExpiredCb 27000000 2 rfl)
    have addedAgain : (timerQueue Nat Unit).Reaches Steady _ :=
      .step skipped (by decide) (.addTimer 3 5000 () false 24000000 List.not_mem_nil)
    have early : (timerQueue Nat Unit).Reaches Steady _ :=
      .step addedAgain (by decide) (.listExpiredCb 24000000 2 rfl)
    exact ⟨_, early, _, List.mem_cons_self .., rfl⟩

end TimerQueue

end Exhy
