import Exhy.Timer.Calls

/-!
# What the calls on a timer return

`cancel`, `refresh` and `reset` are to return true exactly for a timer in the set.  They look at
the callback, and `reset` returns true before it looks when there seems to be nothing to change.
-/

namespace Exhy.TimerCalls

open Library TimerManager

variable {Thread Ref Callback : Type} {ref : Ref}

/-- A result that is right for the timer: true exactly when it is in the set, and with false
nothing has changed. -/
def Right (m next : TimerManager Ref Callback) (ref : Ref) (result : Bool) : Prop :=
  (result = true ↔ ref ∈ m.m_timers) ∧ (result = false → next = m)

theorem right_false {m : TimerManager Ref Callback} (gone : ref ∉ m.m_timers) :
    Right m m ref false :=
  ⟨iff_of_false Bool.false_ne_true gone, fun _ => rfl⟩

theorem right_true {m next : TimerManager Ref Callback} (member : ref ∈ m.m_timers) :
    Right m next ref true :=
  ⟨iff_of_true rfl member, fun isFalse => by cases isFalse⟩

variable [LinearOrder Ref] {s : TimerCalls Thread Ref Callback}

def CancelRight (s : TimerCalls Thread Ref Callback) (ref : Ref) : Prop :=
  ∃ next result, s.manager.cancel ref = some (next, result) ∧ Right s.manager next ref result

def RefreshRight (s : TimerCalls Thread Ref Callback) (ref : Ref) (now_ms : UInt64) : Prop :=
  Right s.manager (s.manager.refresh ref now_ms).1 ref (s.manager.refresh ref now_ms).2

/-- Moreover the new deadline is so much later than the last start, or than the reading. -/
def ResetRight (s : TimerCalls Thread Ref Callback) (ref : Ref) (ms : UInt64) (from_now : Bool)
    (now_ms : UInt64) : Prop :=
  Right s.manager (s.manager.reset ref ms from_now now_ms).1 ref
      (s.manager.reset ref ms from_now now_ms).2.1 ∧
    ((s.manager.reset ref ms from_now now_ms).2.1 = true →
      ((s.manager.reset ref ms from_now now_ms).1.timer ref).m_next.toNat =
        (if from_now then now_ms else s.start ref).toNat + ms.toNat)

/-- The timer is not in the set with an empty function. -/
def Callable (s : TimerCalls Thread Ref Callback) (ref : Ref) : Prop :=
  ref ∈ s.manager.m_timers → (s.manager.timer ref).m_cb ≠ none

/-- Where `reset` takes its shortcut the timer is in the set, elsewhere it has a function; and
the deadline of a timer in the set does not wrap around. -/
def Resettable (s : TimerCalls Thread Ref Callback) (ref : Ref) (ms : UInt64) (from_now : Bool)
    (now_ms : UInt64) : Prop :=
  (if s.manager.Shortcut ref ms from_now then ref ∈ s.manager.m_timers else s.Callable ref) ∧
    (ref ∈ s.manager.m_timers →
      (if from_now then now_ms else s.start ref).toNat + ms.toNat < 2 ^ 64)

theorem Kept.cancel_iff (kept : s.Kept) : CancelRight s ref ↔ Callable s ref := by
  obtain ⟨next, result, cancels⟩ := cancel_held kept.sorted (kept.held ref)
  rw [CancelRight, result]
  constructor
  · rintro ⟨last, done, same, right, -⟩ member filled
    cases same
    rw [filled] at right
    exact Bool.false_ne_true (right.mpr member)
  · intro callable
    refine ⟨next, _, rfl, ⟨fun filled => kept.held ref filled, fun member => ?_⟩, fun none => ?_⟩
    · exact Option.isSome_iff_ne_none.mpr (callable member)
    · exact cancels.idle (Option.not_isSome_iff_eq_none.mp (Bool.not_eq_true _ ▸ none))

theorem Kept.refresh_iff (kept : s.Kept) (now_ms : UInt64) :
    RefreshRight s ref now_ms ↔ Callable s ref := by
  rw [RefreshRight]
  by_cases none : (s.manager.timer ref).m_cb = none
  · rw [refresh_none none]
    constructor
    · rintro ⟨right, -⟩ member
      exact absurd (right.mpr member) Bool.false_ne_true
    · exact fun callable => right_false fun member => callable member none
  · have member := kept.held ref (Option.isSome_iff_ne_none.mpr none)
    obtain ⟨done, -⟩ := refresh_some kept.sorted member none now_ms
    rw [done]
    exact iff_of_true (right_true member) fun _ => none

/-- The sum of two times is the one of the code where it does not wrap around. -/
theorem toNat_add_iff (start ms : UInt64) :
    (start + ms).toNat = start.toNat + ms.toNat ↔ start.toNat + ms.toNat < 2 ^ 64 := by
  rw [UInt64.toNat_add]
  constructor
  · intro same
    rw [← same]
    exact Nat.mod_lt _ (Nat.two_pow_pos 64)
  · exact Nat.mod_eq_of_lt

theorem Kept.reset_iff (kept : s.Kept) (ms : UInt64) (from_now : Bool) (now_ms : UInt64) :
    ResetRight s ref ms from_now now_ms ↔ Resettable s ref ms from_now now_ms := by
  rw [ResetRight, Resettable]
  by_cases shortcut : s.manager.Shortcut ref ms from_now
  · rw [if_pos shortcut]
    obtain ⟨same, rfl⟩ := shortcut
    rw [reset_same same, if_neg Bool.false_ne_true, ← toNat_add_iff]
    constructor
    · rintro ⟨⟨right, -⟩, deadline⟩
      have member := right.mp rfl
      refine ⟨member, fun _ => ?_⟩
      rw [same, ← kept.deadline ref member, ← same]
      exact deadline rfl
    · rintro ⟨member, deadline⟩
      refine ⟨right_true member, fun _ => ?_⟩
      dsimp only
      rw [kept.deadline ref member, ← same]
      exact deadline member
  · rw [if_neg shortcut]
    by_cases none : (s.manager.timer ref).m_cb = none
    · rw [reset_none shortcut none]
      constructor
      · rintro ⟨⟨right, -⟩, -⟩
        have gone : ref ∉ s.manager.m_timers := fun member =>
          Bool.false_ne_true (right.mpr member)
        exact ⟨fun member => absurd member gone, fun member => absurd member gone⟩
      · rintro ⟨callable, -⟩
        exact ⟨right_false fun member => callable member none, fun isTrue => by cases isTrue⟩
    · have member := kept.held ref (Option.isSome_iff_ne_none.mpr none)
      obtain ⟨done, rearms⟩ := reset_some kept.sorted shortcut member none now_ms
      have start : (if from_now then now_ms
          else (s.manager.timer ref).m_next - (s.manager.timer ref).m_ms) =
          if from_now then now_ms else s.start ref := by
        rw [kept.deadline ref member, UInt64.add_sub_cancel]
      rw [done, rearms.self, start, toNat_add_iff]
      constructor
      · rintro ⟨-, deadline⟩
        exact ⟨fun _ => none, fun _ => deadline rfl⟩
      · rintro ⟨-, deadline⟩
        exact ⟨right_true member, fun _ => deadline member⟩

variable [DecidableEq Thread]

/-- In every state that calls reach, and for every timer and all arguments: when the three
functions do what they are to do. -/
theorem results_right_iff (reached : (timerCalls Thread Ref Callback).Reachable s) (ref : Ref) :
    (CancelRight s ref ↔ Callable s ref) ∧
      (∀ now_ms, RefreshRight s ref now_ms ↔ Callable s ref) ∧
      ∀ ms from_now now_ms,
        ResetRight s ref ms from_now now_ms ↔ Resettable s ref ms from_now now_ms :=
  have kept := reaches_kept reached
  ⟨kept.cancel_iff, kept.refresh_iff, kept.reset_iff⟩

/-- A one-shot timer is added and handed out. -/
theorem handedOut_reachable : ∃ s : TimerCalls Unit Nat Unit,
    (timerCalls Unit Nat Unit).Reachable s ∧ s.manager.m_timers = [] ∧
      s.manager.timer 1 = ⟨false, 10, 110, none⟩ ∧ s.start 1 = 100 := by
  have added : (timerCalls Unit Nat Unit).Reachable _ :=
    .step (constructed_reaches _ 50) trivial
      ⟨rfl, .addTimer 1 10 (some ()) false 100 List.not_mem_nil⟩
  have checked : (timerCalls Unit Nat Unit).Reachable _ :=
    .step added trivial ⟨rfl, .check () 130 rfl (by decide)⟩
  have expired : (timerCalls Unit Nat Unit).Reachable _ :=
    .step checked trivial ⟨rfl, .expire () 3 rfl rfl⟩
  exact ⟨_, expired, rfl, rfl, rfl⟩

/-- A timer that waits is reset to five milliseconds from its start. -/
theorem results_right_iff_waiting : ∃ s : TimerCalls Unit Nat Unit,
    s.manager.m_timers = [1] ∧ CancelRight s 1 ∧ RefreshRight s 1 120 ∧ ResetRight s 1 5 false 120 := by
  have added : (timerCalls Unit Nat Unit).Reachable _ :=
    .step (constructed_reaches _ 50) trivial
      ⟨rfl, .addTimer 1 10 (some ()) false 100 List.not_mem_nil⟩
  obtain ⟨cancels, refreshes, resets⟩ := results_right_iff added 1
  refine ⟨_, rfl, cancels.mpr ?_, (refreshes 120).mpr ?_, (resets 5 false 120).mpr ⟨?_, ?_⟩⟩
  · exact fun _ isNone => by cases isNone
  · exact fun _ isNone => by cases isNone
  · exact fun _ isNone => by cases isNone
  · exact fun _ => by decide

/-- `reset` with the period that it has returns true for a timer that has been handed out. -/
theorem reset_handedOut : ∃ s : TimerCalls Unit Nat Unit,
    (timerCalls Unit Nat Unit).Reachable s ∧ 1 ∉ s.manager.m_timers ∧
      (s.manager.reset 1 10 false 130).2.1 = true ∧ ¬ ResetRight s 1 10 false 130 := by
  obtain ⟨s, reached, empty, timer, -⟩ := handedOut_reachable
  have gone : 1 ∉ s.manager.m_timers := by
    rw [empty]
    exact List.not_mem_nil
  have result : (s.manager.reset 1 10 false 130).2.1 = true := by
    have same : (10 : UInt64) = (s.manager.timer 1).m_ms := by rw [timer]
    rw [reset_same same]
  refine ⟨s, reached, gone, result, fun right => ?_⟩
  exact gone (right.1.1.mp result)

end Exhy.TimerCalls
