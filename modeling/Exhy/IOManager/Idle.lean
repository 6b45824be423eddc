import Exhy.Timer.Wakeup

/-!
# The timeout of `idle`

The loop around `epoll_wait` in `IOManager::idle`, which goes round again when a signal
interrupts the wait.
-/

namespace Exhy.IOManager

/-- `next_timeout` as a round of the loop leaves it; the conditional is a `uint64_t`. -/
def clampTimeout (next_timeout : UInt64) : UInt64 :=
  if next_timeout ≠ 0xFFFFFFFFFFFFFFFF then
    if castInt next_timeout > 3000 then 3000 else next_timeout
  else 3000

/-- The timeouts that the loop passes to `epoll_wait`, when that many waits are interrupted. -/
def epollTimeouts : (interrupted : Nat) → (next_timeout : UInt64) → List Int
  | 0, next_timeout => [castInt (clampTimeout next_timeout)]
  | interrupted + 1, next_timeout =>
      castInt (clampTimeout next_timeout) :: epollTimeouts interrupted (clampTimeout next_timeout)

theorem castInt_clampTimeout (delay : UInt64) :
    castInt (clampTimeout delay) = epollTimeout delay := by
  rw [clampTimeout, epollTimeout]
  split
  next => rfl
  next => decide

theorem castInt_capped : castInt 3000 = 3000 := by
  decide

/-- A second round changes nothing. -/
theorem clampTimeout_clampTimeout (delay : UInt64) :
    clampTimeout (clampTimeout delay) = clampTimeout delay := by
  have capped : clampTimeout 3000 = 3000 := by
    decide
  by_cases finite : delay ≠ 0xFFFFFFFFFFFFFFFF
  · by_cases long : castInt delay > 3000
    · rw [show clampTimeout delay = 3000 by rw [clampTimeout, if_pos finite, if_pos long], capped]
    · have kept : clampTimeout delay = delay := by
        rw [clampTimeout, if_pos finite, if_neg long]
      rw [kept, kept]
  · rw [show clampTimeout delay = 3000 from if_neg finite, capped]

/-- Every round waits for the same time. -/
theorem epollTimeouts_eq (interrupted : Nat) (delay : UInt64) :
    epollTimeouts interrupted delay = List.replicate (interrupted + 1) (epollTimeout delay) := by
  induction interrupted generalizing delay with
  | zero => rw [epollTimeouts, castInt_clampTimeout, List.replicate_one]
  | succ interrupted ih =>
      have later : epollTimeout (clampTimeout delay) = epollTimeout delay := by
        rw [← castInt_clampTimeout, clampTimeout_clampTimeout, castInt_clampTimeout]
      rw [epollTimeouts, castInt_clampTimeout, ih, later, ← List.replicate_succ]

/-- The low half of the delay is the delay, or stands for more than the longest timeout. -/
def Representable (delay : UInt64) : Prop :=
  delay = 0xFFFFFFFFFFFFFFFF ∨ delay.toNat < 2 ^ 31 ∨
    3000 ≤ delay.toNat % 2 ^ 32 ∧ delay.toNat % 2 ^ 32 < 2 ^ 31

instance (delay : UInt64) : Decidable (Representable delay) :=
  inferInstanceAs (Decidable (_ ∨ _ ∨ _))

theorem epollTimeout_eq_min_iff (delay : UInt64) :
    epollTimeout delay = min (delay.toNat : Int) 3000 ↔ Representable delay := by
  have bound := delay.toNat_lt
  rw [Representable, epollTimeout]
  by_cases infinite : delay = 0xFFFFFFFFFFFFFFFF
  · rw [infinite]
    decide
  · rw [if_pos infinite]
    simp only [infinite, false_or]
    split
    next long =>
      rw [castInt] at long
      rw [castInt_capped]
      split at long
      · omega
      · omega
    next short =>
      rw [castInt] at short ⊢
      split
      next positive =>
        rw [if_pos positive] at short
        omega
      next negative =>
        omega

/-- Every wait, however often it is interrupted, is for the delay or for three seconds exactly when
the conversion to `int` keeps the delay or makes it a long one. -/
theorem epollTimeouts_iff (interrupted : Nat) (delay : UInt64) :
    (∀ timeout ∈ epollTimeouts interrupted delay,
      timeout = min (delay.toNat : Int) 3000 ∧ 0 ≤ timeout) ↔ Representable delay := by
  rw [epollTimeouts_eq, ← epollTimeout_eq_min_iff]
  constructor
  · intro all
    exact (all _ (List.mem_replicate.mpr ⟨Nat.succ_ne_zero _, rfl⟩)).1
  · intro same timeout member
    rw [(List.mem_replicate.mp member).2]
    constructor
    · exact same
    · omega

/-- A timer in 25 days: both waits are to block for ever. -/
theorem epollTimeouts_month :
    epollTimeouts 1 2160000000 = [-2134967296, -2134967296] ∧
      ¬∀ timeout ∈ epollTimeouts 1 2160000000,
        timeout = min (((2160000000 : UInt64).toNat : Nat) : Int) 3000 ∧ 0 ≤ timeout := by
  decide

end Exhy.IOManager
