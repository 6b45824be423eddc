import Exhy.Library.OrderedSet
import Mathlib.Algebra.Group.Nat.Defs
import Mathlib.Data.Prod.Lex
import Mathlib.Logic.Function.Basic

/-!
# Timers

`Timer` and `TimerManager`.  A timer is known by its address `Ref`; `m_timers` is the list
of the addresses in the order of the set.  Each function is one region under `m_mutex`,
given the reading of the clock that it uses.
-/

namespace Exhy

/-- A `Timer`; an empty function is `none`. -/
structure Timer (Callback : Type) where
  m_recurring : Bool := false
  m_ms : UInt64 := 0
  m_next : UInt64 := 0
  m_cb : Option Callback := none
  deriving DecidableEq, Repr

structure TimerManager (Ref Callback : Type) where
  timer : Ref → Timer Callback
  m_timers : List Ref
  m_tickled : Bool := false
  m_previouseTime : UInt64

namespace TimerManager

open Library

variable {Ref Callback : Type}

def setTimer [DecidableEq Ref] (m : TimerManager Ref Callback) (ref : Ref)
    (timer : Timer Callback) : TimerManager Ref Callback :=
  { m with timer := Function.update m.timer ref timer }

@[simp] theorem timer_setTimer_self [DecidableEq Ref] (m : TimerManager Ref Callback) (ref : Ref)
    (timer : Timer Callback) : (m.setTimer ref timer).timer ref = timer :=
  Function.update_self ..

theorem timer_setTimer_ne [DecidableEq Ref] (m : TimerManager Ref Callback) {ref other : Ref}
    (different : other ≠ ref) (timer : Timer Callback) :
    (m.setTimer ref timer).timer other = m.timer other :=
  Function.update_of_ne different ..

variable [LinearOrder Ref]

/-- `Timer::Comparator` on timers that are not null. -/
def Comparator (timer : Ref → Timer Callback) (lhs rhs : Ref) : Bool :=
  if (timer lhs).m_next < (timer rhs).m_next then true
  else if (timer rhs).m_next < (timer lhs).m_next then false
  else lhs < rhs

/-- The key that `Comparator` compares. -/
def key (timer : Ref → Timer Callback) (ref : Ref) : ℕ ×ₗ Ref :=
  toLex ((timer ref).m_next.toNat, ref)

theorem comparator_iff (timer : Ref → Timer Callback) (lhs rhs : Ref) :
    Comparator timer lhs rhs = true ↔ key timer lhs < key timer rhs := by
  simp only [key, Prod.Lex.toLex_lt_toLex]
  rw [Comparator]
  split
  next before =>
    rw [UInt64.lt_iff_toNat_lt] at before
    simp [before]
  next notBefore =>
    rw [UInt64.lt_iff_toNat_lt] at notBefore
    split
    next after =>
      rw [UInt64.lt_iff_toNat_lt] at after
      simp only [Bool.false_eq_true, false_iff]
      omega
    next notAfter =>
      rw [UInt64.lt_iff_toNat_lt] at notAfter
      have same : (timer lhs).m_next.toNat = (timer rhs).m_next.toNat := by omega
      simp [same]

/-- The constructor `Timer(ms, cb, recurring, manager)`. -/
def newTimer (ms : UInt64) (cb : Option Callback) (recurring : Bool) (now_ms : UInt64) :
    Timer Callback where
  m_recurring := recurring
  m_ms := ms
  m_next := now_ms + ms
  m_cb := cb

variable (m : TimerManager Ref Callback)

/-- `m_timers.insert(timer)`. -/
def insert (ref : Ref) : TimerManager Ref Callback :=
  { m with m_timers := insertBy (key m.timer) ref m.m_timers }

/-- `m_timers.find(timer)`. -/
def find (ref : Ref) : Option Ref :=
  findBy (key m.timer) ref m.m_timers

/-- `m_timers.erase(m_timers.find(timer))`. -/
def erase (ref : Ref) : TimerManager Ref Callback :=
  { m with m_timers := eraseBy (key m.timer) ref m.m_timers }

/-- `addTimer(val, lock)`: the result says whether `onTimerInsertedAtFront` is called. -/
def addTimerLocked (val : Ref) : TimerManager Ref Callback × Bool :=
  let m := m.insert val
  let at_front := m.m_timers.head? = some val && !m.m_tickled
  ({ m with m_tickled := m.m_tickled || at_front }, at_front)

/-- `addTimer(ms, cb, recurring)`; the clock is read before the lock is taken. -/
def addTimer (ref : Ref) (ms : UInt64) (cb : Option Callback) (recurring : Bool)
    (now_ms : UInt64) : TimerManager Ref Callback × Bool :=
  (m.setTimer ref (newTimer ms cb recurring now_ms)).addTimerLocked ref

/-- The earliest deadline. -/
def earliest : Option UInt64 :=
  m.m_timers.head?.map fun next => (m.timer next).m_next

/-- `getNextTimer()`. -/
def getNextTimer (now_ms : UInt64) : UInt64 × TimerManager Ref Callback :=
  let delay :=
    match m.m_timers.head? with
    | none => 0xFFFFFFFFFFFFFFFF
    | some next =>
        if now_ms ≥ (m.timer next).m_next then 0 else (m.timer next).m_next - now_ms
  (delay, { m with m_tickled := false })

/-- `detectClockRollOver(now_ms)`; the subtraction wraps. -/
def detectClockRollOver (now_ms : UInt64) : Bool × TimerManager Ref Callback :=
  (now_ms < m.m_previouseTime && now_ms < m.m_previouseTime - 60 * 60 * 1000,
    { m with m_previouseTime := now_ms })

/-- One round of the loop over `expired`. -/
def expireOne (now_ms : UInt64)
    (state : TimerManager Ref Callback × List (Option Callback)) (ref : Ref) :
    TimerManager Ref Callback × List (Option Callback) :=
  let (m, cbs) := state
  let timer := m.timer ref
  let cbs := cbs ++ [timer.m_cb]
  if timer.m_recurring then
    ((m.setTimer ref { timer with m_next := now_ms + timer.m_ms }).insert ref, cbs)
  else (m.setTimer ref { timer with m_cb := none }, cbs)

/-- The locked part of `listExpiredCb`, for a `now_timer` at the given address; `none` is
the access to `*m_timers.begin()` on an empty set. -/
def listExpiredCb (now_ms : UInt64) (now_timer : Ref) :
    Option (TimerManager Ref Callback × List (Option Callback)) :=
  let (rollover, m) := m.detectClockRollOver now_ms
  if rollover then
    some (m.m_timers.foldl (expireOne now_ms) ({ m with m_timers := [] }, []))
  else
    match m.earliest with
    | none => none
    | some deadline =>
        if deadline > now_ms then some (m, [])
        else
          let bound := toLex (now_ms.toNat, now_timer)
          some ((takeUpTo (key m.timer) bound m.m_timers).foldl (expireOne now_ms)
            ({ m with m_timers := dropUpTo (key m.timer) bound m.m_timers }, []))

/-- `Timer::cancel()`; `none` is the erasure of the end iterator. -/
def cancel (ref : Ref) : Option (TimerManager Ref Callback × Bool) :=
  if (m.timer ref).m_cb.isSome then
    let m := m.setTimer ref { m.timer ref with m_cb := none }
    match m.find ref with
    | none => none
    | some _ => some (m.erase ref, true)
  else some (m, false)

/-- `Timer::refresh()`. -/
def refresh (ref : Ref) (now_ms : UInt64) : TimerManager Ref Callback × Bool :=
  if (m.timer ref).m_cb.isNone then (m, false)
  else
    match m.find ref with
    | none => (m, false)
    | some _ =>
        let m := m.erase ref
        ((m.setTimer ref { m.timer ref with m_next := now_ms + (m.timer ref).m_ms }).insert ref,
          true)

/-- `Timer::reset(ms, from_now)`: the manager, the result, and whether
`onTimerInsertedAtFront` is called. -/
def reset (ref : Ref) (ms : UInt64) (from_now : Bool) (now_ms : UInt64) :
    TimerManager Ref Callback × Bool × Bool :=
  let timer := m.timer ref
  if ms = timer.m_ms && !from_now then (m, true, false)
  else if timer.m_cb.isNone then (m, false, false)
  else
    match m.find ref with
    | none => (m, false, false)
    | some _ =>
        let start := if from_now then now_ms else timer.m_next - timer.m_ms
        let (m, at_front) := ((m.erase ref).setTimer ref
          { timer with m_ms := ms, m_next := start + ms }).addTimerLocked ref
        (m, true, at_front)

end TimerManager

end Exhy
