import Exhy.Timer.Boundary
import Exhy.Timer.Rollover

/-!
# Sleeping

The hooked `sleep` and `usleep` add a timer whose callback schedules the fiber, and yield.  The
timer counts milliseconds; what it is given is computed from the argument as an `unsigned int`.
-/

namespace Exhy

open Library

namespace Sleepers

/-- A call, with its argument. -/
inductive Request where
  | sleep (seconds : UInt32)
  | usleep (usec : UInt32)
  deriving DecidableEq, Repr

namespace Request

/-- The interval of the timer: `seconds * 1000`, or `usec / 1000`. -/
def ms : Request → UInt64
  | sleep seconds => (seconds * 1000).toUInt64
  | usleep usec => (usec / 1000).toUInt64

/-- The milliseconds that are to pass, rounded up. -/
def required : Request → Nat
  | sleep seconds => seconds.toNat * 1000
  | usleep usec => (usec.toNat + 999) / 1000

/-- The milliseconds fit an `unsigned int`, or the microseconds are whole milliseconds. -/
def Exact : Request → Prop
  | sleep seconds => seconds.toNat * 1000 < 2 ^ 32
  | usleep usec => usec.toNat % 1000 = 0

instance (request : Request) : Decidable request.Exact :=
  match request with
  | sleep seconds => inferInstanceAs (Decidable (seconds.toNat * 1000 < 2 ^ 32))
  | usleep usec => inferInstanceAs (Decidable (usec.toNat % 1000 = 0))

theorem required_le_iff (request : Request) : request.required ≤ request.ms.toNat ↔ request.Exact := by
  cases request with
  | sleep seconds =>
      have product : (seconds * 1000).toUInt64.toNat = seconds.toNat * 1000 % 2 ^ 32 := rfl
      rw [required, ms, Exact, product]
      omega
  | usleep usec =>
      have quotient : (usec / 1000).toUInt64.toNat = usec.toNat / 1000 := rfl
      rw [required, ms, Exact, quotient]
      omega

/-- The deadline of the timer is late enough. -/
theorem deadline_iff (request : Request) (now_ms : UInt64) :
    now_ms.toNat + request.required ≤ (now_ms + request.ms).toNat ↔
      request.Exact ∧ now_ms.toNat + request.ms.toNat < 2 ^ 64 := by
  have small := request.ms.toNat_lt
  have reading := now_ms.toNat_lt
  rw [← required_le_iff, UInt64.toNat_add]
  omega

end Request

/-- The function of a timer: one that schedules the fiber of a call, or something else. -/
inductive Callback where
  | schedule (call : Nat)
  | other
  deriving DecidableEq, Repr

/-- A call that has added its timer: the reading that the timer is made with and its address. -/
structure Sleep (Ref : Type) where
  request : Request
  calledAt : UInt64
  ref : Ref

end Sleepers

/-- The calls by number.  `taken` counts the callbacks of a call that have been handed out and not
run, `scheduled` how often its fiber has been scheduled; `resumed` are the calls whose fiber has
been resumed for that, with the clock. -/
structure Sleepers (Ref : Type) where
  manager : TimerManager Ref Sleepers.Callback
  clock : UInt64
  sleeps : Nat → Option (Sleepers.Sleep Ref)
  taken : Nat → Nat
  scheduled : Nat → Nat
  resumed : List (Nat × UInt64)

namespace Sleepers

variable {Ref : Type} [LinearOrder Ref]

/-- The timer has the callback of a sleep. -/
def Asleep (m : TimerManager Ref Callback) (ref : Ref) : Prop :=
  ∃ call, (m.timer ref).m_cb = some (.schedule call)

inductive Label (Ref : Type) where
  | tick (clock : UInt64)
  | call (call : Nat) (request : Request) (ref : Ref) (now_ms : UInt64)
  | addTimer (ref : Ref) (ms : UInt64) (cb : Option Callback) (recurring : Bool) (now_ms : UInt64)
  | cancel (ref : Ref)
  | refresh (ref : Ref)
  | reset (ref : Ref) (ms : UInt64) (from_now : Bool)
  | getNextTimer
  | expire (now_ms : UInt64) (now_timer : Ref)
  | run (call : Nat)
  | resume (call : Nat)

inductive Step : Sleepers Ref → Label Ref → Sleepers Ref → Prop where
  | tick {s : Sleepers Ref} (clock : UInt64) : s.clock ≤ clock →
      Step s (.tick clock) { s with clock := clock }
  /-- `sleep` or `usleep`.  A new timer has an address of its own. -/
  | call {s : Sleepers Ref} (call : Nat) (request : Request) (ref : Ref) (now_ms : UInt64) :
      s.sleeps call = none → ref ∉ s.manager.m_timers → now_ms ≤ s.clock →
      Step s (.call call request ref now_ms)
        { s with
          manager := (s.manager.addTimer ref request.ms (some (.schedule call)) false now_ms).1
          sleeps := Function.update s.sleeps call (some ⟨request, now_ms, ref⟩) }
  /-- Another task adds a timer, or uses one that is not of a sleep: no one else has those. -/
  | addTimer {s : Sleepers Ref} (ref : Ref) (ms : UInt64) (cb : Option Callback) (recurring : Bool)
      (now_ms : UInt64) : ref ∉ s.manager.m_timers → (∀ call, cb ≠ some (.schedule call)) →
      Step s (.addTimer ref ms cb recurring now_ms)
        { s with manager := (s.manager.addTimer ref ms cb recurring now_ms).1 }
  | cancel {s : Sleepers Ref} (ref : Ref) {manager : TimerManager Ref Callback} {result : Bool} :
      ¬ Asleep s.manager ref → s.manager.cancel ref = some (manager, result) →
      Step s (.cancel ref) { s with manager := manager }
  | refresh {s : Sleepers Ref} (ref : Ref) : ¬ Asleep s.manager ref →
      Step s (.refresh ref) { s with manager := (s.manager.refresh ref s.clock).1 }
  | reset {s : Sleepers Ref} (ref : Ref) (ms : UInt64) (from_now : Bool) :
      ¬ Asleep s.manager ref →
      Step s (.reset ref ms from_now)
        { s with manager := (s.manager.reset ref ms from_now s.clock).1 }
  | getNextTimer {s : Sleepers Ref} :
      Step s .getNextTimer { s with manager := (s.manager.getNextTimer s.clock).2 }
  /-- The second region of `listExpiredCb` in some worker, which has read the clock before. -/
  | expire {s : Sleepers Ref} (now_ms : UInt64) (now_timer : Ref)
      {manager : TimerManager Ref Callback} {cbs : List (Option Callback)} : now_ms ≤ s.clock →
      s.manager.listExpiredCb now_ms now_timer = some (manager, cbs) →
      Step s (.expire now_ms now_timer)
        { s with
          manager := manager
          taken := fun call => s.taken call + cbs.count (some (.schedule call)) }
  /-- A callback that has been handed out calls `schedule(fiber)`. -/
  | run {s : Sleepers Ref} (call : Nat) : 0 < s.taken call →
      Step s (.run call)
        { s with
          taken := Function.update s.taken call (s.taken call - 1)
          scheduled := Function.update s.scheduled call (s.scheduled call + 1) }
  | resume {s : Sleepers Ref} (call : Nat) :
      (s.resumed.map Prod.fst).count call < s.scheduled call →
      Step s (.resume call) { s with resumed := s.resumed ++ [(call, s.clock)] }

end Sleepers

/-- Every interleaving of the calls with the other tasks and the workers. -/
def sleepers (Ref : Type) [LinearOrder Ref] : System (Sleepers Ref) (Sleepers.Label Ref) where
  initial s := s.manager.m_timers = [] ∧ (∀ call, s.sleeps call = none) ∧
    (∀ call, s.taken call = 0 ∧ s.scheduled call = 0) ∧ s.resumed = []
  step := Sleepers.Step

namespace Sleepers

variable {Ref : Type}

/-! ## What every state keeps -/

/-- The timer of the call is in the set. -/
def Pending (s : Sleepers Ref) (call : Nat) (sleep : Sleep Ref) : Prop :=
  sleep.ref ∈ s.manager.m_timers ∧ (s.manager.timer sleep.ref).m_cb = some (.schedule call)

/-- A call waits for its timer, or its callback has been handed out once and schedules the fiber
once. -/
def Balanced (s : Sleepers Ref) (call : Nat) (sleep : Sleep Ref) : Prop :=
  s.Pending call sleep ∧ s.taken call = 0 ∧ s.scheduled call = 0 ∨
    ¬ s.Pending call sleep ∧ s.taken call + s.scheduled call = 1

variable [LinearOrder Ref]

structure Kept (s : Sleepers Ref) : Prop where
  sorted : s.manager.Sorted
  own : ∀ ref ∈ s.manager.m_timers, ∀ call,
    (s.manager.timer ref).m_cb = some (.schedule call) →
    ∃ sleep, s.sleeps call = some sleep ∧ sleep.ref = ref ∧
      (s.manager.timer ref).m_recurring = false ∧
      (s.manager.timer ref).m_next = sleep.calledAt + sleep.request.ms
  balanced : ∀ call sleep, s.sleeps call = some sleep → s.Balanced call sleep
  absent : ∀ call, s.sleeps call = none → s.taken call = 0 ∧ s.scheduled call = 0
  resumed : ∀ call, (s.resumed.map Prod.fst).count call ≤ s.scheduled call

section Step

variable {s next : Sleepers Ref} {ref : Ref} {manager : TimerManager Ref Callback}

/-- An operation on a timer that is not of a sleep, before and after. -/
structure Spares (ref : Ref) (m next : TimerManager Ref Callback) : Prop where
  sorted : next.Sorted
  touches : TimerManager.Touches ref m next
  before : ref ∈ m.m_timers → ¬ Asleep m ref
  after : ref ∈ next.m_timers → ¬ Asleep next ref

theorem Kept.spares (kept : s.Kept) (spares : Spares ref s.manager manager) :
    Kept { s with manager := manager } := by
  refine ⟨spares.sorted, ?_, ?_, kept.absent, kept.resumed⟩
  · intro other member call isSchedule
    dsimp only at member isSchedule ⊢
    by_cases same : other = ref
    · rw [same] at member isSchedule
      exact absurd ⟨call, isSchedule⟩ (spares.after member)
    · obtain ⟨inSet, timer⟩ := spares.touches other same
      rw [timer] at isSchedule ⊢
      exact kept.own other (inSet.mp member) call isSchedule
  · intro call sleep isSleep
    have pending : Pending { s with manager := manager } call sleep ↔ s.Pending call sleep := by
      by_cases same : sleep.ref = ref
      · rw [Pending, Pending, same]
        apply iff_of_false
        · exact fun both => spares.after both.1 ⟨call, both.2⟩
        · exact fun both => spares.before both.1 ⟨call, both.2⟩
      · obtain ⟨inSet, timer⟩ := spares.touches sleep.ref same
        rw [Pending, Pending, inSet, timer]
    rw [Balanced, pending]
    exact kept.balanced call sleep isSleep

theorem Kept.call (kept : s.Kept) {call : Nat} (request : Request) (now_ms : UInt64)
    (isNew : s.sleeps call = none) (fresh : ref ∉ s.manager.m_timers) :
    Kept { s with
      manager := (s.manager.addTimer ref request.ms (some (.schedule call)) false now_ms).1
      sleeps := Function.update s.sleeps call (some ⟨request, now_ms, ref⟩) } := by
  have member := TimerManager.addTimer_mem fresh request.ms (some (.schedule call)) false now_ms
  have self : (s.manager.addTimer ref request.ms (some (Callback.schedule call)) false
      now_ms).1.timer ref = _ := TimerManager.timer_addTimer_self ..
  have touches : TimerManager.Touches ref s.manager _ :=
    TimerManager.addTimer_touches request.ms (some (Callback.schedule call)) false now_ms
  have sorted := (TimerManager.addTimer_spec kept.sorted fresh request.ms
    (some (Callback.schedule call)) false now_ms).1
  generalize (s.manager.addTimer ref request.ms (some (Callback.schedule call)) false now_ms).1 =
    manager at member self touches sorted ⊢
  refine ⟨sorted, ?_, ?_, ?_, kept.resumed⟩
  · intro other inSet one isSchedule
    dsimp only at inSet isSchedule ⊢
    by_cases same : other = ref
    · rw [same, self] at isSchedule ⊢
      cases isSchedule
      exact ⟨_, Function.update_self .., rfl, rfl, rfl⟩
    · obtain ⟨inSetToo, timer⟩ := touches other same
      rw [timer] at isSchedule ⊢
      obtain ⟨sleep, isSleep, rest⟩ := kept.own other (inSetToo.mp inSet) one isSchedule
      have different : one ≠ call := by
        rintro rfl
        rw [isNew] at isSleep
        cases isSleep
      exact ⟨sleep, (Function.update_of_ne different ..).trans isSleep, rest⟩
  · intro one sleep isSleep
    dsimp only at isSleep
    by_cases same : one = call
    · rw [same, Function.update_self] at isSleep
      cases isSleep
      obtain ⟨taken, scheduled⟩ := kept.absent call isNew
      rw [same]
      left
      refine ⟨⟨member, ?_⟩, taken, scheduled⟩
      dsimp only
      rw [self]
      rfl
    · rw [Function.update_of_ne same] at isSleep
      have pending : (sleep.ref ∈ manager.m_timers ∧
          (manager.timer sleep.ref).m_cb = some (.schedule one)) ↔ s.Pending one sleep := by
        by_cases isRef : sleep.ref = ref
        · rw [Pending, isRef, self]
          apply iff_of_false
          · rintro ⟨-, isSchedule⟩
            cases isSchedule
            exact same rfl
          · exact fun both => fresh both.1
        · obtain ⟨inSet, timer⟩ := touches sleep.ref isRef
          rw [Pending, inSet, timer]
      rw [Balanced, Pending, pending]
      exact kept.balanced one sleep isSleep
  · intro one isNone
    dsimp only at isNone
    by_cases same : one = call
    · rw [same, Function.update_self] at isNone
      cases isNone
    · rw [Function.update_of_ne same] at isNone
      exact kept.absent one isNone

/-! ### Expiry -/

/-- One of the items has the value. -/
theorem count_map_of_unique {Item Value : Type} [DecidableEq Item] [BEq Value] [LawfulBEq Value]
    {f : Item → Value} {value : Value} {items : List Item} {item : Item} (nodup : items.Nodup)
    (member : item ∈ items) (unique : ∀ other ∈ items, f other = value ↔ other = item) :
    (items.map f).count value = 1 := by
  rw [← List.count_eq_one_of_mem nodup member, List.count, List.count, List.countP_map]
  apply List.countP_congr
  intro other isHere
  simpa using unique other isHere

/-- How many callbacks of a call an expiry hands out. -/
theorem Kept.count (kept : s.Kept) {now_ms : UInt64} {expired : List Ref}
    {cbs : List (Option Callback)}
    (expires : TimerManager.Expires now_ms expired s.manager manager cbs) (call : Nat) :
    cbs.count (some (.schedule call)) = 0 ∧
        (∀ ref ∈ expired, (s.manager.timer ref).m_cb ≠ some (.schedule call)) ∨
      cbs.count (some (.schedule call)) = 1 ∧ ∃ ref ∈ expired,
        (s.manager.timer ref).m_cb = some (.schedule call) := by
  rw [expires.callbacks]
  by_cases found : ∃ ref ∈ expired, (s.manager.timer ref).m_cb = some (.schedule call)
  · right
    obtain ⟨ref, member, isSchedule⟩ := found
    obtain ⟨sleep, isSleep, here, -⟩ := kept.own ref (expires.inSet ref member) call isSchedule
    refine ⟨count_map_of_unique expires.nodup member fun other isHere => ?_, ref, member, isSchedule⟩
    constructor
    · intro same
      obtain ⟨again, isAgain, there, -⟩ := kept.own other (expires.inSet other isHere) call same
      rw [isSleep, Option.some.injEq] at isAgain
      rw [← there, ← isAgain, here]
    · rintro rfl
      exact isSchedule
  · left
    have none : ∀ ref ∈ expired, (s.manager.timer ref).m_cb ≠ some (.schedule call) :=
      fun ref member isSchedule => found ⟨ref, member, isSchedule⟩
    refine ⟨List.count_eq_zero.mpr fun member => ?_, none⟩
    obtain ⟨ref, isExpired, isSchedule⟩ := List.mem_map.mp member
    exact none ref isExpired isSchedule

/-- A timer of a sleep is not recurring, so it leaves the set when it expires. -/
theorem Kept.asleep_iff (kept : s.Kept) {now_ms : UInt64} {expired : List Ref}
    {cbs : List (Option Callback)}
    (expires : TimerManager.Expires now_ms expired s.manager manager cbs) (ref : Ref) (call : Nat) :
    ref ∈ manager.m_timers ∧ (manager.timer ref).m_cb = some (.schedule call) ↔
      (ref ∈ s.manager.m_timers ∧ (s.manager.timer ref).m_cb = some (.schedule call)) ∧
        ref ∉ expired := by
  rw [expires.members, expires.timer]
  by_cases isExpired : ref ∈ expired
  · rw [if_pos isExpired]
    refine iff_of_false ?_ fun both => both.2 isExpired
    rintro ⟨⟨member, again⟩, isSchedule⟩
    rw [TimerManager.afterExpiry, if_pos (again isExpired)] at isSchedule
    obtain ⟨-, -, -, once, -⟩ := kept.own ref member call isSchedule
    rw [again isExpired] at once
    cases once
  · rw [if_neg isExpired]
    exact ⟨fun both => ⟨⟨both.1.1, both.2⟩, isExpired⟩,
      fun both => ⟨⟨both.1.1, fun isIn => absurd isIn isExpired⟩, both.1.2⟩⟩

theorem Kept.expire (kept : s.Kept) {now_ms : UInt64} {expired : List Ref}
    {cbs : List (Option Callback)}
    (expires : TimerManager.Expires now_ms expired s.manager manager cbs) :
    Kept { s with
      manager := manager
      taken := fun call => s.taken call + cbs.count (some (.schedule call)) } := by
  refine ⟨expires.sorted, ?_, ?_, ?_, kept.resumed⟩
  · intro ref member call isSchedule
    dsimp only at member isSchedule ⊢
    obtain ⟨⟨inSet, before⟩, left⟩ := (kept.asleep_iff expires ref call).mp ⟨member, isSchedule⟩
    rw [expires.timer, if_neg left]
    exact kept.own ref inSet call before
  · intro call sleep isSleep
    rw [Balanced, Pending, kept.asleep_iff expires]
    dsimp only
    have balanced := kept.balanced call sleep isSleep
    rcases kept.count expires call with ⟨count, none⟩ | ⟨count, ref, isExpired, isSchedule⟩
    · rw [count, Nat.add_zero]
      have left : s.Pending call sleep → sleep.ref ∉ expired := fun pending isExpired =>
        none sleep.ref isExpired pending.2
      exact balanced.imp (fun both => ⟨⟨both.1, left both.1⟩, both.2⟩)
        fun both => ⟨fun pending => both.1 pending.1, both.2⟩
    · have inSet := expires.inSet ref isExpired
      obtain ⟨own, isOwn, here, -⟩ := kept.own ref inSet call isSchedule
      rw [isSleep, Option.some.injEq] at isOwn
      rw [← isOwn] at here
      have pending : s.Pending call sleep := by
        rw [Pending, here]
        exact ⟨inSet, isSchedule⟩
      obtain ⟨taken, scheduled⟩ := (balanced.resolve_right fun both => both.1 pending).2
      right
      rw [count, taken, scheduled, here]
      exact ⟨fun both => both.2 isExpired, rfl⟩
  · intro call isNone
    obtain ⟨taken, scheduled⟩ := kept.absent call isNone
    dsimp only
    rcases kept.count expires call with ⟨count, -⟩ | ⟨-, ref, isExpired, isSchedule⟩
    · rw [count, taken]
      exact ⟨rfl, scheduled⟩
    · obtain ⟨sleep, isSleep, -⟩ := kept.own ref (expires.inSet ref isExpired) call isSchedule
      have isNone : s.sleeps call = none := isNone
      rw [isNone] at isSleep
      cases isSleep

theorem Kept.step {label : Label Ref} (kept : s.Kept) (stepped : Step s label next) : next.Kept := by
  cases stepped with
  | tick clock forward =>
      exact ⟨kept.sorted, kept.own, kept.balanced, kept.absent, kept.resumed⟩
  | call call request ref now_ms isNew fresh past => exact kept.call request now_ms isNew fresh
  | addTimer ref ms cb recurring now_ms fresh other =>
      apply @Kept.spares _ _ _ ref _ kept
      refine ⟨(TimerManager.addTimer_spec kept.sorted fresh ms cb recurring now_ms).1,
        TimerManager.addTimer_touches ms cb recurring now_ms, fun member => absurd member fresh, ?_⟩
      rintro - ⟨call, isSchedule⟩
      rw [TimerManager.timer_addTimer_self] at isSchedule
      exact other call isSchedule
  | cancel ref notAsleep done =>
      obtain ⟨touches, empty⟩ := TimerManager.cancel_touches done
      apply @Kept.spares _ _ _ ref _ kept
      refine ⟨(TimerManager.cancel_spec kept.sorted done).1, touches, fun _ => notAsleep, ?_⟩
      rintro - ⟨call, isSchedule⟩
      rw [empty] at isSchedule
      cases isSchedule
  | refresh ref notAsleep =>
      obtain ⟨touches, callback, -⟩ := TimerManager.refresh_touches s.manager ref s.clock
      apply @Kept.spares _ _ _ ref _ kept
      refine ⟨TimerManager.refresh_sorted kept.sorted s.clock, touches, fun _ => notAsleep, ?_⟩
      rintro - ⟨call, isSchedule⟩
      rw [callback] at isSchedule
      exact notAsleep ⟨call, isSchedule⟩
  | reset ref ms from_now notAsleep =>
      obtain ⟨touches, callback, -⟩ :=
        TimerManager.reset_touches s.manager ref ms from_now s.clock
      apply @Kept.spares _ _ _ ref _ kept
      refine ⟨(TimerManager.reset_spec kept.sorted ref ms from_now s.clock).1, touches,
        fun _ => notAsleep, ?_⟩
      rintro - ⟨call, isSchedule⟩
      rw [callback] at isSchedule
      exact notAsleep ⟨call, isSchedule⟩
  | getNextTimer => exact ⟨kept.sorted, kept.own, kept.balanced, kept.absent, kept.resumed⟩
  | expire now_ms now_timer past done =>
      exact kept.expire (TimerManager.listExpiredCb_expires kept.sorted done)
  | run call isTaken =>
      refine ⟨kept.sorted, kept.own, ?_, ?_, ?_⟩
      · intro one sleep isSleep
        have balanced := kept.balanced one sleep isSleep
        by_cases same : one = call
        · rw [same] at balanced
          rcases balanced with ⟨-, taken, -⟩ | ⟨gone, once⟩
          · omega
          · right
            refine ⟨same ▸ gone, ?_⟩
            dsimp only
            rw [same, Function.update_self, Function.update_self]
            omega
        · rw [Balanced]
          dsimp only
          rw [Function.update_of_ne same, Function.update_of_ne same]
          exact balanced
      · intro one isNone
        have different : one ≠ call := by
          rintro rfl
          have taken := (kept.absent one isNone).1
          omega
        dsimp only
        rw [Function.update_of_ne different, Function.update_of_ne different]
        exact kept.absent one isNone
      · intro one
        have bound := kept.resumed one
        dsimp only
        by_cases same : one = call
        · rw [same, Function.update_self]
          rw [same] at bound
          exact Nat.le_succ_of_le bound
        · rw [Function.update_of_ne same]
          exact bound
  | resume call left =>
      refine ⟨kept.sorted, kept.own, kept.balanced, kept.absent, fun one => ?_⟩
      dsimp only
      rw [List.map_append, List.count_append]
      by_cases same : one = call
      · rw [same, List.map_singleton, List.count_singleton_self]
        exact left
      · rw [List.map_singleton, List.count_singleton, if_neg (by simpa using Ne.symm same)]
        exact kept.resumed one

theorem reaches_kept {allowed : Sleepers Ref → Label Ref → Prop}
    (reached : (sleepers Ref).Reaches allowed s) : s.Kept := by
  apply reached.invariant Kept
  · rintro s ⟨empty, noSleep, nothing, noResumed⟩
    refine ⟨?_, ?_, ?_, fun call _ => nothing call, fun call => ?_⟩
    · rw [TimerManager.Sorted, empty]
      exact List.Pairwise.nil
    · intro ref member
      rw [empty] at member
      cases member
    · intro call sleep isSleep
      rw [noSleep] at isSleep
      cases isSleep
    · rw [noResumed]
      exact Nat.zero_le _
  · exact fun _ _ _ _ kept _ stepped => kept.step stepped

end Step

/-! ## The time that passes -/

/-- What the steps are asked for: the milliseconds fit an `unsigned int`, or the microseconds are
whole milliseconds, and the deadline does not wrap around; and an expiry finds every timer of a
sleep due, or does not take the clock to have rolled over. -/
def OnTime (s : Sleepers Ref) : Label Ref → Prop
  | .call _ request _ now_ms => request.Exact ∧ now_ms.toNat + request.ms.toNat < 2 ^ 64
  | .expire now_ms _ =>
      (∀ ref ∈ s.manager.m_timers, Asleep s.manager ref → (s.manager.timer ref).m_next ≤ now_ms) ∨
        s.manager.m_previouseTime ≤ now_ms ∨
          3600000 ≤ s.manager.m_previouseTime ∧ s.manager.m_previouseTime - 3600000 ≤ now_ms
  | _ => True

theorem expired_onTime_iff (s : Sleepers Ref) (now_ms : UInt64) (now_timer : Ref) :
    (∀ ref ∈ s.manager.expired now_ms now_timer, Asleep s.manager ref →
      (s.manager.timer ref).m_next ≤ now_ms) ↔ OnTime s (.expire now_ms now_timer) := by
  rw [TimerManager.expired_due_among_iff, TimerManager.detectClockRollOver_iff, OnTime]

/-- When the time that a call is to sleep has passed. -/
def Sleep.Over (sleep : Sleep Ref) (clock : UInt64) : Prop :=
  sleep.calledAt.toNat + sleep.request.required ≤ clock.toNat

instance (sleep : Sleep Ref) (clock : UInt64) : Decidable (sleep.Over clock) :=
  inferInstanceAs (Decidable (_ ≤ _))

/-- No callback is handed out, and no fiber resumed, before the time has passed. -/
structure Late (s : Sleepers Ref) : Prop where
  deadline : ∀ call sleep, s.sleeps call = some sleep →
    sleep.calledAt.toNat + sleep.request.required ≤ (sleep.calledAt + sleep.request.ms).toNat
  elapsed : ∀ call sleep, s.sleeps call = some sleep → 0 < s.taken call + s.scheduled call →
    sleep.Over s.clock
  resumed : ∀ call sleep time, s.sleeps call = some sleep → (call, time) ∈ s.resumed →
    sleep.Over time

section Late

variable {s next : Sleepers Ref}

theorem Late.expire (late : s.Late) (kept : s.Kept) {now_ms : UInt64} {now_timer : Ref}
    {manager : TimerManager Ref Callback} {cbs : List (Option Callback)}
    (onTime : OnTime s (.expire now_ms now_timer)) (past : now_ms ≤ s.clock)
    (done : s.manager.listExpiredCb now_ms now_timer = some (manager, cbs)) :
    Late { s with
      manager := manager
      taken := fun call => s.taken call + cbs.count (some (.schedule call)) } := by
  refine ⟨late.deadline, fun call sleep isSleep some => ?_, late.resumed⟩
  have expires := TimerManager.listExpiredCb_expires kept.sorted done
  dsimp only at isSleep some
  rcases kept.count expires call with ⟨count, -⟩ | ⟨-, ref, isExpired, isSchedule⟩
  · rw [count, Nat.add_zero] at some
    exact late.elapsed call sleep isSleep some
  · obtain ⟨own, isOwn, -, -, deadline⟩ :=
      kept.own ref (expires.inSet ref isExpired) call isSchedule
    rw [isSleep, Option.some.injEq] at isOwn
    have due := (expired_onTime_iff s now_ms now_timer).mpr onTime ref isExpired ⟨call, isSchedule⟩
    rw [deadline, ← isOwn, UInt64.le_iff_toNat_le] at due
    calc sleep.calledAt.toNat + sleep.request.required
        ≤ (sleep.calledAt + sleep.request.ms).toNat := late.deadline call sleep isSleep
      _ ≤ now_ms.toNat := due
      _ ≤ s.clock.toNat := UInt64.le_iff_toNat_le.mp past

theorem Late.step {label : Label Ref} (late : s.Late) (kept : s.Kept) (onTime : OnTime s label)
    (stepped : Step s label next) : next.Late := by
  cases stepped with
  | tick clock forward =>
      refine ⟨late.deadline, fun call sleep isSleep some => ?_, late.resumed⟩
      exact Nat.le_trans (late.elapsed call sleep isSleep some) (UInt64.le_iff_toNat_le.mp forward)
  | call call request ref now_ms isNew fresh past =>
      obtain ⟨taken, scheduled⟩ := kept.absent call isNew
      refine ⟨fun one sleep isSleep => ?_, fun one sleep isSleep some => ?_,
        fun one sleep time isSleep member => ?_⟩
      · dsimp only at isSleep
        by_cases same : one = call
        · rw [same, Function.update_self] at isSleep
          cases isSleep
          exact (request.deadline_iff now_ms).mpr onTime
        · rw [Function.update_of_ne same] at isSleep
          exact late.deadline one sleep isSleep
      · dsimp only at isSleep some
        by_cases same : one = call
        · rw [same, taken, scheduled] at some
          cases some
        · rw [Function.update_of_ne same] at isSleep
          exact late.elapsed one sleep isSleep some
      · dsimp only at isSleep member
        by_cases same : one = call
        · have count := kept.resumed call
          rw [scheduled] at count
          have here : call ∈ s.resumed.map Prod.fst := List.mem_map.mpr ⟨_, same ▸ member, rfl⟩
          exact absurd (List.count_pos_iff.mpr here) (Nat.not_lt.mpr count)
        · rw [Function.update_of_ne same] at isSleep
          exact late.resumed one sleep time isSleep member
  | expire now_ms now_timer past done => exact late.expire kept onTime past done
  | run call isTaken =>
      refine ⟨late.deadline, fun one sleep isSleep some => ?_, late.resumed⟩
      apply late.elapsed one sleep isSleep
      dsimp only at some
      by_cases same : one = call
      · rw [same]
        omega
      · rwa [Function.update_of_ne same, Function.update_of_ne same] at some
  | resume call left =>
      refine ⟨late.deadline, late.elapsed, fun one sleep time isSleep member => ?_⟩
      rcases List.mem_append.mp member with before | here
      · exact late.resumed one sleep time isSleep before
      · cases List.mem_singleton.mp here
        apply late.elapsed call sleep isSleep
        omega
  | _ => exact ⟨late.deadline, late.elapsed, late.resumed⟩

theorem reaches_late (reached : (sleepers Ref).Reaches OnTime s) : s.Late := by
  apply reached.invariant Late
  · rintro s ⟨-, noSleep, -, -⟩
    refine ⟨?_, ?_, ?_⟩
    · intro call sleep isSleep
      rw [noSleep] at isSleep
      cases isSleep
    · intro call sleep isSleep
      rw [noSleep] at isSleep
      cases isSleep
    · intro call sleep time isSleep
      rw [noSleep] at isSleep
      cases isSleep
  · exact fun _ _ _ before late onTime stepped => late.step (reaches_kept before) onTime stepped

/-- An expiry behind the deadline takes the timer out. -/
theorem Kept.due (kept : s.Kept) {call : Nat} {sleep : Sleep Ref} (pending : s.Pending call sleep)
    {now_ms : UInt64} (due : (s.manager.timer sleep.ref).m_next < now_ms) (now_timer : Ref) :
    sleep.ref ∈ s.manager.expired now_ms now_timer := by
  cases rollover : (s.manager.detectClockRollOver now_ms).1 with
  | true =>
      rw [TimerManager.expired, rollover, if_pos rfl]
      exact pending.1
  | false => exact (TimerManager.mem_expired_iff kept.sorted rollover).mpr ⟨pending.1, .inl due⟩

end Late

/-- In the runs that keep to the condition no fiber is resumed before the time has passed; and in
every run each call has its timer in the set, where an expiry behind the deadline finds it, or its
fiber is scheduled once.  A call that does not keep to the condition makes a deadline that is too
early, and an expiry that does not hands out the callback of a call too early. -/
theorem sleeps_on_time :
    (∀ s : Sleepers Ref, (sleepers Ref).Reaches OnTime s → ∀ call sleep time,
      s.sleeps call = some sleep → (call, time) ∈ s.resumed → sleep.Over time) ∧
    (∀ s : Sleepers Ref, (sleepers Ref).Reachable s → ∀ call sleep, s.sleeps call = some sleep →
      s.Balanced call sleep ∧ (s.resumed.map Prod.fst).count call ≤ s.scheduled call ∧
        (s.Pending call sleep → ∀ now_ms now_timer,
          (s.manager.timer sleep.ref).m_next < now_ms →
          sleep.ref ∈ s.manager.expired now_ms now_timer)) ∧
    (∀ (s : Sleepers Ref) (call : Nat) (request : Request) (ref : Ref) (now_ms : UInt64),
      now_ms.toNat + request.required ≤ (now_ms + request.ms).toNat ↔
        OnTime s (.call call request ref now_ms)) ∧
    ∀ (s : Sleepers Ref) (now_ms : UInt64) (now_timer : Ref),
      (∀ ref ∈ s.manager.expired now_ms now_timer, Asleep s.manager ref →
        (s.manager.timer ref).m_next ≤ now_ms) ↔ OnTime s (.expire now_ms now_timer) := by
  refine ⟨?_, ?_, ?_, expired_onTime_iff⟩
  · exact fun s reached => (reaches_late reached).resumed
  · intro s reached call sleep isSleep
    have kept := reaches_kept reached
    refine ⟨kept.balanced call sleep isSleep, kept.resumed call, ?_⟩
    exact fun pending now_ms now_timer due => kept.due pending due now_timer
  · exact fun s call request ref now_ms => request.deadline_iff now_ms

/-! ## One fiber -/

/-- No one sleeps yet. -/
def awake : Sleepers Nat :=
  ⟨⟨fun _ => {}, [], false, 0⟩, 0, fun _ => none, fun _ => 0, fun _ => 0, []⟩

theorem awake_reaches (allowed : Sleepers Nat → Label Nat → Prop) :
    (sleepers Nat).Reaches allowed awake :=
  .initial ⟨rfl, fun _ => rfl, fun _ => ⟨rfl, rfl⟩, rfl⟩

/-- A fiber sleeps for a second. -/
theorem sleeps_on_time_second : ∃ s : Sleepers Nat, s.resumed = [(0, 1000)] ∧
    Sleep.Over (⟨.sleep 1, 0, 0⟩ : Sleep Nat) 1000 ∧ s.Balanced 0 ⟨.sleep 1, 0, 0⟩ := by
  have called : (sleepers Nat).Reaches OnTime _ :=
    .step (awake_reaches OnTime) (by exact ⟨by decide, by decide⟩)
      (.call 0 (.sleep 1) 0 0 rfl List.not_mem_nil (by decide))
  have later : (sleepers Nat).Reaches OnTime _ :=
    .step called (by exact trivial) (.tick 1000 (by decide))
  have expired : (sleepers Nat).Reaches OnTime _ :=
    .step later (by exact .inr (.inl (by decide))) (.expire 1000 1 (by decide) rfl)
  have ran : (sleepers Nat).Reaches OnTime _ :=
    .step expired (by exact trivial) (.run 0 (by decide))
  have resumed : (sleepers Nat).Reaches OnTime _ :=
    .step ran (by exact trivial) (.resume 0 (by decide))
  have elapsed := sleeps_on_time.1 _ resumed 0 ⟨.sleep 1, 0, 0⟩ 1000 rfl (List.mem_singleton.mpr rfl)
  have reached : (sleepers Nat).Reachable _ := resumed.mono fun _ _ _ => trivial
  have balanced := (sleeps_on_time.2.1 _ reached 0 ⟨.sleep 1, 0, 0⟩ rfl).1
  refine ⟨_, ?_, elapsed, balanced⟩
  rfl

/-- `sleep(4294968)` lasts 704 milliseconds, and `usleep(999)` no time at all. -/
theorem resumed_early :
    (∃ s : Sleepers Nat, (sleepers Nat).Reachable s ∧
      s.sleeps 0 = some ⟨.sleep 4294968, 0, 0⟩ ∧ (0, 704) ∈ s.resumed ∧
      ¬ Sleep.Over (⟨.sleep 4294968, 0, 0⟩ : Sleep Nat) 704) ∧
    ∃ s : Sleepers Nat, (sleepers Nat).Reachable s ∧ s.sleeps 0 = some ⟨.usleep 999, 0, 0⟩ ∧
      (0, 0) ∈ s.resumed ∧ ¬ Sleep.Over (⟨.usleep 999, 0, 0⟩ : Sleep Nat) 0 := by
  constructor
  · have called : (sleepers Nat).Reachable _ :=
      .step (awake_reaches _) trivial
        (.call 0 (.sleep 4294968) 0 0 rfl List.not_mem_nil (by decide))
    have later : (sleepers Nat).Reachable _ := .step called trivial (.tick 704 (by decide))
    have expired : (sleepers Nat).Reachable _ :=
      .step later trivial (.expire 704 1 (by decide) rfl)
    have ran : (sleepers Nat).Reachable _ := .step expired trivial (.run 0 (by decide))
    have resumed : (sleepers Nat).Reachable _ := .step ran trivial (.resume 0 (by decide))
    exact ⟨_, resumed, rfl, List.mem_singleton.mpr rfl, by decide⟩
  · have called : (sleepers Nat).Reachable _ :=
      .step (awake_reaches _) trivial
        (.call 0 (.usleep 999) 0 0 rfl List.not_mem_nil (by decide))
    have expired : (sleepers Nat).Reachable _ :=
      .step called trivial (.expire 0 1 (by decide) rfl)
    have ran : (sleepers Nat).Reachable _ := .step expired trivial (.run 0 (by decide))
    have resumed : (sleepers Nat).Reachable _ := .step ran trivial (.resume 0 (by decide))
    exact ⟨_, resumed, rfl, List.mem_singleton.mpr rfl, by decide⟩

end Sleepers

end Exhy
