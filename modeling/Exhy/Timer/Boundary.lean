import Exhy.Timer.Calls
import Mathlib.Data.List.Perm.Subperm
import Mathlib.Logic.Equiv.Basic

/-!
# Timers that are due at the reading

`listExpiredCb` searches with a timer of its own, so the timers whose deadline is the reading
are told apart by their addresses from a timer that has just been allocated.  What it hands out
is described here for a set whose timers lie at any addresses.
-/

namespace Exhy

open Library

namespace TimerManager

variable {Ref Callback : Type}

/-- Another manager has the same timers, at the addresses that `place` gives them. -/
structure Places (place : Equiv.Perm Ref) (m other : TimerManager Ref Callback) : Prop where
  timer : ∀ ref, other.timer (place ref) = m.timer ref
  members : ∀ ref, place ref ∈ other.m_timers ↔ ref ∈ m.m_timers
  previouse : other.m_previouseTime = m.m_previouseTime

/-- What an expiry is to hand out, and what it is to leave: the callbacks of the timers of `m`
that are due, in the order of their deadlines, and the others with those that are armed again. -/
structure HandsOut (now_ms : UInt64) (place : Equiv.Perm Ref) (m next : TimerManager Ref Callback)
    (cbs : List (Option Callback)) : Prop where
  callbacks : ∃ due : List Ref, due.Nodup ∧
    (∀ ref, ref ∈ due ↔ ref ∈ m.m_timers ∧ (m.timer ref).m_next ≤ now_ms) ∧
    due.Pairwise (fun first second => (m.timer first).m_next ≤ (m.timer second).m_next) ∧
    cbs = due.map fun ref => (m.timer ref).m_cb
  members : ∀ ref, place ref ∈ next.m_timers ↔
    ref ∈ m.m_timers ∧ (now_ms < (m.timer ref).m_next ∨ (m.timer ref).m_recurring = true)
  timer : ∀ ref, place ref ∈ next.m_timers → next.timer (place ref) =
    if (m.timer ref).m_next ≤ now_ms then
      { m.timer ref with m_next := now_ms + (m.timer ref).m_ms }
    else m.timer ref

variable [LinearOrder Ref] {m other : TimerManager Ref Callback} {now_ms : UInt64} {now_timer : Ref}
  {place : Equiv.Perm Ref}

/-- Which timers an expiry takes out. -/
theorem mem_expired_iff (sorted : m.Sorted) (steady : (m.detectClockRollOver now_ms).1 = false)
    {ref : Ref} :
    ref ∈ m.expired now_ms now_timer ↔ ref ∈ m.m_timers ∧
      ((m.timer ref).m_next < now_ms ∨ (m.timer ref).m_next = now_ms ∧ ref ≤ now_timer) := by
  have upTo : ∀ ref, key m.timer ref ≤ toLex (now_ms.toNat, now_timer) ↔
      (m.timer ref).m_next < now_ms ∨ (m.timer ref).m_next = now_ms ∧ ref ≤ now_timer := by
    intro ref
    rw [key, Prod.Lex.toLex_le_toLex, UInt64.lt_iff_toNat_lt, UInt64.toNat_inj]
  rw [expired, steady, if_neg Bool.false_ne_true]
  split
  next nothing =>
    have empty : m.m_timers = [] := by
      rwa [earliest, Option.map_eq_none_iff, List.head?_eq_none_iff] at nothing
    rw [empty]
    exact iff_of_false List.not_mem_nil fun member => List.not_mem_nil member.1
  next deadline first =>
    split
    next early =>
      refine iff_of_false List.not_mem_nil ?_
      rintro ⟨member, due⟩
      have least := sorted.earliest_le first member
      have later : now_ms < (m.timer ref).m_next := UInt64.lt_of_lt_of_le early least
      rcases due with before | ⟨same, -⟩
      · exact UInt64.lt_asymm later before
      · exact UInt64.ne_of_lt later same.symm
    next => rw [Ordered.mem_takeUpTo_iff sorted, upTo]

theorem expired_pairwise (sorted : m.Sorted) :
    (m.expired now_ms now_timer).Pairwise
      (fun first second => (m.timer first).m_next ≤ (m.timer second).m_next) := by
  obtain ⟨kept, -, parts, -⟩ := listExpiredCbAlone_eq m now_ms now_timer
  have whole : (m.expired now_ms now_timer).Pairwise
      (fun first second => key m.timer first < key m.timer second) := by
    apply List.Pairwise.sublist (List.sublist_append_left _ kept)
    rw [parts]
    exact sorted
  apply whole.imp
  intro first second before
  rw [key, key, Prod.Lex.toLex_lt_toLex] at before
  rw [UInt64.le_iff_toNat_le]
  rcases before with before | ⟨same, -⟩
  · exact Nat.le_of_lt before
  · exact Nat.le_of_eq same

/-- The timers that are due at the reading lie below the timer of the search. -/
def Below (now_ms : UInt64) (place : Equiv.Perm Ref) (m : TimerManager Ref Callback)
    (now_timer : Ref) : Prop :=
  ∀ ref ∈ m.m_timers, (m.timer ref).m_next = now_ms → place ref < now_timer

/-- The timers that are taken out, in terms of `m`. -/
theorem mem_expired_place (sorted : other.Sorted)
    (steady : (m.detectClockRollOver now_ms).1 = false) (places : Places place m other)
    (below : Below now_ms place m now_timer) (ref : Ref) :
    place ref ∈ other.expired now_ms now_timer ↔
      ref ∈ m.m_timers ∧ (m.timer ref).m_next ≤ now_ms := by
  have same : (other.detectClockRollOver now_ms).1 = false := by
    rw [detectClockRollOver, places.previouse]
    exact steady
  rw [mem_expired_iff sorted same, places.members, places.timer]
  constructor
  · rintro ⟨member, before | ⟨equal, -⟩⟩
    · exact ⟨member, UInt64.le_of_lt before⟩
    · exact ⟨member, UInt64.le_of_eq equal⟩
  · rintro ⟨member, upTo⟩
    refine ⟨member, ?_⟩
    rcases UInt64.lt_or_eq_of_le upTo with before | equal
    · exact .inl before
    · exact .inr ⟨equal, le_of_lt (below ref member equal)⟩

/-- With the timers due at the reading below it, the search finds what is to be found. -/
theorem handsOut_of_below (sorted : other.Sorted)
    (steady : (m.detectClockRollOver now_ms).1 = false) (places : Places place m other)
    (below : Below now_ms place m now_timer) :
    ∃ next cbs, other.listExpiredCbAlone now_ms now_timer = some (next, cbs) ∧
      HandsOut now_ms place m next cbs := by
  obtain ⟨next, cbs, result, expires⟩ := listExpiredCbAlone_expires sorted now_ms now_timer
  have taken := mem_expired_place sorted steady places below
  have here : ∀ ref, next.timer (place ref) =
      if ref ∈ m.m_timers ∧ (m.timer ref).m_next ≤ now_ms then afterExpiry now_ms (m.timer ref)
      else m.timer ref := by
    intro ref
    rw [expires.timer, places.timer]
    exact if_congr (taken ref) rfl rfl
  have members : ∀ ref, place ref ∈ next.m_timers ↔ ref ∈ m.m_timers ∧
      (now_ms < (m.timer ref).m_next ∨ (m.timer ref).m_recurring = true) := by
    intro ref
    rw [expires.members, places.members, places.timer, taken]
    refine and_congr_right fun member => ?_
    rw [← UInt64.not_le, ← imp_iff_not_or]
    exact ⟨fun again upTo => again ⟨member, upTo⟩, fun again due => again due.2⟩
  have back : ∀ ref, m.timer (place.symm ref) = other.timer ref := by
    intro ref
    rw [← places.timer, Equiv.apply_symm_apply]
  refine ⟨next, cbs, result, ⟨(other.expired now_ms now_timer).map place.symm, ?_, ?_, ?_, ?_⟩,
    members, ?_⟩
  · exact expires.nodup.map place.symm.injective
  · intro ref
    rw [← taken, List.mem_map]
    constructor
    · rintro ⟨address, member, rfl⟩
      rwa [Equiv.apply_symm_apply]
    · exact fun member => ⟨place ref, member, Equiv.symm_apply_apply ..⟩
  · rw [List.pairwise_map]
    apply (expired_pairwise sorted).imp
    intro first second ordered
    rwa [back, back]
  · rw [expires.callbacks, List.map_map]
    exact List.map_congr_left fun ref _ => by rw [Function.comp, back]
  · intro ref member
    rw [here]
    by_cases upTo : (m.timer ref).m_next ≤ now_ms
    · obtain ⟨isHere, later | again⟩ := (members ref).mp member
      · exact absurd later (UInt64.not_lt.mpr upTo)
      · rw [if_pos ⟨isHere, upTo⟩, if_pos upTo, afterExpiry, if_pos again]
    · rw [if_neg fun due => upTo due.2, if_neg upTo]

/-- A timer that is due at the reading and lies above the timer of the search is left out. -/
theorem below_of_handsOut (sorted : other.Sorted)
    (steady : (m.detectClockRollOver now_ms).1 = false) (places : Places place m other)
    (fresh : now_timer ∉ other.m_timers) {next : TimerManager Ref Callback}
    {cbs : List (Option Callback)}
    (result : other.listExpiredCbAlone now_ms now_timer = some (next, cbs))
    (handsOut : HandsOut now_ms place m next cbs) : Below now_ms place m now_timer := by
  intro ref member atReading
  by_contra above
  obtain ⟨another, given, listed, expires⟩ := listExpiredCbAlone_expires sorted now_ms now_timer
  cases result.symm.trans listed
  obtain ⟨due, -, isDue, -, handed⟩ := handsOut.callbacks
  have same : (other.detectClockRollOver now_ms).1 = false := by
    rw [detectClockRollOver, places.previouse]
    exact steady
  have taken := fun address => @mem_expired_iff _ _ _ other now_ms now_timer sorted same address
  have back : ∀ address, m.timer (place.symm address) = other.timer address := by
    intro address
    rw [← places.timer, Equiv.apply_symm_apply]
  -- the timers that are taken out are due, and this one is not among them
  have inside : ∀ address ∈ other.expired now_ms now_timer,
      address ∈ (due.map place).erase (place ref) := by
    intro address isTaken
    obtain ⟨inSet, early⟩ := (taken address).mp isTaken
    have notHere : address ≠ place ref := by
      rintro rfl
      rw [places.timer, atReading] at early
      rcases early with before | ⟨-, upTo⟩
      · exact UInt64.lt_irrefl _ before
      · rcases lt_or_eq_of_le upTo with less | equal
        · exact above less
        · exact fresh (equal ▸ inSet)
    rw [List.mem_erase_of_ne notHere, List.mem_map]
    refine ⟨place.symm address, (isDue _).mpr ⟨?_, ?_⟩, Equiv.apply_symm_apply ..⟩
    · rwa [← places.members, Equiv.apply_symm_apply]
    · rw [back]
      rcases early with before | ⟨equal, -⟩
      · exact UInt64.le_of_lt before
      · exact UInt64.le_of_eq equal
  have fewer := (expires.nodup.subperm inside).length_le
  have isHere : place ref ∈ due.map place :=
    List.mem_map_of_mem ((isDue ref).mpr ⟨member, UInt64.le_of_eq atReading⟩)
  have counts := congrArg List.length (expires.callbacks.symm.trans handed)
  have some := List.length_pos_of_mem isHere
  rw [List.length_erase_of_mem isHere] at fewer
  simp only [List.length_map] at fewer counts some
  omega

/-- One timer moved to another address. -/
def moveTimer (m : TimerManager Ref Callback) (ref address : Ref) : TimerManager Ref Callback :=
  insert { m.erase ref with timer := m.timer ∘ Equiv.swap ref address } address

theorem places_moveTimer (sorted : m.Sorted) {ref address : Ref} (member : ref ∈ m.m_timers)
    (fresh : address ∉ m.m_timers) :
    (m.moveTimer ref address).Sorted ∧ Places (Equiv.swap ref address) m (m.moveTimer ref address) := by
  have erased : ∀ one, one ∈ (m.erase ref).m_timers ↔ one ∈ m.m_timers ∧ one ≠ ref := by
    intro one
    exact Ordered.mem_eraseBy_iff sorted member
  have apart : ∀ one ∈ (m.erase ref).m_timers, Equiv.swap ref address one = one := by
    intro one isHere
    obtain ⟨inSet, different⟩ := (erased one).mp isHere
    exact Equiv.swap_apply_of_ne_of_ne different fun same => fresh (same ▸ inSet)
  have keys : ({ m.erase ref with timer := m.timer ∘ Equiv.swap ref address } :
      TimerManager Ref Callback).Sorted := by
    apply Ordered.congr (sorted.erase ref)
    intro one isHere
    rw [key, key]
    dsimp only [Function.comp]
    rw [apart one isHere]
    rfl
  have absent : address ∉ (m.erase ref).m_timers := fun isHere =>
    fresh ((erased address).mp isHere).1
  have members : ∀ one, one ∈ (m.moveTimer ref address).m_timers ↔
      one ∈ m.m_timers ∧ one ≠ ref ∨ one = address := by
    intro one
    rw [← erased]
    by_cases same : one = address
    · rw [same]
      exact iff_of_true (mem_insert_self absent) (.inr rfl)
    · exact ((insert_touches one same).1).trans (or_iff_left same).symm
  refine ⟨keys.insert address, ?_, ?_, rfl⟩
  · intro one
    show m.timer (Equiv.swap ref address (Equiv.swap ref address one)) = m.timer one
    rw [Equiv.swap_apply_self]
  · intro one
    rw [members]
    by_cases isRef : one = ref
    · rw [isRef, Equiv.swap_apply_left]
      exact iff_of_true (.inr rfl) member
    · by_cases isAddress : one = address
      · rw [isAddress, Equiv.swap_apply_right]
        apply iff_of_false _ fresh
        rintro (⟨-, different⟩ | same)
        · exact different rfl
        · exact fresh (same ▸ member)
      · rw [Equiv.swap_apply_of_ne_of_ne isRef isAddress]
        constructor
        · rintro (⟨inSet, -⟩ | same)
          · exact inSet
          · exact absurd same isAddress
        · exact fun inSet => .inl ⟨inSet, isRef⟩

end TimerManager

namespace TimerCalls

open TimerManager

variable {Thread Ref Callback : Type} [DecidableEq Thread] [LinearOrder Ref]
  {s : TimerCalls Thread Ref Callback} {now_ms : UInt64}

/-- An expiry hands out what it is to hand out at whatever addresses the timers and the timer
of the search lie exactly when no timer is due at the reading itself. -/
theorem handsOut_iff (reached : (timerCalls Thread Ref Callback).Reachable s)
    (steady : (s.manager.detectClockRollOver now_ms).1 = false)
    (room : ∃ address, address ∉ s.manager.m_timers) :
    (∀ (place : Equiv.Perm Ref) (other : TimerManager Ref Callback) (now_timer : Ref),
      other.Sorted → Places place s.manager other → now_timer ∉ other.m_timers →
      ∃ next cbs, other.listExpiredCbAlone now_ms now_timer = some (next, cbs) ∧
        HandsOut now_ms place s.manager next cbs) ↔
      ∀ ref ∈ s.manager.m_timers, (s.manager.timer ref).m_next ≠ now_ms := by
  have sortedNow := (reaches_kept reached).sorted
  constructor
  · intro exactly ref member atReading
    obtain ⟨address, fresh⟩ := room
    have same : Places (Equiv.refl Ref) s.manager s.manager :=
      ⟨fun _ => rfl, fun _ => Iff.rfl, rfl⟩
    obtain ⟨next, cbs, result, handsOut⟩ := exactly _ _ address sortedNow same fresh
    have below := below_of_handsOut sortedNow steady same fresh result handsOut ref member atReading
    -- the same timer at the address of the search, and the search at the address of the timer
    obtain ⟨sorted, moved⟩ := places_moveTimer sortedNow member fresh
    have gone : ref ∉ (s.manager.moveTimer ref address).m_timers := by
      have there := moved.members address
      rw [Equiv.swap_apply_right] at there
      exact fun isHere => fresh (there.mp isHere)
    obtain ⟨nextMoved, cbsMoved, resultMoved, handsOutMoved⟩ := exactly _ _ ref sorted moved gone
    have above := below_of_handsOut sorted steady moved gone resultMoved handsOutMoved ref member
      atReading
    rw [Equiv.swap_apply_left] at above
    exact lt_asymm below above
  · intro apart place other now_timer sorted places fresh
    apply handsOut_of_below sorted steady places
    intro ref member atReading
    exact absurd atReading (apart ref member)

/-- A manager with one timer, at the address 1, that is due at 110. -/
def oneTimer : TimerCalls Unit Nat Unit where
  manager := ((constructed 50).manager.addTimer 1 10 (some ()) false 100).1
  start := Function.update (constructed 50).start 1 100
  waiting := (constructed 50).waiting
  emptied := fun _ => false
  stray := false

theorem oneTimer_reachable : (timerCalls Unit Nat Unit).Reachable oneTimer :=
  .step (constructed_reaches _ 50) trivial
    ⟨rfl, .addTimer 1 10 (some ()) false 100 List.not_mem_nil⟩

/-- Five milliseconds after its deadline the timer is handed out, wherever the search lies. -/
theorem handsOut_iff_early :
    ∃ next cbs, oneTimer.manager.listExpiredCbAlone 115 0 = some (next, cbs) ∧
      HandsOut 115 (Equiv.refl Nat) oneTimer.manager next cbs :=
  (handsOut_iff oneTimer_reachable (by decide) ⟨0, by decide⟩).mpr (by decide) (Equiv.refl Nat)
    oneTimer.manager 0 (reaches_kept oneTimer_reachable).sorted
    ⟨fun _ => rfl, fun _ => Iff.rfl, rfl⟩ (by decide)

/-- At 110 the callback is handed out or not, as the search lies behind the timer or in front. -/
theorem handsOut_tied :
    (timerCalls Unit Nat Unit).Reachable oneTimer ∧
      (oneTimer.manager.detectClockRollOver 110).1 = false ∧
      (oneTimer.manager.timer 1).m_next ≤ 110 ∧
      (oneTimer.manager.listExpiredCbAlone 110 0).map Prod.snd = some [] ∧
      (oneTimer.manager.listExpiredCbAlone 110 2).map Prod.snd = some [some ()] :=
  ⟨oneTimer_reachable, by decide, by decide, by decide, by decide⟩

end TimerCalls

end Exhy
