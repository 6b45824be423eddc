import Exhy.Library.CString
import Exhy.Library.Transition

/-!
# The start of threads

`Scheduler::start` makes its threads, and the constructor of each waits for `Thread::run`, which
runs on the new thread meanwhile.  The caller holds the mutex of the scheduler, and is one of the
parties; each new thread is another.
-/

namespace Exhy.Threads

open Library

/-- Where `Thread::run` is: behind the names, `m_id`, the swap of `m_cb`, `notify` and the call. -/
inductive Point where
  | entered
  | named
  | identified
  | swapped
  | notified
  | called
  deriving DecidableEq, Repr

/-- How far it is. -/
def Point.toNat : Point → Nat
  | .entered => 0
  | .named => 1
  | .identified => 2
  | .swapped => 3
  | .notified => 4
  | .called => 5

/-- The object of a thread: there, destroyed, or used behind that, which is undefined. -/
inductive Object where
  | alive
  | gone
  | used
  deriving DecidableEq, Repr

/-- A `Thread` with the thread that it made: `m_cb` is whether the callback is there, `cb` whether
it is in the local one, and `calls` how often it was called. -/
structure Thread where
  m_name : Bytes
  m_id : Int := -1
  m_cb : Bool := true
  m_semaphore : Nat := 0
  t_thread_name : Bytes := ascii "UNKNOW"
  cb : Bool := false
  calls : Nat := 0
  point : Point := .entered
  object : Object := .alive
  deriving DecidableEq, Repr

/-- A step that uses the object. -/
def Thread.use (thread next : Thread) : Option Thread :=
  match thread.object with
  | .alive => some next
  | .gone => some { thread with object := .used }
  | .used => none

/-- A step of `Thread::run`, on the thread whose `GetThreadId` is `tid`. -/
def Thread.step (tid : Int) (thread : Thread) : Option Thread :=
  match thread.point with
  | .entered => thread.use { thread with t_thread_name := thread.m_name, point := .named }
  | .named => thread.use { thread with m_id := tid, point := .identified }
  | .identified =>
      thread.use { thread with cb := thread.m_cb, m_cb := thread.cb, point := .swapped }
  | .swapped => thread.use { thread with m_semaphore := thread.m_semaphore + 1, point := .notified }
  | .notified => some
      { thread with calls := thread.calls + (if thread.cb then 1 else 0), point := .called }
  | .called => none

/-- Where `start()` is: in front of the next thread, in the constructor of one, or behind. -/
inductive Caller where
  | creating
  | waiting
  | returned
  | threw
  deriving DecidableEq, Repr

/-- `constructed` counts the constructors that have returned. -/
structure State where
  threads : List Thread := []
  constructed : Nat := 0
  m_threadIds : List Int
  caller : Caller := .creating
  deriving DecidableEq, Repr

/-- `pthread_create` succeeds or not, `sem_wait` takes the semaphore or is interrupted, the loop
ends, and a thread goes on.  The constructor that is interrupted destroys its object. -/
inductive Label where
  | create (succeeds : Bool)
  | wait
  | interrupt
  | finish
  | run (thread : Nat)
  deriving DecidableEq, Repr

/-- The scheduler that is started, and the ids that the system gives the threads. -/
structure Setting where
  m_name : Bytes
  m_threadCount : Nat
  m_threadIds : List Int
  tid : Nat → Int

/-- `m_name + "_" + std::to_string(i)` -/
def Setting.name (setting : Setting) (i : Nat) : Bytes :=
  setting.m_name ++ ascii "_" ++ decimal i

def State.perform (setting : Setting) (s : State) : Label → Option State
  | .create succeeds =>
      if s.caller = .creating ∧ s.constructed < setting.m_threadCount then
        if succeeds then some
          { s with
            threads := s.threads ++ [{ m_name := setting.name s.constructed }]
            caller := .waiting }
        else some { s with caller := .threw }
      else none
  | .wait =>
      if s.caller = .waiting then
        match s.threads[s.constructed]? with
        | none => none
        | some thread =>
            match thread.m_semaphore with
            | 0 => none
            | left + 1 => some
                { threads := s.threads.set s.constructed { thread with m_semaphore := left }
                  constructed := s.constructed + 1
                  m_threadIds := s.m_threadIds ++ [thread.m_id]
                  caller := .creating }
      else none
  | .interrupt =>
      if s.caller = .waiting then
        match s.threads[s.constructed]? with
        | none => none
        | some thread => some
            { s with
              threads := s.threads.set s.constructed { thread with object := .gone }
              caller := .threw }
      else none
  | .finish =>
      if s.caller = .creating ∧ s.constructed = setting.m_threadCount then
        some { s with caller := .returned }
      else none
  | .run i =>
      match s.threads[i]? with
      | none => none
      | some thread => (thread.step (setting.tid i)).map fun next =>
          { s with threads := s.threads.set i next }

def system (setting : Setting) : System State Label where
  initial s := s = { m_threadIds := setting.m_threadIds }
  step s label next := s.perform setting label = some next

/-! ## What a thread is at each point -/

/-- A thread at a point, whose constructor has returned or not, with its object. -/
def Thread.at (tid : Int) (name : Bytes) (point : Point) (constructed : Bool) (object : Object) :
    Thread where
  m_name := name
  m_id := if 2 ≤ point.toNat then tid else -1
  m_cb := point.toNat < 3
  m_semaphore := (if 4 ≤ point.toNat then 1 else 0) - if constructed then 1 else 0
  t_thread_name := if 1 ≤ point.toNat then name else ascii "UNKNOW"
  cb := 3 ≤ point.toNat
  calls := if 5 ≤ point.toNat then 1 else 0
  point := point
  object := object

/-- A step leads from a point to the next one, or uses an object that is gone, which it does in
front of `notify` only. -/
structure Thread.Next (tid : Int) (name : Bytes) (point : Point) (constructed : Bool)
    (object : Object) (next : Thread) : Prop where
  isAt : next = .at tid name next.point constructed next.object
  further : point.toNat ≤ next.point.toNat
  alive : object = .alive → next.object = .alive
  used : next.object = .used → (object = .used → point.toNat < 4) → next.point.toNat < 4

theorem Thread.next_of_use {tid : Int} {name : Bytes} {point : Point} {constructed : Bool}
    {object : Object} {after next : Thread} (further : Point)
    (isAt : after = .at tid name further constructed object)
    (isFurther : point.toNat ≤ further.toNat) (early : point.toNat < 4)
    (step : (Thread.at tid name point constructed object).use after = some next) :
    Thread.Next tid name point constructed object next := by
  subst isAt
  cases object with
  | alive =>
      cases step
      exact ⟨rfl, isFurther, id, nofun⟩
  | gone =>
      cases step
      exact ⟨rfl, Nat.le_refl _, nofun, fun _ _ => early⟩
  | used => cases step

/-- A constructor has returned behind `notify` only. -/
theorem Thread.step_at {tid : Int} {name : Bytes} {point : Point} {constructed : Bool}
    {object : Object} {next : Thread} (late : constructed = true → 4 ≤ point.toNat)
    (step : (Thread.at tid name point constructed object).step tid = some next) :
    Thread.Next tid name point constructed object next := by
  have early : point.toNat < 4 → constructed = false := by
    intro few
    cases constructed with
    | false => rfl
    | true => exact absurd (late rfl) (Nat.not_le_of_lt few)
  cases point with
  | entered =>
      cases early (by decide)
      exact Thread.next_of_use .named rfl (by decide) (by decide) step
  | named =>
      cases early (by decide)
      exact Thread.next_of_use .identified rfl (by decide) (by decide) step
  | identified =>
      cases early (by decide)
      exact Thread.next_of_use .swapped rfl (by decide) (by decide) step
  | swapped =>
      cases early (by decide)
      exact Thread.next_of_use .notified rfl (by decide) (by decide) step
  | notified =>
      cases step
      refine ⟨rfl, show 4 ≤ 5 by decide, id, fun isUsed early => ?_⟩
      exact absurd (early isUsed) (by decide)
  | called => cases step

/-! ## Every interleaving -/

/-- What a thread is among the others: that of its point, behind `notify` where its constructor has
returned, and with its object unless that constructor threw. -/
structure Fits (setting : Setting) (constructed : Nat) (caller : Caller) (i : Nat)
    (thread : Thread) : Prop where
  isAt : thread = .at (setting.tid i) (setting.name i) thread.point (decide (i < constructed))
    thread.object
  late : i < constructed → 4 ≤ thread.point.toNat
  gone : thread.object ≠ .alive → caller = .threw ∧ i = constructed
  used : thread.object = .used → thread.point.toNat < 4

structure Inv (setting : Setting) (s : State) : Prop where
  threads : ∀ (i : Nat) (thread : Thread), s.threads[i]? = some thread →
    Fits setting s.constructed s.caller i thread
  ids : s.m_threadIds = setting.m_threadIds ++ (List.range s.constructed).map setting.tid
  within : s.constructed ≤ s.threads.length ∧ s.constructed ≤ setting.m_threadCount
  creating : s.caller = .creating → s.threads.length = s.constructed
  waiting : s.caller = .waiting → s.threads.length = s.constructed + 1 ∧
    s.constructed < setting.m_threadCount
  returned : s.caller = .returned → s.constructed = setting.m_threadCount

section Steps

variable {setting : Setting} {s next : State} {count i : Nat} {place : Caller}
  {thread : Thread}

theorem Fits.alive (fits : Fits setting count place i thread) (runs : place ≠ .threw) :
    thread.object = .alive := by
  by_contra isGone
  exact runs (fits.gone isGone).1

theorem Fits.caller (fits : Fits setting count place i thread) (runs : place ≠ .threw)
    (after : Caller) : Fits setting count after i thread where
  isAt := fits.isAt
  late := fits.late
  gone isGone := absurd (fits.alive runs) isGone
  used := fits.used

/-- Another constructor returns. -/
theorem Fits.constructed (fits : Fits setting count place i thread) (runs : place ≠ .threw)
    (other : i ≠ count) (after : Caller) :
    Fits setting (count + 1) after i thread where
  isAt := by
    have before : decide (i < count + 1) = decide (i < count) := by
      rw [decide_eq_decide]
      omega
    rw [before]
    exact fits.isAt
  late isBefore := fits.late (by omega)
  gone isGone := absurd (fits.alive runs) isGone
  used := fits.used

/-- A thread moves and the others stay. -/
theorem fits_set {threads : List Thread} {after : Thread} (within : i < threads.length)
    (fits : Fits setting count place i after)
    (others : ∀ (j : Nat) (other : Thread), j ≠ i → threads[j]? = some other →
      Fits setting count place j other)
    (j : Nat) (other : Thread) (isOther : (threads.set i after)[j]? = some other) :
    Fits setting count place j other := by
  by_cases same : i = j
  · subst same
    rw [List.getElem?_set_self within] at isOther
    cases isOther
    exact fits
  · rw [List.getElem?_set_ne same] at isOther
    exact others j other (Ne.symm same) isOther

theorem inv_start : Inv setting { m_threadIds := setting.m_threadIds } where
  threads _ _ isThread := by cases isThread
  ids := (List.append_nil _).symm
  within := ⟨Nat.le_refl _, Nat.zero_le _⟩
  creating _ := rfl
  waiting isWaiting := by cases isWaiting
  returned isReturned := by cases isReturned

/-- `start` ends, with all threads or by an exception. -/
theorem Inv.leave (inv : Inv setting s) (runs : s.caller ≠ .threw)
    (ends : place = .threw ∨ place = .returned ∧ s.constructed = setting.m_threadCount) :
    Inv setting { s with caller := place } where
  threads i thread isThread := (inv.threads i thread isThread).caller runs place
  ids := inv.ids
  within := inv.within
  creating isCreating := by
    rcases ends with rfl | ⟨rfl, -⟩ <;> cases isCreating
  waiting isWaiting := by
    rcases ends with rfl | ⟨rfl, -⟩ <;> cases isWaiting
  returned isReturned := by
    rcases ends with rfl | ⟨-, all⟩
    · cases isReturned
    · exact all

theorem Inv.create {succeeds : Bool} (inv : Inv setting s)
    (done : s.perform setting (.create succeeds) = some next) : Inv setting next := by
  rw [State.perform] at done
  split at done
  · rename_i ready
    have length := inv.creating ready.1
    have runs : s.caller ≠ .threw := by simp [ready.1]
    split at done
    · cases done
      constructor
      case threads =>
        intro i thread isThread
        rw [List.getElem?_append] at isThread
        split at isThread
        · exact (inv.threads i thread isThread).caller runs .waiting
        · rename_i beyond
          rw [List.getElem?_singleton] at isThread
          split at isThread
          · rename_i isLast
            have isNew : i = s.constructed := by omega
            cases isThread
            subst isNew
            refine ⟨?_, fun before => absurd before (Nat.lt_irrefl _), fun isGone => ?_, nofun⟩
            · rw [decide_eq_false (Nat.lt_irrefl _)]
              rfl
            · exact absurd rfl isGone
          · cases isThread
      case ids => exact inv.ids
      case within =>
        have within := inv.within
        rw [List.length_append]
        exact ⟨Nat.le_add_right_of_le within.1, within.2⟩
      case creating =>
        intro isCreating
        cases isCreating
      case waiting =>
        intro _
        rw [List.length_append, length]
        exact ⟨rfl, ready.2⟩
      case returned =>
        intro isReturned
        cases isReturned
    · cases done
      exact inv.leave runs (.inl rfl)
  · cases done

/-- The semaphore is one where `notify` was called, and then taken. -/
theorem Fits.take {left : Nat} (fits : Fits setting count .waiting count thread)
    (positive : thread.m_semaphore = left + 1) :
    Fits setting (count + 1) .creating count { thread with m_semaphore := left } ∧
      thread.m_id = setting.tid count := by
  have isAt := fits.isAt
  rw [decide_eq_false (Nat.lt_irrefl _)] at isAt
  have notified : 4 ≤ thread.point.toNat := by
    rw [isAt] at positive
    simp only [Thread.at] at positive
    split at positive
    · assumption
    · cases positive
  have single : left = 0 := by
    rw [isAt] at positive
    simp only [Thread.at, notified, if_true] at positive
    simpa using positive
  have alive := fits.alive nofun
  refine ⟨⟨?_, fun _ => notified, fun isGone => absurd alive isGone, fits.used⟩, ?_⟩
  · rw [decide_eq_true (Nat.lt_add_one _)]
    conv_lhs => rw [isAt]
    simp [Thread.at, single, notified]
  · rw [isAt]
    exact if_pos (by omega)

theorem Inv.wait (inv : Inv setting s) (done : s.perform setting .wait = some next) :
    Inv setting next := by
  rw [State.perform] at done
  split at done
  · rename_i isWaiting
    obtain ⟨length, few⟩ := inv.waiting isWaiting
    have runs : s.caller ≠ .threw := by simp [isWaiting]
    split at done
    · cases done
    · rename_i thread isThread
      split at done
      · cases done
      · rename_i left positive
        cases done
        obtain ⟨fits, isId⟩ := (isWaiting ▸ inv.threads _ thread isThread).take positive
        constructor
        case threads =>
          apply fits_set (by omega) fits
          intro j other isOther isThread
          exact (inv.threads j other isThread).constructed runs isOther .creating
        case ids =>
          dsimp only
          rw [inv.ids, isId, List.range_succ, List.map_append, List.append_assoc]
          rfl
        case within =>
          dsimp only
          rw [List.length_set]
          exact ⟨by omega, few⟩
        case creating =>
          intro _
          rw [List.length_set]
          exact length
        case waiting =>
          intro isWaiting
          cases isWaiting
        case returned =>
          intro isReturned
          cases isReturned
  · cases done

/-- The constructor that is interrupted leaves its thread without an object. -/
theorem Inv.interrupt (inv : Inv setting s) (done : s.perform setting .interrupt = some next) :
    Inv setting next := by
  rw [State.perform] at done
  split at done
  · rename_i isWaiting
    obtain ⟨length, few⟩ := inv.waiting isWaiting
    have runs : s.caller ≠ .threw := by simp [isWaiting]
    split at done
    · cases done
    · rename_i thread isThread
      cases done
      have fits := inv.threads _ thread isThread
      have gone : Fits setting s.constructed .threw s.constructed { thread with object := .gone } :=
        { isAt := by
            conv_lhs => rw [fits.isAt]
            rfl
          late := fits.late
          gone := fun _ => ⟨rfl, rfl⟩
          used := nofun }
      constructor
      case threads =>
        apply fits_set (by omega) gone
        exact fun j other _ isOther => (inv.threads j other isOther).caller runs .threw
      case ids => exact inv.ids
      case within =>
        rw [List.length_set]
        exact inv.within
      case creating =>
        intro isCreating
        cases isCreating
      case waiting =>
        intro isWaiting
        cases isWaiting
      case returned =>
        intro isReturned
        cases isReturned
  · cases done

/-- A step of a thread. -/
theorem Fits.step {after : Thread} (fits : Fits setting count place i thread)
    (isAfter : thread.step (setting.tid i) = some after) :
    Fits setting count place i after := by
  rw [fits.isAt] at isAfter
  have moved := Thread.step_at (fun isBefore => fits.late (of_decide_eq_true isBefore)) isAfter
  refine ⟨moved.isAt, fun isBefore => Nat.le_trans (fits.late isBefore) moved.further, ?_, ?_⟩
  · exact fun isGone => fits.gone fun isAlive => isGone (moved.alive isAlive)
  · exact fun isUsed => moved.used isUsed fits.used

theorem Inv.run (inv : Inv setting s) (done : s.perform setting (.run i) = some next) :
    Inv setting next := by
  rw [State.perform] at done
  split at done
  · cases done
  · rename_i thread isThread
    obtain ⟨after, isAfter, rfl⟩ := Option.map_eq_some_iff.mp done
    obtain ⟨within, -⟩ := List.getElem?_eq_some_iff.mp isThread
    constructor
    case threads =>
      apply fits_set within ((inv.threads i thread isThread).step isAfter)
      exact fun j other _ => inv.threads j other
    case ids => exact inv.ids
    case within =>
      rw [List.length_set]
      exact inv.within
    case creating =>
      rw [List.length_set]
      exact inv.creating
    case waiting =>
      rw [List.length_set]
      exact inv.waiting
    case returned => exact inv.returned

theorem Inv.perform {label : Label} (inv : Inv setting s)
    (done : s.perform setting label = some next) : Inv setting next := by
  cases label with
  | create succeeds => exact inv.create done
  | wait => exact inv.wait done
  | interrupt => exact inv.interrupt done
  | finish =>
      rw [State.perform] at done
      split at done
      · rename_i ready
        cases done
        exact inv.leave (by simp [ready.1]) (.inr ⟨rfl, ready.2⟩)
      · cases done
  | run i => exact inv.run done

theorem Inv.of_reachable (reached : (system setting).Reachable s) : Inv setting s := by
  apply reached.invariant
  · rintro first rfl
    exact inv_start
  · intro state label after _ inv _ done
    exact inv.perform done

/-- A thread has a step until its callback was called, unless it used an object that was gone. -/
theorem Thread.exists_step {tid : Int} (early : thread.point ≠ .called)
    (defined : thread.object ≠ .used) : ∃ next, thread.step tid = some next := by
  have use (after : Thread) : ∃ next, thread.use after = some next := by
    rw [Thread.use]
    cases isObject : thread.object with
    | used => exact absurd isObject defined
    | _ => exact ⟨_, rfl⟩
  rw [Thread.step]
  cases point : thread.point with
  | called => exact absurd point early
  | notified => exact ⟨_, rfl⟩
  | _ => exact use _

/-- The constructor that waits is let go in the end: the semaphore is there, or its thread goes
on. -/
theorem Inv.goes_on (inv : Inv setting s) (isWaiting : s.caller = .waiting) :
    ∃ label ∈ [.wait, .run s.constructed], ∃ next, s.perform setting label = some next := by
  obtain ⟨length, -⟩ := inv.waiting isWaiting
  have isThread : s.threads[s.constructed]? = some (s.threads.get ⟨s.constructed, by omega⟩) :=
    List.getElem?_eq_getElem (by omega)
  generalize s.threads.get ⟨s.constructed, by omega⟩ = thread at isThread
  have fits := inv.threads _ thread isThread
  have alive := fits.alive (by simp [isWaiting])
  by_cases notified : 4 ≤ thread.point.toNat
  · have isAt := fits.isAt
    rw [decide_eq_false (Nat.lt_irrefl _)] at isAt
    have single : thread.m_semaphore = 1 := by
      rw [isAt]
      simp [Thread.at, notified]
    refine ⟨.wait, List.mem_cons_self, ?_⟩
    rw [State.perform, if_pos isWaiting, isThread]
    dsimp only
    rw [single]
    exact ⟨_, rfl⟩
  · have early : thread.point ≠ .called := by
      intro isCalled
      rw [isCalled] at notified
      exact notified (by decide)
    obtain ⟨after, isAfter⟩ := Thread.exists_step early (by simp [alive])
    refine ⟨.run s.constructed, List.mem_cons_of_mem _ List.mem_cons_self, ?_⟩
    rw [State.perform, isThread]
    dsimp only
    rw [isAfter]
    exact ⟨_, rfl⟩

end Steps

/-- In every interleaving, also with failures: the ids are those of the threads whose constructors
have returned, none of which uses its object again, and all where `start` returns; each thread goes
on until its callback was called once, but for the one whose constructor threw in `wait`, where it
uses its object again; and a constructor that waits is let go by the thread that it made. -/
structure Right (setting : Setting) (s : State) : Prop where
  ids : s.m_threadIds = setting.m_threadIds ++ (List.range s.constructed).map setting.tid
  returned : s.caller = .returned → s.constructed = setting.m_threadCount
  constructed : ∀ i < s.constructed, ∃ thread : Thread, s.threads[i]? = some thread ∧
    thread.m_id = setting.tid i ∧ thread.t_thread_name = setting.name i ∧ thread.m_cb = false ∧
      (thread.point = .notified ∨ thread.point = .called)
  calls : ∀ (i : Nat) (thread : Thread), s.threads[i]? = some thread →
    thread.calls = if thread.point = .called then 1 else 0
  ends : ∀ (i : Nat) (thread : Thread), s.threads[i]? = some thread →
    thread.point = .called ∨ thread.object = .used ∨ ∃ next, (system setting).step s (.run i) next
  gone : ∀ (i : Nat) (thread : Thread), s.threads[i]? = some thread → thread.object ≠ .alive →
    s.caller = .threw ∧ i = s.constructed
  used : ∀ (i : Nat) (thread : Thread), s.threads[i]? = some thread → thread.object = .used →
    thread.calls = 0
  goesOn : s.caller = .waiting →
    ∃ label ∈ [.wait, .run s.constructed], ∃ next, (system setting).step s label next

theorem started {setting : Setting} {s : State} (reached : (system setting).Reachable s) :
    Right setting s := by
  have inv := Inv.of_reachable reached
  constructor
  case ids => exact inv.ids
  case returned => exact inv.returned
  case constructed =>
    intro i before
    have within := inv.within.1
    have isThread : s.threads[i]? = some (s.threads.get ⟨i, by omega⟩) :=
      List.getElem?_eq_getElem (by omega)
    generalize s.threads.get ⟨i, by omega⟩ = thread at isThread
    have fits := inv.threads i thread isThread
    have late := fits.late before
    refine ⟨thread, isThread, ?_, ?_, ?_, ?_⟩
    · rw [fits.isAt]
      exact if_pos (by omega)
    · rw [fits.isAt]
      exact if_pos (by omega)
    · rw [fits.isAt]
      exact decide_eq_false (by omega)
    · cases point : thread.point with
      | notified => exact .inl rfl
      | called => exact .inr rfl
      | _ =>
          rw [point] at late
          exact absurd late (by decide)
  case calls =>
    intro i thread isThread
    rw [(inv.threads i thread isThread).isAt]
    cases thread.point <;> rfl
  case ends =>
    intro i thread isThread
    by_cases isCalled : thread.point = .called
    · exact .inl isCalled
    · by_cases isUsed : thread.object = .used
      · exact .inr (.inl isUsed)
      · obtain ⟨after, isAfter⟩ := Thread.exists_step isCalled isUsed
        refine .inr (.inr (Option.isSome_iff_exists.mp ?_))
        rw [State.perform, isThread]
        dsimp only
        rw [isAfter]
        rfl
  case gone => exact fun i thread isThread => (inv.threads i thread isThread).gone
  case used =>
    intro i thread isThread isUsed
    have fits := inv.threads i thread isThread
    have early := fits.used isUsed
    rw [fits.isAt]
    exact if_neg (by omega)
  case goesOn => exact inv.goes_on

/-- A second thread is made while the first one calls its callback. -/
theorem started_two : ∃ s : State, s.m_threadIds = [100, 101] ∧
    Right ⟨ascii "io", 2, [], fun i => 100 + i⟩ s := by
  have start : (system ⟨ascii "io", 2, [], fun i => 100 + i⟩).Reachable { m_threadIds := [] } :=
    .initial rfl
  have reached := start.foldlM (fun _ _ _ => id)
    (show [Label.create true, .run 0, .run 0, .run 0, .run 0, .wait, .create true, .run 0, .run 1,
      .run 1, .run 1, .run 1, .wait, .finish].foldlM
        (State.perform ⟨ascii "io", 2, [], fun i => 100 + i⟩) { m_threadIds := [] } = some _
      from rfl)
  exact ⟨_, rfl, started reached⟩

/-- The thread of a constructor that is interrupted names itself from what is gone. -/
example : ([Label.create true, .interrupt, .run 0].foldlM
    (State.perform ⟨ascii "io", 1, [], fun _ => 100⟩) { m_threadIds := [] }).map
      (fun s => (s.caller, s.threads.map Thread.object)) = some (.threw, [.used]) := by rfl

end Exhy.Threads
