import Exhy.Library.Transition
import Mathlib.Data.List.Basic
import Mathlib.Logic.Function.Basic
import Mathlib.Logic.Relation

/-!
# Locks that are taken in order

Tasks that run on threads take and release locks, in scopes, and are switched out between them.  If
the locks have ranks, each scope takes one above those that are held, and no task is switched out
inside a scope, then a thread that waits does so for one that can go on.
-/

namespace Library.LockOrder

universe u v w

/-- What a task does with the locks; in a shared scope others may share the lock. -/
inductive Action (Lock : Type u) where
  | acquire (lock : Lock) (shared : Bool)
  | release (lock : Lock)
  | switch

/-- A scope of a lock. -/
def guarded {Lock : Type u} (lock : Lock) (shared : Bool) (inner : List (Action Lock)) :
    List (Action Lock) :=
  .acquire lock shared :: (inner ++ [.release lock])

variable {Lock : Type u} {Task : Type v} {Thread : Type w}

/-- The locks that a task has, the last one first, and what it has left to do. -/
structure Progress (Lock : Type u) where
  held : List (Lock × Bool)
  rest : List (Action Lock)

/-- The tasks, and which of them each thread runs. -/
structure State (Lock : Type u) (Task : Type v) (Thread : Type w) where
  running : Thread → Option Task
  tasks : Task → Progress Lock

/-- Who may take a lock: nobody has it, or all share it. -/
def State.Free (state : State Lock Task Thread) (lock : Lock) (shared : Bool) : Prop :=
  ∀ task other, (lock, other) ∈ (state.tasks task).held → shared = true ∧ other = true

/-- A thread waits for another one: the task of the one takes a lock that the task of the other
has. -/
def State.WaitsFor (state : State Lock Task Thread) (thread other : Thread) : Prop :=
  ∃ task, state.running thread = some task ∧ ∃ holder, state.running other = some holder ∧
    ∃ lock shared rest, (state.tasks task).rest = .acquire lock shared :: rest ∧
      ∃ mode, (lock, mode) ∈ (state.tasks holder).held

section Steps

variable [DecidableEq Task] [DecidableEq Thread]

def State.setTask (state : State Lock Task Thread) (task : Task) (progress : Progress Lock) :
    State Lock Task Thread :=
  { state with tasks := Function.update state.tasks task progress }

def State.setRunning (state : State Lock Task Thread) (thread : Thread) (task : Option Task) :
    State Lock Task Thread :=
  { state with running := Function.update state.running thread task }

/-- A thread goes on with its task, or takes another one. -/
inductive Step (state : State Lock Task Thread) (thread : Thread) : State Lock Task Thread → Prop where
  | resume (task : Task) : state.running thread = none →
      (∀ other, state.running other ≠ some task) → (state.tasks task).rest ≠ [] →
      Step state thread (state.setRunning thread (some task))
  | acquire {task : Task} {lock : Lock} {shared : Bool} {rest : List (Action Lock)} :
      state.running thread = some task →
      (state.tasks task).rest = .acquire lock shared :: rest → state.Free lock shared →
      Step state thread (state.setTask task ⟨(lock, shared) :: (state.tasks task).held, rest⟩)
  | release {task : Task} {held : List (Lock × Bool)} {lock : Lock} {shared : Bool}
      {rest : List (Action Lock)} : state.running thread = some task →
      (state.tasks task).held = (lock, shared) :: held →
      (state.tasks task).rest = .release lock :: rest →
      Step state thread (state.setTask task ⟨held, rest⟩)
  | switch {task : Task} {rest : List (Action Lock)} : state.running thread = some task →
      (state.tasks task).rest = .switch :: rest →
      Step state thread
        ((state.setTask task ⟨(state.tasks task).held, rest⟩).setRunning thread none)
  | finish {task : Task} : state.running thread = some task → (state.tasks task).rest = [] →
      Step state thread (state.setRunning thread none)

end Steps

/-- Every interleaving of programs. -/
def system [DecidableEq Task] [DecidableEq Thread] (programs : Task → List (Action Lock)) : System (State Lock Task Thread) Thread where
  initial state := state = ⟨fun _ => none, fun task => ⟨[], programs task⟩⟩
  step state thread next := Step state thread next

/-! ## Ranks -/

variable {rank : Lock → Nat}

/-- What is left to do releases what is held, takes locks in order, and is switched out where
nothing is held. -/
inductive Fits (rank : Lock → Nat) : List (Lock × Bool) → List (Action Lock) → Prop where
  | done : Fits rank [] []
  | acquire {held : List (Lock × Bool)} {lock : Lock} {shared : Bool} {rest : List (Action Lock)} :
      (∀ below ∈ held, rank below.1 < rank lock) → Fits rank ((lock, shared) :: held) rest →
      Fits rank held (.acquire lock shared :: rest)
  | release {held : List (Lock × Bool)} {lock : Lock} {shared : Bool} {rest : List (Action Lock)} :
      Fits rank held rest → Fits rank ((lock, shared) :: held) (.release lock :: rest)
  | switch {rest : List (Action Lock)} : Fits rank [] rest → Fits rank [] (.switch :: rest)

/-- The actions fit in front of what fits, where all locks that are held are below the floor. -/
def Nests (rank : Lock → Nat) (floor : Nat) (actions : List (Action Lock)) : Prop :=
  ∀ held rest, (∀ below ∈ held, rank below.1 < floor) → Fits rank held rest →
    Fits rank held (actions ++ rest)

section Nests

variable {floor : Nat}

theorem nests_nil : Nests rank floor [] := fun _ _ _ fits => fits

theorem Nests.append {first second : List (Action Lock)} (nests : Nests rank floor first)
    (onward : Nests rank floor second) : Nests rank floor (first ++ second) := by
  intro held rest below fits
  rw [List.append_assoc]
  exact nests held _ below (onward held rest below fits)

theorem Nests.mono {lower : Nat} {actions : List (Action Lock)} (nests : Nests rank floor actions)
    (le : lower ≤ floor) : Nests rank lower actions := by
  intro held rest below fits
  exact nests held rest (fun lock member => Nat.lt_of_lt_of_le (below lock member) le) fits

theorem nests_guarded {lock : Lock} {shared : Bool} {inner : List (Action Lock)}
    (above : floor ≤ rank lock) (nests : Nests rank (rank lock + 1) inner) :
    Nests rank floor (guarded lock shared inner) := by
  intro held rest below fits
  rw [guarded, List.cons_append, List.append_assoc]
  apply Fits.acquire
  · exact fun other member => Nat.lt_of_lt_of_le (below other member) above
  · apply nests
    · intro other member
      rcases List.mem_cons.mp member with rfl | before
      · exact Nat.lt_add_one _
      · exact Nat.lt_add_right 1 (Nat.lt_of_lt_of_le (below other before) above)
    · exact Fits.release fits

theorem nests_flatMap {Item : Type*} {items : List Item} {actions : Item → List (Action Lock)}
    (nests : ∀ item ∈ items, Nests rank floor (actions item)) :
    Nests rank floor (items.flatMap actions) := by
  induction items with
  | nil => exact nests_nil
  | cons item later ih =>
      rw [List.flatMap_cons]
      apply Nests.append
      · exact nests item List.mem_cons_self
      · exact ih fun other member => nests other (List.mem_cons_of_mem _ member)

/-- A task is switched out where nothing is held. -/
theorem nests_switch : Nests rank 0 [.switch] := by
  intro held rest below fits
  cases held with
  | nil => exact Fits.switch fits
  | cons lock later => exact absurd (below lock List.mem_cons_self) (Nat.not_lt_zero _)

theorem Nests.fits {actions : List (Action Lock)} (nests : Nests rank floor actions) :
    Fits rank [] actions := by
  have fits := nests [] [] (fun lock member => absurd member List.not_mem_nil) Fits.done
  rwa [List.append_nil] at fits

end Nests

/-! ## Every state -/

/-- All tasks fit, those that no thread runs hold nothing, no thread runs another's task, and a
lock that is not shared has one holder. -/
structure Inv (rank : Lock → Nat) (state : State Lock Task Thread) : Prop where
  fits : ∀ task, Fits rank (state.tasks task).held (state.tasks task).rest
  paused : ∀ task, (state.tasks task).held ≠ [] → ∃ thread, state.running thread = some task
  single : ∀ thread other task, state.running thread = some task →
    state.running other = some task → thread = other
  mutex : ∀ task other lock shared, (lock, false) ∈ (state.tasks task).held →
    (lock, shared) ∈ (state.tasks other).held → task = other

/-- What the tasks are after one of them has done something. -/
theorem Inv.setTask [DecidableEq Task] {state : State Lock Task Thread} (inv : Inv rank state)
    {thread : Thread} {task : Task} (runs : state.running thread = some task)
    {progress : Progress Lock} (fits : Fits rank progress.held progress.rest)
    (taken : ∀ lock shared, (lock, shared) ∈ progress.held →
      (lock, shared) ∈ (state.tasks task).held ∨ state.Free lock shared) :
    Inv rank (state.setTask task progress) := by
  have self : (state.setTask task progress).tasks task = progress := Function.update_self ..
  have others : ∀ other, other ≠ task →
      (state.setTask task progress).tasks other = state.tasks other :=
    fun other different => Function.update_of_ne different ..
  constructor
  · intro other
    by_cases same : other = task
    · rw [same, self]
      exact fits
    · rw [others other same]
      exact inv.fits other
  · intro other holds
    by_cases same : other = task
    · exact ⟨thread, same ▸ runs⟩
    · rw [others other same] at holds
      exact inv.paused other holds
  · exact inv.single
  · intro first second lock shared holds holdsToo
    by_cases isFirst : first = task
    · subst isFirst
      by_cases isSecond : second = first
      · exact isSecond.symm
      · rw [others second isSecond] at holdsToo
        rw [self] at holds
        rcases taken lock false holds with before | free
        · exact inv.mutex first second lock shared before holdsToo
        · exact absurd (free second shared holdsToo).1 Bool.false_ne_true
    · rw [others first isFirst] at holds
      by_cases isSecond : second = task
      · subst isSecond
        rw [self] at holdsToo
        rcases taken lock shared holdsToo with before | free
        · exact inv.mutex first second lock shared holds before
        · exact absurd (free first false holds).2 Bool.false_ne_true
      · rw [others second isSecond] at holdsToo
        exact inv.mutex first second lock shared holds holdsToo

/-- What the threads run after one of them has taken another task, or none. -/
theorem Inv.setRunning [DecidableEq Thread] {state : State Lock Task Thread} (inv : Inv rank state)
    {thread : Thread} {next : Option Task}
    (leaves : ∀ task, state.running thread = some task → (state.tasks task).held = [])
    (takes : ∀ task, next = some task → ∀ other, state.running other ≠ some task) :
    Inv rank (state.setRunning thread next) where
  fits := inv.fits
  paused task holds := by
    obtain ⟨other, runs⟩ := inv.paused task holds
    refine ⟨other, ?_⟩
    have different : other ≠ thread := by
      rintro rfl
      exact holds (leaves task runs)
    exact (Function.update_of_ne different ..).trans runs
  single first second task runs runsToo := by
    simp only [State.setRunning] at runs runsToo
    by_cases isFirst : first = thread
    · by_cases isSecond : second = thread
      · exact isFirst.trans isSecond.symm
      · rw [isFirst, Function.update_self] at runs
        rw [Function.update_of_ne isSecond] at runsToo
        exact absurd runsToo (takes task runs second)
    · rw [Function.update_of_ne isFirst] at runs
      by_cases isSecond : second = thread
      · rw [isSecond, Function.update_self] at runsToo
        exact absurd runs (takes task runsToo first)
      · rw [Function.update_of_ne isSecond] at runsToo
        exact inv.single first second task runs runsToo
  mutex := inv.mutex

section System

variable [DecidableEq Task] [DecidableEq Thread] {state next : State Lock Task Thread}
  {thread : Thread} {programs : Task → List (Action Lock)}

theorem Inv.step (inv : Inv rank state) (step : Step state thread next) : Inv rank next := by
  cases step with
  | resume task idle others busy =>
      apply inv.setRunning
      · intro other runs
        rw [idle] at runs
        cases runs
      · intro other isTask thread
        cases isTask
        exact others thread
  | @acquire task lock shared rest runs isRest free =>
      have fits := inv.fits task
      rw [isRest] at fits
      generalize isHeld : (state.tasks task).held = held at fits ⊢
      cases fits with
      | acquire _ inside =>
          apply inv.setTask runs inside
          intro other otherShared member
          rcases List.mem_cons.mp member with isNew | before
          · cases isNew
            exact .inr free
          · exact .inl (isHeld ▸ before)
  | @release task held lock shared rest runs isHeld isRest =>
      have fits := inv.fits task
      rw [isRest, isHeld] at fits
      cases fits with
      | release outside =>
          apply inv.setTask runs outside
          intro other otherShared member
          rw [isHeld]
          exact .inl (List.mem_cons_of_mem _ member)
  | @switch task rest runs isRest =>
      have fits := inv.fits task
      rw [isRest] at fits
      generalize isHeld : (state.tasks task).held = held at fits
      cases fits with
      | switch outside =>
          have done : Inv rank (state.setTask task ⟨[], rest⟩) := by
            apply inv.setTask runs outside
            intro other otherShared member
            cases member
          apply done.setRunning
          · intro other runsOther
            cases runs.symm.trans runsOther
            have self : (state.setTask task ⟨[], rest⟩).tasks task = ⟨[], rest⟩ :=
              Function.update_self ..
            rw [self]
          · intro other isNone
            cases isNone
  | @finish task runs ended =>
      apply inv.setRunning
      · intro other runsOther
        cases runs.symm.trans runsOther
        have fits := inv.fits task
        rw [ended] at fits
        generalize (state.tasks task).held = held at fits
        cases fits
        rfl
      · intro other isNone
        cases isNone

theorem Inv.of_reachable (nests : ∀ task, Nests rank 0 (programs task))
    (reached : (system programs : System (State Lock Task Thread) Thread).Reachable state) :
    Inv rank state := by
  apply reached.invariant
  · rintro first rfl
    constructor
    · exact fun task => (nests task).fits
    · exact fun task holds => absurd rfl holds
    · intro _ _ _ runs
      cases runs
    · intro _ _ _ _ holds
      cases holds
  · intro first label second _ inv _ step
    exact inv.step step

/-- Where a task waits, the holder of the lock runs, and waits for a higher one if at all. -/
theorem Inv.moves (inv : Inv rank state) {limit : Nat} (bound : ∀ lock, rank lock < limit)
    {task : Task} (runs : state.running thread = some task) :
    ∃ last, Relation.ReflTransGen state.WaitsFor thread last ∧ ∃ next, Step state last next := by
  -- for a task that waits, by how many ranks are above that of the lock
  have waiting : ∀ (above : Nat) (thread : Thread) (task : Task) (lock : Lock) (shared : Bool)
      (rest : List (Action Lock)), limit - rank lock ≤ above →
      state.running thread = some task →
      (state.tasks task).rest = .acquire lock shared :: rest →
        ∃ last, Relation.ReflTransGen state.WaitsFor thread last ∧
          ∃ next, Step state last next := by
    intro above
    induction above with
    | zero =>
        intro _ _ lock _ _ few
        have within := bound lock
        omega
    | succ above ih =>
        intro thread task lock shared rest few runs waits
        by_cases free : state.Free lock shared
        · exact ⟨thread, .refl, _, Step.acquire runs waits free⟩
        · obtain ⟨holder, other, holds⟩ : ∃ holder other,
              (lock, other) ∈ (state.tasks holder).held := by
            by_contra none
            apply free
            intro holder other holds
            exact absurd ⟨holder, other, holds⟩ none
          obtain ⟨its, runsToo⟩ := inv.paused holder (List.ne_nil_of_mem holds)
          have first : state.WaitsFor thread its := ⟨task, runs, holder, runsToo, lock, shared, rest,
            waits, other, holds⟩
          have fits := inv.fits holder
          generalize isHeld : (state.tasks holder).held = held at fits holds
          generalize isRest : (state.tasks holder).rest = left at fits
          cases fits with
          | done => cases holds
          | @acquire _ higher sharedToo later below inside =>
              have less := below _ holds
              dsimp only at less
              obtain ⟨last, chain, next⟩ :=
                ih its holder higher sharedToo later (by omega) runsToo isRest
              exact ⟨last, chain.head first, next⟩
          | @release held released sharedToo later outside =>
              exact ⟨its, .single first, _, Step.release runsToo isHeld isRest⟩
          | switch => cases holds
  have fits := inv.fits task
  generalize isHeld : (state.tasks task).held = held at fits
  generalize isRest : (state.tasks task).rest = rest at fits
  cases fits with
  | done => exact ⟨thread, .refl, _, Step.finish runs isRest⟩
  | acquire => exact waiting _ thread task _ _ _ (Nat.le_refl _) runs isRest
  | release => exact ⟨thread, .refl, _, Step.release runs isHeld isRest⟩
  | switch => exact ⟨thread, .refl, _, Step.switch runs isRest⟩

end System

end Library.LockOrder
