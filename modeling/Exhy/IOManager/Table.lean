import Exhy.IOManager.Event
import Exhy.Library.CString
import Exhy.Library.Transition
import Mathlib.Data.List.Infix
import Mathlib.Logic.Function.Basic

/-!
# The table of descriptors

`addEvent` looks a descriptor up under the read lock and, when the table is too small,
resizes it under the write lock.  Between the two the table may have grown, and a resize
to less than its size drops contexts.  In the runs without such a resize every table that
there has been is the first part of the present one.
-/

namespace Exhy

open Library

namespace FdTable

/-- Where a thread is in `addEvent`: outside, between the two locks, or with `fd_ctx`. -/
inductive Stage where
  | outside
  | growing (fd : IOManager.Fd)
  | found (fd : IOManager.Fd) (fd_ctx : Nat)
  deriving DecidableEq, Repr

end FdTable

/-- The pointers to the `FdContext`s, numbered as they are allocated, with the tables that
there have been before. -/
structure FdTable (Thread : Type) where
  m_fdContexts : List Nat
  allocated : Nat
  stage : Thread → FdTable.Stage
  before : List (List Nat)

namespace FdTable

variable {Thread : Type}

/-- `contextResize(size)`, which allocates a context for every null pointer. -/
def contextResize (s : FdTable Thread) (size : Nat) : FdTable Thread :=
  let kept := s.m_fdContexts.take size
  let added := size - kept.length
  { s with
    m_fdContexts := kept ++ List.range' s.allocated added
    allocated := s.allocated + added
    before := s.m_fdContexts :: s.before }

/-- The size that `addEvent` asks for; `fd * 1.5` is exact. -/
def newSize (fd : IOManager.Fd) : Nat := fd.val * 3 / 2

variable [DecidableEq Thread]

def setStage (s : FdTable Thread) (thread : Thread) (stage : Stage) : FdTable Thread :=
  { s with stage := Function.update s.stage thread stage }

inductive Label (Thread : Type) where
  | check (thread : Thread) (fd : IOManager.Fd)
  | resize (thread : Thread)
  | leave (thread : Thread)

inductive Step : FdTable Thread → Label Thread → FdTable Thread → Prop where
  /-- The region under the read lock finds the context. -/
  | find {s : FdTable Thread} (thread : Thread) (fd : IOManager.Fd) {fd_ctx : Nat} :
      s.stage thread = .outside → toInt32 s.m_fdContexts.length > fd.val →
      s.m_fdContexts[fd.val]? = some fd_ctx →
      Step s (.check thread fd) (s.setStage thread (.found fd fd_ctx))
  | tooSmall {s : FdTable Thread} (thread : Thread) (fd : IOManager.Fd) :
      s.stage thread = .outside → ¬ toInt32 s.m_fdContexts.length > fd.val →
      Step s (.check thread fd) (s.setStage thread (.growing fd))
  /-- The region under the write lock; it has no next state when the index is out of range. -/
  | resize {s : FdTable Thread} (thread : Thread) {fd : IOManager.Fd} {fd_ctx : Nat} :
      s.stage thread = .growing fd →
      (s.contextResize (newSize fd)).m_fdContexts[fd.val]? = some fd_ctx →
      Step s (.resize thread) ((s.contextResize (newSize fd)).setStage thread (.found fd fd_ctx))
  | leave {s : FdTable Thread} (thread : Thread) {fd : IOManager.Fd} {fd_ctx : Nat} :
      s.stage thread = .found fd fd_ctx → Step s (.leave thread) (s.setStage thread .outside)

end FdTable

/-- Every interleaving of the threads inside `addEvent`, from the table of the constructor. -/
def fdTable (Thread : Type) [DecidableEq Thread] :
    System (FdTable Thread) (FdTable.Label Thread) where
  initial s := s = FdTable.contextResize ⟨[], 0, fun _ => .outside, []⟩ 32
  step := FdTable.Step

namespace FdTable

variable {Thread : Type}

theorem length_contextResize (s : FdTable Thread) (size : Nat) :
    (s.contextResize size).m_fdContexts.length = size := by
  simp only [contextResize, List.length_append, List.length_take, List.length_range']
  omega

/-- A resize keeps the contexts exactly when it does not shrink the table. -/
theorem prefix_contextResize_iff (s : FdTable Thread) (size : Nat) :
    s.m_fdContexts <+: (s.contextResize size).m_fdContexts ↔ s.m_fdContexts.length ≤ size := by
  constructor
  · intro isPrefix
    have lengths := isPrefix.length_le
    rwa [length_contextResize] at lengths
  · intro fits
    rw [contextResize, List.take_of_length_le fits]
    exact List.prefix_append ..

/-- The condition on a step: the table has not grown past the size that a resize asks for. -/
def Grows (s : FdTable Thread) : Label Thread → Prop
  | .resize thread => ∀ fd, s.stage thread = .growing fd → s.m_fdContexts.length ≤ newSize fd
  | _ => True

/-- Every table there has been is the first part of the present one, and so is what a
thread has found. -/
structure Kept (s : FdTable Thread) : Prop where
  size : 32 ≤ s.m_fdContexts.length
  before : ∀ table ∈ s.before, table <+: s.m_fdContexts
  found : ∀ thread fd fd_ctx, s.stage thread = .found fd fd_ctx →
    s.m_fdContexts[fd.val]? = some fd_ctx

/-- A resize that keeps to the condition asks for a descriptor of some size. -/
theorem Kept.lt_newSize {s : FdTable Thread} (kept : s.Kept) {fd : IOManager.Fd}
    (grows : s.m_fdContexts.length ≤ newSize fd) : fd.val < newSize fd := by
  have size := kept.size
  rw [newSize] at grows ⊢
  omega

theorem Kept.resize {s : FdTable Thread} (kept : s.Kept) {size : Nat}
    (grows : s.m_fdContexts.length ≤ size) : (s.contextResize size).Kept := by
  have isPrefix := (prefix_contextResize_iff s size).mpr grows
  refine ⟨?_, fun table member => ?_, fun thread fd fd_ctx isFound => ?_⟩
  · rw [length_contextResize]
    exact Nat.le_trans kept.size grows
  · rcases List.mem_cons.mp member with rfl | earlier
    · exact isPrefix
    · exact (kept.before table earlier).trans isPrefix
  · have here := kept.found thread fd fd_ctx isFound
    obtain ⟨added, whole⟩ := isPrefix
    rw [← whole, List.getElem?_append_left (List.getElem?_eq_some_iff.mp here).1]
    exact here

variable [DecidableEq Thread]

theorem Kept.setStage {s : FdTable Thread} (kept : s.Kept) (thread : Thread) {stage : Stage}
    (isFound : ∀ fd fd_ctx, stage = .found fd fd_ctx → s.m_fdContexts[fd.val]? = some fd_ctx) :
    (s.setStage thread stage).Kept := by
  refine ⟨kept.size, kept.before, fun other fd fd_ctx otherFound => ?_⟩
  by_cases same : other = thread
  · subst same
    simp only [FdTable.setStage, Function.update_self] at otherFound
    exact isFound fd fd_ctx otherFound
  · simp only [FdTable.setStage, Function.update_of_ne same] at otherFound
    exact kept.found other fd fd_ctx otherFound

theorem Kept.step {s next : FdTable Thread} {label : Label Thread} (kept : s.Kept)
    (grows : Grows s label) (stepped : Step s label next) : next.Kept := by
  cases stepped with
  | find thread fd outside large isFound =>
      refine kept.setStage thread fun other fd_ctx same => ?_
      cases same
      exact isFound
  | tooSmall thread fd outside small =>
      exact kept.setStage thread fun _ _ impossible => by cases impossible
  | resize thread growing isFound =>
      refine (kept.resize (grows _ growing)).setStage thread fun other fd_ctx same => ?_
      cases same
      exact isFound
  | leave thread isFound => exact kept.setStage thread fun _ _ impossible => by cases impossible

theorem reaches_kept {s : FdTable Thread} (reached : (fdTable Thread).Reaches Grows s) : s.Kept := by
  refine reached.invariant Kept (fun state isInitial => ?_)
    fun _ _ _ _ kept grows stepped => kept.step grows stepped
  rw [isInitial]
  refine ⟨?_, fun table member => ?_, fun thread fd fd_ctx impossible => by cases impossible⟩
  · rw [length_contextResize]
  · rw [List.mem_singleton.mp member]
    exact List.nil_prefix

/-- In the runs in which no resize comes after a larger one, the table never shrinks, every
descriptor keeps its context, and the index after a resize is in range.  A resize does what
is asked exactly when it keeps to the condition. -/
theorem table_kept {s : FdTable Thread} (reached : (fdTable Thread).Reaches Grows s) :
    (∀ table ∈ s.before, table <+: s.m_fdContexts) ∧
      (∀ thread fd fd_ctx, s.stage thread = .found fd fd_ctx →
        s.m_fdContexts[fd.val]? = some fd_ctx) ∧
      ∀ thread fd, s.stage thread = .growing fd →
        (s.m_fdContexts <+: (s.contextResize (newSize fd)).m_fdContexts ∧
          fd.val < (s.contextResize (newSize fd)).m_fdContexts.length ↔
        s.m_fdContexts.length ≤ newSize fd) := by
  have kept := reaches_kept reached
  refine ⟨kept.before, kept.found, fun thread fd _ => ?_⟩
  rw [prefix_contextResize_iff, length_contextResize, and_iff_left_iff_imp]
  exact kept.lt_newSize

theorem constructed_reaches (allowed : FdTable Bool → Label Bool → Prop) :
    (fdTable Bool).Reaches allowed (contextResize ⟨[], 0, fun _ => .outside, []⟩ 32) :=
  .initial rfl

theorem table_kept_grown :
    ∃ s : FdTable Bool, s.m_fdContexts.length = 150 ∧
      ∀ table ∈ s.before, table <+: s.m_fdContexts := by
  have checked : (fdTable Bool).Reaches Grows _ :=
    .step (constructed_reaches Grows) (by exact trivial)
      (.tooSmall true (100 : IOManager.Fd) rfl (by decide))
  have resized : (fdTable Bool).Reaches Grows _ :=
    .step checked (by
      intro fd growing
      cases growing
      decide) (.resize true rfl rfl)
  exact ⟨_, length_contextResize .., (table_kept resized).1⟩

/-- Two threads find the table too small for 100 and for 40; the resize for 40 comes last
and drops the context of 100, which the other thread has in hand. -/
theorem context_lost :
    ∃ s : FdTable Bool, (fdTable Bool).Reachable s ∧
      s.stage true = .found (100 : IOManager.Fd) 100 ∧ s.m_fdContexts[100]? = none := by
  have checked : (fdTable Bool).Reachable _ :=
    .step (constructed_reaches _) trivial
      (.tooSmall true (100 : IOManager.Fd) rfl (by decide))
  have checkedToo : (fdTable Bool).Reachable _ :=
    .step checked trivial (.tooSmall false (40 : IOManager.Fd) rfl (by decide))
  have resized : (fdTable Bool).Reachable _ := .step checkedToo trivial (.resize true rfl rfl)
  have shrunk : (fdTable Bool).Reachable _ := .step resized trivial (.resize false rfl rfl)
  exact ⟨_, shrunk, rfl, rfl⟩

end FdTable

end Exhy
