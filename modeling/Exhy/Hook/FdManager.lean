import Exhy.IOManager.Event
import Exhy.Library.CString
import Exhy.Library.Transition
import Mathlib.Logic.Function.Basic

/-!
# The contexts of descriptors

`FdManager` and its `FdCtx`s.  `get(fd, true)` looks a descriptor up under the read lock and
inserts a new context under the write lock, without looking again.  In the runs in which
every insertion finds the slot empty, a descriptor has one context from one `del` to the next.
-/

namespace Exhy

open Library

/-- `O_NONBLOCK`, which is `SOCK_NONBLOCK` too. -/
def O_NONBLOCK : BitVec 32 := BitVec.twoPow 32 11

/-- The descriptor that the kernel has open. -/
structure File where
  isSocket : Bool
  flags : BitVec 32
  deriving DecidableEq

abbrev Kernel := IOManager.Fd → Option File

structure FdCtx where
  m_isInit : Bool
  m_isSocket : Bool
  m_sysNonblock : Bool
  m_userNonblock : Bool
  m_isClosed : Bool
  m_fd : IOManager.Fd
  m_recvTimeout : UInt64
  m_sendTimeout : UInt64
  deriving DecidableEq

inductive TimeoutType where
  | SO_RCVTIMEO
  | SO_SNDTIMEO
  deriving DecidableEq

namespace Kernel

/-- `fcntl_f(fd, F_SETFL, arg)`. -/
def setfl (kernel : Kernel) (fd : IOManager.Fd) (arg : BitVec 32) : Kernel :=
  Function.update kernel fd ((kernel fd).map fun file => { file with flags := arg })

/-- `ioctl_f(fd, FIONBIO, &value)`. -/
def fionbio (kernel : Kernel) (fd : IOManager.Fd) (value : Int) : Kernel :=
  Function.update kernel fd <| (kernel fd).map fun file =>
    { file with
      flags := if value ≠ 0 then file.flags ||| O_NONBLOCK else file.flags &&& ~~~O_NONBLOCK }

end Kernel

namespace FdCtx

/-- `FdCtx(int fd)`, with the `init()` that it calls. -/
def new (kernel : Kernel) (fd : IOManager.Fd) : FdCtx × Kernel :=
  let ctx : FdCtx :=
    { m_isInit := false
      m_isSocket := false
      m_sysNonblock := false
      m_userNonblock := false
      m_isClosed := false
      m_fd := fd
      m_recvTimeout := -1
      m_sendTimeout := -1 }
  match kernel fd with
  | none => (ctx, kernel)
  | some file =>
      if file.isSocket then
        ({ ctx with m_isInit := true, m_isSocket := true, m_sysNonblock := true },
          if file.flags &&& O_NONBLOCK = 0 then kernel.setfl fd (file.flags ||| O_NONBLOCK)
          else kernel)
      else ({ ctx with m_isInit := true }, kernel)

def setUserNonblock (ctx : FdCtx) (v : Bool) : FdCtx := { ctx with m_userNonblock := v }

def setTimeout (ctx : FdCtx) (type : TimeoutType) (v : UInt64) : FdCtx :=
  match type with
  | .SO_RCVTIMEO => { ctx with m_recvTimeout := v }
  | .SO_SNDTIMEO => { ctx with m_sendTimeout := v }

def getTimeout (ctx : FdCtx) : TimeoutType → UInt64
  | .SO_RCVTIMEO => ctx.m_recvTimeout
  | .SO_SNDTIMEO => ctx.m_sendTimeout

end FdCtx

/-- A pointer is the number of a context in the order of allocation. -/
structure FdManager where
  m_datas : List (Option Nat)
  ctxs : List FdCtx
  deriving DecidableEq

namespace FdManager

/-- `FdManager()`. -/
def new : FdManager := ⟨List.replicate 64 none, []⟩

/-- The pointer in a slot; null beyond the end. -/
def slot (m : FdManager) (fd : IOManager.Fd) : Option Nat := m.m_datas[fd.val]?.join

/-- The region of `get(fd, auto_create)` under the read lock; `none` when it goes on to the
region under the write lock.  A descriptor is not -1. -/
def lookup (m : FdManager) (fd : IOManager.Fd) (auto_create : Bool) : Option (Option Nat) :=
  if m.m_datas.length ≤ fd.val then
    if auto_create = false then some none else none
  else if (m.slot fd).isSome || !auto_create then some (m.slot fd)
  else none

/-- `resize(fd * 1.5)` where the table is too small. -/
def resize (m : FdManager) (fd : IOManager.Fd) : List (Option Nat) :=
  if toInt32 m.m_datas.length ≤ fd.val then
    m.m_datas.take (fd.val * 3 / 2) ++
      List.replicate (fd.val * 3 / 2 - m.m_datas.length) none
  else m.m_datas

/-- The region of `get(fd, true)` under the write lock; `none` when the index is out of
range. -/
def insert (m : FdManager) (kernel : Kernel) (fd : IOManager.Fd) :
    Option (FdManager × Kernel × Nat) :=
  if fd.val < (m.resize fd).length then
    some
      ({ m_datas := (m.resize fd).set fd.val (some m.ctxs.length)
         ctxs := m.ctxs ++ [(FdCtx.new kernel fd).1] },
        (FdCtx.new kernel fd).2, m.ctxs.length)
  else none

/-- `del(fd)`. -/
def del (m : FdManager) (fd : IOManager.Fd) : FdManager :=
  if toInt32 m.m_datas.length ≤ fd.val then m
  else { m with m_datas := m.m_datas.set fd.val none }

/-- A change of a context through a pointer to it. -/
def modify (m : FdManager) (ctx : Nat) (change : FdCtx → FdCtx) : FdManager :=
  { m with ctxs := m.ctxs.modify ctx change }

variable {m : FdManager} {fd other : IOManager.Fd}

@[simp] theorem slot_new : FdManager.new.slot fd = none := by
  rw [slot, new, List.getElem?_replicate]
  split
  · rfl
  · rfl

@[simp] theorem slot_modify (ctx : Nat) (change : FdCtx → FdCtx) :
    (m.modify ctx change).slot fd = m.slot fd := rfl

theorem lookup_eq {auto_create : Bool} {result : Option Nat}
    (found : m.lookup fd auto_create = some result) : result = m.slot fd := by
  rw [lookup] at found
  split at found
  · next small =>
      split at found
      · rw [slot, List.getElem?_eq_none small]
        exact (Option.some.inj found).symm
      · cases found
  · split at found
    · exact (Option.some.inj found).symm
    · cases found

/-- A slot that the resize has not dropped. -/
theorem slot_resize (kept : other.val < (m.resize fd).length) :
    (m.resize fd)[other.val]?.join = m.slot other := by
  rw [resize] at kept ⊢
  split
  · next grows =>
      rw [if_pos grows, List.length_append, List.length_take, List.length_replicate] at kept
      by_cases old : other.val < m.m_datas.length
      · rw [List.getElem?_append_left (by rw [List.length_take]; omega),
          List.getElem?_take_of_lt (by omega)]
        rfl
      · rw [List.getElem?_append_right (by rw [List.length_take]; omega),
          List.getElem?_replicate, slot, List.getElem?_eq_none (by omega)]
        split
        · rfl
        · rfl
  · rfl

variable {kernel after : Kernel} {next : FdManager} {ctx : Nat}

/-- An insertion into a table that is large enough. -/
theorem insert_inside (inside : fd.val < m.m_datas.length)
    (large : (fd.val : Int) < toInt32 m.m_datas.length) :
    m.insert kernel fd =
      some
        ({ m_datas := m.m_datas.set fd.val (some m.ctxs.length)
           ctxs := m.ctxs ++ [(FdCtx.new kernel fd).1] },
          (FdCtx.new kernel fd).2, m.ctxs.length) := by
  have resize : m.resize fd = m.m_datas := if_neg (Int.not_le.mpr large)
  rw [insert, resize, if_pos inside]

theorem insert_slot (inserted : m.insert kernel fd = some (next, after, ctx)) :
    next.slot fd = some ctx ∧ ctx = m.ctxs.length ∧
      next.ctxs = m.ctxs ++ [(FdCtx.new kernel fd).1] ∧ after = (FdCtx.new kernel fd).2 ∧
      ∀ other ≠ fd, next.slot other =
        if other.val < (m.resize fd).length then m.slot other else none := by
  rw [insert] at inserted
  split at inserted
  · next inRange =>
      rw [Option.some_inj, Prod.mk_inj, Prod.mk_inj] at inserted
      obtain ⟨rfl, rfl, rfl⟩ := inserted
      refine ⟨?_, rfl, rfl, rfl, fun other ne => ?_⟩
      · rw [slot, List.getElem?_set_self inRange]
        rfl
      · rw [slot, List.getElem?_set_ne fun same => ne (Fin.ext same.symm)]
        split
        · next kept => exact slot_resize kept
        · next dropped =>
            rw [List.getElem?_eq_none (Nat.le_of_not_lt dropped)]
            rfl
  · cases inserted

theorem del_slot (ne : other ≠ fd) : (m.del fd).slot other = m.slot other := by
  rw [del]
  split
  · rfl
  · rw [slot, List.getElem?_set_ne fun same => ne (Fin.ext same.symm), slot]

end FdManager

namespace Descriptors

/-- Where a thread is in `get`: outside, or between the two locks. -/
inductive Stage where
  | outside
  | creating (fd : IOManager.Fd)
  deriving DecidableEq

/-- What has happened: a call of `get(fd, auto_create)` has returned, or one of `del(fd)`. -/
inductive Event where
  | got (fd : IOManager.Fd) (auto_create : Bool) (result : Option Nat)
  | deleted (fd : IOManager.Fd)
  deriving DecidableEq

end Descriptors

/-- The threads, with what has happened so far, the last event first. -/
structure Descriptors (Thread : Type) where
  manager : FdManager
  stage : Thread → Descriptors.Stage
  history : List Descriptors.Event

namespace Descriptors

variable {Thread : Type} [DecidableEq Thread]

inductive Label (Thread : Type) where
  | lookup (thread : Thread) (fd : IOManager.Fd) (auto_create : Bool)
  | insert (thread : Thread) (kernel : Kernel)
  | del (thread : Thread) (fd : IOManager.Fd)
  | setUserNonblock (ctx : Nat) (v : Bool)
  | setTimeout (ctx : Nat) (type : TimeoutType) (v : UInt64)

inductive Step : Descriptors Thread → Label Thread → Descriptors Thread → Prop where
  | found {s : Descriptors Thread} (thread : Thread) (fd : IOManager.Fd) (auto_create : Bool)
      {result : Option Nat} : s.stage thread = .outside →
      s.manager.lookup fd auto_create = some result →
      Step s (.lookup thread fd auto_create)
        { s with history := .got fd auto_create result :: s.history }
  | missing {s : Descriptors Thread} (thread : Thread) (fd : IOManager.Fd) (auto_create : Bool) :
      s.stage thread = .outside → s.manager.lookup fd auto_create = none →
      Step s (.lookup thread fd auto_create)
        { s with stage := Function.update s.stage thread (.creating fd) }
  | insert {s : Descriptors Thread} (thread : Thread) (kernel : Kernel) {fd : IOManager.Fd}
      {manager : FdManager} {after : Kernel} {ctx : Nat} : s.stage thread = .creating fd →
      s.manager.insert kernel fd = some (manager, after, ctx) →
      Step s (.insert thread kernel)
        { manager := manager
          stage := Function.update s.stage thread .outside
          history := .got fd true (some ctx) :: s.history }
  | del {s : Descriptors Thread} (thread : Thread) (fd : IOManager.Fd) :
      s.stage thread = .outside →
      Step s (.del thread fd)
        { s with manager := s.manager.del fd, history := .deleted fd :: s.history }
  | setUserNonblock {s : Descriptors Thread} (ctx : Nat) (v : Bool) :
      Step s (.setUserNonblock ctx v)
        { s with manager := s.manager.modify ctx fun c => c.setUserNonblock v }
  | setTimeout {s : Descriptors Thread} (ctx : Nat) (type : TimeoutType) (v : UInt64) :
      Step s (.setTimeout ctx type v)
        { s with manager := s.manager.modify ctx fun c => c.setTimeout type v }

end Descriptors

/-- Every interleaving of the threads. -/
def descriptors (Thread : Type) [DecidableEq Thread] :
    System (Descriptors Thread) (Descriptors.Label Thread) where
  initial s := s = ⟨.new, fun _ => .outside, []⟩
  step := Descriptors.Step

namespace Descriptors

/-- A creator has returned the context since the last deletion. -/
def Current (fd : IOManager.Fd) (ctx : Nat) : List Event → Prop
  | [] => False
  | event :: earlier =>
      event = .got fd true (some ctx) ∨ event ≠ .deleted fd ∧ Current fd ctx earlier

theorem current_append {fd : IOManager.Fd} {ctx : Nat} {after before : List Event}
    (kept : .deleted fd ∉ after) :
    Current fd ctx (after ++ .got fd true (some ctx) :: before) := by
  induction after with
  | nil => exact .inl rfl
  | cons event rest ih =>
      rw [List.mem_cons, not_or] at kept
      exact .inr ⟨Ne.symm kept.1, ih kept.2⟩

variable {Thread : Type}

/-- A context that a creator has returned is in the table until the next deletion, and every
call until then returns it. -/
structure OneContext (s : Descriptors Thread) : Prop where
  inTable : ∀ fd ctx, Current fd ctx s.history → s.manager.slot fd = some ctx
  same : ∀ later earlier fd auto_create result ctx,
    s.history = later ++ .got fd auto_create result :: earlier → Current fd ctx earlier →
      result = some ctx

/-- The condition on a step: an insertion finds the slot empty, and the resize that it makes
drops no context. -/
def FindsEmpty (s : Descriptors Thread) : Label Thread → Prop
  | .insert thread _ => ∀ fd, s.stage thread = .creating fd →
      s.manager.slot fd = none ∧
        ∀ other ctx, s.manager.slot other = some ctx → other.val < (s.manager.resize fd).length
  | _ => True

/-- An event that keeps the table, or adds to it. -/
theorem OneContext.event {s next : Descriptors Thread} (sound : s.OneContext) {event : Event}
    (history : next.history = event :: s.history)
    (slots : ∀ fd ctx, event ≠ .deleted fd → Current fd ctx s.history →
      next.manager.slot fd = some ctx)
    (returns : ∀ fd auto_create result, event = .got fd auto_create result →
      next.manager.slot fd = result ∧
        ∀ ctx, s.manager.slot fd = some ctx → result = some ctx) : next.OneContext where
  inTable fd ctx current := by
    rw [history, Current] at current
    rcases current with rfl | ⟨kept, current⟩
    · exact (returns fd true (some ctx) rfl).1
    · exact slots fd ctx kept current
  same later earlier fd auto_create result ctx split current := by
    rw [history] at split
    cases later with
    | nil =>
        obtain ⟨rfl, rfl⟩ := List.cons.inj split
        exact (returns fd auto_create result rfl).2 ctx (sound.inTable fd ctx current)
    | cons first rest =>
        obtain ⟨rfl, whole⟩ := List.cons.inj split
        exact sound.same rest earlier fd auto_create result ctx whole current

variable [DecidableEq Thread]

theorem OneContext.step {s next : Descriptors Thread} {label : Label Thread}
    (sound : s.OneContext) (empty : FindsEmpty s label) (stepped : Step s label next) :
    next.OneContext := by
  cases stepped with
  | found thread fd auto_create outside isFound =>
      have result := FdManager.lookup_eq isFound
      refine sound.event rfl (fun other ctx _ current => sound.inTable other ctx current) ?_
      intro other create returned same
      cases same
      exact ⟨result.symm, fun ctx here => result.trans here⟩
  | missing thread fd auto_create outside isMissing => exact ⟨sound.inTable, sound.same⟩
  | insert thread kernel creating inserted =>
      obtain ⟨here, _, _, _, others⟩ := FdManager.insert_slot inserted
      obtain ⟨isEmpty, keeps⟩ := empty _ creating
      refine sound.event rfl ?_ ?_
      · intro other ctx _ current
        have inTable := sound.inTable other ctx current
        have ne : other ≠ _ := fun same => by
          rw [same, isEmpty] at inTable
          cases inTable
        show FdManager.slot _ other = some ctx
        rw [others other ne, if_pos (keeps other ctx inTable), inTable]
      · intro other create returned same
        cases same
        refine ⟨here, fun ctx inTable => ?_⟩
        rw [isEmpty] at inTable
        cases inTable
  | del thread fd outside =>
      refine sound.event rfl ?_ ?_
      · intro other ctx notThis current
        show FdManager.slot _ other = some ctx
        rw [FdManager.del_slot fun same => notThis (by rw [same])]
        exact sound.inTable other ctx current
      · intro other create returned same
        cases same
  | setUserNonblock ctx v => exact ⟨sound.inTable, sound.same⟩
  | setTimeout ctx type v => exact ⟨sound.inTable, sound.same⟩

/-- In the runs in which every insertion finds the slot empty, all calls that are not
separated by a deletion return the context of the first creator, which stays in the table. -/
theorem one_context {s : Descriptors Thread}
    (reached : (descriptors Thread).Reaches FindsEmpty s) :
    (∀ after before fd ctx, s.history = after ++ .got fd true (some ctx) :: before →
      .deleted fd ∉ after → s.manager.slot fd = some ctx) ∧
    ∀ later between earlier fd auto_create result ctx,
      s.history =
        later ++ .got fd auto_create result :: (between ++ .got fd true (some ctx) :: earlier) →
      .deleted fd ∉ between → result = some ctx := by
  have sound : s.OneContext := by
    refine reached.invariant OneContext (fun state isInitial => ?_)
      fun _ _ _ _ sound empty stepped => sound.step empty stepped
    rw [isInitial]
    refine ⟨fun _ _ current => current.elim, fun later earlier fd create result ctx split => ?_⟩
    exact absurd split.symm (List.append_ne_nil_of_right_ne_nil _ (List.cons_ne_nil _ _))
  constructor
  · intro after before fd ctx history kept
    apply sound.inTable
    rw [history]
    exact current_append kept
  · intro later between earlier fd auto_create result ctx history kept
    exact sound.same later _ fd auto_create result ctx history (current_append kept)

theorem constructed_reaches (allowed : Descriptors Bool → Label Bool → Prop) :
    (descriptors Bool).Reaches allowed ⟨.new, fun _ => .outside, []⟩ := .initial rfl

/-- The second thread finds the context of the first. -/
theorem one_context_found :
    ∃ s : Descriptors Bool,
      s.history = [.got 3 true (some 0), .got 3 true (some 0)] ∧ s.manager.slot 3 = some 0 := by
  have missing : (descriptors Bool).Reaches FindsEmpty _ :=
    .step (constructed_reaches FindsEmpty) (by exact trivial) (.missing true 3 true rfl rfl)
  have inserted : (descriptors Bool).Reaches FindsEmpty _ :=
    .step missing (by
      intro fd creating
      cases creating
      refine ⟨rfl, fun other ctx here => ?_⟩
      rw [FdManager.slot_new] at here
      cases here) (.insert true (fun _ => none) rfl (FdManager.insert_inside (by decide) (by decide)))
  have found : (descriptors Bool).Reaches FindsEmpty _ :=
    .step inserted (by exact trivial) (.found false 3 true rfl rfl)
  exact ⟨_, rfl, (one_context found).1 [] _ 3 0 rfl (by decide)⟩

/-- Two threads find the slot empty, and the second replaces the context of the first. -/
theorem context_replaced :
    ∃ s : Descriptors Bool, (descriptors Bool).Reachable s ∧
      s.history = [.got 3 true (some 1), .got 3 true (some 0)] ∧ s.manager.slot 3 = some 1 := by
  have missing : (descriptors Bool).Reachable _ :=
    .step (constructed_reaches _) trivial (.missing true 3 true rfl rfl)
  have missingToo : (descriptors Bool).Reachable _ :=
    .step missing trivial (.missing false 3 true rfl rfl)
  have inserted : (descriptors Bool).Reachable _ :=
    .step missingToo trivial (.insert true (fun _ => none) rfl (FdManager.insert_inside (by decide) (by decide)))
  have replaced : (descriptors Bool).Reachable _ :=
    .step inserted trivial (.insert false (fun _ => none) rfl (FdManager.insert_inside (by decide) (by decide)))
  exact ⟨_, replaced, rfl, rfl⟩

end Descriptors

end Exhy
