import Exhy.Hook.FdManager
import Mathlib.Data.List.Infix

/-!
# The non-blocking mode that the user sees

Hooked `socket`, `accept`, `fcntl(F_SETFL)` and `ioctl(FIONBIO)`.  The kernel's flag is set for
every socket with a context, and `F_GETFL` reports what the user has asked for, in the runs in
which no socket is created in non-blocking mode and none is put into blocking mode by `ioctl`.
-/

namespace Exhy

open Library

/-- A flag word has the non-blocking flag. -/
def nonblocking (flags : BitVec 32) : Bool := flags &&& O_NONBLOCK ≠ 0

theorem nonblocking_eq (flags : BitVec 32) : nonblocking flags = flags.getLsbD 11 := by
  rw [nonblocking, O_NONBLOCK, BitVec.and_twoPow]
  cases flags.getLsbD 11 with
  | false => rfl
  | true => rfl

@[simp] theorem nonblocking_or (flags : BitVec 32) : nonblocking (flags ||| O_NONBLOCK) = true := by
  rw [nonblocking_eq, BitVec.getLsbD_or, O_NONBLOCK, BitVec.getLsbD_twoPow]
  exact Bool.or_true _

@[simp] theorem nonblocking_and_not (flags : BitVec 32) :
    nonblocking (flags &&& ~~~O_NONBLOCK) = false := by
  rw [nonblocking_eq, BitVec.getLsbD_and, BitVec.getLsbD_not, O_NONBLOCK, BitVec.getLsbD_twoPow]
  exact Bool.and_false _

/-- The process.  `asked` is whether the last request for a descriptor asked for the
non-blocking mode; the creation of the descriptor is the first. -/
structure Modes where
  kernel : Kernel
  manager : FdManager
  asked : IOManager.Fd → Bool

namespace Modes

/-- The socket that the kernel creates for `socket_f` with a type, or for `accept_f`. -/
def created (type : BitVec 32) : File := ⟨true, type &&& O_NONBLOCK⟩

/-- `get(fd, true)` of a thread that is not interrupted. -/
def create (s : Modes) (fd : IOManager.Fd) : Option Modes :=
  match s.manager.lookup fd true with
  | some _ => some s
  | none =>
      (s.manager.insert s.kernel fd).map fun (manager, kernel, _) =>
        { s with manager := manager, kernel := kernel }

/-- `get(fd)` and the context, unless `!ctx || ctx->isClose() || !ctx->isSocket()`. -/
def socketCtx (s : Modes) (fd : IOManager.Fd) : Option (Nat × FdCtx) := do
  let ptr ← (s.manager.lookup fd false).join
  let ctx ← s.manager.ctxs[ptr]?
  if ctx.m_isClosed || !ctx.m_isSocket then none else some (ptr, ctx)

/-- `socket(domain, type, protocol)` where the kernel takes `fd`. -/
def socket (s : Modes) (fd : IOManager.Fd) (type : BitVec 32) : Option Modes :=
  { s with
    kernel := Function.update s.kernel fd (some (created type))
    asked := Function.update s.asked fd (nonblocking type) : Modes }.create fd

/-- `accept(s, addr, addrlen)` where the kernel takes `fd`. -/
def accept (s : Modes) (fd : IOManager.Fd) : Option Modes :=
  { s with
    kernel := Function.update s.kernel fd (some (created 0))
    asked := Function.update s.asked fd false : Modes }.create fd

/-- `fcntl(fd, F_SETFL, arg)`. -/
def setfl (s : Modes) (fd : IOManager.Fd) (arg : BitVec 32) : Modes :=
  { s with
    kernel := s.kernel.setfl fd <|
      match s.socketCtx fd with
      | none => arg
      | some (_, ctx) =>
          if ctx.m_sysNonblock then arg ||| O_NONBLOCK else arg &&& ~~~O_NONBLOCK
    manager :=
      match s.socketCtx fd with
      | none => s.manager
      | some (ptr, _) => s.manager.modify ptr fun ctx => ctx.setUserNonblock (nonblocking arg)
    asked := Function.update s.asked fd (nonblocking arg) }

/-- `fcntl(fd, F_GETFL)`; `none` for -1. -/
def getfl (s : Modes) (fd : IOManager.Fd) : Option (BitVec 32) :=
  (s.kernel fd).map fun file =>
    match s.socketCtx fd with
    | none => file.flags
    | some (_, ctx) =>
        if ctx.m_userNonblock then file.flags ||| O_NONBLOCK else file.flags &&& ~~~O_NONBLOCK

/-- `ioctl(fd, FIONBIO, &value)`. -/
def fionbio (s : Modes) (fd : IOManager.Fd) (value : Int) : Modes :=
  { s with
    kernel := s.kernel.fionbio fd value
    manager :=
      match s.socketCtx fd with
      | none => s.manager
      | some (ptr, _) => s.manager.modify ptr fun ctx => ctx.setUserNonblock (value ≠ 0)
    asked := Function.update s.asked fd (value ≠ 0) }

inductive Label where
  | socket (fd : IOManager.Fd) (type : BitVec 32)
  | accept (fd : IOManager.Fd)
  | setfl (fd : IOManager.Fd) (arg : BitVec 32)
  | fionbio (fd : IOManager.Fd) (value : Int)

/-- The kernel takes a number that is not in use. -/
inductive Step : Modes → Label → Modes → Prop where
  | socket {s next : Modes} (fd : IOManager.Fd) (type : BitVec 32) : s.kernel fd = none →
      s.socket fd type = some next → Step s (.socket fd type) next
  | accept {s next : Modes} (fd : IOManager.Fd) : s.kernel fd = none →
      s.accept fd = some next → Step s (.accept fd) next
  | setfl {s : Modes} (fd : IOManager.Fd) (arg : BitVec 32) :
      Step s (.setfl fd arg) (s.setfl fd arg)
  | fionbio {s : Modes} (fd : IOManager.Fd) (value : Int) :
      Step s (.fionbio fd value) (s.fionbio fd value)

end Modes

/-- Every sequence of calls, from a process without sockets.  It may have other descriptors
open. -/
def modes : System Modes Modes.Label where
  initial s := s.manager = .new ∧ ∀ fd file, s.kernel fd = some file → file.isSocket = false
  step := Modes.Step

namespace Kernel

variable {kernel : Kernel} {fd other : IOManager.Fd}

theorem setfl_self {file : File} (isOpen : kernel fd = some file) (arg : BitVec 32) :
    kernel.setfl fd arg fd = some { file with flags := arg } := by
  rw [setfl, Function.update_self, isOpen]
  rfl

theorem setfl_of_ne (ne : other ≠ fd) (arg : BitVec 32) :
    kernel.setfl fd arg other = kernel other := Function.update_of_ne ne ..

theorem fionbio_self {file : File} (isOpen : kernel fd = some file) (value : Int) :
    ∃ after, kernel.fionbio fd value fd = some after ∧
      nonblocking after.flags = decide (value ≠ 0) := by
  rw [fionbio, Function.update_self, isOpen]
  refine ⟨_, rfl, ?_⟩
  by_cases zero : value = 0
  · subst zero
    exact nonblocking_and_not file.flags
  · dsimp only
    rw [if_pos zero, decide_eq_true zero]
    exact nonblocking_or file.flags

theorem fionbio_of_ne (ne : other ≠ fd) (value : Int) :
    kernel.fionbio fd value other = kernel other := Function.update_of_ne ne ..

end Kernel

namespace Modes

/-- A context of a socket that the kernel keeps in non-blocking mode. -/
structure Known (s : Modes) (fd : IOManager.Fd) (ctx : FdCtx) : Prop where
  ofFd : ctx.m_fd = fd
  isSocket : ctx.m_isSocket = true
  notClosed : ctx.m_isClosed = false
  sysNonblock : ctx.m_sysNonblock = true
  isOpen : ∃ file, s.kernel fd = some file ∧ nonblocking file.flags

/-- Its flag is what the user has asked for. -/
structure Owned (s : Modes) (fd : IOManager.Fd) (ctx : FdCtx) : Prop extends s.Known fd ctx where
  userNonblock : ctx.m_userNonblock = s.asked fd

/-- Every context in the table is that of its descriptor. -/
def Sound (s : Modes) : Prop :=
  ∀ fd ptr, s.manager.slot fd = some ptr →
    ∃ ctx, s.manager.ctxs[ptr]? = some ctx ∧ s.Owned fd ctx

/-- What a call on another descriptor keeps. -/
theorem Owned.frame {s next : Modes} {fd : IOManager.Fd} {ctx : FdCtx} (owned : s.Owned fd ctx)
    (kernel : next.kernel fd = s.kernel fd) (asked : next.asked fd = s.asked fd) :
    next.Owned fd ctx where
  ofFd := owned.ofFd
  isSocket := owned.isSocket
  notClosed := owned.notClosed
  sysNonblock := owned.sysNonblock
  userNonblock := by rw [owned.userNonblock, asked]
  isOpen := by
    rw [kernel]
    exact owned.isOpen

theorem lookup_false (m : FdManager) (fd : IOManager.Fd) :
    m.lookup fd false = some (m.slot fd) := by
  rw [FdManager.lookup]
  split
  · next small =>
      rw [if_pos rfl, FdManager.slot, List.getElem?_eq_none small]
      rfl
  · rw [Bool.not_false, Bool.or_true, if_pos rfl]

theorem lookup_true {m : FdManager} {fd : IOManager.Fd} (empty : m.slot fd = none) :
    m.lookup fd true = none := by
  rw [FdManager.lookup, empty]
  split
  · rfl
  · rfl

variable {s next : Modes} {fd : IOManager.Fd}

theorem socketCtx_none (empty : s.manager.slot fd = none) : s.socketCtx fd = none := by
  rw [socketCtx, lookup_false, empty]
  rfl

theorem Known.socketCtx {ptr : Nat} {ctx : FdCtx} (owned : s.Known fd ctx)
    (slot : s.manager.slot fd = some ptr) (here : s.manager.ctxs[ptr]? = some ctx) :
    s.socketCtx fd = some (ptr, ctx) := by
  rw [Modes.socketCtx, lookup_false, slot]
  simp only [Option.join_some, Option.bind_eq_bind, Option.bind_some, here, owned.isSocket,
    owned.notClosed]
  rfl

/-- A change through the pointer of one descriptor reaches the contexts of no other. -/
theorem Sound.modify (sound : s.Sound) {ptr : Nat} {ctx : FdCtx} (owned : s.Owned fd ctx)
    (here : s.manager.ctxs[ptr]? = some ctx) (change : FdCtx → FdCtx) {other : IOManager.Fd}
    (ne : other ≠ fd) {otherPtr : Nat} (slot : s.manager.slot other = some otherPtr) :
    ∃ otherCtx, (s.manager.modify ptr change).ctxs[otherPtr]? = some otherCtx ∧
      s.Owned other otherCtx := by
  obtain ⟨otherCtx, otherHere, otherOwned⟩ := sound other otherPtr slot
  have ptrNe : ptr ≠ otherPtr := by
    rintro rfl
    rw [here] at otherHere
    cases otherHere
    exact ne (otherOwned.ofFd.symm.trans owned.ofFd)
  refine ⟨otherCtx, ?_, otherOwned⟩
  show (s.manager.ctxs.modify ptr change)[otherPtr]? = some otherCtx
  rw [List.getElem?_modify_ne _ _ ptrNe, otherHere]

theorem Known.getfl {ptr : Nat} {ctx : FdCtx} (owned : s.Known fd ctx)
    (slot : s.manager.slot fd = some ptr) (here : s.manager.ctxs[ptr]? = some ctx) :
    ∃ flags, s.getfl fd = some flags ∧ nonblocking flags = ctx.m_userNonblock := by
  obtain ⟨file, isOpen, _⟩ := owned.isOpen
  rw [Modes.getfl, isOpen, owned.socketCtx slot here]
  refine ⟨_, rfl, ?_⟩
  dsimp only
  cases ctx.m_userNonblock with
  | false => exact nonblocking_and_not file.flags
  | true => exact nonblocking_or file.flags

/-- The context that `init` makes for a socket. -/
theorem new_socket {kernel : Kernel} {file : File} (isOpen : kernel fd = some file)
    (socket : file.isSocket = true) :
    (FdCtx.new kernel fd).1.m_fd = fd ∧ (FdCtx.new kernel fd).1.m_isSocket = true ∧
      (FdCtx.new kernel fd).1.m_isClosed = false ∧ (FdCtx.new kernel fd).1.m_sysNonblock = true ∧
      (FdCtx.new kernel fd).1.m_userNonblock = false ∧
      (∃ after, (FdCtx.new kernel fd).2 fd = some after ∧ nonblocking after.flags) ∧
      ∀ other ≠ fd, (FdCtx.new kernel fd).2 other = kernel other := by
  rw [FdCtx.new, isOpen]
  dsimp only
  rw [if_pos socket]
  refine ⟨rfl, rfl, rfl, rfl, rfl, ?_⟩
  dsimp only
  split
  · refine ⟨⟨_, Kernel.setfl_self isOpen _, nonblocking_or _⟩, fun other ne => ?_⟩
    exact Kernel.setfl_of_ne ne _
  · next set => exact ⟨⟨file, isOpen, decide_eq_true set⟩, fun _ _ => rfl⟩

/-- What the creation of a socket does: its context is in the table, and its user flag is
clear. -/
theorem create_spec (sound : s.Sound) (free : s.kernel fd = none) (type : BitVec 32) (asks : Bool)
    (made : ({ s with
      kernel := Function.update s.kernel fd (some (created type))
      asked := Function.update s.asked fd asks } : Modes).create fd = some next) :
    ∃ ptr ctx, next.manager.slot fd = some ptr ∧ next.manager.ctxs[ptr]? = some ctx ∧
      next.Known fd ctx ∧ ctx.m_userNonblock = false ∧ next.asked fd = asks ∧
      ∀ other ≠ fd, ∀ otherPtr, next.manager.slot other = some otherPtr →
        ∃ otherCtx, next.manager.ctxs[otherPtr]? = some otherCtx ∧ next.Owned other otherCtx := by
  have empty : s.manager.slot fd = none := by
    cases slot : s.manager.slot fd with
    | none => rfl
    | some ptr =>
        obtain ⟨_, _, owned⟩ := sound fd ptr slot
        obtain ⟨file, isOpen, _⟩ := owned.isOpen
        rw [free] at isOpen
        cases isOpen
  rw [create, lookup_true empty] at made
  obtain ⟨⟨manager, kernel, ptr⟩, inserted, rfl⟩ := Option.map_eq_some_iff.mp made
  obtain ⟨slot, rfl, ctxs, rfl, others⟩ := FdManager.insert_slot inserted
  have opened : Function.update s.kernel fd (some (created type)) fd = some (created type) :=
    Function.update_self fd _ _
  obtain ⟨ofFd, isSocket, notClosed, sysNonblock, userNonblock, isOpen, same⟩ :=
    new_socket opened rfl
  refine ⟨_, _, slot, ?_, ⟨ofFd, isSocket, notClosed, sysNonblock, isOpen⟩, userNonblock,
    Function.update_self .., ?_⟩
  · show manager.ctxs[_]? = _
    rw [ctxs, List.getElem?_concat_length]
  · intro other ne otherPtr otherSlot
    have before : s.manager.slot other = some otherPtr := by
      have after := others other ne
      rw [otherSlot] at after
      split at after
      · exact after.symm
      · cases after
    obtain ⟨otherCtx, here, owned⟩ := sound other otherPtr before
    refine ⟨otherCtx, ?_, owned.frame ?_ (Function.update_of_ne ne ..)⟩
    · show manager.ctxs[_]? = _
      rw [ctxs, List.getElem?_append_left (List.getElem?_eq_some_iff.mp here).1, here]
    · exact (same other ne).trans (Function.update_of_ne ne ..)

/-- A request on a descriptor changes at most its own file and its own context. -/
theorem Sound.request (sound : s.Sound) {kernel : Kernel} {user asks : Bool}
    (same : ∀ other ≠ fd, kernel other = s.kernel other)
    (own : ∀ file, s.kernel fd = some file → nonblocking file.flags →
      (s.manager.slot fd).isSome → ∃ after, kernel fd = some after ∧ nonblocking after.flags)
    (agrees : user = asks) :
    Modes.Sound
      { kernel := kernel
        manager :=
          match s.socketCtx fd with
          | none => s.manager
          | some (ptr, _) => s.manager.modify ptr fun ctx => ctx.setUserNonblock user
        asked := Function.update s.asked fd asks } := by
  intro other otherPtr otherSlot
  cases slot : s.manager.slot fd with
  | none =>
      rw [socketCtx_none slot] at otherSlot ⊢
      have ne : other ≠ fd := by
        rintro rfl
        rw [slot] at otherSlot
        cases otherSlot
      obtain ⟨otherCtx, here, owned⟩ := sound other otherPtr otherSlot
      exact ⟨otherCtx, here, owned.frame (same other ne) (Function.update_of_ne ne ..)⟩
  | some ptr =>
      obtain ⟨ctx, here, owned⟩ := sound fd ptr slot
      rw [owned.socketCtx slot here] at otherSlot ⊢
      dsimp only at otherSlot ⊢
      rw [FdManager.slot_modify] at otherSlot
      by_cases ne : other = fd
      · subst ne
        rw [slot] at otherSlot
        cases otherSlot
        obtain ⟨file, isOpen, set⟩ := owned.isOpen
        have known : (s.manager.slot other).isSome := by
          rw [slot]
          rfl
        refine ⟨ctx.setUserNonblock user, ?_, ⟨owned.ofFd, owned.isSocket, owned.notClosed,
          owned.sysNonblock, own file isOpen set known⟩, ?_⟩
        · show (s.manager.ctxs.modify _ _)[_]? = _
          rw [List.getElem?_modify_eq, here]
          rfl
        · show user = Function.update s.asked other asks other
          rw [Function.update_self, agrees]
      · obtain ⟨otherCtx, otherHere, otherOwned⟩ :=
          sound.modify owned here (fun ctx => ctx.setUserNonblock user) ne otherSlot
        exact ⟨otherCtx, otherHere, otherOwned.frame (same other ne) (Function.update_of_ne ne ..)⟩

/-- The condition on a call: it does not create a socket in non-blocking mode, and does not
put a registered one into blocking mode with `ioctl`. -/
def Plain (s : Modes) : Label → Prop
  | .socket _ type => nonblocking type = false
  | .fionbio fd value => (s.manager.slot fd).isSome → value ≠ 0
  | _ => True

theorem Sound.step {label : Label} (sound : s.Sound) (plain : s.Plain label)
    (stepped : Step s label next) : next.Sound := by
  cases stepped with
  | socket fd type free made =>
      obtain ⟨ptr, ctx, slot, here, known, user, asked, others⟩ := create_spec sound free type _ made
      intro other otherPtr otherSlot
      by_cases same : other = fd
      · subst same
        rw [slot] at otherSlot
        cases otherSlot
        exact ⟨ctx, here, known, user.trans (asked.trans plain).symm⟩
      · exact others other same otherPtr otherSlot
  | accept fd free made =>
      obtain ⟨ptr, ctx, slot, here, known, user, asked, others⟩ := create_spec sound free 0 _ made
      intro other otherPtr otherSlot
      by_cases same : other = fd
      · subst same
        rw [slot] at otherSlot
        cases otherSlot
        exact ⟨ctx, here, known, user.trans asked.symm⟩
      · exact others other same otherPtr otherSlot
  | setfl fd arg =>
      refine sound.request (fun other ne => Kernel.setfl_of_ne ne _) (fun file isOpen _ known => ?_) rfl
      obtain ⟨ptr, slot⟩ := Option.isSome_iff_exists.mp known
      obtain ⟨ctx, here, owned⟩ := sound fd ptr slot
      rw [owned.socketCtx slot here]
      dsimp only
      rw [if_pos owned.sysNonblock]
      exact ⟨_, Kernel.setfl_self isOpen _, nonblocking_or arg⟩
  | fionbio fd value =>
      refine sound.request (fun other ne => Kernel.fionbio_of_ne ne _) (fun file isOpen _ known => ?_) rfl
      obtain ⟨after, afterOpen, set⟩ := Kernel.fionbio_self isOpen value
      exact ⟨after, afterOpen, set.trans (decide_eq_true (plain known))⟩

/-- A request keeps a descriptor registered. -/
theorem registered_fionbio (registered : (s.manager.slot fd).isSome) (value : Int) :
    ((s.fionbio fd value).manager.slot fd).isSome := by
  rw [fionbio]
  split
  · exact registered
  · exact registered

/-- The kernel's flag is set for every registered descriptor, and `F_GETFL` reports what was asked. -/
def Virtualised (s : Modes) : Prop :=
  ∀ fd, (s.manager.slot fd).isSome →
    (∃ file, s.kernel fd = some file ∧ nonblocking file.flags) ∧
      ∃ flags, s.getfl fd = some flags ∧ nonblocking flags = s.asked fd

theorem Sound.virtualised (sound : s.Sound) : s.Virtualised := by
  intro fd known
  obtain ⟨ptr, slot⟩ := Option.isSome_iff_exists.mp known
  obtain ⟨ctx, here, owned⟩ := sound fd ptr slot
  obtain ⟨flags, reported, is⟩ := owned.getfl slot here
  exact ⟨owned.isOpen, flags, reported, is.trans owned.userNonblock⟩

/-- A call outside the condition is seen at once. -/
theorem Sound.plain_of_virtualised {label : Label} (sound : s.Sound) (stepped : Step s label next)
    (virtualised : next.Virtualised) : s.Plain label := by
  cases stepped with
  | socket fd type free made =>
      obtain ⟨ptr, ctx, slot, here, known, user, asked, _⟩ := create_spec sound free type _ made
      obtain ⟨flags, reported, flag⟩ := known.getfl slot here
      have registered : (next.manager.slot fd).isSome := by
        rw [slot]
        rfl
      obtain ⟨_, _, reportedToo, is⟩ := virtualised fd registered
      rw [reported] at reportedToo
      cases reportedToo
      exact asked.symm.trans (is.symm.trans (flag.trans user))
  | accept fd free made => exact trivial
  | setfl fd arg => exact trivial
  | fionbio fd value =>
      intro registered
      obtain ⟨ptr, slot⟩ := Option.isSome_iff_exists.mp registered
      obtain ⟨ctx, here, owned⟩ := sound fd ptr slot
      obtain ⟨file, isOpen, _⟩ := owned.isOpen
      obtain ⟨after, afterOpen, set⟩ := Kernel.fionbio_self isOpen value
      obtain ⟨⟨found, foundOpen, nonblock⟩, _⟩ := virtualised fd (registered_fionbio registered value)
      rw [show (s.fionbio fd value).kernel fd = some after from afterOpen] at foundOpen
      cases foundOpen
      exact of_decide_eq_true (set.symm.trans nonblock)

/-- In the runs of calls that keep to the condition the kernel's flag is set and `F_GETFL`
reports the last request; a call does what is asked exactly when it keeps to the condition. -/
theorem modes_virtualised (reached : modes.Reaches Plain s) :
    s.Virtualised ∧
      ∀ label next, Step s label next → (next.Virtualised ↔ s.Plain label) := by
  have sound : s.Sound := by
    refine reached.invariant Sound (fun state isInitial fd ptr slot => ?_)
      fun _ _ _ _ sound plain stepped => sound.step plain stepped
    rw [isInitial.1, FdManager.slot_new] at slot
    cases slot
  refine ⟨sound.virtualised, fun label next stepped => ⟨sound.plain_of_virtualised stepped, ?_⟩⟩
  intro plain
  exact (sound.step plain stepped).virtualised

/-- A creation in a table that is large enough. -/
theorem create_inside (empty : s.manager.slot fd = none) (inside : fd.val < s.manager.m_datas.length)
    (large : (fd.val : Int) < toInt32 s.manager.m_datas.length) :
    s.create fd =
      some
        { s with
          manager :=
            { m_datas := s.manager.m_datas.set fd.val (some s.manager.ctxs.length)
              ctxs := s.manager.ctxs ++ [(FdCtx.new s.kernel fd).1] }
          kernel := (FdCtx.new s.kernel fd).2 } := by
  rw [create, lookup_true empty, FdManager.insert_inside inside large]
  rfl

/-- The first socket of a process, of type `SOCK_STREAM`. -/
theorem first_reaches (allowed : Modes → Label → Prop)
    (isAllowed : allowed ⟨fun _ => none, .new, fun _ => false⟩ (.socket 3 1)) :
    ∃ s, modes.Reaches allowed s ∧ (s.manager.slot 3).isSome ∧ (s.kernel 3).isSome := by
  have start : modes.Reaches allowed ⟨fun _ => none, .new, fun _ => false⟩ :=
    .initial ⟨rfl, fun fd file isOpen => by cases isOpen⟩
  have made : modes.Reaches allowed _ :=
    .step start isAllowed (.socket 3 1 rfl (create_inside FdManager.slot_new (by decide) (by decide)))
  exact ⟨_, made, rfl, rfl⟩

/-- A socket that the user puts into non-blocking mode. -/
theorem modes_virtualised_asked :
    ∃ s : Modes, (s.manager.slot 3).isSome ∧ s.asked 3 = true ∧ s.Virtualised := by
  obtain ⟨s, made, registered, _⟩ := first_reaches Plain rfl
  have asked : modes.Reaches Plain (s.fionbio 3 1) :=
    .step made (by exact fun _ => Int.one_ne_zero) (.fionbio 3 1)
  refine ⟨_, registered_fionbio registered 1, ?_, (modes_virtualised asked).1⟩
  show Function.update s.asked 3 (decide ((1 : Int) ≠ 0)) 3 = true
  rw [Function.update_self]
  rfl

/-- `ioctl(FIONBIO)` with 0 on a registered socket puts the kernel into blocking mode. -/
theorem ioctl_blocks :
    ∃ s : Modes, modes.Reachable s ∧ (s.manager.slot 3).isSome ∧
      ∃ file, s.kernel 3 = some file ∧ nonblocking file.flags = false := by
  obtain ⟨s, made, registered, isOpen⟩ := first_reaches (fun _ _ => True) trivial
  obtain ⟨file, is⟩ := Option.isSome_iff_exists.mp isOpen
  obtain ⟨after, afterOpen, flag⟩ := Kernel.fionbio_self is 0
  exact ⟨s.fionbio 3 0, made.step trivial (Step.fionbio 3 0), registered_fionbio registered 0, after,
    afterOpen, flag⟩

end Modes

end Exhy
