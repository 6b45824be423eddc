import Exhy.Hook.FdManager

/-!
# Timeouts of sockets

What `setRecvTimeout` and `setSendTimeout` set is kept in the contexts of descriptors, where
`getRecvTimeout` and `getSendTimeout` read it.  Each operation comes with whether the hooks are on
in its thread.
-/

namespace Exhy.Timeouts

open Library

abbrev Fd := IOManager.Fd

structure timeval where
  tv_sec : Int
  tv_usec : Int

/-- `timeval tv{int(v / 1000), int(v % 1000 * 1000)}` -/
def timeval.ofMs (v : Int) : timeval := ⟨toInt32 (v.tdiv 1000), toInt32 (v.tmod 1000 * 1000)⟩

/-- What `setTimeout` is called with. -/
def timeval.ms (tv : timeval) : UInt64 :=
  (Int64.ofInt (tv.tv_sec * 1000 + tv.tv_usec.tdiv 1000)).toUInt64

/-- The contexts and the descriptors that are open. -/
structure Process where
  manager : FdManager
  kernel : Kernel

namespace Process

def start : Process := ⟨.new, fun _ => none⟩

variable (p : Process) (fd : Fd)

/-- `FdMgr::GetInstance()->get(fd, true)`; none where the table has no place for it. -/
def get : Option Process :=
  match p.manager.lookup fd true with
  | some _ => some p
  | none => (p.manager.insert p.kernel fd).map fun inserted => ⟨inserted.1, inserted.2.1⟩

/-- The context that `get(fd)` finds. -/
def context : Option Nat := (p.manager.lookup fd false).join

/-- The system has opened the descriptor. -/
def opened (file : File) : Process := { p with kernel := Function.update p.kernel fd (some file) }

/-- `socket`, with the descriptor that it gives. -/
def socket (file : File) (hook : Bool) : Option Process :=
  let p := p.opened fd file
  if hook then p.get fd else some p

/-- `accept`, which makes the context whether the hooks are on or not. -/
def accept (file : File) : Option Process := (p.opened fd file).get fd

/-- `close` -/
def close (hook : Bool) : Process where
  manager := if hook && (p.context fd).isSome then p.manager.del fd else p.manager
  kernel := Function.update p.kernel fd none

/-- `setsockopt` with one of the two timeouts. -/
def setsockopt (type : TimeoutType) (v : timeval) (hook : Bool) : Process :=
  if hook then
    match p.context fd with
    | none => p
    | some ctx => { p with manager := p.manager.modify ctx fun ctx => ctx.setTimeout type v.ms }
  else p

def setRecvTimeout (v : Int) (hook : Bool) : Process :=
  p.setsockopt fd .SO_RCVTIMEO (.ofMs v) hook

def setSendTimeout (v : Int) (hook : Bool) : Process :=
  p.setsockopt fd .SO_SNDTIMEO (.ofMs v) hook

/-- `ctx->getTimeout(type)`, -1 without a context. -/
def getTimeout (type : TimeoutType) : Int :=
  match (p.context fd).bind fun ctx => p.manager.ctxs[ctx]? with
  | none => -1
  | some ctx => (ctx.getTimeout type).toInt64.toInt

def getRecvTimeout : Int := p.getTimeout fd .SO_RCVTIMEO

def getSendTimeout : Int := p.getTimeout fd .SO_SNDTIMEO

end Process

inductive Op where
  | socket (fd : Fd) (file : File) (hook : Bool)
  | accept (fd : Fd) (file : File)
  | close (fd : Fd) (hook : Bool)
  | setRecvTimeout (fd : Fd) (v : Int) (hook : Bool)
  | setSendTimeout (fd : Fd) (v : Int) (hook : Bool)

def Op.fd : Op → Fd
  | .socket fd _ _ | .accept fd _ | .close fd _ | .setRecvTimeout fd _ _
  | .setSendTimeout fd _ _ => fd

def Process.perform (p : Process) : Op → Option Process
  | .socket fd file hook => p.socket fd file hook
  | .accept fd file => p.accept fd file
  | .close fd hook => some (p.close fd hook)
  | .setRecvTimeout fd v hook => some (p.setRecvTimeout fd v hook)
  | .setSendTimeout fd v hook => some (p.setSendTimeout fd v hook)

/-! ## What is kept -/

/-- What is read back of a timeout: the seconds have room in an `int` alone. -/
def kept (v : Int) : Int := toInt32 (v.tdiv 1000) * 1000 + v.tmod 1000

theorem kept_iff (v : Int) : kept v = v ↔ -2147483648999 ≤ v ∧ v ≤ 2147483647999 := by
  have parts := Int.tdiv_mul_add_tmod v 1000
  have bounds : -1000 < v.tmod 1000 ∧ v.tmod 1000 < 1000 := by
    constructor
    · exact Int.lt_tmod_of_pos v (by decide)
    · exact Int.tmod_lt_of_pos v (by decide)
  have whole : toInt32 (v.tdiv 1000) = v.tdiv 1000 ↔
      -2147483648 ≤ v.tdiv 1000 ∧ v.tdiv 1000 < 2147483648 := by
    rw [toInt32]
    constructor
    · intro same
      have lower := Int.le_bmod (x := v.tdiv 1000) (m := 2 ^ 32) (by decide)
      have upper := Int.bmod_lt (x := v.tdiv 1000) (m := 2 ^ 32) (by decide)
      rw [same] at lower upper
      omega
    · intro inside
      exact Int.bmod_eq_of_le (by omega) (by omega)
  have same : kept v = v ↔ toInt32 (v.tdiv 1000) = v.tdiv 1000 := by
    rw [kept]
    omega
  rw [same, whole]
  rcases Int.le_total 0 v with positive | negative
  · have sign := Int.tmod_nonneg 1000 positive
    omega
  · have sign := Int.tmod_nonneg (a := -v) 1000 (by omega)
    rw [Int.neg_tmod] at sign
    omega

/-- The timeouts of the descriptors that have a context. -/
abbrev Settings := Fd → Option (TimeoutType → Int)

namespace Settings

variable (s : Settings) (fd : Fd)

/-- A new context has no timeouts, and one that is there stays. -/
def get : Settings := Function.update s fd (some ((s fd).getD fun _ => -1))

def set (type : TimeoutType) (v : Int) : Settings :=
  Function.update s fd ((s fd).map fun timeouts => Function.update timeouts type v)

def timeout (type : TimeoutType) : Int := ((s fd).map fun timeouts => timeouts type).getD (-1)

def perform : Op → Settings
  | .socket fd _ hook => if hook then s.get fd else s
  | .accept fd _ => s.get fd
  | .close fd hook => if hook then Function.update s fd none else s
  | .setRecvTimeout fd v hook => if hook then s.set fd .SO_RCVTIMEO (kept v) else s
  | .setSendTimeout fd v hook => if hook then s.set fd .SO_SNDTIMEO (kept v) else s

theorem perform_close (hook : Bool) :
    s.perform (.close fd hook) = if hook then Function.update s fd none else s := rfl

end Settings

/-! ## Contexts and timeouts -/

/-- The timeouts of a context of the table. -/
def timeouts (m : FdManager) (ctx : Nat) (type : TimeoutType) : Int :=
  match m.ctxs[ctx]? with
  | none => -1
  | some ctx => (ctx.getTimeout type).toInt64.toInt

/-- The contexts are those of the descriptors, one each, and the size of the table is an `int`. -/
structure Inv (m : FdManager) (s : Settings) : Prop where
  large : 64 ≤ m.m_datas.length
  bounded : m.m_datas.length < 2 ^ 31
  allocated : ∀ (fd : Fd) ctx, m.slot fd = some ctx → ctx < m.ctxs.length
  apart : ∀ (fd other : Fd) ctx, m.slot fd = some ctx → m.slot other = some ctx → fd = other
  same : ∀ fd, s fd = (m.slot fd).map (timeouts m)

section Steps

variable {m : FdManager} {s : Settings} {fd : Fd}

theorem lookup_false (m : FdManager) (fd : Fd) : m.lookup fd false = some (m.slot fd) := by
  rw [FdManager.lookup]
  split
  · rename_i small
    rw [FdManager.slot, List.getElem?_eq_none small]
    rfl
  · rw [if_pos (by simp)]

theorem context_eq (p : Process) (fd : Fd) : p.context fd = p.manager.slot fd := by
  rw [Process.context, lookup_false]
  rfl

theorem lookup_of_isSome (there : (m.slot fd).isSome) : m.lookup fd true = some (m.slot fd) := by
  have inside : ¬m.m_datas.length ≤ fd.val := by
    intro small
    rw [FdManager.slot, List.getElem?_eq_none small] at there
    cases there
  rw [FdManager.lookup, if_neg inside, there]
  rfl

theorem lookup_of_none (missing : m.slot fd = none) : m.lookup fd true = none := by
  rw [FdManager.lookup, missing]
  split <;> rfl

theorem length_resize (inv : Inv m s) (small : fd.val < 2 ^ 30) :
    fd.val < (m.resize fd).length ∧ m.m_datas.length ≤ (m.resize fd).length ∧
      (m.resize fd).length < 2 ^ 31 := by
  have large := inv.large
  have bounded := inv.bounded
  rw [FdManager.resize, toInt32_of_small bounded]
  split
  · rw [List.length_append, List.length_take, List.length_replicate]
    omega
  · omega

/-- A new context has no timeouts. -/
theorem getTimeout_new (kernel : Kernel) (fd : Fd) (type : TimeoutType) :
    (FdCtx.new kernel fd).1.getTimeout type = -1 := by
  rw [FdCtx.new]
  dsimp only
  split
  · cases type <;> rfl
  · split <;> cases type <;> rfl

/-- What is inserted where there is no context. -/
theorem Inv.insert {kernel after : Kernel} {next : FdManager} {ctx : Nat} (inv : Inv m s)
    (small : fd.val < 2 ^ 30) (missing : m.slot fd = none)
    (inserted : m.insert kernel fd = some (next, after, ctx)) : Inv next (s.get fd) := by
  obtain ⟨-, longer, bounded⟩ := length_resize inv small
  have large := inv.large
  obtain ⟨here, place, ctxs, -, others⟩ := FdManager.insert_slot inserted
  have length : next.m_datas.length = (m.resize fd).length := by
    rw [FdManager.insert] at inserted
    split at inserted
    · rw [Option.some_inj, Prod.mk_inj] at inserted
      rw [← inserted.1, List.length_set]
    · cases inserted
  have slots : ∀ other ≠ fd, next.slot other = m.slot other := by
    intro other different
    rw [others other different]
    split
    · rfl
    · rename_i outside
      rw [FdManager.slot, List.getElem?_eq_none (by omega)]
      rfl
  have old : ∀ other < m.ctxs.length, timeouts next other = timeouts m other := by
    intro other inside
    funext type
    rw [timeouts, timeouts, ctxs, List.getElem?_append_left inside]
  have new : timeouts next ctx = fun _ => -1 := by
    funext type
    rw [timeouts, ctxs, place, List.getElem?_concat_length]
    dsimp only
    rw [getTimeout_new]
    rfl
  constructor
  · omega
  · omega
  · intro other found there
    rw [ctxs, List.length_append, List.length_singleton]
    by_cases same : other = fd
    · rw [same, here] at there
      cases there
      omega
    · rw [slots other same] at there
      have inside := inv.allocated other found there
      omega
  · intro first second found there thereToo
    by_cases same : first = fd
    · by_cases sameToo : second = fd
      · rw [same, sameToo]
      · rw [same, here] at there
        rw [slots second sameToo] at thereToo
        cases there
        have inside := inv.allocated second ctx thereToo
        omega
    · rw [slots first same] at there
      by_cases sameToo : second = fd
      · rw [sameToo, here] at thereToo
        cases thereToo
        have inside := inv.allocated first ctx there
        omega
      · rw [slots second sameToo] at thereToo
        exact inv.apart first second found there thereToo
  · intro other
    have spec := inv.same other
    by_cases same : other = fd
    · rw [same, missing] at spec
      rw [same, Settings.get, Function.update_self, spec, here, Option.map_some, new]
      rfl
    · rw [Settings.get, Function.update_of_ne same, spec, slots other same]
      cases there : m.slot other with
      | none => rfl
      | some found => rw [Option.map_some, Option.map_some, old found (inv.allocated other found there)]

/-- `get(fd, true)` always finds a place. -/
theorem Inv.get {p : Process} (inv : Inv p.manager s) (small : fd.val < 2 ^ 30) :
    ∃ next, p.get fd = some next ∧ Inv next.manager (s.get fd) := by
  cases there : p.manager.slot fd with
  | some ctx =>
      have found : p.get fd = some p := by
        rw [Process.get, lookup_of_isSome (by rw [there]; rfl)]
      have spec := inv.same fd
      rw [there, Option.map_some] at spec
      have kept : s.get fd = s := by
        rw [Settings.get, spec, Option.getD_some, ← spec, Function.update_eq_self]
      refine ⟨p, found, ?_⟩
      rw [kept]
      exact inv
  | none =>
      obtain ⟨inside, -, -⟩ := length_resize inv small
      cases inserted : p.manager.insert p.kernel fd with
      | none =>
          rw [FdManager.insert, if_pos inside] at inserted
          cases inserted
      | some made =>
          obtain ⟨next, after, ctx⟩ := made
          refine ⟨⟨next, after⟩, ?_, inv.insert small there inserted⟩
          rw [Process.get, lookup_of_none there, inserted]
          rfl

theorem Inv.del (inv : Inv m s) (fd : Fd) : Inv (m.del fd) (Function.update s fd none) := by
  have here : (m.del fd).slot fd = none := by
    rw [FdManager.del, toInt32_of_small inv.bounded]
    split
    · rename_i beyond
      rw [FdManager.slot, List.getElem?_eq_none (by omega)]
      rfl
    · rw [FdManager.slot, List.getElem?_set_self (by omega)]
      rfl
  have ctxs : (m.del fd).ctxs = m.ctxs := by
    rw [FdManager.del]
    split <;> rfl
  have length : (m.del fd).m_datas.length = m.m_datas.length := by
    rw [FdManager.del]
    split
    · rfl
    · rw [List.length_set]
  have slots : ∀ (other : Fd) ctx, (m.del fd).slot other = some ctx →
      other ≠ fd ∧ m.slot other = some ctx := by
    intro other ctx there
    by_cases same : other = fd
    · rw [same, here] at there
      cases there
    · rw [FdManager.del_slot same] at there
      exact ⟨same, there⟩
  have old : timeouts (m.del fd) = timeouts m := by
    funext ctx type
    rw [timeouts, timeouts, ctxs]
  constructor
  · rw [length]
    exact inv.large
  · rw [length]
    exact inv.bounded
  · intro other ctx there
    rw [ctxs]
    exact inv.allocated other ctx (slots other ctx there).2
  · intro first second ctx there thereToo
    exact inv.apart first second ctx (slots first ctx there).2 (slots second ctx thereToo).2
  · intro other
    by_cases same : other = fd
    · rw [same, Function.update_self, here]
      rfl
    · rw [Function.update_of_ne same, FdManager.del_slot same, old]
      exact inv.same other

theorem Inv.close {p : Process} (inv : Inv p.manager s) (fd : Fd) (hook : Bool) :
    Inv (p.close fd hook).manager (s.perform (.close fd hook)) := by
  rw [Settings.perform_close, Process.close, context_eq]
  cases hook with
  | false => exact inv
  | true =>
      rw [if_pos rfl]
      cases there : p.manager.slot fd with
      | some ctx =>
          rw [Option.isSome_some, Bool.true_and, if_pos rfl]
          dsimp only
          exact inv.del fd
      | none =>
          have spec := inv.same fd
          rw [there, Option.map_none] at spec
          rw [← spec, Function.update_eq_self]
          exact inv

/-- The two conversions of the timeout. -/
theorem toInt_ms (v : Int) : (timeval.ofMs v).ms.toInt64.toInt = kept v := by
  have remainder : -1000 < v.tmod 1000 ∧ v.tmod 1000 < 1000 :=
    ⟨Int.lt_tmod_of_pos v (by decide), Int.tmod_lt_of_pos v (by decide)⟩
  have whole : toInt32 (v.tmod 1000 * 1000) = v.tmod 1000 * 1000 :=
    Int.bmod_eq_of_le (by omega) (by omega)
  have lower := Int.le_bmod (x := v.tdiv 1000) (m := 2 ^ 32) (by decide)
  have upper := Int.bmod_lt (x := v.tdiv 1000) (m := 2 ^ 32) (by decide)
  rw [timeval.ms, timeval.ofMs]
  dsimp only
  rw [whole, Int.mul_tdiv_cancel _ (by decide), ← kept]
  apply Int64.toInt_ofInt_of_le
  · rw [kept, toInt32]
    omega
  · rw [kept, toInt32]
    omega

/-- A timeout of the context of a descriptor is set. -/
theorem timeouts_setTimeout {ctx : Nat} (inside : ctx < m.ctxs.length) (type : TimeoutType)
    (v : UInt64) :
    timeouts (m.modify ctx fun ctx => ctx.setTimeout type v) ctx =
      Function.update (timeouts m ctx) type v.toInt64.toInt := by
  funext other
  rw [timeouts, FdManager.modify, List.getElem?_modify_eq, List.getElem?_eq_getElem inside]
  by_cases same : other = type
  · rw [same, Function.update_self]
    cases type <;> rfl
  · rw [Function.update_of_ne same, timeouts, List.getElem?_eq_getElem inside]
    cases type <;> cases other <;> first | rfl | exact absurd rfl same

theorem Inv.set {ctx : Nat} (inv : Inv m s) (there : m.slot fd = some ctx) (type : TimeoutType)
    (v : Int) :
    Inv (m.modify ctx fun ctx => ctx.setTimeout type (timeval.ofMs v).ms) (s.set fd type (kept v)) := by
  have inside := inv.allocated fd ctx there
  constructor
  · exact inv.large
  · exact inv.bounded
  · intro other found place
    rw [FdManager.modify, List.length_modify]
    exact inv.allocated other found place
  · exact inv.apart
  · intro other
    rw [FdManager.slot_modify]
    by_cases same : other = fd
    · rw [same, Settings.set, Function.update_self, inv.same fd, there, Option.map_some,
        Option.map_some, Option.map_some, timeouts_setTimeout inside, toInt_ms]
    · rw [Settings.set, Function.update_of_ne same, inv.same other]
      cases place : m.slot other with
      | none => rfl
      | some found =>
          have different : ctx ≠ found := by
            intro shared
            rw [shared] at there
            exact same (inv.apart other fd found place there)
          rw [Option.map_some, Option.map_some]
          congr 1
          funext type
          rw [timeouts, timeouts, FdManager.modify]
          dsimp only
          rw [List.getElem?_modify_ne _ _ different]

theorem Inv.setsockopt {p : Process} (inv : Inv p.manager s) (fd : Fd) (type : TimeoutType)
    (v : Int) (hook : Bool) :
    Inv (p.setsockopt fd type (.ofMs v) hook).manager (if hook then s.set fd type (kept v) else s) := by
  rw [Process.setsockopt, context_eq]
  cases hook with
  | false => exact inv
  | true =>
      cases there : p.manager.slot fd with
      | some ctx => exact inv.set there type v
      | none =>
          have spec := inv.same fd
          rw [there, Option.map_none] at spec
          have kept : s.set fd type (kept v) = s := by
            rw [Settings.set, spec, Option.map_none, ← spec, Function.update_eq_self]
          rw [if_pos rfl, kept]
          exact inv

/-- One operation on the table does on the settings what it says. -/
theorem Inv.perform {p : Process} (inv : Inv p.manager s) {op : Op} (small : op.fd.val < 2 ^ 30) :
    ∃ next, p.perform op = some next ∧ Inv next.manager (s.perform op) := by
  cases op with
  | socket fd file hook =>
      cases hook with
      | false => exact ⟨_, rfl, inv⟩
      | true => exact Inv.get (p := p.opened fd file) inv small
  | accept fd file => exact Inv.get (p := p.opened fd file) inv small
  | close fd hook => exact ⟨_, rfl, inv.close fd hook⟩
  | setRecvTimeout fd v hook => exact ⟨_, rfl, inv.setsockopt fd .SO_RCVTIMEO v hook⟩
  | setSendTimeout fd v hook => exact ⟨_, rfl, inv.setsockopt fd .SO_SNDTIMEO v hook⟩

theorem Inv.performAll {p : Process} (inv : Inv p.manager s) (ops : List Op)
    (small : ∀ op ∈ ops, op.fd.val < 2 ^ 30) :
    ∃ last, ops.foldlM Process.perform p = some last ∧
      Inv last.manager (ops.foldl Settings.perform s) := by
  induction ops generalizing p s with
  | nil => exact ⟨p, rfl, inv⟩
  | cons op ops ih =>
      rw [List.forall_mem_cons] at small
      obtain ⟨next, done, kept⟩ := inv.perform small.1
      obtain ⟨last, rest, inv⟩ := ih kept small.2
      refine ⟨last, ?_, inv⟩
      rw [List.foldlM_cons, done]
      exact rest

theorem Inv.start : Inv Process.start.manager fun _ => none := by
  constructor
  · exact Nat.le_refl 64
  · decide
  · intro fd ctx there
    rw [Process.start, FdManager.slot_new] at there
    cases there
  · intro fd other ctx there
    rw [Process.start, FdManager.slot_new] at there
    cases there
  · intro fd
    rw [Process.start, FdManager.slot_new]
    rfl

theorem Inv.getTimeout {p : Process} (inv : Inv p.manager s) (fd : Fd) (type : TimeoutType) :
    p.getTimeout fd type = s.timeout fd type := by
  rw [Process.getTimeout, context_eq, Settings.timeout, inv.same fd]
  cases p.manager.slot fd with
  | none => rfl
  | some ctx => rfl

end Steps

/-- After any operations on descriptors, each timeout that is read is the last one that was set on
the descriptor with the hooks on since it has its context, and -1 where there was none.  It is the
one that was meant where its seconds are an `int`. -/
theorem timeouts_kept (ops : List Op) (small : ∀ op ∈ ops, op.fd.val < 2 ^ 30) :
    (∃ p, ops.foldlM Process.perform .start = some p ∧ ∀ fd,
      p.getRecvTimeout fd = (ops.foldl Settings.perform fun _ => none).timeout fd .SO_RCVTIMEO ∧
        p.getSendTimeout fd = (ops.foldl Settings.perform fun _ => none).timeout fd .SO_SNDTIMEO) ∧
      ∀ v, kept v = v ↔ -2147483648999 ≤ v ∧ v ≤ 2147483647999 := by
  obtain ⟨p, done, inv⟩ := Inv.start.performAll ops small
  refine ⟨⟨p, done, ?_⟩, kept_iff⟩
  intro fd
  exact ⟨inv.getTimeout fd .SO_RCVTIMEO, inv.getTimeout fd .SO_SNDTIMEO⟩

/-- A timeout that is set without the hooks is not read back. -/
theorem timeouts_kept_hooked : ∃ p, [Op.socket 7 ⟨true, 0⟩ true,
      .setRecvTimeout 7 1500 true, .setSendTimeout 7 2000 false].foldlM Process.perform .start =
        some p ∧ p.getRecvTimeout 7 = 1500 ∧ p.getSendTimeout 7 = -1 := by
  obtain ⟨⟨p, done, read⟩, meant⟩ := timeouts_kept [Op.socket 7 ⟨true, 0⟩ true,
    .setRecvTimeout 7 1500 true, .setSendTimeout 7 2000 false] (by decide +kernel)
  have same := (meant 1500).mpr (by decide)
  refine ⟨p, done, (read 7).1.trans ?_, (read 7).2.trans ?_⟩
  · simp [Settings.perform, Settings.get, Settings.set, Settings.timeout, same]
  · simp [Settings.perform, Settings.get, Settings.set, Settings.timeout]

end Exhy.Timeouts
