import Exhy.Library.Count
import Exhy.Library.CString
import Exhy.Library.Transition
import Mathlib.Data.BitVec

/-!
# The pool of connections

`getConnection` and `ReleasePtr` of `HttpConnectionPool`.  Each region under the lock, each
update of `m_total` and each deletion is one step.  The counter and the places of the
connections are accounted for across the calls that are under way.
-/

namespace Exhy.Http

open Library

/-- What the constructor is given and the two functions read. -/
structure HttpConnectionPool where
  m_maxSize : UInt32
  m_maxAliveTime : UInt32
  m_maxRequest : UInt32
  deriving DecidableEq, Repr

namespace HttpConnectionPool

/-- A connection.  `madeAt` is the clock when it was made, which the code does not record. -/
structure Conn where
  isConnected : Bool
  m_createTime : UInt64
  m_request : UInt64
  madeAt : UInt64
  deriving DecidableEq, Repr

/-- Where a thread is.  `discarding` has the connections still to be deleted, and how many
`m_total` is to be lowered by. -/
inductive Stage where
  | outside
  | searching (now_ms : UInt64)
  | discarding (invalid_conns : List Nat) (count : Nat) (ptr : Option Nat)
  | connecting
  | created (ptr : Nat)
  | releasing (ptr : Nat)
  | deleting (ptr : Nat)
  | deleted
  | keeping (ptr : Nat)
  deriving DecidableEq, Repr

/-- The connections are numbered as they are made.  `handedOut` are those that `getConnection`
has returned and that have not been released, `deleted` those that have been deleted. -/
structure State (Thread : Type) where
  m_conns : List Nat
  m_total : BitVec 32
  conn : Nat → Conn
  made : Nat
  handedOut : List Nat
  deleted : List Nat
  clock : UInt64
  stage : Thread → Stage

/-- `createTime + m_maxAliveTime`. -/
def expiry (pool : HttpConnectionPool) (conn : Conn) : UInt64 :=
  conn.m_createTime + pool.m_maxAliveTime.toUInt64

/-- The loop under the lock: `invalid_conns`, `ptr` and what is left of `m_conns`. -/
def search (pool : HttpConnectionPool) (conn : Nat → Conn) (now_ms : UInt64) :
    List Nat → List Nat × Option Nat × List Nat
  | [] => ([], none, [])
  | first :: rest =>
      if !(conn first).isConnected || pool.expiry (conn first) > now_ms then
        let (invalid_conns, ptr, left) := pool.search conn now_ms rest
        (first :: invalid_conns, ptr, left)
      else ([], some first, rest)

/-- The test of `ReleasePtr` for a deletion. -/
def discards (pool : HttpConnectionPool) (conn : Conn) (now_ms : UInt64) : Bool :=
  !conn.isConnected || pool.expiry conn ≥ now_ms || conn.m_request ≥ pool.m_maxRequest.toUInt64

inductive Label (Thread : Type) where
  | getConnection (thread : Thread)
  | search (thread : Thread)
  | delete (thread : Thread)
  | subtract (thread : Thread)
  | connect (thread : Thread) (result : Bool)
  | increment (thread : Thread)
  | release (thread : Thread) (ptr : Nat)
  | test (thread : Thread)
  | deletePtr (thread : Thread)
  | decrement (thread : Thread)
  | push_back (thread : Thread)
  | disconnect (ptr : Nat)
  | tick (clock : UInt64)
  deriving DecidableEq

variable {Thread : Type} [DecidableEq Thread]

def State.setStage (s : State Thread) (thread : Thread) (stage : Stage) : State Thread :=
  { s with stage := Function.update s.stage thread stage }

@[simp] theorem stage_setStage (s : State Thread) (thread : Thread) (stage : Stage) :
    (s.setStage thread stage).stage thread = stage := Function.update_self ..

inductive Step (pool : HttpConnectionPool) : State Thread → Label Thread → State Thread → Prop where
  | getConnection {s : State Thread} (thread : Thread) : s.stage thread = .outside →
      Step pool s (.getConnection thread) (s.setStage thread (.searching s.clock))
  | search {s : State Thread} (thread : Thread) {now_ms : UInt64} {invalid_conns left : List Nat}
      {ptr : Option Nat} : s.stage thread = .searching now_ms →
      pool.search s.conn now_ms s.m_conns = (invalid_conns, ptr, left) →
      Step pool s (.search thread)
        ({ s with m_conns := left }.setStage thread
          (.discarding invalid_conns invalid_conns.length ptr))
  /-- `delete i`. -/
  | delete {s : State Thread} (thread : Thread) {i : Nat} {invalid_conns : List Nat} {count : Nat}
      {ptr : Option Nat} : s.stage thread = .discarding (i :: invalid_conns) count ptr →
      Step pool s (.delete thread)
        ({ s with deleted := i :: s.deleted }.setStage thread
          (.discarding invalid_conns count ptr))
  /-- `m_total -= invalid_conns.size()`, and the return of `ptr` if there is one. -/
  | subtract {s : State Thread} (thread : Thread) {count : Nat} {ptr : Option Nat} :
      s.stage thread = .discarding [] count ptr →
      Step pool s (.subtract thread)
        ({ s with
          m_total := s.m_total - BitVec.ofNat 32 count
          handedOut := ptr.toList ++ s.handedOut }.setStage thread
          (if ptr.isSome then .outside else .connecting))
  /-- The look-up of the address, the socket or the connection fails. -/
  | connectFails {s : State Thread} (thread : Thread) : s.stage thread = .connecting →
      Step pool s (.connect thread false) (s.setStage thread .outside)
  | connect {s : State Thread} (thread : Thread) : s.stage thread = .connecting →
      Step pool s (.connect thread true)
        ({ s with
          conn := Function.update s.conn s.made ⟨true, 0, 0, s.clock⟩
          made := s.made + 1 }.setStage thread (.created s.made))
  /-- `++m_total` and the return. -/
  | increment {s : State Thread} (thread : Thread) {ptr : Nat} : s.stage thread = .created ptr →
      Step pool s (.increment thread)
        ({ s with m_total := s.m_total + 1, handedOut := ptr :: s.handedOut }.setStage thread
          .outside)
  /-- `ReleasePtr` up to `++ptr->m_request`. -/
  | release {s : State Thread} (thread : Thread) (ptr : Nat) : s.stage thread = .outside →
      ptr ∈ s.handedOut →
      Step pool s (.release thread ptr)
        ({ s with
          conn := Function.update s.conn ptr
            { s.conn ptr with m_request := (s.conn ptr).m_request + 1 }
          handedOut := s.handedOut.erase ptr }.setStage thread (.releasing ptr))
  | test {s : State Thread} (thread : Thread) {ptr : Nat} : s.stage thread = .releasing ptr →
      Step pool s (.test thread)
        (s.setStage thread
          (if pool.discards (s.conn ptr) s.clock then .deleting ptr else .keeping ptr))
  | deletePtr {s : State Thread} (thread : Thread) {ptr : Nat} : s.stage thread = .deleting ptr →
      Step pool s (.deletePtr thread)
        ({ s with deleted := ptr :: s.deleted }.setStage thread .deleted)
  /-- `--pool->m_total`. -/
  | decrement {s : State Thread} (thread : Thread) : s.stage thread = .deleted →
      Step pool s (.decrement thread)
        ({ s with m_total := s.m_total - 1 }.setStage thread .outside)
  | push_back {s : State Thread} (thread : Thread) {ptr : Nat} : s.stage thread = .keeping ptr →
      Step pool s (.push_back thread)
        ({ s with m_conns := s.m_conns ++ [ptr] }.setStage thread .outside)
  /-- `close()` of a connection. -/
  | disconnect {s : State Thread} (ptr : Nat) :
      Step pool s (.disconnect ptr)
        { s with conn := Function.update s.conn ptr { s.conn ptr with isConnected := false } }
  | tick {s : State Thread} (clock : UInt64) : Step pool s (.tick clock) { s with clock := clock }

/-- The pool of the constructor. -/
def Initial (s : State Thread) : Prop :=
  s.m_conns = [] ∧ s.m_total = 0 ∧ s.made = 0 ∧ s.handedOut = [] ∧ s.deleted = [] ∧
    ∀ thread, s.stage thread = .outside

/-- Every interleaving of the threads. -/
def calls (pool : HttpConnectionPool) (Thread : Type) [DecidableEq Thread] :
    System (State Thread) (Label Thread) where
  initial := Initial
  step := Step pool

/-! ## Accounting -/

/-- The connections that a call under way has in hand. -/
def Stage.owns : Stage → List Nat
  | .discarding invalid_conns _ ptr => invalid_conns ++ ptr.toList
  | .created ptr | .releasing ptr | .deleting ptr | .keeping ptr => [ptr]
  | _ => []

/-- What `m_total` counts for a call under way. -/
def Stage.counted : Stage → Nat
  | .discarding _ count ptr => count + ptr.toList.length
  | .releasing _ | .deleting _ | .deleted | .keeping _ => 1
  | _ => 0

variable [Fintype Thread]

/-- How often a connection is in the hands of the calls under way. -/
def State.inCalls (s : State Thread) (ptr : Nat) : Nat :=
  sumOver (fun stage => stage.owns.count ptr) s.stage

/-- In how many places a connection is. -/
def State.places (s : State Thread) (ptr : Nat) : Nat :=
  s.m_conns.count ptr + s.handedOut.count ptr + s.inCalls ptr + s.deleted.count ptr

structure Accounted (s : State Thread) : Prop where
  total : s.m_total =
    BitVec.ofNat 32 (s.m_conns.length + s.handedOut.length + sumOver Stage.counted s.stage)
  places : ∀ ptr, s.places ptr = if ptr < s.made then 1 else 0

/-- A step of one thread, for which only the changes have to be balanced. -/
theorem Accounted.setStage {s next : State Thread} (accounted : Accounted s) (thread : Thread)
    {stage : Stage} (stages : next.stage = s.stage)
    (total : ∀ counted : Nat,
      s.m_total = BitVec.ofNat 32 (s.m_conns.length + s.handedOut.length +
        ((s.stage thread).counted + counted)) →
      next.m_total = BitVec.ofNat 32 (next.m_conns.length + next.handedOut.length +
        (stage.counted + counted)))
    (places : ∀ ptr,
      next.m_conns.count ptr + next.handedOut.count ptr + stage.owns.count ptr +
          next.deleted.count ptr + (if ptr < s.made then 1 else 0) =
        s.m_conns.count ptr + s.handedOut.count ptr + (s.stage thread).owns.count ptr +
          s.deleted.count ptr + (if ptr < next.made then 1 else 0)) :
    Accounted (next.setStage thread stage) where
  total := by
    have moved := sumOver_update Stage.counted s.stage thread stage
    have part := le_sumOver Stage.counted s.stage thread
    have before := accounted.total
    rw [← Nat.add_sub_cancel' part] at before
    show next.m_total = BitVec.ofNat 32 (_ + _ +
      sumOver Stage.counted (Function.update next.stage thread stage))
    rw [total _ before, stages]
    congr 2
    omega
  places := by
    intro ptr
    have moved := sumOver_update (fun stage => stage.owns.count ptr) s.stage thread stage
    have before := accounted.places ptr
    have balance := places ptr
    rw [State.places, State.inCalls] at before ⊢
    show _ + _ + sumOver _ (Function.update next.stage thread stage) + _ =
      if ptr < next.made then 1 else 0
    rw [stages]
    show next.m_conns.count ptr + next.handedOut.count ptr + _ + next.deleted.count ptr = _
    omega

/-- The loop cuts the list into what it discards, what it takes and what it leaves. -/
theorem search_parts {pool : HttpConnectionPool} {conn : Nat → Conn} {now_ms : UInt64}
    {m_conns invalid_conns left : List Nat} {ptr : Option Nat}
    (found : pool.search conn now_ms m_conns = (invalid_conns, ptr, left)) :
    m_conns = invalid_conns ++ ptr.toList ++ left := by
  induction m_conns generalizing invalid_conns with
  | nil =>
      cases found
      rfl
  | cons first rest ih =>
      rw [search] at found
      split at found
      · cases found
        rw [List.cons_append, List.cons_append, ← ih rfl]
      · cases found
        rfl

/-- A counter of 32 bits that is lowered by what it counts. -/
theorem total_sub {total : BitVec 32} {rest count : Nat}
    (before : total = BitVec.ofNat 32 (rest + count)) :
    total - BitVec.ofNat 32 count = BitVec.ofNat 32 rest := by
  rw [before, BitVec.ofNat_add, BitVec.add_sub_cancel]

theorem stage_returned_counted (ptr : Option Nat) :
    (if ptr.isSome then Stage.outside else .connecting).counted = 0 := by
  cases ptr with
  | none => rfl
  | some ptr => rfl

theorem stage_returned_owns (ptr : Option Nat) :
    (if ptr.isSome then Stage.outside else .connecting).owns = [] := by
  cases ptr with
  | none => rfl
  | some ptr => rfl

variable {pool : HttpConnectionPool} {s next : State Thread}

theorem Accounted.step {label : Label Thread} (accounted : Accounted s)
    (stepped : Step pool s label next) : Accounted next := by
  cases stepped with
  | getConnection thread outside =>
      refine accounted.setStage thread rfl (fun counted before => ?_) fun ptr => ?_
      · rw [outside] at before
        exact before
      · rw [outside]
        rfl
  | @search thread now_ms invalid_conns left ptr searching found =>
      have parts := search_parts found
      refine accounted.setStage thread rfl (fun counted before => ?_) fun other => ?_
      · rw [searching, parts] at before
        rw [before]
        simp only [Stage.counted, List.length_append]
        congr 1
        omega
      · rw [searching, parts]
        simp only [Stage.owns, List.count_append, List.count_nil]
        omega
  | delete thread discarding =>
      refine accounted.setStage thread rfl (fun counted before => ?_) fun other => ?_
      · rw [discarding] at before
        exact before
      · rw [discarding]
        simp only [Stage.owns, List.cons_append, List.count_cons]
        omega
  | @subtract thread count ptr discarding =>
      refine accounted.setStage thread rfl (fun counted before => ?_) fun other => ?_
      · rw [discarding] at before
        apply (total_sub (before.trans (congrArg (BitVec.ofNat 32) ?_))).trans
        · rw [stage_returned_counted, List.length_append, Nat.zero_add]
        · simp only [Stage.counted]
          omega
      · rw [discarding, stage_returned_owns]
        simp only [Stage.owns, List.nil_append, List.count_append, List.count_nil]
        omega
  | connectFails thread connecting =>
      refine accounted.setStage thread rfl (fun counted before => ?_) fun ptr => ?_
      · rw [connecting] at before
        exact before
      · rw [connecting]
        rfl
  | connect thread connecting =>
      refine accounted.setStage thread rfl (fun counted before => ?_) fun ptr => ?_
      · rw [connecting] at before
        exact before
      · rw [connecting]
        simp only [Stage.owns, List.count_cons, List.count_nil, beq_iff_eq]
        rcases Nat.lt_trichotomy ptr s.made with old | rfl | later
        · rw [if_pos old, if_pos (Nat.lt_succ_of_lt old), if_neg (Nat.ne_of_gt old)]
        · rw [if_neg (Nat.lt_irrefl _), if_pos (Nat.lt_succ_self _), if_pos rfl]
          omega
        · rw [if_neg (Nat.lt_asymm later), if_neg (Nat.not_lt.mpr later), if_neg (Nat.ne_of_lt later)]
  | increment thread created =>
      refine accounted.setStage thread rfl (fun counted before => ?_) fun other => ?_
      · rw [created] at before
        show s.m_total + BitVec.ofNat 32 1 = _
        rw [before, ← BitVec.ofNat_add, List.length_cons]
        congr 1
        simp only [Stage.counted]
        omega
      · rw [created]
        simp only [Stage.owns, List.count_cons, List.count_nil]
        omega
  | @release thread ptr outside handedOut =>
      refine accounted.setStage thread rfl (fun counted before => ?_) fun other => ?_
      · rw [outside] at before
        rw [before, List.length_erase_of_mem handedOut]
        congr 1
        have some := List.length_pos_of_mem handedOut
        simp only [Stage.counted]
        omega
      · rw [outside]
        have some := List.count_pos_iff.mpr handedOut
        simp only [Stage.owns, List.count_erase, List.count_cons, List.count_nil, beq_iff_eq]
        split
        · next same =>
            subst same
            omega
        · omega
  | @test thread ptr releasing =>
      refine accounted.setStage thread rfl (fun counted before => ?_) fun other => ?_
      · rw [releasing] at before
        split
        · exact before
        · exact before
      · rw [releasing]
        split
        · rfl
        · rfl
  | deletePtr thread deleting =>
      refine accounted.setStage thread rfl (fun counted before => ?_) fun other => ?_
      · rw [deleting] at before
        exact before
      · rw [deleting]
        simp only [Stage.owns, List.count_cons, List.count_nil]
        omega
  | decrement thread deleted =>
      refine accounted.setStage thread rfl (fun counted before => ?_) fun other => ?_
      · rw [deleted] at before
        apply total_sub (before.trans (congrArg (BitVec.ofNat 32) ?_))
        simp only [Stage.counted]
        omega
      · rw [deleted]
        rfl
  | push_back thread keeping =>
      refine accounted.setStage thread rfl (fun counted before => ?_) fun other => ?_
      · rw [keeping] at before
        rw [before, List.length_append, List.length_singleton]
        congr 1
        simp only [Stage.counted]
        omega
      · rw [keeping]
        simp only [Stage.owns, List.count_append, List.count_cons, List.count_nil]
        omega
  | disconnect ptr => exact ⟨accounted.total, accounted.places⟩
  | tick clock => exact ⟨accounted.total, accounted.places⟩

omit [DecidableEq Thread] in
theorem accounted_initial (isInitial : Initial s) : Accounted s := by
  obtain ⟨m_conns, m_total, made, handedOut, deleted, outside⟩ := isInitial
  constructor
  case total =>
    rw [m_conns, m_total, handedOut, sumOver_eq_zero fun thread => by rw [outside thread]; rfl]
    rfl
  case places =>
    intro ptr
    rw [State.places, State.inCalls, m_conns, handedOut, deleted, made,
      sumOver_eq_zero fun thread => by rw [outside thread]; rfl]
    rfl

theorem accounted_reachable (reached : (calls pool Thread).Reachable s) : Accounted s :=
  reached.invariant Accounted (fun _ isInitial => accounted_initial isInitial)
    fun _ _ _ _ accounted _ stepped => accounted.step stepped

/-- When no call is under way `m_total` is the number of idle connections and of those that are
handed out; and a connection is always in one place, once. -/
theorem pool_accounting (reached : (calls pool Thread).Reachable s) :
    ((∀ thread, s.stage thread = .outside) →
      s.m_total.toInt = toInt32 (s.m_conns.length + s.handedOut.length : Nat)) ∧
    ∀ ptr < s.made,
      s.m_conns.count ptr + s.handedOut.count ptr + s.inCalls ptr + s.deleted.count ptr = 1 := by
  have accounted := accounted_reachable reached
  constructor
  · intro outside
    rw [accounted.total, sumOver_eq_zero fun thread => by rw [outside thread]; rfl,
      Nat.add_zero, BitVec.toInt_ofNat']
    rfl
  · intro ptr isMade
    exact (accounted.places ptr).trans (if_pos isMade)

/-- A connection is made, handed out and returned to the idle list. -/
theorem pool_accounting_returned :
    ∃ s : State Bool, s.m_conns = [0] ∧ s.m_total.toInt = toInt32 1 ∧ s.deleted.count 0 = 0 := by
  have start : (calls ⟨1, 10, 2⟩ Bool).Reachable
      ⟨[], 0, fun _ => ⟨false, 0, 0, 0⟩, 0, [], [], 20, fun _ => .outside⟩ :=
    .initial ⟨rfl, rfl, rfl, rfl, rfl, fun _ => rfl⟩
  have called : (calls ⟨1, 10, 2⟩ Bool).Reachable _ := .step start trivial (.getConnection true rfl)
  have searched : (calls ⟨1, 10, 2⟩ Bool).Reachable _ := .step called trivial (.search true rfl rfl)
  have subtracted : (calls ⟨1, 10, 2⟩ Bool).Reachable _ :=
    .step searched trivial (.subtract true rfl)
  have connected : (calls ⟨1, 10, 2⟩ Bool).Reachable _ :=
    .step subtracted trivial (.connect true rfl)
  have returned : (calls ⟨1, 10, 2⟩ Bool).Reachable _ :=
    .step connected trivial (.increment true rfl)
  have released : (calls ⟨1, 10, 2⟩ Bool).Reachable _ :=
    .step returned trivial (.release false 0 rfl List.mem_cons_self)
  have tested : (calls ⟨1, 10, 2⟩ Bool).Reachable _ := .step released trivial (.test false rfl)
  have pushed : (calls ⟨1, 10, 2⟩ Bool).Reachable _ := .step tested trivial (.push_back false rfl)
  obtain ⟨total, places⟩ := pool_accounting pushed
  refine ⟨_, rfl, total ?_, rfl⟩
  intro thread
  cases thread with
  | false => rfl
  | true => rfl

end HttpConnectionPool

end Exhy.Http
