import Exhy.Http.Connection
import Exhy.Http.PoolLimits

/-!
# Exchanges on pooled connections

`HttpConnectionPool::doRequest`: a connection of the pool, one request and one response on it,
and its release.  Whether the release keeps the connection is decided by `isConnected`, which
only a response that cannot be received clears.
-/

namespace Exhy.Http

open Library

namespace HttpConnection

/-- `writeFixSize(buffer, length)`; `rts` are what the calls of `send` return, each no more than
is left.  None while a call is outstanding. -/
def writeFixSize (isConnected : Bool) (length : Nat) : (rts : List Int) → (left : Nat) → Option Int
  | _, 0 => some (toInt32 length)
  | [], _ + 1 => if isConnected then none else some (-1)
  | rt :: rts, left + 1 =>
      if !isConnected then some (-1)
      else if rt ≤ 0 then some rt
      else if rt.toNat ≤ left + 1 then writeFixSize isConnected length rts (left + 1 - rt.toNat)
      else none

/-- The header block has the line `Connection: close`. -/
def announcesClose (buff_size : Nat) (socket : Socket) : Bool :=
  match recvHeader buff_size (socket.flatten.length + 1) {} [] socket with
  | .error _ => false
  | .ok (parser, _, _) => parser.mParser.close

end HttpConnection

namespace HttpConnectionPool

/-- How `doRequest` is left behind `getConnection`: the send has failed, `recvResponse` returns
null or throws, or there is a response. -/
inductive Outcome where
  | sendFailed
  | null
  | threw
  | response (close : Bool)
  deriving DecidableEq, Repr

/-- The exchange broke off, or the connection is not to be used again. -/
def Outcome.broken : Outcome → Bool
  | .response close => close
  | _ => true

/-- The connection is closed by it. -/
def Outcome.closes : Outcome → Bool
  | .null => true
  | _ => false

/-- The exits that leave a connection open which is not to be used again. -/
def Outcome.leavesOpen : Outcome → Bool
  | .sendFailed | .threw => true
  | .null => false
  | .response close => close

/-- `doRequest` on a connection, with a request of `length` bytes. -/
def exchange (zlib : HttpConnection.ZlibStream) (buff_size : Nat) (isConnected : Bool)
    (length : Nat) (rts : List Int) (socket : Socket) : Option Outcome :=
  match HttpConnection.writeFixSize isConnected length rts length with
  | none => none
  | some rt =>
      if rt ≤ 0 then some .sendFailed
      else
        match HttpConnection.recvResponse zlib buff_size socket with
        | .ok _ => some (.response (HttpConnection.announcesClose buff_size socket))
        | .error .closed => some .null
        | .error .threw => some .threw
        | .error .stuck => none

namespace Exchange

/-- The pool, with the connections on which an exchange has broken off, and those that
`doRequest` has left by an exit that does not close them. -/
structure State (Thread : Type) where
  pool : HttpConnectionPool.State Thread
  broken : Nat → Bool
  leftOpen : Nat → Bool

inductive Label (Thread : Type) where
  | pool (label : HttpConnectionPool.Label Thread)
  | exchange (ptr length : Nat) (rts : List Int) (socket : Socket)

variable {Thread : Type} [DecidableEq Thread]

/-- A connection is used by the thread that it was handed out to, between `getConnection` and
its release. -/
inductive Step (pool : HttpConnectionPool) (zlib : HttpConnection.ZlibStream) (buff_size : Nat) :
    State Thread → Label Thread → State Thread → Prop where
  | pool {s : State Thread} {label : HttpConnectionPool.Label Thread}
      {next : HttpConnectionPool.State Thread} : HttpConnectionPool.Step pool s.pool label next →
      Step pool zlib buff_size s (.pool label) { s with pool := next }
  | exchange {s : State Thread} (ptr length : Nat) (rts : List Int) (socket : Socket)
      {outcome : Outcome} : ptr ∈ s.pool.handedOut →
      exchange zlib buff_size (s.pool.conn ptr).isConnected length rts socket = some outcome →
      Step pool zlib buff_size s (.exchange ptr length rts socket)
        { pool :=
            { s.pool with
              conn := Function.update s.pool.conn ptr
                { s.pool.conn ptr with
                  isConnected := (s.pool.conn ptr).isConnected && !outcome.closes } }
          broken := Function.update s.broken ptr (s.broken ptr || outcome.broken)
          leftOpen := Function.update s.leftOpen ptr (s.leftOpen ptr || outcome.leavesOpen) }

end Exchange

variable {Thread : Type} [DecidableEq Thread] {pool : HttpConnectionPool}
  {s next : State Thread} {label : Label Thread}

/-- The connection that a call is about to return. -/
def Stage.promised : Stage → Option Nat
  | .discarding _ _ ptr => ptr
  | .created ptr => some ptr
  | _ => none

theorem search_connected {conn : Nat → Conn} {now_ms : UInt64} {m_conns invalid_conns left : List Nat}
    {ptr : Nat} (found : pool.search conn now_ms m_conns = (invalid_conns, some ptr, left)) :
    ptr ∈ m_conns ∧ (conn ptr).isConnected = true := by
  induction m_conns generalizing invalid_conns with
  | nil => cases found
  | cons first rest ih =>
      rw [search] at found
      split at found
      · generalize tail : pool.search conn now_ms rest = result at found
        obtain ⟨invalid, taken, left⟩ := result
        cases found
        have later := ih tail
        exact ⟨List.mem_cons_of_mem _ later.1, later.2⟩
      · next valid =>
          cases found
          refine ⟨List.mem_cons_self, ?_⟩
          simp only [Bool.or_eq_true, not_or, Bool.not_eq_true', Bool.not_eq_false] at valid
          exact valid.1

/-- No step connects a connection that has been made. -/
theorem connected_of_step (stepped : Step pool s label next) {ptr : Nat} (isMade : ptr < s.made)
    (isConnected : (next.conn ptr).isConnected = true) : (s.conn ptr).isConnected = true := by
  cases stepped with
  | connect thread connecting =>
      change (Function.update s.conn s.made _ ptr).isConnected = true at isConnected
      rw [Function.update_of_ne (Nat.ne_of_lt isMade)] at isConnected
      exact isConnected
  | release thread other outside handedOut =>
      change (Function.update s.conn other _ ptr).isConnected = true at isConnected
      by_cases same : ptr = other
      · subst same
        rw [Function.update_self] at isConnected
        exact isConnected
      · rw [Function.update_of_ne same] at isConnected
        exact isConnected
  | disconnect other =>
      change (Function.update s.conn other _ ptr).isConnected = true at isConnected
      by_cases same : ptr = other
      · subst same
        rw [Function.update_self] at isConnected
        cases isConnected
      · rw [Function.update_of_ne same] at isConnected
        exact isConnected
  | _ => exact isConnected

theorem made_le_of_step (stepped : Step pool s label next) : s.made ≤ next.made := by
  cases stepped with
  | connect thread connecting => exact Nat.le_succ s.made
  | _ => exact Nat.le_refl s.made

/-- How a connection comes to be idle. -/
theorem idle_of_step (stepped : Step pool s label next) {ptr : Nat} (idle : ptr ∈ next.m_conns) :
    ptr ∈ s.m_conns ∨ ∃ thread, s.stage thread = .keeping ptr := by
  cases stepped with
  | search thread searching found =>
      left
      rw [search_parts found]
      exact List.mem_append_right _ idle
  | push_back thread keeping =>
      rcases List.mem_append.mp idle with old | new
      · exact .inl old
      · rw [List.mem_singleton.mp new]
        exact .inr ⟨thread, keeping⟩
  | _ => exact .inl idle

/-- A stage after a thread has moved on. -/
theorem stage_setStage_cases {stage : Stage} {thread other : Thread} (holds : Stage → Prop)
    (is : holds ((s.setStage thread stage).stage other)) :
    holds (s.stage other) ∨ other = thread ∧ holds stage := by
  by_cases same : other = thread
  · subst same
    rw [stage_setStage] at is
    exact .inr ⟨rfl, is⟩
  · left
    rw [State.setStage] at is
    dsimp only at is
    rw [Function.update_of_ne same] at is
    exact is

/-- A connection is about to be kept when the test has just let it pass. -/
theorem keeping_of_step (stepped : Step pool s label next) {thread : Thread} {ptr : Nat}
    (keeping : next.stage thread = .keeping ptr) :
    s.stage thread = .keeping ptr ∨
      label = .test thread ∧ s.stage thread = .releasing ptr ∧ next.conn = s.conn ∧
        pool.discards (s.conn ptr) s.clock = false := by
  cases stepped with
  | @test other found releasing =>
      rcases stage_setStage_cases (· = .keeping ptr) keeping with old | ⟨rfl, new⟩
      · exact .inl old
      · right
        split at new
        · cases new
        · next keeps =>
            cases new
            exact ⟨rfl, releasing, rfl, Bool.eq_false_iff.mpr keeps⟩
  | @subtract other count found discarding =>
      rcases stage_setStage_cases (· = .keeping ptr) keeping with old | ⟨_, new⟩
      · exact .inl old
      · cases found with
        | none => cases new
        | some ptr => cases new
  | disconnect other => exact .inl keeping
  | tick clock => exact .inl keeping
  | _ =>
      rcases stage_setStage_cases (· = .keeping ptr) keeping with old | ⟨_, new⟩
      · exact .inl old
      · cases new

/-- A connection is promised when it is made, or taken connected from the idle list. -/
theorem promised_of_step (stepped : Step pool s label next) {thread : Thread} {ptr : Nat}
    (promised : (next.stage thread).promised = some ptr) :
    (s.stage thread).promised = some ptr ∨
      ptr ∈ s.m_conns ∧ (s.conn ptr).isConnected = true ∨ ptr = s.made := by
  cases stepped with
  | search other searching found =>
      rcases stage_setStage_cases (Stage.promised · = some ptr) promised with old | ⟨_, new⟩
      · exact .inl old
      · cases new
        exact .inr (.inl (search_connected found))
  | @delete other first rest count found discarding =>
      rcases stage_setStage_cases (Stage.promised · = some ptr) promised with old | ⟨rfl, new⟩
      · exact .inl old
      · left
        rw [discarding]
        exact new
  | @subtract other count found discarding =>
      rcases stage_setStage_cases (Stage.promised · = some ptr) promised with old | ⟨_, new⟩
      · exact .inl old
      · cases found with
        | none => cases new
        | some ptr => cases new
  | connect other connecting =>
      rcases stage_setStage_cases (Stage.promised · = some ptr) promised with old | ⟨_, new⟩
      · exact .inl old
      · cases new
        exact .inr (.inr rfl)
  | @test other found releasing =>
      rcases stage_setStage_cases (Stage.promised · = some ptr) promised with old | ⟨_, new⟩
      · exact .inl old
      · split at new
        · cases new
        · cases new
  | disconnect other => exact .inl promised
  | tick clock => exact .inl promised
  | _ =>
      rcases stage_setStage_cases (Stage.promised · = some ptr) promised with old | ⟨_, new⟩
      · exact .inl old
      · cases new

theorem mem_owns_of_promised {stage : Stage} {ptr : Nat} (promised : stage.promised = some ptr) :
    ptr ∈ stage.owns := by
  cases stage with
  | discarding invalid_conns count found =>
      cases promised
      exact List.mem_append_right _ (List.mem_singleton_self ptr)
  | created found =>
      cases promised
      exact List.mem_singleton_self ptr
  | _ => cases promised

namespace Exchange

/-- The condition on a step: a release deletes what `doRequest` has left open. -/
def Rejected (pool : HttpConnectionPool) (s : State Thread) : Label Thread → Prop
  | .pool (.test thread) => ∀ ptr, s.pool.stage thread = .releasing ptr → s.leftOpen ptr = true →
      pool.discards (s.pool.conn ptr) s.pool.clock = true
  | _ => True

variable [Fintype Thread] {zlib : HttpConnection.ZlibStream} {buff_size : Nat}
  {s next : State Thread} {label : Label Thread}

/-- What every run keeps that keeps to the condition. -/
structure Safe (s : State Thread) : Prop where
  accounted : Accounted s.pool
  made : ∀ ptr, s.broken ptr = true → ptr < s.pool.made
  leftOpen : ∀ ptr, s.broken ptr = true → (s.pool.conn ptr).isConnected = true →
    s.leftOpen ptr = true
  idle : ∀ ptr ∈ s.pool.m_conns, s.broken ptr = true → (s.pool.conn ptr).isConnected = false
  keeping : ∀ thread ptr, s.pool.stage thread = .keeping ptr → s.broken ptr = true →
    (s.pool.conn ptr).isConnected = false
  promised : ∀ thread ptr, (s.pool.stage thread).promised = some ptr → s.broken ptr = false

/-- A broken connection that was closed stays closed. -/
theorem Safe.closed (safe : Safe s) {label : HttpConnectionPool.Label Thread}
    {after : HttpConnectionPool.State Thread}
    (stepped : HttpConnectionPool.Step pool s.pool label after) {ptr : Nat}
    (broken : s.broken ptr = true) (closed : (s.pool.conn ptr).isConnected = false) :
    (after.conn ptr).isConnected = false := by
  cases isConnected : (after.conn ptr).isConnected with
  | false => rfl
  | true =>
      rw [connected_of_step stepped (safe.made ptr broken) isConnected] at closed
      cases closed

theorem Safe.ofPool (safe : Safe s) {label : HttpConnectionPool.Label Thread}
    {after : HttpConnectionPool.State Thread} (rejected : Rejected pool s (.pool label))
    (stepped : HttpConnectionPool.Step pool s.pool label after) : Safe { s with pool := after } where
  accounted := safe.accounted.step stepped
  made ptr broken := Nat.lt_of_lt_of_le (safe.made ptr broken) (made_le_of_step stepped)
  leftOpen ptr broken isConnected :=
    safe.leftOpen ptr broken (connected_of_step stepped (safe.made ptr broken) isConnected)
  idle := by
    intro ptr idle broken
    apply safe.closed stepped broken
    rcases idle_of_step stepped idle with old | ⟨thread, keeping⟩
    · exact safe.idle ptr old broken
    · exact safe.keeping thread ptr keeping broken
  keeping := by
    intro thread ptr keeping broken
    rcases keeping_of_step stepped keeping with old | ⟨rfl, releasing, same, keeps⟩
    · exact safe.closed stepped broken (safe.keeping thread ptr old broken)
    · show (after.conn ptr).isConnected = false
      rw [same]
      cases isConnected : (s.pool.conn ptr).isConnected with
      | false => rfl
      | true =>
          rw [rejected ptr releasing (safe.leftOpen ptr broken isConnected)] at keeps
          cases keeps
  promised := by
    intro thread ptr promised
    cases broken : s.broken ptr with
    | false => rfl
    | true =>
        rcases promised_of_step stepped promised with old | ⟨idle, isConnected⟩ | rfl
        · exact broken.symm.trans (safe.promised thread ptr old)
        · rw [safe.idle ptr idle broken] at isConnected
          cases isConnected
        · exact absurd (safe.made _ broken) (Nat.lt_irrefl _)

/-- An exchange concerns a connection that is nowhere else. -/
theorem Safe.exchange (safe : Safe s) {ptr : Nat} (handedOut : ptr ∈ s.pool.handedOut)
    (outcome : Outcome) :
    Safe
      { pool :=
          { s.pool with
            conn := Function.update s.pool.conn ptr
              { s.pool.conn ptr with
                isConnected := (s.pool.conn ptr).isConnected && !outcome.closes } }
        broken := Function.update s.broken ptr (s.broken ptr || outcome.broken)
        leftOpen := Function.update s.leftOpen ptr (s.leftOpen ptr || outcome.leavesOpen) } where
  accounted := ⟨safe.accounted.total, safe.accounted.places⟩
  made := by
    intro other broken
    by_cases same : other = ptr
    · subst same
      exact safe.accounted.isMade_handedOut handedOut
    · dsimp only at broken
      rw [Function.update_of_ne same] at broken
      exact safe.made other broken
  leftOpen := by
    intro other broken isConnected
    dsimp only at broken isConnected ⊢
    by_cases same : other = ptr
    · subst same
      rw [Function.update_self] at broken isConnected ⊢
      rw [Bool.and_eq_true] at isConnected
      rw [Bool.or_eq_true] at broken ⊢
      rcases broken with old | new
      · exact .inl (safe.leftOpen other old isConnected.1)
      · right
        cases outcome with
        | null => cases isConnected.2
        | sendFailed => rfl
        | threw => rfl
        | response close => exact new
    · rw [Function.update_of_ne same] at broken isConnected ⊢
      exact safe.leftOpen other broken isConnected
  idle := by
    intro other idle broken
    dsimp only at broken ⊢
    have ne : other ≠ ptr := by
      rintro rfl
      exact (safe.accounted.only_handedOut handedOut).1 idle
    rw [Function.update_of_ne ne] at broken ⊢
    exact safe.idle other idle broken
  keeping := by
    intro thread other keeping broken
    dsimp only at keeping broken ⊢
    have ne : other ≠ ptr := by
      rintro rfl
      apply (safe.accounted.only_handedOut handedOut).2 thread
      rw [keeping]
      exact List.mem_singleton_self other
    rw [Function.update_of_ne ne] at broken ⊢
    exact safe.keeping thread other keeping broken
  promised := by
    intro thread other promised
    dsimp only at promised ⊢
    have ne : other ≠ ptr := by
      rintro rfl
      exact (safe.accounted.only_handedOut handedOut).2 thread (mem_owns_of_promised promised)
    rw [Function.update_of_ne ne]
    exact safe.promised thread other promised

theorem Safe.step (safe : Safe s) (rejected : Rejected pool s label)
    (stepped : Step pool zlib buff_size s label next) : Safe next := by
  cases stepped with
  | pool stepped => exact safe.ofPool rejected stepped
  | exchange ptr length rts socket handedOut done => exact safe.exchange handedOut _

/-- The streams of zlib, for bodies that are not compressed. -/
def plain : HttpConnection.ZlibStream := ⟨id, id⟩

end Exchange

end HttpConnectionPool

end Exhy.Http
