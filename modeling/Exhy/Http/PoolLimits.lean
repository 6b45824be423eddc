import Exhy.Http.ConnectionPool

/-!
# The limits of the pool

Age, number of requests and number of idle connections.  `m_createTime` stays 0, the two
comparisons with it are the wrong way round, and `m_maxSize` is not looked at, so the limits
hold in the runs that keep to them of themselves; the number of requests is always right.
-/

namespace Exhy.Http.HttpConnectionPool

open Library

variable {Thread : Type} [DecidableEq Thread]

/-- A connection that is at most `m_maxAliveTime` old. -/
def Fresh (pool : HttpConnectionPool) (conn : Conn) (now_ms : UInt64) : Prop :=
  now_ms.toNat ≤ conn.madeAt.toNat + pool.m_maxAliveTime.toNat

/-- A connection that is still connected, younger than `m_maxAliveTime` and below
`m_maxRequest`. -/
def Usable (pool : HttpConnectionPool) (conn : Conn) (now_ms : UInt64) : Prop :=
  conn.isConnected = true ∧ now_ms.toNat < conn.madeAt.toNat + pool.m_maxAliveTime.toNat ∧
    conn.m_request.toNat < pool.m_maxRequest.toNat

/-- A step that respects the limits: what is taken is fresh and below the number of requests,
what is usable is kept, and the idle list stays within its size. -/
def Respects (pool : HttpConnectionPool) (s next : State Thread) : Label Thread → Prop
  | .search thread => ∀ now_ms invalid_conns count ptr, s.stage thread = .searching now_ms →
      next.stage thread = .discarding invalid_conns count (some ptr) →
      pool.Fresh (s.conn ptr) now_ms ∧ (s.conn ptr).m_request.toNat < pool.m_maxRequest.toNat
  | .test thread => ∀ ptr, s.stage thread = .releasing ptr →
      pool.Usable (s.conn ptr) s.clock → next.stage thread = .keeping ptr
  | .push_back _ => next.m_conns.length ≤ pool.m_maxSize.toNat
  | _ => True

/-- The condition on a step: unless the clock is below `m_maxAliveTime`, the first idle
connection that is connected is fresh; a usable connection is released with the clock above
`m_maxAliveTime`; and one is returned only to a list that is not full. -/
def Within (pool : HttpConnectionPool) (s : State Thread) : Label Thread → Prop
  | .search thread => ∀ now_ms ptr, s.stage thread = .searching now_ms →
      pool.m_maxAliveTime.toNat ≤ now_ms.toNat →
      s.m_conns.find? (fun ptr => (s.conn ptr).isConnected) = some ptr →
      pool.Fresh (s.conn ptr) now_ms
  | .test thread => ∀ ptr, s.stage thread = .releasing ptr →
      pool.Usable (s.conn ptr) s.clock → pool.m_maxAliveTime.toNat < s.clock.toNat
  | .push_back _ => s.m_conns.length < pool.m_maxSize.toNat
  | _ => True

variable {pool : HttpConnectionPool} {s next : State Thread}

/-- A connection in the table of the idle or in a call, which `expiry` takes for one made at 0. -/
theorem expiry_toNat {conn : Conn} (unset : conn.m_createTime = 0) :
    (pool.expiry conn).toNat = pool.m_maxAliveTime.toNat := by
  rw [expiry, unset, UInt64.zero_add, UInt32.toNat_toUInt64]

/-- What the search takes. -/
theorem search_taken (pool : HttpConnectionPool) {conn : Nat → Conn} {now_ms : UInt64} {m_conns : List Nat}
    (unset : ∀ ptr ∈ m_conns, (conn ptr).m_createTime = 0) :
    (pool.search conn now_ms m_conns).2.1 =
      if pool.m_maxAliveTime.toNat ≤ now_ms.toNat then
        m_conns.find? fun ptr => (conn ptr).isConnected
      else none := by
  induction m_conns with
  | nil =>
      split
      · rfl
      · rfl
  | cons first rest ih =>
      have later := ih fun ptr member => unset ptr (List.mem_cons_of_mem _ member)
      have expires := @expiry_toNat pool _ (unset first List.mem_cons_self)
      have old : pool.expiry (conn first) > now_ms ↔ ¬ pool.m_maxAliveTime.toNat ≤ now_ms.toNat := by
        rw [gt_iff_lt, UInt64.lt_iff_toNat_lt, expires, Nat.not_le]
      rw [search]
      cases isConnected : (conn first).isConnected with
      | false =>
          rw [List.find?_cons_of_neg (p := fun ptr => (conn ptr).isConnected)
            (by rw [isConnected]; exact Bool.false_ne_true), ← later]
          rfl
      | true =>
          rw [List.find?_cons_of_pos (p := fun ptr => (conn ptr).isConnected) isConnected]
          by_cases expired : pool.m_maxAliveTime.toNat ≤ now_ms.toNat
          · rw [if_pos expired, if_neg]
            simpa [old] using expired
          · rw [if_neg expired] at later ⊢
            rw [if_pos]
            · exact later
            · simpa [old] using expired

/-- The test of a usable connection is decided by the clock. -/
theorem discards_usable {conn : Conn} (unset : conn.m_createTime = 0) {now_ms : UInt64}
    (usable : pool.Usable conn now_ms) :
    pool.discards conn now_ms = false ↔ pool.m_maxAliveTime.toNat < now_ms.toNat := by
  obtain ⟨isConnected, _, below⟩ := usable
  have expires := @expiry_toNat pool _ unset
  have few : ¬ conn.m_request ≥ pool.m_maxRequest.toUInt64 := by
    rw [ge_iff_le, UInt64.le_iff_toNat_le, UInt32.toNat_toUInt64]
    omega
  have clock : pool.expiry conn ≥ now_ms ↔ ¬ pool.m_maxAliveTime.toNat < now_ms.toNat := by
    rw [ge_iff_le, UInt64.le_iff_toNat_le, expires, Nat.not_lt]
  simp [discards, isConnected, few, clock]

theorem request_of_not_discards {conn : Conn} {now_ms : UInt64}
    (keeps : pool.discards conn now_ms = false) :
    conn.m_request.toNat < pool.m_maxRequest.toNat := by
  simp only [discards, Bool.or_eq_false_iff, decide_eq_false_iff_not, ge_iff_le,
    UInt64.le_iff_toNat_le, UInt32.toNat_toUInt64, Nat.not_le] at keeps
  exact keeps.2

variable [Fintype Thread]

/-! ## Where a connection is -/

theorem count_owns_le (s : State Thread) (thread : Thread) (ptr : Nat) :
    (s.stage thread).owns.count ptr ≤ s.inCalls ptr :=
  le_sumOver (fun stage => stage.owns.count ptr) s.stage thread

omit [DecidableEq Thread] in
/-- A connection that is somewhere has been made. -/
theorem Accounted.isMade (accounted : Accounted s) {ptr : Nat} (somewhere : 0 < s.places ptr) :
    ptr < s.made := by
  have places := accounted.places ptr
  split at places
  · assumption
  · omega

omit [DecidableEq Thread] in
theorem Accounted.isMade_idle (accounted : Accounted s) {ptr : Nat} (idle : ptr ∈ s.m_conns) :
    ptr < s.made := by
  apply accounted.isMade
  have here := List.count_pos_iff.mpr idle
  rw [State.places]
  omega

omit [DecidableEq Thread] in
theorem Accounted.isMade_handedOut (accounted : Accounted s) {ptr : Nat}
    (handedOut : ptr ∈ s.handedOut) : ptr < s.made := by
  apply accounted.isMade
  have here := List.count_pos_iff.mpr handedOut
  rw [State.places]
  omega

theorem Accounted.isMade_owned (accounted : Accounted s) {ptr : Nat} {thread : Thread}
    (owned : ptr ∈ (s.stage thread).owns) : ptr < s.made := by
  apply accounted.isMade
  have here := List.count_pos_iff.mpr owned
  have inCalls := count_owns_le s thread ptr
  rw [State.places]
  omega

/-- A connection that is handed out is nowhere else. -/
theorem Accounted.only_handedOut (accounted : Accounted s) {ptr : Nat}
    (handedOut : ptr ∈ s.handedOut) :
    ptr ∉ s.m_conns ∧ ∀ thread, ptr ∉ (s.stage thread).owns := by
  have places := accounted.places ptr
  have here := List.count_pos_iff.mpr handedOut
  have most : s.places ptr ≤ 1 := by
    rw [places]
    split
    · exact Nat.le_refl 1
    · exact Nat.zero_le 1
  rw [State.places] at most
  constructor
  · intro idle
    have idleToo := List.count_pos_iff.mpr idle
    omega
  · intro thread owned
    have ownedToo := List.count_pos_iff.mpr owned
    have inCalls := count_owns_le s thread ptr
    omega

/-! ## Runs -/

/-- What all runs keep: no creation time is ever set, and what is idle or about to be is below
the number of requests. -/
structure Sparing (pool : HttpConnectionPool) (s : State Thread) : Prop where
  accounted : Accounted s
  unset : ∀ ptr < s.made, (s.conn ptr).m_createTime = 0
  idle : ∀ ptr ∈ s.m_conns, (s.conn ptr).m_request.toNat < pool.m_maxRequest.toNat
  keeping : ∀ thread ptr, s.stage thread = .keeping ptr →
    (s.conn ptr).m_request.toNat < pool.m_maxRequest.toNat

omit [Fintype Thread] in
/-- A thread that comes to a stage keeps what is true of the connections about to be idle. -/
theorem keeping_update {stages : Thread → Stage} {thread : Thread} {stage : Stage}
    {holds : Nat → Prop} (old : ∀ thread ptr, stages thread = .keeping ptr → holds ptr)
    (new : ∀ ptr, stage = .keeping ptr → holds ptr) (other : Thread) (ptr : Nat)
    (keeping : Function.update stages thread stage other = .keeping ptr) : holds ptr := by
  by_cases same : other = thread
  · subst same
    rw [Function.update_self] at keeping
    exact new ptr keeping
  · rw [Function.update_of_ne same] at keeping
    exact old other ptr keeping

theorem Sparing.step {label : Label Thread} (sparing : Sparing pool s)
    (stepped : Step pool s label next) : Sparing pool next := by
  have accounted := sparing.accounted.step stepped
  have owned : ∀ thread ptr, s.stage thread = .keeping ptr → ptr ∈ (s.stage thread).owns := by
    intro thread ptr keeping
    rw [keeping]
    exact List.mem_singleton_self ptr
  cases stepped with
  | @search thread now_ms invalid_conns left ptr searching found =>
      have parts := search_parts found
      refine ⟨accounted, sparing.unset, fun other idle => ?_, keeping_update sparing.keeping nofun⟩
      apply sparing.idle other
      rw [parts]
      exact List.mem_append_right _ idle
  | @subtract thread count ptr discarding =>
      refine ⟨accounted, sparing.unset, sparing.idle, keeping_update sparing.keeping ?_⟩
      intro other keeping
      cases ptr with
      | none => cases keeping
      | some ptr => cases keeping
  | connect thread connecting =>
      have old : ∀ ptr < s.made, ∀ made : Conn, Function.update s.conn s.made made ptr = s.conn ptr :=
        fun ptr isMade made => Function.update_of_ne (Nat.ne_of_lt isMade) ..
      refine ⟨accounted, fun ptr isMade => ?_, fun ptr idle => ?_,
        keeping_update (fun thread ptr keeping => ?_) nofun⟩
      · by_cases new : ptr = s.made
        · subst new
          show (Function.update s.conn s.made _ s.made).m_createTime = 0
          rw [Function.update_self]
        · have before : ptr < s.made := Nat.lt_of_le_of_ne (Nat.le_of_lt_succ isMade) new
          exact (congrArg Conn.m_createTime (old ptr before _)).trans (sparing.unset ptr before)
      · show (Function.update s.conn s.made _ ptr).m_request.toNat < _
        rw [old ptr (sparing.accounted.isMade_idle idle)]
        exact sparing.idle ptr idle
      · show (Function.update s.conn s.made _ ptr).m_request.toNat < _
        rw [old ptr (sparing.accounted.isMade_owned (owned thread ptr keeping))]
        exact sparing.keeping thread ptr keeping
  | release thread ptr outside handedOut =>
      obtain ⟨notIdle, notOwned⟩ := sparing.accounted.only_handedOut handedOut
      refine ⟨accounted, fun other isMade => ?_, fun other idle => ?_,
        keeping_update (fun thread other keeping => ?_) nofun⟩
      · show (Function.update s.conn ptr _ other).m_createTime = 0
        by_cases same : other = ptr
        · subst same
          rw [Function.update_self]
          exact sparing.unset other isMade
        · rw [Function.update_of_ne same]
          exact sparing.unset other isMade
      · show (Function.update s.conn ptr _ other).m_request.toNat < _
        have ne : other ≠ ptr := by
          rintro rfl
          exact notIdle idle
        rw [Function.update_of_ne ne]
        exact sparing.idle other idle
      · show (Function.update s.conn ptr _ other).m_request.toNat < _
        have ne : other ≠ ptr := by
          rintro rfl
          exact notOwned _ (owned thread other keeping)
        rw [Function.update_of_ne ne]
        exact sparing.keeping thread other keeping
  | @test thread ptr releasing =>
      refine ⟨accounted, sparing.unset, sparing.idle, keeping_update sparing.keeping ?_⟩
      intro other keeping
      split at keeping
      · cases keeping
      · next keeps =>
          cases keeping
          exact request_of_not_discards (Bool.not_eq_true _ ▸ keeps)
  | @push_back thread ptr keeping =>
      refine ⟨accounted, sparing.unset, fun other idle => ?_, keeping_update sparing.keeping nofun⟩
      rcases List.mem_append.mp idle with old | new
      · exact sparing.idle other old
      · rw [List.mem_singleton.mp new]
        exact sparing.keeping thread ptr keeping
  | disconnect ptr =>
      have same : ∀ other, (Function.update s.conn ptr
          { s.conn ptr with isConnected := false } other).m_request = (s.conn other).m_request ∧
          (Function.update s.conn ptr
          { s.conn ptr with isConnected := false } other).m_createTime =
            (s.conn other).m_createTime := by
        intro other
        by_cases is : other = ptr
        · subst is
          rw [Function.update_self]
          exact ⟨rfl, rfl⟩
        · rw [Function.update_of_ne is]
          exact ⟨rfl, rfl⟩
      refine ⟨accounted, fun other isMade => (same other).2.trans (sparing.unset other isMade),
        fun other idle => ?_, fun thread other keeping => ?_⟩
      · exact (congrArg UInt64.toNat (same other).1).trans_lt (sparing.idle other idle)
      · exact (congrArg UInt64.toNat (same other).1).trans_lt (sparing.keeping thread other keeping)
  | tick clock => exact ⟨accounted, sparing.unset, sparing.idle, sparing.keeping⟩
  | getConnection thread _ => exact ⟨accounted, sparing.unset, sparing.idle, keeping_update sparing.keeping nofun⟩
  | delete thread _ => exact ⟨accounted, sparing.unset, sparing.idle, keeping_update sparing.keeping nofun⟩
  | connectFails thread _ => exact ⟨accounted, sparing.unset, sparing.idle, keeping_update sparing.keeping nofun⟩
  | increment thread _ => exact ⟨accounted, sparing.unset, sparing.idle, keeping_update sparing.keeping nofun⟩
  | deletePtr thread _ => exact ⟨accounted, sparing.unset, sparing.idle, keeping_update sparing.keeping nofun⟩
  | decrement thread _ => exact ⟨accounted, sparing.unset, sparing.idle, keeping_update sparing.keeping nofun⟩

theorem sparing_reachable (reached : (calls pool Thread).Reachable s) : Sparing pool s := by
  refine reached.invariant (Sparing pool) (fun state isInitial => ?_)
    fun _ _ _ _ sparing _ stepped => sparing.step stepped
  have accounted := accounted_initial isInitial
  obtain ⟨m_conns, m_total, made, handedOut, deleted, outside⟩ := isInitial
  constructor
  case accounted => exact accounted
  case unset =>
    intro ptr isMade
    rw [made] at isMade
    exact absurd isMade (Nat.not_lt_zero ptr)
  case idle =>
    intro ptr idle
    rw [m_conns] at idle
    cases idle
  case keeping =>
    intro thread ptr keeping
    rw [outside thread] at keeping
    cases keeping

/-- A step respects the limits exactly when it keeps to the condition. -/
theorem Sparing.respects_iff {label : Label Thread} (sparing : Sparing pool s)
    (stepped : Step pool s label next) : Respects pool s next label ↔ Within pool s label := by
  cases stepped with
  | @search thread now_ms invalid_conns left ptr searching found =>
      have taken := @search_taken pool s.conn now_ms s.m_conns fun other idle =>
        sparing.unset other (sparing.accounted.isMade_idle idle)
      have stage := stage_setStage { s with m_conns := left } thread
        (.discarding invalid_conns invalid_conns.length ptr)
      rw [found] at taken
      constructor
      · intro respects now ptr' is late first
        rw [searching] at is
        cases is
        rw [if_pos late, first] at taken
        cases taken
        exact (respects now_ms _ _ ptr' searching stage).1
      · intro within now invalid count ptr' is next
        rw [searching] at is
        cases is
        cases stage.symm.trans next
        split at taken
        · next late =>
            have member := List.mem_of_find?_eq_some taken.symm
            exact ⟨within now_ms ptr' searching late taken.symm, sparing.idle ptr' member⟩
        · cases taken
  | @test thread ptr releasing =>
      have unset : (s.conn ptr).m_createTime = 0 := by
        apply sparing.unset ptr
        apply @Accounted.isMade_owned _ _ _ _ sparing.accounted ptr thread
        rw [releasing]
        exact List.mem_singleton_self ptr
      have stage := stage_setStage s thread
        (if pool.discards (s.conn ptr) s.clock then .deleting ptr else .keeping ptr)
      constructor
      · intro respects ptr' is usable
        rw [releasing] at is
        cases is
        have keeps := stage.symm.trans (respects ptr releasing usable)
        apply (discards_usable unset usable).mp
        cases discards : pool.discards (s.conn ptr) s.clock with
        | false => rfl
        | true =>
            rw [discards, if_pos rfl] at keeps
            cases keeps
      · intro within ptr' is usable
        rw [releasing] at is
        cases is
        apply stage.trans
        rw [(discards_usable unset usable).mpr (within ptr releasing usable), if_neg Bool.false_ne_true]
  | @push_back thread ptr keeping =>
      rw [Respects, Within]
      show (s.m_conns ++ [ptr]).length ≤ _ ↔ _
      rw [List.length_append, List.length_singleton, Nat.succ_le_iff]
  | _ => exact Iff.rfl

omit [Fintype Thread] in
/-- The idle list changes by what a search removes and a release adds. -/
theorem length_m_conns_le {label : Label Thread} (stepped : Step pool s label next)
    (short : s.m_conns.length ≤ pool.m_maxSize.toNat) (within : Within pool s label) :
    next.m_conns.length ≤ pool.m_maxSize.toNat := by
  cases stepped with
  | @search thread now_ms invalid_conns left ptr searching found =>
      have parts := congrArg List.length (search_parts found)
      rw [List.length_append] at parts
      show left.length ≤ _
      omega
  | push_back thread keeping =>
      show (s.m_conns ++ _).length ≤ _
      rw [List.length_append, List.length_singleton]
      exact within
  | _ => exact short

/-- In the runs in which every step keeps to the condition the idle list stays within
`m_maxSize`, and a step respects the limits exactly when it keeps to the condition. -/
theorem pool_limits (reached : (calls pool Thread).Reaches (Within pool) s) :
    s.m_conns.length ≤ pool.m_maxSize.toNat ∧
      ∀ label next, Step pool s label next →
        (Respects pool s next label ↔ Within pool s label) := by
  constructor
  · apply reached.invariant fun s => s.m_conns.length ≤ pool.m_maxSize.toNat
    · intro state isInitial
      rw [isInitial.1]
      exact Nat.zero_le _
    · intro state label after _ short within stepped
      exact length_m_conns_le stepped short within
  · intro label next stepped
    have sparing := sparing_reachable (reached.mono fun _ _ _ => trivial)
    exact sparing.respects_iff stepped

/-- At 20 ms a connection is made, and it is returned to the list. -/
theorem returned_reaches :
    ∃ s : State Bool, (calls ⟨1, 10, 2⟩ Bool).Reaches (Within ⟨1, 10, 2⟩) s ∧ s.m_conns = [0] ∧
      s.conn 0 = ⟨true, 0, 1, 20⟩ ∧ s.stage true = .outside := by
  have start : (calls ⟨1, 10, 2⟩ Bool).Reaches (Within ⟨1, 10, 2⟩)
      ⟨[], 0, fun _ => ⟨false, 0, 0, 0⟩, 0, [], [], 20, fun _ => .outside⟩ :=
    .initial ⟨rfl, rfl, rfl, rfl, rfl, fun _ => rfl⟩
  have called : (calls ⟨1, 10, 2⟩ Bool).Reaches (Within ⟨1, 10, 2⟩) _ :=
    .step start (by exact trivial) (.getConnection true rfl)
  have searched : (calls ⟨1, 10, 2⟩ Bool).Reaches (Within ⟨1, 10, 2⟩) _ :=
    .step called (by exact fun _ _ _ _ => nofun) (.search true rfl rfl)
  have subtracted : (calls ⟨1, 10, 2⟩ Bool).Reaches (Within ⟨1, 10, 2⟩) _ :=
    .step searched (by exact trivial) (.subtract true rfl)
  have connected : (calls ⟨1, 10, 2⟩ Bool).Reaches (Within ⟨1, 10, 2⟩) _ :=
    .step subtracted (by exact trivial) (.connect true rfl)
  have handedOut : (calls ⟨1, 10, 2⟩ Bool).Reaches (Within ⟨1, 10, 2⟩) _ :=
    .step connected (by exact trivial) (.increment true rfl)
  have released : (calls ⟨1, 10, 2⟩ Bool).Reaches (Within ⟨1, 10, 2⟩) _ :=
    .step handedOut (by exact trivial) (.release true 0 rfl List.mem_cons_self)
  have tested : (calls ⟨1, 10, 2⟩ Bool).Reaches (Within ⟨1, 10, 2⟩) _ :=
    .step released (by exact fun _ _ _ => (by decide : 10 < 20)) (.test true rfl)
  have pushed : (calls ⟨1, 10, 2⟩ Bool).Reaches (Within ⟨1, 10, 2⟩) _ :=
    .step tested (by exact Nat.one_pos) (.push_back true rfl)
  exact ⟨_, pushed, rfl, rfl, rfl⟩

theorem pool_limits_returned :
    ∃ s : State Bool, s.m_conns = [0] ∧ s.m_conns.length ≤ 1 := by
  obtain ⟨s, reached, idle, _⟩ := returned_reaches
  exact ⟨s, idle, (pool_limits reached).1⟩

/-- The connection of 20 ms is taken at 1000 ms, with a limit of 10 ms. -/
theorem takes_old_connection :
    ∃ (s next : State Bool) (label : Label Bool), (calls ⟨1, 10, 2⟩ Bool).Reachable s ∧
      Step ⟨1, 10, 2⟩ s label next ∧ ¬ Respects ⟨1, 10, 2⟩ s next label := by
  obtain ⟨s, reached, idle, conn, outside⟩ := returned_reaches
  have later : (calls ⟨1, 10, 2⟩ Bool).Reachable { s with clock := 1000 } :=
    .step (reached.mono fun _ _ _ => trivial) trivial (.tick 1000)
  have called := later.step trivial (Step.getConnection true outside)
  have found : search ⟨1, 10, 2⟩ s.conn 1000 s.m_conns = ([], some 0, []) := by
    rw [idle, search, conn]
    rfl
  have searching := stage_setStage { s with clock := 1000 } true (.searching 1000)
  refine ⟨_, _, _, called, Step.search true searching found, fun respects => ?_⟩
  have young := (respects 1000 [] 0 0 searching (stage_setStage _ _ _)).1
  change Fresh _ (s.conn 0) 1000 at young
  rw [conn] at young
  exact absurd young (show ¬ 1000 ≤ 20 + 10 by decide)

end Exhy.Http.HttpConnectionPool
