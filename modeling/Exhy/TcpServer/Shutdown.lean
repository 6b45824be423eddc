import Exhy.TcpServer.Steps
import Mathlib.Data.List.Nodup

/-!
# Stopping a server

What the loops still do behind the task of `stop`.  A loop that waits in `accept` is woken up by the
close of its socket and goes on with the number of the descriptor, so that it accepts one client
where somebody listens under that number again.
-/

namespace Exhy.TcpServer

open Library

variable {Address Socket : Type}

/-- All that a loop still does once the server is stopped and its `accept` fails. -/
def Point.rest : Point → Nat
  | .check => 1
  | .calling => 2
  | .parked _ => 3
  | .woken _ => 2
  | .has _ => 2
  | .ended => 0

namespace Process

def rest (p : Process Socket) (i : Nat) : Nat :=
  ((p.loops[i]?).map fun loop => loop.point.rest).getD 0

/-- The descriptor with which the loop goes on. -/
def pending (p : Process Socket) (i : Nat) : Option Nat :=
  (p.loops[i]?).bind fun loop => loop.point.fd

/-- The loop waits for its own socket, if it waits. -/
def Own (p : Process Socket) (i : Nat) : Prop :=
  ∀ loop, p.loops[i]? = some loop → ∀ fd, loop.point.fd = some fd → (loop.sock, fd) ∈ p.m_sock

/-- The loop waits no more, and nobody has the descriptor with which it goes on. -/
def Refused (p : Process Socket) (i : Nat) : Prop :=
  ∀ loop, p.loops[i]? = some loop → ∀ fd, loop.point.fd = some fd →
    loop.point = .woken fd ∧ fd ∉ p.descriptors

/-- Nobody gets the descriptor with which the loop goes on. -/
def Unused (p : Process Socket) (i : Nat) (labels : List (Op Address Socket)) : Prop :=
  ∀ fd, p.pending i = some fd → ∀ op ∈ labels, fd ∉ op.opens

end Process

/-- What is accepted in a run behind the task of `stop`: by each loop one client at the most, and
none by a loop that waited for its own socket, or was refused, and whose descriptor nobody gets. -/
structure Closing (p next last : Process Socket) (labels : List (Op Address Socket)) : Prop where
  refused : ∀ i, p.Own i → next.Refused i
  accepted : last.accepted = next.accepted + labels.countP fun op => op.accepts.isSome
  once : ∀ i,
    labels.countP (fun op => op.accepts = some i) ≤ if (next.pending i).isSome then 1 else 0
  never : ∀ i, next.Refused i → next.Unused i labels →
    labels.countP (fun op => op.accepts = some i) = 0

/-! ## A loop whose socket is closed -/

section Shut

variable {p next : Process Socket} {op : Op Address Socket} {i : Nat} {sock : Socket}
  {old new : Point} {fd : Nat}

theorem Op.loop_of_accepts (accepts : op.accepts = some i) : op.loop = some i := by
  cases op with
  | accept loop answer => cases answer <;> simp_all [Op.accepts, Op.loop]
  | _ => cases accepts

theorem Asks.woken (asks : Asks p sock old fd) (shut : old = .ended ∨ p.Shut sock) :
    old = .woken fd := by
  rcases asks with woken | ⟨calling, isSock⟩
  · exact woken
  · rcases shut with ended | shut
    · exact absurd (calling.symm.trans ended) nofun
    · exact absurd rfl (shut _ isSock)

/-- The loop gets no other descriptor, and has none behind a client. -/
theorem Moves.pending (moves : Moves p i sock op old new)
    (shut : old = .ended ∨ p.Shut sock) (pending : new.fd = some fd) :
    old.fd = some fd ∧ op.accepts ≠ some i := by
  cases moves with
  | stays other => exact ⟨pending, fun accepts => other (Op.loop_of_accepts accepts)⟩
  | wakes other => exact ⟨pending, fun accepts => other (Op.loop_of_accepts accepts)⟩
  | calls started => cases pending
  | ends stopped => cases pending
  | accepts asks isOpen => cases pending
  | parks asks isOpen =>
      rw [asks.woken shut]
      exact ⟨pending, nofun⟩
  | fails calls => cases pending
  | schedules => cases pending

/-- The client is one of the descriptor with which the loop went on. -/
theorem Moves.accepted (moves : Moves p i sock op old new)
    (shut : old = .ended ∨ p.Shut sock) (accepts : op.accepts = some i) :
    ∃ fd, old = .woken fd ∧ fd ∈ p.descriptors := by
  cases moves with
  | stays other => exact absurd (Op.loop_of_accepts accepts) other
  | wakes other => exact absurd (Op.loop_of_accepts accepts) other
  | accepts asks isOpen => exact ⟨_, asks.woken shut, isOpen⟩
  | calls started => cases accepts
  | ends stopped => cases accepts
  | parks asks isOpen => cases accepts
  | fails calls => cases accepts
  | schedules => cases accepts

/-- A loop that is refused comes nearer to its end. -/
theorem Moves.rest (moves : Moves p i sock op old new) (stopped : p.m_isStop = true)
    (shut : old = .ended ∨ p.Shut sock)
    (refused : ∀ fd, old.fd = some fd → old = .woken fd ∧ fd ∉ p.descriptors) :
    new.rest + (if op.loop = some i then 1 else 0) = old.rest := by
  cases moves with
  | stays other => rw [if_neg other, Nat.add_zero]
  | wakes other => exact absurd (refused _ rfl).1 nofun
  | calls started => exact absurd (started.symm.trans stopped) Bool.false_ne_true
  | ends stopped => simp [Op.loop, Point.rest]
  | accepts asks isOpen =>
      cases asks.woken shut
      exact absurd isOpen (refused _ rfl).2
  | parks asks isOpen =>
      cases asks.woken shut
      exact absurd isOpen (refused _ rfl).2
  | fails calls => rcases calls with rfl | ⟨fd, rfl⟩ <;> simp [Op.loop, Point.rest]
  | schedules => simp [Op.loop, Point.rest]

theorem Point.fd_wake (point : Point) (fds : List Nat) : (point.wake fds).fd = point.fd := by
  cases point with
  | parked fd => by_cases isOne : fd ∈ fds <;> simp [wake, isOne, Point.fd]
  | _ => rfl

/-- The task of `stop` wakes up who waits for a socket of the server, which has no descriptor
then. -/
theorem Inv.refused [DecidableEq Socket] (inv : Inv p) (done : p.runStop = some next)
    (own : p.Own i) : next.Refused i := by
  rw [Process.runStop] at done
  split at done
  · cases done
  · cases done
    intro loop isLoop fd pending
    rw [List.getElem?_map, Option.map_eq_some_iff] at isLoop
    obtain ⟨before, isLoop, rfl⟩ := isLoop
    rw [Point.fd_wake] at pending
    have isSock := own before isLoop fd pending
    have member : before.sock ∈ p.server.m_socks := by
      rcases inv.covered before (List.mem_of_getElem? isLoop) with ended | member | shut
      · rw [ended] at pending
        cases pending
      · exact member
      · exact absurd rfl (shut _ isSock)
    obtain ⟨numbers, -, others⟩ := List.nodup_append.mp inv.distinct
    constructor
    · cases isPoint : before.point with
      | parked number =>
          rw [isPoint] at pending
          cases pending
          apply if_pos
          apply List.mem_map.mpr
          exact ⟨_, List.mem_filter.mpr ⟨isSock, by simpa using member⟩, rfl⟩
      | woken number =>
          rw [isPoint] at pending
          cases pending
          rfl
      | _ =>
          rw [isPoint] at pending
          cases pending
    · intro isOpen
      rcases List.mem_append.mp isOpen with stillOpen | other
      · obtain ⟨entry, isEntry, same⟩ := List.mem_map.mp stillOpen
        obtain ⟨isEntry, notMember⟩ := List.mem_filter.mp isEntry
        have entry_eq : entry = (before.sock, fd) :=
          List.inj_on_of_nodup_map numbers isEntry isSock same
        simp [entry_eq, member] at notMember
      · exact others fd (List.mem_map.mpr ⟨_, isSock, rfl⟩) fd other rfl

theorem Process.Refused.rest_le (refused : p.Refused i) : p.rest i ≤ 2 := by
  rw [Process.rest]
  cases isLoop : p.loops[i]? with
  | none => exact Nat.zero_le 2
  | some loop =>
      cases isPoint : loop.point with
      | parked fd =>
          have woken := (refused loop isLoop fd (congrArg Point.fd isPoint)).1
          exact absurd (isPoint.symm.trans woken) nofun
      | _ => simp [isPoint, Point.rest]

/-- Nobody has a client where all loops are through. -/
theorem scheduled_of_rest (delivered : p.Delivered) (through : ∀ i, p.rest i = 0) (client : Nat) :
    p.scheduled.countP (fun entry => entry.1 = client) = if client < p.accepted then 1 else 0 := by
  have none : p.loops.countP (fun loop => loop.point = .has client) = 0 := by
    rw [List.countP_eq_zero]
    intro loop member
    obtain ⟨i, isLoop⟩ := List.getElem?_of_mem member
    have noRest := through i
    rw [Process.rest, isLoop] at noRest
    intro had
    rw [decide_eq_true_eq] at had
    simp [had, Point.rest] at noRest
  have counted := delivered client
  rw [none] at counted
  exact counted

end Shut

/-! ## Runs behind the task -/

/-- The server was stopped, or started again, and its loops run on closed sockets. -/
structure Process.Behind (stopped : Bool) (p : Process Socket) : Prop where
  m_isStop : p.m_isStop = stopped
  closed : p.Closed

/-- The operation of the users that would change it. -/
def turning (stopped : Bool) : Op Address Socket := if stopped then .start else .stop

section Behind

variable {p next : Process Socket} {op : Op Address Socket} {i : Nat} {stopped : Bool}

theorem Process.Behind.noNew (behind : p.Behind stopped) (other : op ≠ turning stopped) :
    op = .start → p.m_isStop = false := by
  intro start
  cases stopped with
  | true => exact absurd start other
  | false => exact behind.m_isStop

theorem Process.Behind.change (behind : p.Behind stopped) (other : op ≠ turning stopped)
    (change : Change p op next) : next.Behind stopped where
  m_isStop := by
    cases stopped with
    | true => exact change.stays other behind.m_isStop
    | false => exact change.runs other behind.m_isStop
  closed := change.closed (behind.noNew other) behind.closed

/-- A loop of the next state, as it was before. -/
theorem Process.Behind.loop (behind : p.Behind stopped) (other : op ≠ turning stopped)
    (change : Change p op next) {loop : Loop Socket} (isLoop : next.loops[i]? = some loop) :
    ∃ old, p.loops[i]? = some ⟨loop.sock, old⟩ ∧ Moves p i loop.sock op old loop.point ∧
      (old = .ended ∨ p.Shut loop.sock) := by
  obtain ⟨within, -⟩ := List.getElem?_eq_some_iff.mp isLoop
  rw [change.length (behind.noNew other)] at within
  have before := List.getElem?_eq_getElem within
  obtain ⟨point, after, moves⟩ := change.moves i _ before
  rw [isLoop] at after
  cases after
  exact ⟨_, before, moves, behind.closed _ (List.mem_of_getElem? before)⟩

theorem Process.Behind.pending (behind : p.Behind stopped) (other : op ≠ turning stopped)
    (change : Change p op next) {fd : Nat} (pending : next.pending i = some fd) :
    p.pending i = some fd ∧ op.accepts ≠ some i := by
  obtain ⟨loop, isLoop, pending⟩ := Option.bind_eq_some_iff.mp pending
  obtain ⟨old, before, moves, shut⟩ := behind.loop other change isLoop
  obtain ⟨pending, notAccepts⟩ := moves.pending shut pending
  exact ⟨Option.bind_eq_some_iff.mpr ⟨_, before, pending⟩, notAccepts⟩

theorem Process.Behind.accepts [DecidableEq Socket] (behind : p.Behind stopped)
    (done : p.perform op = some next) (accepts : op.accepts = some i) :
    ∃ loop fd, p.loops[i]? = some loop ∧ loop.point = .woken fd ∧ fd ∈ p.descriptors := by
  obtain ⟨sock, old, new, turn⟩ := turn_of_loop (Op.loop_of_accepts accepts) done
  obtain ⟨fd, woken, isOpen⟩ := turn.moves.accepted (behind.closed _ turn.member) accepts
  exact ⟨_, fd, turn.before, woken, isOpen⟩

/-- For a client the loop gives up its descriptor. -/
theorem Process.Behind.spends [DecidableEq Socket] (behind : p.Behind stopped)
    (other : op ≠ turning stopped) (done : p.perform op = some next) :
    (if (next.pending i).isSome then 1 else 0) + (if op.accepts = some i then 1 else 0) ≤
      if (p.pending i).isSome then 1 else 0 := by
  have change := change_of_perform done
  by_cases accepts : op.accepts = some i
  · obtain ⟨loop, fd, isLoop, woken, -⟩ := behind.accepts done accepts
    have had : p.pending i = some fd := by
      rw [Process.pending, isLoop]
      exact congrArg Point.fd woken
    have none : next.pending i = none := by
      rw [Option.eq_none_iff_forall_ne_some]
      exact fun fd pending => (behind.pending other change pending).2 accepts
    simp [had, none, accepts]
  · cases pending : next.pending i with
    | none => simp [accepts]
    | some fd => simp [accepts, (behind.pending other change pending).1]

theorem Process.Behind.not_accepts [DecidableEq Socket] (behind : p.Behind stopped)
    (done : p.perform op = some next) (refused : p.Refused i) : op.accepts ≠ some i := by
  intro accepts
  obtain ⟨loop, fd, isLoop, woken, isOpen⟩ := behind.accepts done accepts
  exact (refused loop isLoop fd (congrArg Point.fd woken)).2 isOpen

/-- A loop that is refused stays so while nobody gets its descriptor. -/
theorem Process.Behind.refused (behind : p.Behind stopped) (other : op ≠ turning stopped)
    (change : Change p op next) (refused : p.Refused i)
    (unused : ∀ fd, p.pending i = some fd → fd ∉ op.opens) : next.Refused i := by
  rintro ⟨sock, point⟩ isLoop fd pending
  obtain ⟨old, before, moves, shut⟩ := behind.loop other change isLoop
  obtain ⟨had, -⟩ := moves.pending shut pending
  obtain ⟨woken, isClosed⟩ := refused _ before fd had
  have notOpened := unused fd (Option.bind_eq_some_iff.mpr ⟨_, before, had⟩)
  constructor
  · dsimp only at woken pending moves ⊢
    subst woken
    cases moves with
    | stays other => rfl
    | accepts asks isOpen => cases pending
    | parks asks isOpen =>
        cases asks.woken shut
        exact absurd isOpen isClosed
    | fails calls => cases pending
  · intro isOpen
    exact (change.descriptors fd isOpen).elim isClosed notOpened

/-- A state of a run in which the loop is refused, with no descriptor but the first. -/
structure Process.Denied (stopped : Bool) (i : Nat) (first p : Process Socket) : Prop where
  behind : p.Behind stopped
  refused : p.Refused i
  pending : ∀ fd, p.pending i = some fd → first.pending i = some fd

theorem Process.Denied.change {first : Process Socket} (denied : Process.Denied stopped i first p)
    (other : op ≠ turning stopped) (unused : ∀ fd, first.pending i = some fd → fd ∉ op.opens)
    (change : Change p op next) : Process.Denied stopped i first next where
  behind := denied.behind.change other change
  refused := by
    apply denied.behind.refused other change denied.refused
    exact fun fd pending => unused fd (denied.pending fd pending)
  pending fd pending := denied.pending fd (denied.behind.pending other change pending).1

variable [DecidableEq Socket] {last : Process Socket} {labels : List (Op Address Socket)}

/-- Behind the task of `stop`, until the server is started or stopped again. -/
theorem closing (reached : (system Address Socket).Reaches Keeps p)
    (task : (system Address Socket).step p .runStop next)
    (follows : (system Address Socket).Follows next labels last)
    (turns : turning next.m_isStop ∉ labels) : Closing p next last labels := by
  have inv := Inv.of_reaches reached
  have behind : next.Behind next.m_isStop := ⟨rfl, inv.closed_runStop task⟩
  have other : ∀ op ∈ labels, op ≠ turning next.m_isStop :=
    fun op member isTurn => turns (isTurn ▸ member)
  constructor
  case refused => exact fun i own => inv.refused task own
  case accepted =>
    apply follows.count fun state => state.accepted
    intro op state after done
    exact (change_of_perform done).accepted
  case once =>
    intro i
    have bound := follows.bound (fun state => state.Behind next.m_isStop)
      (fun state => if (state.pending i).isSome then 1 else 0) (fun op => op.accepts = some i) ?_
      behind
    · omega
    · intro op member state after before done
      have spends := before.spends (i := i) (other op member) done
      exact ⟨before.change (other op member) (change_of_perform done), by simpa using spends⟩
  case never =>
    intro i refused unused
    have none := follows.bound (Process.Denied next.m_isStop i next) (fun _ => 0)
      (fun op => op.accepts = some i) ?_ ⟨behind, refused, fun _ => id⟩
    · omega
    · intro op member state after denied done
      have notGiven := fun fd pending => unused fd pending op member
      refine ⟨denied.change (other op member) notGiven (change_of_perform done), ?_⟩
      simp [denied.behind.not_accepts done denied.refused]

/-! ## Stopping -/

theorem Process.Behind.rest (behind : p.Behind true) (other : op ≠ .start)
    (done : p.perform op = some next) (refused : p.Refused i) :
    next.rest i + (if op.loop = some i then 1 else 0) = p.rest i := by
  have change := change_of_perform done
  cases isLoop : p.loops[i]? with
  | none =>
      have notTakes : op.loop ≠ some i := by
        intro takes
        obtain ⟨sock, old, new, turn⟩ := turn_of_loop takes done
        exact absurd (isLoop.symm.trans turn.before) nofun
      have same : next.loops[i]? = none := by
        rw [List.getElem?_eq_none_iff] at isLoop ⊢
        rw [change.length (behind.noNew other)]
        exact isLoop
      simp [Process.rest, isLoop, same, notTakes]
  | some loop =>
      obtain ⟨point, after, moves⟩ := change.moves i loop isLoop
      rw [Process.rest, Process.rest, isLoop, after]
      exact moves.rest behind.m_isStop (behind.closed _ (List.mem_of_getElem? isLoop))
        (refused loop isLoop)

/-- A loop that is refused and not through has a step. -/
theorem Process.Refused.exists_step (refused : p.Refused i) (rest : p.rest i ≠ 0) :
    ∃ (op : Op Address Socket) (next : Process Socket),
      op.loop = some i ∧ p.perform op = some next := by
  rw [Process.rest] at rest
  cases isLoop : p.loops[i]? with
  | none => simp [isLoop] at rest
  | some loop =>
      obtain ⟨sock, point⟩ := loop
      cases point with
      | check =>
          cases stop : p.m_isStop with
          | true => exact ⟨.check i, _, rfl, by rw [perform, check, isLoop, stop]; rfl⟩
          | false => exact ⟨.check i, _, rfl, by rw [perform, check, isLoop, stop]; rfl⟩
      | calling => exact ⟨.accept i .error, _, rfl, by rw [perform, accept, isLoop]; rfl⟩
      | parked fd => cases (refused _ isLoop fd rfl).1
      | woken fd => exact ⟨.accept i .error, _, rfl, by rw [perform, accept, isLoop]; rfl⟩
      | has client => exact ⟨.schedule i, _, rfl, by rw [perform, schedule, isLoop]⟩
      | ended => simp [isLoop, Point.rest] at rest

/-- Behind the task of `stop`, until the server is started again, a loop accepts at the most the one
client of a descriptor that was given out again.  Each of the others takes its two steps and is
never stuck, and behind all of them every client was scheduled once. -/
theorem shutdown (reached : (system Address Socket).Reaches Keeps p)
    (task : (system Address Socket).step p .runStop next) (stop : next.m_isStop = true)
    (follows : (system Address Socket).Follows next labels last) (noStart : .start ∉ labels) :
    Closing p next last labels ∧
      (∀ i, next.Refused i → next.Unused i labels →
        last.rest i + labels.countP (fun op => op.loop = some i) = next.rest i ∧
          next.rest i ≤ 2 ∧
          (last.rest i ≠ 0 →
            ∃ op after, op.loop = some i ∧ (system Address Socket).step last op after)) ∧
      ((∀ i, last.rest i = 0) → ∀ client,
        last.scheduled.countP (fun entry => entry.1 = client) =
          if client < last.accepted then 1 else 0) := by
  have turns : turning next.m_isStop ∉ labels := by rwa [stop]
  have behind : next.Behind true := ⟨stop, (Inv.of_reaches reached).closed_runStop task⟩
  refine ⟨closing reached task follows turns, ?_, ?_⟩
  · intro i refused unused
    have start : Process.Denied true i next next := ⟨behind, refused, fun _ => id⟩
    have keep : ∀ op ∈ labels, ∀ state after, Process.Denied true i next state →
        state.perform op = some after → Process.Denied true i next after ∧
          after.rest i + (if op.loop = some i then 1 else 0) = state.rest i := by
      intro op member state after denied done
      have other : op ≠ .start := fun isStart => noStart (isStart ▸ member)
      have notGiven := fun fd pending => unused fd pending op member
      exact ⟨denied.change other notGiven (change_of_perform done),
        denied.behind.rest other done denied.refused⟩
    have denied : Process.Denied true i next last :=
      follows.invariant _ (fun op member state after denied done =>
        (keep op member state after denied done).1) start
    refine ⟨?_, refused.rest_le, fun rest => denied.refused.exists_step rest⟩
    apply follows.measure (Process.Denied true i next) (fun state => state.rest i)
    · intro op member state after denied done
      simpa using keep op member state after denied done
    · exact start
  · intro ended client
    refine scheduled_of_rest ?_ ended client
    apply follows.invariant Process.Delivered
    · intro op _ state after delivered done
      exact (change_of_perform done).delivered delivered
    · exact (change_of_perform task).delivered (delivered_of_reaches reached)

end Behind

theorem reaches_perform [DecidableEq Socket] {p next : Process Socket} (op : Op Address Socket)
    (reached : (system Address Socket).Reaches Keeps p) (keeps : Keeps p op)
    (done : p.perform op = some next) : (system Address Socket).Reaches Keeps next :=
  .step reached keeps done

/-- Of two loops the first has a client, which is scheduled.  The second waits; the number of its
descriptor goes to a socket that is bound behind the task, and it accepts a client of that one. -/
theorem shutdown_client : ∃ last : Process Nat, last.server.m_socks = [5] ∧
    last.scheduled = [(0, 5), (1, 5)] ∧ last.rest 0 + 2 = 2 ∧ last.rest 1 = 0 := by
  have bound : (system Nat Nat).Reaches Keeps _ :=
    reaches_perform (.bind [⟨8020, 3, true, true⟩, ⟨8021, 4, true, true⟩] [7, 8] [] false)
      (.initial ⟨5, rfl⟩) (fun failed => absurd failed Bool.false_ne_true.symm) rfl
  have started : (system Nat Nat).Reaches Keeps _ := reaches_perform .start bound trivial rfl
  have first : (system Nat Nat).Reaches Keeps _ := reaches_perform (.check 0) started trivial rfl
  have second : (system Nat Nat).Reaches Keeps _ := reaches_perform (.check 1) first trivial rfl
  have parked : (system Nat Nat).Reaches Keeps _ :=
    reaches_perform (.accept 1 .again) second trivial rfl
  have accepted : (system Nat Nat).Reaches Keeps _ :=
    reaches_perform (.accept 0 (.client 9)) parked trivial rfl
  have stopped : (system Nat Nat).Reaches Keeps _ := reaches_perform .stop accepted trivial rfl
  have ended := shutdown stopped (show Process.perform _ .runStop = some _ from rfl) rfl
    (.cons (show Process.perform _ (.schedule 0) = some _ from rfl)
      (.cons (show Process.perform _ (.check 0) = some _ from rfl)
        (.cons (show Process.perform _ (.bind [⟨8022, 5, true, true⟩] [8] [] false) = some _
            from rfl)
          (.cons (show Process.perform _ (.accept 1 (.client 10)) = some _ from rfl)
            (.cons (show Process.perform _ (.schedule 1) = some _ from rfl)
              (.cons (show Process.perform _ (.check 1) = some _ from rfl) .nil)))))) (by simp)
  refine ⟨_, rfl, rfl, (ended.2.1 0 (ended.1.refused 0 ?_) ?_).1, rfl⟩
  · rintro _ ⟨⟩ _ ⟨⟩
  · rintro _ ⟨⟩

/-! ## Starting again -/

section Restart

variable {p next last : Process Socket} {op : Op Address Socket} {i : Nat}
  {labels : List (Op Address Socket)}

theorem Point.rest_eq_zero {point : Point} : point.rest = 0 ↔ point = .ended := by
  cases point <;> simp [rest]

theorem Moves.runs {sock : Socket} {old new : Point} (moves : Moves p i sock op old new)
    (started : p.m_isStop = false) (ran : old ≠ .ended) : new ≠ .ended := by
  cases moves with
  | stays other => exact ran
  | ends stopped => exact absurd (started.symm.trans stopped) Bool.false_ne_true
  | _ => exact nofun

/-- No loop is made and none ends. -/
theorem Process.Behind.runs (behind : p.Behind false) (other : op ≠ .stop)
    (change : Change p op next) :
    next.loops.length = p.loops.length ∧ ∀ i, p.rest i ≠ 0 → next.rest i ≠ 0 := by
  refine ⟨change.length (behind.noNew other), fun i ran => ?_⟩
  rw [Process.rest] at ran ⊢
  cases isLoop : p.loops[i]? with
  | none => simp [isLoop] at ran
  | some loop =>
      obtain ⟨point, after, moves⟩ := change.moves i loop isLoop
      simp only [isLoop, after, Option.map_some, Option.getD_some, Point.rest_eq_zero, ne_eq]
        at ran ⊢
      exact moves.runs behind.m_isStop ran

end Restart

/-- Where `start` comes before the task of an earlier `stop`, a loop accepts behind that task at the
most the one client of a descriptor that was given out again.  No loop is made and none that runs
ends, whatever is bound or started, until `stop` is called again. -/
theorem restart [DecidableEq Socket] {p next last : Process Socket}
    {labels : List (Op Address Socket)} (reached : (system Address Socket).Reaches Keeps p)
    (task : (system Address Socket).step p .runStop next) (started : next.m_isStop = false)
    (follows : (system Address Socket).Follows next labels last) (noStop : .stop ∉ labels) :
    Closing p next last labels ∧ last.loops.length = next.loops.length ∧
      ∀ i, next.rest i ≠ 0 → last.rest i ≠ 0 := by
  have turns : turning next.m_isStop ∉ labels := by rwa [started]
  have behind : next.Behind false := ⟨started, (Inv.of_reaches reached).closed_runStop task⟩
  have kept : last.Behind false ∧ last.loops.length = next.loops.length ∧
      ∀ i, next.rest i ≠ 0 → last.rest i ≠ 0 := by
    apply follows.invariant fun state => state.Behind false ∧
      state.loops.length = next.loops.length ∧ ∀ i, next.rest i ≠ 0 → state.rest i ≠ 0
    · rintro op member state after ⟨before, length, runs⟩ done
      have other : op ≠ .stop := fun isStop => noStop (isStop ▸ member)
      have change := change_of_perform done
      obtain ⟨sameLength, run⟩ := before.runs other change
      exact ⟨before.change other change, sameLength.trans length,
        fun i first => run i (runs i first)⟩
    · exact ⟨behind, rfl, fun _ => id⟩
  exact ⟨closing reached task follows turns, kept.2⟩

/-- A server that is started too early: another socket that is bound gets no loop, and has no
client where its descriptor is a new one. -/
theorem restart_bound : ∃ last : Process Nat, last.server.m_socks = [4] ∧ last.accepted = 0 ∧
    last.loops.length = 2 ∧ last.rest 0 ≠ 0 := by
  have bound : (system Nat Nat).Reaches Keeps _ :=
    reaches_perform (.bind [⟨8020, 3, true, true⟩] [7] [] false) (.initial ⟨5, rfl⟩)
      (fun failed => absurd failed Bool.false_ne_true.symm) rfl
  have started : (system Nat Nat).Reaches Keeps _ := reaches_perform .start bound trivial rfl
  have checked : (system Nat Nat).Reaches Keeps _ := reaches_perform (.check 0) started trivial rfl
  have parked : (system Nat Nat).Reaches Keeps _ :=
    reaches_perform (.accept 0 .again) checked trivial rfl
  have stopped : (system Nat Nat).Reaches Keeps _ := reaches_perform .stop parked trivial rfl
  have again : (system Nat Nat).Reaches Keeps _ := reaches_perform .start stopped trivial rfl
  have after := restart again (show Process.perform _ .runStop = some _ from rfl) rfl
    (.cons (show Process.perform _ (.accept 0 .error) = some _ from rfl)
      (.cons (show Process.perform _ (.bind [⟨8021, 4, true, true⟩] [9] [] false) = some _
          from rfl)
        (.cons (show Process.perform _ .start = some _ from rfl) .nil))) (by simp)
  exact ⟨_, rfl, after.1.accepted, after.2.1, after.2.2 0 (by decide)⟩

end Exhy.TcpServer
