import Exhy.TcpServer.Accept
import Mathlib.Data.List.Perm.Basic

/-!
# The steps of a server

What any step does to the loops, the descriptors and the clients, and what holds in every state.
-/

namespace Exhy.TcpServer

open Library

variable {Address Socket : Type}

/-! ## The steps of a loop -/

/-- The call of `accept_f` for the descriptor that a loop makes next. -/
def Asks (p : Process Socket) (sock : Socket) (point : Point) (fd : Nat) : Prop :=
  point = .woken fd ∨ point = .calling ∧ (sock, fd) ∈ p.m_sock

/-- What a step of the process does to the loop of a number. -/
inductive Moves (p : Process Socket) (i : Nat) (sock : Socket) :
    Op Address Socket → Point → Point → Prop where
  | stays {op : Op Address Socket} {point : Point} :
      op.loop ≠ some i → Moves p i sock op point point
  | wakes {op : Op Address Socket} {fd : Nat} :
      op.loop ≠ some i → Moves p i sock op (.parked fd) (.woken fd)
  | calls : p.m_isStop = false → Moves p i sock (.check i) .check .calling
  | ends : p.m_isStop = true → Moves p i sock (.check i) .check .ended
  | accepts {old : Point} {fd client : Nat} : Asks p sock old fd → fd ∈ p.descriptors →
      Moves p i sock (.accept i (.client client)) old (.has p.accepted)
  | parks {old : Point} {fd : Nat} : Asks p sock old fd → fd ∈ p.descriptors →
      Moves p i sock (.accept i .again) old (.parked fd)
  | fails {old : Point} : old = .calling ∨ (∃ fd, old = .woken fd) →
      Moves p i sock (.accept i .error) old .check
  | schedules {client : Nat} : Moves p i sock (.schedule i) (.has client) .check

section Moves

variable {p next : Process Socket} {op : Op Address Socket} {i j : Nat} {sock : Socket}
  {old new : Point}

theorem Moves.wake (other : op.loop ≠ some j) (fds : List Nat) :
    Moves p j sock op old (old.wake fds) := by
  cases old with
  | parked fd =>
      rw [Point.wake]
      split
      · exact .wakes other
      · exact .stays other
  | check => exact .stays other
  | calling => exact .stays other
  | woken fd => exact .stays other
  | has client => exact .stays other
  | ended => exact .stays other

/-- A step in which one loop moves, with what it does to the rest of the process. -/
structure Turn (p next : Process Socket) (op : Op Address Socket) (i : Nat) (sock : Socket)
    (old new : Point) : Prop where
  before : p.loops[i]? = some ⟨sock, old⟩
  after : next.loops = p.loops.set i ⟨sock, new⟩
  moves : Moves p i sock op old new
  only : ∀ other, op.loop = some other → other = i
  server : next.server = p.server
  m_isStop : next.m_isStop = p.m_isStop
  m_sock : next.m_sock.Sublist p.m_sock
  others : next.others = op.opens ++ p.others
  unused : p.descriptors.Nodup → (op.opens ++ p.descriptors).Nodup
  accepted : next.accepted = p.accepted + if op.accepts.isSome then 1 else 0
  delivers : ∀ client,
    next.scheduled.countP (fun entry => entry.1 = client) + (if new = .has client then 1 else 0) +
        (if client < p.accepted then 1 else 0) =
      p.scheduled.countP (fun entry => entry.1 = client) + (if old = .has client then 1 else 0) +
        (if client < next.accepted then 1 else 0)

theorem turn_check (Address : Type) [DecidableEq Socket] (done : p.check i = some next) :
    ∃ sock old new, Turn p next (.check i : Op Address Socket) i sock old new := by
  rw [Process.check] at done
  split at done
  · rename_i sock before
    cases stop : p.m_isStop with
    | true =>
        rw [stop] at done
        cases done
        refine ⟨sock, .check, .ended, ?_⟩
        constructor
        case moves => exact .ends stop
        case delivers => exact fun _ => rfl
        all_goals simp [before, stop, Process.release, Op.opens, Op.accepts, Op.loop]
    | false =>
        rw [stop] at done
        cases done
        refine ⟨sock, .check, .calling, ?_⟩
        constructor
        case moves => exact .calls stop
        all_goals simp [before, stop, Op.opens, Op.accepts, Op.loop]
  · cases done

/-- The client that is accepted has the next number. -/
theorem delivers_next {scheduled : List (Nat × UInt64)} {accepted : Nat}
    (free : ∀ client, old ≠ .has client) (client : Nat) :
    scheduled.countP (fun entry => entry.1 = client) +
          (if Point.has accepted = .has client then 1 else 0) +
        (if client < accepted then 1 else 0) =
      scheduled.countP (fun entry => entry.1 = client) + (if old = .has client then 1 else 0) +
        (if client < accepted + 1 then 1 else 0) := by
  rw [if_neg (free client)]
  rcases Nat.lt_trichotomy client accepted with less | rfl | more
  · have other : accepted ≠ client := by omega
    simp [less, other]
    omega
  · simp
  · have other : accepted ≠ client := by omega
    have neither : ¬client < accepted := by omega
    simp [other, neither]
    omega

theorem turn_accept_f {answer : Answer} {fd : Option Nat}
    (before : p.loops[i]? = some ⟨sock, old⟩) (asks : ∀ number ∈ fd, Asks p sock old number)
    (calls : old = .calling ∨ ∃ fd, old = .woken fd)
    (done : p.accept_f i sock fd answer = some next) :
    ∃ new, Turn p next (.accept i answer : Op Address Socket) i sock old new := by
  have free (client : Nat) : old ≠ .has client := by rintro rfl; simp at calls
  rw [Process.accept_f.eq_def] at done
  split at done
  · split at done
    · rename_i fd isOpen
      cases done
      refine ⟨.has p.accepted, ?_⟩
      constructor
      case moves => exact .accepts (asks fd rfl) isOpen.1
      case delivers => exact delivers_next free
      all_goals simp [before, isOpen.2, Op.opens, Op.accepts, Op.loop]
    · cases done
  · split at done
    · rename_i fd isOpen
      cases done
      refine ⟨.parked fd, ?_⟩
      constructor
      case moves => exact .parks (asks fd rfl) isOpen.1
      all_goals simp [before, free, Op.opens, Op.accepts, Op.loop]
    · cases done
  · cases done
    refine ⟨.check, ?_⟩
    constructor
    case moves => exact .fails calls
    all_goals simp [before, free, Op.opens, Op.accepts, Op.loop]
  · cases done

theorem mem_of_lookup [DecidableEq Socket] {entries : List (Socket × Nat)} {fd : Nat}
    (found : entries.lookup sock = some fd) : (sock, fd) ∈ entries := by
  obtain ⟨before, after, rfl, -⟩ := List.lookup_eq_some_iff.mp found
  simp

theorem turn_accept (Address : Type) [DecidableEq Socket] {answer : Answer}
    (done : p.accept i answer = some next) :
    ∃ sock old new, Turn p next (.accept i answer : Op Address Socket) i sock old new := by
  rw [Process.accept] at done
  split at done
  · rename_i sock before
    refine ⟨sock, .calling, turn_accept_f before ?_ (.inl rfl) done⟩
    intro fd found
    exact .inr ⟨rfl, mem_of_lookup found⟩
  · rename_i sock fd before
    refine ⟨sock, .woken fd, turn_accept_f before ?_ (.inr ⟨fd, rfl⟩) done⟩
    rintro _ ⟨⟩
    exact .inl rfl
  · cases done

theorem turn_schedule (Address : Type) (done : p.schedule i = some next) :
    ∃ sock old new, Turn p next (.schedule i : Op Address Socket) i sock old new := by
  rw [Process.schedule] at done
  split at done
  · rename_i sock client before
    cases done
    refine ⟨sock, .has client, .check, ?_⟩
    constructor
    case moves => exact .schedules
    all_goals
      simp [before, Op.opens, Op.accepts, Op.loop, List.countP_append, List.countP_singleton]
  · cases done

theorem turn_wake (Address : Type) (done : p.wake i = some next) :
    ∃ sock old new, Turn p next (.wake i : Op Address Socket) i sock old new := by
  rw [Process.wake] at done
  split at done
  · rename_i sock fd before
    split at done
    · cases done
      refine ⟨sock, .parked fd, .woken fd, ?_⟩
      constructor
      case moves => exact .wakes nofun
      all_goals simp [before, Op.opens, Op.accepts, Op.loop]
    · cases done
  · cases done

theorem turn_of_loop [DecidableEq Socket] (takes : op.loop = some i)
    (done : p.perform op = some next) : ∃ sock old new, Turn p next op i sock old new := by
  cases op with
  | check loop =>
      cases takes
      exact turn_check Address done
  | accept loop answer =>
      cases takes
      exact turn_accept Address done
  | schedule loop =>
      cases takes
      exact turn_schedule Address done
  | _ => cases takes

end Moves

/-! ## The steps of the process -/

/-- Each client was scheduled once or is in the hands of one loop. -/
def Process.Delivered (p : Process Socket) : Prop :=
  ∀ client, p.scheduled.countP (fun entry => entry.1 = client) +
    p.loops.countP (fun loop => loop.point = .has client) = if client < p.accepted then 1 else 0

/-- What any step does to the loops, the descriptors and the clients. -/
structure Change (p : Process Socket) (op : Op Address Socket) (next : Process Socket) : Prop where
  moves : ∀ j loop, p.loops[j]? = some loop →
    ∃ point, next.loops[j]? = some ⟨loop.sock, point⟩ ∧
      Moves p j loop.sock op loop.point point
  length : (op = .start → p.m_isStop = false) → next.loops.length = p.loops.length
  stays : op ≠ .start → p.m_isStop = true → next.m_isStop = true
  runs : op ≠ .stop → p.m_isStop = false → next.m_isStop = false
  entries : ∀ entry ∈ next.m_sock, entry ∈ p.m_sock ∨ ¬p.Held entry.1
  descriptors : ∀ fd ∈ next.descriptors, fd ∈ p.descriptors ∨ fd ∈ op.opens
  distinct : p.descriptors.Nodup → next.descriptors.Nodup
  accepted : next.accepted = p.accepted + if op.accepts.isSome then 1 else 0
  delivered : p.Delivered → next.Delivered

section Change

variable {p next : Process Socket} {op : Op Address Socket} {i j : Nat} {sock : Socket}
  {old new : Point} {fds : List Nat}

theorem Turn.member (turn : Turn p next op i sock old new) :
    (⟨sock, old⟩ : Loop Socket) ∈ p.loops :=
  List.mem_of_getElem? turn.before

theorem Turn.delivered (turn : Turn p next op i sock old new) (delivered : p.Delivered) :
    next.Delivered := by
  intro client
  obtain ⟨within, isLoop⟩ := List.getElem?_eq_some_iff.mp turn.before
  have moved := turn.delivers client
  have counted := delivered client
  rw [turn.after, List.countP_set within, isLoop]
  by_cases had : old = .has client
  · have positive : 0 < p.loops.countP fun loop => loop.point = .has client := by
      rw [List.countP_pos_iff]
      exact ⟨_, turn.member, by simpa using had⟩
    simp only [had, decide_true, if_true] at moved ⊢
    simp only [decide_eq_true_eq]
    omega
  · simp only [had, decide_false, Bool.false_eq_true, if_false] at moved ⊢
    simp only [decide_eq_true_eq]
    omega

/-- The loop that moves and the others. -/
theorem Turn.loop (turn : Turn p next op i sock old new) {loop : Loop Socket}
    (isLoop : p.loops[j]? = some loop) :
    ∃ point, next.loops[j]? = some ⟨loop.sock, point⟩ ∧
      Moves p j loop.sock op loop.point point := by
  obtain ⟨within, -⟩ := List.getElem?_eq_some_iff.mp turn.before
  rw [turn.after]
  by_cases same : i = j
  · subst same
    rw [turn.before] at isLoop
    cases isLoop
    exact ⟨new, List.getElem?_set_self within, turn.moves⟩
  · refine ⟨loop.point, ?_, .stays fun takes => same (turn.only j takes).symm⟩
    rw [List.getElem?_set_ne same]
    exact isLoop

theorem Turn.mem_descriptors (turn : Turn p next op i sock old new) {fd : Nat}
    (isOpen : fd ∈ next.descriptors) : fd ∈ p.descriptors ∨ fd ∈ op.opens := by
  rw [Process.descriptors, turn.others, List.mem_append, List.mem_append] at isOpen
  rcases isOpen with isSock | opened | other
  · exact .inl (List.mem_append_left _ ((turn.m_sock.map Prod.snd).subset isSock))
  · exact .inr opened
  · exact .inl (List.mem_append_right _ other)

theorem Turn.distinct (turn : Turn p next op i sock old new) (distinct : p.descriptors.Nodup) :
    next.descriptors.Nodup := by
  have fewer : next.descriptors.Sublist (p.m_sock.map Prod.snd ++ (op.opens ++ p.others)) := by
    rw [Process.descriptors, turn.others]
    exact (turn.m_sock.map Prod.snd).append_right _
  apply fewer.nodup
  rw [(List.perm_append_comm_assoc _ _ _).nodup_iff]
  exact turn.unused distinct

theorem Turn.change (turn : Turn p next op i sock old new) : Change p op next where
  moves j loop := turn.loop
  length _ := by rw [turn.after, List.length_set]
  stays _ stop := turn.m_isStop.trans stop
  runs _ started := turn.m_isStop.trans started
  entries entry member := .inl (turn.m_sock.subset member)
  descriptors fd := turn.mem_descriptors
  distinct := turn.distinct
  accepted := turn.accepted
  delivered := turn.delivered

theorem Point.wake_nil (point : Point) : point.wake [] = point := by
  cases point <;> rfl

theorem Point.wake_eq_has {point : Point} {client : Nat} :
    point.wake fds = .has client ↔ point = .has client := by
  cases point with
  | parked fd => by_cases isOne : fd ∈ fds <;> simp [wake, isOne]
  | check => rfl
  | calling => rfl
  | woken fd => rfl
  | has client => rfl
  | ended => rfl

/-- A step of no loop, behind which some of them are woken up. -/
structure Quiet (p : Process Socket) (op : Op Address Socket) (next : Process Socket)
    (fds : List Nat) : Prop where
  loop : op.loop = none
  loops : next.loops = p.loops.map fun loop => { loop with point := loop.point.wake fds }
  scheduled : next.scheduled = p.scheduled
  accepted : next.accepted = p.accepted
  m_isStop : next.m_isStop = p.m_isStop ∨ op = .stop ∧ next.m_isStop = true
  entries : ∀ entry ∈ next.m_sock, entry ∈ p.m_sock ∨ ¬p.Held entry.1
  descriptors : ∀ fd ∈ next.descriptors, fd ∈ p.descriptors ∨ fd ∈ op.opens
  distinct : p.descriptors.Nodup → next.descriptors.Nodup

theorem Quiet.delivered (quiet : Quiet p op next fds) (delivered : p.Delivered) :
    next.Delivered := by
  intro client
  have same : (next.loops.countP fun loop => loop.point = .has client) =
      p.loops.countP fun loop => loop.point = .has client := by
    rw [quiet.loops, List.countP_map]
    apply List.countP_congr
    intro loop _
    simp [Point.wake_eq_has]
  rw [quiet.scheduled, quiet.accepted, same]
  exact delivered client

theorem Quiet.change (quiet : Quiet p op next fds) : Change p op next where
  moves j loop isLoop := by
    refine ⟨loop.point.wake fds, ?_, .wake (by simp [quiet.loop]) fds⟩
    rw [quiet.loops, List.getElem?_map, isLoop]
    rfl
  length _ := by rw [quiet.loops, List.length_map]
  stays _ stop := by
    rcases quiet.m_isStop with same | ⟨-, stopped⟩
    · exact same.trans stop
    · exact stopped
  runs notStop started := (quiet.m_isStop.resolve_right fun stops => notStop stops.1).trans started
  entries := quiet.entries
  descriptors := quiet.descriptors
  distinct := quiet.distinct
  accepted := by
    have none : op.accepts = none := by
      have noLoop := quiet.loop
      cases op with
      | accept loop answer => cases noLoop
      | _ => rfl
    rw [none]
    exact quiet.accepted
  delivered := quiet.delivered

theorem map_wake_nil (loops : List (Loop Socket)) :
    (loops.map fun loop => { loop with point := loop.point.wake [] }) = loops := by
  simp [Point.wake_nil]

/-- A step that leaves the loops, the descriptors and the clients. -/
theorem quiet_settings (loop : op.loop = none) (loops : next.loops = p.loops)
    (m_isStop : next.m_isStop = p.m_isStop ∨ op = .stop ∧ next.m_isStop = true)
    (m_sock : next.m_sock = p.m_sock) (others : next.others = p.others)
    (scheduled : next.scheduled = p.scheduled) (accepted : next.accepted = p.accepted) :
    Quiet p op next [] := by
  have descriptors : next.descriptors = p.descriptors := by
    rw [Process.descriptors, m_sock, others]
    rfl
  exact
    { loop, loops := loops.trans (map_wake_nil _).symm, scheduled, accepted, m_isStop
      entries := fun _ => m_sock ▸ .inl
      descriptors := fun _ => descriptors ▸ .inl
      distinct := descriptors ▸ id }

theorem change_start : Change p (.start : Op Address Socket) p.start := by
  rw [Process.start]
  split
  next started =>
    exact (quiet_settings rfl rfl (.inl rfl) rfl rfl rfl rfl).change
  next stopped =>
    have isStop : p.m_isStop = true := by simpa using stopped
    constructor
    case moves =>
      intro j loop isLoop
      obtain ⟨within, -⟩ := List.getElem?_eq_some_iff.mp isLoop
      refine ⟨loop.point, ?_, .stays nofun⟩
      rw [List.getElem?_append_left within]
      exact isLoop
    case length =>
      intro runs
      exact absurd (runs rfl) (by simp [isStop])
    case stays => exact fun notStart => absurd rfl notStart
    case runs => exact fun _ _ => rfl
    case entries => exact fun _ => .inl
    case descriptors => exact fun _ => .inl
    case distinct => exact id
    case accepted => rfl
    case delivered =>
      intro delivered client
      have none : (p.server.m_socks.map fun sock => (⟨sock, .check⟩ : Loop Socket)).countP
          (fun loop => loop.point = .has client) = 0 := by
        rw [List.countP_eq_zero]
        intro loop member
        obtain ⟨sock, -, rfl⟩ := List.mem_map.mp member
        simp
      have counted := delivered client
      rw [List.countP_append, none]
      exact counted

theorem descriptors_release [DecidableEq Socket] (p : Process Socket) :
    p.release.descriptors.Sublist p.descriptors :=
  (List.filter_sublist.map Prod.snd).append_right p.others

theorem quiet_bind [DecidableEq Socket] {addrs : List (Attempt Address Socket)}
    {numbers : List Nat} {fails : List Address} {ssl : Bool}
    (done : p.bind addrs numbers fails ssl = some next) :
    Quiet p (.bind addrs numbers fails ssl) next [] := by
  rw [Process.bind] at done
  split at done
  · rename_i free
    obtain ⟨free, length, unlike, unused⟩ := free
    cases done
    constructor
    case loop => rfl
    case loops => exact (map_wake_nil _).symm
    case scheduled => rfl
    case accepted => rfl
    case m_isStop => exact .inl rfl
    case entries =>
      intro entry member
      rcases List.mem_append.mp (List.mem_of_mem_filter member) with before | isNew
      · exact .inl before
      · exact .inr (free _ (List.of_mem_zip isNew).1)
    case descriptors =>
      intro fd isOpen
      rcases List.mem_append.mp isOpen with isSock | other
      · obtain ⟨entry, member, rfl⟩ := List.mem_map.mp isSock
        rcases List.mem_append.mp (List.mem_of_mem_filter member) with before | isNew
        · exact .inl (List.mem_append_left _ (List.mem_map_of_mem before))
        · exact .inr (List.of_mem_zip isNew).2
      · exact .inl (List.mem_append_right _ other)
    case distinct =>
      intro distinct
      apply (descriptors_release _).nodup
      rw [Process.descriptors, List.map_append, List.map_snd_zip (Nat.le_of_eq length),
        List.append_assoc, (List.perm_append_comm_assoc _ _ _).nodup_iff, List.nodup_append]
      refine ⟨unlike, distinct, ?_⟩
      rintro fd isNew _ before rfl
      exact unused fd isNew before
  · cases done

theorem quiet_runStop [DecidableEq Socket] (done : p.runStop = some next) :
    Quiet p (.runStop : Op Address Socket) next
      ((p.m_sock.filter fun entry => entry.1 ∈ p.server.m_socks).map Prod.snd) := by
  rw [Process.runStop] at done
  split at done
  · cases done
  · cases done
    have fewer : (p.m_sock.filter fun entry => entry.1 ∉ p.server.m_socks).Sublist p.m_sock :=
      List.filter_sublist
    have descriptors := (fewer.map Prod.snd).append_right p.others
    exact
      { loop := rfl, loops := rfl, scheduled := rfl, accepted := rfl, m_isStop := .inl rfl
        entries := fun _ member => .inl (fewer.subset member)
        descriptors := fun _ isOpen => .inl (descriptors.subset isOpen)
        distinct := descriptors.nodup }

theorem quiet_closeOther {fd : Nat} {cancels : Bool} (done : p.closeOther fd cancels = some next) :
    Quiet p (.closeOther fd cancels : Op Address Socket) next (if cancels then [fd] else []) := by
  rw [Process.closeOther] at done
  split at done
  · cases done
    have fewer : (p.others.erase fd).Sublist p.others := List.erase_sublist
    have descriptors := fewer.append_left (p.m_sock.map Prod.snd)
    exact
      { loop := rfl, loops := rfl, scheduled := rfl, accepted := rfl, m_isStop := .inl rfl
        entries := fun _ => .inl
        descriptors := fun _ isOpen => .inl (descriptors.subset isOpen)
        distinct := descriptors.nodup }
  · cases done

theorem quiet_openOther {fd : Nat} (done : p.openOther fd = some next) :
    Quiet p (.openOther fd : Op Address Socket) next [] := by
  rw [Process.openOther] at done
  split at done
  · rename_i unused
    cases done
    constructor
    case loop => rfl
    case loops => exact (map_wake_nil _).symm
    case scheduled => rfl
    case accepted => rfl
    case m_isStop => exact .inl rfl
    case entries => exact fun _ => .inl
    case descriptors =>
      intro number isOpen
      rcases List.mem_cons.mp (List.perm_middle.subset isOpen) with rfl | before
      · exact .inr List.mem_cons_self
      · exact .inl before
    case distinct =>
      intro distinct
      exact List.perm_middle.nodup_iff.mpr (List.nodup_cons.mpr ⟨unused, distinct⟩)
  · cases done

theorem change_of_perform [DecidableEq Socket] (done : p.perform op = some next) :
    Change p op next := by
  cases op with
  | bind addrs numbers fails ssl => exact (quiet_bind done).change
  | start =>
      cases done
      exact change_start
  | stop =>
      cases done
      have quiet : Quiet p (.stop : Op Address Socket) p.stop [] :=
        quiet_settings rfl rfl (.inr ⟨rfl, rfl⟩) rfl rfl rfl rfl
      exact quiet.change
  | setRecvTimeout v =>
      cases done
      have quiet : Quiet p (.setRecvTimeout v : Op Address Socket)
          { p with m_recvTimeout := v } [] := quiet_settings rfl rfl (.inl rfl) rfl rfl rfl rfl
      exact quiet.change
  | runStop => exact (quiet_runStop done).change
  | check | accept | schedule =>
      obtain ⟨_, _, _, turn⟩ := turn_of_loop rfl done
      exact turn.change
  | wake loop =>
      obtain ⟨_, _, _, turn⟩ := turn_wake Address done
      exact turn.change
  | openOther fd => exact (quiet_openOther done).change
  | closeOther fd cancels => exact (quiet_closeOther done).change

theorem Moves.ended (moves : Moves p i sock op .ended new) : new = .ended := by
  cases moves with
  | stays other => rfl
  | accepts asks isOpen => simp [Asks] at asks
  | parks asks isOpen => simp [Asks] at asks
  | fails calls => simp at calls

/-- A loop that runs ran before, and its socket was not opened by the step. -/
theorem Change.source (change : Change p op next) (noNew : op = .start → p.m_isStop = false)
    {loop : Loop Socket} (member : loop ∈ next.loops) (runs : loop.point ≠ .ended) :
    ∃ before ∈ p.loops, before.sock = loop.sock ∧ before.point ≠ .ended ∧
      (p.Shut loop.sock → next.Shut loop.sock) := by
  obtain ⟨j, isLoop⟩ := List.getElem?_of_mem member
  obtain ⟨within, -⟩ := List.getElem?_eq_some_iff.mp isLoop
  rw [change.length noNew] at within
  obtain ⟨point, after, moves⟩ := change.moves j _ (List.getElem?_eq_getElem within)
  rw [isLoop] at after
  cases after
  have ran : p.loops[j].point ≠ .ended := by
    intro ended
    rw [ended] at moves
    exact runs moves.ended
  have isMember : p.loops[j] ∈ p.loops := List.getElem_mem within
  refine ⟨p.loops[j], isMember, rfl, ran, ?_⟩
  rintro shut entry isEntry same
  rcases change.entries entry isEntry with before | unheld
  · exact shut entry before same
  · rw [same] at unheld
    exact unheld (.inr ⟨_, isMember, rfl, ran⟩)

theorem Change.closed (change : Change p op next) (noNew : op = .start → p.m_isStop = false)
    (closed : p.Closed) : next.Closed := by
  intro loop member
  by_cases runs : loop.point = .ended
  · exact .inl runs
  · obtain ⟨before, isLoop, same, ran, kept⟩ := change.source noNew member runs
    exact .inr (kept (same ▸ (closed before isLoop).resolve_left ran))

end Change

/-! ## What holds in every state -/

/-- Each loop that runs has a socket of the server or a closed one, and no two descriptors have one
number. -/
structure Inv (p : Process Socket) : Prop where
  covered : ∀ loop ∈ p.loops,
    loop.point = .ended ∨ loop.sock ∈ p.server.m_socks ∨ p.Shut loop.sock
  distinct : p.descriptors.Nodup

section Inv

variable {p next : Process Socket} {op : Op Address Socket}

theorem Inv.change (inv : Inv p) (change : Change p op next)
    (noNew : op = .start → p.m_isStop = false)
    (m_socks : p.server.m_socks ⊆ next.server.m_socks) : Inv next where
  covered loop member := by
    by_cases runs : loop.point = .ended
    · exact .inl runs
    · obtain ⟨before, isLoop, same, ran, kept⟩ := change.source noNew member runs
      rcases (inv.covered before isLoop).resolve_left ran with isSock | shut
      · exact .inr (.inl (m_socks (same ▸ isSock)))
      · exact .inr (.inr (kept (same ▸ shut)))
  distinct := change.distinct inv.distinct

theorem Inv.start (inv : Inv p) : Inv p.start := by
  rw [Process.start]
  split
  · exact inv
  · constructor
    · intro loop member
      rcases List.mem_append.mp member with before | isNew
      · exact inv.covered loop before
      · obtain ⟨sock, isSock, rfl⟩ := List.mem_map.mp isNew
        exact .inr (.inl isSock)
    · exact inv.distinct

/-- The task of `stop` leaves no loop on an open socket. -/
theorem Inv.closed_runStop [DecidableEq Socket] (inv : Inv p) (done : p.runStop = some next) :
    next.Closed := by
  rw [Process.runStop] at done
  split at done
  · cases done
  · cases done
    intro loop member
    obtain ⟨before, isLoop, rfl⟩ := List.mem_map.mp member
    dsimp only
    rcases inv.covered before isLoop with ended | isSock | shut
    · exact .inl (by rw [ended]; rfl)
    · refine .inr fun entry isEntry same => ?_
      have other := (List.mem_filter.mp isEntry).2
      rw [same] at other
      simp [isSock] at other
    · exact .inr fun entry isEntry => shut entry (List.mem_of_mem_filter isEntry)

theorem m_socks_bind (server : TcpServer Socket) (addrs : List (Attempt Address Socket))
    (fails : List Address) (ssl : Bool) :
    (TcpServer.bind server addrs fails ssl).2.2 = true ∧
        (TcpServer.bind server addrs fails ssl).1.m_socks =
          server.m_socks ++ Attempt.listening addrs ∨
      (TcpServer.bind server addrs fails ssl).2.2 = false ∧
        (TcpServer.bind server addrs fails ssl).1.m_socks = [] := by
  rw [TcpServer.bind, foldl_bindOne]
  dsimp only
  split
  · exact .inr ⟨rfl, rfl⟩
  · exact .inl ⟨rfl, rfl⟩

theorem Inv.of_closed (closed : next.Closed) (distinct : next.descriptors.Nodup) : Inv next where
  covered loop member := (closed loop member).imp id .inr
  distinct := distinct

variable [DecidableEq Socket]

theorem server_bind {addrs : List (Attempt Address Socket)} {numbers : List Nat}
    {fails : List Address} {ssl : Bool} (done : p.bind addrs numbers fails ssl = some next) :
    next.server = (TcpServer.bind p.server addrs fails ssl).1 := by
  rw [Process.bind] at done
  split at done
  · cases done
    rfl
  · cases done

theorem Inv.bind (inv : Inv p) {addrs : List (Attempt Address Socket)} {numbers : List Nat}
    {fails : List Address} {ssl : Bool} (keeps : Keeps p (.bind addrs numbers fails ssl))
    (done : p.bind addrs numbers fails ssl = some next) : Inv next := by
  have change := (quiet_bind done).change
  rcases m_socks_bind p.server addrs fails ssl with ⟨-, m_socks⟩ | ⟨failed, -⟩
  · apply inv.change change nofun
    rw [server_bind done, m_socks]
    exact List.subset_append_left _ _
  · exact .of_closed (change.closed nofun (keeps failed)) (change.distinct inv.distinct)

theorem Inv.perform (inv : Inv p) (keeps : Keeps p op) (done : p.perform op = some next) :
    Inv next := by
  have change := change_of_perform done
  cases op with
  | bind addrs numbers fails ssl => exact inv.bind keeps done
  | start =>
      cases done
      exact inv.start
  | stop =>
      cases done
      exact inv.change change nofun (List.Subset.refl _)
  | setRecvTimeout v =>
      cases done
      exact inv.change change nofun (List.Subset.refl _)
  | runStop => exact .of_closed (inv.closed_runStop done) (change.distinct inv.distinct)
  | check | accept | schedule =>
      obtain ⟨_, _, _, turn⟩ := turn_of_loop rfl done
      exact inv.change change nofun (turn.server ▸ List.Subset.refl _)
  | wake loop =>
      obtain ⟨_, _, _, turn⟩ := turn_wake Address done
      exact inv.change change nofun (turn.server ▸ List.Subset.refl _)
  | openOther fd =>
      rw [Process.perform, Process.openOther] at done
      split at done
      · cases done
        exact inv.change change nofun (List.Subset.refl _)
      · cases done
  | closeOther fd cancels =>
      rw [Process.perform, Process.closeOther] at done
      split at done
      · cases done
        exact inv.change change nofun (List.Subset.refl _)
      · cases done

theorem Inv.of_reaches (reached : (system Address Socket).Reaches Keeps p) : Inv p := by
  apply reached.invariant
  · rintro state ⟨m_recvTimeout, rfl⟩
    constructor
    · intro loop member
      cases member
    · exact List.nodup_nil
  · intro state label after _ inv keeps done
    exact inv.perform keeps done

theorem delivered_of_reaches {allowed : Process Socket → Op Address Socket → Prop}
    (reached : (system Address Socket).Reaches allowed p) : p.Delivered := by
  apply reached.invariant
  · rintro state ⟨m_recvTimeout, rfl⟩ client
    rfl
  · intro state label after _ delivered _ done
    exact (change_of_perform done).delivered delivered

end Inv

end Exhy.TcpServer
