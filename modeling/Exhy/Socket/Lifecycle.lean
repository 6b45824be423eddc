import Exhy.Socket.Core

/-!
# The lifecycle of sockets

In every sequence of operations on any number of sockets each open file is the descriptor of the
one object that opened it, each is closed once, and no call is made on a file of another object or
on one that was closed.
-/

namespace Exhy.Sockets

open Library

variable {Id Address : Type}

/-- Descriptors are held by their openers, contexts are of sockets, and only a datagram socket is
connected without a descriptor. -/
structure Inv (p : Process Id Address) : Prop where
  sound : p.ledger.Sound
  contexts : ∀ fd isSocket, p.contexts fd = some isSocket → isSocket = true
  connected : ∀ id socket, p.objects id = some socket → socket.m_isConnected = true →
    socket.m_sock = none → socket.m_type = SOCK_DGRAM

section Parts

variable {p next : Process Id Address} {id : Id} {fd : Fd}

/-! ## Calls and contexts -/

namespace Process

theorem sock_of_some {socket : Socket Address} (isSocket : p.objects id = some socket) :
    p.sock id = socket.m_sock := by
  simp [sock, isSocket]

theorem exists_of_sock (holds : p.sock id = some fd) :
    ∃ socket, p.objects id = some socket ∧ socket.m_sock = some fd := by
  simpa [sock, Option.bind_eq_some_iff] using holds

@[simp] theorem sock_call : (p.call id).sock = p.sock := rfl

@[simp] theorem sock_get : (p.get fd).sock = p.sock := rfl

@[simp] theorem objects_initSock : (p.initSock id).objects = p.objects := by
  rw [initSock]
  split <;> rfl

@[simp] theorem sock_initSock : (p.initSock id).sock = p.sock := by
  rw [initSock]
  split <;> rfl

end Process

theorem Inv.call (inv : Inv p) : Inv (p.call id) where
  sound := inv.sound.use id
  contexts := inv.contexts
  connected := inv.connected

theorem Inv.context_get (inv : Inv p) : (p.get fd).contexts fd = some true := by
  rw [Process.get]
  dsimp only
  rw [Function.update_self]
  cases before : p.contexts fd with
  | none => rfl
  | some old => exact congrArg some (inv.contexts fd old before)

theorem Inv.get (inv : Inv p) : Inv (p.get fd) where
  sound := inv.sound
  contexts other isSocket found := by
    by_cases same : other = fd
    · subst same
      exact (Option.some.inj (inv.context_get.symm.trans found)).symm
    · rw [Process.get] at found
      dsimp only at found
      rw [Function.update_of_ne same] at found
      exact inv.contexts other isSocket found
  connected := inv.connected

theorem Inv.initSock (inv : Inv p) : Inv (p.initSock id) := by
  rw [Process.initSock]
  split
  · exact inv.call.call
  · exact inv.call

theorem Inv.listen (inv : Inv p) (answers : Answers Address) : Inv (p.listen id answers).1 := by
  rw [Process.listen]
  split
  · exact inv
  · exact inv.call

theorem Inv.transfer (inv : Inv p) : Inv (p.transfer id) := by
  rw [Process.transfer]
  split
  · exact inv.call
  · exact inv

/-- What others do with descriptors of their own. -/
theorem Inv.openOutside (inv : Inv p) (free : p.files fd = none) :
    Inv { p with
      files := Function.update p.files fd (some p.openers.length)
      openers := p.openers ++ [none] } where
  sound := inv.sound.acquireOutside free
  contexts := inv.contexts
  connected := inv.connected

theorem Inv.closeOutside {hook : Bool} {file : Nat} (inv : Inv p) (isFile : p.files fd = some file)
    (foreign : p.openers[file]? = some none) :
    Inv { p with
      contexts := if hook then Function.update p.contexts fd none else p.contexts
      files := Function.update p.files fd none } where
  sound := by
    apply inv.sound.releaseOutside
    intro resource owner there made
    cases isFile.symm.trans there
    cases foreign.symm.trans made
  contexts other isSocket found := by
    cases hook with
    | false => exact inv.contexts other isSocket found
    | true =>
        by_cases same : other = fd
        · simp [same] at found
        · apply inv.contexts other
          simpa [same] using found
  connected := inv.connected

theorem inv_start : Inv (.start : Process Id Address) where
  sound := Ledger.sound_empty
  contexts _ _ found := by cases found
  connected _ _ isSocket := by cases isSocket

/-! ## What the parts do to the descriptors -/

variable [DecidableEq Id]

/-- The descriptors where one object is another one. -/
theorem sock_put (value : Option (Socket Address)) :
    (fun other => (Function.update p.objects id value other).bind Socket.m_sock) =
      Function.update p.sock id (value.bind Socket.m_sock) := by
  funext other
  by_cases same : other = id
  · subst same
    simp
  · simp [same, Process.sock]

namespace Process

/-- A change that keeps the descriptor. -/
theorem sock_modify {change : Socket Address → Socket Address}
    (keeps : ∀ socket, (change socket).m_sock = socket.m_sock) :
    (p.modify id change).sock = p.sock := by
  have changed : ((p.objects id).map change).bind Socket.m_sock = p.sock id := by
    rw [sock]
    cases p.objects id with
    | none => rfl
    | some socket => exact keeps socket
  apply (sock_put ((p.objects id).map change)).trans
  rw [changed, Function.update_eq_self]

@[simp] theorem sock_getLocalAddress (answers : Answers Address) :
    (p.getLocalAddress id answers).sock = p.sock := by
  rw [getLocalAddress]
  split
  · rfl
  · exact sock_modify fun _ => rfl

@[simp] theorem sock_getRemoteAddress (answers : Answers Address) :
    (p.getRemoteAddress id answers).sock = p.sock := by
  rw [getRemoteAddress]
  split
  · rfl
  · exact sock_modify fun _ => rfl

/-- The type of an object is the one that it was made with. -/
theorem type_new {family type protocol : Int} (made : p.new id family type protocol = some next)
    {socket : Socket Address} (isSocket : next.objects id = some socket) : socket.m_type = type := by
  rw [new] at made
  split at made
  · cases made
  · cases made
    dsimp only at isSocket
    rw [Function.update_self] at isSocket
    cases isSocket
    rfl

theorem type_newSock {hook : Bool} {answers : Answers Address}
    (made : p.newSock id hook answers = some next) {socket : Socket Address}
    (isSocket : next.objects id = some socket) :
    ∃ before, p.objects id = some before ∧ socket.m_type = before.m_type := by
  rw [newSock] at made
  split at made
  · cases made
    rw [modify] at isSocket
    dsimp only at isSocket
    rw [Function.update_self, Option.map_eq_some_iff] at isSocket
    obtain ⟨before, isBefore, rfl⟩ := isSocket
    exact ⟨before, isBefore, rfl⟩
  · rename_i fd _
    simp only [Option.bind_eq_bind, Option.bind_eq_some_iff, Option.pure_def,
      Option.some.injEq] at made
    obtain ⟨taken, isTaken, rfl⟩ := made
    have isTakenSocket : taken.objects id = some socket := by
      rw [objects_initSock] at isSocket
      cases hook <;> exact isSocket
    rw [take] at isTaken
    split at isTaken
    · rename_i before isBefore _
      cases isTaken
      dsimp only at isTakenSocket
      rw [Function.update_self] at isTakenSocket
      cases isTakenSocket
      exact ⟨before, isBefore, rfl⟩
    · cases isTaken

theorem sock_take (taken : p.take id fd = some next) : next.sock id = some fd := by
  rw [take] at taken
  split at taken
  · cases taken
    simp [sock]
  · cases taken

theorem ledger_take (taken : p.take id fd = some next) :
    next.ledger = p.ledger.acquire id fd ∧ p.files fd = none := by
  rw [take] at taken
  split at taken
  · rename_i socket _ free
    cases taken
    constructor
    · exact congrArg (Ledger.mk · _ _ _) (sock_put (some { socket with m_sock := some fd }))
    · exact free
  · cases taken

theorem ledger_closeSock (hook : Bool) :
    (p.closeSock id hook fd).ledger = p.ledger.release id fd := by
  apply congrArg (Ledger.mk · _ _ _)
  apply (sock_put _).trans
  cases p.objects id <;> rfl

theorem sock_closeSock (hook : Bool) : (p.closeSock id hook fd).sock id = none := by
  cases isSocket : p.objects id <;> simp [sock, closeSock, isSocket]

end Process

open Process

/-! ## What the parts keep -/

/-- An object is replaced by one with its descriptor. -/
theorem Inv.put (inv : Inv p) {value : Option (Socket Address)}
    (keeps : value.bind Socket.m_sock = p.sock id)
    (connected : ∀ socket, value = some socket → socket.m_isConnected = true →
      socket.m_sock = none → socket.m_type = SOCK_DGRAM) :
    Inv { p with objects := Function.update p.objects id value } where
  sound := by
    have same : Ledger.mk (fun other =>
        (Function.update p.objects id value other).bind Socket.m_sock) p.files p.openers p.calls =
          p.ledger := by
      rw [sock_put, keeps, Function.update_eq_self]
      rfl
    exact Eq.mpr (congrArg Ledger.Sound same) inv.sound
  contexts := inv.contexts
  connected other socket isSocket isConnected noSock := by
    dsimp only at isSocket
    by_cases same : other = id
    · subst same
      rw [Function.update_self] at isSocket
      exact connected socket isSocket isConnected noSock
    · rw [Function.update_of_ne same] at isSocket
      exact inv.connected other socket isSocket isConnected noSock

/-- A change that keeps the descriptor, and that connects a datagram socket or one with a
descriptor alone. -/
theorem Inv.modify (inv : Inv p) {change : Socket Address → Socket Address}
    (keeps : ∀ socket, (change socket).m_sock = socket.m_sock)
    (type : ∀ socket, (change socket).m_type = socket.m_type)
    (connects : ∀ socket, p.objects id = some socket → (change socket).m_isConnected = true →
      socket.m_sock = none → socket.m_isConnected = true ∨ socket.m_type = SOCK_DGRAM) :
    Inv (p.modify id change) := by
  apply inv.put
  · rw [sock]
    cases p.objects id with
    | none => rfl
    | some socket => exact keeps socket
  · intro socket changed isConnected noSock
    rw [Option.map_eq_some_iff] at changed
    obtain ⟨before, isBefore, rfl⟩ := changed
    rw [keeps] at noSock
    rw [type]
    rcases connects before isBefore isConnected noSock with already | isDatagram
    · exact inv.connected id before isBefore already noSock
    · exact isDatagram

/-- A change of the names alone. -/
theorem Inv.rename (inv : Inv p) {change : Socket Address → Socket Address}
    (keeps : ∀ socket, (change socket).m_sock = socket.m_sock ∧
      (change socket).m_type = socket.m_type ∧
      (change socket).m_isConnected = socket.m_isConnected) :
    Inv (p.modify id change) := by
  apply inv.modify (fun socket => (keeps socket).1) fun socket => (keeps socket).2.1
  intro socket _ isConnected _
  exact .inl ((keeps socket).2.2 ▸ isConnected)

theorem Inv.getLocalAddress (inv : Inv p) (answers : Answers Address) :
    Inv (p.getLocalAddress id answers) := by
  rw [Process.getLocalAddress]
  split
  · exact inv
  · exact inv.call.rename fun _ => ⟨rfl, rfl, rfl⟩

theorem Inv.getRemoteAddress (inv : Inv p) (answers : Answers Address) :
    Inv (p.getRemoteAddress id answers) := by
  rw [Process.getRemoteAddress]
  split
  · exact inv
  · exact inv.call.rename fun _ => ⟨rfl, rfl, rfl⟩

theorem Inv.take (inv : Inv p) (idle : p.sock id = none) (taken : p.take id fd = some next) :
    Inv next := by
  have sound : next.ledger.Sound := by
    rw [(ledger_take taken).1]
    exact inv.sound.acquire idle (ledger_take taken).2
  rw [Process.take] at taken
  split at taken
  · cases taken
    constructor
    · exact sound
    · exact inv.contexts
    · intro other socket isSocket isConnected noSock
      dsimp only at isSocket
      by_cases same : other = id
      · subst same
        rw [Function.update_self] at isSocket
        cases isSocket
        cases noSock
      · rw [Function.update_of_ne same] at isSocket
        exact inv.connected other socket isSocket isConnected noSock
  · cases taken

theorem Inv.new {family type protocol : Int} (inv : Inv p)
    (made : p.new id family type protocol = some next) : Inv next ∧ next.sock id = none := by
  rw [Process.new] at made
  split at made
  · cases made
  · rename_i absent
    cases made
    constructor
    · apply inv.put
      · simp [sock, absent]
      · intro socket isNew isConnected
        cases isNew
        cases isConnected
    · simp [sock]

theorem Inv.remove (inv : Inv p) (idle : p.sock id = none) :
    Inv { p with objects := Function.update p.objects id none } := by
  have keeps : (none : Option (Socket Address)).bind Socket.m_sock = p.sock id := idle.symm
  apply inv.put keeps
  intro socket isSocket
  cases isSocket

/-! ## Closing -/

theorem Inv.closeSock (inv : Inv p) (holds : p.sock id = some fd)
    (off : p.isConnected id = false) (hook : Bool) : Inv (p.closeSock id hook fd) where
  sound := by
    rw [ledger_closeSock]
    exact inv.sound.release holds
  contexts other isSocket found := by
    cases hook with
    | false => exact inv.contexts other isSocket found
    | true =>
        by_cases same : other = fd
        · simp [Process.closeSock, same] at found
        · apply inv.contexts other
          simpa [Process.closeSock, same] using found
  connected other socket isSocket isConnected noSock := by
    by_cases same : other = id
    · subst same
      obtain ⟨before, isBefore, -⟩ := exists_of_sock holds
      simp only [Process.closeSock, isBefore, Function.update_self, Option.map_some,
        Option.some.injEq] at isSocket
      simp only [Process.isConnected, isBefore, Option.map_some, Option.getD_some] at off
      rw [← isSocket] at isConnected
      exact absurd (off.symm.trans isConnected) Bool.false_ne_true
    · apply inv.connected other socket _ isConnected noSock
      simpa [Process.closeSock, same] using isSocket

theorem Inv.close (inv : Inv p) (hook : Bool) :
    Inv (p.close id hook).1 ∧ (p.close id hook).1.sock id = none := by
  rw [Process.close]
  split
  · rename_i idle
    simp only [Process.isValid, Bool.and_eq_true, Bool.not_eq_true', Option.isSome_eq_false_iff,
      Option.isNone_iff_eq_none] at idle
    exact ⟨inv, idle.2⟩
  · have off : Inv (p.modify id fun socket => { socket with m_isConnected := false }) := by
      refine inv.modify (fun _ => rfl) (fun _ => rfl) ?_
      intro _ _ isConnected
      cases isConnected
    dsimp only
    split
    · rename_i idle
      exact ⟨off, idle⟩
    · rename_i fd holds
      constructor
      · apply off.closeSock holds
        simp only [Process.isConnected, Process.modify, Function.update_self, Option.map_map]
        cases p.objects id <;> rfl
      · exact sock_closeSock hook

theorem Inv.destroy (inv : Inv p) (hook : Bool) : Inv (p.destroy id hook) := by
  have closed : Inv (p.close id hook).1 ∧ (p.close id hook).1.sock id = none := inv.close hook
  exact closed.1.remove closed.2

/-! ## The operations -/

theorem Inv.newSock {answers : Answers Address} {hook : Bool} (inv : Inv p)
    (idle : p.sock id = none) (made : p.newSock id hook answers = some next) :
    Inv next ∧ next.sock id = answers.fd := by
  rw [Process.newSock] at made
  split at made
  · rename_i noFd
    cases made
    have still : ((p.objects id).map fun socket => { socket with m_sock := none }).bind
        Socket.m_sock = none := by
      cases p.objects id <;> rfl
    rw [noFd]
    constructor
    · apply inv.put
      · exact still.trans idle.symm
      · intro socket changed isConnected _
        rw [Option.map_eq_some_iff] at changed
        obtain ⟨before, isBefore, rfl⟩ := changed
        exact inv.connected id before isBefore isConnected ((sock_of_some isBefore).symm.trans idle)
    · rw [sock, Process.modify]
      dsimp only
      rw [Function.update_self]
      exact still
  · rename_i fd isFd
    simp only [Option.bind_eq_bind, Option.bind_eq_some_iff, Option.pure_def,
      Option.some.injEq] at made
    obtain ⟨taken, isTaken, rfl⟩ := made
    have kept := inv.take idle isTaken
    rw [isFd, sock_initSock]
    cases hook with
    | false =>
        constructor
        · exact kept.initSock
        · exact sock_take isTaken
    | true =>
        constructor
        · exact kept.get.initSock
        · rw [← sock_take isTaken]
          rfl

theorem Inv.ensureSock {answers : Answers Address} {hook : Bool} (inv : Inv p)
    (made : p.ensureSock id hook answers = some next) : Inv next := by
  rw [Process.ensureSock] at made
  split at made
  · cases made
    exact inv
  · rename_i invalid
    apply (inv.newSock _ made).1
    simpa [Process.isValid] using invalid

theorem Inv.CreateUDP {hook : Bool} {family : Int} {answers : Answers Address} (inv : Inv p)
    (made : p.CreateUDP id hook family answers = some next) : Inv next := by
  simp only [Process.CreateUDP, Option.bind_eq_bind, Option.bind_eq_some_iff, Option.pure_def,
    Option.some.injEq] at made
  obtain ⟨created, isCreated, opened, isOpened, rfl⟩ := made
  obtain ⟨kept, idle⟩ := inv.new isCreated
  refine (kept.newSock idle isOpened).1.modify (fun _ => rfl) (fun _ => rfl) ?_
  intro socket isSocket _ _
  obtain ⟨before, isBefore, same⟩ := type_newSock isOpened isSocket
  exact .inr (same.trans (type_new isCreated isBefore))

/-- The last part of `bind`. -/
theorem Inv.bindCall {refused bound : Bool} {answers : Answers Address} (inv : Inv p)
    (made : (if refused = true then some (p, false)
      else if (!answers.succeeds) = true then some (p.call id, false)
      else some ((p.call id).getLocalAddress id answers, true)) = some (next, bound)) :
    Inv next := by
  split at made
  · cases made
    exact inv
  · split at made
    · cases made
      exact inv.call
    · cases made
      exact inv.call.getLocalAddress answers

/-- The new object of `accept` has the descriptor: no accepted one is lost. -/
theorem Inv.init {answers : Answers Address} {accepted : Bool} (inv : Inv p)
    (isContext : p.contexts fd = some true) (idle : p.sock id = none)
    (made : p.init id fd answers = some (next, accepted)) :
    Inv next ∧ accepted = true ∧ next.sock id = some fd := by
  rw [Process.init, if_pos isContext] at made
  simp only [Option.bind_eq_bind, Option.bind_eq_some_iff, Option.pure_def, Option.some.injEq,
    Prod.mk.injEq] at made
  obtain ⟨taken, isTaken, rfl, rfl⟩ := made
  have isConnected : Inv (taken.modify id fun socket => { socket with m_isConnected := true }) := by
    refine (inv.take idle isTaken).modify (fun _ => rfl) (fun _ => rfl) ?_
    intro socket isSocket _ noSock
    have lost := (sock_of_some isSocket).trans noSock
    rw [sock_take isTaken] at lost
    cases lost
  refine ⟨?_, rfl, ?_⟩
  · exact (isConnected.initSock.getLocalAddress answers).getRemoteAddress answers
  · rw [sock_getRemoteAddress, sock_getLocalAddress, sock_initSock, ← sock_take isTaken]
    apply congrFun
    apply sock_modify
    intro _
    rfl

theorem Inv.accept {client : Id} {answers : Answers Address} {accepted : Bool} (inv : Inv p)
    (made : p.accept id client answers = some (next, accepted)) :
    Inv next ∧ accepted = answers.fd.isSome ∧ next.sock client = answers.fd := by
  rw [Process.accept] at made
  split at made
  · cases made
  · simp only [Option.bind_eq_bind, Option.bind_eq_some_iff, Option.pure_def] at made
    obtain ⟨created, isCreated, made⟩ := made
    obtain ⟨kept, idle⟩ := inv.new isCreated
    split at made
    · rename_i noFd
      cases made
      rw [noFd]
      refine ⟨kept.call.remove idle, rfl, ?_⟩
      simp [sock]
    · rename_i fd isFd
      obtain ⟨keptToo, rfl, holds⟩ := kept.call.get.init kept.call.context_get idle made
      rw [isFd]
      exact ⟨keptToo, rfl, holds⟩

section Address

variable [IsAddress Address] {hook connected : Bool} {addr : Address} {answers : Answers Address}

theorem Inv.connect (inv : Inv p)
    (made : p.connect id hook addr answers = some (next, connected)) : Inv next := by
  simp only [Process.connect, Option.bind_eq_bind, Option.bind_eq_some_iff, Option.pure_def] at made
  obtain ⟨opened, isOpened, made⟩ := made
  have named : Inv (p.modify id fun socket => { socket with m_remoteAddress := some addr }) :=
    inv.rename fun _ => ⟨rfl, rfl, rfl⟩
  have kept := named.ensureSock isOpened
  split at made
  · cases made
    exact kept
  · rename_i valid
    split at made
    · cases made
      exact kept
    · split at made
      · cases made
        exact (kept.call.close hook).1
      · cases made
        apply Inv.getLocalAddress
        apply Inv.getRemoteAddress
        refine kept.call.modify (fun _ => rfl) (fun _ => rfl) ?_
        intro socket isSocket _ noSock
        have idle : opened.sock id = none := (sock_of_some isSocket).trans noSock
        simp [Process.isValid, idle] at valid

theorem Inv.reconnect (inv : Inv p)
    (made : p.reconnect id hook answers = some (next, connected)) : Inv next := by
  rw [Process.reconnect] at made
  split at made
  · cases made
    exact inv
  · have named : Inv (p.modify id fun socket => { socket with m_localAddress := none }) :=
      inv.rename fun _ => ⟨rfl, rfl, rfl⟩
    exact named.connect made

theorem Inv.tryUnix {trial : Id} (inv : Inv p)
    (made : p.tryUnix trial hook addr answers = some (next, connected)) : Inv next := by
  simp only [Process.tryUnix, Option.bind_eq_bind, Option.bind_eq_some_iff, Option.pure_def,
    Option.some.injEq, Prod.mk.injEq] at made
  obtain ⟨created, isCreated, ⟨tried, isConnected⟩, isTried, rfl, -⟩ := made
  exact ((inv.new isCreated).1.connect isTried).destroy hook

theorem Inv.bind {trial : Id} {tried : Answers Address} (inv : Inv p)
    (made : p.bind id trial hook addr answers tried = some (next, connected)) : Inv next := by
  simp only [Process.bind, Option.bind_eq_bind, Option.bind_eq_some_iff, Option.pure_def] at made
  obtain ⟨opened, isOpened, made⟩ := made
  have kept := inv.ensureSock isOpened
  split at made
  · cases made
    exact kept
  · split at made
    · cases made
      exact kept
    · split at made
      · rw [Option.bind_eq_some_iff] at made
        obtain ⟨tried, isTried, made⟩ := made
        exact (kept.tryUnix isTried).bindCall made
      · rw [Option.bind_some] at made
        exact kept.bindCall made

theorem Inv.perform {op : Op Id Address} (inv : Inv p) (done : p.perform op = some next) :
    Inv next := by
  cases op with
  | new id family type protocol => exact (inv.new done).1
  | CreateUDP id hook family answers => exact inv.CreateUDP done
  | bind id trial hook addr answers tried =>
      obtain ⟨⟨_, _⟩, made, rfl⟩ := Option.map_eq_some_iff.mp done
      exact inv.bind made
  | connect id hook addr answers =>
      obtain ⟨⟨_, _⟩, made, rfl⟩ := Option.map_eq_some_iff.mp done
      exact inv.connect made
  | reconnect id hook answers =>
      obtain ⟨⟨_, _⟩, made, rfl⟩ := Option.map_eq_some_iff.mp done
      exact inv.reconnect made
  | listen id answers =>
      cases done
      exact inv.listen answers
  | accept id client answers =>
      obtain ⟨⟨_, _⟩, made, rfl⟩ := Option.map_eq_some_iff.mp done
      exact (inv.accept made).1
  | close id hook =>
      cases done
      exact (inv.close hook).1
  | destroy id hook =>
      cases done
      exact inv.destroy hook
  | transfer id =>
      cases done
      exact inv.transfer
  | option id =>
      cases done
      exact inv.call
  | getLocalAddress id answers =>
      cases done
      exact inv.getLocalAddress answers
  | getRemoteAddress id answers =>
      cases done
      exact inv.getRemoteAddress answers
  | openOutside fd hooked =>
      simp only [Process.perform] at done
      split at done
      · cases done
      · rename_i free
        cases done
        cases hooked with
        | false => exact inv.openOutside free
        | true => exact inv.get.openOutside free
  | closeOutside fd hook =>
      simp only [Process.perform] at done
      split at done
      · cases done
      · rename_i file isFile
        split at done
        · rename_i foreign
          cases done
          exact inv.closeOutside isFile foreign
        · cases done

theorem Inv.of_reachable (reached : (system Id Address).Reachable p) : Inv p := by
  apply reached.invariant
  · rintro state rfl
    exact inv_start
  · intro state label next _ inv _ done
    exact inv.perform done

end Address

end Parts

variable [DecidableEq Id] [IsAddress Address]

/-- Each file of an object is under its descriptor, was never closed and is closed once; a call is
made on the file that the object itself opened; no file is left behind by an object that is gone;
only a datagram socket is connected without a file; and `accept` hands out every descriptor that
the system gives. -/
structure Right (p : Process Id Address) : Prop where
  sound : p.ledger.Sound
  gone : ∀ id fd file, p.objects id = none → p.files fd = some file →
    p.openers[file]? ≠ some (some id)
  connected : ∀ id socket, p.objects id = some socket → socket.m_isConnected = true →
    socket.m_type ≠ SOCK_DGRAM →
      ∃ fd file, socket.m_sock = some fd ∧ p.files fd = some file ∧
        p.openers[file]? = some (some id)
  accepted : ∀ id client answers next accepted,
    p.accept id client answers = some (next, accepted) →
      accepted = answers.fd.isSome ∧ next.sock client = answers.fd

theorem lifecycle {p : Process Id Address} (reached : (system Id Address).Reachable p) :
    Right p := by
  have inv := Inv.of_reachable reached
  constructor
  · exact inv.sound
  · intro id fd file absent there made
    have holds := inv.sound.kept fd file id there made
    have idle : p.sock id = none := by
      rw [Process.sock, absent]
      rfl
    exact absurd (idle.symm.trans holds) (Option.some_ne_none fd).symm
  · intro id socket isSocket isConnected stream
    cases holds : socket.m_sock with
    | none => exact absurd (inv.connected id socket isSocket isConnected holds) stream
    | some fd =>
        have held : p.sock id = some fd := (Process.sock_of_some isSocket).trans holds
        obtain ⟨file, there, made⟩ := inv.sound.owned id fd held
        exact ⟨fd, file, rfl, there, made⟩
  · intro id client answers next accepted made
    exact (inv.accept made).2

instance : IsAddress Nat where
  getFamily _ := AF_INET
  isUnix _ := false

/-- A server with one client. -/
theorem lifecycle_accepted : ∃ p : Process Nat Nat,
    p.sock 0 = some 3 ∧ p.sock 1 = some 4 ∧ Right p := by
  have start : (system Nat Nat).Reachable .start := .initial rfl
  have reached := start.foldlM (fun _ _ _ => id)
    (show [Op.new 0 AF_INET SOCK_STREAM 0,
      .bind 0 2 true 7 ⟨some 3, true, some 7, none⟩ ⟨none, true, none, none⟩,
      .accept 0 1 ⟨some 4, true, some 7, some 9⟩].foldlM Process.perform .start = some _ from rfl)
  exact ⟨_, rfl, rfl, lifecycle reached⟩

end Exhy.Sockets
