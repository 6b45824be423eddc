import Exhy.Library.CString
import Exhy.Library.Transition
import Exhy.TcpServer.Bind

/-!
# The accept loops of a server

`start`, `stop` and `startAccept` of `exhy_tcpserver.cpp`, with the fibers of the accept worker in
any order, and the descriptors of the process.  An `accept` up to its wait in `do_io` is a step, and
so is the task of `stop`, as on an accept worker of one thread.  The sockets are made under the
hooks.  Clients are numbered in the order in which they were accepted.
-/

namespace Exhy.TcpServer

open Library

/-- Where a fiber of `startAccept` is: before the test of `m_isStop`, before `accept_f`, in the wait
of `do_io` for a descriptor, woken behind that wait, with a client, or behind the loop. -/
inductive Point where
  | check
  | calling
  | parked (fd : Nat)
  | woken (fd : Nat)
  | has (client : Nat)
  | ended
  deriving DecidableEq, Repr

/-- The descriptor of the call of `do_io` that the fiber is in. -/
def Point.fd : Point → Option Nat
  | .parked fd => some fd
  | .woken fd => some fd
  | _ => none

/-- What `cancelAll` on the descriptors does to the fiber. -/
def Point.wake (fds : List Nat) : Point → Point
  | .parked fd => if fd ∈ fds then .woken fd else .parked fd
  | point => point

structure Loop (Socket : Type) where
  sock : Socket
  point : Point
  deriving DecidableEq, Repr

/-- A server with its fibers: `m_sock` are the descriptors of its open sockets, `others` the further
open descriptors of the process, `stops` counts the tasks of `stop` that wait in `m_acceptWorker`,
and `scheduled` are the clients given to `m_ioWorker` with their receive timeouts. -/
structure Process (Socket : Type) where
  server : TcpServer Socket := {}
  m_isStop : Bool := true
  m_recvTimeout : UInt64
  m_sock : List (Socket × Nat) := []
  others : List Nat := []
  loops : List (Loop Socket) := []
  stops : Nat := 0
  accepted : Nat := 0
  scheduled : List (Nat × UInt64) := []
  deriving DecidableEq, Repr

/-- What `accept_f` answers: the descriptor of a client, `EAGAIN` or another error. -/
inductive Answer where
  | client (fd : Nat)
  | again
  | error
  deriving DecidableEq, Repr

/-- What the users of the server do, the steps of the fibers by the number of the loop, the report
of `epoll_wait` for a loop that is parked, and what the rest of the process does to its descriptors;
`numbers` are those of the sockets that listen. -/
inductive Op (Address Socket : Type) where
  | bind (addrs : List (Attempt Address Socket)) (numbers : List Nat) (fails : List Address)
      (ssl : Bool)
  | start
  | stop
  | setRecvTimeout (v : UInt64)
  | runStop
  | check (loop : Nat)
  | accept (loop : Nat) (answer : Answer)
  | schedule (loop : Nat)
  | wake (loop : Nat)
  | openOther (fd : Nat)
  | closeOther (fd : Nat) (cancels : Bool)

variable {Address Socket : Type}

/-- The loop that takes the step. -/
def Op.loop : Op Address Socket → Option Nat
  | .check loop => some loop
  | .accept loop _ => some loop
  | .schedule loop => some loop
  | _ => none

/-- The loop that accepts a client in the step. -/
def Op.accepts : Op Address Socket → Option Nat
  | .accept loop (.client _) => some loop
  | _ => none

/-- The descriptors that the system gives out in the step. -/
def Op.opens : Op Address Socket → List Nat
  | .bind _ numbers _ _ => numbers
  | .accept _ (.client fd) => [fd]
  | .openOther fd => [fd]
  | _ => []

namespace Process

def descriptors (p : Process Socket) : List Nat := p.m_sock.map Prod.snd ++ p.others

/-- Somebody has a pointer to the socket. -/
def Held (p : Process Socket) (sock : Socket) : Prop :=
  sock ∈ p.server.m_socks ∨ ∃ loop ∈ p.loops, loop.sock = sock ∧ loop.point ≠ .ended

instance [DecidableEq Socket] (p : Process Socket) (sock : Socket) : Decidable (p.Held sock) :=
  inferInstanceAs (Decidable (_ ∨ _))

/-- `~Socket` closes what nobody has a pointer to. -/
def release [DecidableEq Socket] (p : Process Socket) : Process Socket :=
  { p with m_sock := p.m_sock.filter fun entry => p.Held entry.1 }

/-- `bind`, for whose sockets the system finds unused numbers. -/
def bind [DecidableEq Socket] (p : Process Socket) (addrs : List (Attempt Address Socket))
    (numbers : List Nat) (fails : List Address) (ssl : Bool) : Option (Process Socket) :=
  let socks := Attempt.listening addrs
  if (∀ sock ∈ socks, ¬p.Held sock) ∧ numbers.length = socks.length ∧ numbers.Nodup ∧
      ∀ fd ∈ numbers, fd ∉ p.descriptors then
    some (release
      { p with
        server := (TcpServer.bind p.server addrs fails ssl).1
        m_sock := p.m_sock ++ socks.zip numbers })
  else none

def start (p : Process Socket) : Process Socket :=
  if !p.m_isStop then p
  else
    { p with
      m_isStop := false
      loops := p.loops ++ p.server.m_socks.map fun sock => ⟨sock, .check⟩ }

def stop (p : Process Socket) : Process Socket :=
  { p with m_isStop := true, stops := p.stops + 1 }

/-- The task of `stop`: each socket is cancelled and closed. -/
def runStop [DecidableEq Socket] (p : Process Socket) : Option (Process Socket) :=
  match p.stops with
  | 0 => none
  | stops + 1 =>
      let closed := p.m_sock.filter fun entry => entry.1 ∈ p.server.m_socks
      some
        { p with
          stops
          loops := p.loops.map fun loop =>
            { loop with point := loop.point.wake (closed.map Prod.snd) }
          m_sock := p.m_sock.filter fun entry => entry.1 ∉ p.server.m_socks
          server := { p.server with m_socks := [] } }

/-- `while(!m_isStop)` -/
def check [DecidableEq Socket] (p : Process Socket) (i : Nat) : Option (Process Socket) :=
  match p.loops[i]? with
  | some ⟨sock, .check⟩ =>
      if !p.m_isStop then some { p with loops := p.loops.set i ⟨sock, .calling⟩ }
      else some (release { p with loops := p.loops.set i ⟨sock, .ended⟩ })
  | _ => none

/-- `accept_f` and what `do_io` makes of its answer.  A descriptor that is not open gives an error,
and the assertion of `addEvent` is that nobody else waits for a client there. -/
def accept_f (p : Process Socket) (i : Nat) (sock : Socket) (fd : Option Nat) (answer : Answer) :
    Option (Process Socket) :=
  match answer, fd with
  | .client client, some fd =>
      if fd ∈ p.descriptors ∧ client ∉ p.descriptors then some
        { p with
          others := client :: p.others
          accepted := p.accepted + 1
          loops := p.loops.set i ⟨sock, .has p.accepted⟩ }
      else none
  | .again, some fd =>
      if fd ∈ p.descriptors ∧ ∀ loop ∈ p.loops, loop.point ≠ .parked fd then
        some { p with loops := p.loops.set i ⟨sock, .parked fd⟩ }
      else none
  | .error, _ => some { p with loops := p.loops.set i ⟨sock, .check⟩ }
  | _, none => none

/-- `sock->accept()`.  Behind the wait `do_io` goes on with the number that it was called with. -/
def accept [DecidableEq Socket] (p : Process Socket) (i : Nat) (answer : Answer) :
    Option (Process Socket) :=
  match p.loops[i]? with
  | some ⟨sock, .calling⟩ => p.accept_f i sock (p.m_sock.lookup sock) answer
  | some ⟨sock, .woken fd⟩ => p.accept_f i sock (some fd) answer
  | _ => none

/-- `client->setRecvTimeout(m_recvTimeout)` and `m_ioWorker->schedule` of `handleClient`. -/
def schedule (p : Process Socket) (i : Nat) : Option (Process Socket) :=
  match p.loops[i]? with
  | some ⟨sock, .has client⟩ => some
      { p with
        scheduled := p.scheduled ++ [(client, p.m_recvTimeout)]
        loops := p.loops.set i ⟨sock, .check⟩ }
  | _ => none

/-- `epoll_wait` reports the descriptor for which the loop waits. -/
def wake (p : Process Socket) (i : Nat) : Option (Process Socket) :=
  match p.loops[i]? with
  | some ⟨sock, .parked fd⟩ =>
      if fd ∈ p.descriptors then some { p with loops := p.loops.set i ⟨sock, .woken fd⟩ }
      else none
  | _ => none

def openOther (p : Process Socket) (fd : Nat) : Option (Process Socket) :=
  if fd ∉ p.descriptors then some { p with others := fd :: p.others } else none

/-- Where the close goes through the hook of this worker, it cancels. -/
def closeOther (p : Process Socket) (fd : Nat) (cancels : Bool) : Option (Process Socket) :=
  if fd ∈ p.others then some
    { p with
      others := p.others.erase fd
      loops := p.loops.map fun loop =>
        { loop with point := loop.point.wake (if cancels then [fd] else []) } }
  else none

def perform [DecidableEq Socket] (p : Process Socket) :
    Op Address Socket → Option (Process Socket)
  | .bind addrs numbers fails ssl => p.bind addrs numbers fails ssl
  | .start => some p.start
  | .stop => some p.stop
  | .setRecvTimeout v => some { p with m_recvTimeout := v }
  | .runStop => p.runStop
  | .check loop => p.check loop
  | .accept loop answer => p.accept loop answer
  | .schedule loop => p.schedule loop
  | .wake loop => p.wake loop
  | .openOther fd => p.openOther fd
  | .closeOther fd cancels => p.closeOther fd cancels

end Process

def system (Address Socket : Type) [DecidableEq Socket] :
    System (Process Socket) (Op Address Socket) where
  initial p := ∃ m_recvTimeout, p = { m_recvTimeout }
  step p op next := p.perform op = some next

/-- The socket has no descriptor. -/
def Process.Shut (p : Process Socket) (sock : Socket) : Prop :=
  ∀ entry ∈ p.m_sock, entry.1 ≠ sock

/-- The loops that run have sockets that are closed. -/
def Process.Closed (p : Process Socket) : Prop :=
  ∀ loop ∈ p.loops, loop.point = .ended ∨ p.Shut loop.sock

/-- A `bind` that fails forgets the sockets: none of them has a loop that runs. -/
def Keeps (p : Process Socket) : Op Address Socket → Prop
  | .bind addrs _ fails ssl => (TcpServer.bind p.server addrs fails ssl).2.2 = false → p.Closed
  | _ => True

end Exhy.TcpServer
