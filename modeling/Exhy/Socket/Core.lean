import Exhy.IOManager.Event
import Exhy.Library.Ownership
import Exhy.Library.Transition

/-!
# Sockets

`Socket` of `exhy_socket.cpp` with the descriptors of the process.  What the system answers comes
with each operation; an operation is none where the answer is no possible one.  The texts that are
logged and the options themselves are left out.
-/

namespace Exhy.Sockets

open Library

abbrev Fd := IOManager.Fd

def SOCK_STREAM : Int := 1
def SOCK_DGRAM : Int := 2
def AF_UNIX : Int := 1
def AF_INET : Int := 2
def AF_INET6 : Int := 10

/-- What is asked of an address: its family, and whether it is a `UnixAddress`. -/
class IsAddress (Address : Type) where
  getFamily : Address → Int
  isUnix : Address → Bool

/-- The descriptor -1 is none. -/
structure Socket (Address : Type) where
  m_sock : Option Fd := none
  m_family : Int
  m_type : Int
  m_protocol : Int := 0
  m_isConnected : Bool := false
  m_localAddress : Option Address := none
  m_remoteAddress : Option Address := none

/-- What the system answers: the descriptor of `socket` or `accept`, whether the call itself
succeeds, and the names of the two ends. -/
structure Answers (Address : Type) where
  fd : Option Fd
  succeeds : Bool
  sockname : Option Address
  peername : Option Address

/-- The objects and the descriptors.  Files are numbered in the order in which they were opened,
`contexts` are those of `FdManager` by whether they are of a socket, and `calls` are the calls of
the system on the descriptor of an object. -/
structure Process (Id Address : Type) where
  objects : Id → Option (Socket Address)
  contexts : Fd → Option Bool
  files : Fd → Option Nat
  openers : List (Option Id)
  calls : List (Use Id Fd)

variable {Id Address : Type} [DecidableEq Id]

namespace Process

/-- The descriptor of an object. -/
def sock (p : Process Id Address) (id : Id) : Option Fd := (p.objects id).bind Socket.m_sock

/-- Who has which file under which descriptor. -/
def ledger (p : Process Id Address) : Ledger Id Fd := ⟨p.sock, p.files, p.openers, p.calls⟩

variable (p : Process Id Address) (id : Id)

def modify (change : Socket Address → Socket Address) : Process Id Address :=
  { p with objects := Function.update p.objects id ((p.objects id).map change) }

/-- `new Socket(family, type, protocol)` -/
def new (family type protocol : Int) : Option (Process Id Address) :=
  match p.objects id with
  | some _ => none
  | none => some
      { p with
        objects := Function.update p.objects id
          (some { m_family := family, m_type := type, m_protocol := protocol }) }

/-- A call of the system on the descriptor of the object. -/
def call : Process Id Address := { p with calls := (p.ledger.use id false).uses }

/-- `FdMgr::GetInstance()->get(fd, true)` behind the call that opened the socket. -/
def get (fd : Fd) : Process Id Address :=
  { p with contexts := Function.update p.contexts fd (some ((p.contexts fd).getD true)) }

/-- The object has the file that the system opens. -/
def take (fd : Fd) : Option (Process Id Address) :=
  match p.objects id, p.files fd with
  | some socket, none => some
      { p with
        objects := Function.update p.objects id (some { socket with m_sock := some fd })
        files := Function.update p.files fd (some p.openers.length)
        openers := p.openers ++ [some id] }
  | _, _ => none

def isValid : Bool := (p.sock id).isSome

def isConnected : Bool := ((p.objects id).map Socket.m_isConnected).getD false

/-- The one or two calls of `setsockopt`. -/
def initSock : Process Id Address :=
  if (p.objects id).map Socket.m_type = some SOCK_STREAM then (p.call id).call id else p.call id

/-- `newSock()`; the context is made where the hooks are on. -/
def newSock (hook : Bool) (answers : Answers Address) : Option (Process Id Address) :=
  match answers.fd with
  | none => some (p.modify id fun socket => { socket with m_sock := none })
  | some fd => do
      let p ← p.take id fd
      return (if hook then p.get fd else p).initSock id

/-- `getLocalAddress()` -/
def getLocalAddress (answers : Answers Address) : Process Id Address :=
  if ((p.objects id).bind Socket.m_localAddress).isSome then p
  else (p.call id).modify id fun socket => { socket with m_localAddress := answers.sockname }

/-- `getRemoteAddress()` -/
def getRemoteAddress (answers : Answers Address) : Process Id Address :=
  if ((p.objects id).bind Socket.m_remoteAddress).isSome then p
  else (p.call id).modify id fun socket => { socket with m_remoteAddress := answers.peername }

/-- `close(m_sock)`; the context is deleted where the hooks are on. -/
def closeSock (hook : Bool) (fd : Fd) : Process Id Address where
  objects := Function.update p.objects id
    ((p.objects id).map fun socket => { socket with m_sock := none })
  contexts := if hook then Function.update p.contexts fd none else p.contexts
  files := Function.update p.files fd none
  openers := p.openers
  calls := (p.ledger.use id true).uses

/-- `close()` -/
def close (hook : Bool) : Process Id Address × Bool :=
  if !p.isConnected id && !p.isValid id then (p, true)
  else
    let p := p.modify id fun socket => { socket with m_isConnected := false }
    match p.sock id with
    | none => (p, false)
    | some fd => (p.closeSock id hook fd, false)

/-- `~Socket()`, behind which there is no object. -/
def destroy (hook : Bool) : Process Id Address :=
  { (p.close id hook).1 with objects := Function.update (p.close id hook).1.objects id none }

/-- `if(!isValid()) newSock();` -/
def ensureSock (hook : Bool) (answers : Answers Address) : Option (Process Id Address) :=
  if p.isValid id then some p else p.newSock id hook answers

/-- Whether the address is of the family of the socket. -/
def sameFamily [IsAddress Address] (addr : Address) : Bool :=
  (p.objects id).map Socket.m_family = some (IsAddress.getFamily addr)

section Address

variable [IsAddress Address]

/-- `connect(addr, timeout_ms)` -/
def connect (hook : Bool) (addr : Address) (answers : Answers Address) :
    Option (Process Id Address × Bool) := do
  let p := p.modify id fun socket => { socket with m_remoteAddress := some addr }
  let p ← p.ensureSock id hook answers
  if !p.isValid id then return (p, false)
  else if !p.sameFamily id addr then return (p, false)
  else
    let p := p.call id
    if !answers.succeeds then return ((p.close id hook).1, false)
    else
      let p := p.modify id fun socket => { socket with m_isConnected := true }
      return ((p.getRemoteAddress id answers).getLocalAddress id answers, true)

/-- `reconnect(timeout_ms)` -/
def reconnect (hook : Bool) (answers : Answers Address) : Option (Process Id Address × Bool) :=
  match (p.objects id).bind Socket.m_remoteAddress with
  | none => some (p, false)
  | some addr =>
      (p.modify id fun socket => { socket with m_localAddress := none }).connect id hook addr answers

/-- The block of `bind` for a `UnixAddress`: a socket of its own tries to connect, and is destroyed
behind it. -/
def tryUnix (trial : Id) (hook : Bool) (addr : Address) (answers : Answers Address) :
    Option (Process Id Address × Bool) := do
  let p ← p.new trial AF_UNIX SOCK_STREAM 0
  let (p, connected) ← p.connect trial hook addr answers
  return (p.destroy trial hook, connected)

/-- `bind(addr)` -/
def bind (trial : Id) (hook : Bool) (addr : Address) (answers tried : Answers Address) :
    Option (Process Id Address × Bool) := do
  let p ← p.ensureSock id hook answers
  if !p.isValid id then return (p, false)
  else if !p.sameFamily id addr then return (p, false)
  else
    let (p, connected) ←
      if IsAddress.isUnix addr then p.tryUnix trial hook addr tried else some (p, false)
    if connected then return (p, false)
    else
      let p := p.call id
      if !answers.succeeds then return (p, false)
      else return (p.getLocalAddress id answers, true)

end Address

/-- `listen(backlog)` -/
def listen (answers : Answers Address) : Process Id Address × Bool :=
  if !p.isValid id then (p, false) else (p.call id, answers.succeeds)

/-- `init(sock)` of a new object, for which the context of the descriptor must be that of a
socket. -/
def init (fd : Fd) (answers : Answers Address) : Option (Process Id Address × Bool) :=
  if p.contexts fd = some true then do
    let p ← p.take id fd
    let p := p.modify id fun socket => { socket with m_isConnected := true }
    return (((p.initSock id).getLocalAddress id answers).getRemoteAddress id answers, true)
  else
    -- the object is destroyed without the descriptor
    match p.files fd with
    | some _ => none
    | none => some
        ({ p with
            objects := Function.update p.objects id none
            files := Function.update p.files fd (some p.openers.length)
            openers := p.openers ++ [some id] }, false)

/-- `accept()`, with the new object; the hook makes the context also where it is off. -/
def accept (client : Id) (answers : Answers Address) : Option (Process Id Address × Bool) :=
  match p.objects id with
  | none => none
  | some socket => do
      let p ← p.new client socket.m_family socket.m_type socket.m_protocol
      let p := p.call id
      match answers.fd with
      | none => return ({ p with objects := Function.update p.objects client none }, false)
      | some fd => (p.get fd).init client fd answers

/-- `send`, `sendTo`, `recv` and `recvFrom`, in both forms. -/
def transfer : Process Id Address := if p.isConnected id then p.call id else p

/-- `CreateUDP(address)` -/
def CreateUDP (hook : Bool) (family : Int) (answers : Answers Address) :
    Option (Process Id Address) := do
  let p ← p.new id family SOCK_DGRAM 0
  let p ← p.newSock id hook answers
  return p.modify id fun socket => { socket with m_isConnected := true }

end Process

/-! ## Every sequence of operations -/

/-- An operation on an object; `hook` is whether the hooks are on in the thread, and the last two
are what others do with descriptors of their own, of which the hooked `socket` makes a context. -/
inductive Op (Id Address : Type) where
  | new (id : Id) (family type protocol : Int)
  | CreateUDP (id : Id) (hook : Bool) (family : Int) (answers : Answers Address)
  | bind (id trial : Id) (hook : Bool) (addr : Address) (answers tried : Answers Address)
  | connect (id : Id) (hook : Bool) (addr : Address) (answers : Answers Address)
  | reconnect (id : Id) (hook : Bool) (answers : Answers Address)
  | listen (id : Id) (answers : Answers Address)
  | accept (id client : Id) (answers : Answers Address)
  | close (id : Id) (hook : Bool)
  | destroy (id : Id) (hook : Bool)
  | transfer (id : Id)
  | option (id : Id)
  | getLocalAddress (id : Id) (answers : Answers Address)
  | getRemoteAddress (id : Id) (answers : Answers Address)
  | openOutside (fd : Fd) (hooked : Bool)
  | closeOutside (fd : Fd) (hook : Bool)

variable [IsAddress Address]

/-- What an operation leaves. -/
def Process.perform (p : Process Id Address) : Op Id Address → Option (Process Id Address)
  | .new id family type protocol => p.new id family type protocol
  | .CreateUDP id hook family answers => p.CreateUDP id hook family answers
  | .bind id trial hook addr answers tried =>
      (p.bind id trial hook addr answers tried).map Prod.fst
  | .connect id hook addr answers => (p.connect id hook addr answers).map Prod.fst
  | .reconnect id hook answers => (p.reconnect id hook answers).map Prod.fst
  | .listen id answers => some (p.listen id answers).1
  | .accept id client answers => (p.accept id client answers).map Prod.fst
  | .close id hook => some (p.close id hook).1
  | .destroy id hook => some (p.destroy id hook)
  | .transfer id => some (p.transfer id)
  | .option id => some (p.call id)
  | .getLocalAddress id answers => some (p.getLocalAddress id answers)
  | .getRemoteAddress id answers => some (p.getRemoteAddress id answers)
  | .openOutside fd hooked =>
      match p.files fd with
      | some _ => none
      | none =>
          let p := if hooked then p.get fd else p
          some
            { p with
              files := Function.update p.files fd (some p.openers.length)
              openers := p.openers ++ [none] }
  | .closeOutside fd hook =>
      match p.files fd with
      | none => none
      | some file =>
          if p.openers[file]? = some none then
            some
              { p with
                contexts := if hook then Function.update p.contexts fd none else p.contexts
                files := Function.update p.files fd none }
          else none

/-- A process without sockets. -/
def Process.start : Process Id Address where
  objects _ := none
  contexts _ := none
  files _ := none
  openers := []
  calls := []

def system (Id Address : Type) [DecidableEq Id] [IsAddress Address] :
    System (Process Id Address) (Op Id Address) where
  initial p := p = .start
  step p op next := p.perform op = some next

end Exhy.Sockets
