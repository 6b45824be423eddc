import Mathlib.Data.List.Basic

/-!
# The listening sockets of a server

`TcpServer::bind` of `exhy_tcpserver.cpp`, and when it is all or nothing.  The sockets are the
pointers that `CreateTCP` gives; what the system answers to `bind` and `listen` comes with each
address.
-/

namespace Exhy

structure TcpServer (Socket : Type) where
  m_socks : List Socket := []
  m_ssl : Bool := false
  deriving DecidableEq, Repr

namespace TcpServer

variable {Address Socket : Type}

/-- An address, the socket that is created for it and what the system answers. -/
structure Attempt (Address Socket : Type) where
  addr : Address
  sock : Socket
  bind : Bool
  listen : Bool

namespace Attempt

/-- Whether the socket listens at the address. -/
def succeeds (attempt : Attempt Address Socket) : Bool := attempt.bind && attempt.listen

/-- The sockets that listen. -/
def listening (attempts : List (Attempt Address Socket)) : List Socket :=
  (attempts.filter fun attempt => attempt.succeeds).map Attempt.sock

/-- The addresses that failed. -/
def failed (attempts : List (Attempt Address Socket)) : List Address :=
  (attempts.filter fun attempt => !attempt.succeeds).map Attempt.addr

end Attempt

/-- One round of the loop over the addresses, on `m_socks` and `fails`. -/
def bindOne (lists : List Socket × List Address) (attempt : Attempt Address Socket) :
    List Socket × List Address :=
  let (m_socks, fails) := lists
  if !attempt.bind then (m_socks, fails ++ [attempt.addr])
  else if !attempt.listen then (m_socks, fails ++ [attempt.addr])
  else (m_socks ++ [attempt.sock], fails)

/-- `bind(addrs, fails, ssl)`, with the server and the `fails` that it leaves. -/
def bind (server : TcpServer Socket) (addrs : List (Attempt Address Socket))
    (fails : List Address) (ssl : Bool) : TcpServer Socket × List Address × Bool :=
  let (m_socks, fails) := addrs.foldl bindOne (server.m_socks, fails)
  if !fails.isEmpty then ({ m_socks := [], m_ssl := ssl }, fails, false)
  else ({ m_socks, m_ssl := ssl }, fails, true)

/-- Where no address fails the server has a socket more for each, else it has those it had, and
the addresses that failed are told. -/
structure AllOrNothing (server : TcpServer Socket) (addrs : List (Attempt Address Socket))
    (fails : List Address) (ssl : Bool) : Prop where
  all : Attempt.failed addrs = [] →
    (bind server addrs fails ssl).2.2 = true ∧
      (bind server addrs fails ssl).1.m_socks = server.m_socks ++ addrs.map Attempt.sock
  nothing : Attempt.failed addrs ≠ [] →
    (bind server addrs fails ssl).2.2 = false ∧
      (bind server addrs fails ssl).1.m_socks = server.m_socks ∧
      (bind server addrs fails ssl).2.1 = fails ++ Attempt.failed addrs

section Bind

variable {server : TcpServer Socket} {addrs : List (Attempt Address Socket)}
  {fails : List Address} {ssl : Bool}

theorem bindOne_eq (m_socks : List Socket) (attempt : Attempt Address Socket) :
    bindOne (m_socks, fails) attempt =
      (m_socks ++ Attempt.listening [attempt], fails ++ Attempt.failed [attempt]) := by
  cases bound : attempt.bind <;> cases listens : attempt.listen <;>
    simp [bindOne, Attempt.listening, Attempt.failed, Attempt.succeeds, bound, listens]

/-- The loop adds the sockets that listen and the addresses that failed. -/
theorem foldl_bindOne (m_socks : List Socket) (addrs : List (Attempt Address Socket))
    (fails : List Address) :
    addrs.foldl bindOne (m_socks, fails) =
      (m_socks ++ Attempt.listening addrs, fails ++ Attempt.failed addrs) := by
  induction addrs generalizing m_socks fails with
  | nil => simp [Attempt.listening, Attempt.failed]
  | cons attempt later ih =>
      rw [List.foldl_cons, bindOne_eq, ih, List.append_assoc, List.append_assoc]
      simp only [Attempt.listening, Attempt.failed, ← List.map_append, ← List.filter_append,
        List.singleton_append]

/-- Without failures all sockets listen. -/
theorem listening_of_failed_eq_nil (none : Attempt.failed addrs = []) :
    Attempt.listening addrs = addrs.map Attempt.sock := by
  rw [Attempt.failed, List.map_eq_nil_iff, List.filter_eq_nil_iff] at none
  have all : addrs.filter (fun attempt => attempt.succeeds) = addrs := by
    rw [List.filter_eq_self]
    intro attempt member
    simpa using none attempt member
  rw [Attempt.listening, all]

/-- Nothing is kept where an address is in `fails`, also from before the call. -/
theorem bind_of_ne_nil (some_fail : fails ++ Attempt.failed addrs ≠ []) :
    bind server addrs fails ssl =
      ({ m_socks := [], m_ssl := ssl }, fails ++ Attempt.failed addrs, false) := by
  have nonempty : (!(fails ++ Attempt.failed addrs).isEmpty) = true := by
    simpa using some_fail
  rw [bind, foldl_bindOne]
  dsimp only
  rw [if_pos nonempty]

theorem bind_of_eq_nil (no_fail : Attempt.failed addrs = []) :
    bind server addrs [] ssl =
      ({ m_socks := server.m_socks ++ addrs.map Attempt.sock, m_ssl := ssl }, [], true) := by
  rw [bind, foldl_bindOne, no_fail, listening_of_failed_eq_nil no_fail]
  rfl

end Bind

/-- A call that fails must find no sockets, and one that succeeds no failures from before. -/
theorem allOrNothing_iff (server : TcpServer Socket) (addrs : List (Attempt Address Socket))
    (fails : List Address) (ssl : Bool) :
    AllOrNothing server addrs fails ssl ↔
      if Attempt.failed addrs = [] then fails = [] else server.m_socks = [] := by
  split
  next no_fail =>
    constructor
    · intro allOrNothing
      by_contra before
      have some_fail : fails ++ Attempt.failed addrs ≠ [] := by
        rw [no_fail, List.append_nil]
        exact before
      have result := (allOrNothing.all no_fail).1
      rw [bind_of_ne_nil some_fail] at result
      exact Bool.false_ne_true result
    · rintro rfl
      constructor
      · intro _
        rw [bind_of_eq_nil no_fail]
        exact ⟨rfl, rfl⟩
      · intro some_fail
        exact absurd no_fail some_fail
  next some_fail =>
    have here : fails ++ Attempt.failed addrs ≠ [] := by simp [some_fail]
    constructor
    · intro allOrNothing
      have m_socks := (allOrNothing.nothing some_fail).2.1
      rw [bind_of_ne_nil here] at m_socks
      exact m_socks.symm
    · intro none
      constructor
      · intro no_fail
        exact absurd no_fail some_fail
      · intro _
        rw [bind_of_ne_nil here, none]
        exact ⟨rfl, rfl, rfl⟩

/-- A server with a socket loses it when another address fails, and an address that failed before
makes the next call fail. -/
theorem allOrNothing_not :
    ¬AllOrNothing { m_socks := [0] } [{ addr := 8020, sock := 1, bind := false, listen := false }]
        ([] : List Nat) false ∧
      bind ({} : TcpServer Nat) [{ addr := 8020, sock := 1, bind := true, listen := true }]
        [8020] false = ({}, [8020], false) ∧
      ¬AllOrNothing ({} : TcpServer Nat)
        [{ addr := 8020, sock := 1, bind := true, listen := true }] [8020] false := by
  refine ⟨?_, rfl, ?_⟩
  · intro allOrNothing
    exact absurd (allOrNothing.nothing (by decide)).2.1 (by decide)
  · intro allOrNothing
    exact absurd (allOrNothing.all rfl).1 (by decide)

end TcpServer

end Exhy
