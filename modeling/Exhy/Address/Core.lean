import Exhy.ByteArray.Integers
import Exhy.Library.Bits
import Exhy.Library.CString
import Exhy.Library.Literal

/-!
# IP addresses

`IPv4Address` and `IPv6Address` of `exhy_address.h` and `exhy_address.cpp` on a machine with
the low byte first.  The flow and the scope of an IPv6 socket address are left out; a pointer
to an address is an option.
-/

namespace Exhy.Address

open Library

/-! ## Byte order -/

/-- `byteswapOnLittleEndian(t)` for a type of `size` bytes. -/
def byteswapOnLittleEndian (size : Nat) (t : BitVec (8 * size)) : BitVec (8 * size) :=
  ByteArray.byteswap size t

section Swap

variable (size : Nat)

/-- The byte that a bit is in goes to the other end, and the bit keeps its place in it. -/
theorem getLsbD_byteswap (t : BitVec (8 * size)) {i : Nat} (small : i < 8 * size) :
    (byteswapOnLittleEndian size t).getLsbD i = t.getLsbD (8 * (size - 1 - i / 8) + i % 8) := by
  have numbers (value : BitVec (8 * size)) :
      ofLittleEndian (littleEndian size value.toNat) = value.toNat :=
    ofLittleEndian_littleEndian (ByteArray.toNat_lt_pow value)
  have length : (littleEndian size t.toNat).length = size := length_littleEndian ..
  have inside : i / 8 < (littleEndian size t.toNat).length := by omega
  have place : (8 * (size - 1 - i / 8) + i % 8) / 8 = size - 1 - i / 8 := by omega
  have bit : (8 * (size - 1 - i / 8) + i % 8) % 8 = i % 8 := by omega
  rw [BitVec.getLsbD, BitVec.getLsbD, ← numbers, ← numbers t, byteswapOnLittleEndian,
    ByteArray.littleEndian_byteswap, testBit_ofLittleEndian, testBit_ofLittleEndian, place, bit,
    List.getD_eq_getElem?_getD, List.getD_eq_getElem?_getD, List.getElem?_reverse inside, length]

theorem byteswap_byteswap (t : BitVec (8 * size)) :
    byteswapOnLittleEndian size (byteswapOnLittleEndian size t) = t :=
  ByteArray.byteswap_byteswap t

theorem byteswap_and (left right : BitVec (8 * size)) :
    byteswapOnLittleEndian size (left &&& right) =
      byteswapOnLittleEndian size left &&& byteswapOnLittleEndian size right := by
  apply BitVec.eq_of_getLsbD_eq
  intro i small
  rw [BitVec.getLsbD_and, getLsbD_byteswap size _ small, getLsbD_byteswap size _ small,
    getLsbD_byteswap size _ small, BitVec.getLsbD_and]

theorem byteswap_or (left right : BitVec (8 * size)) :
    byteswapOnLittleEndian size (left ||| right) =
      byteswapOnLittleEndian size left ||| byteswapOnLittleEndian size right := by
  apply BitVec.eq_of_getLsbD_eq
  intro i small
  rw [BitVec.getLsbD_or, getLsbD_byteswap size _ small, getLsbD_byteswap size _ small,
    getLsbD_byteswap size _ small, BitVec.getLsbD_or]

theorem byteswap_not (t : BitVec (8 * size)) :
    byteswapOnLittleEndian size (~~~t) = ~~~byteswapOnLittleEndian size t := by
  apply BitVec.eq_of_getLsbD_eq
  intro i small
  have inside : 8 * (size - 1 - i / 8) + i % 8 < 8 * size := by omega
  rw [BitVec.getLsbD_not, getLsbD_byteswap size _ small, getLsbD_byteswap size _ small, BitVec.getLsbD_not,
    decide_eq_true small, decide_eq_true inside]

end Swap

/-! ## Socket addresses -/

def AF_INET : BitVec 16 := 2
def AF_INET6 : BitVec 16 := 10

structure sockaddr_in where
  sin_family : BitVec 16 := 0
  sin_port : BitVec 16 := 0
  s_addr : BitVec 32 := 0
  deriving DecidableEq, Repr

structure sockaddr_in6 where
  sin6_family : BitVec 16 := 0
  sin6_port : BitVec 16 := 0
  s6_addr : Vector (BitVec 8) 16 := .replicate 16 0
  deriving DecidableEq, Repr

/-! ## IPv4 -/

structure IPv4Address where
  m_addr : sockaddr_in
  deriving DecidableEq, Repr

namespace IPv4Address

/-- `IPv4Address(address, port)`: the port is swapped as a `uint32_t`. -/
def ofAddress (address port : BitVec 32) : IPv4Address where
  m_addr :=
    { sin_family := AF_INET
      sin_port := (byteswapOnLittleEndian 4 port).setWidth 16
      s_addr := byteswapOnLittleEndian 4 address }

/-- `inet_pton` gives its result and what it leaves in the address. -/
def Create (inet_pton : Bytes → BitVec 32 → Int × BitVec 32) (address : Bytes)
    (port : BitVec 32) : Option IPv4Address :=
  let rt := ofAddress 0 0
  let m_addr := { rt.m_addr with sin_port := (byteswapOnLittleEndian 4 port).setWidth 16 }
  let (res, s_addr) := inet_pton address m_addr.s_addr
  if res < 0 then none else some ⟨{ m_addr with s_addr }⟩

/-- The address as `insert` reads it. -/
def address (a : IPv4Address) : BitVec 32 := byteswapOnLittleEndian 4 a.m_addr.s_addr

def insert (a : IPv4Address) : Bytes :=
  let addr := a.address
  decimal ((addr >>> 24) &&& 0xff).toNat ++ ascii "." ++
    decimal ((addr >>> 16) &&& 0xff).toNat ++ ascii "." ++
    decimal ((addr >>> 8) &&& 0xff).toNat ++ ascii "." ++
    decimal (addr &&& 0xff).toNat ++
    ascii ":" ++ decimal (byteswapOnLittleEndian 2 a.m_addr.sin_port).toNat

def getPort (a : IPv4Address) : BitVec 32 := (byteswapOnLittleEndian 2 a.m_addr.sin_port).setWidth 32

def setPort (a : IPv4Address) (v : BitVec 16) : IPv4Address :=
  ⟨{ a.m_addr with sin_port := byteswapOnLittleEndian 2 v }⟩

end IPv4Address

/-! ## IPv6 -/

structure IPv6Address where
  m_addr : sockaddr_in6
  deriving DecidableEq, Repr

namespace IPv6Address

def new : IPv6Address where
  m_addr := { sin6_family := AF_INET6 }

/-- `IPv6Address(address, port)`, which sets the family of IPv4. -/
def ofAddress (address : Vector (BitVec 8) 16) (port : BitVec 16) : IPv6Address where
  m_addr :=
    { sin6_family := AF_INET
      sin6_port := byteswapOnLittleEndian 2 port
      s6_addr := address }

/-- `inet_pton` gives its result and what it leaves in the address. -/
def Create (inet_pton : Bytes → Vector (BitVec 8) 16 → Int × Vector (BitVec 8) 16)
    (address : Bytes) (port : BitVec 16) : Option IPv6Address :=
  let m_addr := { new.m_addr with sin6_port := byteswapOnLittleEndian 2 port }
  let (result, s6_addr) := inet_pton address m_addr.s6_addr
  if result ≤ 0 then none else some ⟨{ m_addr with s6_addr }⟩

/-- The byte of an address. -/
def byte (s6_addr : Vector (BitVec 8) 16) (i : Nat) : BitVec 8 := s6_addr[i]?.getD 0

theorem ext_byte {first second : Vector (BitVec 8) 16}
    (same : ∀ i < 16, byte first i = byte second i) : first = second := by
  apply Vector.ext
  intro i inside
  have here := same i inside
  rwa [byte, byte, Vector.getElem?_eq_getElem inside, Vector.getElem?_eq_getElem inside,
    Option.getD_some, Option.getD_some] at here

/-- The address as an array of `uint16_t`. -/
def addr (a : IPv6Address) (i : Nat) : BitVec 16 :=
  byte a.m_addr.s6_addr (2 * i + 1) ++ byte a.m_addr.s6_addr (2 * i)

/-- One round of the loop of `insert`, on what is printed and `used_zeros`. -/
def insertGroup (addr : Nat → BitVec 16) (printed : Bytes × Bool) (i : Nat) : Bytes × Bool :=
  let (os, used_zeros) := printed
  if addr i = 0 && !used_zeros then (os, used_zeros)
  else
    let (os, used_zeros) :=
      if i ≠ 0 && addr (i - 1) = 0 && !used_zeros then (os ++ ascii ":", true) else (os, used_zeros)
    let os := if i ≠ 0 then os ++ ascii ":" else os
    (os ++ hexadecimal (byteswapOnLittleEndian 2 (addr i)).toNat, used_zeros)

/-- What `insert` prints between the brackets. -/
def groupsText (a : IPv6Address) : Bytes :=
  let (os, used_zeros) := (List.range 8).foldl (insertGroup a.addr) ([], false)
  if !used_zeros && a.addr 7 = 0 then os ++ ascii "::" else os

def insert (a : IPv6Address) : Bytes :=
  ascii "[" ++ a.groupsText ++ ascii "]:" ++
    decimal (byteswapOnLittleEndian 2 a.m_addr.sin6_port).toNat

def getPort (a : IPv6Address) : BitVec 32 :=
  (byteswapOnLittleEndian 2 a.m_addr.sin6_port).setWidth 32

def setPort (a : IPv6Address) (v : BitVec 16) : IPv6Address :=
  ⟨{ a.m_addr with sin6_port := byteswapOnLittleEndian 2 v }⟩

end IPv6Address

/-! ## Both -/

inductive IPAddress where
  | ipv4 (a : IPv4Address)
  | ipv6 (a : IPv6Address)
  deriving DecidableEq, Repr

namespace IPAddress

def getPort : IPAddress → BitVec 32
  | .ipv4 a => a.getPort
  | .ipv6 a => a.getPort

def setPort : IPAddress → BitVec 16 → IPAddress
  | .ipv4 a, v => .ipv4 (a.setPort v)
  | .ipv6 a, v => .ipv6 (a.setPort v)

def toString : IPAddress → Bytes
  | .ipv4 a => a.insert
  | .ipv6 a => a.insert

end IPAddress

end Exhy.Address
