import Exhy.Address.Core

/-!
# Socket addresses in memory

`Address::Create` on the memory of an address object: what it makes of the family that it finds
there, and which objects it makes again.
-/

namespace Exhy.Address

open Library

/-! ## Structures in memory -/

/-- A field of a structure. -/
def fieldBytes (size : Nat) (value : BitVec (8 * size)) : List UInt8 :=
  ByteArray.memory .EXHY_LITTLE_ENDIAN size value

/-- The field at the front of the memory and what is behind it; none beyond the memory. -/
def readField (size : Nat) (bytes : List UInt8) : Option (BitVec (8 * size) × List UInt8) :=
  if size ≤ bytes.length then
    some (ByteArray.ofMemory .EXHY_LITTLE_ENDIAN size (bytes.take size), bytes.drop size)
  else none

def arrayBytes {size : Nat} (array : Vector (BitVec 8) size) : List UInt8 :=
  array.toList.map UInt8.ofBitVec

/-- The array of bytes at the front of the memory and what is behind it. -/
def readArray (size : Nat) (bytes : List UInt8) : Option (Vector (BitVec 8) size × List UInt8) :=
  if size ≤ bytes.length then
    some (.ofFn fun i => (bytes.getD i 0).toBitVec, bytes.drop size)
  else none

/-- A `sockaddr_in` with its last field. -/
structure Storage4 extends sockaddr_in where
  sin_zero : BitVec 64 := 0
  deriving DecidableEq, Repr

/-- A `sockaddr_in6` with its flow and its scope. -/
structure Storage6 extends sockaddr_in6 where
  sin6_flowinfo : BitVec 32 := 0
  sin6_scope_id : BitVec 32 := 0
  deriving DecidableEq, Repr

structure sockaddr where
  sa_family : BitVec 16
  sa_data : BitVec 112
  deriving DecidableEq, Repr

def Storage4.bytes (addr : Storage4) : List UInt8 :=
  fieldBytes 2 addr.sin_family ++ (fieldBytes 2 addr.sin_port ++
    (fieldBytes 4 addr.s_addr ++ fieldBytes 8 addr.sin_zero))

def Storage4.read (bytes : List UInt8) : Option Storage4 := do
  let (sin_family, bytes) ← readField 2 bytes
  let (sin_port, bytes) ← readField 2 bytes
  let (s_addr, bytes) ← readField 4 bytes
  let (sin_zero, _) ← readField 8 bytes
  return { sin_family, sin_port, s_addr, sin_zero }

def Storage6.bytes (addr : Storage6) : List UInt8 :=
  fieldBytes 2 addr.sin6_family ++ (fieldBytes 2 addr.sin6_port ++
    (fieldBytes 4 addr.sin6_flowinfo ++ (arrayBytes addr.s6_addr ++
      fieldBytes 4 addr.sin6_scope_id)))

def Storage6.read (bytes : List UInt8) : Option Storage6 := do
  let (sin6_family, bytes) ← readField 2 bytes
  let (sin6_port, bytes) ← readField 2 bytes
  let (sin6_flowinfo, bytes) ← readField 4 bytes
  let (s6_addr, bytes) ← readArray 16 bytes
  let (sin6_scope_id, _) ← readField 4 bytes
  return { sin6_family, sin6_port, sin6_flowinfo, s6_addr, sin6_scope_id }

def sockaddr.bytes (addr : sockaddr) : List UInt8 :=
  fieldBytes 2 addr.sa_family ++ fieldBytes 14 addr.sa_data

def sockaddr.read (bytes : List UInt8) : Option sockaddr := do
  let (sa_family, bytes) ← readField 2 bytes
  let (sa_data, _) ← readField 14 bytes
  return { sa_family, sa_data }

section Fields

variable {size : Nat} {rest : List UInt8}

theorem length_fieldBytes (value : BitVec (8 * size)) : (fieldBytes size value).length = size :=
  ByteArray.length_memory ..

/-- A field is read as it stands in memory. -/
theorem readField_append (size : Nat) (value : BitVec (8 * size)) (rest : List UInt8) :
    readField size (fieldBytes size value ++ rest) = some (value, rest) := by
  have length := length_fieldBytes value
  have inside : size ≤ (fieldBytes size value ++ rest).length := by
    rw [List.length_append, length]
    exact Nat.le_add_right ..
  rw [readField, if_pos inside, List.take_left' length, List.drop_left' length, fieldBytes,
    ByteArray.ofMemory_memory]

theorem length_arrayBytes (array : Vector (BitVec 8) size) : (arrayBytes array).length = size := by
  rw [arrayBytes, List.length_map, Vector.length_toList]

theorem readArray_append (array : Vector (BitVec 8) size) (rest : List UInt8) :
    readArray size (arrayBytes array ++ rest) = some (array, rest) := by
  have length := length_arrayBytes array
  have inside : size ≤ (arrayBytes array ++ rest).length := by
    rw [List.length_append, length]
    exact Nat.le_add_right ..
  have same : Vector.ofFn (fun i : Fin size => ((arrayBytes array ++ rest).getD i 0).toBitVec) =
      array := by
    apply Vector.ext
    intro i small
    rw [Vector.getElem_ofFn, List.getD_append _ _ _ _ (by rw [length]; exact small)]
    simp [arrayBytes, small]
  rw [readArray, if_pos inside, same, List.drop_left' length]

end Fields

theorem Storage4.read_bytes (addr : Storage4) : Storage4.read addr.bytes = some addr := by
  have last := readField_append 8 addr.sin_zero []
  rw [List.append_nil] at last
  simp only [read, bytes, readField_append 2 addr.sin_family, readField_append 2 addr.sin_port,
    readField_append 4 addr.s_addr, last, Option.bind_eq_bind, Option.bind_some]
  rfl

theorem Storage6.read_bytes (addr : Storage6) : Storage6.read addr.bytes = some addr := by
  have last := readField_append 4 addr.sin6_scope_id []
  rw [List.append_nil] at last
  simp only [read, bytes, readField_append 2 addr.sin6_family, readField_append 2 addr.sin6_port,
    readField_append 4 addr.sin6_flowinfo, readArray_append, last, Option.bind_eq_bind,
    Option.bind_some]
  rfl

/-! ## Objects -/

/-- An address of a class that `Create` makes. -/
inductive SocketAddress where
  | ipv4 (m_addr : Storage4)
  | ipv6 (m_addr : Storage6)
  | unknown (m_addr : sockaddr)
  deriving DecidableEq, Repr

namespace SocketAddress

/-- The memory at `getAddr()`. -/
def getAddr : SocketAddress → List UInt8
  | .ipv4 m_addr => m_addr.bytes
  | .ipv6 m_addr => m_addr.bytes
  | .unknown m_addr => m_addr.bytes

def getAddrLen : SocketAddress → Nat
  | .ipv4 _ => 16
  | .ipv6 _ => 28
  | .unknown _ => 16

/-- `a == rhs` -/
def equals (a rhs : SocketAddress) : Bool :=
  a.getAddrLen = rhs.getAddrLen &&
    a.getAddr.take a.getAddrLen = rhs.getAddr.take a.getAddrLen

def toString : SocketAddress → Bytes
  | .ipv4 m_addr => IPv4Address.insert ⟨m_addr.tosockaddr_in⟩
  | .ipv6 m_addr => IPv6Address.insert ⟨m_addr.tosockaddr_in6⟩
  | .unknown m_addr =>
      ascii "[UnknownAddress family=" ++ decimal m_addr.sa_family.toNat ++ ascii "]"

def SameClass : SocketAddress → SocketAddress → Prop
  | .ipv4 _, .ipv4 _ | .ipv6 _, .ipv6 _ | .unknown _, .unknown _ => True
  | _, _ => False

/-- `Create(addr, addrlen)` of memory that is not null; the length is not used.  None where more
is read than the memory has. -/
def Create (addr : List UInt8) : Option SocketAddress := do
  let (sa_family, _) ← readField 2 addr
  if sa_family = AF_INET then return .ipv4 (← Storage4.read addr)
  else if sa_family = AF_INET6 then return .ipv6 (← Storage6.read addr)
  else return .unknown (← sockaddr.read addr)

/-- `Create` makes the address again. -/
def RoundTrips (a : SocketAddress) : Prop :=
  ∃ again, Create a.getAddr = some again ∧ again.SameClass a ∧ again.equals a = true ∧
    again.toString = a.toString

theorem equals_self (a : SocketAddress) : a.equals a = true := by
  rw [equals, Bool.and_eq_true]
  exact ⟨decide_eq_true rfl, decide_eq_true rfl⟩

/-- The family in memory decides. -/
theorem create_eq {addr : List UInt8} {family : BitVec 16} {rest : List UInt8}
    (found : readField 2 addr = some (family, rest)) :
    Create addr =
      if family = AF_INET then (Storage4.read addr).map .ipv4
      else if family = AF_INET6 then (Storage6.read addr).map .ipv6
      else (sockaddr.read addr).map .unknown := by
  rw [Create, found]
  simp only [Option.bind_eq_bind, Option.bind_some]
  split
  · cases Storage4.read addr <;> rfl
  · split
    · cases Storage6.read addr <;> rfl
    · cases sockaddr.read addr <;> rfl

theorem create_ipv4 (m_addr : Storage4) :
    Create m_addr.bytes =
      if m_addr.sin_family = AF_INET then some (.ipv4 m_addr)
      else if m_addr.sin_family = AF_INET6 then (Storage6.read m_addr.bytes).map .ipv6
      else (sockaddr.read m_addr.bytes).map .unknown := by
  have found : readField 2 m_addr.bytes = some (m_addr.sin_family, _) := readField_append ..
  rw [create_eq found, Storage4.read_bytes]
  rfl

theorem create_ipv6 (m_addr : Storage6) :
    Create m_addr.bytes =
      if m_addr.sin6_family = AF_INET then (Storage4.read m_addr.bytes).map .ipv4
      else if m_addr.sin6_family = AF_INET6 then some (.ipv6 m_addr)
      else (sockaddr.read m_addr.bytes).map .unknown := by
  have found : readField 2 m_addr.bytes = some (m_addr.sin6_family, _) := readField_append ..
  rw [create_eq found, Storage6.read_bytes]
  rfl

theorem roundTrips_ipv4_iff (m_addr : Storage4) :
    (SocketAddress.ipv4 m_addr).RoundTrips ↔ m_addr.sin_family = AF_INET := by
  constructor
  · rintro ⟨again, made, same, -⟩
    by_contra other
    rw [getAddr, create_ipv4, if_neg other] at made
    split at made
    · obtain ⟨_, _, rfl⟩ := Option.map_eq_some_iff.mp made
      exact same
    · obtain ⟨_, _, rfl⟩ := Option.map_eq_some_iff.mp made
      exact same
  · intro family
    refine ⟨.ipv4 m_addr, ?_, trivial, equals_self _, rfl⟩
    rw [getAddr, create_ipv4, if_pos family]

theorem roundTrips_ipv6_iff (m_addr : Storage6) :
    (SocketAddress.ipv6 m_addr).RoundTrips ↔ m_addr.sin6_family = AF_INET6 := by
  constructor
  · rintro ⟨again, made, same, -⟩
    by_contra other
    rw [getAddr, create_ipv6, if_neg other] at made
    split at made
    · obtain ⟨_, _, rfl⟩ := Option.map_eq_some_iff.mp made
      exact same
    · obtain ⟨_, _, rfl⟩ := Option.map_eq_some_iff.mp made
      exact same
  · intro family
    have notIPv4 : m_addr.sin6_family ≠ AF_INET := by
      rw [family]
      decide
    refine ⟨.ipv6 m_addr, ?_, trivial, equals_self _, rfl⟩
    rw [getAddr, create_ipv6, if_neg notIPv4, if_pos family]

end SocketAddress

/-! ## Ways to make an object -/

/-- The constructors and the factories of both classes. -/
inductive Building where
  | constructor4 (address port : BitVec 32)
  | copy4 (address : Storage4)
  | create4 (address : Bytes) (port : BitVec 32)
  | default6
  | copy6 (address : Storage6)
  | constructor6 (address : Vector (BitVec 8) 16) (port : BitVec 16)
  | create6 (address : Bytes) (port : BitVec 16)

namespace Building

/-- The object that is made; none where a factory gives a null pointer. -/
def make (inet_pton4 : Bytes → BitVec 32 → Int × BitVec 32)
    (inet_pton6 : Bytes → Vector (BitVec 8) 16 → Int × Vector (BitVec 8) 16) :
    Building → Option SocketAddress
  | .constructor4 address port => some (.ipv4 { (IPv4Address.ofAddress address port).m_addr with })
  | .copy4 address => some (.ipv4 address)
  | .create4 address port =>
      (IPv4Address.Create inet_pton4 address port).map fun a => .ipv4 { a.m_addr with }
  | .default6 => some (.ipv6 { IPv6Address.new.m_addr with })
  | .copy6 address => some (.ipv6 address)
  | .constructor6 address port => some (.ipv6 { (IPv6Address.ofAddress address port).m_addr with })
  | .create6 address port =>
      (IPv6Address.Create inet_pton6 address port).map fun a => .ipv6 { a.m_addr with }

/-- The object has the family of its class: a structure that is copied has it, and it is not the
constructor of IPv6 from bytes. -/
def HasFamily : Building → Prop
  | .copy4 address => address.sin_family = AF_INET
  | .copy6 address => address.sin6_family = AF_INET6
  | .constructor6 _ _ => False
  | .constructor4 _ _ | .create4 _ _ | .default6 | .create6 _ _ => True

theorem family_of_create4 {inet_pton : Bytes → BitVec 32 → Int × BitVec 32} {address : Bytes}
    {port : BitVec 32} {a : IPv4Address} (made : IPv4Address.Create inet_pton address port = some a) :
    a.m_addr.sin_family = AF_INET := by
  rw [IPv4Address.Create] at made
  dsimp only at made
  split at made
  next => cases made
  next =>
    cases made
    rfl

theorem family_of_create6
    {inet_pton : Bytes → Vector (BitVec 8) 16 → Int × Vector (BitVec 8) 16} {address : Bytes}
    {port : BitVec 16} {a : IPv6Address} (made : IPv6Address.Create inet_pton address port = some a) :
    a.m_addr.sin6_family = AF_INET6 := by
  rw [IPv6Address.Create] at made
  dsimp only at made
  split at made
  next => cases made
  next =>
    cases made
    rfl

/-- An object is made again where it has the family of its class. -/
theorem roundTrips_iff {inet_pton4 : Bytes → BitVec 32 → Int × BitVec 32}
    {inet_pton6 : Bytes → Vector (BitVec 8) 16 → Int × Vector (BitVec 8) 16}
    {building : Building} {a : SocketAddress}
    (made : building.make inet_pton4 inet_pton6 = some a) :
    a.RoundTrips ↔ building.HasFamily := by
  cases building with
  | constructor4 address port =>
      cases made
      exact (SocketAddress.roundTrips_ipv4_iff _).trans (iff_of_true rfl trivial)
  | copy4 address =>
      cases made
      exact SocketAddress.roundTrips_ipv4_iff _
  | create4 address port =>
      obtain ⟨object, created, rfl⟩ := Option.map_eq_some_iff.mp made
      exact (SocketAddress.roundTrips_ipv4_iff _).trans
        (iff_of_true (family_of_create4 created) trivial)
  | default6 =>
      cases made
      exact (SocketAddress.roundTrips_ipv6_iff _).trans (iff_of_true rfl trivial)
  | copy6 address =>
      cases made
      exact SocketAddress.roundTrips_ipv6_iff _
  | constructor6 address port =>
      cases made
      have other : AF_INET ≠ AF_INET6 := by decide
      exact (SocketAddress.roundTrips_ipv6_iff _).trans (iff_of_false other not_false)
  | create6 address port =>
      obtain ⟨object, created, rfl⟩ := Option.map_eq_some_iff.mp made
      exact (SocketAddress.roundTrips_ipv6_iff _).trans
        (iff_of_true (family_of_create6 created) trivial)

/-- 10.0.0.1 with the port 8080. -/
theorem roundTrips_iff_constructor4 :
    (SocketAddress.ipv4 { (IPv4Address.ofAddress 0x0A000001 8080).m_addr with }).RoundTrips :=
  (@roundTrips_iff (fun _ s_addr => (0, s_addr)) (fun _ s6_addr => (0, s6_addr))
    (.constructor4 0x0A000001 8080) _ rfl).mpr trivial

/-- The address ::1 with the port 80 is made again as 0.0.0.0. -/
theorem roundTrips_not :
    SocketAddress.Create
        (SocketAddress.ipv6 { (IPv6Address.ofAddress
          (Vector.ofFn fun i => if i.val = 15 then 1 else 0) 80).m_addr with }).getAddr =
      some (.ipv4 { sin_family := AF_INET, sin_port := 0x5000 }) ∧
      ¬(SocketAddress.ipv6 { (IPv6Address.ofAddress
          (Vector.ofFn fun i => if i.val = 15 then 1 else 0) 80).m_addr with }).RoundTrips := by
  constructor
  · decide +kernel
  · rw [SocketAddress.roundTrips_ipv6_iff]
    decide

end Building

end Exhy.Address
