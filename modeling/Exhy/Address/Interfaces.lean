import Exhy.Address.Subnet
import Exhy.Address.Storage
import Exhy.Library.Lexicographic
import Exhy.Library.Multimap

/-!
# Network interfaces

Both functions `Address::GetInterfaceAddresses` on what `getifaddrs` gives.  A null pointer is none,
and so is what a function gives that reads one.  The structures in memory are read whole.
-/

namespace Exhy.Address

open Library

def AF_UNSPEC : Int := 0

/-! ## The functions -/

/-- The loop of `CountBytes`. -/
def CountBytes.loop {w : Nat} (value : BitVec w) (result : BitVec 32) : BitVec 32 :=
  if value.toNat = 0 then result else loop (value &&& (value - 1#w)) (result + 1)
termination_by value.toNat
decreasing_by
  have below : (value &&& (value - 1#w)).toNat ≤ (value - 1#w).toNat := by
    rw [BitVec.toNat_and]
    exact Nat.and_le_right
  have pred := @toNat_sub_one w value (by omega)
  omega

/-- `CountBytes(value)`, which counts bits. -/
def CountBytes {w : Nat} (value : BitVec w) : BitVec 32 := CountBytes.loop value 0

/-- An element of the list of `getifaddrs`. -/
structure ifaddrs where
  ifa_name : Bytes
  ifa_addr : Option (List UInt8)
  ifa_netmask : Option (List UInt8)

/-- An element of the multimap. -/
structure Interface where
  ifa_name : Bytes
  addr : SocketAddress
  prefix_len : BitVec 32
  deriving DecidableEq

namespace Interface

/-- Names are compared byte by byte. -/
def key (interface : Interface) : List Nat := numbers interface.ifa_name

def entry (interface : Interface) : SocketAddress × BitVec 32 :=
  (interface.addr, interface.prefix_len)

end Interface

def prefixLen4 (ifa_netmask : List UInt8) : Option (BitVec 32) := do
  let netmask ← Storage4.read ifa_netmask
  return CountBytes netmask.s_addr

def prefixLen6 (ifa_netmask : List UInt8) : Option (BitVec 32) := do
  let netmask ← Storage6.read ifa_netmask
  return (List.range 16).foldl
    (fun prefix_len i => prefix_len + CountBytes (IPv6Address.byte netmask.s6_addr i)) 0

/-- One round of the loop: what is inserted, if anything. -/
def ifaddrs.read (family : Int) (next : ifaddrs) : Option (Option Interface) := do
  let ifa_addr ← next.ifa_addr
  let (sa_family, _) ← readField 2 ifa_addr
  if family ≠ AF_UNSPEC ∧ family ≠ sa_family.toNat then return none
  else if sa_family = AF_INET then
    let addr ← SocketAddress.Create ifa_addr
    let prefix_len ← prefixLen4 (← next.ifa_netmask)
    return some ⟨next.ifa_name, addr, prefix_len⟩
  else if sa_family = AF_INET6 then
    let addr ← SocketAddress.Create ifa_addr
    let prefix_len ← prefixLen6 (← next.ifa_netmask)
    return some ⟨next.ifa_name, addr, prefix_len⟩
  else return none

namespace GetInterfaceAddresses

/-- `GetInterfaceAddresses(result, family)`.  `getifaddrs` gives none where it fails. -/
def all (getifaddrs : Option (List ifaddrs)) (result : Multimap Interface.key) (family : Int) :
    Option (Multimap Interface.key × Bool) :=
  match getifaddrs with
  | none => some (result, false)
  | some results => do
      let result ← results.foldlM (fun result next => do
        return ((← next.read family).map result.insert).getD result) result
      return (result, !result.items.isEmpty)

/-- What is given for no interface in particular. -/
def wildcards (family : Int) : List (SocketAddress × BitVec 32) :=
  (if family = AF_INET.toNat ∨ family = AF_UNSPEC then
    [(.ipv4 { (IPv4Address.ofAddress 0 0).m_addr with }, 0)] else []) ++
  (if family = AF_INET6.toNat ∨ family = AF_UNSPEC then
    [(.ipv6 { IPv6Address.new.m_addr with }, 0)] else [])

end GetInterfaceAddresses

open GetInterfaceAddresses in
/-- `GetInterfaceAddresses(result, iface, family)` -/
def GetInterfaceAddresses (getifaddrs : Option (List ifaddrs))
    (result : List (SocketAddress × BitVec 32)) (iface : Bytes) (family : Int) :
    Option (List (SocketAddress × BitVec 32) × Bool) :=
  if iface = [] ∨ iface = ascii "*" then some (result ++ wildcards family, true)
  else do
    let (results, found) ← all getifaddrs .empty family
    if !found then return (result, false)
    else
      let its := results.equalRange (numbers iface)
      let result := result ++ its.map Interface.entry
      return (result, !result.isEmpty)

/-! ## Prefix lengths -/

theorem countBytes_loop {w : Nat} (value : BitVec w) (result : BitVec 32) :
    CountBytes.loop value result = result + BitVec.ofNat 32 (bitCount value.toNat) := by
  induction value, result using CountBytes.loop.induct with
  | case1 value result zero =>
      rw [CountBytes.loop, if_pos zero, zero, bitCount_zero]
      simp
  | case2 value result positive ih =>
      have counted := bitCount_and_pred (Nat.pos_of_ne_zero positive)
      rw [CountBytes.loop, if_neg positive, ih, BitVec.toNat_and,
        toNat_sub_one (Nat.pos_of_ne_zero positive), ← counted, BitVec.ofNat_add, BitVec.add_assoc]
      congr 1
      exact BitVec.add_comm ..

theorem countBytes_eq {w : Nat} (value : BitVec w) :
    CountBytes value = BitVec.ofNat 32 (bitCount value.toNat) := by
  rw [CountBytes, countBytes_loop]
  simp

/-- The netmask of IPv4 whose first bits alone are set. -/
def HasPrefix4 (s_addr : BitVec 32) (length : Nat) : Prop :=
  length ≤ 32 ∧ ∀ i < 32, (byteswapOnLittleEndian 4 s_addr).getMsbD i = decide (i < length)

def HasPrefix6 (s6_addr : Vector (BitVec 8) 16) (length : Nat) : Prop :=
  length ≤ 128 ∧
    ∀ j < 16, ∀ i < 8, (IPv6Address.byte s6_addr j).getMsbD i = decide (8 * j + i < length)

/-- The bits of a word are counted in any order of its bytes. -/
theorem bitCount_byteswap (t : BitVec (8 * 4)) :
    bitCount (byteswapOnLittleEndian 4 t).toNat = bitCount t.toNat := by
  have numbers (value : BitVec (8 * 4)) :
      ofLittleEndian (littleEndian 4 value.toNat) = value.toNat :=
    ofLittleEndian_littleEndian (ByteArray.toNat_lt_pow value)
  rw [← numbers, ← numbers t, byteswapOnLittleEndian, ByteArray.littleEndian_byteswap,
    bitCount_ofLittleEndian, bitCount_ofLittleEndian, List.map_reverse, List.sum_reverse]

theorem countBytes_of_hasPrefix4 {s_addr : BitVec 32} {length : Nat}
    (netmask : HasPrefix4 s_addr length) : CountBytes s_addr = BitVec.ofNat 32 length := by
  rw [countBytes_eq, ← bitCount_byteswap, bitCount_of_getMsbD netmask.1 netmask.2]

/-- The bytes in front of the prefix's end are full, and the others are empty. -/
theorem countBytes_of_hasPrefix6 {s6_addr : Vector (BitVec 8) 16} {length : Nat}
    (netmask : HasPrefix6 s6_addr length) {count : Nat} (short : count ≤ 16) :
    (List.range count).foldl
      (fun prefix_len i => prefix_len + CountBytes (IPv6Address.byte s6_addr i)) 0 =
        BitVec.ofNat 32 (min (8 * count) length) := by
  induction count with
  | zero => simp
  | succ count ih =>
      have byte : bitCount (IPv6Address.byte s6_addr count).toNat = min 8 (length - 8 * count) := by
        apply bitCount_of_getMsbD (Nat.min_le_left ..)
        intro i small
        rw [netmask.2 count short i small]
        apply decide_eq_decide.mpr
        omega
      have sum : min (8 * (count + 1)) length =
          min (8 * count) length + min 8 (length - 8 * count) := by omega
      rw [List.range_succ, List.foldl_append, ih (Nat.le_of_succ_le short), List.foldl_cons,
        List.foldl_nil, countBytes_eq, byte, sum, BitVec.ofNat_add]

/-- The masks of `subnetMask` are such netmasks. -/
theorem hasPrefix4_subnetMask {prefix_len : BitVec 32} {mask : IPv4Address}
    (given : IPv4Address.subnetMask prefix_len = .ok (some mask)) :
    HasPrefix4 mask.m_addr.s_addr prefix_len.toNat := by
  by_cases inside : 0 < prefix_len.toNat ∧ prefix_len.toNat ≤ 32
  · rw [IPv4Address.subnetMask_of_le inside.1 inside.2] at given
    cases given
    refine ⟨inside.2, ?_⟩
    intro i small
    have host := @getMsbD_hostBits 4 prefix_len.toNat i (by omega) small
    rw [byteswap_not, byteswap_byteswap, BitVec.getMsbD_not, host, decide_eq_true small,
      Bool.true_and, ← decide_not]
    apply decide_eq_decide.mpr
    exact Nat.not_le
  · obtain ⟨amount, failed⟩ := createMask_word_error prefix_len (by omega)
    rw [IPv4Address.subnetMask, failed] at given
    cases given

theorem hasPrefix6_subnetMask {prefix_len : BitVec 32} {mask : IPv6Address}
    (given : IPv6Address.subnetMask prefix_len = .ok (some mask)) :
    HasPrefix6 mask.m_addr.s6_addr prefix_len.toNat := by
  by_cases inside : prefix_len.toNat < 128
  · obtain ⟨result, made, bytes⟩ := IPv6Address.subnetMask_of_lt inside
    rw [made] at given
    cases given
    refine ⟨Nat.le_of_lt inside, ?_⟩
    intro j inArray i small
    rw [bytes j inArray]
    split
    next front =>
      have bit : (0xff : BitVec 8).getMsbD i = true := by
        rw [BitVec.getMsbD]
        revert i
        decide
      rw [bit]
      symm
      apply decide_eq_true
      omega
    next =>
      split
      next here =>
        have host := @getMsbD_hostBits 1 (prefix_len.toNat % 8) i (by omega) small
        rw [BitVec.getMsbD_not, host, decide_eq_true small, Bool.true_and, ← decide_not]
        apply decide_eq_decide.mpr
        omega
      next =>
        rw [BitVec.ofNat_eq_ofNat, BitVec.getMsbD_zero]
        symm
        apply decide_eq_false
        omega
  · rw [IPv6Address.subnetMask, IPv6Address.createMask_byte, IPv6Address.byte_of_prefix] at given
    simp only [bind, Except.bind, IPv6Address.update_of_not_lt
      (show 16 ≤ prefix_len.toNat / 8 by omega)] at given
    cases given

/-! ## What the system has -/

/-- An interface of the system, with the address and the prefix length that it may have. -/
structure Configured where
  name : Bytes
  addr : Option SocketAddress
  prefix_len : Option Nat
  deriving DecidableEq

namespace Configured

def family : SocketAddress → Int
  | .ipv4 m_addr => m_addr.sin_family.toNat
  | .ipv6 m_addr => m_addr.sin6_family.toNat
  | .unknown m_addr => m_addr.sa_family.toNat

def IsIP : SocketAddress → Bool
  | .ipv4 _ | .ipv6 _ => true
  | .unknown _ => false

/-- An IP address of the family that is asked for. -/
def asked (asking : Int) (addr : SocketAddress) : Bool :=
  IsIP addr && (asking = AF_UNSPEC || asking = family addr)

/-- A null pointer is read for the interface: it has no address, or no netmask and an address that is
asked for. -/
def stops (asking : Int) (interface : Configured) : Bool :=
  match interface.addr with
  | none => true
  | some addr => asked asking addr && interface.prefix_len.isNone

/-- What is reported of the interface. -/
def report (asking : Int) (interface : Configured) : Option Interface :=
  interface.addr.bind fun addr =>
    if asked asking addr then
      interface.prefix_len.map fun length => ⟨interface.name, addr, BitVec.ofNat 32 length⟩
    else none

end Configured

/-- The netmask of an IPv4 address, which may be missing. -/
inductive Netmask4 : Option (List UInt8) → Option Nat → Prop where
  | missing : Netmask4 none none
  | given (netmask : Storage4) {length : Nat} (bits : HasPrefix4 netmask.s_addr length) :
      Netmask4 (some netmask.bytes) (some length)

inductive Netmask6 : Option (List UInt8) → Option Nat → Prop where
  | missing : Netmask6 none none
  | given (netmask : Storage6) {length : Nat} (bits : HasPrefix6 netmask.s6_addr length) :
      Netmask6 (some netmask.bytes) (some length)

/-- How the system tells of an interface. -/
inductive Describes : ifaddrs → Configured → Prop where
  | null (name : Bytes) (ifa_netmask : Option (List UInt8)) :
      Describes ⟨name, none, ifa_netmask⟩ ⟨name, none, none⟩
  | ipv4 (name : Bytes) (addr : Storage4) (family : addr.sin_family = AF_INET)
      {ifa_netmask : Option (List UInt8)} {length : Option Nat}
      (netmask : Netmask4 ifa_netmask length) :
      Describes ⟨name, some addr.bytes, ifa_netmask⟩ ⟨name, some (.ipv4 addr), length⟩
  | ipv6 (name : Bytes) (addr : Storage6) (family : addr.sin6_family = AF_INET6)
      {ifa_netmask : Option (List UInt8)} {length : Option Nat}
      (netmask : Netmask6 ifa_netmask length) :
      Describes ⟨name, some addr.bytes, ifa_netmask⟩ ⟨name, some (.ipv6 addr), length⟩
  | other (name : Bytes) (addr : sockaddr) (notIPv4 : addr.sa_family ≠ AF_INET)
      (notIPv6 : addr.sa_family ≠ AF_INET6) (ifa_netmask : Option (List UInt8)) :
      Describes ⟨name, some addr.bytes, ifa_netmask⟩ ⟨name, some (.unknown addr), none⟩

/-! ## The loop -/

section Loop

variable {next : ifaddrs} {interface : Configured}

theorem prefixLen4_of_hasPrefix {netmask : Storage4} {length : Nat}
    (bits : HasPrefix4 netmask.s_addr length) :
    prefixLen4 netmask.bytes = some (BitVec.ofNat 32 length) := by
  rw [prefixLen4, Storage4.read_bytes]
  exact congrArg some (countBytes_of_hasPrefix4 bits)

theorem prefixLen6_of_hasPrefix {netmask : Storage6} {length : Nat}
    (bits : HasPrefix6 netmask.s6_addr length) :
    prefixLen6 netmask.bytes = some (BitVec.ofNat 32 length) := by
  have counted := countBytes_of_hasPrefix6 bits (Nat.le_refl 16)
  rw [Nat.min_eq_right bits.1] at counted
  rw [prefixLen6, Storage6.read_bytes]
  exact congrArg some counted

/-- An IP address is reported with the length of its netmask. -/
theorem read_of_ip {name : Bytes} {memory : List UInt8} {ifa_netmask : Option (List UInt8)}
    {sa_family : BitVec 16} {rest : List UInt8} {addr : SocketAddress} {length : Option Nat}
    (found : readField 2 memory = some (sa_family, rest))
    (made : SocketAddress.Create memory = some addr) (asking : Int)
    (asked : Configured.asked asking addr = (asking = AF_UNSPEC || asking = sa_family.toNat))
    (counted : (sa_family = AF_INET ∧ ifa_netmask.bind prefixLen4 = length.map (BitVec.ofNat 32)) ∨
      (sa_family = AF_INET6 ∧ ifa_netmask.bind prefixLen6 = length.map (BitVec.ofNat 32))) :
    ifaddrs.read asking ⟨name, some memory, ifa_netmask⟩ =
      if Configured.stops asking ⟨name, some addr, length⟩ then none
      else some (Configured.report asking ⟨name, some addr, length⟩) := by
  rw [ifaddrs.read, Configured.stops, Configured.report]
  simp only [Option.bind_eq_bind, Option.bind_some, found, made]
  cases wanted : Configured.asked asking addr with
  | false =>
      have skip : asking ≠ AF_UNSPEC ∧ asking ≠ sa_family.toNat := by
        rw [asked] at wanted
        simpa using wanted
      rw [if_pos skip]
      rfl
  | true =>
      have keep : ¬(asking ≠ AF_UNSPEC ∧ asking ≠ sa_family.toNat) := by
        rw [asked] at wanted
        simp only [Bool.or_eq_true, decide_eq_true_eq] at wanted
        tauto
      rw [if_neg keep]
      rcases counted with ⟨rfl, bits⟩ | ⟨rfl, bits⟩
      · rw [if_pos rfl, ← Option.bind_assoc, bits]
        cases length <;> rfl
      · have other : AF_INET6 ≠ AF_INET := by decide
        rw [if_neg other, if_pos rfl, ← Option.bind_assoc, bits]
        cases length <;> rfl

/-- One round on an interface of the system. -/
theorem read_of_describes (described : Describes next interface) (asking : Int) :
    next.read asking =
      if interface.stops asking then none else some (interface.report asking) := by
  cases described with
  | null name ifa_netmask => rfl
  | ipv4 name addr family netmask =>
      have made : SocketAddress.Create addr.bytes = some (.ipv4 addr) := by
        rw [SocketAddress.create_ipv4, if_pos family]
      apply read_of_ip (readField_append ..) made asking (Bool.true_and _)
      left
      refine ⟨family, ?_⟩
      cases netmask with
      | missing => rfl
      | given netmask bits => exact prefixLen4_of_hasPrefix bits
  | ipv6 name addr family netmask =>
      have notIPv4 : addr.sin6_family ≠ AF_INET := by
        rw [family]
        decide
      have made : SocketAddress.Create addr.bytes = some (.ipv6 addr) := by
        rw [SocketAddress.create_ipv6, if_neg notIPv4, if_pos family]
      apply read_of_ip (readField_append ..) made asking (Bool.true_and _)
      right
      refine ⟨family, ?_⟩
      cases netmask with
      | missing => rfl
      | given netmask bits => exact prefixLen6_of_hasPrefix bits
  | other name addr notIPv4 notIPv6 ifa_netmask =>
      have found : readField 2 addr.bytes = some (addr.sa_family, _) := readField_append ..
      rw [ifaddrs.read]
      simp only [Option.bind_eq_bind, Option.bind_some, found]
      rw [if_neg notIPv4, if_neg notIPv6]
      split <;> rfl

/-- The loop stops at the first interface that it cannot read, and else inserts what is reported. -/
theorem foldlM_of_describes {results : List ifaddrs} {interfaces : List Configured}
    (described : List.Forall₂ Describes results interfaces) (asking : Int)
    (result : Multimap Interface.key) :
    (results.foldlM (fun result next => do
      return ((← next.read asking).map result.insert).getD result) result) =
      if interfaces.any (·.stops asking) then none
      else some ((interfaces.filterMap (·.report asking)).foldl Multimap.insert result) := by
  induction described generalizing result with
  | nil => rfl
  | @cons next interface results interfaces first _ ih =>
      rw [List.foldlM_cons, read_of_describes first, List.any_cons, List.filterMap_cons]
      cases stopped : interface.stops asking with
      | true => rfl
      | false =>
          rw [Bool.false_or]
          cases interface.report asking with
          | none => exact ih result
          | some reported => exact ih (result.insert reported)

end Loop

/-! ## What is reported -/

/-- The interfaces of the family with a name are reported in the system's order, each with the length
of its prefix.  The program stops at one without an address, and at one of the family without a
netmask. -/
theorem interfaces_reported {results : List ifaddrs} {interfaces : List Configured}
    (described : List.Forall₂ Describes results interfaces)
    (result : List (SocketAddress × BitVec 32)) {iface : Bytes} (family : Int)
    (named : iface ≠ [] ∧ iface ≠ ascii "*") :
    GetInterfaceAddresses (some results) result iface family =
      if interfaces.any (·.stops family) then none
      else
        let reported := interfaces.filterMap (·.report family)
        let found := (reported.filter (·.ifa_name = iface)).map Interface.entry
        some (result ++ found, !reported.isEmpty && !(result ++ found).isEmpty) := by
  have notAll : ¬(iface = [] ∨ iface = ascii "*") := by tauto
  rw [GetInterfaceAddresses, if_neg notAll, GetInterfaceAddresses.all]
  dsimp only
  rw [foldlM_of_describes described]
  cases interfaces.any (·.stops family) with
  | true => rfl
  | false =>
      have range (reported : List Interface) :
          (reported.foldl Multimap.insert (Multimap.empty : Multimap Interface.key)).equalRange
            (numbers iface) = reported.filter (·.ifa_name = iface) := by
        rw [Multimap.equalRange_foldl]
        apply List.filter_congr
        intro interface _
        exact decide_eq_decide.mpr numbers_inj
      have empty (reported : List Interface) :
          (reported.foldl Multimap.insert (Multimap.empty : Multimap Interface.key)).items.isEmpty =
            reported.isEmpty := Multimap.isEmpty_foldl ..
      simp only [Bool.false_eq_true, if_false, Option.bind_eq_bind, Option.bind_some, range, empty,
        Option.pure_def]
      cases reported : interfaces.filterMap (·.report family) with
      | nil => simp
      | cons first rest => rfl

/-- 192.168.1.2 -/
def host : Storage4 := { sin_family := AF_INET, s_addr := 0x0201a8c0 }

/-- fe80::1 -/
def link : Storage6 :=
  { sin6_family := AF_INET6
    s6_addr := #v[0xfe, 0x80, 0, 0, 0, 0, 0, 0, 0, 0, 0, 0, 0, 0, 0, 1] }

/-- The masks of the lengths 24 and 64 give the lengths again. -/
theorem interfaces_reported_host :
    ∃ mask4 : IPv4Address, IPv4Address.subnetMask 24 = .ok (some mask4) ∧
      ∃ mask6 : IPv6Address, IPv6Address.subnetMask 64 = .ok (some mask6) ∧
        GetInterfaceAddresses (some
            [⟨ascii "eth0", some host.bytes, some (Storage4.bytes { mask4.m_addr with })⟩,
              ⟨ascii "eth0", some link.bytes, some (Storage6.bytes { mask6.m_addr with })⟩])
            [] (ascii "eth0") AF_UNSPEC =
          some ([(.ipv4 host, 24), (.ipv6 link, 64)], true) := by
  have made4 := @IPv4Address.subnetMask_of_le 24 (by decide) (by decide)
  obtain ⟨array, made6, -⟩ := @IPv6Address.subnetMask_of_lt 64 (by decide)
  refine ⟨_, made4, _, made6, ?_⟩
  have first := Describes.ipv4 (ascii "eth0") host rfl
    (.given { sin_family := AF_INET, s_addr := _ } (hasPrefix4_subnetMask made4))
  have second := Describes.ipv6 (ascii "eth0") link rfl
    (.given { sin6_family := AF_INET6, s6_addr := _ } (hasPrefix6_subnetMask made6))
  exact (interfaces_reported (.cons first (.cons second .nil)) [] AF_UNSPEC (by decide)).trans
    (by rfl)

end Exhy.Address
