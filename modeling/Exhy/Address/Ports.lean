import Exhy.Address.Core

/-!
# Ports

What an address reports of a port after each way of setting it.  The constructor and the factory
of IPv4 swap a `uint32_t`, of which the field keeps the lower half.
-/

namespace Exhy.Address

open Library

/-- What stands behind the last colon of a text. -/
def afterLastColon (text : Bytes) : Bytes := (text.reverse.takeWhile (· ≠ 0x3A)).reverse

theorem afterLastColon_append (front : Bytes) {last : Bytes} (noColon : 0x3A ∉ last) :
    afterLastColon (front ++ 0x3A :: last) = last := by
  have all : ∀ byte ∈ last.reverse, decide (byte ≠ 0x3A) = true := by
    intro byte member
    apply decide_eq_true
    intro isColon
    exact noColon (isColon ▸ List.mem_reverse.mp member)
  have reversed : (front ++ 0x3A :: last).reverse = last.reverse ++ 0x3A :: front.reverse := by
    rw [List.reverse_append, List.reverse_cons, List.append_assoc, List.singleton_append]
  rw [afterLastColon, reversed, List.takeWhile_append_of_pos all,
    List.takeWhile_cons_of_neg (by decide), List.append_nil, List.reverse_reverse]

theorem colon_not_mem_decimal (number : Nat) : 0x3A ∉ decimal number :=
  fun member => absurd (decimal_digits member) (by decide)

namespace IPAddress

/-- The text of an address ends in a colon and the port that it reports. -/
theorem afterLastColon_toString (a : IPAddress) :
    afterLastColon a.toString = decimal a.getPort.toNat := by
  have same (port : BitVec 16) : (port.setWidth 32).toNat = port.toNat := by
    rw [BitVec.toNat_setWidth_of_le (by omega)]
  have cut (front last : Bytes) : front ++ ascii ":" ++ last = front ++ 0x3A :: last := by
    rw [List.append_assoc]
    rfl
  cases a with
  | ipv4 a =>
      rw [toString, IPv4Address.insert, getPort, IPv4Address.getPort, same, cut]
      exact afterLastColon_append _ (colon_not_mem_decimal _)
  | ipv6 a =>
      have brackets : ascii "]:" = ascii "]" ++ ascii ":" := by decide
      rw [toString, IPv6Address.insert, getPort, IPv6Address.getPort, same, brackets,
        ← List.append_assoc, cut]
      exact afterLastColon_append _ (colon_not_mem_decimal _)

/-- The address reports the port and prints it. -/
def Reports (a : IPAddress) (port : BitVec 16) : Prop :=
  a.getPort.toNat = port.toNat ∧ afterLastColon a.toString = decimal port.toNat

theorem reports_iff_getPort {a : IPAddress} {port : BitVec 16} :
    a.Reports port ↔ a.getPort.toNat = port.toNat := by
  constructor
  · exact fun reports => reports.1
  · intro same
    exact ⟨same, by rw [afterLastColon_toString, same]⟩

end IPAddress

/-! ## Ways to set a port -/

inductive Setting where
  | constructor4 (address : BitVec 32)
  | create4 (address : Bytes)
  | constructor6 (address : Vector (BitVec 8) 16)
  | create6 (address : Bytes)
  | setPort (a : IPAddress)

namespace Setting

section Made

variable (inet_pton4 : Bytes → BitVec 32 → Int × BitVec 32)
  (inet_pton6 : Bytes → Vector (BitVec 8) 16 → Int × Vector (BitVec 8) 16)

/-- The address that is made with the port; none where a factory gives a null pointer. -/
def make (port : BitVec 16) : Setting → Option IPAddress
  | .constructor4 address => some (.ipv4 (IPv4Address.ofAddress address (port.setWidth 32)))
  | .create4 address => (IPv4Address.Create inet_pton4 address (port.setWidth 32)).map .ipv4
  | .constructor6 address => some (.ipv6 (IPv6Address.ofAddress address port))
  | .create6 address => (IPv6Address.Create inet_pton6 address port).map .ipv6
  | .setPort a => some (a.setPort port)

/-- The port is handed over as a `uint32_t`. -/
def isWide : Setting → Bool
  | .constructor4 _ | .create4 _ => true
  | .constructor6 _ | .create6 _ | .setPort _ => false

end Made

/-- The upper half of the swapped word is what held the port. -/
theorem setWidth_byteswap (port : BitVec 16) :
    (byteswapOnLittleEndian 4 (port.setWidth 32)).setWidth 16 = 0 := by
  apply BitVec.eq_of_getLsbD_eq
  intro i small
  have far : ¬8 * (4 - 1 - i / 8) + i % 8 < 16 := by omega
  rw [BitVec.getLsbD_setWidth, getLsbD_byteswap 4 _ (by omega), BitVec.getLsbD_setWidth,
    BitVec.getLsbD_of_ge _ _ (Nat.not_lt.mp far), Bool.and_false, Bool.and_false,
    BitVec.ofNat_eq_ofNat, BitVec.getLsbD_zero]

section Reports

variable {inet_pton4 : Bytes → BitVec 32 → Int × BitVec 32}
  {inet_pton6 : Bytes → Vector (BitVec 8) 16 → Int × Vector (BitVec 8) 16}
  {setting : Setting} {port : BitVec 16} {a : IPAddress}

/-- A port that is swapped as a word leaves 0. -/
theorem getPort_of_isWide (wide : setting.isWide = true)
    (made : setting.make inet_pton4 inet_pton6 port = some a) : a.getPort = 0 := by
  have none : (byteswapOnLittleEndian 2 0 : BitVec (8 * 2)).setWidth 32 = (0 : BitVec 32) := by decide
  cases setting with
  | constructor4 address =>
      cases made
      rw [IPAddress.getPort, IPv4Address.getPort, IPv4Address.ofAddress, setWidth_byteswap]
      exact none
  | create4 address =>
      rw [make, IPv4Address.Create] at made
      dsimp only at made
      rw [setWidth_byteswap] at made
      split at made
      next => cases made
      next =>
        cases made
        exact none
  | constructor6 | create6 | setPort => cases wide

/-- A port that is swapped as a half word comes back. -/
theorem getPort_of_not_isWide (narrow : setting.isWide = false)
    (made : setting.make inet_pton4 inet_pton6 port = some a) : a.getPort = port.setWidth 32 := by
  have back : (byteswapOnLittleEndian 2 (byteswapOnLittleEndian 2 port) : BitVec 16) = port :=
    byteswap_byteswap 2 port
  cases setting with
  | constructor4 | create4 => cases narrow
  | constructor6 address =>
      cases made
      rw [IPAddress.getPort, IPv6Address.getPort, IPv6Address.ofAddress]
      exact congrArg (BitVec.setWidth 32) back
  | create6 address =>
      rw [make, IPv6Address.Create] at made
      dsimp only at made
      split at made
      next => cases made
      next =>
        cases made
        exact congrArg (BitVec.setWidth 32) back
  | setPort a =>
      cases made
      cases a <;> exact congrArg (BitVec.setWidth 32) back

/-- The constructor and the factory of IPv4 keep no port but 0. -/
theorem reports_iff (made : setting.make inet_pton4 inet_pton6 port = some a) :
    a.Reports port ↔ (setting.isWide = true → port = 0) := by
  rw [IPAddress.reports_iff_getPort]
  cases wide : setting.isWide with
  | true =>
      rw [getPort_of_isWide wide made]
      constructor
      · exact fun same _ => BitVec.eq_of_toNat_eq same.symm
      · intro zero
        rw [zero rfl]
        rfl
  | false =>
      rw [getPort_of_not_isWide wide made, BitVec.toNat_setWidth_of_le (by omega)]
      exact iff_of_true rfl fun isWide => absurd isWide Bool.false_ne_true

end Reports

theorem reports_iff_setPort :
    (IPAddress.setPort (.ipv4 (IPv4Address.ofAddress 0x7F000001 0)) 8080).Reports 8080 :=
  (@reports_iff (fun _ s_addr => (0, s_addr)) (fun _ s6_addr => (0, s6_addr))
    (.setPort (.ipv4 (IPv4Address.ofAddress 0x7F000001 0))) 8080 _ rfl).mpr
    fun isWide => absurd isWide Bool.false_ne_true

/-- 127.0.0.1 with the port 8080. -/
theorem reports_not :
    (IPAddress.ipv4 (IPv4Address.ofAddress 0x7F000001 8080)).toString = ascii "127.0.0.1:0" ∧
      ¬(IPAddress.ipv4 (IPv4Address.ofAddress 0x7F000001 8080)).Reports 8080 := by
  constructor
  · decide +kernel
  · intro reports
    exact absurd reports.1 (by decide)

end Setting

end Exhy.Address
