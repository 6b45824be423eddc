import Exhy.Address.Subnet

/-!
# The algebra of subnets

A prefix splits an address into the bits of the network and those of the host.  The functions
for the mask and the broadcast address respect the split; the one for the network keeps the
host and clears the network.
-/

namespace Exhy.Address

open Library

/-- A word has no bit behind the prefix. -/
theorem and_hostBits_eq_zero_iff (size : Nat) {length : Nat} (shorter : 8 * size - length < 32)
    (word : BitVec (8 * size)) :
    word &&& hostBits size length = 0 ↔
      ∀ i < 8 * size, length ≤ i → word.getMsbD i = false := by
  constructor
  · intro zero i inside behind
    have bit := congrArg (fun word => word.getMsbD i) zero
    simp only [BitVec.getMsbD_and, getMsbD_hostBits size shorter inside, decide_eq_true behind,
      Bool.and_true, BitVec.ofNat_eq_ofNat, BitVec.getMsbD_zero] at bit
    exact bit
  · intro clear
    apply BitVec.eq_of_getMsbD_eq
    intro i inside
    rw [BitVec.getMsbD_and, getMsbD_hostBits size shorter inside, BitVec.ofNat_eq_ofNat,
      BitVec.getMsbD_zero]
    by_cases behind : length ≤ i
    · rw [clear i inside behind, Bool.false_and]
    · rw [decide_eq_false behind, Bool.and_false]

/-! ## IPv4 -/

namespace IPv4Address

/-- What the addresses of a subnet have to do with an address `a`, and with another one `b`. -/
structure SubnetLaws (length : Nat) (a b subnet network other broadcast : IPv4Address) : Prop where
  isMask : ∀ i < 32, subnet.address.getMsbD i = decide (i < length)
  isNetwork : network.address = a.address &&& subnet.address
  isBroadcast : broadcast.address = a.address ||| ~~~subnet.address
  separates : network.address = other.address ↔
    ∀ i < length, a.address.getMsbD i = b.address.getMsbD i
  family : network.m_addr.sin_family = a.m_addr.sin_family ∧
    broadcast.m_addr.sin_family = a.m_addr.sin_family
  port : network.m_addr.sin_port = a.m_addr.sin_port ∧
    broadcast.m_addr.sin_port = a.m_addr.sin_port

/-- The three functions give addresses under the laws, and the network of a network is itself. -/
def Lawful (prefix_len : BitVec 32) (a b : IPv4Address) : Prop :=
  ∃ subnet network other broadcast,
    subnetMask prefix_len = .ok (some subnet) ∧ a.networkAddress prefix_len = .ok (some network) ∧
      b.networkAddress prefix_len = .ok (some other) ∧
      a.broadcastAddress prefix_len = .ok (some broadcast) ∧
      network.networkAddress prefix_len = .ok (some network) ∧
      SubnetLaws prefix_len.toNat a b subnet network other broadcast

section Lawful

variable {prefix_len : BitVec 32} {a b : IPv4Address}

theorem address_mask (mask : BitVec (8 * 4)) (family port : BitVec 16) :
    (IPv4Address.mk ⟨family, port, ~~~byteswapOnLittleEndian 4 mask⟩).address = ~~~mask :=
  (byteswap_not 4 _).trans (congrArg _ (byteswap_byteswap 4 mask))

theorem address_and (s_addr : BitVec 32) (mask : BitVec (8 * 4)) (family port : BitVec 16) :
    (IPv4Address.mk ⟨family, port, s_addr &&& byteswapOnLittleEndian 4 mask⟩).address =
      byteswapOnLittleEndian 4 s_addr &&& mask :=
  (byteswap_and 4 s_addr _).trans (congrArg _ (byteswap_byteswap 4 mask))

theorem address_or (s_addr : BitVec 32) (mask : BitVec (8 * 4)) (family port : BitVec 16) :
    (IPv4Address.mk ⟨family, port, s_addr ||| byteswapOnLittleEndian 4 mask⟩).address =
      byteswapOnLittleEndian 4 s_addr ||| mask :=
  (byteswap_or 4 s_addr _).trans (congrArg _ (byteswap_byteswap 4 mask))

theorem positive_of_lawful (lawful : Lawful prefix_len a b) : 0 < prefix_len.toNat := by
  by_contra zero
  obtain ⟨subnet, network, other, broadcast, masked, -⟩ := lawful
  obtain ⟨amount, failed⟩ := createMask_word_error prefix_len (.inl (by omega))
  rw [subnetMask, failed] at masked
  cases masked

/-- What the functions give is put in terms of the bits of the host. -/
theorem lawful_iff_of_positive (positive : 0 < prefix_len.toNat) (small : prefix_len.toNat ≤ 32) :
    Lawful prefix_len a b ↔
      a.address &&& hostBits 4 prefix_len.toNat = a.address &&& ~~~hostBits 4 prefix_len.toNat ∧
        (a.address &&& hostBits 4 prefix_len.toNat = b.address &&& hostBits 4 prefix_len.toNat ↔
          ∀ i < prefix_len.toNat, a.address.getMsbD i = b.address.getMsbD i) := by
  have masked := subnetMask_of_le positive small
  have networkA := a.networkAddress_of_le positive small
  have networkB := b.networkAddress_of_le positive small
  have broadcasted := a.broadcastAddress_of_le positive small
  constructor
  · rintro ⟨subnet, network, other, broadcast, isSubnet, isNetwork, isOther, -, -, laws⟩
    cases masked.symm.trans isSubnet
    cases networkA.symm.trans isNetwork
    cases networkB.symm.trans isOther
    have networks := laws.isNetwork
    have separates := laws.separates
    rw [address_and, address_mask] at networks
    rw [address_and, address_and] at separates
    exact ⟨networks, separates⟩
  · rintro ⟨zero, separates⟩
    refine ⟨_, _, _, _, masked, networkA, networkB, broadcasted, ?_, ?_⟩
    · rw [networkAddress_of_le _ positive small]
      simp only [BitVec.and_assoc, BitVec.and_self]
    · constructor
      · intro i inside
        rw [address_mask, BitVec.getMsbD_not, getMsbD_hostBits _ (by omega) inside,
          decide_eq_true inside, Bool.true_and, ← decide_not]
        exact decide_eq_decide.mpr Nat.not_le
      · rw [address_and, address_mask]
        exact zero
      · rw [address_or, address_mask, BitVec.not_not]
        rfl
      · rw [address_and, address_and]
        exact separates
      · exact ⟨rfl, rfl⟩
      · exact ⟨rfl, rfl⟩

/-- The network of an address is the one that its mask gives for 0.0.0.0 alone. -/
theorem lawful_iff (small : prefix_len.toNat ≤ 32) :
    Lawful prefix_len a b ↔
      0 < prefix_len.toNat ∧ a.address = 0 ∧
        ((∀ i < prefix_len.toNat, b.address.getMsbD i = false) ↔
          ∀ i < 32, prefix_len.toNat ≤ i → b.address.getMsbD i = false) := by
  by_cases positive : 0 < prefix_len.toNat
  · have host : b.address &&& hostBits 4 prefix_len.toNat = 0 ↔
        ∀ i < 32, prefix_len.toNat ≤ i → b.address.getMsbD i = false :=
      and_hostBits_eq_zero_iff 4 (by omega) b.address
    have network : (∀ i < prefix_len.toNat, (0 : BitVec 32).getMsbD i = b.address.getMsbD i) ↔
        ∀ i < prefix_len.toNat, b.address.getMsbD i = false := by
      apply forall₂_congr
      intro i _
      rw [BitVec.ofNat_eq_ofNat, BitVec.getMsbD_zero]
      exact eq_comm
    rw [lawful_iff_of_positive positive small, and_eq_and_not_iff]
    constructor
    · rintro ⟨zero, separates⟩
      rw [zero, network, BitVec.ofNat_eq_ofNat, BitVec.zero_and, eq_comm] at separates
      exact ⟨positive, zero, separates.symm.trans host⟩
    · rintro ⟨-, zero, splits⟩
      rw [zero, network, BitVec.ofNat_eq_ofNat, BitVec.zero_and]
      exact ⟨rfl, eq_comm.trans (host.trans splits.symm)⟩
  · constructor
    · exact fun lawful => absurd (positive_of_lawful lawful) positive
    · exact fun condition => absurd condition.1 positive

theorem lawful_iff_any : Lawful 8 (ofAddress 0 80) (ofAddress 0x0A000001 443) :=
  (lawful_iff (by decide)).mpr ⟨by decide, by decide, by decide⟩

/-- 10.0.0.1/8 is in the network 0.0.0.1. -/
theorem lawful_not :
    (ofAddress 0x0A000001 0).networkAddress 8 = .ok (some (ofAddress 0x00000001 0)) ∧
      ¬Lawful 8 (ofAddress 0x0A000001 0) (ofAddress 0x0A000002 0) := by
  constructor
  · rfl
  · intro lawful
    have same := ((lawful_iff_of_positive (by decide) (by decide)).mp lawful).1
    exact absurd same (by decide)

end Lawful

end IPv4Address

/-! ## IPv6 -/

namespace IPv6Address

/-- The bits of an address in the order of the prefix. -/
def bit (a : IPv6Address) (j : Nat) : Bool := (byte a.m_addr.s6_addr (j / 8)).getMsbD (j % 8)

def Masks (prefix_len : BitVec 32) : Prop :=
  ∃ subnet, subnetMask prefix_len = .ok (some subnet) ∧
    ∀ j < 128, subnet.bit j = decide (j < prefix_len.toNat)

def Networks (prefix_len : BitVec 32) (a : IPv6Address) : Prop :=
  ∃ network, a.networkAddress prefix_len = .ok (some network) ∧
    ∀ j < 128, network.bit j = (a.bit j && decide (j < prefix_len.toNat))

def Broadcasts (prefix_len : BitVec 32) (a : IPv6Address) : Prop :=
  ∃ broadcast, a.broadcastAddress prefix_len = .ok (some broadcast) ∧
    ∀ j < 128, broadcast.bit j = (a.bit j || !decide (j < prefix_len.toNat))

def Idempotent (prefix_len : BitVec 32) (a : IPv6Address) : Prop :=
  ∃ network, a.networkAddress prefix_len = .ok (some network) ∧
    network.networkAddress prefix_len = .ok (some network)

/-- An address and its broadcast address are in one network. -/
def Agrees (prefix_len : BitVec 32) (a : IPv6Address) : Prop :=
  ∃ network broadcast, a.networkAddress prefix_len = .ok (some network) ∧
    a.broadcastAddress prefix_len = .ok (some broadcast) ∧
    broadcast.networkAddress prefix_len = .ok (some network)

structure Lawful (prefix_len : BitVec 32) (a : IPv6Address) : Prop where
  masks : Masks prefix_len
  networks : Networks prefix_len a
  broadcasts : Broadcasts prefix_len a
  idempotent : Idempotent prefix_len a
  agrees : Agrees prefix_len a

section Lawful

variable {prefix_len : BitVec 32} {j : Nat}

theorem getMsbD_hostByte (length j : Nat) :
    (hostBits 1 (length % 8)).getMsbD (j % 8) = decide (length % 8 ≤ j % 8) :=
  getMsbD_hostBits 1 (by omega) (by omega)

theorem masks_of_lt (small : prefix_len.toNat < 128) : Masks prefix_len := by
  obtain ⟨result, given, bytes⟩ := subnetMask_of_lt small
  refine ⟨_, given, ?_⟩
  intro j inside
  rw [bit, bytes (j / 8) (by omega)]
  split
  next before =>
    have isBefore : j < prefix_len.toNat := by omega
    have all : ∀ i < 8, (0xff : BitVec 8).getMsbD i = true := by decide
    rw [all _ (Nat.mod_lt j (by omega)), decide_eq_true isBefore]
  next =>
    split
    next here =>
      have offset : j % 8 < 8 := Nat.mod_lt j (by omega)
      rw [BitVec.getMsbD_not, getMsbD_hostByte, decide_eq_true offset, Bool.true_and, ← decide_not]
      apply decide_eq_decide.mpr
      omega
    next =>
      have isBehind : ¬j < prefix_len.toNat := by omega
      rw [decide_eq_false isBehind]
      exact BitVec.getMsbD_zero

theorem broadcasts_of_lt (a : IPv6Address) (small : prefix_len.toNat < 128) :
    Broadcasts prefix_len a := by
  obtain ⟨result, given, bytes⟩ := a.broadcastAddress_of_lt small
  refine ⟨_, given, ?_⟩
  intro j inside
  rw [bit, bytes (j / 8) (by omega)]
  split
  next behind =>
    have isBehind : ¬j < prefix_len.toNat := by omega
    have all : ∀ i < 8, (0xff : BitVec 8).getMsbD i = true := by decide
    rw [all _ (Nat.mod_lt j (by omega)), decide_eq_false isBehind, Bool.not_false, Bool.or_true]
  next =>
    split
    next here =>
      rw [BitVec.getMsbD_or, getMsbD_hostByte, ← decide_not]
      apply congrArg
      apply decide_eq_decide.mpr
      omega
    next =>
      have isBefore : j < prefix_len.toNat := by omega
      rw [decide_eq_true isBefore, Bool.not_true, Bool.or_false]
      rfl

/-- The byte that the prefix ends in keeps the bits of the host. -/
theorem networks_iff (a : IPv6Address) (small : prefix_len.toNat < 128) :
    Networks prefix_len a ↔ byte a.m_addr.s6_addr (prefix_len.toNat / 8) = 0 := by
  obtain ⟨result, given, bytes⟩ := a.networkAddress_of_lt small
  constructor
  · rintro ⟨network, isNetwork, bits⟩
    cases given.symm.trans isNetwork
    apply BitVec.eq_of_getMsbD_eq
    intro i inside
    have place : (8 * (prefix_len.toNat / 8) + i) / 8 = prefix_len.toNat / 8 := by omega
    have offset : (8 * (prefix_len.toNat / 8) + i) % 8 = i := by omega
    have here := bits (8 * (prefix_len.toNat / 8) + i) (by omega)
    rw [bit, bit, place, bytes _ (by omega), if_neg (Nat.lt_irrefl _), if_pos rfl,
      BitVec.getMsbD_and, getMsbD_hostByte, offset] at here
    rw [BitVec.ofNat_eq_ofNat, BitVec.getMsbD_zero]
    -- a bit that is kept is one of the host, and one of the network is to be kept
    by_cases host : prefix_len.toNat % 8 ≤ i
    · have behind : ¬8 * (prefix_len.toNat / 8) + i < prefix_len.toNat := by omega
      rwa [decide_eq_true host, decide_eq_false behind, Bool.and_true, Bool.and_false] at here
    · have before : 8 * (prefix_len.toNat / 8) + i < prefix_len.toNat := by omega
      rw [decide_eq_false host, decide_eq_true before, Bool.and_false, Bool.and_true] at here
      exact here.symm
  · intro zero
    refine ⟨_, given, ?_⟩
    intro j inside
    rw [bit, bit, bytes (j / 8) (by omega)]
    split
    next behind =>
      have isBehind : ¬j < prefix_len.toNat := by omega
      rw [decide_eq_false isBehind, Bool.and_false]
      exact BitVec.getMsbD_zero
    next =>
      split
      next here =>
        rw [here, zero, BitVec.ofNat_eq_ofNat, BitVec.zero_and, BitVec.getMsbD_zero, Bool.false_and]
      next =>
        have isBefore : j < prefix_len.toNat := by omega
        rw [decide_eq_true isBefore, Bool.and_true]

theorem idempotent_of_lt (a : IPv6Address) (small : prefix_len.toNat < 128) :
    Idempotent prefix_len a := by
  obtain ⟨result, given, bytes⟩ := a.networkAddress_of_lt small
  obtain ⟨again, givenAgain, bytesAgain⟩ :=
    networkAddress_of_lt ⟨{ a.m_addr with s6_addr := result }⟩ small
  have same : again = result := by
    apply ext_byte
    intro j inside
    rw [bytesAgain j inside]
    dsimp only
    rw [bytes j inside]
    split
    next => rfl
    next =>
      split
      next => rw [BitVec.and_assoc, BitVec.and_self]
      next => rfl
  rw [same] at givenAgain
  exact ⟨_, given, givenAgain⟩

/-- The network of the broadcast address has all bits of the host in that byte. -/
theorem agrees_iff (a : IPv6Address) (small : prefix_len.toNat < 128) :
    Agrees prefix_len a ↔
      byte a.m_addr.s6_addr (prefix_len.toNat / 8) &&& hostBits 1 (prefix_len.toNat % 8) =
        hostBits 1 (prefix_len.toNat % 8) := by
  obtain ⟨network, isNetwork, bytes⟩ := a.networkAddress_of_lt small
  obtain ⟨broadcast, isBroadcast, bytesBroadcast⟩ := a.broadcastAddress_of_lt small
  obtain ⟨other, isOther, bytesOther⟩ :=
    networkAddress_of_lt ⟨{ a.m_addr with s6_addr := broadcast }⟩ small
  have absorbed (word mask : BitVec 8) : (word ||| mask) &&& mask = mask := by
    apply BitVec.eq_of_getLsbD_eq
    intro i _
    rw [BitVec.getLsbD_and, BitVec.getLsbD_or]
    cases word.getLsbD i <;> cases mask.getLsbD i <;> rfl
  have inside : prefix_len.toNat / 8 < 16 := by omega
  have atNetwork := bytes _ inside
  have atOther := bytesOther _ inside
  dsimp only at atOther
  rw [bytesBroadcast _ inside] at atOther
  simp only [Nat.lt_irrefl, if_false, if_true] at atNetwork atOther
  constructor
  · rintro ⟨network', broadcast', isNetwork', isBroadcast', isOther'⟩
    cases isNetwork.symm.trans isNetwork'
    cases isBroadcast.symm.trans isBroadcast'
    cases isOther.symm.trans isOther'
    rw [← atNetwork, atOther]
    exact absorbed _ _
  · intro all
    have same : other = network := by
      apply ext_byte
      intro j small
      rw [bytesOther j small, bytes j small]
      dsimp only
      rw [bytesBroadcast j small]
      split
      next => rfl
      next =>
        split
        next here =>
          rw [here, all]
          exact absorbed _ _
        next => rfl
    rw [same] at isOther
    exact ⟨_, _, isNetwork, isBroadcast, isOther⟩

/-- The mask and the broadcast address are right; the network asks for a byte that is zero where
the one of the broadcast address asks for bits that are set. -/
theorem not_lawful (a : IPv6Address) (small : prefix_len.toNat < 128) :
    Masks prefix_len ∧ Broadcasts prefix_len a ∧ Idempotent prefix_len a ∧
      (Networks prefix_len a ↔ byte a.m_addr.s6_addr (prefix_len.toNat / 8) = 0) ∧
      (Agrees prefix_len a ↔
        byte a.m_addr.s6_addr (prefix_len.toNat / 8) &&& hostBits 1 (prefix_len.toNat % 8) =
          hostBits 1 (prefix_len.toNat % 8)) ∧
      ¬Lawful prefix_len a := by
  refine ⟨masks_of_lt small, broadcasts_of_lt a small, idempotent_of_lt a small,
    networks_iff a small, agrees_iff a small, ?_⟩
  intro lawful
  have zero := (networks_iff a small).mp lawful.networks
  have all := (agrees_iff a small).mp lawful.agrees
  rw [zero, BitVec.ofNat_eq_ofNat, BitVec.zero_and] at all
  -- the last bit of the byte is always one of the host
  have last := congrArg (fun word => word.getMsbD 7) all
  simp only [BitVec.getMsbD_zero] at last
  rw [getMsbD_hostBits _ (by omega) (by omega), decide_eq_true (by omega)] at last
  cases last

theorem not_lawful_new : Masks 10 ∧ ¬Lawful 10 new :=
  ⟨(not_lawful new (by decide)).1, (not_lawful new (by decide)).2.2.2.2.2⟩

/-- The network of 2001:db8:1234::1/36 ends in a byte 0x02 where the prefix has 0x10. -/
theorem not_lawful_kept :
    (ofAddress #v[0x20, 0x01, 0x0d, 0xb8, 0x12, 0x34, 0, 0, 0, 0, 0, 0, 0, 0, 0, 1] 0).networkAddress 36 =
        .ok (some
          (ofAddress #v[0x20, 0x01, 0x0d, 0xb8, 0x02, 0, 0, 0, 0, 0, 0, 0, 0, 0, 0, 0] 0)) ∧
      ¬Lawful 36
        (ofAddress #v[0x20, 0x01, 0x0d, 0xb8, 0x12, 0x34, 0, 0, 0, 0, 0, 0, 0, 0, 0, 1] 0) := by
  constructor
  · rfl
  · intro lawful
    exact absurd ((networks_iff _ (by decide)).mp lawful.networks) (by decide)

end Lawful

end IPv6Address

end Exhy.Address
