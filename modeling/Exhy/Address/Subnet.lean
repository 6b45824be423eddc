import Exhy.Address.Core

/-!
# Subnets

The six functions on a prefix length, with what stops them: a shift by the width of the operand
or more, and an index behind the array.  The difference in `CreateMask` wraps around where an
`int` has no room for it.
-/

namespace Exhy.Address

open Library

inductive Fault where
  | shift (amount : Nat)
  | index (i : Nat)
  deriving DecidableEq, Repr

/-- `CreateMask<T>(bits)` for a type of `size` bytes.  The amount is a `size_t` and what is
shifted is an `int`. -/
def CreateMask (size : Nat) (bits : BitVec 32) : Except Fault (BitVec (8 * size)) :=
  let amount := BitVec.ofNat 64 (size * 8) - bits.setWidth 64
  if 32 ≤ amount.toNat then .error (.shift amount.toNat)
  else .ok (((1#32 <<< amount.toNat) - 1#32).setWidth (8 * size))

namespace IPv4Address

def broadcastAddress (a : IPv4Address) (prefix_len : BitVec 32) :
    Except Fault (Option IPv4Address) :=
  if 32 < prefix_len.toNat then .ok none
  else do
    let mask ← CreateMask 4 prefix_len
    let baddr := { a.m_addr with s_addr := a.m_addr.s_addr ||| byteswapOnLittleEndian 4 mask }
    return some ⟨baddr⟩

def networkAddress (a : IPv4Address) (prefix_len : BitVec 32) :
    Except Fault (Option IPv4Address) :=
  if 32 < prefix_len.toNat then .ok none
  else do
    let mask ← CreateMask 4 prefix_len
    let baddr := { a.m_addr with s_addr := a.m_addr.s_addr &&& byteswapOnLittleEndian 4 mask }
    return some ⟨baddr⟩

def subnetMask (prefix_len : BitVec 32) : Except Fault (Option IPv4Address) := do
  let mask ← CreateMask 4 prefix_len
  let subnet : sockaddr_in :=
    { sin_family := AF_INET, s_addr := ~~~byteswapOnLittleEndian 4 mask }
  return some ⟨subnet⟩

end IPv4Address

namespace IPv6Address

/-- `s6_addr[i] = change(s6_addr[i])`. -/
def update (s6_addr : Vector (BitVec 8) 16) (i : Nat) (change : BitVec 8 → BitVec 8) :
    Except Fault (Vector (BitVec 8) 16) :=
  if inside : i < 16 then .ok (s6_addr.set i (change (byte s6_addr i))) else .error (.index i)

/-- `s6_addr[i] = value` in a loop over the indices. -/
def fill (value : BitVec 8) (s6_addr : Vector (BitVec 8) 16) (indices : List Nat) :
    Except Fault (Vector (BitVec 8) 16) :=
  indices.foldlM (fun s6_addr i => update s6_addr i fun _ => value) s6_addr

def broadcastAddress (a : IPv6Address) (prefix_len : BitVec 32) :
    Except Fault (Option IPv6Address) := do
  let mask ← CreateMask 1 (prefix_len % 8)
  let i := (prefix_len / 8).toNat
  let s6_addr ← update a.m_addr.s6_addr i (· ||| mask)
  let s6_addr ← fill 0xff s6_addr (List.range' (i + 1) (16 - (i + 1)))
  return some ⟨{ a.m_addr with s6_addr }⟩

def networkAddress (a : IPv6Address) (prefix_len : BitVec 32) :
    Except Fault (Option IPv6Address) := do
  let mask ← CreateMask 1 (prefix_len % 8)
  let i := (prefix_len / 8).toNat
  let s6_addr ← update a.m_addr.s6_addr i (· &&& mask)
  let s6_addr ← fill 0x00 s6_addr (List.range' (i + 1) (16 - (i + 1)))
  return some ⟨{ a.m_addr with s6_addr }⟩

def subnetMask (prefix_len : BitVec 32) : Except Fault (Option IPv6Address) := do
  let subnet : sockaddr_in6 := { sin6_family := AF_INET6 }
  let mask ← CreateMask 1 (prefix_len % 8)
  let i := (prefix_len / 8).toNat
  let s6_addr ← update subnet.s6_addr i fun _ => ~~~mask
  let s6_addr ← fill 0xff s6_addr (List.range i)
  return some ⟨{ subnet with s6_addr }⟩

end IPv6Address

namespace IPAddress

def broadcastAddress (prefix_len : BitVec 32) : IPAddress → Except Fault (Option IPAddress)
  | .ipv4 a => (a.broadcastAddress prefix_len).map (·.map .ipv4)
  | .ipv6 a => (a.broadcastAddress prefix_len).map (·.map .ipv6)

def networkAddress (prefix_len : BitVec 32) : IPAddress → Except Fault (Option IPAddress)
  | .ipv4 a => (a.networkAddress prefix_len).map (·.map .ipv4)
  | .ipv6 a => (a.networkAddress prefix_len).map (·.map .ipv6)

def subnetMask (prefix_len : BitVec 32) : IPAddress → Except Fault (Option IPAddress)
  | .ipv4 _ => (IPv4Address.subnetMask prefix_len).map (·.map .ipv4)
  | .ipv6 _ => (IPv6Address.subnetMask prefix_len).map (·.map .ipv6)

end IPAddress

/-! ## Masks -/

/-- The bits of a type of `size` bytes behind the first ones. -/
def hostBits (size length : Nat) : BitVec (8 * size) :=
  (lowMask 32 (8 * size - length)).setWidth (8 * size)

section Masks

variable (size : Nat) {bits : BitVec 32}

theorem getMsbD_hostBits {length i : Nat} (shorter : 8 * size - length < 32) (inside : i < 8 * size) :
    (hostBits size length).getMsbD i = decide (length ≤ i) := by
  have place : 8 * size - 1 - i < 8 * size := by omega
  rw [BitVec.getMsbD, hostBits, BitVec.getLsbD_setWidth, getLsbD_lowMask shorter,
    decide_eq_true inside, decide_eq_true place, Bool.true_and, Bool.true_and]
  apply decide_eq_decide.mpr
  omega

theorem createMask_of_le (small : bits.toNat ≤ 8 * size)
    (shorter : 8 * size - bits.toNat < 32) :
    CreateMask size bits = .ok (hostBits size bits.toNat) := by
  have amount : (BitVec.ofNat 64 (size * 8) - bits.setWidth 64).toNat = 8 * size - bits.toNat := by
    have bound := bits.isLt
    rw [BitVec.toNat_sub, BitVec.toNat_ofNat, BitVec.toNat_setWidth]
    omega
  rw [CreateMask]
  simp only [amount]
  rw [if_neg (Nat.not_le.mpr shorter), hostBits, lowMask]

/-- The mask of a word has a shift in range for the lengths from 1 to 32 alone. -/
theorem createMask_word_error (bits : BitVec 32)
    (outside : bits.toNat = 0 ∨ 32 < bits.toNat) :
    ∃ amount, CreateMask 4 bits = .error (.shift amount) := by
  have large : 32 ≤ (BitVec.ofNat 64 (4 * 8) - bits.setWidth 64).toNat := by
    have bound := bits.isLt
    rw [BitVec.toNat_sub, BitVec.toNat_ofNat, BitVec.toNat_setWidth]
    omega
  exact ⟨_, if_pos large⟩

end Masks

/-! ## Bytes -/

namespace IPv6Address

section Bytes

variable (s6_addr : Vector (BitVec 8) 16)

theorem update_of_lt {i : Nat} (inside : i < 16) (change : BitVec 8 → BitVec 8) :
    ∃ result, update s6_addr i change = .ok result ∧
      ∀ j < 16, byte result j = if j = i then change (byte s6_addr i) else byte s6_addr j := by
  refine ⟨_, dif_pos inside, ?_⟩
  intro j _
  rw [byte, Vector.getElem?_set]
  split
  next same => rw [if_pos same.symm, Option.getD_some]
  next other =>
    rw [if_neg (Ne.symm other)]
    rfl

theorem fill_of_lt (value : BitVec 8) {indices : List Nat} (inside : ∀ i ∈ indices, i < 16) :
    ∃ result, fill value s6_addr indices = .ok result ∧
      ∀ j < 16, byte result j = if j ∈ indices then value else byte s6_addr j := by
  induction indices generalizing s6_addr with
  | nil => exact ⟨s6_addr, rfl, fun j _ => (if_neg List.not_mem_nil).symm⟩
  | cons first later ih =>
      obtain ⟨next, updated, bytes⟩ := update_of_lt s6_addr
        (inside first List.mem_cons_self) fun _ => value
      obtain ⟨result, filled, after⟩ :=
        ih next fun i member => inside i (List.mem_cons_of_mem _ member)
      refine ⟨result, ?_, ?_⟩
      · rw [fill, List.foldlM_cons, updated]
        exact filled
      · intro j small
        rw [after j small, bytes j small]
        by_cases here : j = first
        · simp [here]
        · simp [here]

/-- One byte is changed and others are filled behind it. -/
theorem update_fill {i : Nat} (here : i < 16) (change : BitVec 8 → BitVec 8) (value : BitVec 8)
    (indices : List Nat) (inside : ∀ i ∈ indices, i < 16) :
    ∃ middle result, update s6_addr i change = .ok middle ∧ fill value middle indices = .ok result ∧
      ∀ j < 16, byte result j =
        if j ∈ indices then value else if j = i then change (byte s6_addr j) else byte s6_addr j := by
  obtain ⟨middle, updated, atByte⟩ := update_of_lt s6_addr here change
  obtain ⟨result, filled, others⟩ := fill_of_lt middle value inside
  refine ⟨middle, result, updated, filled, ?_⟩
  intro j small
  rw [others j small, atByte j small]
  by_cases same : j = i
  · rw [if_pos same, if_pos same, same]
  · rw [if_neg same, if_neg same]

end Bytes

end IPv6Address

/-! ## What the functions give -/

namespace IPv4Address

variable {prefix_len : BitVec 32}

theorem broadcastAddress_of_le (a : IPv4Address) (positive : 0 < prefix_len.toNat)
    (small : prefix_len.toNat ≤ 32) :
    a.broadcastAddress prefix_len = .ok (some
      ⟨{ a.m_addr with
        s_addr := a.m_addr.s_addr ||| byteswapOnLittleEndian 4 (hostBits 4 prefix_len.toNat) }⟩) := by
  rw [broadcastAddress, if_neg (Nat.not_lt.mpr small),
    createMask_of_le 4 small (by omega)]
  rfl

theorem networkAddress_of_le (a : IPv4Address) (positive : 0 < prefix_len.toNat)
    (small : prefix_len.toNat ≤ 32) :
    a.networkAddress prefix_len = .ok (some
      ⟨{ a.m_addr with
        s_addr := a.m_addr.s_addr &&& byteswapOnLittleEndian 4 (hostBits 4 prefix_len.toNat) }⟩) := by
  rw [networkAddress, if_neg (Nat.not_lt.mpr small),
    createMask_of_le 4 small (by omega)]
  rfl

theorem subnetMask_of_le (positive : 0 < prefix_len.toNat) (small : prefix_len.toNat ≤ 32) :
    subnetMask prefix_len = .ok (some
      ⟨{ sin_family := AF_INET
         s_addr := ~~~byteswapOnLittleEndian 4 (hostBits 4 prefix_len.toNat) }⟩) := by
  rw [subnetMask, createMask_of_le 4 small (by omega)]
  rfl

end IPv4Address

namespace IPv6Address

variable {prefix_len : BitVec 32}

/-- The mask of the byte that the prefix ends in. -/
theorem createMask_byte (prefix_len : BitVec 32) :
    CreateMask 1 (prefix_len % 8) = .ok (hostBits 1 (prefix_len.toNat % 8)) := by
  have remainder : (prefix_len % 8).toNat = prefix_len.toNat % 8 := rfl
  rw [createMask_of_le 1 (by omega) (by omega), remainder]

theorem byte_of_prefix (prefix_len : BitVec 32) : (prefix_len / 8).toNat = prefix_len.toNat / 8 := rfl

/-- The bytes behind the one that the prefix ends in. -/
theorem mem_behind {j : Nat} (inside : j < 16) (i : Nat) :
    j ∈ List.range' (i + 1) (16 - (i + 1)) ↔ i < j := by
  rw [List.mem_range'_1]
  omega

theorem broadcastAddress_of_lt (a : IPv6Address) (small : prefix_len.toNat < 128) :
    ∃ result, a.broadcastAddress prefix_len = .ok (some ⟨{ a.m_addr with s6_addr := result }⟩) ∧
      ∀ j < 16, byte result j =
        if prefix_len.toNat / 8 < j then 0xff
        else if j = prefix_len.toNat / 8 then
          byte a.m_addr.s6_addr j ||| hostBits 1 (prefix_len.toNat % 8)
        else byte a.m_addr.s6_addr j := by
  obtain ⟨middle, result, updated, filled, bytes⟩ := update_fill a.m_addr.s6_addr
    (i := prefix_len.toNat / 8) (by omega) (· ||| hostBits 1 (prefix_len.toNat % 8)) 0xff
    (List.range' (prefix_len.toNat / 8 + 1) (16 - (prefix_len.toNat / 8 + 1)))
    (fun i member => by have bounds := List.mem_range'_1.mp member; omega)
  refine ⟨result, ?_, ?_⟩
  · rw [broadcastAddress, createMask_byte, byte_of_prefix]
    simp only [bind, Except.bind, updated, filled]
    rfl
  · intro j inside
    simp only [bytes j inside, mem_behind inside]

theorem networkAddress_of_lt (a : IPv6Address) (small : prefix_len.toNat < 128) :
    ∃ result, a.networkAddress prefix_len = .ok (some ⟨{ a.m_addr with s6_addr := result }⟩) ∧
      ∀ j < 16, byte result j =
        if prefix_len.toNat / 8 < j then 0x00
        else if j = prefix_len.toNat / 8 then
          byte a.m_addr.s6_addr j &&& hostBits 1 (prefix_len.toNat % 8)
        else byte a.m_addr.s6_addr j := by
  obtain ⟨middle, result, updated, filled, bytes⟩ := update_fill a.m_addr.s6_addr
    (i := prefix_len.toNat / 8) (by omega) (· &&& hostBits 1 (prefix_len.toNat % 8)) 0x00
    (List.range' (prefix_len.toNat / 8 + 1) (16 - (prefix_len.toNat / 8 + 1)))
    (fun i member => by have bounds := List.mem_range'_1.mp member; omega)
  refine ⟨result, ?_, ?_⟩
  · rw [networkAddress, createMask_byte, byte_of_prefix]
    simp only [bind, Except.bind, updated, filled]
    rfl
  · intro j inside
    simp only [bytes j inside, mem_behind inside]

theorem byte_zero (j : Nat) : byte (.replicate 16 0) j = 0 := by
  rw [byte, Vector.getElem?_replicate]
  split <;> rfl

theorem subnetMask_of_lt (small : prefix_len.toNat < 128) :
    ∃ result, subnetMask prefix_len =
        .ok (some ⟨{ sin6_family := AF_INET6, s6_addr := result }⟩) ∧
      ∀ j < 16, byte result j =
        if j < prefix_len.toNat / 8 then 0xff
        else if j = prefix_len.toNat / 8 then ~~~hostBits 1 (prefix_len.toNat % 8)
        else 0x00 := by
  obtain ⟨middle, result, updated, filled, bytes⟩ := update_fill (.replicate 16 0)
    (i := prefix_len.toNat / 8) (by omega) (fun _ => ~~~hostBits 1 (prefix_len.toNat % 8)) 0xff
    (List.range (prefix_len.toNat / 8))
    (fun i member => by have bound := List.mem_range.mp member; omega)
  refine ⟨result, ?_, ?_⟩
  · rw [subnetMask, createMask_byte, byte_of_prefix]
    simp only [bind, Except.bind, updated, filled]
    rfl
  · intro j inside
    simp only [bytes j inside, List.mem_range, byte_zero]

/-- Behind the last byte the first assignment is out of range. -/
theorem update_of_not_lt {i : Nat} (outside : 16 ≤ i) (s6_addr : Vector (BitVec 8) 16)
    (change : BitVec 8 → BitVec 8) : update s6_addr i change = .error (.index i) :=
  dif_neg (Nat.not_lt.mpr outside)

end IPv6Address

/-! ## Shifts and indices in range -/

inductive Call where
  | broadcastAddress
  | networkAddress
  | subnetMask
  deriving DecidableEq, Repr

namespace IPAddress

/-- The result of one of the six functions. -/
def subnet (a : IPAddress) (call : Call) (prefix_len : BitVec 32) : Except Fault (Option IPAddress) :=
  match call with
  | .broadcastAddress => a.broadcastAddress prefix_len
  | .networkAddress => a.networkAddress prefix_len
  | .subnetMask => a.subnetMask prefix_len

/-- The length of a whole address. -/
def bits : IPAddress → Nat
  | .ipv4 _ => 32
  | .ipv6 _ => 128

/-- No shift and no index is out of range, and a length that is too long gives no address. -/
def Guarded (a : IPAddress) (call : Call) (prefix_len : BitVec 32) : Prop :=
  (∀ fault, a.subnet call prefix_len ≠ .error fault) ∧
    (a.bits < prefix_len.toNat → a.subnet call prefix_len = .ok none)

/-- The lengths that a function is sound for. -/
def Sound (a : IPAddress) (call : Call) (length : Nat) : Prop :=
  match a, call with
  | .ipv4 _, .broadcastAddress | .ipv4 _, .networkAddress => 0 < length
  | .ipv4 _, .subnetMask => 0 < length ∧ length ≤ 32
  | .ipv6 _, _ => length < 128

section Guarded

variable {a : IPAddress} {call : Call} {prefix_len : BitVec 32}

theorem not_guarded_of_error (fault : Fault)
    (failed : a.subnet call prefix_len = .error fault) :
    ¬a.Guarded call prefix_len :=
  fun guarded => guarded.1 fault failed

theorem guarded_of_none (gone : a.subnet call prefix_len = .ok none) : a.Guarded call prefix_len := by
  constructor
  · intro fault failed
    rw [gone] at failed
    cases failed
  · exact fun _ => gone

theorem guarded_of_some {result : IPAddress} (given : a.subnet call prefix_len = .ok (some result))
    (short : prefix_len.toNat ≤ a.bits) : a.Guarded call prefix_len := by
  constructor
  · intro fault failed
    rw [given] at failed
    cases failed
  · exact fun long => absurd long (Nat.not_lt.mpr short)

end Guarded

/-- The IPv4 functions that test the length. -/
theorem guarded_ipv4_iff {a : IPv4Address} {call : Call} {prefix_len : BitVec 32}
    (tested : call ≠ .subnetMask) : (IPAddress.ipv4 a).Guarded call prefix_len ↔
      0 < prefix_len.toNat := by
  constructor
  · intro guarded
    by_contra zero
    obtain ⟨amount, failed⟩ := createMask_word_error prefix_len (.inl (by omega))
    have short : ¬32 < prefix_len.toNat := by omega
    apply not_guarded_of_error (.shift amount) _ guarded
    cases call with
    | broadcastAddress =>
        rw [subnet, broadcastAddress, IPv4Address.broadcastAddress, if_neg short, failed]
        rfl
    | networkAddress =>
        rw [subnet, networkAddress, IPv4Address.networkAddress, if_neg short, failed]
        rfl
    | subnetMask => exact absurd rfl tested
  · intro positive
    by_cases long : 32 < prefix_len.toNat
    · apply guarded_of_none
      cases call with
      | broadcastAddress =>
          rw [subnet, broadcastAddress, IPv4Address.broadcastAddress, if_pos long]
          rfl
      | networkAddress =>
          rw [subnet, networkAddress, IPv4Address.networkAddress, if_pos long]
          rfl
      | subnetMask => exact absurd rfl tested
    · have short := Nat.not_lt.mp long
      cases call with
      | broadcastAddress =>
          have given := a.broadcastAddress_of_le positive short
          exact guarded_of_some (congrArg (Except.map (Option.map IPAddress.ipv4)) given) short
      | networkAddress =>
          have given := a.networkAddress_of_le positive short
          exact guarded_of_some (congrArg (Except.map (Option.map IPAddress.ipv4)) given) short
      | subnetMask => exact absurd rfl tested

theorem guarded_ipv4_mask_iff {a : IPv4Address} {prefix_len : BitVec 32} :
    (IPAddress.ipv4 a).Guarded .subnetMask prefix_len ↔
      0 < prefix_len.toNat ∧ prefix_len.toNat ≤ 32 := by
  constructor
  · intro guarded
    by_contra outside
    obtain ⟨amount, failed⟩ := createMask_word_error prefix_len (by omega)
    apply not_guarded_of_error (.shift amount) _ guarded
    rw [subnet, subnetMask, IPv4Address.subnetMask, failed]
    rfl
  · intro inside
    have given := IPv4Address.subnetMask_of_le inside.1 inside.2
    exact guarded_of_some (congrArg (Except.map (Option.map IPAddress.ipv4)) given) inside.2

theorem guarded_ipv6_iff {a : IPv6Address} {call : Call} {prefix_len : BitVec 32} :
    (IPAddress.ipv6 a).Guarded call prefix_len ↔ prefix_len.toNat < 128 := by
  constructor
  · intro guarded
    by_contra long
    have outside : 16 ≤ prefix_len.toNat / 8 := by omega
    apply not_guarded_of_error (.index (prefix_len.toNat / 8)) _ guarded
    cases call with
    | broadcastAddress =>
        rw [subnet, broadcastAddress, IPv6Address.broadcastAddress, IPv6Address.createMask_byte,
          IPv6Address.byte_of_prefix]
        simp only [bind, Except.bind, IPv6Address.update_of_not_lt outside]
        rfl
    | networkAddress =>
        rw [subnet, networkAddress, IPv6Address.networkAddress, IPv6Address.createMask_byte,
          IPv6Address.byte_of_prefix]
        simp only [bind, Except.bind, IPv6Address.update_of_not_lt outside]
        rfl
    | subnetMask =>
        rw [subnet, subnetMask, IPv6Address.subnetMask, IPv6Address.createMask_byte,
          IPv6Address.byte_of_prefix]
        simp only [bind, Except.bind, IPv6Address.update_of_not_lt outside]
        rfl
  · intro small
    have short : prefix_len.toNat ≤ (IPAddress.ipv6 a).bits := Nat.le_of_lt small
    cases call with
    | broadcastAddress =>
        obtain ⟨result, given, -⟩ := a.broadcastAddress_of_lt small
        exact guarded_of_some (congrArg (Except.map (Option.map IPAddress.ipv6)) given) short
    | networkAddress =>
        obtain ⟨result, given, -⟩ := a.networkAddress_of_lt small
        exact guarded_of_some (congrArg (Except.map (Option.map IPAddress.ipv6)) given) short
    | subnetMask =>
        obtain ⟨result, given, -⟩ := IPv6Address.subnetMask_of_lt small
        exact guarded_of_some (congrArg (Except.map (Option.map IPAddress.ipv6)) given) short

/-- A length is tested by two of the six functions alone, and at 0 not by any. -/
theorem guarded_iff (a : IPAddress) (call : Call) (prefix_len : BitVec 32) :
    a.Guarded call prefix_len ↔ a.Sound call prefix_len.toNat := by
  cases a with
  | ipv4 a =>
      cases call with
      | broadcastAddress => exact guarded_ipv4_iff (by decide)
      | networkAddress => exact guarded_ipv4_iff (by decide)
      | subnetMask => exact guarded_ipv4_mask_iff
  | ipv6 a => cases call <;> exact guarded_ipv6_iff

theorem guarded_not :
    ¬(IPAddress.ipv6 IPv6Address.new).Guarded .networkAddress 128 ∧
      ¬(IPAddress.ipv4 (IPv4Address.ofAddress 0x0A000001 80)).Guarded .subnetMask 33 :=
  ⟨not_guarded_of_error (.index 16) rfl,
    not_guarded_of_error (.shift 0xFFFFFFFFFFFFFFFF) rfl⟩

end IPAddress

end Exhy.Address
