import Exhy.Address.Storage
import Exhy.Library.Bits
import Exhy.Library.Lexicographic

/-!
# Unix addresses and the order of addresses

`UnixAddress`, and the comparisons of `Address` on the memory of any two objects.
-/

namespace Exhy.Address

open Library

/-! ## Unix addresses -/

def AF_UNIX : BitVec 16 := 1

/-- `sizeof(m_addr.sun_path)` -/
def pathSize : Nat := 108

/-- A `sockaddr_un` and how much of it counts. -/
structure UnixAddress where
  sun_family : BitVec 16 := AF_UNIX
  sun_path : List UInt8
  m_length : BitVec 32
  size : sun_path.length = pathSize

namespace UnixAddress

/-- Bytes in memory that was set to zero. -/
def zeroed (bytes : Bytes) : List UInt8 := bytes ++ List.replicate (pathSize - bytes.length) 0

theorem length_zeroed {bytes : Bytes} (fits : bytes.length ≤ pathSize) :
    (zeroed bytes).length = pathSize := by
  rw [zeroed, List.length_append, List.length_replicate]
  omega

/-- `UnixAddress()` -/
def new : UnixAddress where
  sun_path := zeroed []
  m_length := 2 + 107
  size := length_zeroed (Nat.zero_le _)

/-- The path is abstract: its first byte is zero. -/
def isAbstract (path : Bytes) : Bool := path.head? = some 0

/-- `m_length` in front of the test, a `socklen_t`. -/
def lengthOf (path : Bytes) : BitVec 32 :=
  let m_length := BitVec.ofNat 32 (path.length + 1)
  if isAbstract path then m_length - 1 else m_length

/-- `memcpy(m_addr.sun_path, path.c_str(), m_length)` -/
def copied (path : Bytes) (m_length : BitVec 32) : Bytes := (path ++ [0]).take m_length.toNat

/-- `UnixAddress(path)`; none where "path too long" is thrown. -/
def ofPath (path : Bytes) : Option UnixAddress :=
  if long : pathSize < (lengthOf path).toNat then none
  else some
    { sun_path := zeroed (copied path (lengthOf path))
      m_length := lengthOf path + 2
      size := length_zeroed ((List.length_take_le ..).trans (Nat.not_lt.mp long)) }

/-- `getPath()`, which is what `insert` prints. -/
def getPath (a : UnixAddress) : Bytes :=
  if 2 < a.m_length.toNat ∧ a.sun_path.head? = some 0 then
    ascii "\\0" ++ a.sun_path.tail.take (a.m_length.toNat - 2 - 1)
  else c_str a.sun_path

def bytes (a : UnixAddress) : List UInt8 := fieldBytes 2 a.sun_family ++ a.sun_path

theorem length_bytes (a : UnixAddress) : a.bytes.length = 110 := by
  rw [bytes, List.length_append, length_fieldBytes, a.size, pathSize]

end UnixAddress

/-! ## Comparisons -/

/-- An object of a class of `Address`. -/
inductive AnyAddress where
  | inet (a : SocketAddress)
  | unix (a : UnixAddress)

namespace AnyAddress

def getAddr : AnyAddress → List UInt8
  | .inet a => a.getAddr
  | .unix a => a.bytes

def getAddrLen : AnyAddress → Nat
  | .inet a => a.getAddrLen
  | .unix a => a.m_length.toNat

/-- `a < rhs` -/
def less (a rhs : AnyAddress) : Bool :=
  let minlen := min a.getAddrLen rhs.getAddrLen
  let rt := memcmp (a.getAddr.take minlen) (rhs.getAddr.take minlen)
  if rt < 0 then true
  else if 0 < rt then false
  else if a.getAddrLen < rhs.getAddrLen then true
  else false

/-- `a == rhs` -/
def equals (a rhs : AnyAddress) : Bool :=
  a.getAddrLen = rhs.getAddrLen &&
    memcmp (a.getAddr.take a.getAddrLen) (rhs.getAddr.take a.getAddrLen) = 0

/-- No more of an object counts than it has. -/
def Sound (a : AnyAddress) : Prop := a.getAddrLen ≤ a.getAddr.length

/-- The bytes that count. -/
def content (a : AnyAddress) : List UInt8 := a.getAddr.take a.getAddrLen

section Compared

variable {a b : AnyAddress}

theorem length_content (sound : a.Sound) : a.content.length = a.getAddrLen := by
  rw [content, List.length_take, Nat.min_eq_left sound]

theorem less_iff (sound : a.Sound) (other : b.Sound) :
    a.less b = true ↔ numbers a.content < numbers b.content := by
  have first : a.getAddr.take (min a.getAddrLen b.getAddrLen) =
      a.content.take (min a.content.length b.content.length) := by
    rw [length_content sound, length_content other, content, List.take_take,
      Nat.min_eq_left (Nat.min_le_left ..)]
  have second : b.getAddr.take (min a.getAddrLen b.getAddrLen) =
      b.content.take (min a.content.length b.content.length) := by
    rw [length_content sound, length_content other, content, List.take_take,
      Nat.min_eq_left (Nat.min_le_right ..)]
  rw [less, first, second, memcmp_take, ← memcmp_lt_iff, length_content sound, length_content other]
  split
  · simp [*]
  · split
    · simp [*]
      omega
    · have zero : memcmp a.content b.content = 0 := by omega
      simp [zero]

theorem equals_iff (sound : a.Sound) (other : b.Sound) :
    a.equals b = true ↔ numbers a.content = numbers b.content := by
  rw [equals, Bool.and_eq_true, decide_eq_true_eq, decide_eq_true_eq, numbers_inj]
  constructor
  · intro compared
    obtain ⟨length, same⟩ := compared
    rw [length] at same
    apply eq_of_memcmp
    · rw [length_content sound, length_content other, length]
    · rw [content, content, length]
      exact same
  · intro same
    have length : a.getAddrLen = b.getAddrLen := by
      rw [← length_content sound, ← length_content other, same]
    refine ⟨length, ?_⟩
    have there : b.getAddr.take a.getAddrLen = b.content := by rw [length, content]
    rw [there, ← same]
    exact memcmp_self _

end Compared

/-- Two addresses compare in one of three ways, the order has no gaps, and equal addresses compare
alike. -/
theorem compared {a b c : AnyAddress} (soundA : a.Sound) (soundB : b.Sound) (soundC : c.Sound) :
    (a.less b = true ∨ a.equals b = true ∨ b.less a = true) ∧
      (a.less b = true → a.equals b = false ∧ b.less a = false) ∧
      (a.less b = true → b.less c = true → a.less c = true) ∧
      (a.equals b = true → b.equals a = true ∧ a.equals c = b.equals c ∧
        a.less c = b.less c ∧ c.less a = c.less b) := by
  refine ⟨?_, ?_, ?_, ?_⟩
  · rw [less_iff soundA soundB, equals_iff soundA soundB, less_iff soundB soundA]
    exact lt_trichotomy _ _
  · intro before
    rw [less_iff soundA soundB] at before
    constructor
    · rw [← Bool.not_eq_true, equals_iff soundA soundB]
      exact ne_of_lt before
    · rw [← Bool.not_eq_true, less_iff soundB soundA]
      exact lt_asymm before
  · rw [less_iff soundA soundB, less_iff soundB soundC, less_iff soundA soundC]
    exact lt_trans
  · intro same
    rw [equals_iff soundA soundB] at same
    refine ⟨(equals_iff soundB soundA).mpr same.symm, ?_, ?_, ?_⟩
    · rw [Bool.eq_iff_iff, equals_iff soundA soundC, equals_iff soundB soundC, same]
    · rw [Bool.eq_iff_iff, less_iff soundA soundC, less_iff soundB soundC, same]
    · rw [Bool.eq_iff_iff, less_iff soundC soundA, less_iff soundC soundB, same]

/-- 127.0.0.1 is in front of an IPv6 address, which is not in front of it. -/
theorem compared_inet :
    (AnyAddress.inet (.ipv4 { sin_family := AF_INET, s_addr := 0x0100007f })).less
        (.inet (.ipv6 { sin6_family := AF_INET6 })) = true ∧
      (AnyAddress.inet (.ipv6 { sin6_family := AF_INET6 })).less
        (.inet (.ipv4 { sin_family := AF_INET, s_addr := 0x0100007f })) = false := by
  have before : (AnyAddress.inet (.ipv4 { sin_family := AF_INET, s_addr := 0x0100007f })).less
      (.inet (.ipv6 { sin6_family := AF_INET6 })) = true := by decide +kernel
  have soundIPv4 : (AnyAddress.inet (.ipv4 { sin_family := AF_INET, s_addr := 0x0100007f })).Sound :=
    Nat.le_refl 16
  have soundIPv6 : (AnyAddress.inet (.ipv6 { sin6_family := AF_INET6 })).Sound := Nat.le_refl 28
  exact ⟨before, ((compared soundIPv4 soundIPv6 soundIPv4).2.1 before).2⟩

end AnyAddress

/-! ## Paths -/

namespace UnixAddress

/-- The bytes of the path that count. -/
def stored (path : Bytes) : Bytes := if isAbstract path then path else path ++ [0]

section Paths

variable {path : Bytes}

theorem toNat_lengthOf (short : path.length + 1 < 2 ^ 32) :
    (lengthOf path).toNat = (stored path).length := by
  have whole : (BitVec.ofNat 32 (path.length + 1)).toNat = path.length + 1 := by
    rw [BitVec.toNat_ofNat, Nat.mod_eq_of_lt short]
  rw [lengthOf, stored]
  split
  · have pred := @toNat_sub_one 32 (BitVec.ofNat 32 (path.length + 1)) (by omega)
    exact pred.trans (by rw [whole, Nat.add_sub_cancel])
  · rw [whole, List.length_append, List.length_singleton]

theorem copied_eq (short : path.length + 1 < 2 ^ 32) : copied path (lengthOf path) = stored path := by
  rw [copied, toNat_lengthOf short, stored]
  split
  · exact List.take_left
  · exact List.take_length

theorem ofPath_eq_none_iff (short : path.length + 1 < 2 ^ 32) :
    ofPath path = none ↔ pathSize < (stored path).length := by
  rw [← toNat_lengthOf short, ofPath]
  split
  · simp [*]
  · simp [*]

/-- What the constructor leaves in the object. -/
theorem ofPath_eq_some (short : path.length + 1 < 2 ^ 32) {a : UnixAddress}
    (made : ofPath path = some a) :
    (stored path).length ≤ pathSize ∧ a.sun_family = AF_UNIX ∧ a.sun_path = zeroed (stored path) ∧
      a.m_length.toNat = (stored path).length + 2 := by
  have fits : (stored path).length ≤ pathSize := by
    by_contra long
    rw [(ofPath_eq_none_iff short).mpr (Nat.not_le.mp long)] at made
    cases made
  rw [ofPath] at made
  split at made
  · cases made
  · cases made
    refine ⟨fits, rfl, congrArg zeroed (copied_eq short), ?_⟩
    have small : (stored path).length + 2 < 2 ^ 32 := by
      rw [pathSize] at fits
      omega
    rw [BitVec.toNat_add, toNat_lengthOf short]
    exact Nat.mod_eq_of_lt small

theorem content_of_path (short : path.length + 1 < 2 ^ 32) {a : UnixAddress}
    (made : ofPath path = some a) :
    (AnyAddress.unix a).content = fieldBytes 2 AF_UNIX ++ stored path := by
  obtain ⟨fits, family, bytes, length⟩ := ofPath_eq_some short made
  have front : (fieldBytes 2 AF_UNIX ++ stored path).length = (stored path).length + 2 := by
    rw [List.length_append, length_fieldBytes, Nat.add_comm]
  rw [AnyAddress.content, AnyAddress.getAddr, AnyAddress.getAddrLen, UnixAddress.bytes, family,
    bytes, zeroed, length, ← List.append_assoc]
  exact List.take_left' front

theorem sound_of_path (short : path.length + 1 < 2 ^ 32) {a : UnixAddress}
    (made : ofPath path = some a) : (AnyAddress.unix a).Sound := by
  obtain ⟨fits, family, bytes, length⟩ := ofPath_eq_some short made
  rw [AnyAddress.Sound, AnyAddress.getAddrLen, AnyAddress.getAddr, length_bytes, length]
  rw [pathSize] at fits
  omega

theorem stored_of_abstract (abstract : isAbstract path = true) : stored path = path := if_pos abstract

theorem stored_of_not (ordinary : ¬isAbstract path = true) : stored path = path ++ [0] :=
  if_neg ordinary

/-- An abstract path is no path in front of its end. -/
theorem eq_nil_of_abstract (ordinary : ¬isAbstract path = true)
    (abstract : isAbstract (path ++ [0]) = true) : path = [] := by
  cases path with
  | nil => rfl
  | cons first rest => exact absurd abstract ordinary

/-- The empty path is stored like the abstract one without a name. -/
theorem stored_eq_iff (first second : Bytes) : stored first = stored second ↔
    first = second ∨ (first = [] ∧ second = [0]) ∨ (first = [0] ∧ second = []) := by
  constructor
  · intro same
    by_cases abstract : isAbstract first = true
    · rw [stored_of_abstract abstract] at same
      by_cases other : isAbstract second = true
      · exact .inl (same.trans (stored_of_abstract other))
      · rw [stored_of_not other] at same
        rw [same] at abstract
        have empty := eq_nil_of_abstract other abstract
        rw [empty] at same
        exact .inr (.inr ⟨same, empty⟩)
    · rw [stored_of_not abstract] at same
      by_cases other : isAbstract second = true
      · rw [stored_of_abstract other] at same
        rw [← same] at other
        have empty := eq_nil_of_abstract abstract other
        rw [empty] at same
        exact .inr (.inl ⟨empty, same.symm⟩)
      · rw [stored_of_not other] at same
        exact .inl (List.append_cancel_right same)
  · intro either
    rcases either with rfl | ⟨rfl, rfl⟩ | ⟨rfl, rfl⟩ <;> rfl

theorem c_str_append_zero (text rest : Bytes) : c_str (text ++ 0 :: rest) = c_str text := by
  induction text with
  | nil => rfl
  | cons first text ih =>
      rw [c_str, c_str] at ih
      rw [c_str, c_str, List.cons_append, List.takeWhile_cons, List.takeWhile_cons, ih]

/-- The path that is printed starts with what stands for the byte zero. -/
theorem getPath_of_zero {a : UnixAddress} {name : Bytes}
    (starts : a.sun_path = zeroed (0 :: name)) (length : a.m_length.toNat = name.length + 3) :
    a.getPath = ascii "\\0" ++ name := by
  have taken : name.length + 3 - 2 - 1 = name.length := rfl
  rw [getPath, starts, length, zeroed, List.cons_append, if_pos ⟨by omega, rfl⟩, List.tail_cons,
    taken, List.take_left]

/-- The empty path is printed as an abstract one. -/
theorem getPath_of_path (short : path.length + 1 < 2 ^ 32) {a : UnixAddress}
    (made : ofPath path = some a) :
    a.getPath =
      if path = [] ∨ isAbstract path = true then ascii "\\0" ++ path.tail else c_str path := by
  obtain ⟨fits, family, bytes, length⟩ := ofPath_eq_some short made
  cases path with
  | nil =>
      rw [if_pos (.inl rfl)]
      exact getPath_of_zero bytes length
  | cons first rest =>
      by_cases zero : first = 0
      · have abstract : isAbstract (first :: rest) = true := by
          rw [zero]
          rfl
        rw [stored_of_abstract abstract] at bytes length
        rw [if_pos (.inr abstract), List.tail_cons]
        rw [zero] at bytes
        exact getPath_of_zero bytes length
      · have ordinary : ¬isAbstract (first :: rest) = true := by simpa [isAbstract] using zero
        have notBoth : ¬(first :: rest = [] ∨ isAbstract (first :: rest) = true) := by
          simp [ordinary]
        have head : ¬(2 < a.m_length.toNat ∧ a.sun_path.head? = some 0) := by
          rw [bytes, stored_of_not ordinary, zeroed]
          simp [zero]
        rw [if_neg notBoth, getPath, if_neg head, bytes, stored_of_not ordinary, zeroed,
          List.append_assoc]
        exact c_str_append_zero ..

end Paths

/-- An abstract path may be as long as the array, and any other has room for its end.  It is printed up
to its first zero, or behind a mark where it starts with one or is empty.  Two paths have the same
address where one is empty and the other a single zero. -/
theorem path_kept {path : Bytes} (short : path.length + 1 < 2 ^ 32) :
    (ofPath path = none ↔ pathSize < path.length + if isAbstract path then 0 else 1) ∧
      ∀ a, ofPath path = some a →
        a.getPath =
            (if path = [] ∨ isAbstract path = true then ascii "\\0" ++ path.tail else c_str path) ∧
          ∀ other b, other.length + 1 < 2 ^ 32 → ofPath other = some b →
            ((AnyAddress.unix a).equals (.unix b) = true ↔
              path = other ∨ (path = [] ∧ other = [0]) ∨ (path = [0] ∧ other = [])) := by
  constructor
  · have length : (stored path).length = path.length + if isAbstract path then 0 else 1 := by
      rw [stored]
      split
      · rfl
      · exact List.length_append
    rw [ofPath_eq_none_iff short, length]
  · intro a made
    refine ⟨getPath_of_path short made, ?_⟩
    intro other b short' made'
    rw [AnyAddress.equals_iff (sound_of_path short made) (sound_of_path short' made'), numbers_inj,
      content_of_path short made, content_of_path short' made', List.append_cancel_left_eq,
      stored_eq_iff]

/-- The socket of a server in the file system. -/
theorem path_kept_file : ∃ a, ofPath (ascii "/tmp/s") = some a ∧ a.getPath = ascii "/tmp/s" := by
  have small : (ascii "/tmp/s").length + 1 < 2 ^ 32 := by decide
  have kept := path_kept small
  cases made : ofPath (ascii "/tmp/s") with
  | none => exact absurd (kept.1.mp made) (by decide)
  | some a => exact ⟨a, rfl, (kept.2 a made).1⟩

end UnixAddress

end Exhy.Address
