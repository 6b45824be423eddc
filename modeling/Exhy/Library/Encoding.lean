import Mathlib.Data.List.Basic
import Mathlib.Data.Nat.Bitwise
import Mathlib.Tactic.Ring

/-!
# Integers as bytes

Fixed sizes from the lowest byte on, groups of seven bits, and the zigzag order that makes
small numbers of either sign small.
-/

namespace Library

universe u v

/-! ## Fixed sizes -/

/-- The lowest bytes of a number, the lowest first. -/
def littleEndian : (size value : Nat) → List UInt8
  | 0, _ => []
  | size + 1, value => value.toUInt8 :: littleEndian size (value / 256)

def ofLittleEndian : List UInt8 → Nat
  | [] => 0
  | byte :: rest => byte.toNat + 256 * ofLittleEndian rest

@[simp] theorem length_littleEndian (size value : Nat) : (littleEndian size value).length = size := by
  induction size generalizing value with
  | zero => rfl
  | succ size ih => rw [littleEndian, List.length_cons, ih]

theorem ofLittleEndian_littleEndian {size value : Nat} (fits : value < 256 ^ size) :
    ofLittleEndian (littleEndian size value) = value := by
  induction size generalizing value with
  | zero =>
      rw [Nat.pow_zero] at fits
      rw [Nat.lt_one_iff.mp fits]
      rfl
  | succ size ih =>
      have rest : value / 256 < 256 ^ size := by
        rw [Nat.div_lt_iff_lt_mul (by decide), ← Nat.pow_succ]
        exact fits
      have byte : value.toUInt8.toNat = value % 256 := rfl
      rw [littleEndian, ofLittleEndian, ih rest, byte, Nat.mod_add_div]

theorem littleEndian_ofLittleEndian (bytes : List UInt8) :
    littleEndian bytes.length (ofLittleEndian bytes) = bytes := by
  induction bytes with
  | nil => rfl
  | cons byte rest ih =>
      have small := UInt8.toNat_lt byte
      have lowest : (byte.toNat + 256 * ofLittleEndian rest).toUInt8 = byte := by
        apply UInt8.toNat_inj.mp
        show (byte.toNat + 256 * ofLittleEndian rest) % 256 = byte.toNat
        omega
      have higher : (byte.toNat + 256 * ofLittleEndian rest) / 256 = ofLittleEndian rest := by omega
      rw [List.length_cons, ofLittleEndian, littleEndian, lowest, higher, ih]

theorem ofLittleEndian_lt (bytes : List UInt8) : ofLittleEndian bytes < 256 ^ bytes.length := by
  induction bytes with
  | nil => exact Nat.one_pos
  | cons byte rest ih =>
      have small := UInt8.toNat_lt byte
      rw [ofLittleEndian, List.length_cons, Nat.pow_succ]
      omega

/-! ## Groups of seven bits -/

/-- The groups of a number, the lowest first, with the high bit set in all but the last.  None
when the room does not suffice. -/
def groups : (room value : Nat) → Option (List UInt8)
  | 0, _ => none
  | room + 1, value =>
      if 0x80 ≤ value then
        (groups room (value >>> 7)).map (((value &&& 0x7F) ||| 0x80).toUInt8 :: ·)
      else some [value.toUInt8]

theorem and_low (value : Nat) : value &&& 0x7F = value % 128 :=
  Nat.and_two_pow_sub_one_eq_mod value 7

/-- A group that another one follows. -/
theorem toNat_group (value : Nat) :
    ((value &&& 0x7F) ||| 0x80).toUInt8.toNat = value % 128 + 128 := by
  have low : value % 128 < 2 ^ 7 := Nat.mod_lt _ (by decide)
  have sum : value % 128 ||| 0x80 = value % 128 + 128 := by
    rw [Nat.or_comm, ← Nat.two_pow_add_eq_or_of_lt low 1, Nat.mul_one, Nat.add_comm]
  rw [and_low, sum]
  show (value % 128 + 128) % 256 = _
  omega

theorem groups_isSome {room value : Nat} (some : 1 ≤ room) (fits : value < 2 ^ (7 * room)) :
    ∃ bytes, groups room value = .some bytes ∧ 1 ≤ bytes.length ∧ bytes.length ≤ room := by
  induction room generalizing value with
  | zero => exact absurd some (by decide)
  | succ room ih =>
      rw [groups]
      split
      next large =>
        cases room with
        | zero => exact absurd fits (by omega)
        | succ room =>
            have rest : value >>> 7 < 2 ^ (7 * (room + 1)) := by
              rw [Nat.shiftRight_eq_div_pow, Nat.div_lt_iff_lt_mul (by decide), ← Nat.pow_add]
              exact fits
            obtain ⟨bytes, grouped, filled, short⟩ := ih (by omega) rest
            rw [grouped]
            refine ⟨_, rfl, ?_, ?_⟩
            · exact Nat.succ_pos _
            · exact Nat.succ_le_succ short
      next => exact ⟨_, rfl, Nat.le_refl 1, Nat.succ_le_succ (Nat.zero_le room)⟩

section Source

variable {Source : Type u} {Error : Type v} (next : Source → Except Error (Source × UInt8))

/-- The number that the groups of a source make, from bit `i` on. -/
def readGroups (width : Nat) : (rounds i : Nat) → (result : BitVec width) → Source →
    Except Error (Source × BitVec width)
  | 0, _, result, source => .ok (source, result)
  | rounds + 1, i, result, source =>
      match next source with
      | .error error => .error error
      | .ok (source, b) =>
          if b < 0x80 then .ok (source, result ||| (b.toBitVec.setWidth width <<< i))
          else
            readGroups width rounds (i + 7)
              (result ||| ((b &&& 0x7F).toBitVec.setWidth width <<< i)) source

/-- The source gives these bytes one by one. -/
def Gives : Source → List UInt8 → Source → Prop
  | source, [], after => source = after
  | source, byte :: rest, after => ∃ later, next source = .ok (later, byte) ∧ Gives later rest after

/-- Bits above those of the number. -/
theorem or_shift {width i : Nat} {result : BitVec width} {byte : UInt8} (below : result.toNat < 2 ^ i)
    (fits : byte.toNat * 2 ^ i < 2 ^ width) :
    (result ||| (byte.toBitVec.setWidth width <<< i)).toNat = result.toNat + byte.toNat * 2 ^ i := by
  have small : byte.toNat < 2 ^ width :=
    Nat.lt_of_le_of_lt (Nat.le_mul_of_pos_right _ (Nat.two_pow_pos i)) fits
  have shifted : (byte.toBitVec.setWidth width <<< i).toNat = 2 ^ i * byte.toNat := by
    rw [BitVec.toNat_shiftLeft, BitVec.toNat_setWidth, UInt8.toNat_toBitVec,
      Nat.mod_eq_of_lt small, Nat.shiftLeft_eq, Nat.mod_eq_of_lt fits, Nat.mul_comm]
  rw [BitVec.toNat_or, shifted, Nat.or_comm, ← Nat.two_pow_add_eq_or_of_lt below]
  ring

/-- The groups of a number make this number again, and take nothing behind them. -/
theorem readGroups_groups {width room rounds i value : Nat} {bytes : List UInt8}
    (grouped : groups room value = some bytes) (enough : bytes.length ≤ rounds)
    {source after : Source} (gives : Gives next source bytes after) {result : BitVec width}
    (below : result.toNat < 2 ^ i) (fits : value * 2 ^ i < 2 ^ width) :
    ∃ number, readGroups next width rounds i result source = .ok (after, number) ∧
      number.toNat = result.toNat + value * 2 ^ i := by
  induction room generalizing rounds i value bytes source result with
  | zero => cases grouped
  | succ room ih =>
      rw [groups] at grouped
      split at grouped
      next large =>
        obtain ⟨rest, groupedRest, rfl⟩ := Option.map_eq_some_iff.mp grouped
        obtain ⟨rounds, rfl⟩ : ∃ less, rounds = less + 1 := ⟨rounds - 1, by
          rw [List.length_cons] at enough
          omega⟩
        obtain ⟨later, got, gives⟩ := gives
        have byte := toNat_group value
        generalize ((value &&& 0x7F) ||| 0x80).toUInt8 = b at got byte
        have goesOn : ¬ b < 0x80 := by
          rw [UInt8.lt_iff_toNat_lt, byte]
          show ¬ _ < 128
          omega
        have low : (b &&& 0x7F).toNat = value % 128 := by
          rw [UInt8.toNat_and, byte]
          show (value % 128 + 128) &&& 0x7F = _
          rw [and_low]
          omega
        have split : value % 128 * 2 ^ i + value / 128 * 2 ^ (i + 7) = value * 2 ^ i := by
          have parts := Nat.mod_add_div value 128
          calc
            _ = (value % 128 + 128 * (value / 128)) * 2 ^ i := by
              rw [Nat.pow_add]
              ring
            _ = value * 2 ^ i := by rw [parts]
        have group : (b &&& 0x7F).toNat * 2 ^ i < 2 ^ width := by
          rw [low]
          omega
        have lowest := or_shift below group
        rw [low] at lowest
        have belowToo : (result ||| ((b &&& 0x7F).toBitVec.setWidth width <<< i)).toNat <
            2 ^ (i + 7) := by
          have bits : value % 128 + 1 ≤ 128 := Nat.mod_lt _ (by decide)
          have scaled := Nat.mul_le_mul_right (2 ^ i) bits
          rw [lowest, Nat.pow_add]
          rw [Nat.add_mul] at scaled
          omega
        have shifted : value >>> 7 = value / 128 := Nat.shiftRight_eq_div_pow value 7
        rw [shifted] at groupedRest
        obtain ⟨number, read, total⟩ := ih groupedRest (Nat.le_of_succ_le_succ enough) gives belowToo
          (by omega)
        refine ⟨number, ?_, ?_⟩
        · rw [readGroups, got]
          dsimp only
          rw [if_neg goesOn, read]
        · rw [total, lowest]
          omega
      next small =>
        cases grouped
        obtain ⟨rounds, rfl⟩ : ∃ less, rounds = less + 1 := ⟨rounds - 1, by
          rw [List.length_singleton] at enough
          omega⟩
        obtain ⟨later, got, rfl⟩ := gives
        have byte : value.toUInt8.toNat = value := by
          show value % 256 = value
          omega
        have stops : value.toUInt8 < 0x80 := by
          rw [UInt8.lt_iff_toNat_lt, byte]
          show value < 128
          omega
        refine ⟨result ||| (value.toUInt8.toBitVec.setWidth width <<< i), ?_, ?_⟩
        · rw [readGroups, got]
          dsimp only
          rw [if_pos stops]
        · rw [or_shift below (by rw [byte]; exact fits), byte]

end Source

/-! ## Zigzag -/

section Zigzag

variable {width : Nat}

/-- The number with its sign in the lowest bit. -/
def zigzag (value : BitVec width) : BitVec width :=
  (value <<< 1) ^^^ value.sshiftRight (width - 1)

def unzigzag (value : BitVec width) : BitVec width :=
  (value >>> 1) ^^^ -(value &&& BitVec.ofNat width 1)

/-- The sign in every bit. -/
theorem sshiftRight_sign (positive : 0 < width) (value : BitVec width) :
    value.sshiftRight (width - 1) =
      if value.msb then BitVec.allOnes width else BitVec.ofNat width 0 := by
  apply BitVec.eq_of_getLsbD_eq
  intro i inside
  have bit : (value.sshiftRight (width - 1)).getLsbD i = value.msb := by
    rw [BitVec.getLsbD_sshiftRight, decide_eq_false (by omega), Bool.not_false, Bool.true_and]
    split
    next first =>
      obtain rfl : i = 0 := by omega
      rw [Nat.add_zero, BitVec.msb_eq_getLsbD_last]
    next => rfl
  rw [bit]
  cases value.msb with
  | true => simp [inside]
  | false => simp

/-- The lowest bit of a zigzag number is the sign. -/
theorem zigzag_and_one (value : BitVec width) (sign : Bool) :
    ((value <<< 1) ^^^ (if sign then BitVec.allOnes width else BitVec.ofNat width 0)) &&&
        BitVec.ofNat width 1 =
      if sign then BitVec.ofNat width 1 else BitVec.ofNat width 0 := by
  apply BitVec.eq_of_getLsbD_eq
  intro i inside
  cases sign with
  | true =>
      simp [inside]
      grind
  | false =>
      simp [inside]
      grind

theorem unzigzag_zigzag (positive : 0 < width) (value : BitVec width) :
    unzigzag (zigzag value) = value := by
  rw [unzigzag, zigzag, sshiftRight_sign positive, zigzag_and_one]
  have last := BitVec.msb_eq_getLsbD_last value
  apply BitVec.eq_of_getLsbD_eq
  intro i inside
  cases sign : value.msb with
  | true =>
      rw [if_pos rfl, if_pos rfl, BitVec.neg_one_eq_allOnes]
      simp [inside]
      grind
  | false =>
      rw [if_neg Bool.false_ne_true, if_neg Bool.false_ne_true]
      simp [inside]
      grind

end Zigzag

end Library
