import Mathlib.Data.Nat.Digits.Defs
import Exhy.Library.Encoding

/-!
# Words bit by bit

The mask of the low bits of a word, the two parts of a word that a mask separates, the bits of a
number that is given by its bytes, and how many of its bits are set.
-/

namespace Library

/-- The bits of a number are those of its bytes. -/
theorem testBit_ofLittleEndian (bytes : List UInt8) (i : Nat) :
    (ofLittleEndian bytes).testBit i = (bytes.getD (i / 8) 0).toNat.testBit (i % 8) := by
  induction bytes generalizing i with
  | nil =>
      rw [ofLittleEndian, List.getD_nil]
      exact (Nat.zero_testBit i).trans (Nat.zero_testBit (i % 8)).symm
  | cons byte rest ih =>
      have split : ofLittleEndian (byte :: rest) = 2 ^ 8 * ofLittleEndian rest + byte.toNat := by
        rw [ofLittleEndian]
        exact Nat.add_comm ..
      rw [split, Nat.testBit_two_pow_mul_add _ (UInt8.toNat_lt byte)]
      split
      next small =>
        rw [Nat.div_eq_of_lt small, Nat.mod_eq_of_lt small]
        rfl
      next large =>
        have behind : i / 8 = (i - 8) / 8 + 1 := by omega
        have same : i % 8 = (i - 8) % 8 := by omega
        rw [ih, behind, same]
        rfl

section Masks

variable {w : Nat}

/-- The word with the `n` lowest bits set. -/
def lowMask (w n : Nat) : BitVec w := (1#w <<< n) - 1#w

theorem toNat_lowMask {n : Nat} (fits : n < w) : (lowMask w n).toNat = 2 ^ n - 1 := by
  have smaller : 2 ^ n < 2 ^ w := Nat.pow_lt_pow_right (by omega) fits
  have positive : 0 < 2 ^ n := Nat.two_pow_pos n
  have wide : 1 < 2 ^ w := by omega
  have one : (1#w).toNat = 1 := by rw [BitVec.toNat_ofNat, Nat.mod_eq_of_lt wide]
  have shifted : (1#w <<< n).toNat = 2 ^ n := by
    rw [BitVec.toNat_shiftLeft, one, Nat.shiftLeft_eq, Nat.one_mul, Nat.mod_eq_of_lt smaller]
  rw [lowMask, BitVec.toNat_sub_of_le]
  · rw [shifted, one]
  · rw [BitVec.le_def, shifted, one]
    exact positive

theorem getLsbD_lowMask {n : Nat} (fits : n < w) (i : Nat) :
    (lowMask w n).getLsbD i = decide (i < n) := by
  rw [BitVec.getLsbD, toNat_lowMask fits, Nat.testBit_two_pow_sub_one]

/-- A word whose two parts under a mask are the same has no part. -/
theorem and_eq_and_not_iff (word mask : BitVec w) : word &&& mask = word &&& ~~~mask ↔ word = 0 := by
  constructor
  · intro same
    have parts : word = (word &&& mask) ||| (word &&& ~~~mask) := by
      apply BitVec.eq_of_getLsbD_eq
      intro i small
      simp only [BitVec.getLsbD_or, BitVec.getLsbD_and, BitVec.getLsbD_not, small, decide_true,
        Bool.true_and]
      cases word.getLsbD i <;> cases mask.getLsbD i <;> rfl
    rw [parts, ← same, BitVec.or_self]
    apply BitVec.eq_of_getLsbD_eq
    intro i small
    have bit := congrArg (fun word => word.getLsbD i) same
    simp only [BitVec.getLsbD_and, BitVec.getLsbD_not, small, decide_true, Bool.true_and] at bit
    rw [BitVec.getLsbD_and, BitVec.ofNat_eq_ofNat, BitVec.getLsbD_zero]
    revert bit
    cases word.getLsbD i <;> cases mask.getLsbD i <;> decide
  · intro zero
    rw [zero, BitVec.ofNat_eq_ofNat, BitVec.zero_and, BitVec.zero_and]

end Masks

/-! ## Set bits -/

theorem toNat_sub_one {w : Nat} {word : BitVec w} (positive : 0 < word.toNat) :
    (word - 1#w).toNat = word.toNat - 1 := by
  have wide : 1 < 2 ^ w := by
    have bound := word.isLt
    omega
  have one : (1#w).toNat = 1 := by rw [BitVec.toNat_ofNat, Nat.mod_eq_of_lt wide]
  rw [BitVec.toNat_sub_of_le, one]
  rw [BitVec.le_def, one]
  exact positive

/-- The number of bits that are set. -/
def bitCount (n : Nat) : Nat := (Nat.digits 2 n).sum

theorem bitCount_zero : bitCount 0 = 0 := rfl

theorem bitCount_eq (n : Nat) : bitCount n = n % 2 + bitCount (n / 2) := by
  rcases Nat.eq_zero_or_pos n with rfl | positive
  · rfl
  · rw [bitCount, Nat.digits_def' (by decide) positive, List.sum_cons]
    rfl

/-- A number loses the lowest of its bits with the bits of the number before it. -/
theorem bitCount_and_pred {n : Nat} (positive : 0 < n) :
    bitCount (n &&& (n - 1)) + 1 = bitCount n := by
  induction n using Nat.strong_induction_on with
  | _ n ih =>
      have half : (n &&& (n - 1)) / 2 = n / 2 &&& (n - 1) / 2 := Nat.and_div_two
      have even : (n &&& (n - 1)) % 2 = 0 := by
        have other : ¬((n &&& (n - 1)) % 2 = 1) := by
          rw [Nat.and_mod_two_eq_one]
          omega
        omega
      rw [bitCount_eq (n &&& (n - 1)), bitCount_eq n, half, even]
      rcases Nat.mod_two_eq_zero_or_one n with zero | one
      · have shifted : (n - 1) / 2 = n / 2 - 1 := by omega
        rw [shifted, zero, Nat.zero_add, Nat.zero_add]
        exact ih (n / 2) (by omega) (by omega)
      · have shifted : (n - 1) / 2 = n / 2 := by omega
        rw [shifted, one, Nat.and_self]
        omega

/-- The bits of a number are counted in two parts. -/
theorem bitCount_two_pow_mul_add (high : Nat) {k low : Nat} (small : low < 2 ^ k) :
    bitCount (2 ^ k * high + low) = bitCount high + bitCount low := by
  induction k generalizing low with
  | zero =>
      have zero : low = 0 := by simpa using small
      rw [zero, pow_zero, Nat.one_mul, Nat.add_zero]
      rfl
  | succ k ih =>
      have double : 2 ^ (k + 1) * high + low = 2 * (2 ^ k * high) + low := by
        rw [Nat.pow_succ', Nat.mul_assoc]
      have last : (2 * (2 ^ k * high) + low) % 2 = low % 2 := Nat.mul_add_mod ..
      have others : (2 * (2 ^ k * high) + low) / 2 = 2 ^ k * high + low / 2 :=
        Nat.mul_add_div (by decide) ..
      have shorter : low / 2 < 2 ^ k := by
        rw [Nat.pow_succ'] at small
        omega
      rw [double, bitCount_eq, last, others, ih shorter, bitCount_eq low]
      omega

theorem bitCount_two_pow_sub_one (n : Nat) : bitCount (2 ^ n - 1) = n := by
  induction n with
  | zero => rfl
  | succ n ih =>
      have positive : 0 < 2 ^ n := Nat.two_pow_pos n
      have last : (2 ^ (n + 1) - 1) % 2 = 1 := by
        rw [Nat.pow_succ']
        omega
      have others : (2 ^ (n + 1) - 1) / 2 = 2 ^ n - 1 := by
        rw [Nat.pow_succ']
        omega
      rw [bitCount_eq, last, others, ih, Nat.add_comm]

theorem bitCount_ofLittleEndian (bytes : List UInt8) :
    bitCount (ofLittleEndian bytes) = (bytes.map fun byte => bitCount byte.toNat).sum := by
  induction bytes with
  | nil => rfl
  | cons byte rest ih =>
      have split : ofLittleEndian (byte :: rest) = 2 ^ 8 * ofLittleEndian rest + byte.toNat := by
        rw [ofLittleEndian]
        exact Nat.add_comm ..
      rw [split, bitCount_two_pow_mul_add _ (UInt8.toNat_lt byte), ih, List.map_cons,
        List.sum_cons, Nat.add_comm]

/-- A word whose first bits alone are set has as many. -/
theorem bitCount_of_getMsbD {w n : Nat} {word : BitVec w} (short : n ≤ w)
    (bits : ∀ i < w, word.getMsbD i = decide (i < n)) : bitCount word.toNat = n := by
  have same : word.toNat = 2 ^ (w - n) * (2 ^ n - 1) + 0 := by
    apply Nat.eq_of_testBit_eq
    intro i
    rw [Nat.add_zero, Nat.testBit_two_pow_mul, Nat.testBit_two_pow_sub_one, ← BitVec.getLsbD]
    by_cases small : i < w
    · have bit := bits (w - 1 - i) (by omega)
      rw [BitVec.getMsbD, decide_eq_true (by omega), Bool.true_and] at bit
      have place : w - 1 - (w - 1 - i) = i := by omega
      rw [place] at bit
      rw [bit, ← Bool.decide_and]
      apply decide_eq_decide.mpr
      omega
    · rw [BitVec.getLsbD_of_ge _ _ (Nat.not_lt.mp small), ← Bool.decide_and]
      symm
      apply decide_eq_false
      omega
  rw [same, bitCount_two_pow_mul_add _ (Nat.two_pow_pos _), bitCount_two_pow_sub_one]
  rfl

end Library
