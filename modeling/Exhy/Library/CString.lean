import Mathlib.Algebra.Group.Int.Defs
import Mathlib.Algebra.Group.Nat.Defs
import Mathlib.Data.List.Lex
import Mathlib.Data.List.TakeWhile
import Mathlib.Data.Nat.Basic
import Mathlib.Order.Lex

/-!
# Functions of the C library on bytes

Texts are lists of bytes; a C string ends at its first zero byte or at the end of the list.
The locale is that of a program that does not set one.
-/

namespace Library

abbrev Bytes := List UInt8

/-- What is said of the bytes of a text is decided on the text, not on all bytes there are. -/
instance (priority := 2000) decidableForallMem {α : Type*} {holds : α → Prop} [DecidablePred holds]
    (items : List α) : Decidable (∀ item ∈ items, holds item) :=
  List.decidableBAll holds items

instance (priority := 2000) decidableExistsMem {α : Type*} {holds : α → Prop} [DecidablePred holds]
    (items : List α) : Decidable (∃ item ∈ items, holds item) :=
  List.decidableBEx holds items

instance (priority := 2000) decidableForallMemOption {α : Type*} {holds : α → Prop}
    [DecidablePred holds] (item : Option α) : Decidable (∀ value ∈ item, holds value) :=
  Option.decidableForallMem item

/-- The bytes of a text of ASCII characters. -/
def ascii (text : String) : Bytes := text.toList.map Char.toUInt8

/-- The conversion of an integer to `int`. -/
def toInt32 (value : Int) : Int := value.bmod (2 ^ 32)

theorem toInt32_of_small {size : Nat} (small : size < 2 ^ 31) : toInt32 size = size := by
  rw [toInt32, Int.bmod_eq_of_le] <;> omega

theorem toInt32_lt (value : Int) : toInt32 value < 2 ^ 31 :=
  Int.bmod_lt (by decide)

/-- The low half, as a signed number. -/
theorem toInt32_eq (size : Nat) :
    toInt32 size =
      if size % 2 ^ 32 < 2 ^ 31 then ((size % 2 ^ 32 : Nat) : Int)
      else ((size % 2 ^ 32 : Nat) : Int) - 2 ^ 32 := by
  rw [toInt32, Int.bmod_def]
  split <;> split <;> omega

/-- What a function that takes a C string reads of a text. -/
def c_str (text : Bytes) : Bytes := text.takeWhile (· ≠ 0)

theorem c_str_eq_self_iff {text : Bytes} : c_str text = text ↔ 0 ∉ text := by
  rw [c_str, List.takeWhile_eq_self_iff]
  constructor
  · intro all member
    exact absurd (all 0 member) (by decide)
  · intro absent byte member
    apply decide_eq_true
    exact fun zero => absent (zero ▸ member)

/-- `memchr(text, byte, size)`: the text from the byte on. -/
def memchr (text : Bytes) (byte : UInt8) : Option Bytes :=
  let found := text.dropWhile (· ≠ byte)
  if found = [] then none else some found

theorem memchr_of_not_mem {text : Bytes} {byte : UInt8} (absent : byte ∉ text) :
    memchr text byte = none := by
  have all : ∀ other ∈ text, decide (other ≠ byte) = true := fun other member =>
    decide_eq_true fun same => absent (same ▸ member)
  rw [memchr, List.dropWhile_eq_nil_iff.mpr all]
  rfl

theorem memchr_append {before after : Bytes} {byte : UInt8} (absent : byte ∉ before) :
    memchr (before ++ byte :: after) byte = some (byte :: after) := by
  have all : ∀ other ∈ before, decide (other ≠ byte) = true := fun other member =>
    decide_eq_true fun same => absent (same ▸ member)
  have stops : (before ++ byte :: after).dropWhile (· ≠ byte) = byte :: after := by
    rw [List.dropWhile_append_of_pos all, List.dropWhile_cons_of_neg (by simp)]
  rw [memchr, stops]
  rfl

/-- `strncmp(left, right, length) == 0`. -/
def strncmpEq : Bytes → Bytes → Nat → Bool
  | _, _, 0 => true
  | left, right, length + 1 =>
      left.headD 0 = right.headD 0 &&
        (left.headD 0 = 0 || strncmpEq left.tail right.tail length)

def toLower (byte : UInt8) : UInt8 :=
  if 0x41 ≤ byte && byte ≤ 0x5A then byte + 0x20 else byte

/-- What `strcasecmp` compares of a C string. -/
def folded (text : Bytes) : List ℕ :=
  (text.takeWhile (· ≠ 0)).map fun byte => (toLower byte).toNat

def isSpace (byte : UInt8) : Bool := (0x09 ≤ byte && byte ≤ 0x0D) || byte = 0x20

/-- The value of a digit in a base up to 36. -/
def digitValue (base : Nat) (byte : UInt8) : Option Nat :=
  let value :=
    if 0x30 ≤ byte && byte ≤ 0x39 then byte.toNat - 0x30
    else if 0x41 ≤ byte && byte ≤ 0x5A then byte.toNat - 0x41 + 10
    else if 0x61 ≤ byte && byte ≤ 0x7A then byte.toNat - 0x61 + 10
    else 36
  if value < base then some value else none

/-- The value of the leading digits, onto what has been read of the number. -/
def readDigits (base : Nat) (value : Nat) : Bytes → Nat
  | [] => value
  | byte :: rest =>
      match digitValue base byte with
      | none => value
      | some digit => readDigits base (value * base + digit) rest

/-- The text after a prefix `0x` that a hexadecimal digit follows. -/
def dropHexPrefix (text : Bytes) : Bytes :=
  match text with
  | 0x30 :: mark :: digit :: rest =>
      if (mark = 0x58 || mark = 0x78) && (digitValue 16 digit).isSome then digit :: rest else text
  | _ => text

/-- `strtol(text, NULL, base)`: a number out of range gives the nearest `long`. -/
def strtol (base : Nat) (text : Bytes) : Int :=
  let text := text.dropWhile isSpace
  let negative := text.head? = some 0x2D
  let text := if negative || text.head? = some 0x2B then text.tail else text
  let value := readDigits base 0 (if base = 16 then dropHexPrefix text else text)
  if negative then max (-value) (-2 ^ 63) else min value (2 ^ 63 - 1)

/-- `boost::lexical_cast<uint64_t>(text)`: an optional sign and digits, nothing else; a
negative number wraps around, a number out of range is an exception. -/
def lexicalCastUInt64 (text : Bytes) : Option UInt64 :=
  let negative := text.head? = some 0x2D
  let digits := if negative || text.head? = some 0x2B then text.tail else text
  let value := readDigits 10 0 digits
  if digits = [] || !digits.all (fun byte => (digitValue 10 byte).isSome) || 2 ^ 64 ≤ value then none
  else some (if negative then 0 - value.toUInt64 else value.toUInt64)

/-- What holds of every code holds of every byte. -/
theorem forall_byte {property : UInt8 → Prop} (all : ∀ code < 256, property code.toUInt8)
    (byte : UInt8) : property byte := by
  have here := all byte.toNat (UInt8.toNat_lt byte)
  rwa [Nat.toUInt8_eq, UInt8.ofNat_toNat] at here

/-! ## Numbers in a text -/

section Numbers

variable {base : Nat} {digits : Bytes} {stop : UInt8}

/-- Digits are the number of a text as far as none comes behind them. -/
theorem readDigits_append {rest : Bytes} (noDigit : ∀ stop ∈ rest.head?, digitValue base stop = none)
    (value : Nat) : readDigits base value (digits ++ rest) = readDigits base value digits := by
  induction digits generalizing value with
  | nil =>
      cases rest with
      | nil => rfl
      | cons stop more => simp [readDigits, noDigit stop rfl]
  | cons digit later ih =>
      rw [List.cons_append, readDigits, readDigits]
      split
      · rfl
      · exact ih _

theorem digitValue_mono {more : Nat} {byte : UInt8} (further : base ≤ more)
    (isDigit : (digitValue base byte).isSome = true) : (digitValue more byte).isSome = true := by
  simp only [digitValue, Option.isSome_ite] at isDigit ⊢
  exact Nat.lt_of_lt_of_le isDigit further

/-- A digit is no blank, no sign and no part of a prefix. -/
theorem digit_spec {byte : UInt8} (isDigit : (digitValue 16 byte).isSome = true) :
    isSpace byte = false ∧ byte ≠ 0x2B ∧ byte ≠ 0x2D ∧ byte ≠ 0x58 ∧ byte ≠ 0x78 := by
  have all : ∀ code < 256, (digitValue 16 code.toUInt8).isSome = true →
      isSpace code.toUInt8 = false ∧ code.toUInt8 ≠ 0x2B ∧ code.toUInt8 ≠ 0x2D ∧
        code.toUInt8 ≠ 0x58 ∧ code.toUInt8 ≠ 0x78 := by
    decide +kernel
  simpa using all byte.toNat (UInt8.toNat_lt byte) (by simpa using isDigit)

theorem dropHexPrefix_of_ne {first second : UInt8} (rest : Bytes) (upper : second ≠ 0x58)
    (lower : second ≠ 0x78) : dropHexPrefix (first :: second :: rest) = first :: second :: rest := by
  unfold dropHexPrefix
  split
  next mark digit after same =>
    cases same
    simp [upper, lower]
  next => rfl

theorem dropHexPrefix_single (first : UInt8) : dropHexPrefix [first] = [first] := by
  unfold dropHexPrefix
  split
  next mark digit after same => cases same
  next => rfl

/-- A number of digits in front of what is none, as far as a `long` goes. -/
theorem strtol_digits_append {rest : Bytes} (some : digits ≠ []) (isBase : base ≤ 16)
    (areDigits : ∀ byte ∈ digits, (digitValue base byte).isSome = true)
    (noDigit : ∀ stop ∈ rest.head?, digitValue base stop = none ∧ stop ≠ 0x58 ∧ stop ≠ 0x78) :
    strtol base (digits ++ rest) = min (readDigits base 0 digits : Int) (2 ^ 63 - 1) := by
  have spec : ∀ byte ∈ digits, isSpace byte = false ∧ byte ≠ 0x2B ∧ byte ≠ 0x2D ∧
      byte ≠ 0x58 ∧ byte ≠ 0x78 := fun byte member =>
    digit_spec (digitValue_mono isBase (areDigits byte member))
  have whole : readDigits base 0 (digits ++ rest) = readDigits base 0 digits :=
    readDigits_append (fun stop isStop => (noDigit stop isStop).1) 0
  obtain ⟨digit, later, rfl⟩ := List.exists_cons_of_ne_nil some
  obtain ⟨noSpace, noPlus, noMinus, -, -⟩ := spec digit List.mem_cons_self
  have noPrefix : dropHexPrefix (digit :: later ++ rest) = digit :: later ++ rest := by
    cases later with
    | nil =>
        cases rest with
        | nil => exact dropHexPrefix_single digit
        | cons stop more =>
            have ofStop := noDigit stop rfl
            exact dropHexPrefix_of_ne more ofStop.2.1 ofStop.2.2
    | cons second more =>
        have ofSecond := spec second (by simp)
        exact dropHexPrefix_of_ne _ ofSecond.2.2.2.1 ofSecond.2.2.2.2
  have noBlank : (digit :: later ++ rest).dropWhile isSpace = digit :: later ++ rest := by
    rw [List.cons_append, List.dropWhile_cons_of_neg (by simp [noSpace])]
  have noSign : (digit :: later ++ rest).head? = Option.some digit := rfl
  simp only [strtol, noBlank, noSign, Option.some.injEq, noMinus, noPlus, decide_false, Bool.false_or,
    Bool.false_eq_true, if_false, noPrefix, ite_self, whole]

theorem strtol_digits_min (some : digits ≠ []) (isBase : base ≤ 16)
    (areDigits : ∀ byte ∈ digits, (digitValue base byte).isSome = true)
    (noDigit : digitValue base stop = none) (upper : stop ≠ 0x58) (lower : stop ≠ 0x78)
    (rest : Bytes) :
    strtol base (digits ++ stop :: rest) = min (readDigits base 0 digits : Int) (2 ^ 63 - 1) := by
  apply strtol_digits_append some isBase areDigits
  rintro _ ⟨⟩
  exact ⟨noDigit, upper, lower⟩

theorem strtol_digits (some : digits ≠ []) (isBase : base ≤ 16)
    (areDigits : ∀ byte ∈ digits, (digitValue base byte).isSome = true)
    (noDigit : digitValue base stop = none) (upper : stop ≠ 0x58) (lower : stop ≠ 0x78)
    (rest : Bytes) (small : readDigits base 0 digits < 2 ^ 63) :
    strtol base (digits ++ stop :: rest) = readDigits base 0 digits := by
  rw [strtol_digits_min some isBase areDigits noDigit upper lower rest]
  omega

end Numbers

/-- What `<<` writes of an unsigned number. -/
def decimal (number : Nat) : Bytes := (Nat.toDigits 10 number).map Char.toUInt8

section Decimal

theorem digitValue_of_isDigit {char : Char} (isDigit : char.isDigit = true) :
    digitValue 10 char.toUInt8 = some (char.toNat - 48) := by
  have ordered : 48 ≤ char.toNat ∧ char.toNat ≤ 57 := Char.isDigit_iff_toNat.mp isDigit
  have all : ∀ code < 58, 48 ≤ code → digitValue 10 code.toUInt8 = some (code - 48) := by
    decide
  exact all char.toNat (by omega) ordered.1

theorem decimal_digits {number : Nat} {byte : UInt8} (member : byte ∈ decimal number) :
    (digitValue 10 byte).isSome = true := by
  obtain ⟨char, isChar, rfl⟩ := List.mem_map.mp member
  have isDigit := Nat.isDigit_of_mem_toDigits (by omega) (Nat.le_refl 10) isChar
  rw [digitValue_of_isDigit isDigit]
  rfl

theorem decimal_ne_nil (number : Nat) : decimal number ≠ [] := by
  rw [decimal, ne_eq, List.map_eq_nil_iff]
  exact Nat.toDigits_ne_nil

theorem readDigits_map (value : Nat) {chars : List Char}
    (digits : ∀ char ∈ chars, char.isDigit = true) :
    readDigits 10 value (chars.map Char.toUInt8) = Nat.ofDigitChars 10 chars value := by
  induction chars generalizing value with
  | nil => rfl
  | cons char rest ih =>
      rw [List.map_cons, readDigits, digitValue_of_isDigit (digits char List.mem_cons_self),
        Nat.ofDigitChars_cons]
      dsimp only
      rw [ih _ fun other member => digits other (List.mem_cons_of_mem _ member), Nat.mul_comm value]
      rfl

/-- What is written is read again. -/
theorem readDigits_decimal (number : Nat) : readDigits 10 0 (decimal number) = number := by
  rw [decimal, readDigits_map 0 fun char member =>
    Nat.isDigit_of_mem_toDigits (by omega) (Nat.le_refl 10) member]
  exact Nat.ofDigitChars_toDigits (by omega) (Nat.le_refl 10)

theorem lexicalCastUInt64_decimal {number : Nat} (small : number < 2 ^ 64) :
    lexicalCastUInt64 (decimal number) = some number.toUInt64 := by
  obtain ⟨digit, later, parts⟩ := List.exists_cons_of_ne_nil (decimal_ne_nil number)
  have isDigit : (digitValue 10 digit).isSome = true :=
    decimal_digits (parts ▸ List.mem_cons_self)
  obtain ⟨-, noPlus, noMinus, -, -⟩ := digit_spec (digitValue_mono (by omega) isDigit)
  have noSign : (decimal number).head? = some digit := by rw [parts, List.head?_cons]
  have all : (decimal number).all (fun byte => (digitValue 10 byte).isSome) = true :=
    List.all_eq_true.mpr fun byte member => decimal_digits member
  simp only [lexicalCastUInt64, noSign, Option.some.injEq, noMinus, noPlus, decide_false,
    Bool.or_false, Bool.false_eq_true, if_false, readDigits_decimal, all, decimal_ne_nil,
    Bool.not_true, Bool.false_or, decide_eq_true_eq, if_neg (Nat.not_le.mpr small)]

end Decimal

example : strtol 16 (ascii "1aF;x") = 431 := by decide

end Library
