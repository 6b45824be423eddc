import Exhy.Library.CString
import Mathlib.Data.List.Forall2

/-!
# Literals of hexadecimal groups

A number of groups of hexadecimal digits with colons between them, where two colons may once
stand for groups that are zero.
-/

namespace Library

/-! ## Hexadecimal numbers -/

/-- What `<<` writes of an unsigned number under `std::hex`. -/
def hexadecimal (number : Nat) : Bytes := (Nat.toDigits 16 number).map Char.toUInt8

theorem digitValue_digitChar {digit : Nat} (small : digit < 16) :
    digitValue 16 digit.digitChar.toUInt8 = some digit := by
  have all : ∀ digit < 16, digitValue 16 (Nat.digitChar digit).toUInt8 = some digit := by decide
  exact all digit small

theorem hexadecimal_of_lt {number : Nat} (small : number < 16) :
    hexadecimal number = [number.digitChar.toUInt8] := by
  rw [hexadecimal, Nat.toDigits_of_lt_base small]
  rfl

theorem hexadecimal_of_le {number : Nat} (large : 16 ≤ number) :
    hexadecimal number = hexadecimal (number / 16) ++ [(number % 16).digitChar.toUInt8] := by
  rw [hexadecimal, Nat.toDigits_of_base_le (by omega) large, List.map_append]
  rfl

theorem hexadecimal_digits (number : Nat) :
    ∀ byte ∈ hexadecimal number, (digitValue 16 byte).isSome = true := by
  induction number using Nat.strongRecOn with
  | ind number ih =>
      intro byte member
      by_cases small : number < 16
      · rw [hexadecimal_of_lt small, List.mem_singleton] at member
        rw [member, digitValue_digitChar small]
        rfl
      · rw [hexadecimal_of_le (by omega), List.mem_append, List.mem_singleton] at member
        rcases member with earlier | last
        · exact ih (number / 16) (by omega) byte earlier
        · rw [last, digitValue_digitChar (Nat.mod_lt number (by omega))]
          rfl

/-- The last digit of a number counts once, and those in front of it sixteen times. -/
theorem readDigits_concat {base : Nat} {digits : Bytes} {last : UInt8} {digit : Nat}
    (areDigits : ∀ byte ∈ digits, (digitValue base byte).isSome = true)
    (isLast : digitValue base last = some digit) (value : Nat) :
    readDigits base value (digits ++ [last]) = readDigits base value digits * base + digit := by
  induction digits generalizing value with
  | nil =>
      rw [List.nil_append]
      simp only [readDigits, isLast]
  | cons first later ih =>
      obtain ⟨number, isNumber⟩ := Option.isSome_iff_exists.mp (areDigits first List.mem_cons_self)
      rw [List.cons_append, readDigits, readDigits, isNumber]
      exact ih (fun byte member => areDigits byte (List.mem_cons_of_mem _ member)) _

theorem readDigits_hexadecimal (number : Nat) : readDigits 16 0 (hexadecimal number) = number := by
  induction number using Nat.strongRecOn with
  | ind number ih =>
      by_cases small : number < 16
      · rw [hexadecimal_of_lt small, readDigits, digitValue_digitChar small]
        exact Nat.zero_add number
      · rw [hexadecimal_of_le (by omega), readDigits_concat (hexadecimal_digits _)
          (digitValue_digitChar (Nat.mod_lt number (by omega))), ih _ (by omega)]
        omega

/-! ## Groups -/

/-- One to four hexadecimal digits with the value. -/
structure IsGroup (text : Bytes) (value : Nat) : Prop where
  some : text ≠ []
  short : text.length ≤ 4
  digits : ∀ byte ∈ text, (digitValue 16 byte).isSome = true
  value : readDigits 16 0 text = value

theorem isGroup_hexadecimal {number : Nat} (small : number < 2 ^ 16) :
    IsGroup (hexadecimal number) number where
  some := by
    rw [hexadecimal, ne_eq, List.map_eq_nil_iff]
    exact Nat.toDigits_ne_nil
  short := by
    rw [hexadecimal, List.length_map, Nat.length_toDigits_le_iff (by omega) (by omega)]
    exact small
  digits := hexadecimal_digits number
  value := readDigits_hexadecimal number

theorem IsGroup.noColon {text : Bytes} {value : Nat} (group : IsGroup text value) : 0x3A ∉ text :=
  fun member => absurd (group.digits _ member) (by decide)

theorem IsGroup.unique {text : Bytes} {first second : Nat} (left : IsGroup text first)
    (right : IsGroup text second) : first = second :=
  left.value.symm.trans right.value

/-- The texts with a colon between them. -/
def joined (texts : List Bytes) : Bytes := [0x3A].intercalate texts

theorem joined_concat {texts : List Bytes} (some : texts ≠ []) (last : Bytes) :
    joined (texts ++ [last]) = joined texts ++ 0x3A :: last := by
  induction texts with
  | nil => exact absurd rfl some
  | cons first later ih =>
      cases later with
      | nil =>
          rw [joined, List.cons_append, List.nil_append, List.intercalate_cons_cons, joined,
            List.intercalate_singleton, List.intercalate_singleton, List.append_assoc]
          rfl
      | cons second more =>
          have rest := ih (List.cons_ne_nil second more)
          rw [joined, List.cons_append, List.intercalate_cons_of_ne_nil (by simp), ← joined, rest,
            joined, joined, List.intercalate_cons_of_ne_nil (List.cons_ne_nil second more)]
          simp only [List.append_assoc]

/-- What stands for the values of `count` groups. -/
inductive Denotes (count : Nat) : Bytes → List Nat → Prop where
  | full {texts : List Bytes} {values : List Nat} (groups : List.Forall₂ IsGroup texts values)
      (all : values.length = count) : Denotes count (joined texts) values
  | short {left right : List Bytes} {before behind : List Nat} {zeros : Nat}
      (groupsLeft : List.Forall₂ IsGroup left before)
      (groupsRight : List.Forall₂ IsGroup right behind) (some : 0 < zeros)
      (all : before.length + zeros + behind.length = count) :
      Denotes count (joined left ++ ascii "::" ++ joined right)
        (before ++ List.replicate zeros 0 ++ behind)

section Unique

variable {texts left right : List Bytes} {values : List Nat}

theorem ne_nil_of_groups (groups : List.Forall₂ IsGroup texts values) : ∀ text ∈ texts, text ≠ [] := by
  induction groups with
  | nil => exact fun text member => absurd member List.not_mem_nil
  | cons group _ ih =>
      intro text member
      rcases List.mem_cons.mp member with rfl | later
      · exact group.some
      · exact ih text later

theorem noColon_of_groups (groups : List.Forall₂ IsGroup texts values) :
    ∀ text ∈ texts, 0x3A ∉ text := by
  induction groups with
  | nil => exact fun text member => absurd member List.not_mem_nil
  | cons group _ ih =>
      intro text member
      rcases List.mem_cons.mp member with rfl | later
      · exact group.noColon
      · exact ih text later

theorem values_unique {first second : List Nat} (left : List.Forall₂ IsGroup texts first)
    (right : List.Forall₂ IsGroup texts second) : first = second := by
  induction left generalizing second with
  | nil =>
      cases right
      rfl
  | cons group _ ih =>
      cases right with
      | cons other later => rw [group.unique other, ih later]

/-- The pieces of a text between its colons; a text without groups is one empty piece. -/
theorem splitOn_joined (groups : List.Forall₂ IsGroup texts values) :
    (joined texts).splitOn 0x3A = if texts = [] then [[]] else texts := by
  split
  next none =>
    rw [none]
    rfl
  next some => exact List.splitOn_intercalate 0x3A (noColon_of_groups groups) some

theorem takeWhile_pieces (nonempty : ∀ text ∈ left, text ≠ []) (rest : List Bytes) :
    ((if left = [] then [[]] else left) ++ [] :: rest).takeWhile (· ≠ []) = left := by
  split
  next none =>
    rw [none]
    rfl
  next some =>
    rw [List.takeWhile_append_of_pos (fun text member => decide_eq_true (nonempty text member))]
    exact List.append_nil left

theorem filter_pieces (nonempty : ∀ text ∈ right, text ≠ []) :
    (if right = [] then [[]] else right).filter (· ≠ []) = right := by
  split
  next none =>
    rw [none]
    rfl
  next some => exact List.filter_eq_self.mpr fun text member => decide_eq_true (nonempty text member)

/-- The first empty piece is where the zeros are. -/
theorem pieces_unique {left' right' : List Bytes} (nonemptyLeft : ∀ text ∈ left, text ≠ [])
    (nonemptyRight : ∀ text ∈ right, text ≠ []) (nonemptyLeft' : ∀ text ∈ left', text ≠ [])
    (nonemptyRight' : ∀ text ∈ right', text ≠ [])
    (same : (if left = [] then [[]] else left) ++ [] :: (if right = [] then [[]] else right) =
      (if left' = [] then [[]] else left') ++ [] :: if right' = [] then [[]] else right') :
    left = left' ∧ right = right' := by
  have lefts : left = left' := by
    rw [← takeWhile_pieces nonemptyLeft, same, takeWhile_pieces nonemptyLeft']
  subst lefts
  have tails := List.append_cancel_left same
  have rights := congrArg (List.filter (· ≠ [])) (List.cons.inj tails).2
  rw [filter_pieces nonemptyRight, filter_pieces nonemptyRight'] at rights
  exact ⟨rfl, rights⟩

theorem splitOn_short {before behind : List Nat} (groupsLeft : List.Forall₂ IsGroup left before)
    (groupsRight : List.Forall₂ IsGroup right behind) :
    (joined left ++ ascii "::" ++ joined right).splitOn 0x3A =
      (if left = [] then [[]] else left) ++ [] :: if right = [] then [[]] else right := by
  have cut : joined left ++ ascii "::" ++ joined right =
      joined left ++ 0x3A :: ([] ++ 0x3A :: joined right) := by
    rw [List.append_assoc]
    rfl
  rw [cut, List.splitOn_append_cons_self, List.splitOn_append_cons_self, splitOn_joined groupsLeft,
    splitOn_joined groupsRight]
  rfl

end Unique

theorem forall₂_hexadecimal {values : List Nat} (small : ∀ value ∈ values, value < 2 ^ 16) :
    List.Forall₂ IsGroup (values.map hexadecimal) values := by
  induction values with
  | nil => exact .nil
  | cons first later ih =>
      exact .cons (isGroup_hexadecimal (small first List.mem_cons_self))
        (ih fun value member => small value (List.mem_cons_of_mem _ member))

theorem mem_joined {texts : List Bytes} {byte : UInt8} (member : byte ∈ joined texts) :
    byte = 0x3A ∨ ∃ text ∈ texts, byte ∈ text := by
  induction texts with
  | nil => cases member
  | cons first later ih =>
      by_cases none : later = []
      · rw [none, joined, List.intercalate_singleton] at member
        exact .inr ⟨first, List.mem_cons_self, member⟩
      · rw [joined, List.intercalate_cons_of_ne_nil none, List.mem_append, List.mem_append] at member
        rcases member with (inFirst | colon) | further
        · exact .inr ⟨first, List.mem_cons_self, inFirst⟩
        · exact .inl (List.mem_singleton.mp colon)
        · rcases ih further with colon | ⟨text, isText, inText⟩
          · exact .inl colon
          · exact .inr ⟨text, List.mem_cons_of_mem _ isText, inText⟩

theorem mem_joined_groups {texts : List Bytes} {values : List Nat} {byte : UInt8}
    (groups : List.Forall₂ IsGroup texts values) (member : byte ∈ joined texts) :
    byte = 0x3A ∨ (digitValue 16 byte).isSome = true := by
  rcases mem_joined member with colon | ⟨text, isText, inText⟩
  · exact .inl colon
  · right
    clear member
    induction groups with
    | nil => cases isText
    | cons group _ ih =>
        rcases List.mem_cons.mp isText with rfl | later
        · exact group.digits byte inText
        · exact ih later

/-- A literal has colons and hexadecimal digits. -/
theorem Denotes.bytes {count : Nat} {text : Bytes} {values : List Nat}
    (denotes : Denotes count text values) {byte : UInt8} (member : byte ∈ text) :
    byte = 0x3A ∨ (digitValue 16 byte).isSome = true := by
  cases denotes with
  | full groups all => exact mem_joined_groups groups member
  | short groupsLeft groupsRight some all =>
      rcases List.mem_append.mp member with inFront | behind
      · rcases List.mem_append.mp inFront with before | colons
        · exact mem_joined_groups groupsLeft before
        · left
          have both : ∀ byte ∈ ascii "::", byte = 0x3A := by decide
          exact both byte colons
      · exact mem_joined_groups groupsRight behind

/-- A literal without zeros left out has no empty piece. -/
theorem joined_ne_short {texts left right : List Bytes} {values before behind : List Nat}
    (groups : List.Forall₂ IsGroup texts values) (some : texts ≠ [])
    (groupsLeft : List.Forall₂ IsGroup left before)
    (groupsRight : List.Forall₂ IsGroup right behind) :
    joined texts ≠ joined left ++ ascii "::" ++ joined right := by
  intro same
  have pieces := congrArg (List.splitOn 0x3A) same
  rw [splitOn_joined groups, if_neg some, splitOn_short groupsLeft groupsRight] at pieces
  have empty : [] ∈ texts := by
    rw [pieces]
    exact List.mem_append_right _ List.mem_cons_self
  exact ne_nil_of_groups groups [] empty rfl

/-- A literal denotes the values of one list of groups. -/
theorem Denotes.unique {count : Nat} {text : Bytes} {first second : List Nat}
    (left : Denotes count text first) (right : Denotes count text second) : first = second := by
  cases left with
  | @full texts _ groups all =>
      generalize same : joined texts = text at right
      cases right with
      | @full texts' _ groups' all' =>
          have pieces := congrArg (fun text => (text.splitOn 0x3A).filter (· ≠ [])) same
          rw [splitOn_joined groups, splitOn_joined groups',
            filter_pieces (ne_nil_of_groups groups), filter_pieces (ne_nil_of_groups groups')] at pieces
          subst pieces
          exact values_unique groups groups'
      | @short _ _ _ _ zeros groupsLeft groupsRight some all' =>
          have nonempty : texts ≠ [] := by
            rw [← List.length_pos_iff, groups.length_eq]
            omega
          exact absurd same (joined_ne_short groups nonempty groupsLeft groupsRight)
  | @short left behind before right zeros groupsLeft groupsRight some all =>
      generalize same : joined left ++ ascii "::" ++ joined behind = text at right
      cases right with
      | @full texts _ groups all' =>
          have nonempty : texts ≠ [] := by
            rw [← List.length_pos_iff, groups.length_eq]
            omega
          exact absurd same.symm (joined_ne_short groups nonempty groupsLeft groupsRight)
      | @short left' right' before' behind' zeros' groupsLeft' groupsRight' some' all' =>
          have pieces := congrArg (List.splitOn 0x3A) same
          rw [splitOn_short groupsLeft groupsRight, splitOn_short groupsLeft' groupsRight'] at pieces
          obtain ⟨rfl, rfl⟩ := pieces_unique (ne_nil_of_groups groupsLeft)
            (ne_nil_of_groups groupsRight) (ne_nil_of_groups groupsLeft')
            (ne_nil_of_groups groupsRight') pieces
          have lefts := values_unique groupsLeft groupsLeft'
          have rights := values_unique groupsRight groupsRight'
          subst lefts rights
          have zerosSame : zeros = zeros' := by omega
          rw [zerosSame]

end Library
