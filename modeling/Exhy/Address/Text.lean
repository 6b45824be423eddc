import Exhy.Address.Core

/-!
# The text of an IPv6 address

What `insert` prints between the brackets is a literal of eight groups that denotes the address:
the first groups that are zero are left out, and all that come behind them are printed.
-/

namespace Exhy.Address.IPv6Address

open Library

/-- The value of a group, from the byte that comes first in the address on. -/
def group (a : IPv6Address) (i : Nat) : Nat :=
  256 * (byte a.m_addr.s6_addr (2 * i)).toNat + (byte a.m_addr.s6_addr (2 * i + 1)).toNat

/-- The eight groups of an address. -/
def groups (a : IPv6Address) : List Nat := (List.range 8).map a.group

/-! ## Groups -/

section Groups

variable (a : IPv6Address) (i : Nat)

theorem toNat_addr : (a.addr i).toNat =
    256 * (byte a.m_addr.s6_addr (2 * i + 1)).toNat + (byte a.m_addr.s6_addr (2 * i)).toNat := by
  have small := (byte a.m_addr.s6_addr (2 * i)).isLt
  rw [addr, BitVec.toNat_append, ← Nat.shiftLeft_add_eq_or_of_lt small, Nat.shiftLeft_eq, Nat.mul_comm]

theorem toNat_byteswap_addr : (byteswapOnLittleEndian 2 (a.addr i)).toNat = a.group i := by
  have lowest : (byte a.m_addr.s6_addr (2 * i)).toNat < 256 := (byte a.m_addr.s6_addr (2 * i)).isLt
  have highest : (byte a.m_addr.s6_addr (2 * i + 1)).toNat < 256 :=
    (byte a.m_addr.s6_addr (2 * i + 1)).isLt
  have swapped (value : BitVec (8 * 2)) : (byteswapOnLittleEndian 2 value).toNat =
      (value.toNat / 256 % 256 + 256 * (value.toNat % 256)) % 2 ^ 16 := rfl
  have high : (a.addr i).toNat / 256 = (byte a.m_addr.s6_addr (2 * i + 1)).toNat := by
    rw [toNat_addr]
    omega
  have low : (a.addr i).toNat % 256 = (byte a.m_addr.s6_addr (2 * i)).toNat := by
    rw [toNat_addr]
    omega
  rw [swapped, high, low, group, Nat.mod_eq_of_lt highest, Nat.mod_eq_of_lt (by omega)]
  exact Nat.add_comm ..

theorem group_lt : a.group i < 2 ^ 16 := by
  rw [← toNat_byteswap_addr]
  exact (byteswapOnLittleEndian 2 (a.addr i)).isLt

theorem addr_eq_zero_iff : a.addr i = 0 ↔ a.group i = 0 := by
  rw [← BitVec.toNat_inj, toNat_addr, group]
  constructor
  · intro zero
    have sum : 256 * (byte a.m_addr.s6_addr (2 * i + 1)).toNat +
      (byte a.m_addr.s6_addr (2 * i)).toNat = 0 := zero
    omega
  · intro zero
    have sum : 256 * (byte a.m_addr.s6_addr (2 * i + 1)).toNat +
      (byte a.m_addr.s6_addr (2 * i)).toNat = 0 := by omega
    exact sum

end Groups

/-! ## The loop -/

/-- What is printed of some groups, with `used_zeros`. -/
inductive Printed : List Nat → Bytes × Bool → Prop where
  | plain {left : List Nat} (zeros : Nat) (nonzero : ∀ value ∈ left, value ≠ 0) :
      Printed (left ++ List.replicate zeros 0) (joined (left.map hexadecimal), false)
  | short {left right : List Nat} {zeros : Nat} (some : 0 < zeros) (more : right ≠ []) :
      Printed (left ++ List.replicate zeros 0 ++ right)
        (joined (left.map hexadecimal) ++ ascii "::" ++ joined (right.map hexadecimal), true)

/-- A group behind others is printed behind a colon. -/
theorem joined_map_concat {values : List Nat} (some : values ≠ []) (value : Nat) :
    joined ((values ++ [value]).map hexadecimal) =
      joined (values.map hexadecimal) ++ ascii ":" ++ hexadecimal value := by
  rw [List.map_append, List.map_singleton, joined_concat (by simpa using some), List.append_assoc]
  rfl

theorem joined_nil : joined [] = [] := rfl

theorem joined_singleton (text : Bytes) : joined [text] = text := List.intercalate_singleton

section Round

variable {a : IPv6Address} {n : Nat} {os : Bytes}

theorem insertGroup_skip (zero : a.group n = 0) :
    insertGroup a.addr (os, false) n = (os, false) := by
  have isZero : a.addr n = 0#16 := (a.addr_eq_zero_iff n).mpr zero
  simp [insertGroup, isZero]

/-- A group that is not left out, where no group in front of it is. -/
theorem insertGroup_print {used_zeros : Bool} (printed : used_zeros = true ∨ a.group n ≠ 0)
    (closed : n ≠ 0 → used_zeros = true ∨ a.group (n - 1) ≠ 0) :
    insertGroup a.addr (os, used_zeros) n =
      ((if n ≠ 0 then os ++ ascii ":" else os) ++ hexadecimal (a.group n), used_zeros) := by
  rw [← toNat_byteswap_addr]
  simp only [ne_eq, ← a.addr_eq_zero_iff] at printed closed
  cases used_zeros with
  | true => simp [insertGroup]
  | false =>
      have nonzero : a.addr n ≠ 0#16 := by simpa using printed
      by_cases first : n = 0
      · subst first
        simp [insertGroup, nonzero]
      · have before : a.addr (n - 1) ≠ 0#16 := by simpa using closed first
        simp [insertGroup, nonzero, first, before]

/-- The first group behind zeros that are left out. -/
theorem insertGroup_open (nonzero : a.group n ≠ 0) (behind : n ≠ 0) (zero : a.group (n - 1) = 0) :
    insertGroup a.addr (os, false) n = (os ++ ascii "::" ++ hexadecimal (a.group n), true) := by
  have isZero : a.addr (n - 1) = 0#16 := (a.addr_eq_zero_iff (n - 1)).mpr zero
  have isNot : a.addr n ≠ 0#16 := mt (a.addr_eq_zero_iff n).mp nonzero
  have colons : ascii "::" = ascii ":" ++ ascii ":" := by decide
  rw [← toNat_byteswap_addr, colons]
  simp [insertGroup, isZero, isNot, behind]

/-- The last of the groups so far. -/
theorem group_of_last {values : List Nat} {value : Nat}
    (isValues : (List.range n).map a.group = values ++ [value]) : n ≠ 0 ∧ a.group (n - 1) = value := by
  cases n with
  | zero => simp at isValues
  | succ m =>
      rw [List.range_succ, List.map_append, List.map_singleton] at isValues
      have same := (List.append_inj' isValues rfl).2
      exact ⟨Nat.succ_ne_zero m, (List.cons.inj same).1⟩

theorem joined_map_range {values : List Nat} (isValues : (List.range n).map a.group = values) :
    joined ((values ++ [a.group n]).map hexadecimal) =
      (if n ≠ 0 then joined (values.map hexadecimal) ++ ascii ":" else joined (values.map hexadecimal)) ++
        hexadecimal (a.group n) := by
  subst isValues
  split
  next some =>
    apply joined_map_concat
    simpa using some
  next none =>
    rw [not_not.mp none]
    exact joined_singleton _

/-- One round of the loop prints one group more. -/
theorem printed_insertGroup {printed : Bytes × Bool}
    (before : Printed ((List.range n).map a.group) printed) :
    Printed ((List.range (n + 1)).map a.group) (insertGroup a.addr printed n) := by
  rw [List.range_succ, List.map_append, List.map_singleton]
  generalize isValues : (List.range n).map a.group = values at before
  cases before with
  | @plain left zeros nonzero =>
      by_cases zero : a.group n = 0
      · rw [insertGroup_skip zero, zero, List.append_assoc, ← List.replicate_succ']
        exact .plain (zeros + 1) nonzero
      · cases zeros with
        | zero =>
            rw [List.replicate_zero, List.append_nil] at isValues ⊢
            have members (i : Nat) (earlier : i < n) : a.group i ≠ 0 := by
              apply nonzero
              rw [← isValues]
              exact List.mem_map_of_mem (List.mem_range.mpr earlier)
            rw [insertGroup_print (.inr zero) fun behind => .inr (members (n - 1) (by omega)),
              ← joined_map_range isValues]
            have all : ∀ value ∈ left ++ [a.group n], value ≠ 0 := by
              intro value member
              rcases List.mem_append.mp member with earlier | last
              · exact nonzero value earlier
              · rwa [List.mem_singleton.mp last]
            have extended := Printed.plain 0 all
            rwa [List.replicate_zero, List.append_nil] at extended
        | succ zeros =>
            rw [List.replicate_succ', ← List.append_assoc] at isValues
            obtain ⟨behind, last⟩ := group_of_last isValues
            rw [insertGroup_open zero behind last]
            have opened : Printed (left ++ List.replicate (zeros + 1) 0 ++ [a.group n]) _ :=
              .short (Nat.succ_pos zeros) (List.cons_ne_nil (a.group n) [])
            rwa [List.map_singleton, joined_singleton] at opened
  | @short left right zeros some more =>
      have behind : n ≠ 0 := by
        rintro rfl
        simp [more] at isValues
      rw [insertGroup_print (.inl rfl) fun _ => .inl rfl, if_pos behind, List.append_assoc _ _ [_],
        List.append_assoc _ _ (ascii ":"), List.append_assoc _ _ (hexadecimal _),
        ← joined_map_concat more]
      exact .short some (List.append_ne_nil_of_left_ne_nil more _)

end Round

theorem printed_foldl (a : IPv6Address) (n : Nat) :
    Printed ((List.range n).map a.group) ((List.range n).foldl (insertGroup a.addr) ([], false)) := by
  induction n with
  | zero => exact .plain 0 fun value member => absurd member List.not_mem_nil
  | succ n ih =>
      have folded : (List.range (n + 1)).foldl (insertGroup a.addr) ([], false) =
          insertGroup a.addr ((List.range n).foldl (insertGroup a.addr) ([], false)) n := by
        rw [List.range_succ, List.foldl_append]
        rfl
      rw [folded]
      exact printed_insertGroup ih

/-! ## The literal -/

theorem groupsText_denotes (a : IPv6Address) : Denotes 8 a.groupsText a.groups := by
  have printed := printed_foldl a 8
  have length : a.groups.length = 8 := rfl
  have small : ∀ value ∈ a.groups, value < 2 ^ 16 := by
    intro value member
    obtain ⟨i, -, rfl⟩ := List.mem_map.mp member
    exact a.group_lt i
  have last : a.addr 7 = 0 ↔ a.groups.getLast? = some 0 := by
    rw [addr_eq_zero_iff]
    exact (Option.some_inj (a := a.group 7) (b := 0)).symm
  rw [groupsText]
  generalize (List.range 8).foldl (insertGroup a.addr) ([], false) = result at printed
  rw [← groups] at printed
  generalize a.groups = values at *
  cases printed with
  | @plain left zeros nonzero =>
      dsimp only
      cases zeros with
      | zero =>
          rw [List.replicate_zero, List.append_nil] at *
          have closed : a.addr 7 ≠ 0 := fun zero =>
            nonzero 0 (List.mem_of_getLast? (last.mp zero)) rfl
          rw [decide_eq_false closed, Bool.and_false, if_neg Bool.false_ne_true]
          exact .full (forall₂_hexadecimal small) length
      | succ zeros =>
          have opened : a.addr 7 = 0 := by
            rw [last, List.replicate_succ', ← List.append_assoc, List.getLast?_concat]
          have total : left.length + (zeros + 1) + 0 = 8 := by simpa using length
          have short := Denotes.short (forall₂_hexadecimal fun value member =>
            small value (List.mem_append_left _ member)) .nil (Nat.succ_pos zeros) total
          rw [decide_eq_true opened, Bool.not_false, Bool.true_and, if_pos rfl]
          rwa [List.append_nil, joined_nil, List.append_nil] at short
  | @short left right zeros some more =>
      have total : left.length + zeros + right.length = 8 := by simpa [Nat.add_assoc] using length
      dsimp only
      rw [Bool.not_true, Bool.false_and, if_neg Bool.false_ne_true]
      apply Denotes.short _ _ some total
      · exact forall₂_hexadecimal fun value member =>
          small value (List.mem_append_left _ (List.mem_append_left _ member))
      · exact forall₂_hexadecimal fun value member => small value (List.mem_append_right _ member)

/-- The groups of an address are those of its bytes alone. -/
theorem groups_injective {a b : IPv6Address} (same : a.groups = b.groups) :
    a.m_addr.s6_addr = b.m_addr.s6_addr := by
  have each (i : Nat) (inside : i < 8) : a.group i = b.group i := by
    have here := congrArg (fun groups => groups[i]?) same
    simpa [groups, inside] using here
  apply ext_byte
  intro j inside
  have group := each (j / 2) (by omega)
  have bounds (a : IPv6Address) (i : Nat) : (byte a.m_addr.s6_addr i).toNat < 256 :=
    (byte a.m_addr.s6_addr i).isLt
  have lowest := bounds a (2 * (j / 2) + 1)
  have lowest' := bounds b (2 * (j / 2) + 1)
  simp only [IPv6Address.group] at group
  apply BitVec.eq_of_toNat_eq
  rcases Nat.mod_two_eq_zero_or_one j with even | odd
  · have place : j = 2 * (j / 2) := by omega
    rw [place]
    omega
  · have place : j = 2 * (j / 2) + 1 := by omega
    rw [place]
    omega

theorem bracket_not_mem_groupsText (a : IPv6Address) : 0x5D ∉ a.groupsText := by
  intro member
  rcases a.groupsText_denotes.bytes member with colon | digit
  · exact absurd colon (by decide)
  · exact absurd digit (by decide)

/-- The text between the brackets is a part of the whole text. -/
theorem groupsText_eq_of_insert {a b : IPv6Address} (same : a.insert = b.insert) :
    a.groupsText = b.groupsText := by
  have cut (a : IPv6Address) : a.insert.tail.takeWhile (· ≠ 0x5D) = a.groupsText := by
    have all : ∀ byte ∈ a.groupsText, decide (byte ≠ 0x5D) = true := by
      intro byte member
      apply decide_eq_true
      intro bracket
      exact a.bracket_not_mem_groupsText (bracket ▸ member)
    have text : a.insert.tail = a.groupsText ++
        (ascii "]:" ++ decimal (byteswapOnLittleEndian 2 a.m_addr.sin6_port).toNat) := by
      rw [insert, List.append_assoc, List.append_assoc]
      rfl
    rw [text, List.takeWhile_append_of_pos all]
    exact List.append_nil _
  rw [← cut a, same, cut b]

/-- What is printed between the brackets denotes the address and no other. -/
theorem insert_denotes (a : IPv6Address) :
    a.insert = ascii "[" ++ a.groupsText ++ ascii "]:" ++ decimal a.getPort.toNat ∧
      0x5D ∉ a.groupsText ∧ Denotes 8 a.groupsText a.groups ∧
      (∀ groups, Denotes 8 a.groupsText groups → groups = a.groups) ∧
      ∀ b : IPv6Address, a.m_addr.s6_addr ≠ b.m_addr.s6_addr → a.insert ≠ b.insert := by
  refine ⟨?_, a.bracket_not_mem_groupsText, a.groupsText_denotes, ?_, ?_⟩
  · rw [insert, getPort, BitVec.toNat_setWidth_of_le (by omega)]
  · exact fun groups denotes => denotes.unique a.groupsText_denotes
  · intro b different same
    have texts := groupsText_eq_of_insert same
    have denotes := a.groupsText_denotes
    rw [texts] at denotes
    exact different (groups_injective (denotes.unique b.groupsText_denotes))

theorem insert_denotes_loopback :
    (ofAddress #v[0, 0, 0, 0, 0, 0, 0, 0, 0, 0, 0, 0, 0, 0, 0, 1] 80).insert ≠ new.insert :=
  (insert_denotes (ofAddress #v[0, 0, 0, 0, 0, 0, 0, 0, 0, 0, 0, 0, 0, 0, 0, 1] 80)).2.2.2.2 new
    (by decide)

example : (ofAddress #v[0x20, 0x01, 0x0d, 0xb8, 0, 0, 0, 0, 0, 1, 0, 0, 0, 0, 0, 1] 80).insert =
    ascii "[2001:db8::1:0:0:1]:80" := by decide +kernel

end Exhy.Address.IPv6Address
