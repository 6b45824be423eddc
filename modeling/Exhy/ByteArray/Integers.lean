import Exhy.ByteArray.Codec
import Exhy.ByteArray.Sequence

/-!
# Integers come back

What is on the wire depends on the order that the byte array is set to and not on that of the
machine, and every reader takes what the writer of its kind has written.
-/

namespace Exhy.ByteArray

open Library

/-! ## Byte orders -/

section Orders

variable {size : Nat}

theorem length_memory (order : Endian) (size : Nat) (value : BitVec (8 * size)) :
    (memory order size value).length = size := by
  cases order with
  | EXHY_LITTLE_ENDIAN => exact length_littleEndian ..
  | EXHY_BIG_ENDIAN => exact List.length_reverse.trans (length_littleEndian ..)

theorem toNat_lt_pow (value : BitVec (8 * size)) : value.toNat < 256 ^ size := by
  have bound := value.isLt
  rwa [Nat.pow_mul] at bound

/-- Reversing the bytes of a number gives the bytes of a number. -/
theorem littleEndian_byteswap (value : BitVec (8 * size)) :
    littleEndian size (byteswap size value).toNat = (littleEndian size value.toNat).reverse := by
  have length : (littleEndian size value.toNat).reverse.length = size :=
    List.length_reverse.trans (length_littleEndian ..)
  have bound := ofLittleEndian_lt (littleEndian size value.toNat).reverse
  rw [length] at bound
  have fits : ofLittleEndian (littleEndian size value.toNat).reverse < 2 ^ (8 * size) := by
    rw [Nat.pow_mul]
    exact bound
  have bytes := littleEndian_ofLittleEndian (littleEndian size value.toNat).reverse
  rw [length] at bytes
  rw [byteswap, BitVec.toNat_ofNat, Nat.mod_eq_of_lt fits, bytes]

theorem ofMemory_memory (order : Endian) (value : BitVec (8 * size)) :
    ofMemory order size (memory order size value) = value := by
  have number := ofLittleEndian_littleEndian (toNat_lt_pow value)
  cases order with
  | EXHY_LITTLE_ENDIAN => rw [ofMemory, memory, number, BitVec.ofNat_toNat, BitVec.setWidth_eq]
  | EXHY_BIG_ENDIAN =>
      rw [ofMemory, memory, List.reverse_reverse, number, BitVec.ofNat_toNat, BitVec.setWidth_eq]

theorem byteswap_byteswap (value : BitVec (8 * size)) :
    byteswap size (byteswap size value) = value := by
  have number := ofLittleEndian_littleEndian (toNat_lt_pow value)
  rw [byteswap, littleEndian_byteswap, List.reverse_reverse, number, BitVec.ofNat_toNat,
    BitVec.setWidth_eq]

/-- In another order the bytes are those of the swapped value. -/
theorem memory_byteswap {order endian : Endian} (different : endian ≠ order)
    (value : BitVec (8 * size)) :
    memory order size (byteswap size value) = memory endian size value := by
  have swapped := littleEndian_byteswap value
  cases order with
  | EXHY_LITTLE_ENDIAN =>
      cases endian with
      | EXHY_LITTLE_ENDIAN => exact absurd rfl different
      | EXHY_BIG_ENDIAN => exact swapped
  | EXHY_BIG_ENDIAN =>
      cases endian with
      | EXHY_LITTLE_ENDIAN =>
          rw [memory, memory, swapped, List.reverse_reverse]
      | EXHY_BIG_ENDIAN => exact absurd rfl different

/-- A reader swaps where the orders differ. -/
theorem ofMemory_wire (order endian : Endian) (value : BitVec (8 * size)) :
    (if endian = order then ofMemory order size (memory endian size value)
      else byteswap size (ofMemory order size (memory endian size value))) = value := by
  split
  next same => rw [← same, ofMemory_memory]
  next different => rw [← memory_byteswap different, ofMemory_memory, byteswap_byteswap]

end Orders

/-! ## The wire -/

/-- What a value is on the wire. -/
def Value.encode (endian : Endian) : Value → List UInt8
  | .fint8 value => [value.toUInt8]
  | .fuint8 value => [value]
  | .fint16 value => memory endian 2 value.toBitVec
  | .fuint16 value => memory endian 2 value.toBitVec
  | .fint32 value => memory endian 4 value.toBitVec
  | .fuint32 value => memory endian 4 value.toBitVec
  | .fint64 value => memory endian 8 value.toBitVec
  | .fuint64 value => memory endian 8 value.toBitVec
  | .int32 value => (groups 5 (EncodeZigzag32 value).toNat).getD []
  | .uint32 value => (groups 5 value.toNat).getD []
  | .int64 value => (groups 10 (EncodeZigzag64 value).toNat).getD []
  | .uint64 value => (groups 10 value.toNat).getD []

/-- How many bytes a value of a kind can take. -/
def Kind.Takes : Kind → Nat → Prop
  | .fint8, count | .fuint8, count => count = 1
  | .fint16, count | .fuint16, count => count = 2
  | .fint32, count | .fuint32, count => count = 4
  | .fint64, count | .fuint64, count => count = 8
  | .int32, count | .uint32, count => 1 ≤ count ∧ count ≤ 5
  | .int64, count | .uint64, count => 1 ≤ count ∧ count ≤ 10

theorem groups_uint32 (value : UInt32) : ∃ bytes, groups 5 value.toNat = some bytes ∧
    1 ≤ bytes.length ∧ bytes.length ≤ 5 :=
  groups_isSome (by decide) (Nat.lt_trans value.toNat_lt (by decide))

theorem groups_uint64 (value : UInt64) : ∃ bytes, groups 10 value.toNat = some bytes ∧
    1 ≤ bytes.length ∧ bytes.length ≤ 10 :=
  groups_isSome (by decide) (Nat.lt_trans value.toNat_lt (by decide))

theorem takes_encode (endian : Endian) (value : Value) :
    value.kind.Takes (value.encode endian).length := by
  cases value with
  | fint8 | fuint8 => rfl
  | fint16 | fuint16 | fint32 | fuint32 | fint64 | fuint64 => exact length_memory ..
  | int32 value =>
      obtain ⟨bytes, grouped, bounds⟩ := groups_uint32 (EncodeZigzag32 value)
      rw [Value.encode, grouped]
      exact bounds
  | uint32 value =>
      obtain ⟨bytes, grouped, bounds⟩ := groups_uint32 value
      rw [Value.encode, grouped]
      exact bounds
  | int64 value =>
      obtain ⟨bytes, grouped, bounds⟩ := groups_uint64 (EncodeZigzag64 value)
      rw [Value.encode, grouped]
      exact bounds
  | uint64 value =>
      obtain ⟨bytes, grouped, bounds⟩ := groups_uint64 value
      rw [Value.encode, grouped]
      exact bounds

theorem encode_ne_nil (endian : Endian) (value : Value) : value.encode endian ≠ [] := by
  have takes := takes_encode endian value
  intro nothing
  rw [nothing] at takes
  cases value with
  | fint8 | fuint8 | fint16 | fuint16 | fint32 | fuint32 | fint64 | fuint64 => cases takes
  | int32 | uint32 | int64 | uint64 => exact absurd takes.1 (by decide)

/-! ## One value -/

section One

variable {order : Endian} {ba : ByteArray} {fresh : Nat → Nat → UInt8} {rest : List UInt8}

theorem writeFixed_eq (size : Nat) (value : BitVec (8 * size)) :
    writeFixed order ba fresh size value = ba.write fresh (memory ba.m_endian size value) := by
  rw [writeFixed]
  split
  next different => rw [memory_byteswap different]
  next same => rw [not_not.mp same]

theorem writeGroups_eq {room value : Nat} (fits : (groups room value).isSome = true) :
    writeGroups ba fresh room value = ba.write fresh ((groups room value).getD []) := by
  obtain ⟨bytes, grouped⟩ := Option.isSome_iff_exists.mp fits
  rw [writeGroups, grouped]
  rfl

/-- Every writer writes what its value is on the wire. -/
theorem write_eq (value : Value) :
    value.write order ba fresh = ba.write fresh (value.encode ba.m_endian) := by
  have fits32 : ∀ number : UInt32, (groups 5 number.toNat).isSome = true := fun number => by
    obtain ⟨bytes, grouped, -⟩ := groups_uint32 number
    rw [grouped]
    rfl
  have fits64 : ∀ number : UInt64, (groups 10 number.toNat).isSome = true := fun number => by
    obtain ⟨bytes, grouped, -⟩ := groups_uint64 number
    rw [grouped]
    rfl
  cases value with
  | fint8 | fuint8 => rfl
  | fint16 | fuint16 | fint32 | fuint32 | fint64 | fuint64 => exact writeFixed_eq ..
  | int32 | uint32 => exact writeGroups_eq (fits32 _)
  | int64 | uint64 => exact writeGroups_eq (fits64 _)

theorem readFuint8_readable (valid : ba.Valid) {byte : UInt8} (parts : ba.readable = byte :: rest) :
    ∃ after, ba.readFuint8 = .ok (after, byte) ∧ Moved ba after 1 := by
  obtain ⟨after, done, moved⟩ := read_readable valid (List.cons_ne_nil byte []) parts
  have read : ba.read 1 = .ok (after, [byte]) := done
  refine ⟨after, ?_, moved⟩
  rw [readFuint8, read]
  rfl

theorem gives_readable (valid : ba.Valid) {bytes : List UInt8} (parts : ba.readable = bytes ++ rest) :
    ∃ after, Gives readFuint8 ba bytes after ∧ Moved ba after bytes.length := by
  induction bytes generalizing ba with
  | nil => exact ⟨ba, rfl, valid, rfl, rfl, rfl, rfl, rfl⟩
  | cons byte later ih =>
      obtain ⟨next, done, moved⟩ := readFuint8_readable valid parts
      have here : ba.readable = [byte] ++ (later ++ rest) := parts
      have behind : next.readable = later ++ rest := Moved.readable moved here
      obtain ⟨after, gives, movedAll⟩ := ih moved.valid behind
      refine ⟨after, ⟨next, done, gives⟩, ?_⟩
      rw [List.length_cons, Nat.add_comm]
      exact moved.trans movedAll

theorem readFixed_readable (valid : ba.Valid) {size : Nat} (positive : 0 < size)
    (value : BitVec (8 * size)) (parts : ba.readable = memory ba.m_endian size value ++ rest) :
    ∃ after, readFixed order ba size = .ok (after, value) ∧ Moved ba after size := by
  have length := length_memory ba.m_endian size value
  have nonempty : memory ba.m_endian size value ≠ [] :=
    List.ne_nil_of_length_pos (by rw [length]; exact positive)
  obtain ⟨after, done, moved⟩ := read_readable valid nonempty parts
  rw [length] at done moved
  refine ⟨after, ?_, moved⟩
  rw [readFixed, done]
  exact congrArg (fun number => Except.ok (after, number)) (ofMemory_wire ..)

theorem readGroups_readable (valid : ba.Valid) {width room value : Nat} (fits : value < 2 ^ width)
    {bytes : List UInt8} (grouped : groups room value = some bytes) (short : bytes.length ≤ room)
    (parts : ba.readable = bytes ++ rest) :
    ∃ after, readGroups readFuint8 width room 0 (BitVec.ofNat width 0) ba =
        .ok (after, BitVec.ofNat width value) ∧
      Moved ba after bytes.length := by
  obtain ⟨after, gives, moved⟩ := gives_readable valid parts
  have below : (BitVec.ofNat width 0).toNat < 2 ^ 0 := by simp
  have fitsToo : value * 2 ^ 0 < 2 ^ width := by rwa [Nat.pow_zero, Nat.mul_one]
  obtain ⟨number, read, total⟩ := readGroups_groups readFuint8 grouped short gives below fitsToo
  have same : number = BitVec.ofNat width value := by
    apply BitVec.eq_of_toNat_eq
    rw [total, BitVec.toNat_ofNat, BitVec.toNat_ofNat, Nat.mod_eq_of_lt fits, Nat.zero_mod,
      Nat.zero_add, Nat.pow_zero, Nat.mul_one]
  rw [same] at read
  exact ⟨after, read, moved⟩

theorem readUint32_readable (valid : ba.Valid) (value : UInt32)
    (parts : ba.readable = (groups 5 value.toNat).getD [] ++ rest) :
    ∃ after, ba.readUint32 = .ok (after, value) ∧
      Moved ba after ((groups 5 value.toNat).getD []).length := by
  obtain ⟨bytes, grouped, -, short⟩ := groups_uint32 value
  rw [grouped, Option.getD_some] at parts ⊢
  obtain ⟨after, read, moved⟩ := readGroups_readable valid value.toNat_lt grouped short parts
  refine ⟨after, ?_, moved⟩
  rw [readUint32, read]
  exact congrArg (fun number => Except.ok (after, UInt32.ofBitVec number)) (BitVec.ofNat_toNat ..)

theorem readUint64_readable (valid : ba.Valid) (value : UInt64)
    (parts : ba.readable = (groups 10 value.toNat).getD [] ++ rest) :
    ∃ after, ba.readUint64 = .ok (after, value) ∧
      Moved ba after ((groups 10 value.toNat).getD []).length := by
  obtain ⟨bytes, grouped, -, short⟩ := groups_uint64 value
  rw [grouped, Option.getD_some] at parts ⊢
  obtain ⟨after, read, moved⟩ := readGroups_readable valid value.toNat_lt grouped short parts
  refine ⟨after, ?_, moved⟩
  rw [readUint64, read]
  exact congrArg (fun number => Except.ok (after, UInt64.ofBitVec number)) (BitVec.ofNat_toNat ..)

/-- Every reader takes what its value is on the wire. -/
theorem read_value (order : Endian) (valid : ba.Valid) (value : Value)
    (parts : ba.readable = value.encode ba.m_endian ++ rest) :
    ∃ after, value.kind.read order ba = .ok (after, value) ∧
      Moved ba after (value.encode ba.m_endian).length := by
  have fixed : ∀ (size : Nat) (number : BitVec (8 * size)), 0 < size →
      ba.readable = memory ba.m_endian size number ++ rest →
      ∃ after, readFixed order ba size = .ok (after, number) ∧
        Moved ba after (memory ba.m_endian size number).length := by
    intro size number positive parts
    rw [length_memory]
    exact readFixed_readable valid positive number parts
  cases value with
  | fint8 value =>
      obtain ⟨after, read, moved⟩ := read_readable valid (List.cons_ne_nil _ []) parts
      have byte : ba.read 1 = .ok (after, [value.toUInt8]) := read
      refine ⟨after, ?_, moved⟩
      rw [Value.kind, Kind.read, readFint8, byte]
      rfl
  | fuint8 value =>
      obtain ⟨after, read, moved⟩ := readFuint8_readable valid parts
      refine ⟨after, ?_, moved⟩
      rw [Value.kind, Kind.read, read]
      rfl
  | fint16 value | fuint16 value | fint32 value | fuint32 value | fint64 value | fuint64 value =>
      obtain ⟨after, read, moved⟩ := fixed _ _ (by decide) parts
      refine ⟨after, ?_, moved⟩
      simp only [Value.kind, Kind.read, readFint16, readFuint16, readFint32, readFuint32, readFint64,
        readFuint64, read]
      rfl
  | int32 value =>
      obtain ⟨after, read, moved⟩ := readUint32_readable valid _ parts
      refine ⟨after, ?_, moved⟩
      rw [Value.kind, Kind.read, readInt32, read]
      exact congrArg (fun number => Except.ok (after, Value.int32 (.ofBitVec number)))
        (unzigzag_zigzag (by decide) value.toBitVec)
  | uint32 value =>
      obtain ⟨after, read, moved⟩ := readUint32_readable valid _ parts
      refine ⟨after, ?_, moved⟩
      rw [Value.kind, Kind.read, read]
      rfl
  | int64 value =>
      obtain ⟨after, read, moved⟩ := readUint64_readable valid _ parts
      refine ⟨after, ?_, moved⟩
      rw [Value.kind, Kind.read, readInt64, read]
      exact congrArg (fun number => Except.ok (after, Value.int64 (.ofBitVec number)))
        (unzigzag_zigzag (by decide) value.toBitVec)
  | uint64 value =>
      obtain ⟨after, read, moved⟩ := readUint64_readable valid _ parts
      refine ⟨after, ?_, moved⟩
      rw [Value.kind, Kind.read, read]
      rfl

end One

/-! ## Lists of values -/

theorem write_wrote (order : Endian) {endian : Endian} {ba : ByteArray} {start : Nat} {bytes : List UInt8}
    (fresh : Nat → Nat → UInt8) (value : Value) (wrote : Wrote ba start bytes)
    (same : ba.m_endian = endian) :
    ∃ after, value.write order ba fresh = .ok after ∧
      Wrote after start (bytes ++ value.encode endian) ∧ after.m_endian = endian := by
  obtain ⟨after, done, wroteToo, sameToo⟩ := wrote.write fresh (value.encode ba.m_endian)
  rw [write_eq, ← same]
  exact ⟨after, done, wroteToo, sameToo⟩

/-- Whatever integers are written from any position on, in either order: from that position the
readers of the same kinds give the same values, and each takes the bytes that its writer made. -/
theorem integers_come_back {ba : ByteArray} (valid : ba.Valid) (EXHY_BYTE_ORDER : Endian)
    (little : Bool) (values : List (Value × (Nat → Nat → UInt8))) :
    ∃ written back after counts,
      writeAll (fun ba fresh value => value.write EXHY_BYTE_ORDER ba fresh) values
        (ba.setIsLittleEndian little) = .ok (written, counts) ∧
      written.setPosition ba.m_position = .ok back ∧
      readAll (fun kind ba => kind.read EXHY_BYTE_ORDER ba) (values.map (·.1.kind)) back =
        .ok (after, values.map Prod.fst, counts) ∧
      after.m_position = written.m_position ∧
      List.Forall₂ (fun value count => value.1.kind.Takes count) values counts := by
  generalize starts : ba.setIsLittleEndian little = first
  have validFirst : first.Valid := starts ▸ setIsLittleEndian_valid valid little
  have position : first.m_position = ba.m_position := starts ▸ rfl
  obtain ⟨written, done, wrote, endian⟩ := writeAll_wrote
    (fun ba fresh (value : Value) => value.write EXHY_BYTE_ORDER ba fresh)
    (fun ba start bytes fresh value wrote same =>
      write_wrote EXHY_BYTE_ORDER fresh value wrote same)
    (Wrote.nil validFirst) rfl values
  rw [List.nil_append] at wrote
  obtain ⟨back, rest, moved, backValid, parts, backPosition, -, -, backEndian⟩ := wrote.setPosition
  have encoded : encodeAll (Value.encode first.m_endian) values =
      (values.map Prod.fst).flatMap (Value.encode first.m_endian) := by
    rw [encodeAll, List.flatMap_map]
  rw [encoded] at parts
  have reads : ∀ value ∈ values.map Prod.fst, ∀ ba rest, ba.Valid → ba.m_endian = first.m_endian →
      ba.readable = value.encode first.m_endian ++ rest →
      rest ≠ [] ∨ True ∨ ba.m_size < ba.m_capacity →
      ∃ after, value.kind.read EXHY_BYTE_ORDER ba = .ok (after, value) ∧
        Moved ba after (value.encode first.m_endian).length := by
    intro value _ ba rest valid same parts _
    rw [← same] at parts ⊢
    exact read_value EXHY_BYTE_ORDER valid value parts
  obtain ⟨after, read, movedAll⟩ := readAll_readable
    (fun kind ba => kind.read EXHY_BYTE_ORDER ba) Value.kind (fun _ => True)
    (encode_ne_nil first.m_endian) reads backValid (backEndian.trans endian) parts (.inr (.inl fun _ _ => trivial))
  refine ⟨written, back, after, _, done, position ▸ moved, ?_, ?_, ?_⟩
  · rw [List.map_map] at read
    rw [List.map_map] at read
    exact read
  · rw [movedAll.position, backPosition, wrote.position, encoded]
  · rw [List.forall₂_map_right_iff]
    exact List.forall₂_same.mpr fun value _ => takes_encode first.m_endian value.1

/-- Nodes of three bytes. -/
theorem integers_come_back_mixed :
    ∃ written back after counts,
      writeAll (fun ba fresh (value : Value) => value.write .EXHY_LITTLE_ENDIAN ba fresh)
        [(.fint16 (-2), fun _ _ => 0), (.int32 (-2147483648), fun _ _ => 1),
          (.uint64 300, fun _ _ => 2)]
        ((new 3 fun _ => 0).setIsLittleEndian true) = .ok (written, counts) ∧
      written.setPosition 0 = .ok back ∧
      readAll (fun (kind : Kind) ba => kind.read .EXHY_LITTLE_ENDIAN ba) [.fint16, .int32, .uint64] back =
        .ok (after, [.fint16 (-2), .int32 (-2147483648), .uint64 300], counts) ∧
      after.m_position = written.m_position ∧
      List.Forall₂ (fun (value : Value × (Nat → Nat → UInt8)) count => value.1.kind.Takes count)
        [(.fint16 (-2), fun _ _ => 0), (.int32 (-2147483648), fun _ _ => 1),
          (.uint64 300, fun _ _ => 2)] counts :=
  integers_come_back (new_valid (by decide) fun _ => 0) .EXHY_LITTLE_ENDIAN true
    [(.fint16 (-2), fun _ _ => 0), (.int32 (-2147483648), fun _ _ => 1), (.uint64 300, fun _ _ => 2)]

end Exhy.ByteArray
