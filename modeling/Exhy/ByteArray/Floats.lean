import Exhy.ByteArray.PastEnd

/-!
# Reading and writing floating-point numbers

A number is its bit pattern, which `memcpy` moves in and out of an integer.  `readFloat` reads the
integer and gives no value.
-/

namespace Exhy.ByteArray

open Library

def writeFloat (EXHY_BYTE_ORDER : Endian) (ba : ByteArray) (fresh : Nat → Nat → UInt8)
    (value : UInt32) : Except Fault ByteArray :=
  writeFuint32 EXHY_BYTE_ORDER ba fresh value

def writeDouble (EXHY_BYTE_ORDER : Endian) (ba : ByteArray) (fresh : Nat → Nat → UInt8)
    (value : UInt64) : Except Fault ByteArray :=
  writeFuint64 EXHY_BYTE_ORDER ba fresh value

/-! ## Either of them -/

/-- A pair of functions, by the type of their values. -/
inductive Precision where
  | float
  | double
  deriving DecidableEq, Repr

/-- A bit pattern with the function that it is for. -/
inductive Real where
  | float (value : UInt32)
  | double (value : UInt64)
  deriving DecidableEq, Repr

namespace Real

def precision : Real → Precision
  | float _ => .float
  | double _ => .double

def write (EXHY_BYTE_ORDER : Endian) (ba : ByteArray) (fresh : Nat → Nat → UInt8) :
    Real → Except Fault ByteArray
  | float value => writeFloat EXHY_BYTE_ORDER ba fresh value
  | double value => writeDouble EXHY_BYTE_ORDER ba fresh value

/-- The integer that a bit pattern is written as. -/
def integer : Real → Value
  | float value => .fuint32 value
  | double value => .fuint64 value

/-- What a number is on the wire. -/
def encode (endian : Endian) (value : Real) : List UInt8 := value.integer.encode endian

/-- What reading a number gives. -/
def returned : Real → Option Real
  | float _ => none
  | double value => some (.double value)

end Real

/-- What the reader gives; none where it gives no value. -/
def Precision.read (EXHY_BYTE_ORDER : Endian) (ba : ByteArray) :
    Precision → Except Fault (ByteArray × Option Real)
  | float => (readFloat EXHY_BYTE_ORDER ba).map fun after => (after, none)
  | double => (readDouble EXHY_BYTE_ORDER ba).map fun (after, value) => (after, some (.double value))

/-- The numbers, each with the contents of the nodes that its writer allocates. -/
abbrev Reals := List (Real × (Nat → Nat → UInt8))

/-- Written from the position on, the numbers are read back from there, and reading ends where
writing did. -/
def RealsComeBack (EXHY_BYTE_ORDER : Endian) (little : Bool) (ba : ByteArray) (values : Reals) :
    Prop :=
  ∃ written back after counts,
    writeAll (fun ba fresh value => value.write EXHY_BYTE_ORDER ba fresh) values
      (ba.setIsLittleEndian little) = .ok (written, counts) ∧
    written.setPosition ba.m_position = .ok back ∧
    readAll (fun precision ba => precision.read EXHY_BYTE_ORDER ba) (values.map (·.1.precision))
      back = .ok (after, values.map (fun value => some value.1), counts) ∧
    after.m_position = written.m_position

section Reals

variable {ba : ByteArray} {order endian : Endian}

/-- The number of the integer that is read. -/
def Precision.reassemble (EXHY_BYTE_ORDER : Endian) (ba : ByteArray) :
    Precision → Except Fault (ByteArray × Real)
  | float => (readFuint32 EXHY_BYTE_ORDER ba).map fun (after, value) => (after, .float value)
  | double => (readFuint64 EXHY_BYTE_ORDER ba).map fun (after, value) => (after, .double value)

theorem read_eq_map (order : Endian) (ba : ByteArray) (precision : Precision) :
    precision.read order ba =
      (precision.reassemble order ba).map (Prod.map id Real.returned) := by
  cases precision with
  | float =>
      rw [Precision.read, readFloat, Precision.reassemble]
      cases readFuint32 order ba <;> rfl
  | double =>
      rw [Precision.read, readDouble, Precision.reassemble]
      cases readFuint64 order ba <;> rfl

/-- What each reader gives of its integer, all readers give of theirs. -/
theorem readAll_eq_map (order : Endian) (precisions : List Precision) (ba : ByteArray) :
    readAll (fun precision ba => precision.read order ba) precisions ba =
      (readAll (fun precision ba => precision.reassemble order ba) precisions ba).map
        (Prod.map id (Prod.map (List.map Real.returned) id)) := by
  induction precisions generalizing ba with
  | nil => rfl
  | cons precision later ih =>
      rw [readAll, readAll, read_eq_map]
      cases precision.reassemble order ba with
      | error fault => rfl
      | ok result =>
          change (readAll _ later result.1 >>= fun _ => _) =
            (readAll _ later result.1 >>= fun _ => _).map _
          rw [ih]
          cases readAll (fun precision ba => precision.reassemble order ba) later result.1 <;> rfl

/-- A number is found as it was written. -/
theorem reassemble_real (valid : ba.Valid) (value : Real) {rest : List UInt8}
    (parts : ba.readable = value.encode ba.m_endian ++ rest) :
    ∃ after, value.precision.reassemble order ba = .ok (after, value) ∧
      Moved ba after (value.encode ba.m_endian).length := by
  cases value with
  | float value =>
      have positive : 0 < 4 := by decide
      obtain ⟨after, read, moved⟩ := readFixed_readable valid positive value.toBitVec parts
      refine ⟨after, ?_, ?_⟩
      · rw [Real.precision, Precision.reassemble, readFuint32, read]
        rfl
      · rw [Real.encode, Real.integer, Value.encode, length_memory]
        exact moved
  | double value =>
      have positive : 0 < 8 := by decide
      obtain ⟨after, read, moved⟩ := readFixed_readable valid positive value.toBitVec parts
      refine ⟨after, ?_, ?_⟩
      · rw [Real.precision, Precision.reassemble, readFuint64, read]
        rfl
      · rw [Real.encode, Real.integer, Value.encode, length_memory]
        exact moved

/-- A number is written as its integer is. -/
theorem Real.write_wrote {start : Nat} {bytes : List UInt8} (fresh : Nat → Nat → UInt8)
    (value : Real) (wrote : Wrote ba start bytes) (same : ba.m_endian = endian) :
    ∃ after, value.write order ba fresh = .ok after ∧
      Wrote after start (bytes ++ value.encode endian) ∧ after.m_endian = endian := by
  have written := ByteArray.write_wrote order fresh value.integer wrote same
  cases value <;> exact written

theorem Real.returned_eq_some_iff (value : Real) :
    value.returned = some value ↔ value.precision = .double := by
  cases value <;> simp [Real.returned, Real.precision]

/-- All readers behind the writers reach the place where the writers stopped. -/
theorem readAll_returned (valid : ba.Valid) (order : Endian) (little : Bool) (values : Reals) :
    ∃ written back after counts,
      writeAll (fun ba fresh value => value.write order ba fresh) values
        (ba.setIsLittleEndian little) = .ok (written, counts) ∧
      written.setPosition ba.m_position = .ok back ∧
      readAll (fun precision ba => precision.read order ba) (values.map (·.1.precision)) back =
        .ok (after, values.map (fun value => value.1.returned), counts) ∧
      after.m_position = written.m_position := by
  generalize starts : ba.setIsLittleEndian little = first
  have validFirst : first.Valid := starts ▸ setIsLittleEndian_valid valid little
  have position : first.m_position = ba.m_position := starts ▸ rfl
  obtain ⟨written, done, wrote, endian⟩ := writeAll_wrote
    (fun ba fresh (value : Real) => value.write order ba fresh)
    (fun ba start bytes fresh value wrote same => value.write_wrote fresh wrote same)
    (Wrote.nil validFirst) rfl values
  rw [List.nil_append] at wrote
  obtain ⟨back, rest, moved, backValid, parts, backPosition, -, -, backEndian⟩ := wrote.setPosition
  have encoded : encodeAll (Real.encode first.m_endian) values =
      (values.map Prod.fst).flatMap (Real.encode first.m_endian) := by
    rw [encodeAll, List.flatMap_map]
  rw [encoded] at parts
  have reads : ∀ value ∈ values.map Prod.fst, ∀ ba rest, ba.Valid → ba.m_endian = first.m_endian →
      ba.readable = value.encode first.m_endian ++ rest →
      rest ≠ [] ∨ True ∨ ba.m_size < ba.m_capacity →
      ∃ after, value.precision.reassemble order ba = .ok (after, value) ∧
        Moved ba after (value.encode first.m_endian).length := by
    intro value _ ba rest valid same parts _
    rw [← same] at parts ⊢
    exact reassemble_real valid value parts
  obtain ⟨after, read, movedAll⟩ := readAll_readable
    (fun precision ba => precision.reassemble order ba) Real.precision (fun _ => True)
    (fun value => encode_ne_nil first.m_endian value.integer) reads backValid
    (backEndian.trans endian) parts (.inr (.inl fun _ _ => trivial))
  rw [List.map_map, List.map_map] at read
  refine ⟨written, back, after, _, done, position ▸ moved, ?_, ?_⟩
  · rw [readAll_eq_map]
    have given := congrArg (Except.map (Prod.map id (Prod.map (List.map Real.returned) id))) read
    apply given.trans
    show Except.ok (after, (values.map Prod.fst).map Real.returned, _) = _
    rw [List.map_map]
    rfl
  · rw [movedAll.position, backPosition, wrote.position]
    exact congrArg (fun bytes => first.m_position + bytes.length) encoded.symm

/-- Only what the readers return may be another. -/
theorem realsComeBack_iff_returned (valid : ba.Valid) (order : Endian) (little : Bool)
    (values : Reals) :
    RealsComeBack order little ba values ↔
      (values.map fun value => value.1.returned) = values.map fun value => some value.1 := by
  obtain ⟨written, back, after, counts, wrote, moved, read, position⟩ :=
    readAll_returned valid order little values
  constructor
  · rintro ⟨written', back', after', counts', wrote', moved', read', -⟩
    rw [wrote] at wrote'
    cases wrote'
    rw [moved] at moved'
    cases moved'
    rw [read] at read'
    injection read' with same
    exact congrArg (fun result => result.2.1) same
  · intro same
    rw [same] at read
    exact ⟨written, back, after, counts, wrote, moved, read, position⟩

end Reals

/-- Floating-point numbers come back where they are all read by `readDouble`. -/
theorem reals_come_back_iff {ba : ByteArray} (valid : ba.Valid) (EXHY_BYTE_ORDER : Endian)
    (little : Bool) (values : Reals) :
    RealsComeBack EXHY_BYTE_ORDER little ba values ↔
      ∀ value ∈ values, value.1.precision = .double := by
  rw [realsComeBack_iff_returned valid, List.map_inj_left]
  apply forall₂_congr
  intro value _
  exact value.1.returned_eq_some_iff

/-- A negative zero and a value that is not a number, in nodes of three bytes. -/
theorem reals_come_back_iff_doubles :
    RealsComeBack .EXHY_LITTLE_ENDIAN false (new 3 fun _ => 0)
        [(.double 0x8000000000000000, fun _ _ => 0), (.double 0x7FF8000000000001, fun _ _ => 1)] ↔
      ∀ value ∈ [((.double 0x8000000000000000 : Real), fun (_ _ : Nat) => (0 : UInt8)),
          (.double 0x7FF8000000000001, fun _ _ => 1)], value.1.precision = .double :=
  reals_come_back_iff (new_valid (by decide) fun _ => 0) .EXHY_LITTLE_ENDIAN false
    [(.double 0x8000000000000000, fun _ _ => 0), (.double 0x7FF8000000000001, fun _ _ => 1)]

/-- One float is written and not returned. -/
theorem float_not_returned :
    ¬RealsComeBack .EXHY_LITTLE_ENDIAN true (new 4096 fun _ => 0)
      [(.float 0x3F800000, fun _ _ => 0)] := by
  have valid : (new 4096 fun _ => 0).Valid := new_valid (by decide) fun _ => 0
  rw [realsComeBack_iff_returned valid]
  decide

end Exhy.ByteArray
