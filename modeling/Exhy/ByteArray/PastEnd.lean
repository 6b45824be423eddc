import Exhy.ByteArray.ReadBuffers

/-!
# Reading past the end

The comments of `exhy_bytearray.h` promise `std::out_of_range` where fewer bytes are left than a
reader needs.  Every reader ends in `read`, which looks at the nodes and not at `m_size`.
-/

namespace Exhy.ByteArray

open Library

/-! ## Every reader -/

/-- The function has no return statement: what it does to the array is all there is. -/
def readFloat (EXHY_BYTE_ORDER : Endian) (ba : ByteArray) : Except Fault ByteArray :=
  (readFuint32 EXHY_BYTE_ORDER ba).map Prod.fst

/-- The bits of the `double`. -/
def readDouble (EXHY_BYTE_ORDER : Endian) (ba : ByteArray) : Except Fault (ByteArray × UInt64) :=
  readFuint64 EXHY_BYTE_ORDER ba

/-- `read(buf, size)` and the functions above it. -/
inductive Reader where
  | raw (size : Nat)
  | integer (kind : Kind)
  | float
  | double
  | string (form : Prefix)
  deriving DecidableEq

/-- The array that a reader leaves. -/
def Reader.run (EXHY_BYTE_ORDER : Endian) (ba : ByteArray) : Reader → Except Fault ByteArray
  | raw size => (ba.read size).map Prod.fst
  | integer kind => (kind.read EXHY_BYTE_ORDER ba).map Prod.fst
  | float => readFloat EXHY_BYTE_ORDER ba
  | double => (readDouble EXHY_BYTE_ORDER ba).map Prod.fst
  | string form => (form.read EXHY_BYTE_ORDER ba).map Prod.fst

/-! ## What a reader needs of the bytes it finds -/

/-- A varint of at most `rounds` bytes ends with the first one below `0x80`. -/
def groupsLength (rounds : Nat) (bytes : List UInt8) : Nat :=
  min rounds ((bytes.takeWhile (0x80 ≤ ·)).length + 1)

def Kind.needs (bytes : List UInt8) : Kind → Nat
  | fint8 | fuint8 => 1
  | fint16 | fuint16 => 2
  | fint32 | fuint32 => 4
  | fint64 | fuint64 => 8
  | int32 | uint32 => groupsLength 5 bytes
  | int64 | uint64 => groupsLength 10 bytes

/-- The integer in front of a string. -/
def Prefix.kind : Prefix → Kind
  | F16 => .fuint16
  | F32 => .fuint32
  | F64 => .fuint64
  | Vint => .uint64

/-- The first of some bytes. -/
def uncons : List UInt8 → Except Unit (List UInt8 × UInt8)
  | [] => .error ()
  | byte :: rest => .ok (rest, byte)

/-- The length that stands in front of a string. -/
def Prefix.length (endian : Endian) (bytes : List UInt8) : Prefix → Nat
  | F16 => (ofMemory endian 2 (bytes.take 2)).toNat
  | F32 => (ofMemory endian 4 (bytes.take 4)).toNat
  | F64 => (ofMemory endian 8 (bytes.take 8)).toNat
  | Vint =>
      match readGroups uncons 64 10 0 0#64 bytes with
      | .error _ => 0
      | .ok (_, length) => length.toNat

def Reader.needs (endian : Endian) (bytes : List UInt8) : Reader → Nat
  | raw size => size
  | integer kind => kind.needs bytes
  | float => 4
  | double => 8
  | string form => form.kind.needs bytes + form.length endian bytes

/-- Fewer bytes than the reader needs remain before `m_size`. -/
def Reader.Short (ba : ByteArray) (reader : Reader) : Prop :=
  ba.readable.length < reader.needs ba.m_endian ba.readable

instance (ba : ByteArray) (reader : Reader) : Decidable (reader.Short ba) :=
  inferInstanceAs (Decidable (_ < _))

/-- The reader throws; what it read up to there is rolled back. -/
def Reader.Throws (EXHY_BYTE_ORDER : Endian) (ba : ByteArray) (reader : Reader) : Prop :=
  ∃ what, reader.run EXHY_BYTE_ORDER ba = .error (.outOfRange what)

/-! ## No reader throws -/

section Faults

variable {ba : ByteArray} {fault : Fault} (EXHY_BYTE_ORDER : Endian)

theorem readLoop_fault {chain : List Node} {pos_cnode m_position size : Nat}
    (failed : readLoop chain pos_cnode m_position size = .error fault) : fault = .nullNode := by
  induction chain generalizing pos_cnode m_position size with
  | nil =>
      cases size with
      | zero => cases failed
      | succ size =>
          cases failed
          rfl
  | cons cur rest ih =>
      cases size with
      | zero => cases failed
      | succ size =>
          rw [readLoop] at failed
          split at failed
          next => cases failed
          next =>
            split at failed
            next later =>
              cases failed
              exact ih later
            next => cases failed

theorem read_fault {size : Nat} (failed : ba.read size = .error fault) : fault = .nullNode := by
  rw [read] at failed
  split at failed
  next =>
    cases failed
    rfl
  next =>
    split at failed
    next loop =>
      cases failed
      exact readLoop_fault loop
    next => cases failed

theorem fault_of_map {α β : Type} {result : Except Fault α} {f : α → β}
    (failed : result.map f = .error fault) : result = .error fault := by
  cases result with
  | error other =>
      cases failed
      rfl
  | ok value => cases failed

theorem readFixed_fault {size : Nat} (failed : readFixed EXHY_BYTE_ORDER ba size = .error fault) :
    fault = .nullNode :=
  read_fault (fault_of_map failed)

theorem readGroups_fault {width rounds i : Nat} {result : BitVec width}
    (failed : readGroups readFuint8 width rounds i result ba = .error fault) :
    fault = .nullNode := by
  induction rounds generalizing i result ba with
  | zero => cases failed
  | succ rounds ih =>
      rw [readGroups] at failed
      cases first : ba.readFuint8 with
      | error other =>
          rw [first] at failed
          cases failed
          exact read_fault (fault_of_map first)
      | ok next =>
          rw [first] at failed
          dsimp only at failed
          split at failed
          next => cases failed
          next => exact ih failed

theorem Kind.read_fault {kind : Kind} (failed : kind.read EXHY_BYTE_ORDER ba = .error fault) :
    fault = .nullNode := by
  cases kind with
  | fint8 | fuint8 => exact ByteArray.read_fault (fault_of_map (fault_of_map failed))
  | fint16 | fuint16 | fint32 | fuint32 | fint64 | fuint64 =>
      exact readFixed_fault _ (fault_of_map (fault_of_map failed))
  | int32 | int64 => exact readGroups_fault (fault_of_map (fault_of_map (fault_of_map failed)))
  | uint32 | uint64 => exact readGroups_fault (fault_of_map (fault_of_map failed))

theorem readString_fault {readSize : ByteArray → Except Fault (ByteArray × Nat)}
    (failed : readString readSize ba = .error fault)
    (first : readSize ba = .error fault → fault = .nullNode) : fault = .nullNode := by
  rw [readString] at failed
  split at failed
  next size =>
    cases failed
    exact first size
  next => exact read_fault failed

theorem Prefix.read_fault {form : Prefix} (failed : form.read EXHY_BYTE_ORDER ba = .error fault) :
    fault = .nullNode := by
  have inner := fault_of_map failed
  cases form with
  | F16 | F32 | F64 =>
      apply readString_fault inner
      intro size
      exact readFixed_fault _ (fault_of_map (fault_of_map size))
  | Vint =>
      apply readString_fault inner
      intro size
      exact readGroups_fault (fault_of_map (fault_of_map size))

theorem Reader.run_fault {reader : Reader}
    (failed : reader.run EXHY_BYTE_ORDER ba = .error fault) : fault = .nullNode := by
  cases reader with
  | raw size => exact read_fault (fault_of_map failed)
  | integer kind => exact Kind.read_fault _ (fault_of_map failed)
  | float | double => exact readFixed_fault _ (fault_of_map (fault_of_map failed))
  | string form => exact Prefix.read_fault _ (fault_of_map failed)

theorem Reader.not_throws {reader : Reader} : ¬ reader.Throws EXHY_BYTE_ORDER ba := by
  rintro ⟨what, thrown⟩
  cases run_fault EXHY_BYTE_ORDER thrown

end Faults

/-! ## How far a reader comes -/

/-- What a call that only reads changes. -/
structure Went (ba after : ByteArray) (count : Nat) : Prop where
  layout : after.Layout
  position : after.m_position = ba.m_position + count
  nodes : after.nodes = ba.nodes
  size : after.m_size = ba.m_size
  endian : after.m_endian = ba.m_endian

/-- A call that needs `needs` bytes took them, or it took more than there were. -/
structure Took (ba after : ByteArray) (needs : Nat) : Prop where
  went : ∃ count, Went ba after count ∧ (needs ≤ ba.readable.length → count = needs) ∧
    (ba.readable.length < needs → ba.readable.length < count)

section Way

variable {ba middle after : ByteArray} {order : Endian}

theorem Went.trans {first second : Nat} (went : Went ba middle first)
    (onward : Went middle after second) : Went ba after (first + second) where
  layout := onward.layout
  position := by rw [onward.position, went.position, Nat.add_assoc]
  nodes := onward.nodes.trans went.nodes
  size := onward.size.trans went.size
  endian := onward.endian.trans went.endian

theorem Went.readable {count : Nat} (went : Went ba after count) :
    after.readable = ba.readable.drop count := by
  rw [ByteArray.readable, ByteArray.readable, went.nodes, went.size, went.position,
    ← List.drop_drop]

theorem Went.nil (layout : ba.Layout) : Went ba ba 0 where
  layout := layout
  position := rfl
  nodes := rfl
  size := rfl
  endian := rfl

theorem Layout.length_readable (layout : ba.Layout) :
    ba.readable.length = ba.m_size - ba.m_position := by
  have length : (contents ba.nodes).length = ba.m_capacity := layout.raised.contents_length
  rw [ByteArray.readable, List.length_drop, List.length_take, length,
    Nat.min_eq_left layout.size_le]

theorem Layout.read_went (layout : ba.Layout) {size : Nat} {bytes : List UInt8}
    (done : ba.read size = .ok (after, bytes)) :
    Went ba after size ∧ (size ≤ ba.readable.length → bytes = ba.readable.take size) := by
  have afterLayout := layout.read done
  obtain ⟨-, -, rfl, rfl⟩ := layout.hasRead done
  refine ⟨⟨afterLayout, rfl, rfl, rfl, rfl⟩, fun enough => ?_⟩
  rw [layout.length_readable] at enough
  rw [ByteArray.readable, List.drop_take, List.take_take, Nat.min_eq_left enough]

theorem Went.took {needs : Nat} (went : Went ba after needs) : Took ba after needs where
  went := ⟨needs, went, fun _ => rfl, id⟩

/-- A call and another one behind it. -/
theorem Took.trans {first second : Nat} (took : Took ba middle first)
    (onward : first ≤ ba.readable.length → Took middle after second)
    (layout : ba.readable.length < first → ∃ count, Went middle after count) :
    Took ba after (first + second) := by
  obtain ⟨count, went, enough, short⟩ := took.went
  by_cases whole : first ≤ ba.readable.length
  · obtain ⟨more, wentOn, enoughToo, shortToo⟩ := (onward whole).went
    have left : middle.readable.length = ba.readable.length - first := by
      rw [went.readable, List.length_drop, enough whole]
    refine ⟨count + more, went.trans wentOn, ?_, ?_⟩
    · intro all
      rw [enough whole, enoughToo (by omega)]
    · intro less
      have beyond := shortToo (by omega)
      have same := enough whole
      omega
  · obtain ⟨more, wentOn⟩ := layout (by omega)
    have beyond := short (by omega)
    exact ⟨count + more, went.trans wentOn, by omega, by omega⟩

theorem ok_of_map {α β : Type} {result : Except Fault (ByteArray × α)} {value : β}
    {f : ByteArray × α → ByteArray × β} (done : result.map f = .ok (after, value))
    (keeps : ∀ pair, (f pair).1 = pair.1) :
    ∃ own, result = .ok (after, own) ∧ f (after, own) = (after, value) := by
  obtain ⟨⟨last, own⟩, isDone, same⟩ := eq_ok_of_map done
  have first := congrArg Prod.fst same
  rw [keeps] at first
  cases first
  exact ⟨own, isDone, same⟩

/-! ### Fixed widths -/

theorem memory_ofMemory {size : Nat} (endian : Endian) {bytes : List UInt8}
    (length : bytes.length = size) : memory endian size (ofMemory endian size bytes) = bytes := by
  have number : ∀ bytes : List UInt8, bytes.length = size →
      littleEndian size (BitVec.ofNat (8 * size) (ofLittleEndian bytes)).toNat = bytes := by
    rintro bytes rfl
    have small := ofLittleEndian_lt bytes
    rw [show (256 : Nat) = 2 ^ 8 from rfl, ← Nat.pow_mul] at small
    rw [BitVec.toNat_ofNat, Nat.mod_eq_of_lt small, littleEndian_ofLittleEndian]
  cases endian with
  | EXHY_LITTLE_ENDIAN => exact number bytes length
  | EXHY_BIG_ENDIAN =>
      rw [memory, ofMemory, number _ (List.length_reverse.trans length), List.reverse_reverse]

theorem Layout.readFixed (layout : ba.Layout) {size : Nat} {value : BitVec (8 * size)}
    (done : ba.readFixed order size = .ok (after, value)) :
    Went ba after size ∧ (size ≤ ba.readable.length →
      value = ofMemory ba.m_endian size (ba.readable.take size)) := by
  rw [ByteArray.readFixed] at done
  obtain ⟨bytes, read, same⟩ := ok_of_map done fun _ => rfl
  obtain ⟨went, isBytes⟩ := layout.read_went read
  refine ⟨went, fun enough => ?_⟩
  have length : bytes.length = size := by
    rw [isBytes enough, List.length_take, Nat.min_eq_left enough]
  have wire := ofMemory_wire order ba.m_endian (ofMemory ba.m_endian size bytes)
  rw [memory_ofMemory _ length] at wire
  rw [← isBytes enough, ← wire]
  exact (congrArg Prod.snd same).symm

/-! ### Varints -/

theorem Layout.readFuint8 (layout : ba.Layout) {byte : UInt8}
    (done : ba.readFuint8 = .ok (after, byte)) :
    Went ba after 1 ∧ (1 ≤ ba.readable.length → ba.readable = byte :: after.readable) := by
  rw [ByteArray.readFuint8] at done
  obtain ⟨bytes, read, same⟩ := ok_of_map done fun _ => rfl
  obtain ⟨went, isBytes⟩ := layout.read_went read
  refine ⟨went, fun enough => ?_⟩
  have isByte : bytes.headD 0 = byte := congrArg Prod.snd same
  rw [isBytes enough] at isByte
  rw [went.readable]
  cases readable : ba.readable with
  | nil =>
      rw [readable] at enough
      cases enough
  | cons head rest =>
      rw [readable] at isByte
      exact congrArg (· :: rest) isByte

theorem groupsLength_nil (rounds : Nat) : groupsLength (rounds + 1) [] = 1 :=
  Nat.min_eq_right (Nat.succ_pos rounds)

theorem groupsLength_last (rounds : Nat) {byte : UInt8} (last : byte < 0x80) (rest : List UInt8) :
    groupsLength (rounds + 1) (byte :: rest) = 1 := by
  have stops : ¬ 0x80 ≤ byte := UInt8.not_le.mpr last
  rw [groupsLength, List.takeWhile_cons, if_neg (by simpa using stops)]
  exact Nat.min_eq_right (Nat.succ_pos rounds)

theorem groupsLength_more (rounds : Nat) {byte : UInt8} (more : ¬ byte < 0x80)
    (rest : List UInt8) :
    groupsLength (rounds + 1) (byte :: rest) = 1 + groupsLength rounds rest := by
  have goesOn : 0x80 ≤ byte := UInt8.not_lt.mp more
  rw [groupsLength, List.takeWhile_cons, if_pos (by simpa using goesOn), groupsLength,
    List.length_cons, Nat.add_comm 1]
  exact (Nat.succ_min_succ ..)

/-- The loop takes the bytes of the varint; where they are all there, it makes their number. -/
theorem Layout.readGroups (layout : ba.Layout) {width rounds i : Nat}
    {result number : BitVec width}
    (done : Library.readGroups ByteArray.readFuint8 width rounds i result ba = .ok (after, number)) :
    Took ba after (groupsLength rounds ba.readable) ∧
      (groupsLength rounds ba.readable ≤ ba.readable.length →
        ∃ rest, Library.readGroups uncons width rounds i result ba.readable = .ok (rest, number)) := by
  induction rounds generalizing ba i result with
  | zero =>
      cases done
      rw [groupsLength, Nat.zero_min]
      exact ⟨(Went.nil layout).took, fun _ => ⟨_, rfl⟩⟩
  | succ rounds ih =>
      rw [Library.readGroups] at done
      cases first : ba.readFuint8 with
      | error fault =>
          rw [first] at done
          cases done
      | ok pair =>
          obtain ⟨next, byte⟩ := pair
          rw [first] at done
          dsimp only at done
          obtain ⟨went, isByte⟩ := layout.readFuint8 first
          cases readable : ba.readable with
          | nil =>
              -- there is no byte of the varint, whatever the loop makes of what it finds
              have reached : ∃ count, Went next after count := by
                split at done
                next =>
                  cases done
                  exact ⟨0, Went.nil went.layout⟩
                next =>
                  obtain ⟨count, wentOn, -⟩ := (ih went.layout done).1.went
                  exact ⟨count, wentOn⟩
              obtain ⟨count, wentOn⟩ := reached
              rw [groupsLength_nil]
              refine ⟨⟨⟨1 + count, went.trans wentOn, ?_, ?_⟩⟩, ?_⟩
              · intro enough
                rw [readable] at enough
                cases enough
              · intro short
                rw [readable]
                exact Nat.add_pos_left Nat.one_pos count
              · intro enough
                cases enough
          | cons head rest =>
              have parts : ba.readable = byte :: next.readable := by
                apply isByte
                rw [readable]
                exact Nat.succ_pos _
              obtain ⟨rfl, rfl⟩ : head = byte ∧ rest = next.readable :=
                List.cons_eq_cons.mp (readable.symm.trans parts)
              rw [Library.readGroups, uncons]
              dsimp only
              split at done
              next last =>
                cases done
                rw [groupsLength_last _ last, if_pos last]
                exact ⟨went.took, fun _ => ⟨_, rfl⟩⟩
              next more =>
                obtain ⟨tookOn, isNumber⟩ := ih went.layout done
                rw [groupsLength_more _ more, if_neg more]
                constructor
                · apply went.took.trans fun _ => tookOn
                  intro _
                  obtain ⟨count, wentOn, -⟩ := tookOn.went
                  exact ⟨count, wentOn⟩
                · intro enough
                  apply isNumber
                  rw [List.length_cons] at enough
                  omega

/-! ### Every reader -/

theorem Kind.took (layout : ba.Layout) {kind : Kind} {value : Value}
    (done : kind.read order ba = .ok (after, value)) : Took ba after (kind.needs ba.readable) := by
  have byte : ∀ {value : UInt8}, ba.readFuint8 = .ok (after, value) → Took ba after 1 :=
    fun done => (layout.readFuint8 done).1.took
  have fixed : ∀ {size : Nat} {value : BitVec (8 * size)},
      readFixed order ba size = .ok (after, value) → Took ba after size :=
    fun done => (layout.readFixed done).1.took
  have varint : ∀ {width rounds : Nat} {number : BitVec width},
      Library.readGroups ByteArray.readFuint8 width rounds 0 0 ba = .ok (after, number) →
      Took ba after (groupsLength rounds ba.readable) :=
    fun done => (layout.readGroups done).1
  cases kind with
  | fint8 =>
      obtain ⟨_, own, -⟩ := ok_of_map done fun _ => rfl
      obtain ⟨_, read, -⟩ := ok_of_map own fun _ => rfl
      exact (layout.read_went read).1.took
  | fuint8 =>
      obtain ⟨_, own, -⟩ := ok_of_map done fun _ => rfl
      exact byte own
  | fint16 | fuint16 | fint32 | fuint32 | fint64 | fuint64 =>
      obtain ⟨_, own, -⟩ := ok_of_map done fun _ => rfl
      obtain ⟨_, read, -⟩ := ok_of_map own fun _ => rfl
      exact fixed read
  | int32 | int64 =>
      obtain ⟨_, own, -⟩ := ok_of_map done fun _ => rfl
      obtain ⟨_, unsigned, -⟩ := ok_of_map own fun _ => rfl
      obtain ⟨_, read, -⟩ := ok_of_map unsigned fun _ => rfl
      exact varint read
  | uint32 | uint64 =>
      obtain ⟨_, own, -⟩ := ok_of_map done fun _ => rfl
      obtain ⟨_, read, -⟩ := ok_of_map own fun _ => rfl
      exact varint read

theorem readString_took {readSize : ByteArray → Except Fault (ByteArray × Nat)} {needs length : Nat}
    {bytes : List UInt8} (done : readString readSize ba = .ok (after, bytes))
    (first : ∀ {middle len}, readSize ba = .ok (middle, len) →
      Took ba middle needs ∧ (needs ≤ ba.readable.length → len = length)) :
    Took ba after (needs + length) := by
  rw [readString] at done
  split at done
  next => cases done
  next middle len size =>
    obtain ⟨took, isLength⟩ := first size
    obtain ⟨_, went, -⟩ := took.went
    have onward := (went.layout.read_went done).1
    apply took.trans
    · intro enough
      rw [← isLength enough]
      exact onward.took
    · exact fun _ => ⟨len, onward⟩

theorem Prefix.took (layout : ba.Layout) {form : Prefix} {text : Text}
    (done : form.read order ba = .ok (after, text)) :
    Took ba after (form.kind.needs ba.readable + form.length ba.m_endian ba.readable) := by
  have fixed : ∀ {size : Nat} {middle : ByteArray} {value : BitVec (8 * size)},
      readFixed order ba size = .ok (middle, value) →
      Took ba middle size ∧ (size ≤ ba.readable.length →
        value = ofMemory ba.m_endian size (ba.readable.take size)) :=
    fun done => (layout.readFixed done).imp Went.took id
  cases form with
  | F16 | F32 | F64 =>
      obtain ⟨_, own, -⟩ := ok_of_map done fun _ => rfl
      apply readString_took own
      intro middle len size
      obtain ⟨value, unsigned, same⟩ := ok_of_map size fun _ => rfl
      obtain ⟨bits, read, alike⟩ := ok_of_map unsigned fun _ => rfl
      obtain ⟨took, isBits⟩ := fixed read
      refine ⟨took, fun enough => ?_⟩
      cases same
      cases alike
      exact congrArg BitVec.toNat (isBits enough)
  | Vint =>
      obtain ⟨_, own, -⟩ := ok_of_map done fun _ => rfl
      apply readString_took own
      intro middle len size
      obtain ⟨value, unsigned, same⟩ := ok_of_map size fun _ => rfl
      obtain ⟨bits, read, alike⟩ := ok_of_map unsigned fun _ => rfl
      obtain ⟨took, isNumber⟩ := layout.readGroups read
      refine ⟨took, fun enough => ?_⟩
      obtain ⟨rest, isBits⟩ := isNumber enough
      cases same
      cases alike
      rw [Prefix.length, isBits]
      rfl

theorem Reader.took (layout : ba.Layout) {reader : Reader} (done : reader.run order ba = .ok after) :
    Took ba after (reader.needs ba.m_endian ba.readable) := by
  cases reader with
  | raw size =>
      obtain ⟨⟨_, bytes⟩, read, rfl⟩ := eq_ok_of_map done
      exact (layout.read_went read).1.took
  | integer kind =>
      obtain ⟨⟨_, value⟩, read, rfl⟩ := eq_ok_of_map done
      exact Kind.took layout read
  | float | double =>
      obtain ⟨⟨_, value⟩, unsigned, rfl⟩ := eq_ok_of_map done
      obtain ⟨_, read, -⟩ := ok_of_map unsigned fun _ => rfl
      exact (layout.readFixed read).1.took
  | string form =>
      obtain ⟨⟨_, text⟩, read, rfl⟩ := eq_ok_of_map done
      exact Prefix.took layout read

/-- A reader passes the size just where there are too few bytes. -/
theorem Reader.position_le_iff (layout : ba.Layout) (bound : ba.m_position ≤ ba.m_size)
    {reader : Reader} (done : reader.run order ba = .ok after) :
    after.m_position ≤ after.m_size ↔ ¬ reader.Short ba := by
  obtain ⟨count, went, enough, short⟩ := (Reader.took layout done).went
  have left := layout.length_readable
  rw [went.position, went.size, Short, Nat.not_lt]
  constructor
  · intro inside
    by_contra less
    have beyond := short (Nat.lt_of_not_le less)
    omega
  · intro fits
    rw [enough fits]
    omega

end Way

/-! ## Runs with readers -/

/-- A call, or a reader. -/
inductive Use where
  | call (call : Call)
  | reader (reader : Reader)

inductive Using (EXHY_BYTE_ORDER : Endian) : ByteArray → Use → ByteArray → Prop where
  | call {ba after : ByteArray} {call : Call} :
      Step ba call after → Using EXHY_BYTE_ORDER ba (.call call) after
  | reader {ba after : ByteArray} {reader : Reader} :
      reader.run EXHY_BYTE_ORDER ba = .ok after → Using EXHY_BYTE_ORDER ba (.reader reader) after

/-- Every run of a byte array with its readers. -/
def uses (EXHY_BYTE_ORDER : Endian) : System ByteArray Use where
  initial := byteArrays.initial
  step := Using EXHY_BYTE_ORDER

/-- What is read is there. -/
def Enough (ba : ByteArray) : Use → Prop
  | .call (.op (.read size)) => ¬ (Reader.raw size).Short ba
  | .call _ => True
  | .reader reader => ¬ reader.Short ba

section Runs

variable {ba after : ByteArray} {EXHY_BYTE_ORDER : Endian}

theorem Using.layout {use : Use} (used : Using EXHY_BYTE_ORDER ba use after) (layout : ba.Layout) :
    after.Layout := by
  cases used with
  | call stepped => exact stepped.layout layout
  | reader done =>
      obtain ⟨_, went, -⟩ := (Reader.took layout done).went
      exact went.layout

theorem Step.valid {call : Call} (stepped : Step ba call after) (valid : ba.Valid)
    (enough : Enough ba (.call call)) : after.Valid := by
  have layout := stepped.layout valid.layout
  apply layout.valid
  cases stepped with
  | op op done =>
      cases op with
      | write fresh buf =>
          obtain ⟨written, isWritten, same⟩ := eq_ok_of_map done
          cases same
          obtain ⟨last, -, isLast, lastValid, -⟩ := write_spec valid fresh buf
          cases isWritten.symm.trans isLast
          exact lastValid.position_le
      | read size =>
          have ran : (Reader.raw size).run .EXHY_LITTLE_ENDIAN ba = .ok after :=
            congrArg (Except.map Prod.fst) done
          exact (Reader.position_le_iff valid.layout valid.position_le ran).mpr enough
      | setPosition v =>
          obtain ⟨moved, isMoved, same⟩ := eq_ok_of_map done
          cases same
          have inside : v ≤ ba.m_capacity := by
            by_contra beyond
            rw [ByteArray.setPosition, if_pos (Nat.lt_of_not_le beyond)] at isMoved
            cases isMoved
          rw [valid.layout.setPosition_spec inside] at isMoved
          cases isMoved
          exact Nat.le_max_right ..
      | clear =>
          cases done
          exact Nat.le_refl 0
      | setIsLittleEndian val =>
          cases done
          exact valid.position_le
  | getWriteBuffers fresh len done =>
      obtain ⟨-, position, size, -⟩ := valid.layout.addCapacity_spec fresh len
      rw [getWriteBuffers_state done, position, size]
      exact valid.position_le
  | store iov bytes inside fits => exact valid.position_le

theorem Using.valid {use : Use} (used : Using EXHY_BYTE_ORDER ba use after) (valid : ba.Valid)
    (enough : Enough ba use) : after.Valid := by
  have layout := used.layout valid.layout
  cases used with
  | call stepped => exact stepped.valid valid enough
  | reader done =>
      exact layout.valid ((Reader.position_le_iff valid.layout valid.position_le done).mpr enough)

/-- Every state that runs reach whose reads find what they need. -/
theorem reaches_valid (reached : (uses EXHY_BYTE_ORDER).Reaches Enough ba) : ba.Valid := by
  apply reached.invariant Valid
  · rintro _ ⟨base_size, fresh, basePos, rfl⟩
    exact new_valid basePos fresh
  · intro _ _ _ _ valid enough used
    exact used.valid valid enough

theorem reachable_uses (reached : byteArrays.Reachable ba) : (uses EXHY_BYTE_ORDER).Reachable ba := by
  induction reached with
  | initial isInitial => exact .initial isInitial
  | step _ _ stepped ih => exact .step ih trivial (.call stepped)

end Runs

/-- A reader that finds too few bytes never throws, so the promise holds just where there is no
need to.  In every run whose reads find what they need, the position stays within the size. -/
theorem readers_throw_iff (EXHY_BYTE_ORDER : Endian) :
    (∀ (ba : ByteArray) (reader : Reader),
      (reader.Short ba → reader.Throws EXHY_BYTE_ORDER ba) ↔ ¬ reader.Short ba) ∧
    (∀ ba, (uses EXHY_BYTE_ORDER).Reachable ba → ba.m_position ≤ ba.m_size →
      ∀ (reader : Reader) (after : ByteArray), reader.run EXHY_BYTE_ORDER ba = .ok after →
        (after.m_position ≤ after.m_size ↔ ¬ reader.Short ba)) ∧
    ∀ ba, (uses EXHY_BYTE_ORDER).Reaches Enough ba →
      ba.m_position ≤ ba.m_size ∧ ba.getReadSizeU64 = ba.m_size - ba.m_position := by
  refine ⟨fun ba reader => ?_, fun ba reached bound reader after done => ?_, fun ba reached => ?_⟩
  · constructor
    · intro promised short
      exact Reader.not_throws EXHY_BYTE_ORDER (promised short)
    · intro enough short
      exact absurd short enough
  · have layout : ba.Layout := by
      apply reached.invariant Layout
      · rintro _ ⟨base_size, fresh, basePos, rfl⟩
        exact (new_valid basePos fresh).layout
      · intro _ _ _ _ layout _ used
        exact used.layout layout
    exact Reader.position_le_iff layout bound done
  · have bound := (reaches_valid reached).position_le
    rw [getReadSizeU64, if_pos bound]
    exact ⟨bound, rfl⟩

/-- Two bytes behind the first of four. -/
theorem readers_throw_iff_inside :
    ∃ after, (Reader.integer .fuint16).run .EXHY_LITTLE_ENDIAN (fourBytes 1) = .ok after ∧
      after.m_position ≤ after.m_size := by
  have reached : (uses .EXHY_LITTLE_ENDIAN).Reachable (fourBytes 1) :=
    reachable_uses (reachable_fourBytes (by decide))
  refine ⟨_, rfl, ?_⟩
  exact ((readers_throw_iff .EXHY_LITTLE_ENDIAN).2.1 (fourBytes 1) reached (by decide)
    (.integer .fuint16) _ rfl).mpr (by decide)

/-- A byte that nobody wrote is read from a new array, and the read size wraps. -/
theorem readFuint8_behind :
    (uses .EXHY_LITTLE_ENDIAN).Reachable (new 2 fun _ => 0) ∧
      (Reader.integer .fuint8).Short (new 2 fun _ => 0) ∧
      ¬ (Reader.integer .fuint8).Throws .EXHY_LITTLE_ENDIAN (new 2 fun _ => 0) ∧
      ∃ after, (Reader.integer .fuint8).run .EXHY_LITTLE_ENDIAN (new 2 fun _ => 0) = .ok after ∧
        (uses .EXHY_LITTLE_ENDIAN).Reachable after ∧ ¬ after.m_position ≤ after.m_size ∧
        after.getReadSizeU64 = 2 ^ 64 - 1 := by
  have start : (uses .EXHY_LITTLE_ENDIAN).Reachable (new 2 fun _ => 0) :=
    .initial ⟨2, _, by decide, rfl⟩
  refine ⟨start, by decide, ?_, _, rfl, ?_, by decide, rfl⟩
  · rintro ⟨what, thrown⟩
    cases thrown
  · exact .step start trivial (@Using.reader _ _ _ (.integer .fuint8) rfl)

end Exhy.ByteArray
