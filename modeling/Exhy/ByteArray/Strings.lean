import Exhy.ByteArray.Integers

/-!
# Strings

A string is written behind its length.  The length is cut to the type of its prefix, and
`read` follows `m_cur` even for no bytes, so not every list of strings comes back.
-/

namespace Exhy.ByteArray

open Library

variable (EXHY_BYTE_ORDER : Endian)

/-- What the writers of strings have in common.  `fresh` has the contents of the nodes that
each of the two writes allocates. -/
def writeString (writeSize : ByteArray → (Nat → Nat → UInt8) → Nat → Except Fault ByteArray)
    (ba : ByteArray) (fresh : Nat → Nat → Nat → UInt8) (value : List UInt8) :
    Except Fault ByteArray :=
  match writeSize ba (fresh 0) value.length with
  | .error fault => .error fault
  | .ok ba => ba.write (fresh 1) value

def writeStringF16 := writeString fun ba fresh size =>
  writeFuint16 EXHY_BYTE_ORDER ba fresh (.ofNat size)

def writeStringF32 := writeString fun ba fresh size =>
  writeFuint32 EXHY_BYTE_ORDER ba fresh (.ofNat size)

def writeStringF64 := writeString fun ba fresh size =>
  writeFuint64 EXHY_BYTE_ORDER ba fresh (.ofNat size)

def writeStringVint := writeString fun ba fresh size => ba.writeUint64 fresh (.ofNat size)

/-- What the readers of strings have in common. -/
def readString (readSize : ByteArray → Except Fault (ByteArray × Nat)) (ba : ByteArray) :
    Except Fault (ByteArray × List UInt8) :=
  match readSize ba with
  | .error fault => .error fault
  | .ok (ba, len) => ba.read len

def readStringF16 := readString fun ba =>
  (readFuint16 EXHY_BYTE_ORDER ba).map fun (after, len) => (after, len.toNat)

def readStringF32 := readString fun ba =>
  (readFuint32 EXHY_BYTE_ORDER ba).map fun (after, len) => (after, len.toNat)

def readStringF64 := readString fun ba =>
  (readFuint64 EXHY_BYTE_ORDER ba).map fun (after, len) => (after, len.toNat)

def readStringVint := readString fun ba =>
  ba.readUint64.map fun (after, len) => (after, len.toNat)

/-! ## Any of them -/

/-- A pair of functions, by the letters behind `writeString` and `readString`. -/
inductive Prefix where
  | F16 | F32 | F64 | Vint
  deriving DecidableEq, Repr

/-- A string with the kind of prefix that it is written with. -/
structure Text where
  form : Prefix
  value : List UInt8
  deriving DecidableEq

def Text.write (ba : ByteArray) (fresh : Nat → Nat → Nat → UInt8) (text : Text) :
    Except Fault ByteArray :=
  match text.form with
  | .F16 => writeStringF16 EXHY_BYTE_ORDER ba fresh text.value
  | .F32 => writeStringF32 EXHY_BYTE_ORDER ba fresh text.value
  | .F64 => writeStringF64 EXHY_BYTE_ORDER ba fresh text.value
  | .Vint => writeStringVint ba fresh text.value

def Prefix.read (form : Prefix) (ba : ByteArray) : Except Fault (ByteArray × Text) :=
  let read :=
    match form with
    | .F16 => readStringF16 EXHY_BYTE_ORDER ba
    | .F32 => readStringF32 EXHY_BYTE_ORDER ba
    | .F64 => readStringF64 EXHY_BYTE_ORDER ba
    | .Vint => readStringVint ba
  read.map fun (after, value) => (after, ⟨form, value⟩)

/-! ## The wire -/

/-- The integer that a length is written as. -/
def Prefix.size : Prefix → Nat → Value
  | .F16, size => .fuint16 (.ofNat size)
  | .F32, size => .fuint32 (.ofNat size)
  | .F64, size => .fuint64 (.ofNat size)
  | .Vint, size => .uint64 (.ofNat size)

/-- The lengths below this one can be told apart. -/
def Prefix.limit : Prefix → Nat
  | .F16 => 2 ^ 16
  | .F32 => 2 ^ 32
  | .F64 | .Vint => 2 ^ 64

namespace Text

/-- The length fits its prefix. -/
def Fits (text : Text) : Prop := text.value.length < text.form.limit

instance (text : Text) : Decidable text.Fits :=
  inferInstanceAs (Decidable (text.value.length < text.form.limit))

/-- What a string is on the wire. -/
def encode (endian : Endian) (text : Text) : List UInt8 :=
  (text.form.size text.value.length).encode endian ++ text.value

theorem encode_ne_nil (endian : Endian) (text : Text) : text.encode endian ≠ [] := by
  intro nothing
  exact ByteArray.encode_ne_nil endian _ (List.append_eq_nil_iff.mp nothing).1

end Text

/-! ## One string -/

section One

variable {order endian : Endian} {ba : ByteArray} {rest : List UInt8}

theorem writeString_eq (fresh : Nat → Nat → Nat → UInt8) (text : Text) :
    text.write order ba fresh =
      writeString (fun ba fresh size => (text.form.size size).write order ba fresh) ba fresh
        text.value := by
  obtain ⟨form, value⟩ := text
  cases form <;> rfl

theorem Text.write_wrote {start : Nat} {bytes : List UInt8} (fresh : Nat → Nat → Nat → UInt8)
    (text : Text) (wrote : Wrote ba start bytes) (same : ba.m_endian = endian) :
    ∃ after, text.write order ba fresh = .ok after ∧
      Wrote after start (bytes ++ text.encode endian) ∧ after.m_endian = endian := by
  obtain ⟨middle, written, wroteSize, sameMiddle⟩ :=
    ByteArray.write_wrote order (fresh 0) (text.form.size text.value.length) wrote same
  obtain ⟨after, done, wroteAll, sameAfter⟩ := wroteSize.write (fresh 1) text.value
  refine ⟨after, ?_, ?_, sameAfter.trans sameMiddle⟩
  · rw [writeString_eq, writeString, written]
    exact done
  · rw [Text.encode, ← List.append_assoc]
    exact wroteAll

theorem eq_ok_of_map {Input Output : Type} {f : Input → Output} {input : Except Fault Input}
    {output : Output} (mapped : input.map f = .ok output) : ∃ value, input = .ok value ∧ f value = output := by
  cases input with
  | error fault => cases mapped
  | ok value => exact ⟨value, rfl, Except.ok.inj mapped⟩

/-- The reader of a prefix gives the length, cut to the type of the prefix. -/
theorem readSize_readable (order : Endian) (valid : ba.Valid) (form : Prefix) (size : Nat)
    (parts : ba.readable = (form.size size).encode ba.m_endian ++ rest) :
    ∃ middle, Moved ba middle ((form.size size).encode ba.m_endian).length ∧
      form.read order ba =
        (middle.read (size % form.limit)).map fun (after, value) => (after, ⟨form, value⟩) := by
  obtain ⟨middle, read, moved⟩ := read_value order valid (form.size size) parts
  refine ⟨middle, moved, ?_⟩
  cases form with
  | F16 =>
      obtain ⟨⟨after, len⟩, readSize, same⟩ := eq_ok_of_map read
      cases same
      rw [Prefix.read, readStringF16, readString, readSize]
      rfl
  | F32 =>
      obtain ⟨⟨after, len⟩, readSize, same⟩ := eq_ok_of_map read
      cases same
      rw [Prefix.read, readStringF32, readString, readSize]
      rfl
  | F64 =>
      obtain ⟨⟨after, len⟩, readSize, same⟩ := eq_ok_of_map read
      cases same
      rw [Prefix.read, readStringF64, readString, readSize]
      rfl
  | Vint =>
      obtain ⟨⟨after, len⟩, readSize, same⟩ := eq_ok_of_map read
      cases same
      rw [Prefix.read, readStringVint, readString, readSize]
      rfl

/-- No bytes can be read where a node follows. -/
theorem read_zero (valid : ba.Valid) :
    ba.read 0 = if ba.m_position < ba.m_capacity then .ok (ba, []) else .error .nullNode := by
  have cur := valid.cur
  have inChain := valid.div_lt_iff ba.m_position
  rw [read, valid.chain_eq]
  split
  next nothing =>
    rw [List.drop_eq_nil_iff] at nothing
    rw [if_neg fun inside => absurd (inChain.mpr inside) (Nat.not_lt.mpr nothing)]
  next chained =>
    rw [List.drop_eq_nil_iff, Nat.not_le] at chained
    have inside := inChain.mp chained
    rw [if_pos inside] at cur ⊢
    have stays : ba.advance 0 = ba.m_cur := by
      rw [advance, cur]
      exact if_pos chained
    rw [readLoop.eq_1]
    dsimp only
    rw [stays]

theorem length_of_readLoop {chain : List Node} {pos_cnode m_position size moved last : Nat}
    {bytes : List UInt8}
    (done : readLoop chain pos_cnode m_position size = .ok (bytes, moved, last)) :
    bytes.length = size := by
  induction chain generalizing pos_cnode m_position size bytes moved last with
  | nil =>
      cases size with
      | zero =>
          cases done
          rfl
      | succ size => cases done
  | cons cur rest ih =>
      cases size with
      | zero =>
          cases done
          rfl
      | succ size =>
          rw [readLoop] at done
          have left : (cur.ptr.drop pos_cnode).length = cur.size - pos_cnode := List.length_drop ..
          split at done
          next fits =>
            cases done
            rw [List.length_take, left]
            omega
          next beyond =>
            split at done
            next => cases done
            next more moved m_position onward =>
              cases done
              rw [List.length_append, List.length_take, left, ih onward]
              omega

theorem length_of_read {after : ByteArray} {bytes : List UInt8} {size : Nat}
    (done : ba.read size = .ok (after, bytes)) : bytes.length = size := by
  rw [read] at done
  split at done
  next => cases done
  next =>
    split at done
    next => cases done
    next looped =>
      cases done
      exact length_of_readLoop looped

/-- Whether no bytes can be read is a matter of what follows. -/
theorem position_lt (valid : ba.Valid) (roomy : ba.readable ≠ [] ∨ ba.m_size < ba.m_capacity) :
    ba.m_position < ba.m_capacity := by
  have positionLe := valid.position_le
  have sizeLe := valid.size_le
  rcases roomy with more | room
  · have some := List.length_pos_of_ne_nil more
    rw [length_readable valid, getReadSize] at some
    omega
  · omega

/-- A string whose length fits its prefix comes back, unless it is empty and stands where the
last node ends. -/
theorem read_text (order : Endian) (valid : ba.Valid) {text : Text} (fits : text.Fits)
    (parts : ba.readable = text.encode ba.m_endian ++ rest)
    (roomy : rest ≠ [] ∨ text.value ≠ [] ∨ ba.m_size < ba.m_capacity) :
    ∃ after, text.form.read order ba = .ok (after, text) ∧
      Moved ba after (text.encode ba.m_endian).length := by
  rw [Text.encode, List.append_assoc] at parts
  obtain ⟨middle, moved, read⟩ := readSize_readable order valid text.form text.value.length parts
  have behind := moved.readable parts
  rw [read, Nat.mod_eq_of_lt fits, Text.encode, List.length_append]
  by_cases empty : text.value = []
  · rw [empty, List.nil_append] at behind
    have room : middle.m_position < middle.m_capacity := by
      apply position_lt moved.valid
      rw [behind, moved.size, moved.capacity]
      exact roomy.imp_right fun other => other.resolve_left (not_not.mpr empty)
    refine ⟨middle, ?_, ?_⟩
    · rw [empty, List.length_nil, read_zero moved.valid, if_pos room, ← empty]
      rfl
    · simpa [empty] using moved
  · obtain ⟨after, done, movedToo⟩ := read_readable moved.valid empty behind
    refine ⟨after, ?_, moved.trans movedToo⟩
    rw [done]
    rfl

/-- What the success of a reader says. -/
theorem fits_of_read {order : Endian} (valid : ba.Valid) {text : Text} {after : ByteArray}
    (parts : ba.readable = text.encode ba.m_endian ++ rest)
    (done : text.form.read order ba = .ok (after, text)) :
    text.Fits ∧ (rest ≠ [] ∨ text.value ≠ [] ∨ ba.m_size < ba.m_capacity) := by
  rw [Text.encode, List.append_assoc] at parts
  obtain ⟨middle, moved, read⟩ := readSize_readable order valid text.form text.value.length parts
  rw [read] at done
  obtain ⟨⟨last, value⟩, payload, same⟩ := eq_ok_of_map done
  obtain rfl : value = text.value := congrArg (fun result => result.2.value) same
  have fits : text.Fits := by
    have cut := length_of_read payload
    have positive : 0 < text.form.limit := by cases text.form <;> decide
    rw [Text.Fits, cut]
    exact Nat.mod_lt _ positive
  refine ⟨fits, ?_⟩
  by_contra none
  simp only [not_or, not_not, Nat.not_lt] at none
  obtain ⟨nothing, empty, full⟩ := none
  have behind := moved.readable parts
  have atEnd : ¬ middle.m_position < middle.m_capacity := by
    have unread := length_readable moved.valid
    rw [behind, empty, nothing, List.append_nil, List.length_nil, getReadSize, moved.size] at unread
    rw [moved.capacity]
    omega
  rw [Nat.mod_eq_of_lt fits, empty, List.length_nil, read_zero moved.valid, if_neg atEnd] at payload
  cases payload

end One

/-! ## Where the last node ends -/

/-- The smallest multiple of the size of a node that is at least the position. -/
def roundUp (base position : Nat) : Nat := (position + base - 1) / base * base

section Capacity

variable {base : Nat}

theorem roundUp_mono (base : Nat) {first second : Nat} (ordered : first ≤ second) :
    roundUp base first ≤ roundUp base second :=
  Nat.mul_le_mul_right base (Nat.div_le_div_right (by omega))

theorem roundUp_mul_add (basePos : 1 ≤ base) (count more : Nat) :
    roundUp base (count * base + more) = count * base + roundUp base more := by
  rw [roundUp, roundUp, Nat.add_assoc, Nat.add_sub_assoc (by omega), Nat.add_comm (count * base),
    Nat.add_mul_div_right _ _ basePos, Nat.add_mul, Nat.add_comm]

theorem roundUp_mul (basePos : 1 ≤ base) (count : Nat) : roundUp base (count * base) = count * base := by
  have none : roundUp base 0 = 0 := by
    rw [roundUp, Nat.zero_add, Nat.div_eq_of_lt (by omega), Nat.zero_mul]
  have sum := roundUp_mul_add basePos count 0
  rwa [none, Nat.add_zero] at sum

theorem le_roundUp (basePos : 1 ≤ base) (position : Nat) : position ≤ roundUp base position := by
  have parts := Nat.mod_add_div (position + base - 1) base
  have less := Nat.mod_lt (position + base - 1) basePos
  rw [roundUp, Nat.mul_comm]
  omega

theorem roundUp_le_iff (basePos : 1 ≤ base) (position : Nat) :
    roundUp base position ≤ position ↔ base ∣ position := by
  constructor
  · intro below
    have same := Nat.le_antisymm below (le_roundUp basePos position)
    exact ⟨_, same.symm.trans (Nat.mul_comm ..)⟩
  · rintro ⟨count, rfl⟩
    rw [Nat.mul_comm, roundUp_mul basePos]

/-- What writers do to the nodes. -/
structure Grown (ba after : ByteArray) : Prop where
  base : after.m_baseSize = ba.m_baseSize
  position : ba.m_position ≤ after.m_position
  capacity : after.m_capacity = max ba.m_capacity (roundUp ba.m_baseSize after.m_position)

theorem Grown.trans {ba middle after : ByteArray} (grown : Grown ba middle)
    (onward : Grown middle after) : Grown ba after where
  base := onward.base.trans grown.base
  position := Nat.le_trans grown.position onward.position
  capacity := by
    have ordered := roundUp_mono ba.m_baseSize onward.position
    rw [onward.capacity, grown.capacity, grown.base]
    omega

/-- Up to its capacity nothing is rounded beyond it. -/
theorem Valid.roundUp_le {ba : ByteArray} (valid : ba.Valid) {position : Nat}
    (inside : position ≤ ba.m_capacity) : roundUp ba.m_baseSize position ≤ ba.m_capacity := by
  have ordered := roundUp_mono ba.m_baseSize inside
  rw [valid.capacity, roundUp_mul valid.base_pos, ← valid.capacity] at ordered
  exact ordered

theorem addCapacity_capacity {ba : ByteArray} (valid : ba.Valid) (fresh : Nat → Nat → UInt8)
    (size : Nat) :
    (ba.addCapacity fresh size).m_baseSize = ba.m_baseSize ∧
      (ba.addCapacity fresh size).m_capacity =
        max ba.m_capacity (roundUp ba.m_baseSize (ba.m_position + size)) := by
  have sizeLe := valid.size_le
  have positionLe := valid.position_le
  rw [addCapacity, getCapacity]
  split
  next nothing =>
    have kept := valid.roundUp_le (show ba.m_position + size ≤ ba.m_capacity by omega)
    exact ⟨rfl, by omega⟩
  next some =>
    dsimp only
    split
    next fits =>
      have kept := valid.roundUp_le (show ba.m_position + size ≤ ba.m_capacity by omega)
      exact ⟨rfl, by omega⟩
    next beyond =>
      refine ⟨rfl, ?_⟩
      have behind : ba.m_position + size =
          ba.nodes.length * ba.m_baseSize + (size - (ba.m_capacity - ba.m_position)) := by
        rw [← valid.capacity]
        omega
      rw [behind, roundUp_mul_add valid.base_pos, ← valid.capacity, roundUp]
      exact (max_eq_right (Nat.le_add_right ..)).symm

theorem Grown.write {ba after : ByteArray} (valid : ba.Valid) {fresh : Nat → Nat → UInt8}
    {buf : List UInt8} (done : ba.write fresh buf = .ok after) : Grown ba after := by
  have position : after.m_position = ba.m_position + buf.length := by
    obtain ⟨other, added, written, -, -, -, position, -⟩ := write_spec valid fresh buf
    cases written.symm.trans done
    exact position
  rw [ByteArray.write] at done
  split at done
  next nothing =>
    cases done
    have sizeLe := valid.size_le
    have positionLe := valid.position_le
    have kept := valid.roundUp_le (show ba.m_position ≤ ba.m_capacity by omega)
    exact ⟨rfl, Nat.le_refl _, by omega⟩
  next some =>
    dsimp only at done
    split at done
    next => cases done
    next rewritten moved m_position looped =>
      cases done
      obtain ⟨base, capacity⟩ : (ba.addCapacity fresh buf.length).m_baseSize = ba.m_baseSize ∧
          (ba.addCapacity fresh buf.length).m_capacity =
            max ba.m_capacity (roundUp ba.m_baseSize (ba.m_position + buf.length)) :=
        addCapacity_capacity valid fresh buf.length
      refine ⟨base, ?_, ?_⟩
      · rw [position]
        exact Nat.le_add_right ..
      · rw [position]
        exact capacity

end Capacity

/-! ## Lists of strings -/

/-- The strings, each with the contents of the nodes that its writer allocates. -/
abbrev Texts := List (Text × (Nat → Nat → Nat → UInt8))

/-- Written from the position on, the strings are read back from there, and reading ends where
writing ended. -/
def ComeBack (order : Endian) (ba : ByteArray) (texts : Texts) : Prop :=
  ∃ written counts back after countsToo,
    writeAll (Text.write order) texts ba = .ok (written, counts) ∧
    written.setPosition ba.m_position = .ok back ∧
    readAll (Prefix.read order) (texts.map (·.1.form)) back =
      .ok (after, texts.map Prod.fst, countsToo) ∧
    after.m_position = written.m_position

/-- The last string is empty, and its prefix ends where the last node ends. -/
def EmptyAtEnd (ba : ByteArray) (texts : Texts) : Prop :=
  let stop := ba.m_position + (encodeAll (Text.encode ba.m_endian) texts).length
  (∃ text ∈ texts.getLast?, text.1.value = []) ∧ ba.m_capacity ≤ stop ∧ ba.m_baseSize ∣ stop

section Lists

variable {order : Endian} {ba : ByteArray}

theorem writeAll_grown (valid : ba.Valid) (texts : Texts) {written : ByteArray} {counts : List Nat}
    (done : writeAll (Text.write order) texts ba = .ok (written, counts)) : Grown ba written := by
  induction texts generalizing ba counts with
  | nil =>
      have same : ba = written := congrArg Prod.fst (Except.ok.inj done)
      have sizeLe := valid.size_le
      have positionLe := valid.position_le
      have kept := valid.roundUp_le (show ba.m_position ≤ ba.m_capacity by omega)
      rw [← same]
      exact ⟨rfl, Nat.le_refl _, by omega⟩
  | cons item later ih =>
      obtain ⟨text, fresh⟩ := item
      obtain ⟨middle, size, wroteSize, -⟩ :=
        (Wrote.nil valid).write (fresh 0) ((text.form.size text.value.length).encode ba.m_endian)
      obtain ⟨after, payload, wroteAll, -⟩ := wroteSize.write (fresh 1) text.value
      have written : text.write order ba fresh = .ok after := by
        rw [writeString_eq, writeString, write_eq, size]
        exact payload
      rw [writeAll, written] at done
      change (writeAll (Text.write order) later after >>= fun result => _) = _ at done
      cases rest : writeAll (Text.write order) later after with
      | error fault =>
          rw [rest] at done
          cases done
      | ok result =>
          rw [rest] at done
          cases done
          exact ((Grown.write valid size).trans (Grown.write wroteSize.valid payload)).trans
            (ih wroteAll.valid rest)

/-- What the success of all readers says. -/
theorem fits_of_readAll {endian : Endian} (valid : ba.Valid) (same : ba.m_endian = endian)
    {texts : List Text} {rest : List UInt8} (parts : ba.readable = texts.flatMap (Text.encode endian) ++ rest)
    {after : ByteArray} {counts : List Nat}
    (done : readAll (Prefix.read order) (texts.map Text.form) ba = .ok (after, texts, counts)) :
    (∀ text ∈ texts, text.Fits) ∧
      (rest ≠ [] ∨ (∀ text ∈ texts.getLast?, text.value ≠ []) ∨ ba.m_size < ba.m_capacity) := by
  induction texts generalizing ba counts with
  | nil => exact ⟨fun text member => absurd member List.not_mem_nil, .inr (.inl nofun)⟩
  | cons text later ih =>
      rw [List.flatMap_cons, List.append_assoc, ← same] at parts
      rw [List.map_cons, readAll] at done
      cases read : text.form.read order ba with
      | error fault =>
          rw [read] at done
          cases done
      | ok result =>
          obtain ⟨next, item⟩ := result
          rw [read] at done
          change (readAll (Prefix.read order) (later.map Text.form) next >>= fun result => _) = _ at done
          cases others : readAll (Prefix.read order) (later.map Text.form) next with
          | error fault =>
              rw [others] at done
              cases done
          | ok result =>
              obtain ⟨last, items, countsLater⟩ := result
              rw [others] at done
              have results : (last, item :: items, _) = (after, text :: later, counts) :=
                Except.ok.inj done
              simp only [Prod.mk.injEq, List.cons.injEq] at results
              rw [results.2.1.1] at read
              rw [results.1, results.2.1.2] at others
              obtain ⟨fits, roomy⟩ := fits_of_read valid parts read
              obtain ⟨nextToo, readToo, moved⟩ := read_text order valid fits parts roomy
              cases read.symm.trans readToo
              have behind := moved.readable parts
              obtain ⟨fitsLater, roomyLater⟩ := ih moved.valid (moved.endian.trans same)
                (same ▸ behind) others
              refine ⟨?_, ?_⟩
              · intro other member
                rcases List.mem_cons.mp member with rfl | member
                · exact fits
                · exact fitsLater other member
              · cases later with
                | nil =>
                    rcases roomy with more | filled | room
                    · exact .inl more
                    · exact .inr (.inl fun other member => Option.some.inj member ▸ filled)
                    · exact .inr (.inr room)
                | cons second others =>
                    rw [moved.size, moved.capacity] at roomyLater
                    rwa [List.getLast?_cons_cons]

/-- Whether something follows the strings, written or not. -/
theorem stop_lt_iff {written back : ByteArray} {bytes rest : List UInt8} (valid : ba.Valid)
    (grown : Grown ba written) (wrote : Wrote written ba.m_position bytes) (backValid : back.Valid)
    (parts : back.readable = bytes ++ rest) (position : back.m_position = ba.m_position)
    (size : back.m_size = written.m_size) (capacity : back.m_capacity = written.m_capacity) :
    (rest ≠ [] ∨ back.m_size < back.m_capacity) ↔
      ¬ (ba.m_capacity ≤ ba.m_position + bytes.length ∧
        ba.m_baseSize ∣ ba.m_position + bytes.length) := by
  have positionLe := wrote.valid.position_le
  have sizeLe := wrote.valid.size_le
  have stop := wrote.position
  have total := length_readable backValid
  have room := grown.capacity
  have up := le_roundUp valid.base_pos (ba.m_position + bytes.length)
  rw [parts, List.length_append, getReadSize, size, position] at total
  rw [stop] at room
  rw [← roundUp_le_iff valid.base_pos, size, capacity, ne_eq, ← List.length_eq_zero_iff]
  omega

/-- Strings come back exactly when each length fits its prefix and no empty string is left over
where the last node ends. -/
theorem strings_come_back_iff (valid : ba.Valid) (EXHY_BYTE_ORDER : Endian) (texts : Texts) :
    ComeBack EXHY_BYTE_ORDER ba texts ↔
      (∀ text ∈ texts, text.1.Fits) ∧ ¬ EmptyAtEnd ba texts := by
  obtain ⟨written, done, wrote, endian⟩ := writeAll_wrote (Text.write EXHY_BYTE_ORDER)
    (fun ba start bytes fresh text wrote same => text.write_wrote fresh wrote same)
    (Wrote.nil valid) rfl texts
  rw [List.nil_append] at wrote
  obtain ⟨back, rest, moved, backValid, parts, backPosition, backSize, backCapacity, backEndian⟩ :=
    wrote.setPosition
  have encoded : encodeAll (Text.encode ba.m_endian) texts =
      (texts.map Prod.fst).flatMap (Text.encode ba.m_endian) := by
    rw [encodeAll, List.flatMap_map]
  have atEnd := stop_lt_iff valid (writeAll_grown valid texts done) wrote backValid parts backPosition
    backSize backCapacity
  have lastEmpty : (∀ text ∈ (texts.map Prod.fst).getLast?, text.value ≠ []) ↔
      ¬ ∃ text ∈ texts.getLast?, text.1.value = [] := by
    rw [List.getLast?_map]
    cases texts.getLast? <;> simp
  rw [encoded] at parts
  constructor
  · rintro ⟨_, _, _, last, counts, doneToo, movedToo, read, -⟩
    cases done.symm.trans doneToo
    cases moved.symm.trans movedToo
    have forms : texts.map (·.1.form) = (texts.map Prod.fst).map Text.form := by
      rw [List.map_map]
      rfl
    rw [forms] at read
    obtain ⟨fits, roomy⟩ := fits_of_readAll backValid (backEndian.trans endian) parts read
    refine ⟨fun text member => fits text.1 (List.mem_map_of_mem member), ?_⟩
    rintro ⟨empty, full⟩
    rcases roomy with more | filled | room
    · exact atEnd.mp (.inl more) full
    · exact lastEmpty.mp filled empty
    · exact atEnd.mp (.inr room) full
  · rintro ⟨fits, notEmpty⟩
    have roomy : rest ≠ [] ∨ (∀ text ∈ (texts.map Prod.fst).getLast?, text.value ≠ []) ∨
        back.m_size < back.m_capacity := by
      by_cases full : ba.m_capacity ≤
            ba.m_position + (encodeAll (Text.encode ba.m_endian) texts).length ∧
          ba.m_baseSize ∣ ba.m_position + (encodeAll (Text.encode ba.m_endian) texts).length
      · exact .inr (.inl (lastEmpty.mpr fun empty => notEmpty ⟨empty, full⟩))
      · rcases atEnd.mpr full with more | room
        · exact .inl more
        · exact .inr (.inr room)
    have reads : ∀ text ∈ texts.map Prod.fst, ∀ other rest, other.Valid →
        other.m_endian = ba.m_endian → other.readable = text.encode ba.m_endian ++ rest →
        rest ≠ [] ∨ text.value ≠ [] ∨ other.m_size < other.m_capacity →
        ∃ after, text.form.read EXHY_BYTE_ORDER other = .ok (after, text) ∧
          Moved other after (text.encode ba.m_endian).length := by
      intro text member other rest valid same parts roomy
      obtain ⟨pair, inTexts, rfl⟩ := List.mem_map.mp member
      rw [← same] at parts ⊢
      exact read_text EXHY_BYTE_ORDER valid (fits pair inTexts) parts roomy
    obtain ⟨after, read, movedAll⟩ := readAll_readable (Prefix.read EXHY_BYTE_ORDER) Text.form
      (fun text => text.value ≠ []) (Text.encode_ne_nil ba.m_endian) reads backValid
      (backEndian.trans endian) parts roomy
    have stop : after.m_position = written.m_position := by
      rw [movedAll.position, backPosition, wrote.position, encoded]
    rw [List.map_map] at read
    exact ⟨written, _, back, after, _, done, moved, read, stop⟩

end Lists

/-- An empty string between two others, in nodes of two bytes. -/
theorem strings_come_back_middle :
    ComeBack .EXHY_LITTLE_ENDIAN (new 2 fun _ => 0)
        [(⟨.F16, [1, 2, 3]⟩, fun _ _ _ => 0), (⟨.F16, []⟩, fun _ _ _ => 0),
          (⟨.Vint, [4]⟩, fun _ _ _ => 0)] ↔
      (∀ text ∈ ([(⟨.F16, [1, 2, 3]⟩, fun _ _ _ => 0), (⟨.F16, []⟩, fun _ _ _ => 0),
          (⟨.Vint, [4]⟩, fun _ _ _ => 0)] : Texts), text.1.Fits) ∧
        ¬ EmptyAtEnd (new 2 fun _ => 0)
          [(⟨.F16, [1, 2, 3]⟩, fun _ _ _ => 0), (⟨.F16, []⟩, fun _ _ _ => 0),
            (⟨.Vint, [4]⟩, fun _ _ _ => 0)] :=
  strings_come_back_iff (new_valid (by decide) fun _ => 0) .EXHY_LITTLE_ENDIAN _

/-- The prefix of an empty string fills the only node: its reader follows the null pointer. -/
theorem empty_string_lost :
    ∃ written back,
      writeAll (Text.write .EXHY_LITTLE_ENDIAN) [(⟨.F16, []⟩, fun _ _ _ => 0)] (new 2 fun _ => 0) =
        .ok (written, [2]) ∧
      written.setPosition 0 = .ok back ∧
      readAll (Prefix.read .EXHY_LITTLE_ENDIAN) [.F16] back = .error .nullNode ∧
      ¬ ComeBack .EXHY_LITTLE_ENDIAN (new 2 fun _ => 0) [(⟨.F16, []⟩, fun _ _ _ => 0)] := by
  refine ⟨_, _, rfl, rfl, rfl, ?_⟩
  rintro ⟨written, counts, back, after, countsToo, done, moved, read, -⟩
  cases done
  cases moved
  cases read

end Exhy.ByteArray
