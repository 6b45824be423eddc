import Exhy.ByteArray.Invariant

/-!
# Values one after another

What a byte array holds between the place where a writer started and its position, and what
a reader finds from its position on.
-/

namespace Exhy.ByteArray

open Library

/-- The bytes from the position to the end of what has been written. -/
def readable (ba : ByteArray) : List UInt8 := ((contents ba.nodes).take ba.m_size).drop ba.m_position

/-- The bytes from `start` to the position are these. -/
structure Wrote (ba : ByteArray) (start : Nat) (bytes : List UInt8) : Prop where
  valid : ba.Valid
  position : ba.m_position = start + bytes.length
  here : ((contents ba.nodes).drop start).take bytes.length = bytes

/-- What a reader of `count` bytes changes. -/
structure Moved (ba after : ByteArray) (count : Nat) : Prop where
  valid : after.Valid
  position : after.m_position = ba.m_position + count
  nodes : after.nodes = ba.nodes
  size : after.m_size = ba.m_size
  capacity : after.m_capacity = ba.m_capacity
  endian : after.m_endian = ba.m_endian

section One

variable {ba : ByteArray} {start : Nat} {bytes : List UInt8}

theorem Moved.trans {middle after : ByteArray} {first second : Nat} (moved : Moved ba middle first)
    (onward : Moved middle after second) : Moved ba after (first + second) where
  valid := onward.valid
  position := by rw [onward.position, moved.position, Nat.add_assoc]
  nodes := onward.nodes.trans moved.nodes
  size := onward.size.trans moved.size
  capacity := onward.capacity.trans moved.capacity
  endian := onward.endian.trans moved.endian

theorem Moved.readable {after : ByteArray} {first rest : List UInt8}
    (moved : Moved ba after first.length) (parts : ba.readable = first ++ rest) :
    after.readable = rest := by
  rw [ByteArray.readable, moved.nodes, moved.size, moved.position, ← List.drop_drop]
  rw [ByteArray.readable] at parts
  rw [parts, List.drop_left]

theorem read_m_capacity {after : ByteArray} {size : Nat} (done : ba.read size = .ok (after, bytes)) :
    after.m_capacity = ba.m_capacity := by
  rw [read] at done
  split at done
  next => cases done
  next =>
    split at done
    next => cases done
    next =>
      cases done
      rfl

theorem length_readable (valid : ba.Valid) : ba.readable.length = ba.getReadSize := by
  have sizeLe := valid.size_le
  rw [readable, List.length_drop, List.length_take, valid.contents_length, getReadSize]
  omega

/-- A reader takes its bytes off what is readable. -/
theorem read_readable (valid : ba.Valid) {first rest : List UInt8} (nonempty : first ≠ [])
    (parts : ba.readable = first ++ rest) :
    ∃ after, ba.read first.length = .ok (after, first) ∧ Moved ba after first.length := by
  have available : first.length ≤ ba.getReadSize := by
    rw [← length_readable valid, parts, List.length_append]
    exact Nat.le_add_right ..
  obtain ⟨after, done, afterValid, nodes, position, size, endian⟩ :=
    read_spec valid (List.length_pos_of_ne_nil nonempty) available
  have taken : ((contents ba.nodes).drop ba.m_position).take first.length = first := by
    rw [readable, List.drop_take] at parts
    rw [getReadSize] at available
    have front := congrArg (List.take first.length) parts
    rw [List.take_take, Nat.min_eq_left available, List.take_left] at front
    exact front
  rw [taken] at done
  exact ⟨after, done, afterValid, position, nodes, size, read_m_capacity done, endian⟩

theorem Wrote.nil (valid : ba.Valid) : Wrote ba ba.m_position [] where
  valid := valid
  position := rfl
  here := List.take_zero ..

/-- A writer adds its bytes. -/
theorem Wrote.write (wrote : Wrote ba start bytes) (fresh : Nat → Nat → UInt8) (buf : List UInt8) :
    ∃ after, ba.write fresh buf = .ok after ∧ Wrote after start (bytes ++ buf) ∧
      after.m_endian = ba.m_endian := by
  obtain ⟨after, added, written, afterValid, bytesEq, fits, position, -, endian⟩ :=
    write_spec wrote.valid fresh buf
  refine ⟨after, written, ⟨afterValid, ?_, ?_⟩, endian⟩
  · rw [position, wrote.position, List.length_append, Nat.add_assoc]
  · have inside : start + bytes.length ≤ (contents ba.nodes).length := by
      have positionLe := wrote.valid.position_le
      have sizeLe := wrote.valid.size_le
      rw [wrote.valid.contents_length, ← wrote.position]
      omega
    rw [wrote.position] at bytesEq fits
    have front : ((contents ba.nodes ++ added).take (start + bytes.length)).drop start = bytes := by
      rw [List.take_append_of_le_length inside, List.drop_take, Nat.add_sub_cancel_left, wrote.here]
    have length : ((contents ba.nodes ++ added).take (start + bytes.length)).length =
        start + bytes.length := by
      rw [List.length_take]
      omega
    rw [bytesEq, splice, List.append_assoc, List.drop_append_of_le_length (by omega), front,
      ← List.append_assoc, List.take_left]

/-- A reader at the start finds what the writers wrote. -/
theorem Wrote.setPosition (wrote : Wrote ba start bytes) :
    ∃ back rest, ba.setPosition start = .ok back ∧ back.Valid ∧ back.readable = bytes ++ rest ∧
      back.m_position = start ∧ back.m_size = ba.m_size ∧ back.m_capacity = ba.m_capacity ∧
      back.m_endian = ba.m_endian := by
  have positionLe := wrote.valid.position_le
  have sizeLe := wrote.valid.size_le
  have behind := wrote.position
  obtain ⟨back, done, backValid, nodes, position, size, endian⟩ :=
    setPosition_spec wrote.valid (show start ≤ ba.m_capacity by omega)
  have sameSize : back.m_size = ba.m_size := by omega
  have capacity : back.m_capacity = ba.m_capacity := by
    rw [← backValid.contents_length, nodes, wrote.valid.contents_length]
  refine ⟨back, back.readable.drop bytes.length, done, backValid, ?_, position, sameSize, capacity,
    endian⟩
  have front : back.readable.take bytes.length = bytes := by
    rw [readable, nodes, sameSize, position, List.drop_take, List.take_take,
      Nat.min_eq_left (by omega), wrote.here]
  conv_lhs => rw [← List.take_append_drop bytes.length back.readable, front]

end One

/-! ## Lists of values -/

section Lists

variable {Item : Type} {Form : Type} {Fresh : Type}

/-- Writes the items, with the number of bytes that each one takes. -/
def writeAll (write : ByteArray → Fresh → Item → Except Fault ByteArray) :
    List (Item × Fresh) → ByteArray → Except Fault (ByteArray × List Nat)
  | [], ba => .ok (ba, [])
  | (item, fresh) :: later, ba => do
      let after ← write ba fresh item
      let (last, counts) ← writeAll write later after
      return (last, (after.m_position - ba.m_position) :: counts)

/-- Reads items of these forms, with the number of bytes that each one takes. -/
def readAll (read : Form → ByteArray → Except Fault (ByteArray × Item)) :
    List Form → ByteArray → Except Fault (ByteArray × List Item × List Nat)
  | [], ba => .ok (ba, [], [])
  | form :: later, ba => do
      let (after, item) ← read form ba
      let (last, items, counts) ← readAll read later after
      return (last, item :: items, (after.m_position - ba.m_position) :: counts)

/-- What the items are on the wire. -/
def encodeAll (encode : Item → List UInt8) (items : List (Item × Fresh)) : List UInt8 :=
  items.flatMap fun item => encode item.1

variable {endian : Endian} {encode : Item → List UInt8}

/-- Writers that write what the items are on the wire. -/
theorem writeAll_wrote (write : ByteArray → Fresh → Item → Except Fault ByteArray)
    (writes : ∀ ba start bytes fresh item, Wrote ba start bytes → ba.m_endian = endian →
      ∃ after, write ba fresh item = .ok after ∧ Wrote after start (bytes ++ encode item) ∧
        after.m_endian = endian)
    {ba : ByteArray} {start : Nat} {bytes : List UInt8} (wrote : Wrote ba start bytes)
    (same : ba.m_endian = endian) (items : List (Item × Fresh)) :
    ∃ after, writeAll write items ba =
        .ok (after, items.map fun item => (encode item.1).length) ∧
      Wrote after start (bytes ++ encodeAll encode items) ∧ after.m_endian = endian := by
  induction items generalizing ba bytes with
  | nil =>
      refine ⟨ba, rfl, ?_, same⟩
      rw [encodeAll, List.flatMap_nil, List.append_nil]
      exact wrote
  | cons item later ih =>
      obtain ⟨item, fresh⟩ := item
      obtain ⟨after, done, wroteToo, sameToo⟩ := writes ba start bytes fresh item wrote same
      obtain ⟨last, rest, wroteAll, sameLast⟩ := ih wroteToo sameToo
      have count : after.m_position - ba.m_position = (encode item).length := by
        rw [wroteToo.position, wrote.position, List.length_append]
        omega
      refine ⟨last, ?_, ?_, sameLast⟩
      · rw [writeAll, done]
        change (writeAll write later after >>= fun result => _) = _
        rw [rest]
        change Except.ok (last, (after.m_position - ba.m_position) :: _) = _
        rw [count]
        rfl
      · rw [encodeAll, List.flatMap_cons, ← List.append_assoc]
        exact wroteAll

/-- Readers that find the items on the wire.  `Final` are the items that may be read where the
last node ends. -/
theorem readAll_readable (read : Form → ByteArray → Except Fault (ByteArray × Item))
    (form : Item → Form) (Final : Item → Prop) (filled : ∀ item, encode item ≠ [])
    {items : List Item}
    (reads : ∀ item ∈ items, ∀ ba rest, ba.Valid → ba.m_endian = endian →
      ba.readable = encode item ++ rest → rest ≠ [] ∨ Final item ∨ ba.m_size < ba.m_capacity →
      ∃ after, read (form item) ba = .ok (after, item) ∧ Moved ba after (encode item).length)
    {ba : ByteArray} (valid : ba.Valid) (same : ba.m_endian = endian) {rest : List UInt8}
    (parts : ba.readable = items.flatMap encode ++ rest)
    (roomy : rest ≠ [] ∨ (∀ item ∈ items.getLast?, Final item) ∨ ba.m_size < ba.m_capacity) :
    ∃ after, readAll read (items.map form) ba =
        .ok (after, items, items.map fun item => (encode item).length) ∧
      Moved ba after (items.flatMap encode).length := by
  induction items generalizing ba with
  | nil => exact ⟨ba, rfl, valid, rfl, rfl, rfl, rfl, rfl⟩
  | cons item later ih =>
      rw [List.flatMap_cons, List.append_assoc] at parts
      have here : later.flatMap encode ++ rest ≠ [] ∨ Final item ∨ ba.m_size < ba.m_capacity := by
        cases later with
        | nil =>
            rcases roomy with more | final | room
            · exact .inl more
            · exact .inr (.inl (final item rfl))
            · exact .inr (.inr room)
        | cons next others =>
            refine .inl fun nothing => filled next ?_
            rw [List.flatMap_cons, List.append_assoc] at nothing
            exact (List.append_eq_nil_iff.mp nothing).1
      obtain ⟨after, done, moved⟩ := reads item List.mem_cons_self ba _ valid same parts here
      have roomyToo : rest ≠ [] ∨ (∀ item ∈ later.getLast?, Final item) ∨
          after.m_size < after.m_capacity := by
        rw [moved.size, moved.capacity]
        refine roomy.imp_right (Or.imp_left fun final => ?_)
        cases later with
        | nil => exact fun other member => absurd member (by simp)
        | cons next others => rwa [List.getLast?_cons_cons] at final
      obtain ⟨last, all, movedAll⟩ := ih (fun other member => reads other (List.mem_cons_of_mem _ member))
        moved.valid (moved.endian.trans same) (moved.readable parts) roomyToo
      have count : after.m_position - ba.m_position = (encode item).length := by
        rw [moved.position]
        omega
      refine ⟨last, ?_, ?_⟩
      · rw [List.map_cons, readAll, done]
        change (readAll read (later.map form) after >>= fun result => _) = _
        rw [all]
        change Except.ok (last, item :: later, (after.m_position - ba.m_position) :: _) = _
        rw [count]
        rfl
      · rw [List.flatMap_cons, List.length_append]
        exact moved.trans movedAll

end Lists

end Exhy.ByteArray
