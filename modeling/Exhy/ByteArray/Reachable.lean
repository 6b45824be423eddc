import Exhy.ByteArray.Buffers
import Exhy.ByteArray.Refinement
import Exhy.ByteArray.Strings
import Exhy.Library.Transition

/-!
# Reachable byte arrays

Every sequence of calls that follow no null pointer, reads behind the written bytes included.
`read` does not look at `m_size`, so the position may pass it.  What holds in every state is the
invariant without that bound.
-/

namespace Exhy.ByteArray

open Library

/-! ## Calls -/

/-- A call, or a store through a buffer that points into a node. -/
inductive Call where
  | op (op : Op)
  | getWriteBuffers (fresh : Nat → Nat → UInt8) (len : Nat)
  | store (iov : Iovec) (bytes : List UInt8)

inductive Step : ByteArray → Call → ByteArray → Prop where
  | op {ba after : ByteArray} {output : List UInt8} (op : Op) :
      op.exec ba = .ok (after, output) → Step ba (.op op) after
  | getWriteBuffers {ba after : ByteArray} {iovs : List Iovec} {size : Nat}
      (fresh : Nat → Nat → UInt8) (len : Nat) :
      ba.getWriteBuffers fresh len = .ok (after, iovs, size) →
      Step ba (.getWriteBuffers fresh len) after
  | store {ba : ByteArray} (iov : Iovec) (bytes : List UInt8) :
      iov.node < ba.nodes.length → iov.offset + bytes.length ≤ ba.m_baseSize →
      Step ba (.store iov bytes)
        { ba with nodes := ba.nodes.modify iov.node fun node => node.memcpy iov.offset bytes }

/-- Every run of a byte array whose nodes are not empty. -/
def byteArrays : System ByteArray Call where
  initial ba := ∃ base_size fresh, 1 ≤ base_size ∧ ba = new base_size fresh
  step := Step

/-- A state between calls. -/
def Reachable (ba : ByteArray) : Prop := byteArrays.Reachable ba

/-! ## What every state keeps -/

/-- The invariant without a bound between the position and the size. -/
structure Layout (ba : ByteArray) : Prop where
  base_pos : 1 ≤ ba.m_baseSize
  root : ba.nodes ≠ []
  sizes : ∀ node ∈ ba.nodes, node.size = ba.m_baseSize
  capacity : ba.m_capacity = ba.nodes.length * ba.m_baseSize
  position_le : ba.m_position ≤ ba.m_capacity
  size_le : ba.m_size ≤ ba.m_capacity
  cur : ba.m_cur =
    if ba.m_position < ba.m_capacity then some (ba.m_position / ba.m_baseSize) else none

/-- The same bytes with another size. -/
def withSize (ba : ByteArray) (m_size : Nat) : ByteArray := { ba with m_size := m_size }

variable {ba after : ByteArray}

theorem Valid.layout (valid : ba.Valid) : ba.Layout where
  base_pos := valid.base_pos
  root := valid.root
  sizes := valid.sizes
  capacity := valid.capacity
  position_le := valid.position_le.trans valid.size_le
  size_le := valid.size_le
  cur := valid.cur

namespace Layout

variable (layout : ba.Layout)
include layout

theorem valid (bound : ba.m_position ≤ ba.m_size) : ba.Valid :=
  ⟨layout.base_pos, layout.root, layout.sizes, layout.capacity, bound, layout.size_le, layout.cur⟩

theorem withSize {m_size : Nat} (fits : m_size ≤ ba.m_capacity) : (ba.withSize m_size).Layout :=
  ⟨layout.base_pos, layout.root, layout.sizes, layout.capacity, layout.position_le, fits, layout.cur⟩

/-- With a size that reaches the position the whole invariant holds. -/
theorem raised : (ba.withSize ba.m_capacity).Valid :=
  (layout.withSize (Nat.le_refl _)).valid layout.position_le

end Layout

/-! ## Calls and the size -/

section Size

variable (ba) (m_size : Nat) (fresh : Nat → Nat → UInt8)

theorem addCapacity_withSize (size : Nat) :
    (ba.withSize m_size).addCapacity fresh size = (ba.addCapacity fresh size).withSize m_size := by
  rw [addCapacity, addCapacity]
  split
  · rfl
  · dsimp only [getCapacity, withSize]
    split <;> rfl

/-- `write` looks at the size only where it raises it. -/
theorem write_withSize {buf : List UInt8} (some : buf ≠ []) :
    (ba.withSize m_size).write fresh buf = (ba.write fresh buf).map fun after =>
      after.withSize (max m_size after.m_position) := by
  have length : buf.length ≠ 0 := mt List.eq_nil_of_length_eq_zero some
  rw [write, write, if_neg length, if_neg length, addCapacity_withSize]
  generalize ba.addCapacity fresh buf.length = grown
  have chain : (grown.withSize m_size).chain = grown.chain := rfl
  have restore : (grown.withSize m_size).restore = grown.restore := rfl
  have advance : (grown.withSize m_size).advance = grown.advance := rfl
  dsimp only
  rw [chain, restore, advance]
  dsimp only [withSize]
  cases writeLoop grown.chain (grown.m_position % grown.m_baseSize) grown.m_position buf with
  | error fault => rfl
  | ok result =>
      have largest : (if result.2.2 > m_size then result.2.2 else m_size) = max m_size result.2.2 := by
        split <;> omega
      dsimp only [Except.map]
      congr 2

end Size

/-! ## Reading -/

/-- Behind the last node the loop follows the null pointer. -/
theorem readLoop_beyond {base : Nat} {chain : List Node} {pos_cnode : Nat} (m_position : Nat)
    {size : Nat} (sizes : ∀ node ∈ chain, node.size = base) (offset : pos_cnode ≤ base)
    (positive : 0 < size) (beyond : chain.length * base < pos_cnode + size) :
    readLoop chain pos_cnode m_position size = .error .nullNode := by
  obtain ⟨more, rfl⟩ := Nat.exists_eq_add_of_lt positive
  rw [Nat.zero_add] at beyond ⊢
  induction chain generalizing pos_cnode m_position more with
  | nil => rfl
  | cons cur rest ih =>
      have curSize : cur.size = base := sizes cur List.mem_cons_self
      rw [List.length_cons, Nat.succ_mul] at beyond
      have onward : ¬ more + 1 ≤ base - pos_cnode := by omega
      obtain ⟨left, isLeft⟩ := Nat.exists_eq_add_of_lt (Nat.lt_of_not_le onward)
      have later := ih (m_position + (base - pos_cnode))
        (fun node member => sizes node (List.mem_cons_of_mem _ member)) (Nat.zero_le base) left
        (Nat.succ_pos _) (by omega)
      have same : more + 1 - (base - pos_cnode) = left + 1 := by omega
      rw [readLoop, curSize, if_neg onward, same, later]

/-- The bytes in front of the current node are passed over. -/
theorem Layout.drop_chain (layout : ba.Layout) (inside : ba.m_position < ba.m_capacity) :
    (contents ba.chain).drop (ba.m_position % ba.m_baseSize) =
      (contents ba.nodes).drop ba.m_position := by
  have chainEq : ba.chain = ba.nodes.drop (ba.m_position / ba.m_baseSize) := layout.raised.chain_eq
  have before : (contents (ba.nodes.take (ba.m_position / ba.m_baseSize))).length =
      ba.m_position - ba.m_position % ba.m_baseSize := layout.raised.contents_take_chain inside
  have offsetLe := Nat.mod_le ba.m_position ba.m_baseSize
  have split : contents ba.nodes =
      contents (ba.nodes.take (ba.m_position / ba.m_baseSize)) ++ contents ba.chain := by
    rw [chainEq, ← contents_append, List.take_append_drop]
  have passed :
      (contents (ba.nodes.take (ba.m_position / ba.m_baseSize))).drop ba.m_position = [] :=
    List.drop_eq_nil_of_le (by omega)
  have rest : ba.m_position - (ba.m_position - ba.m_position % ba.m_baseSize) =
      ba.m_position % ba.m_baseSize := by omega
  rw [split, List.drop_append, passed, List.nil_append, before, rest]

/-- A read of any size: the bytes behind the position, or the null pointer. -/
theorem Layout.read_eq (layout : ba.Layout) (size : Nat) :
    ba.read size =
      if ba.m_position < ba.m_capacity ∧ ba.m_position + size ≤ ba.m_capacity then
        .ok ({ ba with
          m_position := ba.m_position + size
          m_cur := if ba.m_position + size < ba.m_capacity then
            some ((ba.m_position + size) / ba.m_baseSize) else none },
          ((contents ba.nodes).drop ba.m_position).take size)
      else .error .nullNode := by
  have valid := layout.raised
  have chainEq : ba.chain = ba.nodes.drop (ba.m_position / ba.m_baseSize) := valid.chain_eq
  have indexLt : ba.m_position / ba.m_baseSize < ba.nodes.length ↔ ba.m_position < ba.m_capacity :=
    valid.div_lt_iff ba.m_position
  have isNil : ba.chain = [] ↔ ¬ ba.m_position < ba.m_capacity := by
    rw [chainEq, List.drop_eq_nil_iff, ← indexLt, Nat.not_lt]
  have sizes : ∀ node ∈ ba.chain, node.size = ba.m_baseSize := by
    intro node member
    rw [chainEq] at member
    exact layout.sizes node (List.mem_of_mem_drop member)
  have offset := Nat.mod_lt ba.m_position layout.base_pos
  rw [read]
  by_cases inside : ba.m_position < ba.m_capacity
  · have offsetLe := Nat.mod_le ba.m_position ba.m_baseSize
    rw [if_neg (mt isNil.mp (not_not.mpr inside))]
    have length : ba.chain.length * ba.m_baseSize =
        ba.m_capacity - (ba.m_position - ba.m_position % ba.m_baseSize) := by
      have decompose := Nat.div_add_mod ba.m_position ba.m_baseSize
      rw [chainEq, List.length_drop, Nat.sub_mul, ← layout.capacity, Nat.mul_comm (_ / _)]
      omega
    by_cases fits : ba.m_position + size ≤ ba.m_capacity
    · have loop := readLoop_spec ba.m_position sizes offset
        (show ba.m_position % ba.m_baseSize + size ≤ ba.chain.length * ba.m_baseSize by omega)
      have advance : ba.advance ((ba.m_position % ba.m_baseSize + size) / ba.m_baseSize) = _ :=
        valid.advance_eq inside size
      rw [loop, if_pos ⟨inside, fits⟩]
      dsimp only
      rw [advance, layout.drop_chain inside]
      rfl
    · have loop := readLoop_beyond ba.m_position sizes offset.le
        (show 0 < size by omega)
        (show ba.chain.length * ba.m_baseSize < ba.m_position % ba.m_baseSize + size by omega)
      rw [loop, if_neg fun both => fits both.2]
  · rw [if_pos (isNil.mpr inside), if_neg fun both => inside both.1]

/-- What the success of a read says. -/
structure HasRead (ba after : ByteArray) (size : Nat) (bytes : List UInt8) : Prop where
  inside : ba.m_position < ba.m_capacity
  fits : ba.m_position + size ≤ ba.m_capacity
  bytes : bytes = ((contents ba.nodes).drop ba.m_position).take size
  after : after = { ba with
    m_position := ba.m_position + size
    m_cur := if ba.m_position + size < ba.m_capacity then
      some ((ba.m_position + size) / ba.m_baseSize) else none }

theorem Layout.hasRead (layout : ba.Layout) {size : Nat} {bytes : List UInt8}
    (done : ba.read size = .ok (after, bytes)) : HasRead ba after size bytes := by
  rw [layout.read_eq] at done
  split at done
  next both =>
    cases done
    exact ⟨both.1, both.2, rfl, rfl⟩
  next => cases done

theorem Layout.read_ok (layout : ba.Layout) {size : Nat} (inside : ba.m_position < ba.m_capacity)
    (fits : ba.m_position + size ≤ ba.m_capacity) :
    ∃ after, ba.read size = .ok (after, ((contents ba.nodes).drop ba.m_position).take size) := by
  rw [layout.read_eq, if_pos ⟨inside, fits⟩]
  exact ⟨_, rfl⟩

/-! ## Every call keeps the layout -/

theorem Layout.read (layout : ba.Layout) {size : Nat} {bytes : List UInt8}
    (done : ba.read size = .ok (after, bytes)) : after.Layout := by
  obtain ⟨-, fits, -, rfl⟩ := layout.hasRead done
  exact ⟨layout.base_pos, layout.root, layout.sizes, layout.capacity, fits, layout.size_le, rfl⟩

/-- A write is that of an array whose size reaches the position. -/
theorem Layout.write_spec (layout : ba.Layout) (fresh : Nat → Nat → UInt8) {buf : List UInt8}
    (some : buf ≠ []) :
    ∃ after added,
      ba.write fresh buf = .ok after ∧ after.Valid ∧
      contents after.nodes = splice (contents ba.nodes ++ added) ba.m_position buf ∧
      ba.m_position + buf.length ≤ (contents ba.nodes ++ added).length ∧
      after.m_position = ba.m_position + buf.length ∧
      after.m_size = max ba.m_size (ba.m_position + buf.length) := by
  have raised := write_withSize ba ba.m_capacity fresh some
  have same := write_withSize ba ba.m_size fresh some
  obtain ⟨last, added, done, valid, bytes, fits, position, size, -⟩ :=
    ByteArray.write_spec layout.raised fresh buf
  rw [done] at raised
  cases written : ba.write fresh buf with
  | error fault =>
      rw [written] at raised
      cases raised
  | ok after =>
      rw [written] at raised
      rw [show ba.withSize ba.m_size = ba from rfl, written] at same
      obtain rfl : last = after.withSize (max ba.m_capacity after.m_position) := Except.ok.inj raised
      have sizeEq : after.m_size = max ba.m_size after.m_position :=
        congrArg m_size (Except.ok.inj same)
      have position : after.m_position = ba.m_position + buf.length := position
      have bound : max ba.m_capacity after.m_position ≤ after.m_capacity := valid.size_le
      have sizeLe := layout.size_le
      refine ⟨after, added, rfl, ?_, bytes, fits, position, position ▸ sizeEq⟩
      exact ⟨valid.base_pos, valid.root, valid.sizes, valid.capacity, by omega, by omega, valid.cur⟩

/-- Room behind the position, in the same nodes and new ones. -/
theorem Layout.addCapacity_spec (layout : ba.Layout) (fresh : Nat → Nat → UInt8) (size : Nat) :
    (ba.addCapacity fresh size).Layout ∧
      (ba.addCapacity fresh size).m_position = ba.m_position ∧
      (ba.addCapacity fresh size).m_size = ba.m_size ∧
      ba.m_position + size ≤ (ba.addCapacity fresh size).m_capacity ∧
      ∃ added, contents (ba.addCapacity fresh size).nodes = contents ba.nodes ++ added := by
  have same := addCapacity_withSize ba ba.m_capacity fresh size
  obtain ⟨valid, position, capacity, -, room, added, bytes⟩ :=
    ByteArray.addCapacity_spec layout.raised fresh size
  have sizeEq : (ba.addCapacity fresh size).m_size = ba.m_size := by
    have own := congrArg m_size (addCapacity_withSize ba ba.m_size fresh size)
    exact own
  rw [same] at valid position room bytes
  have bound : ba.m_capacity ≤ (ba.addCapacity fresh size).m_capacity := by
    have raisedLe := valid.size_le
    rw [same] at capacity
    exact (capacity ▸ raisedLe : _)
  refine ⟨?_, position, sizeEq, room, added, bytes⟩
  refine ⟨valid.base_pos, valid.root, valid.sizes, valid.capacity, ?_, ?_, valid.cur⟩
  · exact Nat.le_trans (Nat.le_add_right _ size) (position ▸ room)
  · rw [sizeEq]
    exact layout.size_le.trans bound

theorem Layout.setPosition_spec (layout : ba.Layout) {v : Nat} (inside : v ≤ ba.m_capacity) :
    ba.setPosition v = .ok { ba with
      m_position := v
      m_size := max ba.m_size v
      m_cur := if v < ba.m_capacity then some (v / ba.m_baseSize) else none } := by
  have walked := seek_spec layout.base_pos layout.sizes layout.root (v := v)
    (by rw [← layout.capacity]; exact inside)
  have indexLt : v / ba.m_baseSize < ba.nodes.length ↔ v < ba.m_capacity :=
    layout.raised.div_lt_iff v
  have largest : (if v > ba.m_size then v else ba.m_size) = max ba.m_size v := by
    split <;> omega
  rw [setPosition, if_neg (Nat.not_lt.mpr inside), walked]
  dsimp only
  rw [largest, if_congr indexLt rfl rfl]

theorem Layout.setPosition (layout : ba.Layout) {v : Nat} (done : ba.setPosition v = .ok after) :
    after.Layout := by
  have inside : v ≤ ba.m_capacity := by
    rw [ByteArray.setPosition] at done
    split at done
    next => cases done
    next below => exact Nat.le_of_not_gt below
  rw [layout.setPosition_spec inside] at done
  cases done
  exact ⟨layout.base_pos, layout.root, layout.sizes, layout.capacity, inside,
    max_le layout.size_le inside, rfl⟩

theorem Layout.clear (layout : ba.Layout) : ba.clear.Layout :=
  (clear_valid layout.raised).layout

theorem Layout.exec (layout : ba.Layout) {op : Op} {output : List UInt8}
    (done : op.exec ba = .ok (after, output)) : after.Layout := by
  cases op with
  | write fresh buf =>
      obtain ⟨written, isWritten, same⟩ := eq_ok_of_map done
      cases same
      by_cases some : buf = []
      · rw [some] at isWritten
        cases isWritten
        exact layout
      · obtain ⟨last, -, isLast, valid, -⟩ := layout.write_spec fresh some
        cases isWritten.symm.trans isLast
        exact valid.layout
  | read size => exact layout.read done
  | setPosition v =>
      obtain ⟨moved, isMoved, same⟩ := eq_ok_of_map done
      cases same
      exact layout.setPosition isMoved
  | clear =>
      cases done
      exact layout.clear
  | setIsLittleEndian val =>
      cases done
      exact ⟨layout.base_pos, layout.root, layout.sizes, layout.capacity, layout.position_le,
        layout.size_le, layout.cur⟩

theorem getWriteBuffers_state {fresh : Nat → Nat → UInt8} {len size : Nat} {iovs : List Iovec}
    (done : ba.getWriteBuffers fresh len = .ok (after, iovs, size)) :
    after = ba.addCapacity fresh len := by
  rw [getWriteBuffers] at done
  split at done
  next none =>
    cases done
    rw [none, addCapacity, if_pos rfl]
  next =>
    dsimp only at done
    split at done
    next => cases done
    next =>
      obtain ⟨looped, -, same⟩ := eq_ok_of_map done
      cases same
      rfl

theorem Step.layout {call : Call} (stepped : Step ba call after) (layout : ba.Layout) :
    after.Layout := by
  cases stepped with
  | op op done => exact layout.exec done
  | getWriteBuffers fresh len done =>
      rw [getWriteBuffers_state done]
      exact (layout.addCapacity_spec fresh len).1
  | store iov bytes inside fits =>
      refine ⟨layout.base_pos, ?_, sizes_modify layout.sizes fits, ?_, layout.position_le,
        layout.size_le, layout.cur⟩
      · intro nothing
        rw [List.modify_eq_nil_iff] at nothing
        exact layout.root nothing
      · rw [List.length_modify]
        exact layout.capacity

/-- Every state that calls reach has the layout. -/
theorem reaches_layout {allowed : ByteArray → Call → Prop} (reached : byteArrays.Reaches allowed ba) :
    ba.Layout := by
  apply reached.invariant Layout
  · rintro _ ⟨base_size, fresh, basePos, rfl⟩
    exact (new_valid basePos fresh).layout
  · intro _ _ _ _ layout _ stepped
    exact stepped.layout layout

/-! ## Four bytes in nodes of two -/

def fourBytes (position : Nat) : ByteArray where
  m_baseSize := 2
  m_position := position
  m_capacity := 4
  m_size := 4
  m_endian := .EXHY_BIG_ENDIAN
  nodes := [⟨[1, 2]⟩, ⟨[3, 4]⟩]
  m_cur := if position < 4 then some (position / 2) else none

theorem reachable_fourBytes {position : Nat} (inside : position ≤ 4) :
    byteArrays.Reachable (fourBytes position) := by
  have start : byteArrays.Reachable (new 2 fun _ => 0) := .initial ⟨2, _, by decide, rfl⟩
  have written : byteArrays.Reachable (fourBytes 4) :=
    .step start trivial (.op (.write (fun _ _ => 0) [1, 2, 3, 4]) rfl)
  apply System.Reaches.step written trivial
  apply @Step.op _ _ [] (.setPosition position)
  rw [Op.exec, (reaches_layout written).setPosition_spec inside, fourBytes, Nat.max_eq_left inside]
  rfl

end Exhy.ByteArray
