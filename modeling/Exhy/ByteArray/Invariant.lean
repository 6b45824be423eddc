import Exhy.ByteArray.Core
import Mathlib.Tactic.Ring
import Mathlib.Algebra.BigOperators.Group.List.Basic

/-!
# The invariant of the chunked byte array

`Valid` ties the chain and the current-node pointer to the position.  Every
operation keeps it, and under it no null node is ever followed; the `_spec` lemma of
an operation says what it does to the bytes of the whole chain.
-/

namespace Exhy.ByteArray

open Library

/-- The bytes of a chain of nodes, in order. -/
def contents (nodes : List Node) : List UInt8 := (nodes.map Node.ptr).flatten

@[simp] theorem contents_nil : contents [] = [] := rfl

@[simp] theorem contents_cons (node : Node) (nodes : List Node) :
    contents (node :: nodes) = node.ptr ++ contents nodes := rfl

@[simp] theorem contents_append (left right : List Node) :
    contents (left ++ right) = contents left ++ contents right := by
  simp [contents]

theorem contents_length {base : Nat} {nodes : List Node}
    (sizes : ∀ node ∈ nodes, node.size = base) :
    (contents nodes).length = nodes.length * base := by
  induction nodes with
  | nil => simp
  | cons node nodes ih =>
      have headSize : node.ptr.length = base := sizes node (by simp)
      have tailLength := ih fun other member => sizes other (by simp [member])
      rw [contents_cons, List.length_append, headSize, tailLength, List.length_cons]
      ring

@[simp] theorem size_new (s : Nat) (fresh : Nat → UInt8) : (Node.new s fresh).size = s := by
  simp [Node.size, Node.new]

theorem size_memcpy {node : Node} {offset : Nat} {bytes : List UInt8}
    (fits : offset + bytes.length ≤ node.size) :
    (node.memcpy offset bytes).size = node.size :=
  splice_length fits

/-! ## The loops over a chain of equal nodes -/

section Chain

variable {base : Nat}

theorem writeLoop_spec {chain : List Node} {pos_cnode : Nat} (m_position : Nat)
    {buf : List UInt8} (sizes : ∀ node ∈ chain, node.size = base) (offset : pos_cnode < base)
    (room : pos_cnode + buf.length ≤ chain.length * base) :
    ∃ rewritten,
      writeLoop chain pos_cnode m_position buf =
        .ok (rewritten, (pos_cnode + buf.length) / base, m_position + buf.length) ∧
      contents rewritten = splice (contents chain) pos_cnode buf ∧
      rewritten.length = chain.length ∧
      ∀ node ∈ rewritten, node.size = base := by
  induction chain generalizing pos_cnode m_position buf with
  | nil =>
      have emptyBuf : buf = [] := by
        rw [List.length_nil, Nat.zero_mul] at room
        exact List.eq_nil_of_length_eq_zero (by omega)
      subst emptyBuf
      exact ⟨[], by simp [writeLoop, Nat.div_eq_of_lt offset], by simp, rfl, by simp⟩
  | cons cur rest ih =>
      cases buf with
      | nil => exact ⟨cur :: rest, by simp [writeLoop, Nat.div_eq_of_lt offset], by simp, rfl, sizes⟩
      | cons byte bytes =>
          have curSize : cur.size = base := sizes cur (by simp)
          have curLength : cur.ptr.length = base := curSize
          have restSizes : ∀ node ∈ rest, node.size = base := fun node member =>
            sizes node (by simp [member])
          generalize bufEq : byte :: bytes = buf at room ⊢
          have nonempty : 0 < buf.length := by simp [← bufEq]
          by_cases fits : buf.length ≤ base - pos_cnode
          · refine ⟨cur.memcpy pos_cnode buf :: rest, ?_, ?_, by simp, ?_⟩
            · rw [← bufEq, writeLoop, bufEq, curSize, if_pos fits]
              by_cases full : base - pos_cnode = buf.length
              · have total : pos_cnode + buf.length = base := by omega
                rw [if_pos full, total, Nat.div_self (by omega)]
              · rw [if_neg full, Nat.div_eq_of_lt (by omega)]
            · rw [contents_cons, contents_cons, splice_append_left (by omega)]
              rfl
            · intro node member
              rcases List.mem_cons.mp member with rfl | inRest
              · rw [size_memcpy (by omega), curSize]
              · exact restSizes node inRest
          · have headRoom : pos_cnode + (buf.take (base - pos_cnode)).length ≤ cur.size := by
              rw [List.length_take, curSize]
              omega
            obtain ⟨rewritten, tailOk, tailContents, tailLength, tailSizes⟩ :=
              @ih 0 (m_position + (base - pos_cnode)) (buf.drop (base - pos_cnode)) restSizes
                (by omega) (by
                  rw [List.length_cons, Nat.add_mul, Nat.one_mul] at room
                  rw [List.length_drop]
                  omega)
            refine ⟨cur.memcpy pos_cnode (buf.take (base - pos_cnode)) :: rewritten,
              ?_, ?_, by simp [tailLength], ?_⟩
            · have moved : (0 + (buf.length - (base - pos_cnode))) / base + 1 =
                  (pos_cnode + buf.length) / base := by
                rw [← Nat.add_div_right _ (by omega)]
                congr 1
                omega
              rw [← bufEq, writeLoop, bufEq, curSize, if_neg fits, tailOk, List.length_drop]
              simp only [moved]
              congr 3
              omega
            · rw [contents_cons, contents_cons, tailContents,
                splice_append_across (by omega) (by omega), curLength]
              rfl
            · intro node member
              rcases List.mem_cons.mp member with rfl | inRest
              · rw [size_memcpy headRoom, curSize]
              · exact tailSizes node inRest

theorem readLoop_spec {chain : List Node} {pos_cnode : Nat} (m_position : Nat) {size : Nat}
    (sizes : ∀ node ∈ chain, node.size = base) (offset : pos_cnode < base)
    (room : pos_cnode + size ≤ chain.length * base) :
    readLoop chain pos_cnode m_position size =
      .ok (((contents chain).drop pos_cnode).take size, (pos_cnode + size) / base,
        m_position + size) := by
  induction chain generalizing pos_cnode m_position size with
  | nil =>
      have noBytes : size = 0 := by
        rw [List.length_nil, Nat.zero_mul] at room
        omega
      subst noBytes
      simp [readLoop, Nat.div_eq_of_lt offset]
  | cons cur rest ih =>
      cases size with
      | zero => simp [readLoop, Nat.div_eq_of_lt offset]
      | succ size =>
          have curSize : cur.size = base := sizes cur (by simp)
          have curLength : cur.ptr.length = base := curSize
          have dropHead : (contents (cur :: rest)).drop pos_cnode =
              cur.ptr.drop pos_cnode ++ contents rest := by
            rw [contents_cons, List.drop_append_of_le_length (by omega)]
          have headLength : (cur.ptr.drop pos_cnode).length = base - pos_cnode := by
            rw [List.length_drop, curLength]
          rw [readLoop, curSize, dropHead]
          by_cases fits : size + 1 ≤ base - pos_cnode
          · rw [if_pos fits, List.take_append_of_le_length (by omega)]
            by_cases full : base - pos_cnode = size + 1
            · have total : pos_cnode + (size + 1) = base := by omega
              rw [if_pos full, total, Nat.div_self (by omega)]
            · rw [if_neg full, Nat.div_eq_of_lt (by omega)]
          · have moved : (0 + (size + 1 - (base - pos_cnode))) / base + 1 =
                (pos_cnode + (size + 1)) / base := by
              rw [← Nat.add_div_right _ (by omega)]
              congr 1
              omega
            rw [if_neg fits, ih _ (fun node member => sizes node (by simp [member])) (by omega) (by
              rw [List.length_cons, Nat.add_mul, Nat.one_mul] at room
              omega)]
            have headTaken : (cur.ptr.drop pos_cnode).take (base - pos_cnode) =
                (cur.ptr.drop pos_cnode).take (size + 1) := by
              rw [List.take_of_length_le (by omega), List.take_of_length_le (by omega)]
            have total : m_position + (base - pos_cnode) + (size + 1 - (base - pos_cnode)) =
                m_position + (size + 1) := by omega
            simp only [moved, List.drop_zero, headTaken, total, List.take_append, headLength]

theorem seek_spec {nodes : List Node} {v : Nat} (basePos : 1 ≤ base)
    (sizes : ∀ node ∈ nodes, node.size = base) (nonempty : nodes ≠ [])
    (inside : v ≤ nodes.length * base) : seek nodes v = .ok (v / base) := by
  induction nodes generalizing v with
  | nil => exact (nonempty rfl).elim
  | cons cur rest ih =>
      have curSize : cur.size = base := sizes cur (by simp)
      rw [seek, curSize]
      by_cases beyond : v > base
      · rw [List.length_cons, Nat.add_mul, Nat.one_mul] at inside
        have restNonempty : rest ≠ [] := by
          rintro rfl
          simp at inside
          omega
        have quotient : (v - base) / base + 1 = v / base := by
          rw [← Nat.add_div_right _ (by omega)]
          congr 1
          omega
        rw [if_pos beyond, ih (fun node member => sizes node (by simp [member]))
          restNonempty (by omega)]
        simp [quotient]
      · rw [if_neg beyond]
        by_cases atEnd : v = base
        · rw [if_pos atEnd, atEnd, Nat.div_self (by omega)]
        · rw [if_neg atEnd, Nat.div_eq_of_lt (by omega)]

end Chain
/-! ## The invariant -/

/-- What holds between calls.  The current node is the one that contains the
position, and null exactly when the position has reached the capacity. -/
structure Valid (ba : ByteArray) : Prop where
  base_pos : 1 ≤ ba.m_baseSize
  root : ba.nodes ≠ []
  sizes : ∀ node ∈ ba.nodes, node.size = ba.m_baseSize
  capacity : ba.m_capacity = ba.nodes.length * ba.m_baseSize
  position_le : ba.m_position ≤ ba.m_size
  size_le : ba.m_size ≤ ba.m_capacity
  cur : ba.m_cur =
    if ba.m_position < ba.m_capacity then some (ba.m_position / ba.m_baseSize) else none

namespace Valid

variable {ba : ByteArray}

theorem contents_length (valid : ba.Valid) : (contents ba.nodes).length = ba.m_capacity := by
  rw [ByteArray.contents_length valid.sizes, valid.capacity]

/-- A node index is inside the chain exactly when its position is below the capacity. -/
theorem div_lt_iff (valid : ba.Valid) (position : Nat) :
    position / ba.m_baseSize < ba.nodes.length ↔ position < ba.m_capacity := by
  rw [valid.capacity, Nat.div_lt_iff_lt_mul valid.base_pos]

theorem chain_eq (valid : ba.Valid) :
    ba.chain = ba.nodes.drop (ba.m_position / ba.m_baseSize) := by
  rw [chain, valid.cur]
  by_cases inside : ba.m_position < ba.m_capacity
  · rw [if_pos inside]
  · rw [if_neg inside, List.drop_eq_nil_of_le]
    have outside := mt (valid.div_lt_iff ba.m_position).mp inside
    omega

theorem contents_take_chain (valid : ba.Valid) (inside : ba.m_position < ba.m_capacity) :
    (contents (ba.nodes.take (ba.m_position / ba.m_baseSize))).length =
      ba.m_position - ba.m_position % ba.m_baseSize := by
  have indexLt := (valid.div_lt_iff ba.m_position).mpr inside
  have decompose := Nat.div_add_mod ba.m_position ba.m_baseSize
  have sizes : ∀ node ∈ ba.nodes.take (ba.m_position / ba.m_baseSize),
      node.size = ba.m_baseSize := fun node member =>
    valid.sizes node (List.mem_of_mem_take member)
  rw [ByteArray.contents_length sizes]
  rw [List.length_take, Nat.min_eq_left (by omega), Nat.mul_comm]
  omega

/-- The stretch behind the position is as long in the chain as in the whole array. -/
theorem chain_room (valid : ba.Valid) {count : Nat}
    (fits : ba.m_position + count ≤ ba.m_capacity) :
    ba.m_position % ba.m_baseSize + count ≤ ba.chain.length * ba.m_baseSize := by
  have decompose := Nat.div_add_mod ba.m_position ba.m_baseSize
  rw [valid.capacity] at fits
  rw [valid.chain_eq, List.length_drop, Nat.sub_mul, Nat.mul_comm (_ / _)]
  omega

/-- Moving on by `count` bytes moves the current node to where the invariant wants it. -/
theorem advance_eq (valid : ba.Valid) (inside : ba.m_position < ba.m_capacity)
    (count : Nat) :
    ba.advance ((ba.m_position % ba.m_baseSize + count) / ba.m_baseSize) =
      if ba.m_position + count < ba.m_capacity then
        some ((ba.m_position + count) / ba.m_baseSize)
      else none := by
  have moved : ba.m_position / ba.m_baseSize +
      (ba.m_position % ba.m_baseSize + count) / ba.m_baseSize =
        (ba.m_position + count) / ba.m_baseSize := by
    conv_rhs => rw [← Nat.div_add_mod ba.m_position ba.m_baseSize, Nat.add_assoc]
    rw [Nat.mul_add_div valid.base_pos]
  simp only [advance, valid.cur, if_pos inside, moved, valid.div_lt_iff]

end Valid

theorem new_valid {base_size : Nat} (basePos : 1 ≤ base_size) (fresh : Nat → UInt8) :
    (new base_size fresh).Valid where
  base_pos := basePos
  root := by simp [new]
  sizes := by simp [new]
  capacity := by simp [new]
  position_le := Nat.le_refl _
  size_le := Nat.zero_le _
  cur := by
    have positive : 0 < base_size := basePos
    simp [new, positive]

theorem clear_valid {ba : ByteArray} (valid : ba.Valid) : ba.clear.Valid where
  base_pos := valid.base_pos
  root := by simpa [clear] using valid.root
  sizes := fun node member => valid.sizes node (List.mem_of_mem_take member)
  capacity := by
    have nonempty : 1 ≤ ba.nodes.length := List.length_pos_iff.mpr valid.root
    simp [clear, nonempty]
  position_le := Nat.le_refl _
  size_le := Nat.zero_le _
  cur := by
    have positive : 0 < ba.m_baseSize := valid.base_pos
    simp [clear, positive]

theorem setIsLittleEndian_valid {ba : ByteArray} (valid : ba.Valid) (val : Bool) :
    (ba.setIsLittleEndian val).Valid :=
  ⟨valid.base_pos, valid.root, valid.sizes, valid.capacity, valid.position_le,
    valid.size_le, valid.cur⟩

/-- `addCapacity` leaves room for `size` bytes behind the position, and only appends
nodes. -/
theorem addCapacity_spec {ba : ByteArray} (valid : ba.Valid) (fresh : Nat → Nat → UInt8)
    (size : Nat) :
    (ba.addCapacity fresh size).Valid ∧
      (ba.addCapacity fresh size).m_position = ba.m_position ∧
      (ba.addCapacity fresh size).m_size = ba.m_size ∧
      (ba.addCapacity fresh size).m_endian = ba.m_endian ∧
      ba.m_position + size ≤ (ba.addCapacity fresh size).m_capacity ∧
      ∃ added, contents (ba.addCapacity fresh size).nodes = contents ba.nodes ++ added := by
  have positionLe : ba.m_position ≤ ba.m_capacity := valid.position_le.trans valid.size_le
  by_cases empty : size = 0
  · have same : ba.addCapacity fresh size = ba := by rw [addCapacity, if_pos empty]
    rw [same]
    exact ⟨valid, rfl, rfl, rfl, by omega, [], by simp⟩
  by_cases enough : size ≤ ba.getCapacity
  · have same : ba.addCapacity fresh size = ba := by
      simp only [addCapacity, if_neg empty, if_pos enough]
    rw [getCapacity] at enough
    rw [same]
    exact ⟨valid, rfl, rfl, rfl, by omega, [], by simp⟩
  · obtain ⟨count, countEq⟩ : ∃ count,
        (size - (ba.m_capacity - ba.m_position) + ba.m_baseSize - 1) / ba.m_baseSize = count :=
      ⟨_, rfl⟩
    have grown : ba.addCapacity fresh size =
        { ba with
          nodes := ba.nodes ++
            (List.range count).map fun i => Node.new ba.m_baseSize (fresh i)
          m_capacity := ba.m_capacity + count * ba.m_baseSize
          m_cur :=
            if ba.m_capacity - ba.m_position = 0 then
              (if count = 0 then none else some ba.nodes.length)
            else ba.m_cur } := by
      rw [getCapacity] at enough
      simp only [addCapacity, if_neg empty, getCapacity, if_neg enough, countEq]
    rw [getCapacity] at enough
    rw [grown]
    have missing : size - (ba.m_capacity - ba.m_position) ≤ count * ba.m_baseSize := by
      have decompose := Nat.div_add_mod
        (size - (ba.m_capacity - ba.m_position) + ba.m_baseSize - 1) ba.m_baseSize
      have remainder := Nat.mod_lt
        (size - (ba.m_capacity - ba.m_position) + ba.m_baseSize - 1) valid.base_pos
      rw [countEq, Nat.mul_comm] at decompose
      omega
    have countPos : count ≠ 0 := by
      rintro rfl
      omega
    refine ⟨⟨valid.base_pos, by simp [valid.root], ?_, ?_, valid.position_le, ?_, ?_⟩,
      rfl, rfl, rfl, ?_, _, contents_append _ _⟩
    · intro node member
      rcases List.mem_append.mp member with old | added
      · exact valid.sizes node old
      · obtain ⟨index, -, rfl⟩ := List.mem_map.mp added
        exact size_new _ _
    · simp only [List.length_append, List.length_map, List.length_range, Nat.add_mul,
        valid.capacity]
    · exact Nat.le_add_right_of_le valid.size_le
    · -- the null pointer is replaced by the first new node exactly at the old end
      have growth : ba.m_position < ba.m_capacity + count * ba.m_baseSize := by omega
      simp only [if_pos growth]
      by_cases atEnd : ba.m_capacity - ba.m_position = 0
      · have position : ba.m_position = ba.nodes.length * ba.m_baseSize := by
          rw [← valid.capacity]
          omega
        rw [if_pos atEnd, if_neg countPos, position, Nat.mul_div_cancel _ valid.base_pos]
      · rw [if_neg atEnd, valid.cur, if_pos (by omega)]
    · change ba.m_position + size ≤ ba.m_capacity + count * ba.m_baseSize
      omega

theorem write_spec {ba : ByteArray} (valid : ba.Valid) (fresh : Nat → Nat → UInt8)
    (buf : List UInt8) :
    ∃ after added,
      ba.write fresh buf = .ok after ∧ after.Valid ∧
      contents after.nodes = splice (contents ba.nodes ++ added) ba.m_position buf ∧
      ba.m_position + buf.length ≤ (contents ba.nodes ++ added).length ∧
      after.m_position = ba.m_position + buf.length ∧
      after.m_size = max ba.m_size (ba.m_position + buf.length) ∧
      after.m_endian = ba.m_endian := by
  by_cases empty : buf.length = 0
  · have emptyBuf : buf = [] := List.eq_nil_of_length_eq_zero empty
    subst emptyBuf
    have positionLe := valid.position_le
    have sizeLe := valid.size_le
    refine ⟨ba, [], by simp [write], valid, by simp, ?_, rfl, by simp; omega, rfl⟩
    rw [List.append_nil, valid.contents_length, List.length_nil]
    omega
  · obtain ⟨grownValid, positionEq, sizeEq, endianEq, room, added, grownContents⟩ :=
      addCapacity_spec valid fresh buf.length
    generalize grownEq : ba.addCapacity fresh buf.length = grown at *
    rw [← positionEq] at room
    have inside : grown.m_position < grown.m_capacity := by omega
    have chainEq := grownValid.chain_eq
    obtain ⟨rewritten, loopOk, newContents, newLength, newSizes⟩ :=
      writeLoop_spec grown.m_position
        (fun node member => grownValid.sizes node (by
          rw [chainEq] at member
          exact List.mem_of_mem_drop member))
        (Nat.mod_lt _ grownValid.base_pos) (grownValid.chain_room room)
    have index : grown.m_cur = some (grown.m_position / grown.m_baseSize) := by
      rw [grownValid.cur, if_pos inside]
    have indexLt := (grownValid.div_lt_iff grown.m_position).mpr inside
    have prefixLength := grownValid.contents_take_chain inside
    have offsetLe := Nat.mod_le grown.m_position grown.m_baseSize
    have restored : contents (grown.restore rewritten) =
        splice (contents grown.nodes) grown.m_position buf := by
      have split : contents grown.nodes =
          contents (grown.nodes.take (grown.m_position / grown.m_baseSize)) ++
            contents grown.chain := by
        rw [chainEq, ← contents_append, List.take_append_drop]
      rw [restore, index, split, splice_append_right (by omega), prefixLength]
      simp only [contents_append, newContents]
      congr 2
      omega
    have restoredLength : (grown.restore rewritten).length = grown.nodes.length := by
      simp only [restore, index, List.length_append, newLength, chainEq, List.length_take,
        List.length_drop, Nat.min_eq_left indexLt.le]
      exact Nat.add_sub_cancel' indexLt.le
    refine ⟨{ grown with
        nodes := grown.restore rewritten
        m_cur := grown.advance
          ((grown.m_position % grown.m_baseSize + buf.length) / grown.m_baseSize)
        m_position := grown.m_position + buf.length
        m_size := if grown.m_position + buf.length > grown.m_size then
          grown.m_position + buf.length else grown.m_size },
      added, ?_, ?_, ?_, ?_, ?_, ?_, endianEq⟩
    · simp only [write, if_neg empty, grownEq, loopOk]
    · refine ⟨grownValid.base_pos, ?_, ?_, ?_, ?_, ?_, ?_⟩
      · intro nil
        simp only at nil
        rw [nil, List.length_nil] at restoredLength
        exact Nat.not_lt_zero _ (restoredLength ▸ indexLt)
      · intro node member
        simp only [restore, index] at member
        rcases List.mem_append.mp member with before | behind
        · exact grownValid.sizes node (List.mem_of_mem_take before)
        · exact newSizes node behind
      · simp only [restoredLength, grownValid.capacity]
      · simp only
        split <;> omega
      · have sizeLe := grownValid.size_le
        simp only
        split <;> omega
      · exact grownValid.advance_eq inside buf.length
    · simp only [restored, grownContents, positionEq]
    · rw [← grownContents, grownValid.contents_length, ← positionEq]
      exact room
    · simp only [positionEq]
    · simp only [positionEq, sizeEq]
      split <;> omega

theorem read_spec {ba : ByteArray} (valid : ba.Valid) {size : Nat} (positive : 1 ≤ size)
    (available : size ≤ ba.getReadSize) :
    ∃ after,
      ba.read size = .ok (after, ((contents ba.nodes).drop ba.m_position).take size) ∧
      after.Valid ∧ after.nodes = ba.nodes ∧ after.m_position = ba.m_position + size ∧
      after.m_size = ba.m_size ∧ after.m_endian = ba.m_endian := by
  have sizeLe := valid.size_le
  rw [getReadSize] at available
  have inside : ba.m_position < ba.m_capacity := by omega
  have indexLt := (valid.div_lt_iff ba.m_position).mpr inside
  have prefixLength := valid.contents_take_chain inside
  have offsetLe := Nat.mod_le ba.m_position ba.m_baseSize
  have chainEq := valid.chain_eq
  have chainNonempty : ba.chain ≠ [] := by
    intro nil
    rw [chainEq, List.drop_eq_nil_iff] at nil
    exact Nat.not_lt.mpr nil indexLt
  have loopOk := readLoop_spec ba.m_position
    (fun node member => valid.sizes node (by
      rw [chainEq] at member
      exact List.mem_of_mem_drop member))
    (Nat.mod_lt _ valid.base_pos) (valid.chain_room (by omega : ba.m_position + size ≤ ba.m_capacity))
  have behind : (contents ba.chain).drop (ba.m_position % ba.m_baseSize) =
      (contents ba.nodes).drop ba.m_position := by
    have split : contents ba.nodes =
        contents (ba.nodes.take (ba.m_position / ba.m_baseSize)) ++ contents ba.chain := by
      rw [chainEq, ← contents_append, List.take_append_drop]
    have passed :
        (contents (ba.nodes.take (ba.m_position / ba.m_baseSize))).drop ba.m_position = [] :=
      List.drop_eq_nil_of_le (by omega)
    rw [split, List.drop_append, passed, List.nil_append, prefixLength]
    congr 1
    omega
  rw [behind] at loopOk
  refine ⟨{ ba with
      m_cur := ba.advance ((ba.m_position % ba.m_baseSize + size) / ba.m_baseSize)
      m_position := ba.m_position + size },
    by simp only [read, if_neg chainNonempty, loopOk], ?_, rfl, rfl, rfl, rfl⟩
  refine ⟨valid.base_pos, valid.root, valid.sizes, valid.capacity, ?_, valid.size_le, ?_⟩
  · simp only
    omega
  · exact valid.advance_eq inside size

theorem setPosition_spec {ba : ByteArray} (valid : ba.Valid) {v : Nat}
    (inside : v ≤ ba.m_capacity) :
    ∃ after,
      ba.setPosition v = .ok after ∧ after.Valid ∧ after.nodes = ba.nodes ∧
      after.m_position = v ∧ after.m_size = max ba.m_size v ∧
      after.m_endian = ba.m_endian := by
  have sizeLe := valid.size_le
  have walked := seek_spec valid.base_pos valid.sizes valid.root (v := v)
    (by rw [← valid.capacity]; exact inside)
  refine ⟨{ ba with
      m_position := v
      m_size := if v > ba.m_size then v else ba.m_size
      m_cur := if v / ba.m_baseSize < ba.nodes.length then some (v / ba.m_baseSize)
        else none },
    by simp only [setPosition, if_neg (Nat.not_lt.mpr inside), walked], ?_, rfl, rfl, ?_, rfl⟩
  · refine ⟨valid.base_pos, valid.root, valid.sizes, valid.capacity, ?_, ?_, ?_⟩
    · simp only
      split <;> omega
    · simp only
      split <;> omega
    · simp only [valid.div_lt_iff]
  · simp only
    split <;> omega

end Exhy.ByteArray
