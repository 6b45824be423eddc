import Exhy.ByteArray.Reachable

/-!
# Reading from any position

`read(buf, size, position)` copies every piece from the current node, whichever nodes its own
cursor passes.
-/

namespace Exhy.ByteArray

open Library

/-- The loop of `read(buf, size, position)`; the cursor `cur` is followed, but nothing is copied
from it. -/
def readAtLoop (m_cur : Node) : (cur : List Node) → (pos_cnode size : Nat) →
    Except Fault (List UInt8)
  | _, _, 0 => .ok []
  | [], _, _ + 1 => .error .nullNode
  | _ :: next, pos_cnode, size + 1 =>
      let cap_left := m_cur.size - pos_cnode
      if size + 1 ≤ cap_left then .ok ((m_cur.ptr.drop pos_cnode).take (size + 1))
      else
        match readAtLoop m_cur next 0 (size + 1 - cap_left) with
        | .error fault => .error fault
        | .ok bytes => .ok ((m_cur.ptr.drop pos_cnode).take cap_left ++ bytes)

/-- `read(buf, size, position)`. -/
def readAt (ba : ByteArray) (size position : Nat) : Except Fault (List UInt8) :=
  match ba.chain with
  | [] => .error .nullNode
  | cur :: next => readAtLoop cur (cur :: next) (position % ba.m_baseSize) size

/-- `toString()`; none where the position has passed the size, which `resize` refuses, or where
`read` follows a null pointer. -/
def toString (ba : ByteArray) : Option (List UInt8) :=
  if ba.m_size < ba.m_position then none
  else if ba.getReadSize = 0 then some []
  else (ba.readAt ba.getReadSize ba.m_position).toOption

variable {ba : ByteArray}

/-! ## What is copied -/

/-- Where the current node starts. -/
def curStart (ba : ByteArray) : Nat := ba.m_position / ba.m_baseSize * ba.m_baseSize

theorem readAtLoop_spec {base : Nat} {m_cur : Node} (isSize : m_cur.size = base)
    {cur : List Node} {pos_cnode size : Nat} (offset : pos_cnode < base)
    (room : pos_cnode + size ≤ cur.length * base) :
    ∃ bytes, readAtLoop m_cur cur pos_cnode size = .ok bytes ∧ bytes.length = size ∧
      ∀ index < size, bytes[index]? = m_cur.ptr[(pos_cnode + index) % base]? := by
  have length : m_cur.ptr.length = base := isSize
  induction cur generalizing pos_cnode size with
  | nil =>
      obtain rfl : size = 0 := by
        rw [List.length_nil, Nat.zero_mul] at room
        omega
      exact ⟨[], rfl, rfl, nofun⟩
  | cons node next ih =>
      cases size with
      | zero => exact ⟨[], rfl, rfl, nofun⟩
      | succ size =>
          have inside : ∀ index, pos_cnode + index < base →
              (m_cur.ptr.drop pos_cnode)[index]? = m_cur.ptr[(pos_cnode + index) % base]? := by
            intro index below
            rw [List.getElem?_drop, Nat.mod_eq_of_lt below]
          rw [List.length_cons, Nat.succ_mul] at room
          rw [readAtLoop, isSize]
          by_cases fits : size + 1 ≤ base - pos_cnode
          · refine ⟨_, if_pos fits, ?_, ?_⟩
            · rw [List.length_take, List.length_drop, length]
              omega
            · intro index below
              rw [List.getElem?_take_of_lt below]
              exact inside index (by omega)
          · obtain ⟨bytes, later, laterLength, laterBytes⟩ :=
              @ih 0 (size + 1 - (base - pos_cnode)) (by omega) (by omega)
            have first : ((m_cur.ptr.drop pos_cnode).take (base - pos_cnode)).length =
                base - pos_cnode := by
              rw [List.length_take, List.length_drop, length, Nat.min_self]
            refine ⟨_, by rw [if_neg fits, later], ?_, ?_⟩
            · rw [List.length_append, first, laterLength]
              omega
            · intro index below
              rcases Nat.lt_or_ge index (base - pos_cnode) with here | behind
              · rw [List.getElem?_append_left (by omega), List.getElem?_take_of_lt here]
                exact inside index (by omega)
              · have place : pos_cnode + index = index - (base - pos_cnode) + base := by omega
                rw [List.getElem?_append_right (by omega), first, laterBytes _ (by omega),
                  Nat.zero_add, place, Nat.add_mod_right]

theorem readAtLoop_beyond {base : Nat} {m_cur : Node} (isSize : m_cur.size = base)
    {cur : List Node} {pos_cnode size : Nat} (offset : pos_cnode < base)
    (beyond : cur.length * base < pos_cnode + size) (positive : 0 < size) :
    readAtLoop m_cur cur pos_cnode size = .error .nullNode := by
  induction cur generalizing pos_cnode size with
  | nil =>
      obtain ⟨more, rfl⟩ := Nat.exists_eq_add_of_lt positive
      rw [Nat.zero_add]
      rfl
  | cons node next ih =>
      obtain ⟨more, rfl⟩ := Nat.exists_eq_add_of_lt positive
      rw [Nat.zero_add] at beyond ⊢
      rw [List.length_cons, Nat.succ_mul] at beyond
      have onward : ¬ more + 1 ≤ base - pos_cnode := by omega
      rw [readAtLoop, isSize, if_neg onward, ih (by omega) (by omega) (by omega)]

/-- `read(buf, size, position)` ends when the current node and those behind it are as many as it
cuts the stretch into; it has copied the bytes of the current node at the same offsets. -/
theorem Layout.readAt_spec (layout : ba.Layout) (size position : Nat) :
    if ba.m_position < ba.m_capacity ∧
        ba.curStart + position % ba.m_baseSize + size ≤ ba.m_capacity then
      ∃ bytes, ba.readAt size position = .ok bytes ∧ bytes.length = size ∧
        ∀ index < size, bytes[index]? =
          (contents ba.nodes)[ba.curStart + (position + index) % ba.m_baseSize]?
    else ba.readAt size position = .error .nullNode := by
  have chainEq : ba.chain = ba.nodes.drop (ba.m_position / ba.m_baseSize) := layout.raised.chain_eq
  have indexLt : ba.m_position / ba.m_baseSize < ba.nodes.length ↔ ba.m_position < ba.m_capacity :=
    layout.raised.div_lt_iff ba.m_position
  have offset := Nat.mod_lt position layout.base_pos
  rw [readAt]
  cases chained : ba.chain with
  | nil =>
      rw [chainEq, List.drop_eq_nil_iff] at chained
      rw [if_neg fun both => absurd (indexLt.mpr both.1) (Nat.not_lt.mpr chained)]
  | cons cur next =>
      have inChain : ba.m_position / ba.m_baseSize < ba.nodes.length := by
        by_contra outside
        rw [chainEq, List.drop_eq_nil_of_le (Nat.not_lt.mp outside)] at chained
        cases chained
      have inside := indexLt.mp inChain
      have curEq : cur = ba.nodes[ba.m_position / ba.m_baseSize] := by
        rw [chainEq, List.drop_eq_getElem_cons inChain] at chained
        exact (List.cons.inj chained).1.symm
      have curSize : cur.size = ba.m_baseSize := by
        rw [curEq]
        exact layout.sizes _ (List.getElem_mem inChain)
      have length : (cur :: next).length = ba.nodes.length - ba.m_position / ba.m_baseSize := by
        rw [← chained, chainEq, List.length_drop]
      have room : (cur :: next).length * ba.m_baseSize = ba.m_capacity - ba.curStart := by
        rw [length, Nat.sub_mul, ← layout.capacity, curStart]
      have startLe : ba.curStart ≤ ba.m_capacity := by
        have decompose := Nat.div_add_mod ba.m_position ba.m_baseSize
        rw [curStart, Nat.mul_comm]
        omega
      by_cases fits : ba.curStart + position % ba.m_baseSize + size ≤ ba.m_capacity
      · rw [if_pos ⟨inside, fits⟩]
        obtain ⟨bytes, done, count, same⟩ := readAtLoop_spec curSize offset
          (show position % ba.m_baseSize + size ≤ (cur :: next).length * ba.m_baseSize by omega)
        refine ⟨bytes, done, count, ?_⟩
        intro index below
        obtain ⟨before, behind, parts, start, -⟩ := contents_split layout.sizes inChain
        have within := Nat.mod_lt (position + index) layout.base_pos
        have curLength : cur.ptr.length = ba.m_baseSize := curSize
        rw [same index below, Nat.mod_add_mod, parts, ← curEq, curStart, ← start, List.append_assoc,
          List.getElem?_append_right (Nat.le_add_right ..), Nat.add_sub_cancel_left,
          List.getElem?_append_left (by omega)]
      · rw [if_neg fun both => fits both.2]
        have onlyIf : ba.curStart + position % ba.m_baseSize ≤ ba.m_capacity := by
          have least : ba.m_baseSize ≤ (cur :: next).length * ba.m_baseSize :=
            Nat.le_mul_of_pos_left _ (Nat.succ_pos _)
          omega
        exact readAtLoop_beyond curSize offset (by omega) (by omega)

/-! ## Against the current position -/

/-- `setPosition(position)` and `read(buf, size)` store these bytes. -/
def ReadsThere (ba : ByteArray) (position size : Nat) (bytes : List UInt8) : Prop :=
  ∃ moved last, ba.setPosition position = .ok moved ∧ moved.read size = .ok (last, bytes)

/-- Each byte of the stretch is that of the current node at the same offset, and from the current
node on there are as many nodes as the stretch is cut into. -/
def Agrees (ba : ByteArray) (position size : Nat) : Prop :=
  ba.m_position < ba.m_capacity ∧ position < ba.m_capacity ∧
    ba.curStart + position % ba.m_baseSize + size ≤ ba.m_capacity ∧
    ∀ index < size, (contents ba.nodes)[position + index]? =
      (contents ba.nodes)[ba.curStart + (position + index) % ba.m_baseSize]?

theorem Layout.readsThere_iff (layout : ba.Layout) {position size : Nat}
    (inside : position + size ≤ ba.m_size) (bytes : List UInt8) :
    ba.ReadsThere position size bytes ↔
      position < ba.m_capacity ∧ bytes = ((contents ba.nodes).drop position).take size := by
  have sizeLe := layout.size_le
  have moved := layout.setPosition_spec (show position ≤ ba.m_capacity by omega)
  constructor
  · rintro ⟨there, last, isThere, isRead⟩
    obtain rfl := Except.ok.inj (moved.symm.trans isThere)
    have read := (layout.setPosition moved).hasRead isRead
    exact ⟨read.inside, read.bytes⟩
  · rintro ⟨below, rfl⟩
    obtain ⟨last, read⟩ := (layout.setPosition moved).read_ok below
      (show position + size ≤ ba.m_capacity by omega)
    exact ⟨_, last, moved, read⟩

/-- A reader from any position gives the bytes there just where they are those of the current
node at the same offsets. -/
theorem Layout.readAt_iff (layout : ba.Layout) {position size : Nat}
    (inside : position + size ≤ ba.m_size) :
    ba.readAt size position = .ok (((contents ba.nodes).drop position).take size) ∧
      position < ba.m_capacity ↔ ba.Agrees position size := by
  have sizeLe := layout.size_le
  have whole : (contents ba.nodes).length = ba.m_capacity := layout.raised.contents_length
  have spec := layout.readAt_spec size position
  split at spec
  next both =>
    obtain ⟨bytes, done, length, same⟩ := spec
    have stretch : (((contents ba.nodes).drop position).take size).length = size := by
      rw [List.length_take, List.length_drop]
      omega
    have byteAt : ∀ index < size, (((contents ba.nodes).drop position).take size)[index]? =
        (contents ba.nodes)[position + index]? := by
      intro index below
      rw [List.getElem?_take_of_lt below, List.getElem?_drop]
    constructor
    · rintro ⟨isDone, below⟩
      obtain rfl := Except.ok.inj (done.symm.trans isDone)
      refine ⟨both.1, below, both.2, ?_⟩
      intro index isIndex
      rw [← byteAt index isIndex, same index isIndex]
    · rintro ⟨-, below, -, agree⟩
      refine ⟨?_, below⟩
      rw [done]
      congr 1
      apply List.ext_getElem?
      intro index
      rcases Nat.lt_or_ge index size with isIndex | outside
      · rw [same index isIndex, byteAt index isIndex, agree index isIndex]
      · rw [List.getElem?_eq_none (by omega), List.getElem?_eq_none (by omega)]
  next outside =>
    constructor
    · rintro ⟨isDone, -⟩
      cases spec.symm.trans isDone
    · rintro ⟨first, -, room, -⟩
      exact absurd ⟨first, room⟩ outside

/-- Positional reads are exact just where the bytes asked for are those of the current node at the
same offsets, and so is `toString()` for the bytes from the position to the size. -/
theorem readAt_exact_iff (reachable : ba.Reachable) :
    (∀ position size, position + size ≤ ba.m_size →
      ((∃ bytes, ba.ReadsThere position size bytes ∧ ba.readAt size position = .ok bytes) ↔
        ba.Agrees position size)) ∧
    (ba.m_position ≤ ba.m_size ∧
        ba.toString = some (((contents ba.nodes).take ba.m_size).drop ba.m_position) ↔
      ba.m_position = ba.m_size ∨
        ba.m_position < ba.m_size ∧ ba.Agrees ba.m_position (ba.m_size - ba.m_position)) := by
  have layout := reaches_layout reachable
  constructor
  · intro position size inside
    rw [← layout.readAt_iff inside]
    constructor
    · rintro ⟨bytes, there, done⟩
      obtain ⟨below, rfl⟩ := (layout.readsThere_iff inside bytes).mp there
      exact ⟨done, below⟩
    · rintro ⟨done, below⟩
      exact ⟨_, (layout.readsThere_iff inside _).mpr ⟨below, rfl⟩, done⟩
  · have sizeLe := layout.size_le
    rw [List.drop_take]
    rcases Nat.lt_trichotomy ba.m_position ba.m_size with before | atEnd | past
    · have inside : ba.m_position + (ba.m_size - ba.m_position) ≤ ba.m_size := by omega
      have some : ¬ ba.getReadSize = 0 := by
        rw [getReadSize]
        omega
      rw [← layout.readAt_iff inside, ByteArray.toString, if_neg (by omega), if_neg some, getReadSize]
      cases done : ba.readAt (ba.m_size - ba.m_position) ba.m_position with
      | error fault =>
          simp [Except.toOption, before.ne]
      | ok bytes =>
          simp [Except.toOption, before.ne, before.le, before, before.trans_le sizeLe]
    · have none : ba.getReadSize = 0 := by
        rw [getReadSize, atEnd, Nat.sub_self]
      rw [ByteArray.toString, if_neg (by omega), if_pos none, atEnd, Nat.sub_self, List.take_zero]
      simp
    · have refused : ¬ ba.m_position ≤ ba.m_size := by omega
      constructor
      · rintro ⟨bound, -⟩
        exact absurd bound refused
      · rintro (same | ⟨before, -⟩)
        · exact absurd same.le refused
        · exact absurd before.le refused

/-- The first two of four bytes are in the current node. -/
theorem readAt_exact_first :
    (fourBytes 0).Agrees 0 2 ∧
      ∃ bytes, (fourBytes 0).ReadsThere 0 2 bytes ∧ (fourBytes 0).readAt 2 0 = .ok bytes := by
  have agrees : (fourBytes 0).Agrees 0 2 := ⟨by decide, by decide, by decide, by decide⟩
  exact ⟨agrees, ((readAt_exact_iff (reachable_fourBytes (by decide))).1 0 2 (by decide)).mpr agrees⟩

/-- Across two nodes the first one is copied twice. -/
theorem toString_repeats :
    (fourBytes 0).Reachable ∧ (fourBytes 0).toString = some [1, 2, 1, 2] ∧
      ((contents (fourBytes 0).nodes).take (fourBytes 0).m_size).drop (fourBytes 0).m_position =
        [1, 2, 3, 4] ∧
      ¬ ∃ bytes, (fourBytes 0).ReadsThere 0 4 bytes ∧ (fourBytes 0).readAt 4 0 = .ok bytes := by
  refine ⟨reachable_fourBytes (by decide), rfl, rfl, ?_⟩
  rintro ⟨bytes, ⟨there, last, isThere, isRead⟩, done⟩
  cases isThere
  cases isRead
  cases done

end Exhy.ByteArray
