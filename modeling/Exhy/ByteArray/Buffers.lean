import Exhy.ByteArray.Invariant

/-!
# Buffers for the kernel

`getReadBuffers` and `getWriteBuffers` hand out pointers into the nodes.  What a call of the
kernel moves through them is one stretch of the contents.
-/

namespace Exhy.ByteArray

open Library

/-- A `struct iovec`: `iov_base` points into the node that is `node` links from `m_root`. -/
structure Iovec where
  node : Nat
  offset : Nat
  iov_len : Nat
  deriving DecidableEq, Repr

/-- The loop of `getReadBuffers`.  In the later nodes it takes the size of `m_cur` for the size
of the node. -/
def readBuffers (m_cur_size : Nat) : (chain : List Node) → (cur pos_cnode cap_left len : Nat) →
    Except Fault (List Iovec)
  | _, _, _, _, 0 => .ok []
  | [], _, _, _, _ + 1 => .error .nullNode
  | _ :: rest, cur, pos_cnode, cap_left, len + 1 =>
      if cap_left ≥ len + 1 then .ok [⟨cur, pos_cnode, len + 1⟩]
      else
        match readBuffers m_cur_size rest (cur + 1) 0 m_cur_size (len + 1 - cap_left) with
        | .error fault => .error fault
        | .ok iovs => .ok (⟨cur, pos_cnode, cap_left⟩ :: iovs)

/-- `getReadBuffers(buffers, len)`. -/
def getReadBuffers (ba : ByteArray) (len : Nat) : Except Fault (List Iovec × Nat) :=
  let len := if len > ba.getReadSize then ba.getReadSize else len
  if len = 0 then .ok ([], 0)
  else
    match ba.m_cur, ba.chain with
    | some index, cur :: rest =>
        let pos_cnode := ba.m_position % ba.m_baseSize
        (readBuffers cur.size (cur :: rest) index pos_cnode (cur.size - pos_cnode) len).map
          fun iovs => (iovs, len)
    | _, _ => .error .nullNode

/-- The loop of `getWriteBuffers`. -/
def writeBuffers : (chain : List Node) → (cur npos len : Nat) → Except Fault (List Iovec)
  | _, _, _, 0 => .ok []
  | [], _, _, _ + 1 => .error .nullNode
  | node :: rest, cur, npos, len + 1 =>
      let ncap := node.size - npos
      if ncap ≥ len + 1 then .ok [⟨cur, npos, len + 1⟩]
      else
        match writeBuffers rest (cur + 1) 0 (len + 1 - ncap) with
        | .error fault => .error fault
        | .ok iovs => .ok (⟨cur, npos, ncap⟩ :: iovs)

/-- `getWriteBuffers(buffers, len)`. -/
def getWriteBuffers (ba : ByteArray) (fresh : Nat → Nat → UInt8) (len : Nat) :
    Except Fault (ByteArray × List Iovec × Nat) :=
  if len = 0 then .ok (ba, [], 0)
  else
    let ba := ba.addCapacity fresh len
    match ba.m_cur with
    | none => .error .nullNode
    | some index =>
        (writeBuffers ba.chain index (ba.m_position % ba.m_baseSize) len).map
          fun iovs => (ba, iovs, len)

/-- The bytes that one buffer points to. -/
def Iovec.load (nodes : List Node) (iov : Iovec) : List UInt8 :=
  match nodes[iov.node]? with
  | none => []
  | some node => (node.ptr.drop iov.offset).take iov.iov_len

/-- What the kernel reads through the buffers. -/
def gather (nodes : List Node) (iovs : List Iovec) : List UInt8 := iovs.flatMap (Iovec.load nodes)

/-- The nodes after the kernel has stored these bytes through the buffers. -/
def scatter : (nodes : List Node) → List Iovec → (bytes : List UInt8) → List Node
  | nodes, [], _ => nodes
  | nodes, iov :: later, bytes =>
      scatter (nodes.modify iov.node fun node => node.memcpy iov.offset (bytes.take iov.iov_len))
        later (bytes.drop iov.iov_len)

/-! ## One buffer -/

section Nodes

variable {base : Nat} {nodes : List Node}

/-- The node in its place among the contents. -/
theorem contents_split (sizes : ∀ node ∈ nodes, node.size = base) {index : Nat}
    (inside : index < nodes.length) :
    ∃ before behind, contents nodes = before ++ nodes[index].ptr ++ behind ∧
      before.length = index * base ∧
      ∀ change : Node → Node, contents (nodes.modify index change) =
        before ++ (change nodes[index]).ptr ++ behind := by
  refine ⟨contents (nodes.take index), contents (nodes.drop (index + 1)), ?_, ?_, ?_⟩
  · rw [List.append_assoc, ← contents_cons, ← contents_append, ← List.drop_eq_getElem_cons inside,
      List.take_append_drop]
  · rw [contents_length fun node member => sizes node (List.mem_of_mem_take member),
      List.length_take, Nat.min_eq_left (Nat.le_of_lt inside)]
  · intro change
    rw [List.modify_eq_take_cons_drop inside, contents_append, contents_cons, List.append_assoc]

variable {iov : Iovec}

/-- A buffer of these nodes from a position on. -/
structure Iovec.At (base count start : Nat) (iov : Iovec) : Prop where
  node : iov.node < count
  start : iov.node * base + iov.offset = start
  fits : iov.offset + iov.iov_len ≤ base

theorem load_eq (sizes : ∀ node ∈ nodes, node.size = base) {start : Nat}
    (placed : iov.At base nodes.length start) :
    iov.load nodes = ((contents nodes).drop start).take iov.iov_len := by
  have inside := placed.node
  have fits := placed.fits
  obtain ⟨before, behind, parts, length, -⟩ := contents_split sizes inside
  have size : nodes[iov.node].ptr.length = base := sizes _ (List.getElem_mem inside)
  have start := placed.start
  rw [Iovec.load, List.getElem?_eq_getElem inside, parts, List.append_assoc, ← start, ← length,
    ← List.drop_drop, List.drop_left, List.drop_append_of_le_length (by omega),
    List.take_append_of_le_length]
  rw [List.length_drop]
  omega

theorem store_eq (sizes : ∀ node ∈ nodes, node.size = base) {start : Nat} {bytes : List UInt8}
    (placed : iov.At base nodes.length start) (short : bytes.length ≤ iov.iov_len) :
    contents (nodes.modify iov.node fun node => node.memcpy iov.offset bytes) =
      splice (contents nodes) start bytes := by
  have inside := placed.node
  have fits := placed.fits
  have place := placed.start
  obtain ⟨before, behind, parts, length, modified⟩ := contents_split sizes inside
  have size : nodes[iov.node].ptr.length = base := sizes _ (List.getElem_mem inside)
  have offset : start - before.length = iov.offset := by omega
  rw [modified, parts, List.append_assoc, List.append_assoc, splice_append_right (by omega), offset,
    splice_append_left (by omega), Node.memcpy]

/-- Storing into a node keeps its size. -/
theorem sizes_modify (sizes : ∀ node ∈ nodes, node.size = base) {bytes : List UInt8}
    (fits : iov.offset + bytes.length ≤ base) :
    ∀ node ∈ nodes.modify iov.node fun node => node.memcpy iov.offset bytes, node.size = base := by
  intro node member
  obtain ⟨index, inside, rfl⟩ := List.mem_iff_getElem.mp member
  rw [List.length_modify] at inside
  have size := sizes _ (List.getElem_mem inside)
  rw [List.getElem_modify]
  split
  next => rw [size_memcpy (by omega), size]
  next => exact size

/-! ## Buffers one behind the other -/

/-- The buffers make up `len` bytes from the position `start` on. -/
def Tiles (base count : Nat) : (start len : Nat) → List Iovec → Prop
  | _, len, [] => len = 0
  | start, len, iov :: later =>
      iov.At base count start ∧ iov.iov_len ≤ len ∧
        Tiles base count (start + iov.iov_len) (len - iov.iov_len) later

theorem gather_tiles (sizes : ∀ node ∈ nodes, node.size = base) {start len : Nat} {iovs : List Iovec}
    (tiles : Tiles base nodes.length start len iovs) :
    gather nodes iovs = ((contents nodes).drop start).take len := by
  induction iovs generalizing start len with
  | nil =>
      obtain rfl : len = 0 := tiles
      rw [List.take_zero]
      rfl
  | cons iov later ih =>
      obtain ⟨here, short, behind⟩ := tiles
      have rest := ih behind
      rw [gather] at rest ⊢
      rw [List.flatMap_cons, load_eq sizes here, rest, ← List.drop_drop]
      conv_rhs => rw [← Nat.add_sub_cancel' short, List.take_add]

theorem scatter_tiles (sizes : ∀ node ∈ nodes, node.size = base) {start len : Nat} {iovs : List Iovec}
    (tiles : Tiles base nodes.length start len iovs) {bytes : List UInt8} (fits : bytes.length ≤ len) :
    contents (scatter nodes iovs bytes) = splice (contents nodes) start bytes ∧
      (scatter nodes iovs bytes).length = nodes.length ∧
      ∀ node ∈ scatter nodes iovs bytes, node.size = base := by
  induction iovs generalizing nodes start len bytes with
  | nil =>
      obtain rfl : len = 0 := tiles
      rw [List.eq_nil_of_length_eq_zero (Nat.le_zero.mp fits), splice_nil]
      exact ⟨rfl, rfl, sizes⟩
  | cons iov later ih =>
      obtain ⟨here, short, behind⟩ := tiles
      have taken : (bytes.take iov.iov_len).length ≤ iov.iov_len := List.length_take_le ..
      have offset := here.fits
      have stored := store_eq sizes here taken
      have sizesToo := sizes_modify sizes (show iov.offset + (bytes.take iov.iov_len).length ≤ base by omega)
      have count : (nodes.modify iov.node fun node =>
          node.memcpy iov.offset (bytes.take iov.iov_len)).length = nodes.length :=
        List.length_modify ..
      obtain ⟨rest, length, sizesRest⟩ := ih sizesToo (count.symm ▸ behind)
        (show (bytes.drop iov.iov_len).length ≤ len - iov.iov_len by rw [List.length_drop]; omega)
      refine ⟨?_, length.trans count, sizesRest⟩
      have startLe : start ≤ (contents nodes).length := by
        have inside := Nat.mul_le_mul_right base (Nat.succ_le_of_lt here.node)
        have place := here.start
        rw [Nat.succ_mul] at inside
        rw [contents_length sizes]
        omega
      rw [scatter, rest, stored]
      by_cases whole : bytes.length ≤ iov.iov_len
      · rw [List.take_of_length_le whole, List.drop_of_length_le whole, splice_nil]
      · have length : (bytes.take iov.iov_len).length = iov.iov_len := by
          rw [List.length_take]
          omega
        have joined : splice (splice (contents nodes) start (bytes.take iov.iov_len))
            (start + (bytes.take iov.iov_len).length) (bytes.drop iov.iov_len) =
              splice (contents nodes) start (bytes.take iov.iov_len ++ bytes.drop iov.iov_len) :=
          splice_splice startLe
        rwa [length, List.take_append_drop] at joined

end Nodes

/-! ## The two functions -/

section Loops

variable {base : Nat} {chain : List Node}

/-- In a chain of equal nodes the loops agree. -/
theorem writeBuffers_eq (sizes : ∀ node ∈ chain, node.size = base) (cur npos len : Nat) :
    writeBuffers chain cur npos len = readBuffers base chain cur npos (base - npos) len := by
  induction chain generalizing cur npos len with
  | nil => cases len <;> rfl
  | cons node rest ih =>
      cases len with
      | zero => rfl
      | succ len =>
          have size := sizes node List.mem_cons_self
          have later := ih (fun other member => sizes other (List.mem_cons_of_mem _ member)) (cur + 1) 0
            (len + 1 - (base - npos))
          rw [Nat.sub_zero] at later
          rw [writeBuffers, readBuffers, size, later]

theorem readBuffers_tiles {count : Nat} {cur pos_cnode len : Nat} (offset : pos_cnode < base)
    (inside : cur + chain.length ≤ count) (room : pos_cnode + len ≤ chain.length * base) :
    ∃ iovs, readBuffers base chain cur pos_cnode (base - pos_cnode) len = .ok iovs ∧
      Tiles base count (cur * base + pos_cnode) len iovs := by
  induction chain generalizing cur pos_cnode len with
  | nil =>
      obtain rfl : len = 0 := by
        rw [List.length_nil, Nat.zero_mul] at room
        omega
      exact ⟨[], rfl, rfl⟩
  | cons node rest ih =>
      cases len with
      | zero => exact ⟨[], rfl, rfl⟩
      | succ len =>
          rw [List.length_cons] at inside room
          rw [Nat.add_mul, Nat.one_mul] at room
          rw [readBuffers]
          by_cases fits : base - pos_cnode ≥ len + 1
          · refine ⟨_, if_pos fits, ⟨?_, rfl, ?_⟩, Nat.le_refl _, ?_⟩
            · show cur < count
              omega
            · show pos_cnode + (len + 1) ≤ base
              omega
            · exact Nat.sub_self _
          · obtain ⟨iovs, later, tiles⟩ := @ih (cur + 1) 0 (len + 1 - (base - pos_cnode)) (by omega)
              (by omega) (by omega)
            rw [Nat.sub_zero] at later
            rw [if_neg fits, later]
            refine ⟨_, rfl, ⟨?_, rfl, ?_⟩, ?_, ?_⟩
            · show cur < count
              omega
            · show pos_cnode + (base - pos_cnode) ≤ base
              omega
            · show base - pos_cnode ≤ len + 1
              omega
            · have next : cur * base + pos_cnode + (base - pos_cnode) = (cur + 1) * base + 0 := by
                rw [Nat.succ_mul]
                omega
              show Tiles base count (cur * base + pos_cnode + (base - pos_cnode)) _ iovs
              rw [next]
              exact tiles

end Loops

section Both

variable {ba : ByteArray}

/-- The chain behind the current node, and where it stands. -/
theorem Valid.cur_spec (valid : ba.Valid) (inside : ba.m_position < ba.m_capacity) :
    ba.m_cur = some (ba.m_position / ba.m_baseSize) ∧
      ba.m_position / ba.m_baseSize + ba.chain.length = ba.nodes.length ∧
      ba.m_position / ba.m_baseSize * ba.m_baseSize + ba.m_position % ba.m_baseSize =
        ba.m_position ∧
      ∀ node ∈ ba.chain, node.size = ba.m_baseSize := by
  have indexLt := (valid.div_lt_iff ba.m_position).mpr inside
  have chainEq := valid.chain_eq
  refine ⟨?_, ?_, ?_, ?_⟩
  · rw [valid.cur, if_pos inside]
  · rw [chainEq, List.length_drop]
    omega
  · rw [Nat.mul_comm]
    exact Nat.div_add_mod ..
  · intro node member
    rw [chainEq] at member
    exact valid.sizes node (List.mem_of_mem_drop member)

/-- The buffers to read from are the next readable bytes. -/
theorem getReadBuffers_spec (valid : ba.Valid) (len : Nat) :
    ∃ iovs, ba.getReadBuffers len = .ok (iovs, min len ba.getReadSize) ∧
      Tiles ba.m_baseSize ba.nodes.length ba.m_position (min len ba.getReadSize) iovs := by
  have least : (if len > ba.getReadSize then ba.getReadSize else len) = min len ba.getReadSize := by
    split <;> omega
  rw [getReadBuffers, least]
  dsimp only
  by_cases none : min len ba.getReadSize = 0
  · rw [if_pos none, none]
    exact ⟨[], rfl, rfl⟩
  · have sizeLe := valid.size_le
    have room : ba.m_position + min len ba.getReadSize ≤ ba.m_capacity := by
      rw [getReadSize] at none ⊢
      omega
    have inside : ba.m_position < ba.m_capacity := by omega
    obtain ⟨cur, count, place, sizes⟩ := valid.cur_spec inside
    have chainRoom := valid.chain_room room
    obtain ⟨iovs, loop, tiles⟩ := readBuffers_tiles (Nat.mod_lt ba.m_position valid.base_pos)
      (Nat.le_of_eq count) chainRoom
    rw [place] at tiles
    refine ⟨iovs, ?_, tiles⟩
    rw [if_neg none, cur]
    cases chained : ba.chain with
    | nil =>
        rw [chained, List.length_nil, Nat.zero_mul] at chainRoom
        omega
    | cons node rest =>
        have size := sizes node (by rw [chained]; exact List.mem_cons_self)
        rw [chained] at loop
        dsimp only
        rw [size, loop]
        rfl

theorem addCapacity_base (fresh : Nat → Nat → UInt8) (len : Nat) :
    (ba.addCapacity fresh len).m_baseSize = ba.m_baseSize := by
  rw [addCapacity]
  split
  · rfl
  · dsimp only
    split <;> rfl

/-- The buffers to write to are the stretch behind the position, for which there is room. -/
theorem getWriteBuffers_spec (valid : ba.Valid) (fresh : Nat → Nat → UInt8) {len : Nat}
    (positive : 0 < len) :
    ∃ iovs, ba.getWriteBuffers fresh len = .ok (ba.addCapacity fresh len, iovs, len) ∧
      Tiles ba.m_baseSize (ba.addCapacity fresh len).nodes.length ba.m_position len iovs := by
  obtain ⟨grownValid, position, -, -, room, -⟩ := addCapacity_spec valid fresh len
  have base := @addCapacity_base ba fresh len
  rw [getWriteBuffers, if_neg (Nat.ne_of_gt positive)]
  generalize ba.addCapacity fresh len = grown at grownValid position room base ⊢
  rw [← position] at room
  obtain ⟨cur, count, place, sizes⟩ := grownValid.cur_spec (by omega)
  obtain ⟨iovs, loop, tiles⟩ := readBuffers_tiles (Nat.mod_lt grown.m_position grownValid.base_pos)
    (Nat.le_of_eq count) (grownValid.chain_room room)
  rw [place, base, position] at tiles
  refine ⟨iovs, ?_, tiles⟩
  dsimp only
  rw [cur]
  dsimp only
  rw [writeBuffers_eq sizes, loop]
  rfl

end Both

end Exhy.ByteArray
