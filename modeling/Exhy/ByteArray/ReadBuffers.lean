import Exhy.ByteArray.Reachable

/-!
# Buffers to read from

Both functions called `getReadBuffers`, with the vector that they append to.
-/

namespace Exhy.ByteArray

open Library

variable {ba : ByteArray}

/-- `getReadBuffers(buffers, len)` with the vector that it appends to. -/
def getReadBuffersInto (ba : ByteArray) (buffers : List Iovec) (len : Nat) :
    Except Fault (List Iovec × Nat) :=
  (ba.getReadBuffers len).map fun (iovs, res) => (buffers ++ iovs, res)

/-- `getReadSize()` as a `size_t`: where the position has passed the size it wraps. -/
def getReadSizeU64 (ba : ByteArray) : Nat :=
  if ba.m_position ≤ ba.m_size then ba.m_size - ba.m_position
  else 2 ^ 64 - (ba.m_position - ba.m_size)

/-- `getReadBuffers(buffers, len, position)`; its loop over the nodes is the one of
`getWriteBuffers`. -/
def getReadBuffersAt (ba : ByteArray) (buffers : List Iovec) (len position : Nat) :
    Except Fault (List Iovec × Nat) :=
  let len := if len > ba.getReadSizeU64 then ba.getReadSizeU64 else len
  if len = 0 then .ok (buffers, 0)
  else
    let size := len
    let npos := position % ba.m_baseSize
    let count := position / ba.m_baseSize
    (writeBuffers (ba.nodes.drop count) count npos len).map fun iovs => (buffers ++ iovs, size)

/-- The buffer lies inside one node. -/
def Iovec.Inside (nodes : List Node) (iov : Iovec) : Prop :=
  ∃ node, nodes[iov.node]? = some node ∧ iov.offset + iov.iov_len ≤ node.size

/-! ## What the loops hand out -/

section Loops

variable {base : Nat} {chain nodes : List Node}

theorem readBuffers_pos (basePos : 0 < base) {cur pos_cnode cap_left len : Nat} (left : 0 < cap_left)
    {iovs : List Iovec} (done : readBuffers base chain cur pos_cnode cap_left len = .ok iovs) :
    ∀ iov ∈ iovs, 0 < iov.iov_len := by
  induction chain generalizing cur pos_cnode cap_left len iovs with
  | nil =>
      cases len with
      | zero =>
          cases done
          exact nofun
      | succ len => cases done
  | cons node rest ih =>
      cases len with
      | zero =>
          cases done
          exact nofun
      | succ len =>
          rw [readBuffers] at done
          split at done
          next =>
            cases done
            intro iov member
            rw [List.mem_singleton.mp member]
            exact Nat.succ_pos len
          next =>
            split at done
            next => cases done
            next later onward =>
              cases done
              intro iov member
              rcases List.mem_cons.mp member with rfl | isLater
              · exact left
              · exact ih basePos onward iov isLater

theorem Tiles.inside (sizes : ∀ node ∈ nodes, node.size = base) {start len : Nat} {iovs : List Iovec}
    (tiles : Tiles base nodes.length start len iovs) : ∀ iov ∈ iovs, iov.Inside nodes := by
  induction iovs generalizing start len with
  | nil => exact nofun
  | cons first later ih =>
      obtain ⟨here, -, behind⟩ := tiles
      intro iov member
      rcases List.mem_cons.mp member with rfl | isLater
      · refine ⟨nodes.get ⟨iov.node, here.node⟩, List.getElem?_eq_getElem here.node, ?_⟩
        have size : (nodes.get ⟨iov.node, here.node⟩).size = base := sizes _ (List.get_mem ..)
        rw [size]
        exact here.fits
      · exact ih behind iov isLater

end Loops

/-! ## From the position on -/

theorem getReadBuffers_pos (valid : ba.Valid) {len size : Nat} {iovs : List Iovec}
    (done : ba.getReadBuffers len = .ok (iovs, size)) : ∀ iov ∈ iovs, 0 < iov.iov_len := by
  rw [getReadBuffers] at done
  generalize (if len > ba.getReadSize then ba.getReadSize else len) = least at done
  dsimp only at done
  split at done
  next =>
    cases done
    intro iov member
    cases member
  next =>
    split at done
    next index cur rest isCur chained =>
      obtain ⟨looped, loop, same⟩ := eq_ok_of_map done
      cases same
      have curSize : cur.size = ba.m_baseSize := by
        apply valid.sizes
        have isFirst : cur ∈ ba.nodes.drop (ba.m_position / ba.m_baseSize) := by
          rw [← valid.chain_eq, chained]
          exact List.mem_cons_self
        exact List.mem_of_mem_drop isFirst
      have offset := Nat.mod_lt ba.m_position valid.base_pos
      rw [curSize] at loop
      exact readBuffers_pos valid.base_pos (Nat.sub_pos_of_lt offset) loop
    next => cases done

/-- In every state whose position has not passed the size, the buffers are the next readable
bytes: each lies in one node and has some of them. -/
theorem getReadBuffers_exact (reachable : ba.Reachable) (bound : ba.m_position ≤ ba.m_size)
    (buffers : List Iovec) (len : Nat) :
    ∃ iovs, ba.getReadBuffersInto buffers len = .ok (buffers ++ iovs, min len ba.getReadSize) ∧
      gather ba.nodes iovs = ((contents ba.nodes).drop ba.m_position).take (min len ba.getReadSize) ∧
      ∀ iov ∈ iovs, iov.Inside ba.nodes ∧ 0 < iov.iov_len := by
  have valid := (reaches_layout reachable).valid bound
  obtain ⟨iovs, done, tiles⟩ := getReadBuffers_spec valid len
  refine ⟨iovs, ?_, gather_tiles valid.sizes tiles, ?_⟩
  · rw [getReadBuffersInto, done]
    rfl
  · intro iov member
    exact ⟨tiles.inside valid.sizes iov member, getReadBuffers_pos valid done iov member⟩

/-- Behind the first of four bytes. -/
theorem getReadBuffers_exact_across :
    ∃ iovs, (fourBytes 1).getReadBuffersInto [⟨7, 0, 1⟩] 9 = .ok (⟨7, 0, 1⟩ :: iovs, 3) ∧
      gather (fourBytes 1).nodes iovs = [2, 3, 4] := by
  have reachable : (fourBytes 1).Reachable := reachable_fourBytes (by decide)
  obtain ⟨iovs, done, bytes, -⟩ := getReadBuffers_exact reachable (by decide) [⟨7, 0, 1⟩] 9
  exact ⟨iovs, done, bytes⟩

/-! ## From any position on -/

/-- Behind any position the buffers are as many bytes as the read size leaves of `len`. -/
theorem Layout.getReadBuffersAt_spec (layout : ba.Layout) (buffers : List Iovec) {len position : Nat}
    (fits : position + min len ba.getReadSizeU64 ≤ ba.m_capacity) :
    ∃ iovs, ba.getReadBuffersAt buffers len position =
        .ok (buffers ++ iovs, min len ba.getReadSizeU64) ∧
      Tiles ba.m_baseSize ba.nodes.length position (min len ba.getReadSizeU64) iovs := by
  have least : (if len > ba.getReadSizeU64 then ba.getReadSizeU64 else len) =
      min len ba.getReadSizeU64 := by
    split <;> omega
  rw [getReadBuffersAt, least]
  generalize min len ba.getReadSizeU64 = size at fits ⊢
  dsimp only
  by_cases none : size = 0
  · rw [if_pos none, none]
    exact ⟨[], by rw [List.append_nil], rfl⟩
  · have decompose := Nat.div_add_mod position ba.m_baseSize
    have indexLt : position / ba.m_baseSize < ba.nodes.length :=
      (layout.raised.div_lt_iff position).mpr (show position < ba.m_capacity by omega)
    have sizes : ∀ node ∈ ba.nodes.drop (position / ba.m_baseSize), node.size = ba.m_baseSize :=
      fun node member => layout.sizes node (List.mem_of_mem_drop member)
    have count : position / ba.m_baseSize + (ba.nodes.drop (position / ba.m_baseSize)).length ≤
        ba.nodes.length := by
      rw [List.length_drop]
      omega
    have room : position % ba.m_baseSize + size ≤
        (ba.nodes.drop (position / ba.m_baseSize)).length * ba.m_baseSize := by
      rw [List.length_drop, Nat.sub_mul, ← layout.capacity, Nat.mul_comm (_ / _)]
      omega
    obtain ⟨iovs, loop, tiles⟩ :=
      readBuffers_tiles (Nat.mod_lt position layout.base_pos) count room
    rw [Nat.mul_comm, decompose] at tiles
    refine ⟨iovs, ?_, tiles⟩
    rw [if_neg none, writeBuffers_eq sizes, loop]
    rfl

theorem getReadBuffersAt_size {buffers iovs : List Iovec} {len position size : Nat}
    (done : ba.getReadBuffersAt buffers len position = .ok (iovs, size)) :
    size = min len ba.getReadSizeU64 := by
  have least : (if len > ba.getReadSizeU64 then ba.getReadSizeU64 else len) =
      min len ba.getReadSizeU64 := by
    split <;> omega
  rw [getReadBuffersAt, least] at done
  dsimp only at done
  split at done
  next none =>
    cases done
    exact none.symm
  next =>
    obtain ⟨looped, -, same⟩ := eq_ok_of_map done
    exact (congrArg Prod.snd same).symm

/-- The clamp is computed from the current position: the buffers are the bytes from the position
asked for exactly when that is the current one or neither clamp cuts the length. -/
theorem getReadBuffersAt_iff (reachable : ba.Reachable) (isSize : ba.m_capacity < 2 ^ 64)
    (buffers : List Iovec) (len : Nat) {position : Nat} (inside : position ≤ ba.m_size) :
    (∃ iovs, ba.getReadBuffersAt buffers len position =
        .ok (buffers ++ iovs, min len (ba.m_size - position)) ∧
      gather ba.nodes iovs =
        ((contents ba.nodes).drop position).take (min len (ba.m_size - position)) ∧
      ∀ iov ∈ iovs, iov.Inside ba.nodes) ↔
    position = ba.m_position ∨ len ≤ ba.getReadSizeU64 ∧ len ≤ ba.m_size - position := by
  have layout := reaches_layout reachable
  have positionLe := layout.position_le
  have sizeLe := layout.size_le
  have clamps : min len ba.getReadSizeU64 = min len (ba.m_size - position) ↔
      position = ba.m_position ∨ len ≤ ba.getReadSizeU64 ∧ len ≤ ba.m_size - position := by
    rw [getReadSizeU64]
    split
    next => omega
    next => omega
  rw [← clamps]
  constructor
  · rintro ⟨iovs, done, -⟩
    exact (getReadBuffersAt_size done).symm
  · intro same
    obtain ⟨iovs, done, tiles⟩ := layout.getReadBuffersAt_spec buffers
      (show position + min len ba.getReadSizeU64 ≤ ba.m_capacity by omega)
    rw [same] at done tiles
    exact ⟨iovs, done, gather_tiles layout.sizes tiles, tiles.inside layout.sizes⟩

theorem getReadBuffersAt_iff_current :
    ∃ iovs, (fourBytes 1).getReadBuffersAt [] 9 1 = .ok ([] ++ iovs, 3) ∧
      gather (fourBytes 1).nodes iovs = [2, 3, 4] := by
  have reachable : (fourBytes 1).Reachable := reachable_fourBytes (by decide)
  obtain ⟨iovs, done, bytes, -⟩ :=
    (getReadBuffersAt_iff reachable (by decide) [] 9 (by decide)).mpr (.inl rfl)
  exact ⟨iovs, done, bytes⟩

/-- With the position behind the third of four bytes, only one is handed out from the start on. -/
theorem getReadBuffersAt_short :
    (fourBytes 3).Reachable ∧ (fourBytes 3).getReadBuffersAt [] 4 0 = .ok ([⟨0, 0, 1⟩], 1) ∧
      ¬ ∃ iovs, (fourBytes 3).getReadBuffersAt [] 4 0 =
        .ok ([] ++ iovs, min 4 ((fourBytes 3).m_size - 0)) := by
  refine ⟨reachable_fourBytes (by decide), rfl, ?_⟩
  rintro ⟨iovs, done⟩
  have size := getReadBuffersAt_size done
  cases size

end Exhy.ByteArray
