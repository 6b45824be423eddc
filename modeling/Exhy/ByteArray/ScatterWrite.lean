import Exhy.ByteArray.ReadBuffers

/-!
# Writing through buffers

`getWriteBuffers`, stores through the buffers and `setPosition` are one `write`.
-/

namespace Exhy.ByteArray

open Library

variable {ba : ByteArray}

/-- The buffers have no byte in common. -/
def Iovec.Apart (first second : Iovec) : Prop :=
  first.node = second.node →
    first.offset + first.iov_len ≤ second.offset ∨ second.offset + second.iov_len ≤ first.offset

/-- What the caller of `getWriteBuffers` does: the bytes go through the buffers and the position
moves behind them. -/
def fill (ba : ByteArray) (iovs : List Iovec) (bs : List UInt8) : Except Fault ByteArray :=
  { ba with nodes := scatter ba.nodes iovs bs }.setPosition (ba.m_position + bs.length)

/-! ## Pieces of a stretch -/

section Tiles

variable {base count start len : Nat} {iovs : List Iovec}

theorem Tiles.sum (tiles : Tiles base count start len iovs) :
    (iovs.map Iovec.iov_len).sum = len := by
  induction iovs generalizing start len with
  | nil => exact tiles.symm
  | cons iov later ih =>
      obtain ⟨-, short, behind⟩ := tiles
      rw [List.map_cons, List.sum_cons, ih behind]
      exact Nat.add_sub_cancel' short

/-- The later pieces are behind the start. -/
theorem Tiles.behind (tiles : Tiles base count start len iovs) :
    ∀ iov ∈ iovs, start ≤ iov.node * base + iov.offset := by
  induction iovs generalizing start len with
  | nil => exact nofun
  | cons first later ih =>
      obtain ⟨here, -, behind⟩ := tiles
      intro iov member
      rcases List.mem_cons.mp member with rfl | isLater
      · exact here.start.symm.le
      · exact (Nat.le_add_right start first.iov_len).trans (ih behind iov isLater)

theorem Tiles.pairwise_apart (tiles : Tiles base count start len iovs) :
    iovs.Pairwise Iovec.Apart := by
  induction iovs generalizing start len with
  | nil => exact .nil
  | cons first later ih =>
      obtain ⟨here, -, behind⟩ := tiles
      apply List.Pairwise.cons _ (ih behind)
      intro second isLater sameNode
      left
      have after := behind.behind second isLater
      have place := here.start
      rw [sameNode] at place
      omega

end Tiles

/-! ## The buffers -/

/-- `getWriteBuffers` does not look at the size. -/
theorem getWriteBuffers_withSize (ba : ByteArray) (m_size : Nat) (fresh : Nat → Nat → UInt8)
    (len : Nat) :
    (ba.withSize m_size).getWriteBuffers fresh len =
      (ba.getWriteBuffers fresh len).map fun (after, iovs, size) =>
        (after.withSize m_size, iovs, size) := by
  rw [getWriteBuffers, getWriteBuffers, addCapacity_withSize]
  generalize ba.addCapacity fresh len = grown
  have chain : (grown.withSize m_size).chain = grown.chain := rfl
  split
  next => rfl
  next =>
    dsimp only
    rw [chain]
    obtain ⟨m_baseSize, m_position, m_capacity, m_size', m_endian, nodes, m_cur⟩ := grown
    cases m_cur with
    | none => rfl
    | some index =>
        dsimp only [withSize]
        generalize writeBuffers _ index (m_position % m_baseSize) len = looped
        cases looped with
        | error fault => rfl
        | ok iovs => rfl

theorem Layout.getWriteBuffers_spec (layout : ba.Layout) (fresh : Nat → Nat → UInt8) (len : Nat) :
    ∃ iovs, ba.getWriteBuffers fresh len = .ok (ba.addCapacity fresh len, iovs, len) ∧
      Tiles ba.m_baseSize (ba.addCapacity fresh len).nodes.length ba.m_position len iovs := by
  rcases Nat.eq_zero_or_pos len with rfl | positive
  · refine ⟨[], ?_, rfl⟩
    rw [getWriteBuffers, if_pos rfl, addCapacity, if_pos rfl]
  · obtain ⟨iovs, done, tiles⟩ :=
      ByteArray.getWriteBuffers_spec layout.raised fresh positive
    rw [addCapacity_withSize] at done tiles
    refine ⟨iovs, ?_, tiles⟩
    rw [getWriteBuffers_withSize] at done
    obtain ⟨⟨after, others, size⟩, own, same⟩ := eq_ok_of_map done
    have state := getWriteBuffers_state own
    have rest := congrArg Prod.snd same
    cases rest
    rw [own, state]

/-- What stands in front of the end of the stretch and of a place in the old text does not
depend on what the text is extended by. -/
theorem take_splice_append {α : Type} {dst src : List α} {start size : Nat} (added : List α)
    (startLe : start ≤ dst.length) (sizeLe : size ≤ dst.length) :
    (splice (dst ++ added) start src).take (max size (start + src.length)) =
      dst.take start ++ src ++ (dst.drop (start + src.length)).take (size - (start + src.length)) := by
  have front : (dst.take start ++ src).length = start + src.length := by
    rw [List.length_append, List.length_take, Nat.min_eq_left startLe]
  have rest : max size (start + src.length) - (start + src.length) = size - (start + src.length) := by
    omega
  rw [splice, List.take_append_of_le_length startLe, List.take_append, front, rest,
    List.take_of_length_le (by omega), List.drop_append, List.take_append_of_le_length]
  rw [List.length_drop]
  omega

/-- `getWriteBuffers` changes nothing that can be seen and hands out buffers of the length asked
for, no two of which share a byte; bytes that go through them are the bytes of a write. -/
theorem getWriteBuffers_write (reachable : ba.Reachable) (fresh direct : Nat → Nat → UInt8)
    (len : Nat) :
    ∃ grown iovs, ba.getWriteBuffers fresh len = .ok (grown, iovs, len) ∧
      grown.m_position = ba.m_position ∧ grown.m_size = ba.m_size ∧
      (contents grown.nodes).take ba.m_size = (contents ba.nodes).take ba.m_size ∧
      iovs.Pairwise Iovec.Apart ∧ (iovs.map Iovec.iov_len).sum = len ∧
      ∀ bs : List UInt8, 1 ≤ bs.length → bs.length ≤ len →
        ∃ filled written, grown.fill iovs bs = .ok filled ∧ ba.write direct bs = .ok written ∧
          filled.m_position = written.m_position ∧ filled.m_size = written.m_size ∧
          (contents filled.nodes).take filled.m_size =
            (contents written.nodes).take written.m_size := by
  have layout := reaches_layout reachable
  have positionLe := layout.position_le
  have sizeLe := layout.size_le
  have whole : (contents ba.nodes).length = ba.m_capacity := layout.raised.contents_length
  obtain ⟨iovs, done, tiles⟩ := layout.getWriteBuffers_spec fresh len
  obtain ⟨grownLayout, position, size, room, added, bytes⟩ := layout.addCapacity_spec fresh len
  have base := @addCapacity_base ba fresh len
  generalize ba.addCapacity fresh len = grown at done tiles grownLayout position size room bytes base
  refine ⟨grown, iovs, done, position, size, ?_, tiles.pairwise_apart, tiles.sum, ?_⟩
  · rw [bytes, List.take_append_of_le_length (by omega)]
  · intro bs some fits
    have nonempty : bs ≠ [] := List.ne_nil_of_length_pos some
    obtain ⟨written, others, isWritten, -, result, -, writtenPosition, writtenSize⟩ :=
      layout.write_spec direct nonempty
    rw [← base] at tiles
    obtain ⟨scattered, count, sizes⟩ := scatter_tiles grownLayout.sizes tiles fits
    have storedLayout : ({ grown with nodes := scatter grown.nodes iovs bs } : ByteArray).Layout := by
      refine ⟨grownLayout.base_pos, ?_, sizes, ?_, grownLayout.position_le, grownLayout.size_le,
        grownLayout.cur⟩
      · intro nothing
        have none : grown.nodes.length = 0 := by
          rw [← count]
          exact List.length_eq_zero_iff.mpr nothing
        exact grownLayout.root (List.length_eq_zero_iff.mp none)
      · rw [grownLayout.capacity]
        exact congrArg (· * grown.m_baseSize) count.symm
    have moved := storedLayout.setPosition_spec
      (show grown.m_position + bs.length ≤ grown.m_capacity by omega)
    refine ⟨_, written, moved, isWritten, ?_, ?_, ?_⟩
    · rw [writtenPosition, ← position]
    · rw [writtenSize, ← position, ← size]
    · dsimp only
      rw [scattered, bytes, result, writtenSize, size, position,
        take_splice_append added (by omega) (by omega),
        take_splice_append others (by omega) (by omega)]

/-- Three bytes behind one in nodes of two, through buffers for five. -/
theorem getWriteBuffers_write_across :
    ∃ (ba grown filled written : ByteArray) (iovs : List Iovec), ba.m_position = 1 ∧
      ba.getWriteBuffers (fun _ _ => 0) 5 = .ok (grown, iovs, 5) ∧
      grown.fill iovs [2, 3, 4] = .ok filled ∧ ba.write (fun _ _ => 0) [2, 3, 4] = .ok written ∧
      (contents filled.nodes).take filled.m_size =
        (contents written.nodes).take written.m_size := by
  have start : byteArrays.Reachable (new 2 fun _ => 0) := .initial ⟨2, _, by decide, rfl⟩
  have begun : byteArrays.Reachable _ := .step start trivial (.op (.write (fun _ _ => 0) [1]) rfl)
  obtain ⟨grown, iovs, done, -, -, -, -, -, fills⟩ :=
    getWriteBuffers_write begun (fun _ _ => 0) (fun _ _ => 0) 5
  obtain ⟨filled, written, isFilled, isWritten, -, -, same⟩ :=
    fills [2, 3, 4] (by decide) (by decide)
  exact ⟨_, grown, filled, written, iovs, rfl, done, isFilled, isWritten, same⟩

end Exhy.ByteArray
