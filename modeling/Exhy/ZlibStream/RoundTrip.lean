import Exhy.ZlibStream.Delivery

/-!
# Compressed and decompressed

One stream compresses, another one is handed the result in any pieces.  A stream is flushed once:
`close` is `flush` too, and what is called behind it changes no result.
-/

namespace Exhy.ZlibStream

open Library

variable {State : Type} {codec : Codec State} {complete : Bytes → Bytes} {m_buffSize : UInt32}

/-! ## Behind the end -/

/-- A call of `write`, or of `flush` or `close`. -/
inductive Call where
  | write (write : Write)
  | flush

/-- The buffers that a call hands on. -/
def Call.iovecs : Call → List Bytes
  | .write given => given.iovecs
  | .flush => [[]]

def perform (codec : Codec State) (fuel : Nat) (stream : ZlibStream State) :
    Call → Option (Int × ZlibStream State)
  | .write given => encode codec fuel stream given.iovecs false
  | .flush => flush codec fuel stream

/-- The calls one after another, with what they return. -/
def performAll (codec : Codec State) (fuel : Nat) (stream : ZlibStream State) :
    List Call → Option (List Int × ZlibStream State)
  | [] => some ([], stream)
  | call :: later =>
      match perform codec fuel stream call with
      | none => none
      | some (ret, stream) =>
          match performAll codec fuel stream later with
          | none => none
          | some (rets, stream) => some (ret :: rets, stream)

section Sealed

variable {output : Bytes} {stream : ZlibStream State}

/-- The loop over a buffer stops at the error, with perhaps one more buffer, which is empty. -/
theorem Sealed.drive (isSealed : Sealed m_buffSize output stream) (positive : 0 < m_buffSize.toNat)
    (fuel : Nat) (input : Bytes) (flush : Bool) :
    ∃ next, stream.drive codec (fuel + 1) input flush = some (Z_STREAM_ERROR, next) ∧
      Sealed m_buffSize output next := by
  obtain ⟨flat, fullFront, room⟩ := current_spec positive isSealed.packed
  have packed := @packed_concat m_buffSize (current m_buffSize stream.m_buffs).1
    (current m_buffSize stream.m_buffs).2 [] fullFront (Nat.le_of_lt room)
  rw [List.append_nil] at packed
  let next : ZlibStream State :=
    { stream with
      m_buffs := (current m_buffSize stream.m_buffs).1 ++ [(current m_buffSize stream.m_buffs).2] }
  refine ⟨next, ?_, ?_⟩
  · have none := isSealed.ended
    rw [ZlibStream.drive, isSealed.size, none]
    simp [callCodec, next, none, isSealed.size]
  · constructor
    · exact isSealed.ended
    · exact isSealed.size
    · rw [← isSealed.result, getResult, getResult, ← flat]
      simp [next]
    · exact packed

/-- A call returns the error, unless it has no buffer. -/
theorem Sealed.encode (isSealed : Sealed m_buffSize output stream)
    (positive : 0 < m_buffSize.toNat) (fuel : Nat) (v : List Bytes) (finish : Bool) :
    ∃ next, stream.encode codec (fuel + 1) v finish =
        some (if v = [] then Z_OK else Z_STREAM_ERROR, next) ∧ Sealed m_buffSize output next := by
  cases v with
  | nil =>
      refine ⟨stream, ?_, isSealed⟩
      cases finish <;> rfl
  | cons iov later =>
      obtain ⟨next, stopped, isNext⟩ := @Sealed.drive _ codec _ _ _ isSealed positive fuel
        (availIn iov) (finish && later.isEmpty)
      refine ⟨next, ?_, isNext⟩
      rw [ZlibStream.encode, driveAll, stopped]
      rfl

/-- Calls on a stream that has ended change no result. -/
theorem Sealed.performAll (isSealed : Sealed m_buffSize output stream)
    (positive : 0 < m_buffSize.toNat) (fuel : Nat) (calls : List Call) :
    ∃ next, stream.performAll codec (fuel + 1) calls =
        some (calls.map fun call => if call.iovecs = [] then Z_OK else Z_STREAM_ERROR, next) ∧
      Sealed m_buffSize output next := by
  induction calls generalizing stream with
  | nil => exact ⟨stream, rfl, isSealed⟩
  | cons call later ih =>
      have performed : ∃ next, stream.perform codec (fuel + 1) call =
          some (if call.iovecs = [] then Z_OK else Z_STREAM_ERROR, next) ∧
            Sealed m_buffSize output next := by
        cases call with
        | write given => exact isSealed.encode positive fuel given.iovecs false
        | flush => exact isSealed.encode positive fuel [[]] true
      obtain ⟨next, first, isNext⟩ := performed
      obtain ⟨after, rest, isAfter⟩ := ih isNext
      refine ⟨after, ?_, isAfter⟩
      rw [ZlibStream.performAll, first]
      dsimp only
      rw [rest]
      rfl

end Sealed

/-! ## The round trip -/

section Restored

variable {Packer Unpacker : Type} {packer : Codec Packer} {unpacker : Codec Unpacker}
  {squeeze expand : Bytes → Bytes}

theorem delivered_of_short {writes : List Write}
    (short : ∀ write ∈ writes, ∀ iov ∈ write.iovecs, iov.length < 2 ^ 32) :
    delivered writes = writes.flatMap Write.input :=
  (delivered_eq_iff writes).mpr short

/-- What is handed to a stream that takes back `squeeze`, in any pieces. -/
theorem session_restores (restores : unpacker.Restores squeeze expand)
    (positive : 0 < m_buffSize.toNat) {input : Bytes} {pieces : List Write}
    (whole : pieces.flatMap Write.input = squeeze input)
    (short : ∀ piece ∈ pieces, ∀ iov ∈ piece.iovecs, iov.length < 2 ^ 32) :
    ∃ enough after,
      (∀ fuel ≥ enough, session unpacker fuel m_buffSize pieces =
        some (List.replicate (pieces.length + 1) Z_OK, after)) ∧
      Sealed m_buffSize input after := by
  have given : delivered pieces = squeeze input := (delivered_of_short short).trans whole
  obtain ⟨enough, after, runs, isSealed⟩ := session_sealed (restores.honours input) positive pieces
    (given ▸ List.prefix_refl _)
  rw [given, restores.inverse] at isSealed
  exact ⟨enough, after, runs, isSealed⟩

/-- The buffers of a stream are pieces of its result. -/
theorem Sealed.pieces {output : Bytes} {stream : ZlibStream State}
    (isSealed : Sealed m_buffSize output stream) :
    (stream.m_buffs.map Write.plain).flatMap Write.input = output ∧
      ∀ piece ∈ stream.m_buffs.map Write.plain, ∀ iov ∈ piece.iovecs, iov.length < 2 ^ 32 := by
  constructor
  · rw [← isSealed.result, getResult, List.flatMap_map]
    exact List.flatMap_id
  · intro piece member iov inside
    obtain ⟨buff, isBuff, rfl⟩ := List.mem_map.mp member
    rw [List.mem_singleton.mp inside]
    exact Nat.lt_of_le_of_lt (isSealed.packed.2 buff isBuff) m_buffSize.toNat_lt

/-- The calls of a session return, calls behind its end change no result, and a stream that takes
back what the first one does restores what was written, however the result is cut, as its own
buffers are. -/
theorem session_restored (honours : packer.Honours squeeze)
    (restores : unpacker.Restores squeeze expand) (m_buffSize m_buffSize' : UInt32)
    (positive : 1 ≤ m_buffSize) (positive' : 1 ≤ m_buffSize') (fresh : Nat → Nat → Nat → UInt8)
    (writes : List Write)
    (short : ∀ write ∈ writes, ∀ iov ∈ write.iovecs, iov.length < 2 ^ 32) :
    ∃ enough stream,
      (∀ fuel ≥ enough, session packer fuel m_buffSize writes =
        some (List.replicate (writes.length + 1) Z_OK, stream)) ∧
      stream.getResult = squeeze (writes.flatMap Write.input) ∧
      (∀ calls fuel, ∃ after,
        stream.performAll packer (fuel + 1) calls =
          some (calls.map fun call => if call.iovecs = [] then Z_OK else Z_STREAM_ERROR, after) ∧
        after.getResult = stream.getResult) ∧
      ∀ pieces : List Write,
        pieces = stream.m_buffs.map Write.plain ∨
            pieces.flatMap Write.input = stream.getResult ∧
              (∀ piece ∈ pieces, ∀ iov ∈ piece.iovecs, iov.length < 2 ^ 32) →
          ∃ enough restored,
            (∀ fuel ≥ enough, session unpacker fuel m_buffSize' pieces =
              some (List.replicate (pieces.length + 1) Z_OK, restored)) ∧
            Yields fresh restored (writes.flatMap Write.input) := by
  have room : 0 < m_buffSize.toNat := UInt32.le_iff_toNat_le.mp positive
  have room' : 0 < m_buffSize'.toNat := UInt32.le_iff_toNat_le.mp positive'
  obtain ⟨enough, stream, runs, isSealed⟩ :=
    session_sealed (honours.on _) room writes (List.prefix_refl _)
  rw [delivered_of_short short] at isSealed
  refine ⟨enough, stream, runs, isSealed.result, ?_, ?_⟩
  · intro calls fuel
    obtain ⟨after, performed, isAfter⟩ := @Sealed.performAll _ packer _ _ _ isSealed room fuel calls
    exact ⟨after, performed, isAfter.result.trans isSealed.result.symm⟩
  · intro pieces cut
    have pieced : pieces.flatMap Write.input = squeeze (writes.flatMap Write.input) ∧
        ∀ piece ∈ pieces, ∀ iov ∈ piece.iovecs, iov.length < 2 ^ 32 := by
      rcases cut with rfl | cut
      · exact isSealed.pieces
      · rwa [isSealed.result] at cut
    obtain ⟨enough, restored, runs, isRestored⟩ :=
      session_restores restores room' pieced.1 pieced.2
    obtain ⟨ba, read, position, readable⟩ := getByteArray_spec fresh restored
    refine ⟨enough, restored, runs, ?_⟩
    constructor
    · exact isRestored.result
    · rw [isRestored.size]
      exact isRestored.packed
    · exact ⟨ba, read, position, readable.trans isRestored.result⟩

end Restored

theorem stored_restores : Codec.stored.Restores id id where
  honours _ := Codec.stored_honours.on _
  inverse _ := rfl

/-- Bytes through buffers of two and back through buffers of three. -/
theorem session_restored_stored :
    ∃ enough stream,
      (∀ fuel ≥ enough, session Codec.stored fuel 2 [.plain [7, 8, 9], .plain []] =
        some ([Z_OK, Z_OK, Z_OK], stream)) ∧
      stream.getResult = [7, 8, 9] ∧
      ∃ enough restored,
        (∀ fuel ≥ enough, session Codec.stored fuel 3 (stream.m_buffs.map .plain) =
          some (List.replicate ((stream.m_buffs.map Write.plain).length + 1) Z_OK, restored)) ∧
        Yields (fun _ _ _ => 0) restored [7, 8, 9] := by
  obtain ⟨enough, stream, runs, result, -, back⟩ :=
    session_restored Codec.stored_honours stored_restores 2 3 (by decide) (by decide)
      (fun _ _ _ => 0) [.plain [7, 8, 9], .plain []] (by decide)
  exact ⟨enough, stream, runs, result, back _ (.inl rfl)⟩

end Exhy.ZlibStream
