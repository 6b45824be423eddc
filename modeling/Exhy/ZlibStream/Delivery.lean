import Exhy.ByteArray.Files
import Exhy.ZlibStream.Core

/-!
# What compressed streams deliver

One round of the driver, the loop by the input and the output that are left, and from them every
session on a codec that honours its contract.
-/

namespace Exhy.ZlibStream

open Library

/-! ## Buffers -/

section Buffers

variable {m_buffSize : UInt32} {m_buffs : List Bytes}

theorem availIn_eq_iff (iov : Bytes) : availIn iov = iov ↔ iov.length < 2 ^ 32 := by
  rw [availIn, List.take_eq_self_iff]
  omega

theorem length_availIn_le (iov : Bytes) : (availIn iov).length ≤ iov.length :=
  List.length_take_le' ..

/-- The current buffer has room, and all in front of it are full. -/
theorem current_spec (positive : 0 < m_buffSize.toNat) (packed : Packed m_buffSize m_buffs) :
    (current m_buffSize m_buffs).1.flatten ++ (current m_buffSize m_buffs).2 = m_buffs.flatten ∧
      (∀ buff ∈ (current m_buffSize m_buffs).1, buff.length = m_buffSize.toNat) ∧
      (current m_buffSize m_buffs).2.length < m_buffSize.toNat := by
  obtain ⟨full, fits⟩ := packed
  rw [current]
  cases last : m_buffs.getLast? with
  | none =>
      rw [List.getLast?_eq_none_iff] at last
      subst last
      exact ⟨rfl, List.forall_mem_nil _, positive⟩
  | some back =>
      obtain ⟨before, rfl⟩ := List.getLast?_eq_some_iff.mp last
      rw [List.dropLast_concat] at full
      dsimp only
      split
      next notFull =>
        have small := fits back (by simp)
        rw [List.dropLast_concat]
        refine ⟨by simp, full, ?_⟩
        show back.length < _
        omega
      next isFull =>
        refine ⟨by simp, ?_, positive⟩
        intro buff member
        rcases List.mem_append.mp member with inside | isBack
        · exact full buff inside
        · rw [List.mem_singleton.mp isBack]
          exact not_not.mp isFull

/-- What is put in the current buffer keeps the buffers packed. -/
theorem packed_concat {front : List Bytes} {ivc produced : Bytes}
    (full : ∀ buff ∈ front, buff.length = m_buffSize.toNat)
    (fits : ivc.length + produced.length ≤ m_buffSize.toNat) :
    Packed m_buffSize (front ++ [ivc ++ produced]) := by
  constructor
  · rw [List.dropLast_concat]
    exact full
  · intro buff member
    rcases List.mem_append.mp member with inside | isLast
    · exact Nat.le_of_eq (full buff inside)
    · rw [List.mem_singleton.mp isLast, List.length_append]
      exact fits

end Buffers

/-! ## The driver -/

variable {State : Type} {codec : Codec State} {complete : Bytes → Bytes} {text : Bytes}
  {m_buffSize : UInt32}

/-- The codec used this input and gave out what is in the buffers. -/
structure Driven (codec : Codec State) (m_buffSize : UInt32) (input : Bytes) (ended : Bool)
    (stream : ZlibStream State) : Prop where
  size : stream.m_buffSize = m_buffSize
  reached : ∃ state, stream.m_zstream = some state ∧
    codec.Reached state input stream.m_buffs.flatten ended
  packed : Packed m_buffSize stream.m_buffs

theorem driven_new (codec : Codec State) (m_buffSize : UInt32) :
    Driven codec m_buffSize [] false (new codec m_buffSize) where
  size := rfl
  reached := ⟨codec.init, rfl, .init⟩
  packed := ⟨List.forall_mem_nil _, List.forall_mem_nil _⟩

/-- What one round of the loop leaves, with how much of the input it used. -/
structure Round (codec : Codec State) (complete : Bytes → Bytes) (m_buffSize : UInt32)
    (input more : Bytes) (flush : Bool) (stream next : ZlibStream State) (consumed : Nat)
    (full : Bool) : Prop where
  step : ∀ fuel, stream.drive codec (fuel + 1) more flush =
    if full then next.drive codec fuel (more.drop consumed) flush else some (Z_OK, next)
  driven : Driven codec m_buffSize (input ++ more.take consumed) flush next
  consumed_le : consumed ≤ more.length
  grows : full = true → stream.m_buffs.flatten.length < next.m_buffs.flatten.length
  usesAll : full = false → consumed = more.length
  total : full = false → flush = true → next.m_buffs.flatten = complete (input ++ more)

section Drive

variable {input more : Bytes} {ended flush : Bool} {stream : ZlibStream State}

theorem exists_round (honours : codec.HonoursOn complete text) (positive : 0 < m_buffSize.toNat)
    (driven : Driven codec m_buffSize input ended stream)
    (allowed : ended = true → flush = true ∧ more = []) (inside : input ++ more <+: text) :
    ∃ next consumed full,
      Round codec complete m_buffSize input more flush stream next consumed full := by
  obtain ⟨state, isState, reached⟩ := driven.reached
  obtain ⟨flat, fullFront, room⟩ := current_spec positive driven.packed
  generalize front_eq : (current m_buffSize stream.m_buffs).1 = front at flat fullFront
  generalize ivc_eq : (current m_buffSize stream.m_buffs).2 = ivc at flat room
  have roomPos : 0 < m_buffSize.toNat - ivc.length := by omega
  have lawful := honours.lawful reached more flush roomPos allowed inside
  have reachedNext := reached.call more flush roomPos allowed
  generalize called_eq :
    codec.call state more (m_buffSize.toNat - ivc.length) flush = called at lawful reachedNext
  have producedLe := lawful.produced_le
  have flatNext : (front ++ [ivc ++ called.produced]).flatten =
      stream.m_buffs.flatten ++ called.produced := by
    rw [← flat]
    simp
  refine ⟨{ stream with m_zstream := some called.state, m_buffs := front ++ [ivc ++ called.produced] },
    called.consumed, decide (called.produced.length = m_buffSize.toNat - ivc.length), ?_⟩
  constructor
  · intro fuel
    rw [drive, driven.size, isState]
    simp only [callCodec, front_eq, ivc_eq, called_eq, lawful.noError, Bool.false_eq_true,
      if_false, decide_eq_true_eq]
    apply if_congr _ rfl rfl
    omega
  · constructor
    · exact driven.size
    · exact ⟨called.state, rfl, by rw [flatNext]; exact reachedNext⟩
    · exact packed_concat fullFront (by omega)
  · exact lawful.consumed_le
  · intro isFull
    rw [flatNext, List.length_append]
    have length := of_decide_eq_true isFull
    omega
  · intro notFull
    exact lawful.ends.resolve_right (of_decide_eq_false notFull)
  · intro notFull finish
    subst finish
    rw [flatNext, ← called_eq]
    apply honours.total reached more roomPos (fun isEnded => (allowed isEnded).2) inside
    have length := of_decide_eq_false notFull
    rw [called_eq]
    omega

/-- Where a round filled the buffer, the next rounds go on with what it left. -/
theorem Round.resume {next : ZlibStream State} {consumed : Nat}
    (round : Round codec complete m_buffSize input more flush stream next consumed true)
    {enough : Nat} {after : ZlibStream State}
    (runs : ∀ fuel ≥ enough,
      next.drive codec fuel (more.drop consumed) flush = some (Z_OK, after)) :
    ∀ fuel ≥ enough + 1, stream.drive codec fuel more flush = some (Z_OK, after) := by
  intro fuel big
  obtain ⟨fuel, rfl⟩ := Nat.exists_eq_add_of_le' (Nat.le_of_add_left_le big)
  rw [round.step fuel, if_pos rfl]
  apply runs
  omega

/-- The loop over a buffer ends when the codec has all of the buffer; with `flush` also when the
output is complete.  A round that fills the buffer uses some of the input or adds to the output,
which is never longer than the complete output. -/
theorem drive_spec (honours : codec.HonoursOn complete text) (positive : 0 < m_buffSize.toNat)
    (more : Bytes) (flush : Bool) (driven : Driven codec m_buffSize input ended stream)
    (allowed : ended = true → flush = true) (atEnd : flush = true → more = [])
    (inside : input ++ more <+: text) :
    ∃ enough after,
      (∀ fuel ≥ enough, stream.drive codec fuel more flush = some (Z_OK, after)) ∧
      Driven codec m_buffSize (input ++ more) flush after ∧
      (flush = true → after.m_buffs.flatten = complete (input ++ more)) := by
  induction left_eq : more.length using Nat.strongRecOn
    generalizing input more ended stream with
  | ind left ihInput =>
      induction lacks_eq : (complete input).length - stream.m_buffs.flatten.length
        using Nat.strongRecOn generalizing ended stream with
      | ind lacks ihOutput =>
          obtain ⟨next, consumed, full, round⟩ := exists_round honours positive driven
            (fun isEnded => ⟨allowed isEnded, atEnd (allowed isEnded)⟩) inside
          cases full with
          | false =>
              have all := round.usesAll rfl
              refine ⟨1, next, ?_, ?_, round.total rfl⟩
              · intro fuel big
                obtain ⟨fuel, rfl⟩ := Nat.exists_eq_add_of_le' big
                exact round.step fuel
              · have driven := round.driven
                rwa [all, List.take_length] at driven
          | true =>
              have rest : flush = true → more.drop consumed = [] := by
                intro isFlush
                rw [atEnd isFlush, List.drop_nil]
              have whole : input ++ more.take consumed ++ more.drop consumed = input ++ more := by
                rw [List.append_assoc, List.take_append_drop]
              by_cases used : consumed = 0
              · subst used
                have sameInput := round.driven
                rw [List.take_zero, List.append_nil] at sameInput
                obtain ⟨state, isState, reached⟩ := sameInput.reached
                have within := (List.prefix_append input more).trans inside
                have bound := (honours.beginning reached within).length_le
                have grows := round.grows rfl
                obtain ⟨enough, after, runs, drivenAfter, total⟩ :=
                  ihOutput _ (by omega) sameInput id rfl
                exact ⟨enough + 1, after, round.resume runs, drivenAfter, total⟩
              · have consumedLe := round.consumed_le
                obtain ⟨enough, after, runs, drivenAfter, total⟩ := ihInput
                  (more.drop consumed).length (by rw [List.length_drop]; omega)
                  (more.drop consumed) round.driven id rest (whole ▸ inside) rfl
                rw [whole] at drivenAfter total
                exact ⟨enough + 1, after, round.resume runs, drivenAfter, total⟩

end Drive

/-! ## Sessions -/

/-- The stream of the library has ended, and the results are this output. -/
structure Sealed (m_buffSize : UInt32) (output : Bytes) (stream : ZlibStream State) : Prop where
  ended : stream.m_zstream = none
  size : stream.m_buffSize = m_buffSize
  result : stream.getResult = output
  packed : Packed m_buffSize stream.m_buffs

/-- What the codec gets of the writes. -/
def delivered (writes : List Write) : Bytes :=
  (writes.flatMap Write.iovecs).flatMap availIn

theorem delivered_cons (write : Write) (later : List Write) :
    delivered (write :: later) =
      write.iovecs.flatMap availIn ++ delivered later := by
  rw [delivered, List.flatMap_cons, List.flatMap_append, delivered]

section Session

variable {input : Bytes} {stream : ZlibStream State}

theorem driveAll_spec (honours : codec.HonoursOn complete text) (positive : 0 < m_buffSize.toNat)
    (v : List Bytes) (driven : Driven codec m_buffSize input false stream)
    (inside : input ++ v.flatMap availIn <+: text) :
    ∃ enough after,
      (∀ fuel ≥ enough, stream.driveAll codec fuel false v = some (Z_OK, after)) ∧
      Driven codec m_buffSize (input ++ v.flatMap availIn) false after := by
  induction v generalizing input stream with
  | nil =>
      refine ⟨0, stream, fun fuel _ => rfl, ?_⟩
      rwa [List.flatMap_nil, List.append_nil]
  | cons iov later ih =>
      rw [List.flatMap_cons, ← List.append_assoc] at inside
      obtain ⟨first, next, runsFirst, drivenNext, -⟩ := drive_spec honours positive
        (availIn iov) false driven id Bool.noConfusion
        ((List.prefix_append ..).trans inside)
      obtain ⟨enough, after, runs, drivenAfter⟩ := ih drivenNext inside
      refine ⟨max first enough, after, ?_, ?_⟩
      · intro fuel big
        rw [driveAll, Bool.false_and, runsFirst fuel (le_of_max_le_left big)]
        exact runs fuel (le_of_max_le_right big)
      · rwa [List.flatMap_cons, ← List.append_assoc]

theorem encode_spec (honours : codec.HonoursOn complete text) (positive : 0 < m_buffSize.toNat)
    (v : List Bytes) (driven : Driven codec m_buffSize input false stream)
    (inside : input ++ v.flatMap availIn <+: text) :
    ∃ enough after, (∀ fuel ≥ enough, stream.encode codec fuel v false = some (Z_OK, after)) ∧
      Driven codec m_buffSize (input ++ v.flatMap availIn) false after := by
  obtain ⟨enough, after, runs, drivenAfter⟩ := driveAll_spec honours positive v driven inside
  refine ⟨enough, after, ?_, drivenAfter⟩
  intro fuel big
  rw [encode, runs fuel big]
  rfl

theorem writeAll_spec (honours : codec.HonoursOn complete text) (positive : 0 < m_buffSize.toNat)
    (writes : List Write) (driven : Driven codec m_buffSize input false stream)
    (inside : input ++ delivered writes <+: text) :
    ∃ enough after,
      (∀ fuel ≥ enough, stream.writeAll codec fuel writes =
        some (List.replicate writes.length Z_OK, after)) ∧
      Driven codec m_buffSize (input ++ delivered writes) false after := by
  induction writes generalizing input stream with
  | nil =>
      refine ⟨0, stream, fun fuel _ => rfl, ?_⟩
      rwa [delivered, List.flatMap_nil, List.flatMap_nil, List.append_nil]
  | cons write later ih =>
      rw [delivered_cons, ← List.append_assoc] at inside
      obtain ⟨first, next, runsFirst, drivenNext⟩ :=
        encode_spec honours positive write.iovecs driven ((List.prefix_append ..).trans inside)
      obtain ⟨enough, after, runs, drivenAfter⟩ := ih drivenNext inside
      refine ⟨max first enough, after, ?_, ?_⟩
      · intro fuel big
        simp only [writeAll, runsFirst fuel (le_of_max_le_left big),
          runs fuel (le_of_max_le_right big), List.length_cons, List.replicate_succ]
      · rwa [delivered_cons, ← List.append_assoc]

theorem flush_spec (honours : codec.HonoursOn complete text) (positive : 0 < m_buffSize.toNat)
    (driven : Driven codec m_buffSize input false stream) (inside : input <+: text) :
    ∃ enough after, (∀ fuel ≥ enough, stream.flush codec fuel = some (Z_OK, after)) ∧
      Sealed m_buffSize (complete input) after := by
  rw [← List.append_nil input] at inside
  obtain ⟨enough, after, runs, drivenAfter, total⟩ :=
    drive_spec honours positive [] true driven Bool.noConfusion (fun _ => rfl) inside
  refine ⟨enough, { after with m_zstream := none }, ?_, ?_⟩
  · intro fuel big
    have runs := runs fuel big
    simp [flush, encode, driveAll, availIn, runs,
      Z_OK, Z_STREAM_ERROR]
  · rw [List.append_nil] at total
    constructor
    · rfl
    · exact drivenAfter.size
    · exact total rfl
    · exact drivenAfter.packed

/-- Every session returns, and the buffers hold the complete output for what the codec got. -/
theorem session_sealed (honours : codec.HonoursOn complete text) (positive : 0 < m_buffSize.toNat)
    (writes : List Write) (inside : delivered writes <+: text) :
    ∃ enough after,
      (∀ fuel ≥ enough, session codec fuel m_buffSize writes =
        some (List.replicate (writes.length + 1) Z_OK, after)) ∧
      Sealed m_buffSize (complete (delivered writes)) after := by
  obtain ⟨first, written, runsFirst, drivenWritten⟩ :=
    writeAll_spec honours positive writes (driven_new codec m_buffSize) inside
  obtain ⟨enough, after, runs, isSealed⟩ := flush_spec honours positive drivenWritten inside
  refine ⟨max first enough, after, ?_, isSealed⟩
  intro fuel big
  simp only [session, runsFirst fuel (le_of_max_le_left big),
    runs fuel (le_of_max_le_right big), List.replicate_succ']

theorem session_spec (honours : codec.Honours complete) (positive : 0 < m_buffSize.toNat)
    (writes : List Write) :
    ∃ enough after,
      (∀ fuel ≥ enough, session codec fuel m_buffSize writes =
        some (List.replicate (writes.length + 1) Z_OK, after)) ∧
      after.getResult = complete (delivered writes) ∧ Packed after.m_buffSize after.m_buffs := by
  obtain ⟨enough, after, runs, isSealed⟩ :=
    session_sealed (honours.on _) positive writes (List.prefix_refl _)
  refine ⟨enough, after, runs, isSealed.result, ?_⟩
  rw [isSealed.size]
  exact isSealed.packed

end Session

/-! ## Byte arrays -/

theorem writeBuffs_spec (fresh : Nat → Nat → Nat → UInt8) {ba : ByteArray} {bytes : Bytes}
    (holds : ba.Holds bytes) (m_buffs : List Bytes) (index : Nat) :
    ∃ after, writeBuffs fresh index ba m_buffs = .ok after ∧
      after.Holds (bytes ++ m_buffs.flatten) := by
  induction m_buffs generalizing ba bytes index with
  | nil =>
      refine ⟨ba, rfl, ?_⟩
      rwa [List.flatten_nil, List.append_nil]
  | cons i later ih =>
      obtain ⟨next, written, holdsNext⟩ := holds.write (fresh index) i
      obtain ⟨after, rest, holdsAll⟩ := ih holdsNext (index + 1)
      refine ⟨after, ?_, ?_⟩
      · rw [writeBuffs, written]
        exact rest
      · rwa [List.flatten_cons, ← List.append_assoc]

theorem getByteArray_spec (fresh : Nat → Nat → Nat → UInt8) (stream : ZlibStream State) :
    ∃ ba, stream.getByteArray fresh = .ok ba ∧ ba.m_position = 0 ∧
      ba.readable = stream.getResult := by
  have new := ByteArray.holds_new (show 1 ≤ 4096 by decide) (fresh 0 0)
  obtain ⟨filled, written, holds⟩ := writeBuffs_spec fresh new stream.m_buffs 1
  obtain ⟨back, moved, position, readable⟩ := holds.setPosition
  refine ⟨back, ?_, position, readable⟩
  rw [getByteArray, written]
  exact moved

/-- The buffers of a write are its bytes in their order. -/
theorem flatten_iovecs (write : Write) : write.iovecs.flatten = write.input := by
  cases write with
  | plain buffer => exact List.append_nil buffer
  | byteArray ba valid length =>
      obtain ⟨iovs, done, tiles⟩ := ByteArray.getReadBuffers_spec valid length
      have gathered := ByteArray.gather_tiles valid.sizes tiles
      rw [Write.iovecs, Write.input, done]
      change (iovs.map (ByteArray.Iovec.load ba.nodes)).flatten = _
      rw [← List.flatMap_def, ← ByteArray.gather, gathered, ByteArray.readable, List.drop_take,
        List.take_take, ByteArray.getReadSize]

/-! ## Delivery -/

theorem length_flatMap_availIn_le (v : List Bytes) :
    (v.flatMap availIn).length ≤ v.flatten.length := by
  induction v with
  | nil => exact Nat.le_refl _
  | cons iov later ih =>
      rw [List.flatMap_cons, List.flatten_cons, List.length_append, List.length_append]
      exact Nat.add_le_add (length_availIn_le iov) ih

/-- The codec gets all of the buffers just when it gets all of each. -/
theorem flatMap_availIn_eq_iff (v : List Bytes) :
    v.flatMap availIn = v.flatten ↔ ∀ iov ∈ v, iov.length < 2 ^ 32 := by
  induction v with
  | nil => simp
  | cons iov later ih =>
      rw [List.flatMap_cons, List.flatten_cons, List.forall_mem_cons, ← ih, ← availIn_eq_iff]
      constructor
      · intro same
        have lengths := congrArg List.length same
        rw [List.length_append, List.length_append] at lengths
        have first := length_availIn_le iov
        have others := length_flatMap_availIn_le later
        exact List.append_inj same (by omega)
      · rintro ⟨first, others⟩
        rw [first, others]

theorem delivered_eq_iff (writes : List Write) :
    delivered writes = writes.flatMap Write.input ↔
      ∀ write ∈ writes, ∀ iov ∈ write.iovecs, iov.length < 2 ^ 32 := by
  have input : writes.flatMap Write.input = (writes.flatMap Write.iovecs).flatten := by
    simp only [List.flatMap_def, List.flatten_flatten, List.map_map, Function.comp_def,
      flatten_iovecs]
  rw [delivered, input, flatMap_availIn_eq_iff]
  simp only [List.mem_flatMap]
  constructor
  · intro short write member iov inside
    exact short iov ⟨write, member, inside⟩
  · rintro short iov ⟨write, member, inside⟩
    exact short write member iov inside

/-- The results are the complete output for what the codec got. -/
theorem delivers_eq (honours : codec.Honours complete) (positive : 0 < m_buffSize.toNat)
    {fresh : Nat → Nat → Nat → UInt8} {writes : List Write} :
    Delivers codec complete fresh m_buffSize writes ↔
      complete (delivered writes) = complete (writes.flatMap Write.input) := by
  obtain ⟨enough, after, runs, result, packed⟩ := session_spec honours positive writes
  constructor
  · rintro ⟨other, stream, returns, yields⟩
    have same := (runs _ (le_max_left enough other)).symm.trans
      (returns _ (le_max_right enough other))
    cases same
    exact result.symm.trans yields.result
  · intro same
    obtain ⟨ba, read, position, readable⟩ := getByteArray_spec fresh after
    rw [result, same] at readable
    exact ⟨enough, after, runs, result.trans same, packed, ba, read, position, readable⟩

/-- With every codec every session gives the complete output for what was written just when each
buffer of each write is shorter than what `avail_in` can count. -/
theorem session_delivers_iff (m_buffSize : UInt32) (positive : 1 ≤ m_buffSize)
    (fresh : Nat → Nat → Nat → UInt8) (writes : List Write) :
    (∀ (State : Type) (codec : Codec State) (complete : Bytes → Bytes), codec.Honours complete →
      Delivers codec complete fresh m_buffSize writes) ↔
    ∀ write ∈ writes, ∀ iov ∈ write.iovecs, iov.length < 2 ^ 32 := by
  have room : 0 < m_buffSize.toNat := UInt32.le_iff_toNat_le.mp positive
  rw [← delivered_eq_iff]
  constructor
  · intro delivers
    exact (delivers_eq Codec.stored_honours room).mp
      (delivers Bytes Codec.stored id Codec.stored_honours)
  · intro same State codec complete honours
    exact (delivers_eq honours room).mpr (congrArg complete same)

theorem fourBytes_valid : (ByteArray.fourBytes 1).Valid :=
  (ByteArray.reaches_layout (ByteArray.reachable_fourBytes (by decide))).valid (by decide)

/-- Three bytes, then the last three of four in nodes of two, in buffers of two. -/
theorem session_delivers_iff_two :
    Delivers Codec.stored id (fun _ _ _ => 0) 2
      [.plain [7, 8, 9], .byteArray (ByteArray.fourBytes 1) fourBytes_valid 3, .plain []] :=
  (session_delivers_iff 2 (by decide) _ _).mpr (by decide) Bytes Codec.stored id
    Codec.stored_honours

theorem delivered_four_gib {buffer : Bytes} (length : buffer.length = 2 ^ 32) :
    delivered [.plain buffer] = [] := by
  rw [delivered, List.flatMap_singleton, Write.iovecs, List.flatMap_singleton,
    availIn, length, Nat.mod_self, List.take_zero]

theorem session_four_gib {buffer : Bytes} (length : buffer.length = 2 ^ 32)
    (fresh : Nat → Nat → Nat → UInt8) :
    (∃ enough after, (∀ fuel ≥ enough, session Codec.stored fuel 4096
        [.plain buffer] = some ([Z_OK, Z_OK], after)) ∧ after.getResult = []) ∧
      ¬ Delivers Codec.stored id fresh 4096 [.plain buffer] := by
  have room : 0 < (4096 : UInt32).toNat := by decide
  constructor
  · obtain ⟨enough, after, runs, result, -⟩ :=
      session_spec Codec.stored_honours room [.plain buffer]
    rw [delivered_four_gib length] at result
    exact ⟨enough, after, runs, result⟩
  · rw [delivers_eq Codec.stored_honours room, delivered_four_gib length,
      List.flatMap_singleton, Write.input]
    intro same
    have lengths := congrArg List.length same
    rw [id, id, length, List.length_nil] at lengths
    omega

/-- Of 4 GiB in one buffer the codec gets nothing, and the calls report no error. -/
theorem session_not_delivered :
    Codec.stored.Honours id ∧
      (∃ enough after, (∀ fuel ≥ enough, session Codec.stored fuel 4096
          [.plain (List.replicate (2 ^ 32) 0)] = some ([Z_OK, Z_OK], after)) ∧
        after.getResult = []) ∧
      ¬ Delivers Codec.stored id (fun _ _ _ => 0) 4096 [.plain (List.replicate (2 ^ 32) 0)] :=
  ⟨Codec.stored_honours, session_four_gib List.length_replicate _⟩

end Exhy.ZlibStream
