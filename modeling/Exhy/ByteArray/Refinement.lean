import Exhy.ByteArray.Invariant

/-!
# The byte array is a flat buffer with a cursor

`FlatBuffer` states what a byte array is for: bytes, a position and a size, with no
chunks.  `toFlat` forgets the chunking, and every run of the chunked operations is a
run of the flat ones.
-/

namespace Exhy.ByteArray

open Library

/-- One call.  `fresh` is the content of the memory that a write allocates. -/
inductive Op where
  | write (fresh : Nat → Nat → UInt8) (buf : List UInt8)
  | read (size : Nat)
  | setPosition (v : Nat)
  | clear
  | setIsLittleEndian (val : Bool)

namespace Op

/-- The chunked implementation of a call: the array after it and the bytes it
returned. -/
def exec (op : Op) (ba : ByteArray) : Except Fault (ByteArray × List UInt8) :=
  match op with
  | .write fresh buf => (ba.write fresh buf).map fun after => (after, [])
  | .read size => ba.read size
  | .setPosition v => (ba.setPosition v).map fun after => (after, [])
  | .clear => .ok (ba.clear, [])
  | .setIsLittleEndian val => .ok (ba.setIsLittleEndian val, [])

/-- What the caller of an operation has to observe. -/
def Allowed (op : Op) (ba : ByteArray) : Prop :=
  match op with
  | .read size => 1 ≤ size ∧ size ≤ ba.getReadSize
  | .setPosition v => v ≤ ba.m_capacity
  | _ => True

instance (op : Op) (ba : ByteArray) : Decidable (op.Allowed ba) :=
  match op with
  | .write _ _ | .clear | .setIsLittleEndian _ => inferInstanceAs (Decidable True)
  | .read size => inferInstanceAs (Decidable (1 ≤ size ∧ size ≤ ba.getReadSize))
  | .setPosition v => inferInstanceAs (Decidable (v ≤ ba.m_capacity))

end Op

/-- A sequence of calls, with the bytes that each one returned. -/
def execAll : List Op → ByteArray → Except Fault (ByteArray × List (List UInt8))
  | [], ba => .ok (ba, [])
  | op :: ops, ba => do
      let (ba, output) ← op.exec ba
      let (ba, outputs) ← execAll ops ba
      return (ba, output :: outputs)

/-- Every call of the sequence is allowed in the state it is made in. -/
def AllAllowed : List Op → ByteArray → Prop
  | [], _ => True
  | op :: ops, ba =>
      op.Allowed ba ∧ ∀ after output, op.exec ba = .ok (after, output) → AllAllowed ops after

/-- Bytes in one piece.  `bytes.length` is the capacity. -/
structure FlatBuffer where
  bytes : List UInt8
  position : Nat
  size : Nat
  endian : Endian
  deriving DecidableEq

/-- Forget how the bytes are cut into nodes. -/
def toFlat (ba : ByteArray) : FlatBuffer where
  bytes := contents ba.nodes
  position := ba.m_position
  size := ba.m_size
  endian := ba.m_endian

namespace FlatBuffer

/-- `after` holds `buf` at `start` and is `before` everywhere else; it may be longer. -/
def Overwrites (before after : List UInt8) (start : Nat) (buf : List UInt8) : Prop :=
  before.length ≤ after.length ∧ start + buf.length ≤ after.length ∧
    (∀ index < buf.length, after[start + index]? = buf[index]?) ∧
    ∀ index < before.length, (index < start ∨ start + buf.length ≤ index) →
      after[index]? = before[index]?

/-- What each call means for a flat buffer. -/
def Step (before : FlatBuffer) (op : Op) (output : List UInt8) (after : FlatBuffer) : Prop :=
  match op with
  | .write _ buf =>
      output = [] ∧ Overwrites before.bytes after.bytes before.position buf ∧
        after.position = before.position + buf.length ∧
        after.size = max before.size (before.position + buf.length) ∧
        after.endian = before.endian
  | .read size =>
      output = (before.bytes.drop before.position).take size ∧ output.length = size ∧
        after = { before with position := before.position + size }
  | .setPosition v =>
      output = [] ∧ after = { before with position := v, size := max before.size v }
  | .clear =>
      output = [] ∧ after.bytes <+: before.bytes ∧ after.position = 0 ∧ after.size = 0 ∧
        after.endian = before.endian
  | .setIsLittleEndian val =>
      output = [] ∧ after = { before with
        endian := if val then .EXHY_LITTLE_ENDIAN else .EXHY_BIG_ENDIAN }

/-- A run of the flat buffer with the bytes returned by its calls. -/
inductive Run : FlatBuffer → List Op → List (List UInt8) → FlatBuffer → Prop where
  | nil (buffer : FlatBuffer) : Run buffer [] [] buffer
  | cons {before middle after : FlatBuffer} {op : Op} {ops : List Op}
      {output : List UInt8} {outputs : List (List UInt8)} :
      Step before op output middle → Run middle ops outputs after →
      Run before (op :: ops) (output :: outputs) after

/-- Overwriting a stretch of an extended buffer is an overwrite of the buffer. -/
theorem overwrites_splice {before added buf : List UInt8} {start : Nat}
    (fits : start + buf.length ≤ (before ++ added).length) :
    Overwrites before (splice (before ++ added) start buf) start buf := by
  refine ⟨?_, ?_, ?_, ?_⟩
  · rw [splice_length fits]
    simp
  · rw [splice_length fits]
    exact fits
  · exact fun index inside => getElem?_splice_inside fits inside
  · intro index inBefore outside
    rw [getElem?_splice_outside fits outside, List.getElem?_append_left inBefore]

end FlatBuffer

/-- One allowed call of the chunked array is the same call of the flat buffer. -/
theorem exec_refines {ba : ByteArray} (valid : ba.Valid) {op : Op} (allowed : op.Allowed ba) :
    ∃ after output, op.exec ba = .ok (after, output) ∧ after.Valid ∧
      (toFlat ba).Step op output (toFlat after) := by
  cases op with
  | write fresh buf =>
      obtain ⟨after, added, written, afterValid, bytesEq, fits, positionEq, sizeEq, endianEq⟩ :=
        write_spec valid fresh buf
      refine ⟨after, [], by rw [Op.exec, written]; rfl, afterValid, rfl, ?_, positionEq,
        sizeEq, endianEq⟩
      simp only [toFlat, bytesEq]
      exact FlatBuffer.overwrites_splice fits
  | read size =>
      obtain ⟨positive, available⟩ := allowed
      obtain ⟨after, done, afterValid, nodesEq, positionEq, sizeEq, endianEq⟩ :=
        read_spec valid positive available
      refine ⟨after, _, done, afterValid, rfl, ?_, ?_⟩
      · have sizeLe := valid.size_le
        rw [getReadSize] at available
        rw [List.length_take, List.length_drop, valid.contents_length]
        omega
      · simp only [toFlat, nodesEq, positionEq, sizeEq, endianEq]
  | setPosition v =>
      obtain ⟨after, done, afterValid, nodesEq, positionEq, sizeEq, endianEq⟩ :=
        setPosition_spec valid allowed
      refine ⟨after, [], by rw [Op.exec, done]; rfl, afterValid, rfl, ?_⟩
      simp only [toFlat, nodesEq, positionEq, sizeEq, endianEq]
  | clear =>
      refine ⟨ba.clear, [], rfl, clear_valid valid, rfl, ?_, rfl, rfl, rfl⟩
      refine ⟨contents (ba.nodes.drop 1), ?_⟩
      simp only [toFlat, clear, ← contents_append, List.take_append_drop]
  | setIsLittleEndian val =>
      exact ⟨_, [], rfl, setIsLittleEndian_valid valid val, rfl, rfl⟩

theorem execAll_refines {ba : ByteArray} (valid : ba.Valid) {ops : List Op}
    (allowed : AllAllowed ops ba) :
    ∃ after outputs, execAll ops ba = .ok (after, outputs) ∧ after.Valid ∧
      FlatBuffer.Run (toFlat ba) ops outputs (toFlat after) := by
  induction ops generalizing ba with
  | nil => exact ⟨ba, [], rfl, valid, .nil _⟩
  | cons op ops ih =>
      obtain ⟨headAllowed, tailAllowed⟩ := allowed
      obtain ⟨middle, output, done, middleValid, stepped⟩ := exec_refines valid headAllowed
      obtain ⟨after, outputs, restDone, afterValid, run⟩ :=
        ih middleValid (tailAllowed middle output done)
      refine ⟨after, output :: outputs, ?_, afterValid, .cons stepped run⟩
      rw [execAll, done]
      change (execAll ops middle >>= fun result => _) = _
      rw [restDone]
      rfl

/-- From a new byte array, every sequence of allowed calls runs to its end without
following a null node, and it is a run of the flat buffer with a cursor. -/
theorem chunked_refines_flat {base_size : Nat} (basePos : 1 ≤ base_size)
    (fresh : Nat → UInt8) {ops : List Op} (allowed : AllAllowed ops (new base_size fresh)) :
    (toFlat (new base_size fresh)).position = 0 ∧ (toFlat (new base_size fresh)).size = 0 ∧
      ∃ after outputs, execAll ops (new base_size fresh) = .ok (after, outputs) ∧
        FlatBuffer.Run (toFlat (new base_size fresh)) ops outputs (toFlat after) := by
  obtain ⟨after, outputs, done, -, run⟩ :=
    execAll_refines (new_valid basePos fresh) allowed
  exact ⟨rfl, rfl, after, outputs, done, run⟩

/-- Three bytes across two chunks of two, read back from the middle. -/
theorem chunked_refines_flat_across :
    ∃ after outputs,
      execAll [.write (fun _ _ => 0) [1, 2, 3], .setPosition 1, .read 2]
        (new 2 fun _ => 0) = .ok (after, outputs) ∧
      FlatBuffer.Run (toFlat (new 2 fun _ => 0))
        [.write (fun _ _ => 0) [1, 2, 3], .setPosition 1, .read 2] outputs (toFlat after) := by
  have allowed : AllAllowed [.write (fun _ _ => 0) [1, 2, 3], .setPosition 1, .read 2]
      (new 2 fun _ => 0) := by
    refine And.intro trivial fun written _ writeDone => ?_
    cases writeDone
    refine And.intro (by decide) fun moved _ moveDone => ?_
    cases moveDone
    exact And.intro (by decide) fun _ _ _ => trivial
  exact (chunked_refines_flat (by decide) (fun _ => 0) allowed).2.2

end Exhy.ByteArray
