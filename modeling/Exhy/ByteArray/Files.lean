import Exhy.ByteArray.Reachable
import Exhy.Library.CString

/-!
# Files

`writeToFile` and `readFromFile`, with a file for its bytes.
-/

namespace Exhy.ByteArray

open Library

/-- An `ofstream`: what it has stored, and whether a write has failed. -/
structure OutFile where
  bytes : List UInt8 := []
  bad : Bool := false

/-- `ofs.write(source, len)`; a negative length fails, and behind a failure nothing is stored. -/
def OutFile.write (ofs : OutFile) (source : List UInt8) (len : Int) : OutFile :=
  if ofs.bad then ofs
  else if len < 0 then { ofs with bad := true }
  else { ofs with bytes := ofs.bytes ++ source.take len.toNat }

/-- The loop of `writeToFile`.  `diff` is an `int`; where it is negative, `cur->ptr + diff` lies in
front of the node. -/
def writeToFileLoop (m_baseSize : Nat) : (cur : List Node) → (pos read_size : Int) → OutFile →
    Except Fault OutFile
  | [], _, read_size, ofs => if read_size > 0 then .error .nullNode else .ok ofs
  | node :: next, pos, read_size, ofs =>
      if read_size > 0 then
        let diff := toInt32 (pos % m_baseSize)
        let len := (if read_size > m_baseSize then (m_baseSize : Int) else read_size) - diff
        if diff < 0 then .error .underrun
        else
          writeToFileLoop m_baseSize next (pos + len) (read_size - len)
            (ofs.write (node.ptr.drop diff.toNat) len)
      else .ok ofs

/-- `writeToFile(name)` for a file that can be opened: what the file holds then. -/
def writeToFile (ba : ByteArray) : Except Fault (List UInt8) :=
  (writeToFileLoop ba.m_baseSize ba.chain ba.m_position (ba.m_size - ba.m_position) {}).map
    OutFile.bytes

/-- The loop of `readFromFile`: a read that is not full has met the end of the file.  `fresh` has
the contents of the nodes that each write allocates. -/
def readFromFileLoop (m_baseSize : Nat) (fresh : Nat → Nat → Nat → UInt8) (ba : ByteArray)
    (ifs : List UInt8) : Except Fault ByteArray :=
  if 0 < m_baseSize ∧ m_baseSize ≤ ifs.length then
    match ba.write (fresh ifs.length) (ifs.take m_baseSize) with
    | .error fault => .error fault
    | .ok ba => readFromFileLoop m_baseSize fresh ba (ifs.drop m_baseSize)
  else ba.write (fresh ifs.length) ifs
termination_by ifs.length
decreasing_by
  rw [List.length_drop]
  omega

/-- `readFromFile(name)` for a file that can be opened. -/
def readFromFile (ba : ByteArray) (fresh : Nat → Nat → Nat → UInt8) (ifs : List UInt8) :
    Except Fault ByteArray :=
  readFromFileLoop ba.m_baseSize fresh ba ifs

theorem OutFile.bytes_write (ofs : OutFile) (source : List UInt8) (len : Int) :
    (ofs.write source len).bytes =
      ofs.bytes ++ if ofs.bad then [] else source.take len.toNat := by
  rw [write]
  split
  next => rw [List.append_nil]
  next =>
    split
    next negative => rw [Int.toNat_of_nonpos (by omega), List.take_zero, List.append_nil]
    next => rfl

variable {ba : ByteArray}

/-! ## Writing -/

section Loop

variable {base : Nat} {cur : List Node}

/-- The offset of a position in its node. -/
theorem diff_eq (pos : Nat) : toInt32 ((pos : Int) % (base : Int)) = toInt32 (pos % base : Nat) := by
  rw [Int.natCast_emod]

/-- From the start of a node on the loop writes what is left. -/
theorem writeToFileLoop_aligned (sizes : ∀ node ∈ cur, node.size = base) (basePos : 0 < base)
    {pos read_size : Nat} (aligned : pos % base = 0) (room : read_size ≤ cur.length * base)
    (bytes : List UInt8) :
    writeToFileLoop base cur pos read_size { bytes := bytes } =
      .ok { bytes := bytes ++ (contents cur).take read_size } := by
  induction cur generalizing pos read_size bytes with
  | nil =>
      obtain rfl : read_size = 0 := by
        rw [List.length_nil, Nat.zero_mul] at room
        omega
      rw [writeToFileLoop, if_neg (by simp), contents_nil, List.take_nil, List.append_nil]
  | cons node next ih =>
      have length : node.ptr.length = base := sizes node List.mem_cons_self
      have later := fun other member => sizes other (List.mem_cons_of_mem node member)
      have start : toInt32 ((pos : Int) % (base : Int)) = 0 := by
        rw [diff_eq, aligned]
        exact toInt32_of_small (by decide)
      rw [List.length_cons, Nat.succ_mul] at room
      rw [writeToFileLoop, start]
      dsimp only
      rw [if_neg (Int.lt_irrefl 0)]
      rcases Nat.eq_zero_or_pos read_size with rfl | positive
      · rw [if_neg (by simp), List.take_zero, List.append_nil]
      rw [if_pos (by omega), Int.sub_zero]
      rcases Nat.lt_or_ge base read_size with whole | last
      · have rest : (read_size : Int) - (base : Int) = ((read_size - base : Nat) : Int) := by omega
        have moved : (pos : Int) + (base : Int) = ((pos + base : Nat) : Int) := by omega
        have stored : OutFile.write { bytes := bytes } (node.ptr.drop (0 : Int).toNat) base =
            { bytes := bytes ++ node.ptr } := by
          rw [OutFile.write, if_neg Bool.false_ne_true, if_neg (by omega), Int.toNat_natCast]
          rw [Int.toNat_zero, List.drop_zero, List.take_of_length_le length.le]
        have all : node.ptr.take read_size = node.ptr := List.take_of_length_le (by omega)
        rw [if_pos (by omega), rest, moved, stored,
          ih later (by rw [Nat.add_mod_right, aligned]) (by omega), contents_cons, List.take_append,
          all, length, List.append_assoc]
      · have stored : OutFile.write { bytes := bytes } (node.ptr.drop (0 : Int).toNat) read_size =
            { bytes := bytes ++ node.ptr.take read_size } := by
          rw [OutFile.write, if_neg Bool.false_ne_true, if_neg (by omega), Int.toNat_natCast]
          rw [Int.toNat_zero, List.drop_zero]
        have nothing : (read_size : Int) - (read_size : Int) = ((0 : Nat) : Int) := by omega
        have done : ∀ (place : Int) (ofs : OutFile),
            writeToFileLoop base next place ((0 : Nat) : Int) ofs = .ok ofs := by
          intro place ofs
          cases next with
          | nil => rw [writeToFileLoop, if_neg (by simp)]
          | cons => rw [writeToFileLoop, if_neg (by simp)]
        rw [if_neg (by omega), nothing, stored, done, contents_cons,
          List.take_append_of_le_length (by omega)]

/-- With fewer bytes left than a node has, a start inside a node is where the loop does not end:
the offset and what is left take each other's place until the nodes are used up, or until one of
them does not fit in an `int`. -/
theorem writeToFileLoop_lost (short : base ≤ 2 ^ 32) {pos diff read_size : Nat}
    (isDiff : pos % base = diff) (offset : 0 < diff) (some : 0 < read_size)
    (few : read_size < base) (ofs after : OutFile) :
    writeToFileLoop base cur pos read_size ofs ≠ .ok after := by
  induction cur generalizing pos diff read_size ofs with
  | nil =>
      rw [writeToFileLoop, if_pos (by omega)]
      exact fun same => nomatch same
  | cons node next ih =>
      have below : diff < base := isDiff ▸ Nat.mod_lt pos (by omega)
      have least : (if (read_size : Int) > (base : Int) then (base : Int) else read_size) = read_size :=
        if_neg (by omega)
      rw [writeToFileLoop, diff_eq, isDiff, least]
      dsimp only
      rw [if_pos (by omega)]
      rcases Nat.lt_or_ge diff (2 ^ 31) with fits | wraps
      · have decompose := Nat.div_add_mod pos base
        have moved : (pos : Int) + ((read_size : Int) - (diff : Int)) =
            ((base * (pos / base) + read_size : Nat) : Int) := by
          omega
        have rest : (read_size : Int) - ((read_size : Int) - (diff : Int)) = (diff : Int) := by omega
        have exchanged : (base * (pos / base) + read_size) % base = read_size := by
          rw [Nat.mul_add_mod, Nat.mod_eq_of_lt few]
        rw [toInt32_of_small fits, if_neg (by omega), moved, rest]
        exact ih exchanged some offset below _
      · have negative : toInt32 diff < 0 := by
          rw [toInt32_eq, Nat.mod_eq_of_lt (by omega), if_neg (by omega)]
          omega
        rw [if_pos negative]
        exact fun same => nomatch same

/-- From inside a node on, with at least as much left as a node has. -/
theorem writeToFileLoop_inside (sizes : ∀ node ∈ cur, node.size = base) {pos diff read_size : Nat}
    (isDiff : pos % base = diff) (below : diff < base) (fits : diff < 2 ^ 31)
    (many : base ≤ read_size) (room : diff + read_size ≤ cur.length * base) :
    writeToFileLoop base cur pos read_size {} =
      .ok { bytes := ((contents cur).drop diff).take read_size } := by
  cases cur with
  | nil =>
      rw [List.length_nil, Nat.zero_mul] at room
      omega
  | cons node next =>
      have length : node.ptr.length = base := sizes node List.mem_cons_self
      have later := fun other member => sizes other (List.mem_cons_of_mem node member)
      have decompose := Nat.div_add_mod pos base
      have len : (if (read_size : Int) > (base : Int) then (base : Int) else read_size) - (diff : Int) =
          ((base - diff : Nat) : Int) := by
        split <;> omega
      have moved : (pos : Int) + ((base - diff : Nat) : Int) = ((pos + (base - diff) : Nat) : Int) := by
        omega
      have rest : (read_size : Int) - ((base - diff : Nat) : Int) =
          ((read_size - (base - diff) : Nat) : Int) := by
        omega
      have aligned : (pos + (base - diff)) % base = 0 := by
        have next : pos + (base - diff) = base * (pos / base + 1) := by
          rw [Nat.mul_add, Nat.mul_one]
          omega
        rw [next, Nat.mul_mod_right]
      have dropped : (node.ptr.drop diff).length = base - diff := by
        rw [List.length_drop, length]
      have stored : OutFile.write {} (node.ptr.drop (diff : Int).toNat) ((base - diff : Nat) : Int) =
          { bytes := node.ptr.drop diff } := by
        rw [OutFile.write, if_neg Bool.false_ne_true, if_neg (by omega), Int.toNat_natCast,
          Int.toNat_natCast, List.nil_append, List.take_of_length_le dropped.le]
      have all : (node.ptr.drop diff).take read_size = node.ptr.drop diff :=
        List.take_of_length_le (by omega)
      rw [List.length_cons, Nat.succ_mul] at room
      rw [writeToFileLoop, diff_eq, isDiff, toInt32_of_small fits]
      dsimp only
      rw [if_pos (by omega), if_neg (by omega), len, moved, rest, stored,
        writeToFileLoop_aligned later (by omega) aligned (by omega), contents_cons,
        List.drop_append_of_le_length (by omega), List.take_append, all, dropped]

/-- What the loop stores comes from the nodes it has in front of it. -/
theorem writeToFileLoop_stores {pos read_size : Int} {ofs after : OutFile}
    (done : writeToFileLoop base cur pos read_size ofs = .ok after) :
    ∃ stored, after.bytes = ofs.bytes ++ stored ∧ ∀ byte ∈ stored, byte ∈ contents cur := by
  induction cur generalizing pos read_size ofs with
  | nil =>
      rw [writeToFileLoop] at done
      split at done
      next => cases done
      next =>
        cases done
        exact ⟨[], (List.append_nil _).symm, by simp⟩
  | cons node next ih =>
      rw [writeToFileLoop] at done
      split at done
      next =>
        dsimp only at done
        split at done
        next => cases done
        next =>
          obtain ⟨stored, isStored, come⟩ := ih done
          rw [OutFile.bytes_write, List.append_assoc] at isStored
          refine ⟨_, isStored, ?_⟩
          intro byte member
          rcases List.mem_append.mp member with here | later
          · split at here
            next => cases here
            next => exact List.mem_append_left _ (List.mem_of_mem_drop (List.mem_of_mem_take here))
          · exact List.mem_append_right _ (come byte later)
      next =>
        cases done
        exact ⟨[], (List.append_nil _).symm, by simp⟩

/-- The first piece comes from the first node, from the offset on that `diff` gives. -/
theorem writeToFileLoop_first {node : Node} {pos read_size : Nat} {after : OutFile}
    (some : 0 < read_size)
    (done : writeToFileLoop base (node :: cur) pos read_size {} = .ok after) :
    ∃ diff : Nat, toInt32 (pos % base : Nat) = diff ∧ ∃ later,
      after.bytes = (node.ptr.drop diff).take (min read_size base - diff) ++ later ∧
        ∀ byte ∈ later, byte ∈ contents cur := by
  rw [writeToFileLoop, diff_eq] at done
  dsimp only at done
  rw [if_pos (by omega)] at done
  split at done
  next => cases done
  next inside =>
    obtain ⟨diff, isDiff⟩ := Int.eq_ofNat_of_zero_le (Int.not_lt.mp inside)
    have least : (if (read_size : Int) > (base : Int) then (base : Int) else read_size) =
        (min read_size base : Nat) := by
      split <;> omega
    rw [isDiff, least, Int.toNat_natCast] at done
    obtain ⟨later, isLater, come⟩ := writeToFileLoop_stores done
    have length : ((min read_size base : Nat) - (diff : Int)).toNat = min read_size base - diff := by
      omega
    rw [OutFile.bytes_write, if_neg Bool.false_ne_true, length] at isLater
    exact ⟨diff, isDiff, later, isLater, come⟩

end Loop

/-- The state of an array for which `writeToFile` finds every byte. -/
def WritesWhole (ba : ByteArray) : Prop :=
  ba.m_size ≤ ba.m_position ∨ ba.m_position % ba.m_baseSize = 0 ∨
    ba.m_baseSize ≤ ba.m_size - ba.m_position ∧ ba.m_position % ba.m_baseSize < 2 ^ 31

instance : DecidablePred WritesWhole := fun _ => inferInstanceAs (Decidable (_ ∨ _))

namespace Layout

variable (layout : ba.Layout)
include layout

theorem chain_sizes : ∀ node ∈ ba.chain, node.size = ba.m_baseSize := by
  intro node member
  have chainEq : ba.chain = ba.nodes.drop (ba.m_position / ba.m_baseSize) := layout.raised.chain_eq
  rw [chainEq] at member
  exact layout.sizes node (List.mem_of_mem_drop member)

theorem chain_room : ba.m_position % ba.m_baseSize + (ba.m_size - ba.m_position) ≤
    ba.chain.length * ba.m_baseSize := by
  have sizeLe := layout.size_le
  have positionLe := layout.position_le
  exact layout.raised.chain_room
    (show ba.m_position + (ba.m_size - ba.m_position) ≤ ba.m_capacity by omega)

/-- What can be read, from the current node on. -/
theorem readable_eq (inside : ba.m_position < ba.m_capacity) :
    ba.readable = ((contents ba.chain).drop (ba.m_position % ba.m_baseSize)).take
      (ba.m_size - ba.m_position) := by
  rw [layout.drop_chain inside, ByteArray.readable, List.drop_take]

/-- Where a node starts, or where a whole node is left, or nothing, the file is what can be
read. -/
theorem writeToFile_whole (whole : ba.WritesWhole) : ba.writeToFile = .ok ba.readable := by
  have sizeLe := layout.size_le
  have room := layout.chain_room
  rw [writeToFile]
  rcases Nat.lt_or_ge ba.m_position ba.m_size with before | none
  · have left : (ba.m_size : Int) - (ba.m_position : Int) =
        ((ba.m_size - ba.m_position : Nat) : Int) := by omega
    rw [left, layout.readable_eq (by omega)]
    rcases whole with nothing | aligned | ⟨many, fits⟩
    · omega
    · rw [aligned, Nat.zero_add] at room
      rw [writeToFileLoop_aligned layout.chain_sizes layout.base_pos aligned room, aligned,
        List.drop_zero]
      rfl
    · rw [writeToFileLoop_inside layout.chain_sizes rfl (Nat.mod_lt _ layout.base_pos) fits many room]
      rfl
  · have nothing : ¬ (ba.m_size : Int) - (ba.m_position : Int) > 0 := by omega
    have empty : ba.readable = [] := by
      rw [readable, List.drop_eq_nil_iff, List.length_take]
      omega
    rw [empty]
    cases ba.chain with
    | nil =>
        rw [writeToFileLoop, if_neg nothing]
        rfl
    | cons node next =>
        rw [writeToFileLoop, if_neg nothing]
        rfl

/-- Elsewhere the loop does not end, if a node has at most `2^32` bytes. -/
theorem writeToFile_ne_ok (short : ba.m_baseSize ≤ 2 ^ 32) (lost : ¬ ba.WritesWhole)
    (file : List UInt8) : ba.writeToFile ≠ .ok file := by
  intro done
  obtain ⟨ofs, looped, -⟩ := eq_ok_of_map done
  have offset : ba.m_position % ba.m_baseSize ≠ 0 := fun aligned => lost (.inr (.inl aligned))
  have before : ba.m_position < ba.m_size := Nat.lt_of_not_le fun nothing => lost (.inl nothing)
  have below := Nat.mod_lt ba.m_position layout.base_pos
  rw [show (ba.m_size : Int) - (ba.m_position : Int) = ((ba.m_size - ba.m_position : Nat) : Int) by
    omega] at looped
  rcases Nat.lt_or_ge (ba.m_size - ba.m_position) ba.m_baseSize with few | many
  · exact writeToFileLoop_lost short rfl (Nat.pos_of_ne_zero offset) (by omega) few {} ofs looped
  · have wraps : 2 ^ 31 ≤ ba.m_position % ba.m_baseSize :=
      Nat.le_of_not_lt fun fits => lost (.inr (.inr ⟨many, fits⟩))
    have room := layout.chain_room
    cases isChain : ba.chain with
    | nil =>
        rw [isChain, List.length_nil, Nat.zero_mul] at room
        omega
    | cons node next =>
        rw [isChain] at looped
        obtain ⟨diff, isDiff, -⟩ := writeToFileLoop_first (by omega) looped
        rw [toInt32_eq, Nat.mod_eq_of_lt (by omega), if_neg (by omega)] at isDiff
        omega

end Layout

/-! ## Reading back -/

/-- An array that is written from the start on. -/
structure Holds (ba : ByteArray) (bytes : List UInt8) : Prop where
  wrote : Wrote ba 0 bytes
  size : ba.m_size = bytes.length

theorem holds_new {base_size : Nat} (basePos : 1 ≤ base_size) (fresh : Nat → UInt8) :
    Holds (new base_size fresh) [] where
  wrote := Wrote.nil (new_valid basePos fresh)
  size := rfl

theorem Holds.write {bytes : List UInt8} (holds : Holds ba bytes) (fresh : Nat → Nat → UInt8)
    (buf : List UInt8) : ∃ after, ba.write fresh buf = .ok after ∧ Holds after (bytes ++ buf) := by
  obtain ⟨after, written, wrote, -⟩ := holds.wrote.write fresh buf
  obtain ⟨same, -, again, -, -, -, -, size, -⟩ := write_spec holds.wrote.valid fresh buf
  cases written.symm.trans again
  refine ⟨after, written, wrote, ?_⟩
  rw [size, holds.size, holds.wrote.position, List.length_append]
  omega

/-- From the start on everything is read back. -/
theorem Holds.setPosition {bytes : List UInt8} (holds : Holds ba bytes) :
    ∃ back, ba.setPosition 0 = .ok back ∧ back.m_position = 0 ∧ back.readable = bytes := by
  obtain ⟨back, rest, moved, valid, readable, position, size, -⟩ := holds.wrote.setPosition
  refine ⟨back, moved, position, ?_⟩
  have length := length_readable valid
  rw [readable, List.length_append, getReadSize, position, size, holds.size] at length
  have none : rest = [] := List.eq_nil_of_length_eq_zero (by omega)
  rw [readable, none, List.append_nil]

/-- The pieces of the file are written one behind the other. -/
theorem readFromFileLoop_spec (m_baseSize : Nat) (fresh : Nat → Nat → Nat → UInt8)
    {bytes ifs : List UInt8} (holds : Holds ba bytes) :
    ∃ after, readFromFileLoop m_baseSize fresh ba ifs = .ok after ∧ Holds after (bytes ++ ifs) := by
  induction ba, ifs using readFromFileLoop.induct m_baseSize fresh generalizing bytes with
  | case1 ba ifs full fault failed =>
      obtain ⟨after, written, -⟩ := holds.write (fresh ifs.length) (ifs.take m_baseSize)
      cases written.symm.trans failed
  | case2 ba ifs full middle written ih =>
      obtain ⟨same, again, holdsToo⟩ := holds.write (fresh ifs.length) (ifs.take m_baseSize)
      cases written.symm.trans again
      obtain ⟨after, later, holdsAll⟩ := ih holdsToo
      refine ⟨after, ?_, ?_⟩
      · rw [readFromFileLoop, if_pos full, written]
        exact later
      · rwa [List.append_assoc, List.take_append_drop] at holdsAll
  | case3 ba ifs last =>
      obtain ⟨after, written, holdsToo⟩ := holds.write (fresh ifs.length) ifs
      refine ⟨after, ?_, holdsToo⟩
      rw [readFromFileLoop, if_neg last]
      exact written

/-- A new array that has read a file gives its bytes from the start on. -/
theorem readFromFile_readable {base_size : Nat} (basePos : 1 ≤ base_size) (fresh : Nat → UInt8)
    (nodes : Nat → Nat → Nat → UInt8) (ifs : List UInt8) :
    ∃ filled back, (new base_size fresh).readFromFile nodes ifs = .ok filled ∧
      filled.setPosition 0 = .ok back ∧ back.readable = ifs := by
  obtain ⟨filled, done, holds⟩ :=
    @readFromFileLoop_spec _ base_size nodes [] ifs (holds_new basePos fresh)
  rw [List.nil_append] at holds
  obtain ⟨back, moved, -, readable⟩ := holds.setPosition
  exact ⟨filled, back, done, moved, readable⟩

/-- The file holds what can be read, and gives it back to a new array of any base size. -/
def FileKept (ba : ByteArray) : Prop :=
  ∃ file, ba.writeToFile = .ok file ∧ file = ba.readable ∧
    ∀ base_size, 1 ≤ base_size → ∀ fresh nodes, ∃ filled back,
      (new base_size fresh).readFromFile nodes file = .ok filled ∧
        filled.setPosition 0 = .ok back ∧ back.readable = file

theorem Layout.fileKept (layout : ba.Layout) (whole : ba.WritesWhole) : ba.FileKept := by
  refine ⟨ba.readable, layout.writeToFile_whole whole, rfl, ?_⟩
  intro base_size basePos fresh nodes
  exact readFromFile_readable basePos fresh nodes ba.readable

/-! ## Arrays of one shape -/

/-- Arrays that differ in their bytes at most. -/
structure Alike (ba other : ByteArray) : Prop where
  m_baseSize : other.m_baseSize = ba.m_baseSize
  m_position : other.m_position = ba.m_position
  m_size : other.m_size = ba.m_size

theorem Alike.writesWhole {other : ByteArray} (alike : ba.Alike other) (whole : ba.WritesWhole) :
    other.WritesWhole := by
  rw [WritesWhole, alike.m_baseSize, alike.m_position, alike.m_size]
  exact whole

/-- The same array with other bytes. -/
def withNodes (ba : ByteArray) (nodes : List Node) : ByteArray := { ba with nodes := nodes }

/-- A store over a whole node. -/
theorem modify_memcpy {base count : Nat} {nodes old : List Node} (inside : count < nodes.length)
    (length : nodes.length = old.length) (sizes : ∀ node ∈ nodes, node.size = base)
    (oldSizes : ∀ node ∈ old, node.size = base) :
    (nodes.take count ++ old.drop count).modify count (fun node => node.memcpy 0 nodes[count].ptr) =
      nodes.take (count + 1) ++ old.drop (count + 1) := by
  have short : (nodes.take count).length = count := List.length_take_of_le inside.le
  have size : nodes[count].ptr.length = base := sizes _ (List.getElem_mem inside)
  have here : count < (nodes.take count ++ old.drop count).length := by
    rw [List.length_append, List.length_drop]
    omega
  have before : (nodes.take count ++ old.drop count)[count] = old[count] := by
    rw [List.getElem_append_right short.le, List.getElem_drop]
    congr 1
    omega
  have oldSize : old[count].ptr.length = base := oldSizes _ (List.getElem_mem _)
  have stored : old[count].memcpy 0 nodes[count].ptr = nodes[count] := by
    rw [Node.memcpy, splice, List.take_zero, List.nil_append, Nat.zero_add,
      List.drop_of_length_le (oldSize.trans size.symm).le, List.append_nil]
  have behind : (old.drop count).drop 1 = old.drop (count + 1) := List.drop_drop
  rw [List.modify_eq_take_cons_drop here, before, stored, List.take_left' short, List.drop_append,
    List.drop_of_length_le (by omega), List.nil_append, short, show count + 1 - count = 1 by omega,
    behind, ← List.take_concat_get' nodes count inside, List.append_assoc]
  rfl

/-- Stores node by node bring any bytes into the array. -/
theorem reachable_withNodes (reachable : ba.Reachable) {nodes : List Node}
    (length : nodes.length = ba.nodes.length) (sizes : ∀ node ∈ nodes, node.size = ba.m_baseSize) :
    (ba.withNodes nodes).Reachable := by
  have partly : ∀ count ≤ nodes.length,
      (ba.withNodes (nodes.take count ++ ba.nodes.drop count)).Reachable := by
    intro count
    induction count with
    | zero => exact fun _ => reachable
    | succ count ih =>
        intro inside
        have size : nodes[count].ptr.length = ba.m_baseSize := sizes _ (List.getElem_mem inside)
        have room : count < (nodes.take count ++ ba.nodes.drop count).length := by
          rw [List.length_append, List.length_take, List.length_drop]
          omega
        have stored : (ba.withNodes ((nodes.take count ++ ba.nodes.drop count).modify count
            fun node => node.memcpy 0 nodes[count].ptr)).Reachable :=
          System.Reaches.step (ih (by omega)) trivial
            (.store ⟨count, 0, 0⟩ nodes[count].ptr room (by rw [Nat.zero_add]; exact size.le))
        rwa [modify_memcpy inside length sizes (reaches_layout reachable).sizes] at stored
  have all := partly nodes.length (Nat.le_refl _)
  rwa [List.take_length, length, List.drop_length, List.append_nil] at all

/-- The place of the byte at which the first piece of a lost file goes wrong: behind the piece, or
at its start where the offset is no `int`. -/
def lostAt (ba : ByteArray) : Nat :=
  let diff := ba.m_position % ba.m_baseSize
  if toInt32 diff = diff then max diff (ba.m_size - ba.m_position) else diff

/-- The nodes of an array, one byte of the current one a one and all others zeros. -/
def marked (ba : ByteArray) : List Node :=
  (List.replicate ba.nodes.length ⟨List.replicate ba.m_baseSize 0⟩).set
    (ba.m_position / ba.m_baseSize) ⟨(List.replicate ba.m_baseSize 0).set ba.lostAt 1⟩

theorem lostAt_spec (basePos : 1 ≤ ba.m_baseSize) (lost : ¬ ba.WritesWhole) :
    ba.m_position % ba.m_baseSize ≤ ba.lostAt ∧ ba.lostAt < ba.m_baseSize ∧
      ba.lostAt - ba.m_position % ba.m_baseSize < ba.m_size - ba.m_position ∧
      (toInt32 (ba.m_position % ba.m_baseSize : Nat) = (ba.m_position % ba.m_baseSize : Nat) →
        min (ba.m_size - ba.m_position) ba.m_baseSize ≤ ba.lostAt) := by
  have below := Nat.mod_lt ba.m_position basePos
  have fits := toInt32_lt (ba.m_position % ba.m_baseSize : Nat)
  rw [WritesWhole, not_or, not_or] at lost
  obtain ⟨some, offset, few⟩ := lost
  rw [lostAt]
  split <;> omega

/-- The byte in its place is missing from the file. -/
theorem writeToFileLoop_marked {base place pos read_size : Nat} {cur : List Node}
    {after : OutFile} (zeros : ∀ byte ∈ contents cur, byte = 0) (behind : pos % base ≤ place)
    (inside : place < base) (read : place - pos % base < read_size)
    (wrong : toInt32 (pos % base : Nat) = (pos % base : Nat) → min read_size base ≤ place)
    (done : writeToFileLoop base (⟨(List.replicate base 0).set place 1⟩ :: cur) pos read_size {} =
      .ok after) :
    after.bytes ≠ ((contents (⟨(List.replicate base 0).set place 1⟩ :: cur)).drop (pos % base)).take
      read_size := by
  intro same
  obtain ⟨diff, isDiff, later, isFile, come⟩ := writeToFileLoop_first (by omega) done
  have there : after.bytes[place - pos % base]? = some 1 := by
    rw [same, List.getElem?_take_of_lt read, List.getElem?_drop, contents_cons,
      List.getElem?_append_left (by simp; omega), show pos % base + (place - pos % base) = place by omega]
    simp [inside]
  rw [isFile] at there
  rcases Nat.lt_or_ge (place - pos % base)
    ((((List.replicate base (0 : UInt8)).set place 1).drop diff).take (min read_size base - diff)).length
    with first | rest
  · rw [List.getElem?_append_left first] at there
    rw [List.length_take] at first
    rw [List.getElem?_take_of_lt (by omega), List.getElem?_drop] at there
    have isPlace : diff + (place - pos % base) = place := by
      by_contra other
      rw [List.getElem?_set_ne (Ne.symm other)] at there
      have zero := List.eq_of_mem_replicate (List.mem_of_getElem? there)
      exact absurd zero (by decide)
    obtain rfl : diff = pos % base := by omega
    have short := wrong isDiff
    omega
  · rw [List.getElem?_append_right rest] at there
    have zero := zeros 1 (come 1 (List.mem_of_getElem? there))
    exact absurd zero (by decide)

theorem sizes_marked : ∀ node ∈ ba.marked, node.size = ba.m_baseSize := by
  intro node member
  rcases List.mem_or_eq_of_mem_set member with zero | rfl
  · rw [List.eq_of_mem_replicate zero]
    exact List.length_replicate
  · exact List.length_set.trans List.length_replicate

/-- The current node has the byte, and only zeros are behind it. -/
theorem drop_marked (inside : ba.m_position / ba.m_baseSize < ba.nodes.length) :
    ∃ cur, ba.marked.drop (ba.m_position / ba.m_baseSize) =
        ⟨(List.replicate ba.m_baseSize 0).set ba.lostAt 1⟩ :: cur ∧
      ∀ byte ∈ contents cur, byte = 0 := by
  have here : ba.m_position / ba.m_baseSize < ba.marked.length := by
    rwa [marked, List.length_set, List.length_replicate]
  refine ⟨ba.marked.drop (ba.m_position / ba.m_baseSize + 1), ?_, ?_⟩
  · rw [List.drop_eq_getElem_cons here]
    simp only [marked, List.getElem_set_self]
  · intro byte member
    rw [marked, List.drop_set_of_lt (Nat.lt_succ_self _), List.drop_replicate, contents,
      List.map_replicate] at member
    obtain ⟨bytes, isBytes, member⟩ := List.mem_flatten.mp member
    rw [List.eq_of_mem_replicate isBytes] at member
    exact List.eq_of_mem_replicate member

/-- An array of the same shape for which the file is not what can be read. -/
theorem exists_lost (reachable : ba.Reachable) (lost : ¬ ba.WritesWhole) :
    (ba.withNodes ba.marked).Reachable ∧
      ∀ file, (ba.withNodes ba.marked).writeToFile = .ok file →
        file ≠ (ba.withNodes ba.marked).readable := by
  have layout := reaches_layout reachable
  have length : ba.marked.length = ba.nodes.length := by
    rw [marked, List.length_set, List.length_replicate]
  have reachableToo := reachable_withNodes reachable length sizes_marked
  refine ⟨reachableToo, ?_⟩
  intro file done
  have before : ba.m_position < ba.m_size := Nat.lt_of_not_le fun nothing => lost (.inl nothing)
  have inside : ba.m_position < ba.m_capacity := before.trans_le layout.size_le
  have readable := (reaches_layout reachableToo).readable_eq inside
  have chain : (ba.withNodes ba.marked).chain = ba.marked.drop (ba.m_position / ba.m_baseSize) :=
    (reaches_layout reachableToo).raised.chain_eq
  obtain ⟨cur, isChain, zeros⟩ := drop_marked ((layout.raised.div_lt_iff ba.m_position).mpr inside)
  obtain ⟨behind, inNode, read, wrong⟩ := lostAt_spec layout.base_pos lost
  obtain ⟨ofs, looped, rfl⟩ := eq_ok_of_map done
  rw [chain, isChain] at looped readable
  rw [readable]
  have left : ((ba.withNodes ba.marked).m_size : Int) - ((ba.withNodes ba.marked).m_position : Int) =
      ((ba.m_size - ba.m_position : Nat) : Int) := by
    show (ba.m_size : Int) - (ba.m_position : Int) = _
    omega
  rw [left] at looped
  exact writeToFileLoop_marked zeros behind inNode read wrong looped

/-- The file holds what can be read, and gives it back, for all arrays of a base size, a position
and a size just when the position is where a node starts, or at least one node's worth of bytes
and an offset that is an `int`, or nothing, is left.  In nodes of at most `2^32` bytes that is so of
each array. -/
theorem file_round_trip_iff (reachable : ba.Reachable) :
    ((∀ other, ByteArray.Reachable other → ba.Alike other → other.FileKept) ↔ ba.WritesWhole) ∧
      (ba.m_baseSize ≤ 2 ^ 32 → (ba.FileKept ↔ ba.WritesWhole)) := by
  have layout := reaches_layout reachable
  refine ⟨⟨?_, ?_⟩, ?_⟩
  · intro kept
    by_contra lost
    obtain ⟨reachableToo, wrong⟩ := exists_lost reachable lost
    obtain ⟨file, done, same, -⟩ := kept _ reachableToo ⟨rfl, rfl, rfl⟩
    exact wrong file done same
  · intro whole other reachableToo alike
    exact (reaches_layout reachableToo).fileKept (alike.writesWhole whole)
  · intro short
    constructor
    · rintro ⟨file, done, -⟩
      by_contra lost
      exact layout.writeToFile_ne_ok short lost file done
    · exact layout.fileKept

/-- All four bytes in nodes of two. -/
theorem file_round_trip_iff_start :
    ∃ file, (fourBytes 0).writeToFile = .ok file ∧ file = [1, 2, 3, 4] := by
  have reachable : (fourBytes 0).Reachable := reachable_fourBytes (by decide)
  obtain ⟨file, done, readable, -⟩ :=
    ((file_round_trip_iff reachable).2 (by decide)).mpr (by decide)
  exact ⟨file, done, readable⟩

/-- Behind the third of four bytes in nodes of two the loop follows the null pointer. -/
theorem writeToFile_lost :
    (fourBytes 3).Reachable ∧ (fourBytes 3).readable = [4] ∧
      (fourBytes 3).writeToFile = .error .nullNode ∧
      ¬ ∃ file, (fourBytes 3).writeToFile = .ok file ∧ file = (fourBytes 3).readable := by
  refine ⟨reachable_fourBytes (by decide), rfl, rfl, ?_⟩
  rintro ⟨file, done, -⟩
  cases done

end Exhy.ByteArray
