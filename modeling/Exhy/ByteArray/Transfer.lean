import Exhy.ByteArray.Buffers
import Exhy.ByteArray.Refinement
import Exhy.Library.CString
import Exhy.Library.Transition

/-!
# Transfers between byte arrays

`Stream::writeFixSize` of a byte array on one end of a connection and `Stream::readFixSize` on
the other, through `SocketStream`.  Each call of the kernel moves as many bytes as it likes.
-/

namespace Exhy

open Library Exhy.ByteArray

namespace SocketStream

/-- `write(ba, length)`, where `send` returns `rt`: the bytes that it has moved, and the result. -/
def write (isConnected : Bool) (rt : Int) (ba : ByteArray) (length : Nat) :
    Except Fault (ByteArray × List UInt8 × Int) :=
  if !isConnected then .ok (ba, [], -1)
  else
    match ba.getReadBuffers length with
    | .error fault => .error fault
    | .ok (iovs, _) =>
        if rt > 0 then
          (ba.setPosition (ba.m_position + rt.toNat)).map fun after =>
            (after, (gather ba.nodes iovs).take rt.toNat, rt)
        else .ok (ba, [], rt)

/-- `read(ba, length)`, where `recv` returns `rt` and has moved the first bytes that arrived. -/
def read (isConnected : Bool) (rt : Int) (arrived : List UInt8) (fresh : Nat → Nat → UInt8)
    (ba : ByteArray) (length : Nat) : Except Fault (ByteArray × List UInt8 × Int) :=
  if !isConnected then .ok (ba, [], -1)
  else
    match ba.getWriteBuffers fresh length with
    | .error fault => .error fault
    | .ok (ba, iovs, _) =>
        let moved := arrived.take rt.toNat
        let ba := { ba with nodes := scatter ba.nodes iovs moved }
        if rt > 0 then
          (ba.setPosition (ba.m_position + rt.toNat)).map fun after => (after, moved, rt)
        else .ok (ba, [], rt)

end SocketStream

namespace Transfer

/-- One end: its byte array, the `left` of its loop, the bytes it has moved, and what its
function has returned. -/
structure End where
  ba : ByteArray
  left : Int
  moved : List UInt8
  result : Option (Except Fault Int)

/-- The entry of `readFixSize(ba, length)` or `writeFixSize(ba, length)`. -/
def End.start (ba : ByteArray) (length : Nat) : End where
  ba := ba
  left := length
  moved := []
  result := if 0 < length then none else some (.ok (toInt32 length))

/-- The rest of a round of the loop. -/
def End.round (side : End) (length : Nat)
    (outcome : Except Fault (ByteArray × List UInt8 × Int)) : End :=
  match outcome with
  | .error fault => { side with result := some (.error fault) }
  | .ok (ba, moved, len) =>
      if len ≤ 0 then { side with ba := ba, moved := side.moved ++ moved, result := some (.ok len) }
      else
        { ba := ba
          left := side.left - len
          moved := side.moved ++ moved
          result := if side.left - len > 0 then none else some (.ok (toInt32 length)) }

/-- Both ends.  What the receiver has not moved yet of what the sender has moved is on its way. -/
structure State where
  sender : End
  receiver : End

def State.arrived (s : State) : List UInt8 := s.sender.moved.drop s.receiver.moved.length

inductive Label where
  | send (isConnected : Bool) (rt : Int)
  | recv (isConnected : Bool) (rt : Int) (fresh : Nat → Nat → UInt8)

/-- A call of the kernel moves no more than was asked for, and receives no more than was sent. -/
inductive Step (length : Nat) : State → Label → State → Prop where
  | send {s : State} (isConnected : Bool) (rt : Int) :
      s.sender.result = none → rt ≤ min s.sender.left s.sender.ba.getReadSize →
      Step length s (.send isConnected rt)
        { s with
          sender := s.sender.round length
            (SocketStream.write isConnected rt s.sender.ba s.sender.left.toNat) }
  | recv {s : State} (isConnected : Bool) (rt : Int) (fresh : Nat → Nat → UInt8) :
      s.receiver.result = none → rt ≤ min s.receiver.left s.arrived.length →
      Step length s (.recv isConnected rt fresh)
        { s with
          receiver := s.receiver.round length
            (SocketStream.read isConnected rt s.arrived fresh s.receiver.ba
              s.receiver.left.toNat) }

/-- Every schedule of a transfer of `length` bytes. -/
def transfers (length : Nat) (sender receiver : ByteArray) : System State Label where
  initial s := s = ⟨.start sender length, .start receiver length⟩
  step := Step length

theorem Reachable.send {length : Nat} {sender receiver : ByteArray} {s : State}
    (reached : (transfers length sender receiver).Reachable s) (isConnected : Bool) (rt : Int)
    (runs : s.sender.result = none) (bound : rt ≤ min s.sender.left s.sender.ba.getReadSize) :
    (transfers length sender receiver).Reachable
      { s with
        sender := s.sender.round length
          (SocketStream.write isConnected rt s.sender.ba s.sender.left.toNat) } :=
  reached.step trivial (Step.send isConnected rt runs bound)

theorem Reachable.recv {length : Nat} {sender receiver : ByteArray} {s : State}
    (reached : (transfers length sender receiver).Reachable s) (isConnected : Bool) (rt : Int)
    (fresh : Nat → Nat → UInt8) (runs : s.receiver.result = none)
    (bound : rt ≤ min s.receiver.left s.arrived.length) :
    (transfers length sender receiver).Reachable
      { s with
        receiver := s.receiver.round length
          (SocketStream.read isConnected rt s.arrived fresh s.receiver.ba
            s.receiver.left.toNat) } :=
  reached.step trivial (Step.recv isConnected rt fresh runs bound)

/-! ## The loops -/

/-- The loop of an end has moved some bytes. -/
structure End.Looped (length : Nat) (side : End) : Prop where
  left : side.left = length - side.moved.length
  short : side.moved.length ≤ length
  running : side.result = none → 0 < side.left
  returned : ∀ result, side.result = some (.ok result) →
    result ≤ 0 ∨ side.left = 0 ∧ result = toInt32 length
  sound : ∀ fault, side.result ≠ some (.error fault)

theorem End.looped_start (ba : ByteArray) (length : Nat) : (End.start ba length).Looped length where
  left := by simp [End.start]
  short := Nat.zero_le _
  running := by
    intro runs
    simp only [End.start] at runs ⊢
    split at runs
    · omega
    · cases runs
  returned := by
    intro result is
    simp only [End.start] at is ⊢
    split at is
    · cases is
    · right
      exact ⟨by omega, (Except.ok.inj (Option.some.inj is)).symm⟩
  sound := by
    intro fault is
    simp only [End.start] at is
    split at is
    · cases is
    · cases is

/-- A round that moves `len` bytes, or none. -/
theorem End.Looped.round {length : Nat} {side : End} (looped : side.Looped length)
    {ba : ByteArray} {moved : List UInt8} {len : Int}
    (bound : len ≤ side.left) (count : (moved.length : Int) = max len 0) :
    (side.round length (.ok (ba, moved, len))).Looped length := by
  have left := looped.left
  have short := looped.short
  rw [End.round]
  by_cases stops : len ≤ 0
  · rw [if_pos stops]
    constructor
    case left =>
      rw [List.length_append, left]
      omega
    case short =>
      rw [List.length_append]
      omega
    case running => nofun
    case returned =>
      intro result is
      cases is
      exact .inl stops
    case sound => nofun
  · rw [if_neg stops]
    constructor
    case left =>
      rw [List.length_append]
      show side.left - len = _
      omega
    case short =>
      rw [List.length_append]
      omega
    case running =>
      intro runs
      dsimp only at runs ⊢
      split at runs
      · omega
      · cases runs
    case returned =>
      intro result is
      dsimp only at is ⊢
      split at is
      · cases is
      · exact .inr ⟨by omega, (Except.ok.inj (Option.some.inj is)).symm⟩
    case sound =>
      intro fault is
      dsimp only at is
      split at is
      · cases is
      · cases is

end Transfer

/-! ## One call -/

/-- What a call that sends has done. -/
structure Sent (ba after : ByteArray) (moved : List UInt8) : Prop where
  valid : after.Valid
  nodes : after.nodes = ba.nodes
  position : after.m_position = ba.m_position + moved.length
  size : after.m_size = ba.m_size
  endian : after.m_endian = ba.m_endian
  here : moved = ((contents ba.nodes).drop ba.m_position).take moved.length

/-- What a call that receives has done. -/
structure Received (ba after : ByteArray) (moved : List UInt8) : Prop where
  valid : after.Valid
  bytes : FlatBuffer.Overwrites (contents ba.nodes) (contents after.nodes) ba.m_position moved
  position : after.m_position = ba.m_position + moved.length
  size : after.m_size = max ba.m_size (ba.m_position + moved.length)
  endian : after.m_endian = ba.m_endian

namespace ByteArray.FlatBuffer

theorem overwrites_nil {bytes : List UInt8} {start : Nat} (inside : start ≤ bytes.length) :
    Overwrites bytes bytes start [] :=
  ⟨Nat.le_refl _, inside, fun _ none => absurd none (Nat.not_lt_zero _), fun _ _ _ => rfl⟩

/-- A stretch that is overwritten piece by piece. -/
theorem Overwrites.append {before middle after first second : List UInt8} {start : Nat}
    (overwrites : Overwrites before middle start first)
    (onward : Overwrites middle after (start + first.length) second) :
    Overwrites before after start (first ++ second) := by
  obtain ⟨longer, fits, inside, outside⟩ := overwrites
  obtain ⟨longerToo, fitsToo, insideToo, outsideToo⟩ := onward
  refine ⟨Nat.le_trans longer longerToo, ?_, ?_, ?_⟩
  · rw [List.length_append]
    omega
  · intro index within
    rw [List.length_append] at within
    by_cases inFirst : index < first.length
    · rw [List.getElem?_append_left inFirst, outsideToo _ (by omega) (.inl (by omega)),
        inside index inFirst]
    · have place : start + index = start + first.length + (index - first.length) := by omega
      rw [List.getElem?_append_right (by omega), place]
      exact insideToo _ (by omega)
  · intro index inBefore away
    rw [List.length_append] at away
    rw [outsideToo index (by omega) (by omega), outside index inBefore (by omega)]

end ByteArray.FlatBuffer

/-- Calls that send one after the other. -/
theorem Sent.append {ba middle after : ByteArray} {first second : List UInt8}
    (sent : Sent ba middle first) (onward : Sent middle after second) :
    Sent ba after (first ++ second) where
  valid := onward.valid
  nodes := onward.nodes.trans sent.nodes
  position := by rw [onward.position, sent.position, List.length_append, Nat.add_assoc]
  size := onward.size.trans sent.size
  endian := onward.endian.trans sent.endian
  here := by
    have next := onward.here
    rw [sent.nodes, sent.position] at next
    rw [List.length_append, List.take_add, List.drop_drop, ← sent.here, ← next]

/-- Calls that receive one after the other. -/
theorem Received.append {ba middle after : ByteArray} {first second : List UInt8}
    (received : Received ba middle first) (onward : Received middle after second) :
    Received ba after (first ++ second) where
  valid := onward.valid
  bytes := by
    have next := onward.bytes
    rw [received.position] at next
    exact received.bytes.append next
  position := by rw [onward.position, received.position, List.length_append, Nat.add_assoc]
  size := by
    rw [onward.size, received.size, received.position, List.length_append]
    omega
  endian := onward.endian.trans received.endian

namespace SocketStream

variable {ba : ByteArray} {isConnected : Bool} {rt : Int} {length : Nat}

theorem sent_nothing (valid : ba.Valid) : Sent ba ba [] :=
  ⟨valid, rfl, rfl, rfl, rfl, List.take_zero.symm⟩

theorem write_spec (valid : ba.Valid) (bound : rt ≤ min length ba.getReadSize) :
    ∃ after moved len, write isConnected rt ba length = .ok (after, moved, len) ∧
      Sent ba after moved ∧ (moved.length : Int) = max len 0 ∧ (len = rt ∨ len = -1) := by
  rw [write]
  cases isConnected with
  | false => exact ⟨ba, [], -1, rfl, sent_nothing valid, rfl, .inr rfl⟩
  | true =>
      obtain ⟨iovs, buffers, tiles⟩ := getReadBuffers_spec valid length
      have offered := gather_tiles valid.sizes tiles
      have sizeLe := valid.size_le
      have positionLe := valid.position_le
      rw [getReadSize] at bound offered
      rw [if_neg (by decide), buffers]
      dsimp only
      by_cases more : rt > 0
      · obtain ⟨after, done, afterValid, nodes, position, size, endian⟩ :=
          setPosition_spec valid (show ba.m_position + rt.toNat ≤ ba.m_capacity by omega)
        have moved : (gather ba.nodes iovs).take rt.toNat =
            ((contents ba.nodes).drop ba.m_position).take rt.toNat := by
          rw [offered, List.take_take]
          congr 1
          omega
        have count : (((contents ba.nodes).drop ba.m_position).take rt.toNat).length = rt.toNat := by
          rw [List.length_take, List.length_drop, valid.contents_length]
          omega
        refine ⟨after, ((contents ba.nodes).drop ba.m_position).take rt.toNat, rt, ?_,
          ⟨afterValid, nodes, ?_, ?_, endian, ?_⟩, ?_, .inl rfl⟩
        · rw [if_pos more, done, moved]
          rfl
        · rw [position, count]
        · omega
        · rw [count]
        · rw [count]
          omega
      · refine ⟨ba, [], rt, if_neg more, sent_nothing valid, ?_, .inl rfl⟩
        rw [List.length_nil]
        omega

/-- Other bytes in the same nodes. -/
theorem valid_nodes (valid : ba.Valid) {nodes : List Node} (count : nodes.length = ba.nodes.length)
    (sizes : ∀ node ∈ nodes, node.size = ba.m_baseSize) : Valid { ba with nodes := nodes } where
  base_pos := valid.base_pos
  root := by
    apply List.ne_nil_of_length_pos
    rw [count]
    exact List.length_pos_of_ne_nil valid.root
  sizes := sizes
  capacity := by
    rw [count]
    exact valid.capacity
  position_le := valid.position_le
  size_le := valid.size_le
  cur := valid.cur

theorem received_nothing (valid : ba.Valid) : Received ba ba [] := by
  have sizeLe := valid.size_le
  have positionLe := valid.position_le
  refine ⟨valid, ?_, rfl, ?_, rfl⟩
  · apply FlatBuffer.overwrites_nil
    rw [valid.contents_length]
    omega
  · rw [List.length_nil]
    omega

theorem read_spec (valid : ba.Valid) (fresh : Nat → Nat → UInt8) {arrived : List UInt8}
    (positive : 0 < length) (bound : rt ≤ min length arrived.length) :
    ∃ after moved len, read isConnected rt arrived fresh ba length = .ok (after, moved, len) ∧
      Received ba after moved ∧ moved = arrived.take moved.length ∧
      (moved.length : Int) = max len 0 ∧ (len = rt ∨ len = -1) := by
  have sizeLe := valid.size_le
  have positionLe := valid.position_le
  rw [read]
  cases isConnected with
  | false => exact ⟨ba, [], -1, rfl, received_nothing valid, rfl, rfl, .inr rfl⟩
  | true =>
      obtain ⟨grownValid, position, size, endian, room, added, bytes⟩ :=
        addCapacity_spec valid fresh length
      obtain ⟨iovs, buffers, tiles⟩ := getWriteBuffers_spec valid fresh positive
      have base := @addCapacity_base ba fresh length
      rw [if_neg (by decide), buffers]
      dsimp only
      generalize ba.addCapacity fresh length = grown at grownValid position size endian room bytes tiles base ⊢
      have short : (arrived.take rt.toNat).length = rt.toNat := by
        rw [List.length_take]
        omega
      rw [← base] at tiles
      obtain ⟨stored, count, sizes⟩ := scatter_tiles grownValid.sizes tiles
        (show (arrived.take rt.toNat).length ≤ length by omega)
      have storedValid := valid_nodes grownValid count sizes
      have overwrites : FlatBuffer.Overwrites (contents ba.nodes)
          (contents (scatter grown.nodes iovs (arrived.take rt.toNat))) ba.m_position
          (arrived.take rt.toNat) := by
        rw [stored, bytes]
        apply FlatBuffer.overwrites_splice
        rw [← bytes, grownValid.contents_length]
        omega
      by_cases more : rt > 0
      · obtain ⟨after, done, afterValid, nodes, positionToo, sizeToo, endianToo⟩ :=
          setPosition_spec storedValid (show grown.m_position + rt.toNat ≤ grown.m_capacity by omega)
        refine ⟨after, arrived.take rt.toNat, rt, ?_, ⟨afterValid, ?_, ?_, ?_, ?_⟩, ?_, ?_, .inl rfl⟩
        · rw [if_pos more, done]
          rfl
        · rw [nodes]
          exact overwrites
        · rw [positionToo, position, short]
        · rw [sizeToo, short]
          show max grown.m_size _ = _
          rw [size, position]
        · exact endianToo.trans endian
        · rw [short]
        · rw [short]
          omega
      · have nothing : rt.toNat = 0 := by omega
        rw [nothing, List.take_zero] at overwrites storedValid
        refine ⟨_, [], rt, if_neg more, ⟨?_, ?_, ?_, ?_, ?_⟩, rfl, ?_, .inl rfl⟩
        · rw [nothing, List.take_zero]
          exact storedValid
        · rw [nothing, List.take_zero]
          exact overwrites
        · exact position
        · show grown.m_size = _
          rw [List.length_nil]
          omega
        · exact endian
        · rw [List.length_nil]
          omega

end SocketStream

/-! ## Every schedule -/

namespace Transfer

/-- What every schedule keeps. -/
structure State.Sound (length : Nat) (sender receiver : ByteArray) (s : State) : Prop where
  sends : s.sender.Looped length
  receives : s.receiver.Looped length
  sent : Sent sender s.sender.ba s.sender.moved
  received : Received receiver s.receiver.ba s.receiver.moved
  inOrder : s.receiver.moved <+: s.sender.moved

theorem End.round_moves {side : End} {length : Nat} {ba : ByteArray} {moved : List UInt8}
    {len : Int} :
    (side.round length (.ok (ba, moved, len))).ba = ba ∧
      (side.round length (.ok (ba, moved, len))).moved = side.moved ++ moved := by
  rw [End.round]
  split
  · exact ⟨rfl, rfl⟩
  · exact ⟨rfl, rfl⟩

variable {length : Nat} {sender receiver : ByteArray}

theorem sound_start (validSender : sender.Valid) (validReceiver : receiver.Valid) :
    State.Sound length sender receiver ⟨.start sender length, .start receiver length⟩ where
  sends := End.looped_start sender length
  receives := End.looped_start receiver length
  sent := SocketStream.sent_nothing validSender
  received := SocketStream.received_nothing validReceiver
  inOrder := List.prefix_refl _

theorem State.Sound.send {s : State} (sound : s.Sound length sender receiver)
    {isConnected : Bool} {rt : Int} (runs : s.sender.result = none)
    (bound : rt ≤ min s.sender.left s.sender.ba.getReadSize) :
    State.Sound length sender receiver
      { s with
        sender := s.sender.round length
          (SocketStream.write isConnected rt s.sender.ba s.sender.left.toNat) } := by
  have positive := sound.sends.running runs
  obtain ⟨after, moved, len, wrote, sent, count, result⟩ :=
    @SocketStream.write_spec _ isConnected _ s.sender.left.toNat sound.sent.valid
      (show rt ≤ _ by omega)
  obtain ⟨ba, onward⟩ := @End.round_moves s.sender length after moved len
  rw [wrote]
  constructor
  case sends => exact sound.sends.round (by omega) count
  case receives => exact sound.receives
  case sent =>
    rw [ba, onward]
    exact sound.sent.append sent
  case received => exact sound.received
  case inOrder =>
    rw [onward]
    exact sound.inOrder.trans (List.prefix_append _ _)

theorem State.Sound.recv {s : State} (sound : s.Sound length sender receiver)
    {isConnected : Bool} {rt : Int} (fresh : Nat → Nat → UInt8) (runs : s.receiver.result = none)
    (bound : rt ≤ min s.receiver.left s.arrived.length) :
    State.Sound length sender receiver
      { s with
        receiver := s.receiver.round length
          (SocketStream.read isConnected rt s.arrived fresh s.receiver.ba
            s.receiver.left.toNat) } := by
  have positive := sound.receives.running runs
  obtain ⟨after, moved, len, wrote, received, first, count, result⟩ :=
    @SocketStream.read_spec s.receiver.ba isConnected rt s.receiver.left.toNat
      sound.received.valid fresh s.arrived (by omega) (by omega)
  obtain ⟨ba, onward⟩ := @End.round_moves s.receiver length after moved len
  rw [wrote]
  constructor
  case sends => exact sound.sends
  case receives => exact sound.receives.round (by omega) count
  case sent => exact sound.sent
  case received =>
    rw [ba, onward]
    exact sound.received.append received
  case inOrder =>
    -- what arrives is what the sender has moved beyond what the receiver has
    obtain ⟨rest, whole⟩ := sound.inOrder
    have arrived : s.arrived = rest := by
      rw [State.arrived, ← whole, List.drop_left]
    rw [arrived] at first
    show (s.receiver.round length (.ok (after, moved, len))).moved <+: s.sender.moved
    rw [onward, ← whole, first]
    exact (List.prefix_append_right_inj _).mpr (List.take_prefix _ _)

theorem reachable_sound (validSender : sender.Valid) (validReceiver : receiver.Valid)
    {s : State} (reached : (transfers length sender receiver).Reachable s) :
    s.Sound length sender receiver := by
  apply reached.invariant (State.Sound length sender receiver)
  · intro s is
    rw [is]
    exact sound_start validSender validReceiver
  · intro s label next _ sound _ step
    cases step with
    | send isConnected rt runs bound => exact sound.send runs bound
    | recv isConnected rt fresh runs bound => exact sound.recv fresh runs bound

/-- A loop that returned its length has moved that many bytes. -/
theorem End.Looped.all {side : End} (looped : side.Looped length)
    (returned : side.result = some (.ok length)) : side.moved.length = length := by
  have left := looped.left
  have short := looped.short
  obtain stops | ⟨done, _⟩ := looped.returned length returned
  · omega
  · omega

/-- Whatever the calls of the kernel move, both positions are where the bytes that moved end,
a result above zero is the length, and when both ends return it the receiver has written what
the sender has read. -/
theorem fixSize_transfers (validSender : sender.Valid) (validReceiver : receiver.Valid)
    (small : length < 2 ^ 31) {s : State}
    (reached : (transfers length sender receiver).Reachable s) :
    (∀ side ∈ [s.sender, s.receiver], ∀ returned, side.result = some returned →
      ∃ result, returned = .ok result ∧ (result ≤ 0 ∨ result = length)) ∧
    s.sender.ba.m_position = sender.m_position + s.sender.moved.length ∧
    s.receiver.ba.m_position = receiver.m_position + s.receiver.moved.length ∧
    (s.sender.result = some (.ok length) → s.receiver.result = some (.ok length) →
      ∃ bytes, (toFlat sender).Step (.read length) bytes (toFlat s.sender.ba) ∧
        ∀ fresh, (toFlat receiver).Step (.write fresh bytes) [] (toFlat s.receiver.ba)) := by
  have sound := reachable_sound validSender validReceiver reached
  refine ⟨?_, sound.sent.position, sound.received.position, ?_⟩
  · have whole := toInt32_of_small small
    intro side member returned is
    have looped : side.Looped length := by
      rcases List.mem_pair.mp member with rfl | rfl
      · exact sound.sends
      · exact sound.receives
    cases returned with
    | error fault => exact absurd is (looped.sound fault)
    | ok result =>
        obtain stops | ⟨_, all⟩ := looped.returned result is
        · exact ⟨result, rfl, .inl stops⟩
        · exact ⟨result, rfl, .inr (all.trans whole)⟩
  · intro sent received
    have sentAll := sound.sends.all sent
    have receivedAll := sound.receives.all received
    have same : s.receiver.moved = s.sender.moved :=
      sound.inOrder.eq_of_length (receivedAll.trans sentAll.symm)
    refine ⟨s.sender.moved, ⟨?_, sentAll, ?_⟩, ?_⟩
    · have here := sound.sent.here
      rw [sentAll] at here
      exact here
    · rw [toFlat, toFlat, sound.sent.nodes, sound.sent.position, sound.sent.size,
        sound.sent.endian, sentAll]
    · intro fresh
      rw [← same]
      exact ⟨rfl, sound.received.bytes, sound.received.position, sound.received.size,
        sound.received.endian⟩

/-- Five bytes in nodes of two, of which the first is read already. -/
def fiveBytes : ByteArray where
  m_baseSize := 2
  m_position := 1
  m_capacity := 6
  m_size := 5
  m_endian := .EXHY_BIG_ENDIAN
  nodes := [⟨[0, 1]⟩, ⟨[2, 3]⟩, ⟨[4, 5]⟩]
  m_cur := some 0

theorem fiveBytes_valid : fiveBytes.Valid := by
  constructor
  all_goals decide

/-- Four bytes, sent as three and one and received as two and two in nodes of three. -/
theorem fixSize_transfers_pieces :
    ∃ s, (transfers 4 fiveBytes (ByteArray.new 3 fun _ => 0)).Reachable s ∧
      contents s.receiver.ba.nodes = [1, 2, 3, 4, 0, 0] ∧
      ∃ bytes, (toFlat fiveBytes).Step (.read 4) bytes (toFlat s.sender.ba) ∧
        ∀ fresh, (toFlat (ByteArray.new 3 fun _ => 0)).Step (.write fresh bytes) []
          (toFlat s.receiver.ba) := by
  have start : (transfers 4 fiveBytes (ByteArray.new 3 fun _ => 0)).Reachable _ := .initial rfl
  have sent := Reachable.send start true 3 rfl (by decide)
  have received := Reachable.recv sent true 2 (fun _ _ => 0) rfl (by decide)
  have sentAll := Reachable.send received true 1 rfl (by decide)
  have reached := Reachable.recv sentAll true 2 (fun _ _ => 0) rfl (by decide)
  have moves := fixSize_transfers fiveBytes_valid (new_valid (by decide) _) (by decide) reached
  exact ⟨_, reached, by decide, moves.2.2.2 rfl rfl⟩

end Transfer

end Exhy
