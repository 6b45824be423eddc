import Exhy.ByteArray.ReadBuffers
import Exhy.Library.Codec

/-!
# Compressed streams

`ZlibStream` of `streams/zlib_stream.cpp`.  Encoding and decoding are one driver of a codec, which
is the `deflate` or the `inflate` of the library.  The memory of a buffer is what is in it up to
its `iov_len`.
-/

namespace Exhy

open Library

/-- The stream of the library is none after its `End`. -/
structure ZlibStream (State : Type) where
  m_zstream : Option State
  m_buffSize : UInt32
  m_buffs : List Bytes := []

namespace ZlibStream

def Z_OK : Int := 0
def Z_STREAM_ERROR : Int := -2

variable {State : Type} (codec : Codec State)

/-- A new stream after `init`. -/
def new (m_buffSize : UInt32) : ZlibStream State where
  m_zstream := some codec.init
  m_buffSize := m_buffSize

/-- `deflate(&m_zstream, flush)` or `inflate(&m_zstream, flush)`. -/
def callCodec (m_zstream : Option State) (input : Bytes) (room : Nat) (finish : Bool) :
    Called (Option State) :=
  match m_zstream with
  | none => { state := none, consumed := 0, produced := [], isError := true }
  | some state =>
      let called := codec.call state input room finish
      { called with state := some called.state }

/-- The buffers in front of the one that `ivc` points to, and that one: the last buffer unless it
is full, else a new one. -/
def current (m_buffSize : UInt32) (m_buffs : List Bytes) : List Bytes × Bytes :=
  match m_buffs.getLast? with
  | some back =>
      if back.length ≠ m_buffSize.toNat then (m_buffs.dropLast, back) else (m_buffs, [])
  | none => (m_buffs, [])

/-- The loop over one buffer of the input, of which `next_in` and `avail_in` have `input` left;
none where it takes more rounds. -/
def drive : (fuel : Nat) → (stream : ZlibStream State) → (input : Bytes) → (flush : Bool) →
    Option (Int × ZlibStream State)
  | 0, _, _, _ => none
  | fuel + 1, stream, input, flush =>
      let (front, ivc) := current stream.m_buffSize stream.m_buffs
      let avail_out := stream.m_buffSize.toNat - ivc.length
      let called := callCodec codec stream.m_zstream input avail_out flush
      if called.isError then
        some (Z_STREAM_ERROR,
          { stream with m_zstream := called.state, m_buffs := front ++ [ivc] })
      else
        let stream :=
          { stream with m_zstream := called.state, m_buffs := front ++ [ivc ++ called.produced] }
        if avail_out - called.produced.length = 0 then
          drive fuel stream (input.drop called.consumed) flush
        else some (Z_OK, stream)

/-- What is left of a buffer after its length was put in `avail_in`, a `uInt`. -/
def availIn (iov : Bytes) : Bytes := iov.take (iov.length % 2 ^ 32)

/-- The loop over the buffers of the input. -/
def driveAll (fuel : Nat) (finish : Bool) (stream : ZlibStream State) :
    List Bytes → Option (Int × ZlibStream State)
  | [] => some (Z_OK, stream)
  | iov :: later =>
      match drive codec fuel stream (availIn iov) (finish && later.isEmpty) with
      | none => none
      | some (ret, stream) =>
          if ret = Z_STREAM_ERROR then some (ret, stream) else driveAll fuel finish stream later

/-- `encode(v, size, finish)` and `decode(v, size, finish)`. -/
def encode (fuel : Nat) (stream : ZlibStream State) (v : List Bytes) (finish : Bool) :
    Option (Int × ZlibStream State) :=
  match driveAll codec fuel finish stream v with
  | none => none
  | some (ret, stream) =>
      if ret = Z_STREAM_ERROR then some (ret, stream)
      else some (Z_OK, if finish && !v.isEmpty then { stream with m_zstream := none } else stream)

/-- A call of `write`, of a buffer or of a byte array and a length. -/
inductive Write where
  | plain (buffer : Bytes)
  | byteArray (ba : ByteArray) (valid : ba.Valid) (length : Nat)

/-- The buffers that `write` hands on. -/
def Write.iovecs : Write → List Bytes
  | .plain buffer => [buffer]
  | .byteArray ba _ length =>
      match ba.getReadBuffers length with
      | .error _ => []
      | .ok (buffers, _) => buffers.map (ByteArray.Iovec.load ba.nodes)

/-- What a write adds to the input of the stream. -/
def Write.input : Write → Bytes
  | .plain buffer => buffer
  | .byteArray ba _ length => ba.readable.take length

/-- The writes, with what they return. -/
def writeAll (fuel : Nat) (stream : ZlibStream State) :
    List Write → Option (List Int × ZlibStream State)
  | [] => some ([], stream)
  | write :: later =>
      match encode codec fuel stream write.iovecs false with
      | none => none
      | some (ret, stream) =>
          match writeAll fuel stream later with
          | none => none
          | some (rets, stream) => some (ret :: rets, stream)

/-- `flush()`, with an empty buffer. -/
def flush (fuel : Nat) (stream : ZlibStream State) : Option (Int × ZlibStream State) :=
  encode codec fuel stream [[]] true

/-- The writes and `flush` on a new stream, with what they return. -/
def session (fuel : Nat) (m_buffSize : UInt32) (writes : List Write) :
    Option (List Int × ZlibStream State) :=
  match writeAll codec fuel (new codec m_buffSize) writes with
  | none => none
  | some (rets, stream) =>
      match flush codec fuel stream with
      | none => none
      | some (ret, stream) => some (rets ++ [ret], stream)

def getResult (stream : ZlibStream State) : Bytes := stream.m_buffs.flatten

/-- The loop of `getByteArray`; `fresh` has the contents of the nodes that each write allocates. -/
def writeBuffs (fresh : Nat → Nat → Nat → UInt8) :
    (index : Nat) → ByteArray → List Bytes → Except ByteArray.Fault ByteArray
  | _, ba, [] => .ok ba
  | index, ba, i :: later => do writeBuffs fresh (index + 1) (← ba.write (fresh index) i) later

def getByteArray (fresh : Nat → Nat → Nat → UInt8) (stream : ZlibStream State) :
    Except ByteArray.Fault ByteArray := do
  (← writeBuffs fresh 1 (ByteArray.new 4096 (fresh 0 0)) stream.m_buffs).setPosition 0

/-! ## What a stream promises -/

/-- The buffers are full but for the last one. -/
def Packed (m_buffSize : UInt32) (m_buffs : List Bytes) : Prop :=
  (∀ buff ∈ m_buffs.dropLast, buff.length = m_buffSize.toNat) ∧
    ∀ buff ∈ m_buffs, buff.length ≤ m_buffSize.toNat

/-- The results of a stream are this output. -/
structure Yields (fresh : Nat → Nat → Nat → UInt8) (stream : ZlibStream State) (output : Bytes) :
    Prop where
  result : stream.getResult = output
  packed : Packed stream.m_buffSize stream.m_buffs
  byteArray : ∃ ba, stream.getByteArray fresh = .ok ba ∧ ba.m_position = 0 ∧ ba.readable = output

/-- All calls return, without an error, and the results are the complete output for what was
written. -/
def Delivers (complete : Bytes → Bytes) (fresh : Nat → Nat → Nat → UInt8) (m_buffSize : UInt32)
    (writes : List Write) : Prop :=
  ∃ enough stream, (∀ fuel ≥ enough, session codec fuel m_buffSize writes =
      some (List.replicate (writes.length + 1) Z_OK, stream)) ∧
    Yields fresh stream (complete (writes.flatMap Write.input))

end ZlibStream

end Exhy
