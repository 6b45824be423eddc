import Exhy.ByteArray.Core
import Exhy.Library.Encoding

/-!
# Reading and writing integers

The integer functions of `exhy_bytearray.cpp`.  `EXHY_BYTE_ORDER` is the order of the machine
that the code is compiled for.
-/

namespace Exhy.ByteArray

open Library

/-- The bytes of a value in memory. -/
def memory (order : Endian) (size : Nat) (value : BitVec (8 * size)) : List UInt8 :=
  match order with
  | .EXHY_LITTLE_ENDIAN => littleEndian size value.toNat
  | .EXHY_BIG_ENDIAN => (littleEndian size value.toNat).reverse

/-- The value with these bytes in memory. -/
def ofMemory (order : Endian) (size : Nat) (bytes : List UInt8) : BitVec (8 * size) :=
  match order with
  | .EXHY_LITTLE_ENDIAN => BitVec.ofNat _ (ofLittleEndian bytes)
  | .EXHY_BIG_ENDIAN => BitVec.ofNat _ (ofLittleEndian bytes.reverse)

/-- `byteswap(value)`. -/
def byteswap (size : Nat) (value : BitVec (8 * size)) : BitVec (8 * size) :=
  BitVec.ofNat _ (ofLittleEndian (littleEndian size value.toNat).reverse)

def EncodeZigzag32 (v : Int32) : UInt32 := .ofBitVec (zigzag v.toBitVec)

def EncodeZigzag64 (v : Int64) : UInt64 := .ofBitVec (zigzag v.toBitVec)

def DecodeZigzag32 (v : UInt32) : Int32 := .ofBitVec (unzigzag v.toBitVec)

def DecodeZigzag64 (v : UInt64) : Int64 := .ofBitVec (unzigzag v.toBitVec)

variable (EXHY_BYTE_ORDER : Endian) (ba : ByteArray) (fresh : Nat → Nat → UInt8)

/-! ## Writers -/

def writeFint8 (value : Int8) : Except Fault ByteArray := ba.write fresh [value.toUInt8]

def writeFuint8 (value : UInt8) : Except Fault ByteArray := ba.write fresh [value]

/-- What the writers of more than one byte have in common. -/
def writeFixed (size : Nat) (value : BitVec (8 * size)) : Except Fault ByteArray :=
  ba.write fresh <| memory EXHY_BYTE_ORDER size <|
    if ba.m_endian ≠ EXHY_BYTE_ORDER then byteswap size value else value

def writeFint16 (value : Int16) : Except Fault ByteArray :=
  writeFixed EXHY_BYTE_ORDER ba fresh 2 value.toBitVec

def writeFuint16 (value : UInt16) : Except Fault ByteArray :=
  writeFixed EXHY_BYTE_ORDER ba fresh 2 value.toBitVec

def writeFint32 (value : Int32) : Except Fault ByteArray :=
  writeFixed EXHY_BYTE_ORDER ba fresh 4 value.toBitVec

def writeFuint32 (value : UInt32) : Except Fault ByteArray :=
  writeFixed EXHY_BYTE_ORDER ba fresh 4 value.toBitVec

def writeFint64 (value : Int64) : Except Fault ByteArray :=
  writeFixed EXHY_BYTE_ORDER ba fresh 8 value.toBitVec

def writeFuint64 (value : UInt64) : Except Fault ByteArray :=
  writeFixed EXHY_BYTE_ORDER ba fresh 8 value.toBitVec

/-- What the writers of a varint have in common, with `tmp[room]`. -/
def writeGroups (room value : Nat) : Except Fault ByteArray :=
  match groups room value with
  | none => .error .overrun
  | some tmp => ba.write fresh tmp

def writeUint32 (value : UInt32) : Except Fault ByteArray := writeGroups ba fresh 5 value.toNat

def writeInt32 (value : Int32) : Except Fault ByteArray :=
  writeUint32 ba fresh (EncodeZigzag32 value)

def writeUint64 (value : UInt64) : Except Fault ByteArray := writeGroups ba fresh 10 value.toNat

def writeInt64 (value : Int64) : Except Fault ByteArray :=
  writeUint64 ba fresh (EncodeZigzag64 value)

/-! ## Readers -/

def readFuint8 : Except Fault (ByteArray × UInt8) :=
  (ba.read 1).map fun (after, bytes) => (after, bytes.headD 0)

def readFint8 : Except Fault (ByteArray × Int8) :=
  (ba.read 1).map fun (after, bytes) => (after, (bytes.headD 0).toInt8)

/-- What the readers of more than one byte have in common. -/
def readFixed (size : Nat) : Except Fault (ByteArray × BitVec (8 * size)) :=
  (ba.read size).map fun (after, bytes) =>
    let v := ofMemory EXHY_BYTE_ORDER size bytes
    (after, if ba.m_endian = EXHY_BYTE_ORDER then v else byteswap size v)

def readFint16 : Except Fault (ByteArray × Int16) :=
  (readFixed EXHY_BYTE_ORDER ba 2).map fun (after, v) => (after, .ofBitVec v)

def readFuint16 : Except Fault (ByteArray × UInt16) :=
  (readFixed EXHY_BYTE_ORDER ba 2).map fun (after, v) => (after, .ofBitVec v)

def readFint32 : Except Fault (ByteArray × Int32) :=
  (readFixed EXHY_BYTE_ORDER ba 4).map fun (after, v) => (after, .ofBitVec v)

def readFuint32 : Except Fault (ByteArray × UInt32) :=
  (readFixed EXHY_BYTE_ORDER ba 4).map fun (after, v) => (after, .ofBitVec v)

def readFint64 : Except Fault (ByteArray × Int64) :=
  (readFixed EXHY_BYTE_ORDER ba 8).map fun (after, v) => (after, .ofBitVec v)

def readFuint64 : Except Fault (ByteArray × UInt64) :=
  (readFixed EXHY_BYTE_ORDER ba 8).map fun (after, v) => (after, .ofBitVec v)

/-- The loop takes the bits 0, 7, 14, 21 and 28. -/
def readUint32 : Except Fault (ByteArray × UInt32) :=
  (readGroups readFuint8 32 5 0 0#32 ba).map fun (after, result) => (after, .ofBitVec result)

def readInt32 : Except Fault (ByteArray × Int32) :=
  (readUint32 ba).map fun (after, v) => (after, DecodeZigzag32 v)

/-- The loop takes the bits 0, 7, .., 63. -/
def readUint64 : Except Fault (ByteArray × UInt64) :=
  (readGroups readFuint8 64 10 0 0#64 ba).map fun (after, result) => (after, .ofBitVec result)

def readInt64 : Except Fault (ByteArray × Int64) :=
  (readUint64 ba).map fun (after, v) => (after, DecodeZigzag64 v)

/-! ## Any of them -/

/-- A pair of functions, by the letters behind `write` and `read`. -/
inductive Kind where
  | fint8 | fuint8 | fint16 | fuint16 | fint32 | fuint32 | fint64 | fuint64
  | int32 | uint32 | int64 | uint64
  deriving DecidableEq, Repr

/-- A value with the kind of function that it is for. -/
inductive Value where
  | fint8 (value : Int8)
  | fuint8 (value : UInt8)
  | fint16 (value : Int16)
  | fuint16 (value : UInt16)
  | fint32 (value : Int32)
  | fuint32 (value : UInt32)
  | fint64 (value : Int64)
  | fuint64 (value : UInt64)
  | int32 (value : Int32)
  | uint32 (value : UInt32)
  | int64 (value : Int64)
  | uint64 (value : UInt64)
  deriving DecidableEq

namespace Value

def kind : Value → Kind
  | fint8 _ => .fint8
  | fuint8 _ => .fuint8
  | fint16 _ => .fint16
  | fuint16 _ => .fuint16
  | fint32 _ => .fint32
  | fuint32 _ => .fuint32
  | fint64 _ => .fint64
  | fuint64 _ => .fuint64
  | int32 _ => .int32
  | uint32 _ => .uint32
  | int64 _ => .int64
  | uint64 _ => .uint64

def write : Value → Except Fault ByteArray
  | fint8 value => ba.writeFint8 fresh value
  | fuint8 value => ba.writeFuint8 fresh value
  | fint16 value => writeFint16 EXHY_BYTE_ORDER ba fresh value
  | fuint16 value => writeFuint16 EXHY_BYTE_ORDER ba fresh value
  | fint32 value => writeFint32 EXHY_BYTE_ORDER ba fresh value
  | fuint32 value => writeFuint32 EXHY_BYTE_ORDER ba fresh value
  | fint64 value => writeFint64 EXHY_BYTE_ORDER ba fresh value
  | fuint64 value => writeFuint64 EXHY_BYTE_ORDER ba fresh value
  | int32 value => ba.writeInt32 fresh value
  | uint32 value => ba.writeUint32 fresh value
  | int64 value => ba.writeInt64 fresh value
  | uint64 value => ba.writeUint64 fresh value

end Value

namespace Kind

def read : Kind → Except Fault (ByteArray × Value)
  | fint8 => ba.readFint8.map fun (after, value) => (after, .fint8 value)
  | fuint8 => ba.readFuint8.map fun (after, value) => (after, .fuint8 value)
  | fint16 => (readFint16 EXHY_BYTE_ORDER ba).map fun (after, value) => (after, .fint16 value)
  | fuint16 => (readFuint16 EXHY_BYTE_ORDER ba).map fun (after, value) => (after, .fuint16 value)
  | fint32 => (readFint32 EXHY_BYTE_ORDER ba).map fun (after, value) => (after, .fint32 value)
  | fuint32 => (readFuint32 EXHY_BYTE_ORDER ba).map fun (after, value) => (after, .fuint32 value)
  | fint64 => (readFint64 EXHY_BYTE_ORDER ba).map fun (after, value) => (after, .fint64 value)
  | fuint64 => (readFuint64 EXHY_BYTE_ORDER ba).map fun (after, value) => (after, .fuint64 value)
  | int32 => ba.readInt32.map fun (after, value) => (after, .int32 value)
  | uint32 => ba.readUint32.map fun (after, value) => (after, .uint32 value)
  | int64 => ba.readInt64.map fun (after, value) => (after, .int64 value)
  | uint64 => ba.readUint64.map fun (after, value) => (after, .uint64 value)

end Kind

end Exhy.ByteArray
