import Exhy.Library.Splice

/-!
# The chunked byte array

`ByteArray` keeps its bytes in a chain of equally sized nodes and a pointer to
the node that holds the current position.  The pointer is null when the position
has reached the end of the last node, so every function that follows it can fail;
the model makes that failure a value.  Loops over the chain recurse on the part of
the chain that the current-node pointer still has ahead of it.
-/

namespace Exhy.ByteArray

/-- What stops a call: a null node was followed, the call threw, it wrote behind the end of a
local array, or it read in front of a node. -/
inductive Fault where
  | nullNode
  | outOfRange (what : String)
  | overrun
  | underrun
  deriving DecidableEq, Repr

inductive Endian where
  | EXHY_LITTLE_ENDIAN
  | EXHY_BIG_ENDIAN
  deriving DecidableEq, Repr

/-- One chunk: the `size` bytes that `ptr` owns. -/
structure Node where
  ptr : List UInt8
  deriving DecidableEq, Repr

namespace Node

def size (node : Node) : Nat := node.ptr.length

/-- `Node(size_t s)`.  The bytes of `new char[s]` are indeterminate, so they are an
argument. -/
def new (s : Nat) (fresh : Nat → UInt8) : Node where
  ptr := (List.range s).map fresh

/-- `memcpy(ptr + offset, bytes, bytes.length)`. -/
def memcpy (node : Node) (offset : Nat) (bytes : List UInt8) : Node where
  ptr := Library.splice node.ptr offset bytes

end Node

end ByteArray

/-- `nodes` is the chain that starts at `m_root`; `m_cur` is the number of links from
`m_root` to the current node, or `none` for the null pointer. -/
structure ByteArray where
  m_baseSize : Nat
  m_position : Nat
  m_capacity : Nat
  m_size : Nat
  m_endian : ByteArray.Endian
  nodes : List ByteArray.Node
  m_cur : Option Nat
  deriving DecidableEq, Repr

namespace ByteArray

/-- `ByteArray(size_t base_size)`. -/
def new (base_size : Nat) (fresh : Nat → UInt8) : ByteArray where
  m_baseSize := base_size
  m_position := 0
  m_capacity := base_size
  m_size := 0
  m_endian := .EXHY_BIG_ENDIAN
  nodes := [Node.new base_size fresh]
  m_cur := some 0

def getCapacity (ba : ByteArray) : Nat := ba.m_capacity - ba.m_position

def getReadSize (ba : ByteArray) : Nat := ba.m_size - ba.m_position

def setIsLittleEndian (ba : ByteArray) (val : Bool) : ByteArray :=
  { ba with m_endian := if val then .EXHY_LITTLE_ENDIAN else .EXHY_BIG_ENDIAN }

/-- The chain that starts at the current node; empty for the null pointer. -/
def chain (ba : ByteArray) : List Node :=
  match ba.m_cur with
  | none => []
  | some index => ba.nodes.drop index

/-- The pointer reached from `m_cur` by following `next` `moved` times. -/
def advance (ba : ByteArray) (moved : Nat) : Option Nat :=
  match ba.m_cur with
  | none => none
  | some index => if index + moved < ba.nodes.length then some (index + moved) else none

/-- Put a rewritten chain back behind the nodes that precede the current one. -/
def restore (ba : ByteArray) (rewritten : List Node) : List Node :=
  match ba.m_cur with
  | none => ba.nodes
  | some index => ba.nodes.take index ++ rewritten

/-- `clear()`: the nodes behind `m_root` are deleted. -/
def clear (ba : ByteArray) : ByteArray :=
  { ba with
    m_position := 0
    m_size := 0
    m_capacity := ba.m_baseSize
    nodes := ba.nodes.take 1
    m_cur := some 0 }

/-- `addCapacity(size_t size)`.  `ceil(1.0 * size / m_baseSize)` is the exact
quotient rounded up: a buffer of `2^53` bytes, from which the double would lose
precision, does not exist.  `fresh i` is the content of the `i`-th node the call
allocates. -/
def addCapacity (ba : ByteArray) (fresh : Nat → Nat → UInt8) (size : Nat) : ByteArray :=
  if size = 0 then ba
  else
    let old_cap := ba.getCapacity
    if size ≤ old_cap then ba
    else
      let size := size - old_cap
      let count := (size + ba.m_baseSize - 1) / ba.m_baseSize
      let added := (List.range count).map fun i => Node.new ba.m_baseSize (fresh i)
      { ba with
        nodes := ba.nodes ++ added
        m_capacity := ba.m_capacity + count * ba.m_baseSize
        m_cur :=
          if old_cap = 0 then (if count = 0 then none else some ba.nodes.length)
          else ba.m_cur }

/-- The loop of `write`: the chain with the bytes copied in, how often `m_cur` moved
to its successor, and the new `m_position`. -/
def writeLoop : (chain : List Node) → (pos_cnode m_position : Nat) → (buf : List UInt8) →
    Except Fault (List Node × Nat × Nat)
  | chain, _, m_position, [] => .ok (chain, 0, m_position)
  | [], _, _, _ :: _ => .error .nullNode
  | cur :: rest, pos_cnode, m_position, byte :: bytes =>
      let buf := byte :: bytes
      let cap_left := cur.size - pos_cnode
      if buf.length ≤ cap_left then
        .ok (cur.memcpy pos_cnode buf :: rest,
          if cap_left = buf.length then 1 else 0, m_position + buf.length)
      else
        match writeLoop rest 0 (m_position + cap_left) (buf.drop cap_left) with
        | .error fault => .error fault
        | .ok (rest, moved, m_position) =>
            .ok (cur.memcpy pos_cnode (buf.take cap_left) :: rest, moved + 1, m_position)

/-- `write(const void* buf, size_t size)`. -/
def write (ba : ByteArray) (fresh : Nat → Nat → UInt8) (buf : List UInt8) :
    Except Fault ByteArray :=
  if buf.length = 0 then .ok ba
  else
    let ba := ba.addCapacity fresh buf.length
    match writeLoop ba.chain (ba.m_position % ba.m_baseSize) ba.m_position buf with
    | .error fault => .error fault
    | .ok (rewritten, moved, m_position) =>
        .ok { ba with
          nodes := ba.restore rewritten
          m_cur := ba.advance moved
          m_position := m_position
          m_size := if m_position > ba.m_size then m_position else ba.m_size }

/-- The loop of `read`: the bytes stored in the caller's buffer, how often `m_cur`
moved, and the new `m_position`. -/
def readLoop : (chain : List Node) → (pos_cnode m_position size : Nat) →
    Except Fault (List UInt8 × Nat × Nat)
  | _, _, m_position, 0 => .ok ([], 0, m_position)
  | [], _, _, _ + 1 => .error .nullNode
  | cur :: rest, pos_cnode, m_position, size + 1 =>
      let cap_left := cur.size - pos_cnode
      if size + 1 ≤ cap_left then
        .ok ((cur.ptr.drop pos_cnode).take (size + 1),
          if cap_left = size + 1 then 1 else 0, m_position + (size + 1))
      else
        match readLoop rest 0 (m_position + cap_left) (size + 1 - cap_left) with
        | .error fault => .error fault
        | .ok (bytes, moved, m_position) =>
            .ok ((cur.ptr.drop pos_cnode).take cap_left ++ bytes, moved + 1, m_position)

/-- `read(void* buf, size_t size)`.  The loads of `m_cur->size` stand before the
loop, so a null `m_cur` is followed even when `size` is zero. -/
def read (ba : ByteArray) (size : Nat) : Except Fault (ByteArray × List UInt8) :=
  if ba.chain = [] then .error .nullNode
  else
    match readLoop ba.chain (ba.m_position % ba.m_baseSize) ba.m_position size with
    | .error fault => .error fault
    | .ok (bytes, moved, m_position) =>
        .ok ({ ba with m_cur := ba.advance moved, m_position := m_position }, bytes)

/-- The walk of `setPosition` from `m_root`: the number of links followed. -/
def seek : List Node → (v : Nat) → Except Fault Nat
  | [], _ => .error .nullNode
  | cur :: rest, v =>
      if v > cur.size then
        match seek rest (v - cur.size) with
        | .error fault => .error fault
        | .ok moved => .ok (moved + 1)
      else .ok (if v = cur.size then 1 else 0)

/-- `setPosition(size_t v)`. -/
def setPosition (ba : ByteArray) (v : Nat) : Except Fault ByteArray :=
  if v > ba.m_capacity then .error (.outOfRange "set_position out of range")
  else
    match seek ba.nodes v with
    | .error fault => .error fault
    | .ok moved =>
        .ok { ba with
          m_position := v
          m_size := if v > ba.m_size then v else ba.m_size
          m_cur := if moved < ba.nodes.length then some moved else none }

end ByteArray

end Exhy
