import Nets.Library.Bytes
import Nets.Library.Loop

/-! # The byte buffer

`net/core/ByteBuffer.cpp`. Bytes are copied and never inspected by the untyped operations, so
these are over an arbitrary byte type whose default value is the zero byte. -/

namespace Nets

open Library

/-! ## `size_t`

Arithmetic modulo `2 ^ 64` on values below `2 ^ 64`. -/

/-- `a + b` in `size_t`. -/
def addSize (a b : ℕ) : ℕ := (a + b) % 18446744073709551616

/-- `a - b` in `size_t`. -/
def subSize (a b : ℕ) : ℕ := if b ≤ a then a - b else 18446744073709551616 - (b - a)

/-! ## State and exceptions -/

/-- `buffer` is the `unique_ptr<char[]>`: `none` is `nullptr`, `some cells` an owned array. -/
structure ByteBuffer (β : Type) where
  buffer : Option (List β)
  readerIndex : ℕ
  writerIndex : ℕ
  capacity : ℕ
  deriving DecidableEq, Repr

/-- The two exceptions the buffer throws, an access outside the allocated array, and a capacity
loop that never ends. -/
inductive Fault where
  | indexOutOfBounds (bytes : ℕ)
  | outOfMemory (newCapacity : ℕ)
  | badAccess
  | endless
  deriving DecidableEq, Repr

def Fault.what : Fault → String
  | .indexOutOfBounds bytes => s!"ByteBuffer readableBytes less than bytes {bytes}"
  | .outOfMemory newCapacity => s!"ByteBuffer newCapacity {newCapacity} exceeds the MaxCapacity"
  | .badAccess => "segmentation fault"
  | .endless => ""

/-- A member function: it may throw, and keeps what it did to the buffer before throwing. -/
abbrev BufferM (β : Type) := EStateM Fault (ByteBuffer β)

def kDefaultInitialCapacity : ℕ := 1024

/-- `INT32_MAX - 1`. -/
def kMaxCapacity : ℕ := 2147483646

namespace ByteBuffer

variable {β : Type}

def readableBytes (b : ByteBuffer β) : ℕ := subSize b.writerIndex b.readerIndex

def writableBytes (b : ByteBuffer β) : ℕ := subSize b.capacity b.writerIndex

def discardReadBytes (b : ByteBuffer β) : ℕ := b.readerIndex

def setReaderIndex (b : ByteBuffer β) (readerIndex : ℕ) : ByteBuffer β :=
  { b with readerIndex }

def setWriterIndex (b : ByteBuffer β) (writerIndex : ℕ) : ByteBuffer β :=
  { b with writerIndex }

/-! ## Memory -/

/-- `length` bytes read from `memory + offset`; `none` when one of them is not in the array. -/
def loadBytes (memory : Option (List β)) (offset length : ℕ) : Option (List β) :=
  if length = 0 then some []
  else match memory with
    | none => none
    | some cells =>
      if offset + length ≤ cells.length then some ((cells.drop offset).take length) else none

/-- `source` written to `memory + offset`; `none` when a byte falls outside the array. -/
def storeBytes (memory : Option (List β)) (offset : ℕ) (source : List β) :
    Option (Option (List β)) :=
  if source = [] then some memory
  else match memory with
    | none => none
    | some cells =>
      if offset + source.length ≤ cells.length then
        some (some (cells.take offset ++ source ++ cells.drop (offset + source.length)))
      else none

/-- A value that undefined behaviour may keep from existing. -/
def orFault {α : Type} (fault : Fault) : Option α → BufferM β α
  | none => throw fault
  | some a => pure a

/-! ## Capacity -/

/-- One round of `while (newCapacity < targetCapacity) newCapacity <<= 1`. -/
def doubleCapacity (targetCapacity newCapacity : ℕ) : ℕ ⊕ ℕ :=
  if newCapacity < targetCapacity then .inl (newCapacity * 2 % 18446744073709551616) else .inr newCapacity

/-- After 64 doublings the shifted bit is gone, so 65 rounds decide whether the loop ends. -/
def calculateNewCapacity (targetCapacity : ℕ) : Option ℕ :=
  if targetCapacity = 0 then some 0 else Loop.run (doubleCapacity targetCapacity) 65 1

section

variable [Inhabited β]

/-- `make_unique<char[]>(n)`, zero-filled. -/
def makeArray (n : ℕ) : List β := List.replicate n default

def adjustCapacity (newCapacity : ℕ) : BufferM β Unit := do
  let b ← get
  let contentBytes := b.readableBytes
  let content ← orFault .badAccess (loadBytes b.buffer b.readerIndex contentBytes)
  if newCapacity ≠ b.capacity then
    let newBuffer ← orFault .badAccess (storeBytes (some (makeArray newCapacity)) 0 content)
    set { b with
      buffer := newBuffer, capacity := newCapacity, readerIndex := 0, writerIndex := contentBytes }
  else
    -- `memmove` of the readable bytes to the front
    let moved ← orFault .badAccess (storeBytes b.buffer 0 content)
    set { b with buffer := moved, readerIndex := 0, writerIndex := contentBytes }

/-- The comparison of the new capacity with the limit. -/
def checkMaxCapacity (newCapacity : ℕ) : BufferM β ℕ := do
  if kMaxCapacity < newCapacity then throw (.outOfMemory newCapacity) else return newCapacity

/-- The capacity `ensureWritable` settles on when the free space at the end is too small. -/
def targetCapacity (writeLen : ℕ) : BufferM β ℕ := do
  let b ← get
  if b.capacity ≠ 0 then
    if addSize b.writableBytes b.discardReadBytes < writeLen then
      let newCapacity ← orFault .endless (calculateNewCapacity (addSize b.writerIndex writeLen))
      checkMaxCapacity newCapacity
    else
      checkMaxCapacity b.capacity
  else
    -- the limit is not checked on this branch
    orFault .endless (calculateNewCapacity writeLen)

def ensureWritable (writeLen : ℕ) : BufferM β Unit := do
  let b ← get
  if b.writableBytes < writeLen then
    let newCapacity ← targetCapacity writeLen
    adjustCapacity newCapacity

/-! ## Writing and reading bytes -/

/-- `writeBytes(data, length)`; `writeString` is the same call. -/
def writeBytes (data : List β) : BufferM β Unit := do
  ensureWritable data.length
  let b ← get
  let buffer ← orFault .badAccess (storeBytes b.buffer b.writerIndex data)
  set { b with buffer, writerIndex := addSize b.writerIndex data.length }

/-- `writeByteBuffer`. The pointer into the other buffer is formed with the reader index of this one,
before room is made. -/
def writeByteBuffer (byteBuffer : ByteBuffer β) : BufferM β Unit := do
  let readerIndex := (← get).readerIndex
  let length := byteBuffer.readableBytes
  ensureWritable length
  let data ← orFault .badAccess (loadBytes byteBuffer.buffer readerIndex length)
  let b ← get
  let buffer ← orFault .badAccess (storeBytes b.buffer b.writerIndex data)
  set { b with buffer, writerIndex := addSize b.writerIndex length }

end

def clear : BufferM β Unit :=
  modify fun b => { b with readerIndex := 0, writerIndex := 0 }

def checkReadableBytes (bytes : ℕ) : BufferM β Unit := do
  let b ← get
  if b.readableBytes < bytes then throw (.indexOutOfBounds bytes)

def adjustReaderIndex (bytes : ℕ) : BufferM β Unit := do
  let b ← get
  if bytes < b.readableBytes then
    set { b with readerIndex := addSize b.readerIndex bytes }
  else
    clear

/-- `readBytes(length)`, and the check, copy and advance every typed read makes. -/
def readBytes (length : ℕ) : BufferM β (List β) := do
  checkReadableBytes length
  let b ← get
  let bytes ← orFault .badAccess (loadBytes b.buffer b.readerIndex length)
  adjustReaderIndex length
  return bytes

/-! ## Construction, copy, move -/

/-- The members before the body of `ByteBuffer(data, length)`, and a moved-from buffer. -/
def null : ByteBuffer β := { buffer := none, readerIndex := 0, writerIndex := 0, capacity := 0 }

/-- The move constructor: the new object, and what is left of the source. -/
def move (other : ByteBuffer β) : ByteBuffer β × ByteBuffer β := (other, null)

section

variable [Inhabited β]

/-- `ByteBuffer(capacity)`; `ByteBuffer()` passes `kDefaultInitialCapacity`. -/
def ofCapacity (capacity : ℕ) : ByteBuffer β :=
  { buffer := some (makeArray capacity), readerIndex := 0, writerIndex := 0, capacity }

/-- `ByteBuffer(data, length)`. -/
def ofData (data : List β) : Except Fault (ByteBuffer β) :=
  match writeBytes data null with
  | .ok _ b => .ok b
  | .error fault _ => .error fault

/-- The copy constructor; copy assignment to another object computes the same members. -/
def copy (other : ByteBuffer β) : Except Fault (ByteBuffer β) :=
  match loadBytes other.buffer 0 other.capacity with
  | none => .error .badAccess
  | some cells =>
    match storeBytes (some (makeArray other.capacity)) 0 cells with
    | none => .error .badAccess
    | some buffer => .ok { other with buffer }

end

/-! ## Typed values

The host is little-endian: an integer object is its bytes, least significant first, and `htobe`
reverses them. -/

/-- `htobe16`, `htobe32`, `htobe64` for `k = 2, 4, 8`; the `be..toh` are the same function. -/
def htobe (k : ℕ) (value : BitVec (8 * k)) : BitVec (8 * k) :=
  BitVec.ofNat (8 * k) (ofBeBytes (leBytes k value.toNat))

/-- `writeBytes(&tmp, k)` for an integer object of `k` bytes. -/
def writeObject (k : ℕ) (tmp : BitVec (8 * k)) : BufferM UInt8 Unit :=
  writeBytes (leBytes k tmp.toNat)

/-- The `memcpy` of `k` bytes into an integer object, with its check and advance. -/
def readObject (k : ℕ) : BufferM UInt8 (BitVec (8 * k)) := do
  let bytes ← readBytes k
  return BitVec.ofNat (8 * k) (ofLeBytes bytes)

def writeBoolean (value : Bool) : BufferM UInt8 Unit := writeBytes [if value then 1 else 0]
def writeByte (value : UInt8) : BufferM UInt8 Unit := writeBytes [value]
def writeInt8 (value : Int8) : BufferM UInt8 Unit := writeObject 1 value.toBitVec
def writeUint8 (value : UInt8) : BufferM UInt8 Unit := writeObject 1 value.toBitVec
def writeInt16 (value : Int16) : BufferM UInt8 Unit := writeObject 2 (htobe 2 value.toBitVec)
def writeUint16 (value : UInt16) : BufferM UInt8 Unit := writeObject 2 (htobe 2 value.toBitVec)
def writeInt32 (value : Int32) : BufferM UInt8 Unit := writeObject 4 (htobe 4 value.toBitVec)
def writeUint32 (value : UInt32) : BufferM UInt8 Unit := writeObject 4 (htobe 4 value.toBitVec)
def writeInt64 (value : Int64) : BufferM UInt8 Unit := writeObject 8 (htobe 8 value.toBitVec)
def writeUint64 (value : UInt64) : BufferM UInt8 Unit := writeObject 8 (htobe 8 value.toBitVec)
/-- A `float` is its object representation; no byte order is applied. -/
def writeFloat (bits : UInt32) : BufferM UInt8 Unit := writeObject 4 bits.toBitVec
def writeDouble (bits : UInt64) : BufferM UInt8 Unit := writeObject 8 bits.toBitVec

def readBoolean : BufferM UInt8 Bool := return (← readObject 1) ≠ 0
def readByte : BufferM UInt8 UInt8 := return .ofBitVec (← readObject 1)
def readInt8 : BufferM UInt8 Int8 := return .ofBitVec (← readObject 1)
def readUint8 : BufferM UInt8 UInt8 := return .ofBitVec (← readObject 1)
def readInt16 : BufferM UInt8 Int16 := return .ofBitVec (htobe 2 (← readObject 2))
def readUint16 : BufferM UInt8 UInt16 := return .ofBitVec (htobe 2 (← readObject 2))
def readInt32 : BufferM UInt8 Int32 := return .ofBitVec (htobe 4 (← readObject 4))
def readUint32 : BufferM UInt8 UInt32 := return .ofBitVec (htobe 4 (← readObject 4))
def readInt64 : BufferM UInt8 Int64 := return .ofBitVec (htobe 8 (← readObject 8))
def readUint64 : BufferM UInt8 UInt64 := return .ofBitVec (htobe 8 (← readObject 8))
def readFloat : BufferM UInt8 UInt32 := return .ofBitVec (← readObject 4)
def readDouble : BufferM UInt8 UInt64 := return .ofBitVec (← readObject 8)

/-- What a typed write is given and a typed read returns. -/
inductive Value where
  | boolean (value : Bool)
  | byte (value : UInt8)
  | int8 (value : Int8)
  | uint8 (value : UInt8)
  | int16 (value : Int16)
  | uint16 (value : UInt16)
  | int32 (value : Int32)
  | uint32 (value : UInt32)
  | int64 (value : Int64)
  | uint64 (value : UInt64)
  | float (bits : UInt32)
  | double (bits : UInt64)
  | bytes (data : List UInt8)

/-- Which read is called; `readBytes` also takes a length. -/
inductive Kind where
  | boolean | byte | int8 | uint8 | int16 | uint16 | int32 | uint32 | int64 | uint64
  | float | double
  | bytes (length : ℕ)

def write : Value → BufferM UInt8 Unit
  | .boolean value => writeBoolean value
  | .byte value => writeByte value
  | .int8 value => writeInt8 value
  | .uint8 value => writeUint8 value
  | .int16 value => writeInt16 value
  | .uint16 value => writeUint16 value
  | .int32 value => writeInt32 value
  | .uint32 value => writeUint32 value
  | .int64 value => writeInt64 value
  | .uint64 value => writeUint64 value
  | .float bits => writeFloat bits
  | .double bits => writeDouble bits
  | .bytes data => writeBytes data

def read : Kind → BufferM UInt8 Value
  | .boolean => return .boolean (← readBoolean)
  | .byte => return .byte (← readByte)
  | .int8 => return .int8 (← readInt8)
  | .uint8 => return .uint8 (← readUint8)
  | .int16 => return .int16 (← readInt16)
  | .uint16 => return .uint16 (← readUint16)
  | .int32 => return .int32 (← readInt32)
  | .uint32 => return .uint32 (← readUint32)
  | .int64 => return .int64 (← readInt64)
  | .uint64 => return .uint64 (← readUint64)
  | .float => return .float (← readFloat)
  | .double => return .double (← readDouble)
  | .bytes length => return .bytes (← readBytes length)

end ByteBuffer

end Nets
