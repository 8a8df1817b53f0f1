import Nets.Library.CStrings
import Nets.Library.FixedArray
import Nets.Library.System
import Nets.Program.ByteBuffer
import Nets.Program.StackBuffer

/-! # Buffers of fixed size in memory

`base/StackBuffer.h` with the whole array. What is read or written outside of it has no result. -/

namespace Nets

open Library

/-- `StackBuffer<SIZE>` as an object. -/
structure StackArray (SIZE : ℕ) where
  buffer : FixedArray SIZE Char
  writerIndex : ℕ

namespace StackArray

open StackBuffer (kMaximumNumberLimit kDigits digitRound)

variable {SIZE : ℕ}

/-! ## Construction, copy, move, swap -/

/-- `StackBuffer()`. -/
def construct : StackArray SIZE where
  buffer := .replicate SIZE nul
  writerIndex := 0

/-- `StackBuffer(const StackBuffer&)`: the array is cleared before the text is copied. -/
def copy (other : StackArray SIZE) : Option (StackArray SIZE) := do
  let text ← other.buffer.load 0 other.writerIndex
  let buffer ← (FixedArray.replicate SIZE nul).store 0 text
  return { buffer, writerIndex := other.writerIndex }

/-- `StackBuffer(StackBuffer&&)`: the new object, and what is left of the other one, of which only the
text is cleared. -/
def move (other : StackArray SIZE) : Option (StackArray SIZE × StackArray SIZE) := do
  let r ← copy other
  let rest ← other.buffer.store 0 (List.replicate other.writerIndex nul)
  return (r, { buffer := rest, writerIndex := 0 })

/-- Only as many characters as the longer text has are exchanged. -/
def swap (r other : StackArray SIZE) : Option (StackArray SIZE × StackArray SIZE) := do
  let n := if r.writerIndex < other.writerIndex then other.writerIndex else r.writerIndex
  let (buffer, buffer') ← FixedArray.swapElements n 0 r.buffer other.buffer
  return ({ buffer, writerIndex := other.writerIndex },
    { buffer := buffer', writerIndex := r.writerIndex })

/-! ## Bytes -/

def writableBytes (r : StackArray SIZE) : ℕ := subSize SIZE r.writerIndex

/-- `writeBytes(data, length)`, where `data` is read only if there is room. -/
def writeLength (data : Option (List Char)) (length : ℕ) (r : StackArray SIZE) :
    Option (StackArray SIZE) :=
  if length < r.writableBytes then do
    let buffer ← r.buffer.store r.writerIndex (← data)
    return { buffer, writerIndex := r.writerIndex + length }
  else some r

def writeBytes (data : List Char) (r : StackArray SIZE) : Option (StackArray SIZE) :=
  r.writeLength (some data) data.length

/-- `writeBytes(const char*)`. -/
def writeCString (data : List Char) (r : StackArray SIZE) : Option (StackArray SIZE) :=
  r.writeBytes (cString data)

def writeString (str : List Char) (r : StackArray SIZE) : Option (StackArray SIZE) :=
  r.writeBytes str

def writeByte (value : Char) (r : StackArray SIZE) : Option (StackArray SIZE) :=
  r.writeBytes [value]

/-- `writeBytes(const StackBuffer<SIZE>&)`. -/
def writeBuffer (r buffer : StackArray SIZE) : Option (StackArray SIZE) :=
  r.writeLength (buffer.buffer.load 0 buffer.writerIndex) buffer.writerIndex

/-! ## Numbers -/

def kHexDigits : List Char :=
  ['0', '1', '2', '3', '4', '5', '6', '7', '8', '9', 'a', 'b', 'c', 'd', 'e', 'f']

/-- The array and a position in it, in the loop over the digits. -/
structure DigitLoop (SIZE : ℕ) where
  buffer : FixedArray SIZE Char
  tmp : ℕ

/-- `*tmp++ = digit`, if that is inside the array. -/
def putDigit (digit : Char) (loop : DigitLoop SIZE) : Option (DigitLoop SIZE) :=
  (loop.buffer.store loop.tmp [digit]).map fun buffer => { buffer, tmp := loop.tmp + 1 }

/-- The digits from the last one on, and what is left of the value; no integer has more than 20. -/
def writeDigits (base : ℕ) (digits : List Char) (value : ℤ) (loop : DigitLoop SIZE) :
    Option (ℤ × DigitLoop SIZE) :=
  (Loop.run (digitRound base digits putDigit) kMaximumNumberLimit (value, loop)).join

/-- The sign of what is left behind the digits. -/
def writeSign (value : ℤ) (loop : DigitLoop SIZE) : Option (DigitLoop SIZE) :=
  if value < 0 then putDigit '-' loop else some loop

def writeInteger (value : ℤ) (r : StackArray SIZE) : Option (StackArray SIZE) :=
  if kMaximumNumberLimit < r.writableBytes then do
    let (value, loop) ← writeDigits 10 kDigits value { buffer := r.buffer, tmp := r.writerIndex }
    let loop ← writeSign value loop
    let buffer ← loop.buffer.reverse r.writerIndex loop.tmp
    return { buffer, writerIndex := r.writerIndex + (loop.tmp - r.writerIndex) }
  else some r

def writePointer (ptr : UInt64) (r : StackArray SIZE) : Option (StackArray SIZE) :=
  if kMaximumNumberLimit < r.writableBytes then do
    let buffer ← r.buffer.store r.writerIndex ['0']
    let buffer ← buffer.store (r.writerIndex + 1) ['x']
    let (_, loop) ← writeDigits 16 kHexDigits ptr.toNat { buffer, tmp := r.writerIndex + 2 }
    let buffer ← loop.buffer.reverse (r.writerIndex + 2) loop.tmp
    return { buffer, writerIndex := r.writerIndex + (loop.tmp - r.writerIndex) }
  else some r

/-! ## Any number of objects -/

/-- What is written; another buffer goes by its number. A value that is not negative is one of
`Uint64Type`, whatever its type. -/
inductive Write where
  | bytes (data : List Char)
  | cString (data : List Char)
  | string (str : List Char)
  | byte (value : Char)
  | buffer (source : ℕ)
  | integer (value : UInt64)
  | pointer (ptr : UInt64)

inductive Operation where
  | construct
  | copy (source : ℕ)
  | move (source : ℕ)
  | swap (target source : ℕ)
  | write (target : ℕ) (what : Write)

def write (objects : List (StackArray SIZE)) (r : StackArray SIZE) :
    Write → Option (StackArray SIZE)
  | .bytes data => r.writeBytes data
  | .cString data => r.writeCString data
  | .string str => r.writeString str
  | .byte value => r.writeByte value
  | .buffer source => do r.writeBuffer (← objects[source]?)
  | .integer value => r.writeInteger value.toNat
  | .pointer ptr => r.writePointer ptr

def execute (objects : List (StackArray SIZE)) : Operation → Option (List (StackArray SIZE))
  | .construct => some (objects ++ [StackArray.construct])
  | .copy source => do
    let r ← (← objects[source]?).copy
    return objects ++ [r]
  | .move source => do
    let (r, rest) ← (← objects[source]?).move
    return objects.set source rest ++ [r]
  | .swap target source => do
    let (r, other) ← (← objects[target]?).swap (← objects[source]?)
    return (objects.set target r).set source other
  | .write target what => do
    let r ← (← objects[target]?).write objects what
    return objects.set target r

/-- The objects of one program, none at first. -/
def program (SIZE : ℕ) : System (List (StackArray SIZE)) Operation where
  initial objects := objects = []
  step := execute

end StackArray

end Nets
