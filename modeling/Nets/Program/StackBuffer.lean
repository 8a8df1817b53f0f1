import Mathlib.Algebra.GroupWithZero.Nat
import Mathlib.Data.List.Basic
import Mathlib.Tactic.Common
import Nets.Library.Loop

/-! # Buffers of fixed size

`base/StackBuffer.h`. A buffer is what has been written to it; the rest of its array is zero. -/

namespace Nets

open Library

/-- `StackBuffer<SIZE>`; the last byte of the array is never written. -/
structure StackBuffer (SIZE : ℕ) (β : Type) where
  bytes : List β
  length_lt : bytes.length < SIZE

namespace StackBuffer

variable {SIZE : ℕ} {β : Type}

def empty [NeZero SIZE] : StackBuffer SIZE β where
  bytes := []
  length_lt := Nat.pos_of_neZero SIZE

/-- `length()` and `writerIndex()`. -/
def length (b : StackBuffer SIZE β) : ℕ := b.bytes.length

def writableBytes (b : StackBuffer SIZE β) : ℕ := SIZE - b.length

/-- Nothing is written where there is not more room than `data` needs. -/
def writeBytes (data : List β) (b : StackBuffer SIZE β) : StackBuffer SIZE β :=
  if h : data.length < b.writableBytes then
    { bytes := b.bytes ++ data
      length_lt := by
        rw [writableBytes, length] at h
        rw [List.length_append]
        omega }
  else b

@[simp] theorem bytes_empty [NeZero SIZE] : (empty : StackBuffer SIZE β).bytes = [] := rfl

@[simp] theorem writableBytes_empty [NeZero SIZE] :
    (empty : StackBuffer SIZE β).writableBytes = SIZE := rfl

theorem bytes_writeBytes {data : List β} {b : StackBuffer SIZE β}
    (h : data.length < b.writableBytes) : (b.writeBytes data).bytes = b.bytes ++ data := by
  rw [writeBytes, dif_pos h]

/-! ## Integers

Characters are `Char` here. -/

/-- `digits10 + 1` of a 64-bit integer. -/
def kMaximumNumberLimit : ℕ := 20

def kDigits : List Char := ['0', '1', '2', '3', '4', '5', '6', '7', '8', '9']

/-- One round of `do … while (value > 0)` over the digits of a base, where `put` writes a digit behind what
was written. There is no result where the index is outside the table, or the digit is not written. -/
def digitRound {ω : Type} (base : ℕ) (digits : List Char) (put : Char → ω → Option ω)
    (state : ℤ × ω) : (ℤ × ω) ⊕ Option (ℤ × ω) :=
  let (value, written) := state
  let lastIndex := value.tmod base
  if lastIndex < 0 then .inr none
  else
    match digits[lastIndex.toNat]?.bind (put · written) with
    | none => .inr none
    | some written =>
      let next := (value.tdiv base, written)
      if next.1 > 0 then .inl next else .inr (some next)

def putDigit (digit : Char) (written : List Char) : Option (List Char) := some (written ++ [digit])

/-- Characters put behind the written ones; no result where they do not fit. -/
def append (data : List β) (b : StackBuffer SIZE β) : Option (StackBuffer SIZE β) :=
  if h : b.bytes.length + data.length < SIZE then
    some { bytes := b.bytes ++ data, length_lt := by rwa [List.length_append] }
  else none

/-- `writeInteger`, for an integer that has at most 20 digits. -/
def writeInteger (value : ℤ) (b : StackBuffer SIZE Char) : Option (StackBuffer SIZE Char) :=
  if kMaximumNumberLimit < b.writableBytes then
    (Loop.run (digitRound 10 kDigits putDigit) kMaximumNumberLimit (value, [])).join.bind fun (value, written) =>
      let written := if value < 0 then written ++ ['-'] else written
      b.append written.reverse
  else some b

def writeInt32 (value : Int32) (b : StackBuffer SIZE Char) : Option (StackBuffer SIZE Char) :=
  b.writeInteger value.toInt

def writeUint32 (value : UInt32) (b : StackBuffer SIZE Char) : Option (StackBuffer SIZE Char) :=
  b.writeInteger value.toNat

def writeInt64 (value : Int64) (b : StackBuffer SIZE Char) : Option (StackBuffer SIZE Char) :=
  b.writeInteger value.toInt

def writeUint64 (value : UInt64) (b : StackBuffer SIZE Char) : Option (StackBuffer SIZE Char) :=
  b.writeInteger value.toNat

/-- The value goes through `Uint32Type` and, as the argument of `writeInt32`, back. -/
def writeInt8 (value : Int8) (b : StackBuffer SIZE Char) : Option (StackBuffer SIZE Char) :=
  b.writeInt32 value.toInt32.toUInt32.toInt32

def writeUint8 (value : UInt8) (b : StackBuffer SIZE Char) : Option (StackBuffer SIZE Char) :=
  b.writeUint32 value.toUInt32

def writeInt16 (value : Int16) (b : StackBuffer SIZE Char) : Option (StackBuffer SIZE Char) :=
  b.writeInt32 value.toInt32

def writeUint16 (value : UInt16) (b : StackBuffer SIZE Char) : Option (StackBuffer SIZE Char) :=
  b.writeUint32 value.toUInt32

/-- What one of the eight is given. -/
inductive Integer where
  | int8 (value : Int8)
  | uint8 (value : UInt8)
  | int16 (value : Int16)
  | uint16 (value : UInt16)
  | int32 (value : Int32)
  | uint32 (value : UInt32)
  | int64 (value : Int64)
  | uint64 (value : UInt64)

def write (b : StackBuffer SIZE Char) : Integer → Option (StackBuffer SIZE Char)
  | .int8 value => b.writeInt8 value
  | .uint8 value => b.writeUint8 value
  | .int16 value => b.writeInt16 value
  | .uint16 value => b.writeUint16 value
  | .int32 value => b.writeInt32 value
  | .uint32 value => b.writeUint32 value
  | .int64 value => b.writeInt64 value
  | .uint64 value => b.writeUint64 value

end StackBuffer

end Nets
