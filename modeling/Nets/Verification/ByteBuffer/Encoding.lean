import Nets.Verification.ByteBuffer.Equations

/-! # The bytes of typed values

Integers are their big-endian two's-complement bytes at their own width; `float` and `double`
keep the host's order. Every typed write is one write of the encoding and every typed read one
read of as many bytes, decoded. -/

namespace Nets.ByteBuffer

open Library

/-- The bytes a value is written as. -/
def Value.encode : Value → List UInt8
  | .boolean value => [if value then 1 else 0]
  | .byte value => [value]
  | .int8 value => beBytes 1 value.toBitVec.toNat
  | .uint8 value => beBytes 1 value.toNat
  | .int16 value => beBytes 2 value.toBitVec.toNat
  | .uint16 value => beBytes 2 value.toNat
  | .int32 value => beBytes 4 value.toBitVec.toNat
  | .uint32 value => beBytes 4 value.toNat
  | .int64 value => beBytes 8 value.toBitVec.toNat
  | .uint64 value => beBytes 8 value.toNat
  | .float bits => leBytes 4 bits.toNat
  | .double bits => leBytes 8 bits.toNat
  | .bytes data => data

/-- How many bytes a read takes. -/
def Kind.size : Kind → ℕ
  | .boolean | .byte | .int8 | .uint8 => 1
  | .int16 | .uint16 => 2
  | .int32 | .uint32 | .float => 4
  | .int64 | .uint64 | .double => 8
  | .bytes length => length

/-- The value read from that many bytes. -/
def Kind.decode (kind : Kind) (bytes : List UInt8) : Value :=
  match kind with
  | .boolean => .boolean (ofBeBytes bytes ≠ 0)
  | .byte => .byte (.ofNat (ofBeBytes bytes))
  | .int8 => .int8 (.ofNat (ofBeBytes bytes))
  | .uint8 => .uint8 (.ofNat (ofBeBytes bytes))
  | .int16 => .int16 (.ofNat (ofBeBytes bytes))
  | .uint16 => .uint16 (.ofNat (ofBeBytes bytes))
  | .int32 => .int32 (.ofNat (ofBeBytes bytes))
  | .uint32 => .uint32 (.ofNat (ofBeBytes bytes))
  | .int64 => .int64 (.ofNat (ofBeBytes bytes))
  | .uint64 => .uint64 (.ofNat (ofBeBytes bytes))
  | .float => .float (.ofNat (ofLeBytes bytes))
  | .double => .double (.ofNat (ofLeBytes bytes))
  | .bytes _ => .bytes bytes

/-- Which read gives the value back. -/
def Value.kind : Value → Kind
  | .boolean _ => .boolean
  | .byte _ => .byte
  | .int8 _ => .int8
  | .uint8 _ => .uint8
  | .int16 _ => .int16
  | .uint16 _ => .uint16
  | .int32 _ => .int32
  | .uint32 _ => .uint32
  | .int64 _ => .int64
  | .uint64 _ => .uint64
  | .float _ => .float
  | .double _ => .double
  | .bytes data => .bytes data.length

theorem Value.length_encode (value : Value) : value.encode.length = value.kind.size := by
  cases value <;> simp [Value.encode, Value.kind, Kind.size]

/-! ## Byte order -/

theorem pow_256 (k : ℕ) : 256 ^ k = 2 ^ (8 * k) := by
  rw [pow_mul]
  norm_num

/-- An integer object swapped to network order is stored most significant byte first. -/
theorem leBytes_htobe (k : ℕ) (value : BitVec (8 * k)) :
    leBytes k (htobe k value).toNat = beBytes k value.toNat := by
  have hlt : ofBeBytes (leBytes k value.toNat) < 2 ^ (8 * k) := by
    simpa [pow_256] using ofBeBytes_lt (leBytes k value.toNat)
  rw [htobe, BitVec.toNat_ofNat, Nat.mod_eq_of_lt hlt, leBytes_ofBeBytes_leBytes]

/-- Swapping an object loaded from network bytes gives the big-endian number. -/
theorem htobe_ofLeBytes {k : ℕ} {bytes : List UInt8} (h : bytes.length = k) :
    htobe k (BitVec.ofNat (8 * k) (ofLeBytes bytes)) =
      BitVec.ofNat (8 * k) (ofBeBytes bytes) := by
  have hlt : ofLeBytes bytes < 2 ^ (8 * k) := by
    simpa [pow_256, h] using ofLeBytes_lt bytes
  rw [htobe, BitVec.toNat_ofNat, Nat.mod_eq_of_lt hlt, ← h, leBytes_ofLeBytes]

theorem ofLeBytes_of_length_one {bytes : List UInt8} (h : bytes.length = 1) :
    ofLeBytes bytes = ofBeBytes bytes := by
  obtain ⟨b, rfl⟩ := List.length_eq_one_iff.mp h
  rfl

/-- The bits of an object come back from its bytes. -/
theorem ofNat_ofBeBytes (k : ℕ) (value : BitVec (8 * k)) :
    BitVec.ofNat (8 * k) (ofBeBytes (beBytes k value.toNat)) = value := by
  have hlt : value.toNat < 256 ^ k := by
    rw [pow_256]
    exact value.isLt
  rw [ofBeBytes_beBytes, Nat.mod_eq_of_lt hlt, BitVec.ofNat_toNat, BitVec.setWidth_eq]

theorem ofNat_ofLeBytes (k : ℕ) (value : BitVec (8 * k)) :
    BitVec.ofNat (8 * k) (ofLeBytes (leBytes k value.toNat)) = value := by
  have hlt : value.toNat < 256 ^ k := by
    rw [pow_256]
    exact value.isLt
  rw [ofLeBytes_leBytes, Nat.mod_eq_of_lt hlt, BitVec.ofNat_toNat, BitVec.setWidth_eq]

/-- Sign included, a value is decoded from what it is encoded as. -/
theorem decode_encode (value : Value) : value.kind.decode value.encode = value := by
  cases value with
  | boolean value => cases value <;> rfl
  | byte value => simp [Value.kind, Value.encode, Kind.decode, ofBeBytes, ofLeBytes]
  | int8 value => exact congrArg (Value.int8 ∘ Int8.ofBitVec) (ofNat_ofBeBytes 1 value.toBitVec)
  | uint8 value => exact congrArg (Value.uint8 ∘ UInt8.ofBitVec) (ofNat_ofBeBytes 1 value.toBitVec)
  | int16 value => exact congrArg (Value.int16 ∘ Int16.ofBitVec) (ofNat_ofBeBytes 2 value.toBitVec)
  | uint16 value =>
      exact congrArg (Value.uint16 ∘ UInt16.ofBitVec) (ofNat_ofBeBytes 2 value.toBitVec)
  | int32 value => exact congrArg (Value.int32 ∘ Int32.ofBitVec) (ofNat_ofBeBytes 4 value.toBitVec)
  | uint32 value =>
      exact congrArg (Value.uint32 ∘ UInt32.ofBitVec) (ofNat_ofBeBytes 4 value.toBitVec)
  | int64 value => exact congrArg (Value.int64 ∘ Int64.ofBitVec) (ofNat_ofBeBytes 8 value.toBitVec)
  | uint64 value =>
      exact congrArg (Value.uint64 ∘ UInt64.ofBitVec) (ofNat_ofBeBytes 8 value.toBitVec)
  | float bits => exact congrArg (Value.float ∘ UInt32.ofBitVec) (ofNat_ofLeBytes 4 bits.toBitVec)
  | double bits => exact congrArg (Value.double ∘ UInt64.ofBitVec) (ofNat_ofLeBytes 8 bits.toBitVec)
  | bytes data => rfl

/-! ## Typed writes and reads -/

/-- Every typed write is one `writeBytes` of the value's encoding. -/
theorem write_eq (value : Value) : write value = writeBytes value.encode := by
  cases value with
  | boolean value | byte value | bytes data => rfl
  | int8 value | uint8 value => rfl
  | float bits | double bits => rfl
  | int16 value | uint16 value => exact congrArg writeBytes (leBytes_htobe 2 _)
  | int32 value | uint32 value => exact congrArg writeBytes (leBytes_htobe 4 _)
  | int64 value | uint64 value => exact congrArg writeBytes (leBytes_htobe 8 _)

theorem readObject_ok {k : ℕ} {b b' : ByteBuffer UInt8} {bytes : List UInt8}
    (h : readBytes k b = .ok bytes b') :
    readObject k b = .ok (BitVec.ofNat (8 * k) (ofLeBytes bytes)) b' := by
  simp only [readObject, bind_pure_comp, map_ok h]

theorem readObject_error {k : ℕ} {b b' : ByteBuffer UInt8} {fault : Fault}
    (h : readBytes k b = .error fault b') : readObject k b = .error fault b' := by
  rw [readObject, bind_error h]

/-- An object read and swapped to host order is the big-endian number of its bytes. -/
theorem readSwapped_ok {α : Type} {k : ℕ} {b b' : ByteBuffer UInt8} {bytes : List UInt8}
    (f : BitVec (8 * k) → α) (h : readBytes k b = .ok bytes b') (hlen : bytes.length = k) :
    ((fun object => f (htobe k object)) <$> readObject k) b =
      .ok (f (BitVec.ofNat (8 * k) (ofBeBytes bytes))) b' := by
  rw [map_ok (readObject_ok h), htobe_ofLeBytes hlen]

/-- A single byte needs no swap. -/
theorem readSingle_ok {α : Type} {b b' : ByteBuffer UInt8} {bytes : List UInt8}
    (f : BitVec 8 → α) (h : readBytes 1 b = .ok bytes b') (hlen : bytes.length = 1) :
    (f <$> readObject 1) b = .ok (f (BitVec.ofNat 8 (ofBeBytes bytes))) b' := by
  rw [← ofLeBytes_of_length_one hlen]
  exact map_ok (readObject_ok h) f

theorem ofNat_ne_zero {bytes : List UInt8} (hlen : bytes.length = 1) :
    (BitVec.ofNat 8 (ofBeBytes bytes) ≠ 0) = (ofBeBytes bytes ≠ 0) := by
  have hlt : ofBeBytes bytes < 2 ^ 8 := by simpa [hlen] using ofBeBytes_lt bytes
  have hzero : BitVec.ofNat 8 (ofBeBytes bytes) = 0 ↔ ofBeBytes bytes = 0 := by
    rw [← BitVec.toNat_inj, BitVec.toNat_ofNat, Nat.mod_eq_of_lt hlt]
    rfl
  exact propext (not_congr hzero)

/-- A typed read returns the decoding of the bytes it takes. -/
theorem read_ok {kind : Kind} {b b' : ByteBuffer UInt8} {bytes : List UInt8}
    (h : readBytes kind.size b = .ok bytes b') (hlen : bytes.length = kind.size) :
    read kind b = .ok (kind.decode bytes) b' := by
  cases kind with
  | bytes length => exact map_ok h _
  | boolean =>
      have hread := readSingle_ok (fun object => decide (object ≠ 0)) h hlen
      simp only [ofNat_ne_zero hlen] at hread
      exact map_ok hread _
  | byte => exact map_ok (readSingle_ok _ h hlen) _
  | int8 => exact map_ok (readSingle_ok _ h hlen) _
  | uint8 => exact map_ok (readSingle_ok _ h hlen) _
  | float => exact map_ok (map_ok (readObject_ok (k := 4) h) _) _
  | double => exact map_ok (map_ok (readObject_ok (k := 8) h) _) _
  | int16 => exact map_ok (readSwapped_ok (k := 2) Int16.ofBitVec h hlen) _
  | uint16 => exact map_ok (readSwapped_ok (k := 2) UInt16.ofBitVec h hlen) _
  | int32 => exact map_ok (readSwapped_ok (k := 4) Int32.ofBitVec h hlen) _
  | uint32 => exact map_ok (readSwapped_ok (k := 4) UInt32.ofBitVec h hlen) _
  | int64 => exact map_ok (readSwapped_ok (k := 8) Int64.ofBitVec h hlen) _
  | uint64 => exact map_ok (readSwapped_ok (k := 8) UInt64.ofBitVec h hlen) _

/-- A typed read throws what `readBytes` throws. -/
theorem read_error {kind : Kind} {b b' : ByteBuffer UInt8} {fault : Fault}
    (h : readBytes kind.size b = .error fault b') : read kind b = .error fault b' := by
  cases kind with
  | bytes length => exact map_error h _
  | _ => exact map_error (map_error (readObject_error h) _) _

end Nets.ByteBuffer
