import Nets.Verification.ByteBuffer.Capacity

/-! # Writing one buffer into another

`writeByteBuffer` takes the bytes of the other buffer from the reader index of its own. -/

namespace Nets.ByteBuffer

open Library

variable {β : Type} [Inhabited β] {b b' byteBuffer : ByteBuffer β} {n : ℕ}

/-- The readable bytes of the other buffer come behind those of this one. The other one is a
`const` reference and stays as it is. -/
def Appends (byteBuffer b : ByteBuffer β) : Prop :=
  ∃ b', writeByteBuffer byteBuffer b = .ok () b' ∧ b'.contents = b.contents ++ byteBuffer.contents

/-- In the array of the other buffer the bytes from the reader index of this one on are the readable
ones. -/
def SameBytes (byteBuffer b : ByteBuffer β) : Prop :=
  ∀ i < byteBuffer.readableBytes,
    (cells byteBuffer.buffer)[b.readerIndex + i]? =
      (cells byteBuffer.buffer)[byteBuffer.readerIndex + i]?

/-- The array is large enough, or the size of a larger one does not wrap. -/
def CanHold (n : ℕ) (b : ByteBuffer β) : Prop :=
  b.readableBytes + n ≤ b.capacity ∨ b.writerIndex + n < 2 ^ 64

omit [Inhabited β] in
theorem sameBytes_of_eq (h : b.readerIndex = byteBuffer.readerIndex) : SameBytes byteBuffer b := by
  intro i _
  rw [h]

omit [Inhabited β] in
theorem getElem?_contents {i : ℕ} (hb : b.Valid) (hi : i < b.readableBytes) :
    b.contents[i]? = (cells b.buffer)[b.readerIndex + i]? := by
  rw [hb.readableBytes_eq] at hi
  rw [contents, List.getElem?_take_of_lt hi, List.getElem?_drop]

omit [Inhabited β] in
theorem Valid.loadBytes_eq_contents_iff (hbyteBuffer : byteBuffer.Valid) :
    loadBytes byteBuffer.buffer b.readerIndex byteBuffer.readableBytes = some byteBuffer.contents ↔
      SameBytes byteBuffer b := by
  have hlength := hbyteBuffer.readableBytes_eq_length
  constructor
  · intro hload i hi
    rw [← getElem?_contents hbyteBuffer hi, (of_loadBytes hload).2, List.getElem?_take_of_lt hi,
      List.getElem?_drop]
  · intro hsame
    by_cases hempty : byteBuffer.readableBytes = 0
    · have hnil : byteBuffer.contents = [] := List.length_eq_zero_iff.mp (hlength ▸ hempty)
      simp [loadBytes, hempty, hnil]
    · -- the last readable byte is in the array
      obtain ⟨last, hlast⟩ := Nat.exists_eq_succ_of_ne_zero hempty
      have hin : b.readerIndex + last < (cells byteBuffer.buffer).length := by
        have hreadable : last < byteBuffer.contents.length := by omega
        have hsome := hsame last (by omega)
        rw [← getElem?_contents hbyteBuffer (by omega), List.getElem?_eq_getElem hreadable] at hsome
        exact (List.getElem?_eq_some_iff.mp hsome).1
      rw [loadBytes_eq byteBuffer.buffer (by omega), Option.some_inj]
      apply List.ext_getElem?
      intro i
      by_cases hi : i < byteBuffer.readableBytes
      · rw [List.getElem?_take_of_lt hi, List.getElem?_drop, getElem?_contents hbyteBuffer hi]
        exact hsame i hi
      · rw [List.getElem?_take_eq_none (Nat.le_of_not_lt hi), List.getElem?_eq_none (by omega)]

/-- The new bytes fit behind the writer index wherever `ensureWritable` has returned, unless the size
of the new array has wrapped. -/
theorem Valid.writer_add_le_iff (hb : b.Valid) (h : ensureWritable n b = .ok () b') :
    b'.writerIndex + n ≤ b'.capacity ↔ CanHold n b := by
  have h₁ := hb.reader_le
  have h₂ := hb.writer_le
  have hreadable := hb.readableBytes_eq
  have hwritable := hb.writableBytes_eq
  have hlength := hb.length_contents
  rw [CanHold]
  cases hb.makesRoom h with
  | already hroom hb' =>
      subst hb'
      omega
  | fresh hroom hzero htarget hadjust =>
      obtain ⟨-, -, hcapacity, hwriter⟩ := hb.of_adjustCapacity (roundUp_lt htarget) hadjust
      have hfit := le_roundUp n
      omega
  | discard hroom hzero hdiscard hmax hadjust =>
      obtain ⟨-, -, hcapacity, hwriter⟩ := hb.of_adjustCapacity hb.capacity_lt hadjust
      omega
  | grow hzero hroom hmax hadjust =>
      have hlt : roundUp (addSize b.writerIndex n) < 2 ^ 64 := by
        norm_num [kMaxCapacity] at hmax
        omega
      obtain ⟨-, -, hcapacity, hwriter⟩ := hb.of_adjustCapacity hlt hadjust
      by_cases hwrap : b.writerIndex + n < 2 ^ 64
      · have hfit := le_roundUp (addSize b.writerIndex n)
        rw [addSize_of_lt hwrap] at hfit hcapacity
        omega
      · have hlimit := hb.limit_lt_of_wrap hroom (Nat.le_of_not_lt hwrap)
        omega

/-- Where making room does not throw, the bytes that are appended are those of the other buffer exactly
where its array has the same bytes at both reader indices. -/
theorem appends_iff {b₁ : ByteBuffer β} (hb : Reachable b) (hbyteBuffer : Reachable byteBuffer)
    (hensure : ensureWritable byteBuffer.readableBytes b = .ok () b₁) :
    Appends byteBuffer b ↔ SameBytes byteBuffer b ∧ CanHold byteBuffer.readableBytes b := by
  have hvalid := hbyteBuffer.valid
  rw [← hvalid.loadBytes_eq_contents_iff, ← hb.valid.writer_add_le_iff hensure]
  constructor
  · rintro ⟨b', hwrite, hcontents⟩
    obtain ⟨data, hload, -, hdata, b₂, hensure', hroom⟩ := hb.valid.of_writeByteBuffer hwrite
    cases hensure.symm.trans hensure'
    obtain rfl : data = byteBuffer.contents := List.append_cancel_left (hdata.symm.trans hcontents)
    exact ⟨hload, hroom⟩
  · rintro ⟨hload, hroom⟩
    obtain ⟨hvalid₁, hcontents₁⟩ := hb.valid.of_ensureWritable hensure
    rw [hvalid.readableBytes_eq_length] at hroom
    obtain ⟨buffer, hstore, -, hcontents⟩ := append_spec hvalid₁ byteBuffer.contents hroom
    refine ⟨_, ?_, by rw [hcontents, hcontents₁]⟩
    have hlength := hvalid.readableBytes_eq_length
    simp [writeByteBuffer, bind_ok hensure, hload, hstore, ← hlength]

/-- The bytes `data`, written to a new array of four. -/
def written (data : List UInt8) : ByteBuffer UInt8 :=
  { buffer := some (data ++ makeArray (4 - data.length))
    readerIndex := 0
    writerIndex := data.length
    capacity := 4 }

/-- The first byte is read already. -/
def firstRead (data : List UInt8) : ByteBuffer UInt8 := { written data with readerIndex := 1 }

theorem reachable_written : Reachable (written [1, 2]) ∧ Reachable (written [3, 4, 5]) := by
  have hcapacity : Reachable (ofCapacity 4 : ByteBuffer UInt8) := .ofCapacity (by norm_num)
  have htwo : writeBytes [1, 2] (ofCapacity 4) = .ok () (written [1, 2]) := rfl
  have hthree : writeBytes [3, 4, 5] (ofCapacity 4) = .ok () (written [3, 4, 5]) := rfl
  exact ⟨.writeBytes hcapacity (by decide) htwo, .writeBytes hcapacity (by decide) hthree⟩

theorem reachable_firstRead : Reachable (firstRead [1, 2]) ∧ Reachable (firstRead [3, 4, 5]) := by
  have htwo : readBytes 1 (written [1, 2]) = .ok [1] (firstRead [1, 2]) := rfl
  have hthree : readBytes 1 (written [3, 4, 5]) = .ok [3] (firstRead [3, 4, 5]) := rfl
  exact ⟨.readBytes reachable_written.1 htwo, .readBytes reachable_written.2 hthree⟩

/-- Both reader indices are one. -/
theorem appends_iff_firstRead : Appends (firstRead [3, 4, 5]) (firstRead [1, 2]) := by
  have hensure : ensureWritable 2 (firstRead [1, 2]) = .ok () (firstRead [1, 2]) := rfl
  exact (appends_iff reachable_firstRead.1 reachable_firstRead.2 hensure).mpr
    ⟨sameBytes_of_eq rfl, .inl (by decide)⟩

/-- A fresh buffer of two bytes, written to one whose reader index is one: its second byte comes
first, and a byte that was never written comes after it. -/
theorem not_appends_fresh :
    Reachable (written [1, 2]) ∧ Reachable (firstRead [3, 4, 5]) ∧
      (∃ b', writeByteBuffer (written [1, 2]) (firstRead [3, 4, 5]) = .ok () b' ∧
        b'.contents = [4, 5, 2, 0]) ∧
      ¬Appends (written [1, 2]) (firstRead [3, 4, 5]) := by
  obtain ⟨b', hwrite, hcontents⟩ :
      ∃ b', writeByteBuffer (written [1, 2]) (firstRead [3, 4, 5]) = .ok () b' ∧
        b'.contents = [4, 5, 2, 0] := ⟨_, rfl, rfl⟩
  refine ⟨reachable_written.1, reachable_firstRead.2, ⟨b', hwrite, hcontents⟩, ?_⟩
  rintro ⟨other, hwritten, happended⟩
  cases hwrite.symm.trans hwritten
  rw [hcontents] at happended
  revert happended
  decide

end Nets.ByteBuffer
