import Nets.Program.SocketChannel
import Nets.Verification.ByteBuffer.Correctness

/-! # The blocks waiting to be sent

`writeBuffer_` is a byte queue kept in non-empty blocks. -/

namespace Nets.Session

open Library

variable {β : Type}

/-- Every block is a valid buffer with something left to send. -/
def Blocks (writeBuffer : List (ByteBuffer β)) : Prop :=
  ∀ b ∈ writeBuffer, b.Valid ∧ b.contents ≠ []

/-- The bytes waiting to be sent, in order. -/
def pending (writeBuffer : List (ByteBuffer β)) : List β := writeBuffer.flatMap ByteBuffer.contents

@[simp] theorem pending_nil : pending ([] : List (ByteBuffer β)) = [] := rfl

@[simp] theorem pending_cons (b : ByteBuffer β) (writeBuffer : List (ByteBuffer β)) :
    pending (b :: writeBuffer) = b.contents ++ pending writeBuffer := List.flatMap_cons

@[simp] theorem pending_append (xs ys : List (ByteBuffer β)) :
    pending (xs ++ ys) = pending xs ++ pending ys := List.flatMap_append

@[simp] theorem blocks_nil : Blocks ([] : List (ByteBuffer β)) := by simp [Blocks]

@[simp] theorem blocks_cons {b : ByteBuffer β} {writeBuffer : List (ByteBuffer β)} :
    Blocks (b :: writeBuffer) ↔ (b.Valid ∧ b.contents ≠ []) ∧ Blocks writeBuffer :=
  List.forall_mem_cons

@[simp] theorem blocks_append {xs ys : List (ByteBuffer β)} :
    Blocks (xs ++ ys) ↔ Blocks xs ∧ Blocks ys := List.forall_mem_append

theorem Blocks.pending_eq_nil {writeBuffer : List (ByteBuffer β)} (h : Blocks writeBuffer) :
    pending writeBuffer = [] ↔ writeBuffer = [] := by
  cases writeBuffer with
  | nil => simp
  | cons b writeBuffer =>
      have hb := (blocks_cons.mp h).1.2
      simp [hb]

/-! ## Appending -/

section

variable [Inhabited β]

theorem appendNew_spec {data : List β} {writeBuffer writeBuffer' : List (ByteBuffer β)}
    (hblocks : Blocks writeBuffer) (hdata : data ≠ [])
    (h : (ByteBuffer.ofData data).map (fun b => writeBuffer ++ [b]) = .ok writeBuffer') :
    Blocks writeBuffer' ∧ pending writeBuffer' = pending writeBuffer ++ data := by
  cases hofData : ByteBuffer.ofData data with
  | error fault =>
      rw [hofData] at h
      cases h
  | ok b =>
      rw [hofData] at h
      obtain rfl := Except.ok.inj h
      obtain ⟨hvalid, hcontents⟩ := ByteBuffer.ofData_spec hofData
      simp [hblocks, hvalid, hcontents, hdata]

/-- Appending to the last block or as a new one both add the bytes at the end. -/
theorem appendBlock_spec {data : List β} {writeBuffer writeBuffer' : List (ByteBuffer β)}
    (hblocks : Blocks writeBuffer) (hdata : data ≠ [])
    (h : appendBlock data writeBuffer = .ok writeBuffer') :
    Blocks writeBuffer' ∧ pending writeBuffer' = pending writeBuffer ++ data := by
  unfold appendBlock at h
  split at h
  · rename_i last hlast
    obtain ⟨front, rfl⟩ := List.getLast?_eq_some_iff.mp hlast
    split at h
    · rename_i hroom
      have hlive := blocks_append.mp hblocks
      obtain ⟨b, hwrite, hvalid, hcontents⟩ :=
        ByteBuffer.writeBytes_of_writable (blocks_cons.mp hlive.2).1.1 data hroom
      rw [hwrite, List.dropLast_concat] at h
      obtain rfl := Except.ok.inj h
      simp [hlive.1, hvalid, hcontents, hdata]
    · exact appendNew_spec hblocks hdata h
  · exact appendNew_spec hblocks hdata h

end

/-! ## Sending -/

theorem mapM_iovec {writeBuffer : List (ByteBuffer β)} (h : Blocks writeBuffer) :
    writeBuffer.mapM iovec = some (writeBuffer.map ByteBuffer.contents) := by
  induction writeBuffer with
  | nil => rfl
  | cons b writeBuffer ih =>
      obtain ⟨⟨hvalid, -⟩, hrest⟩ := blocks_cons.mp h
      have hload : iovec b = some b.contents := by
        rw [iovec, hvalid.readableBytes_eq_length, hvalid.load_contents le_rfl, List.take_length]
      simp [List.mapM_cons, hload, ih hrest]

theorem sum_readableBytes {writeBuffer : List (ByteBuffer β)} (h : Blocks writeBuffer) :
    (writeBuffer.map ByteBuffer.readableBytes).sum = (pending writeBuffer).length := by
  induction writeBuffer with
  | nil => rfl
  | cons b writeBuffer ih =>
      obtain ⟨⟨hvalid, -⟩, hrest⟩ := blocks_cons.mp h
      simp [hvalid.readableBytes_eq_length, ih hrest]

/-- A block sent in part. -/
theorem setReaderIndex_spec {b : ByteBuffer β} (hb : b.Valid) {n : ℕ}
    (hn : n < b.contents.length) :
    (b.setReaderIndex (addSize b.readerIndex n)).Valid ∧
      (b.setReaderIndex (addSize b.readerIndex n)).contents = b.contents.drop n := by
  have h₁ := hb.reader_le
  have h₂ := hb.writer_le
  have h₃ := hb.capacity_lt
  have hlength := hb.length_contents
  have hadd : addSize b.readerIndex n = b.readerIndex + n := addSize_of_lt (by omega)
  rw [hadd]
  refine ⟨⟨?_, h₂, hb.allocated, h₃⟩, ?_⟩
  · simp only [ByteBuffer.setReaderIndex]
    omega
  · simp only [ByteBuffer.contents, ByteBuffer.setReaderIndex, List.drop_take, List.drop_drop]
    congr 1
    omega

/-- Removing what was sent leaves the rest, still in non-empty blocks. -/
theorem removeSentBuffer_spec {writeBuffer : List (ByteBuffer β)} (h : Blocks writeBuffer)
    {n : ℕ} (hn : n ≤ (pending writeBuffer).length) :
    Blocks (removeSentBuffer writeBuffer n) ∧
      pending (removeSentBuffer writeBuffer n) = (pending writeBuffer).drop n := by
  induction writeBuffer generalizing n with
  | nil => simp [removeSentBuffer]
  | cons b writeBuffer ih =>
      obtain ⟨⟨hvalid, hne⟩, hrest⟩ := blocks_cons.mp h
      have hbytes := hvalid.readableBytes_eq_length
      rw [pending_cons, List.length_append] at hn
      unfold removeSentBuffer
      by_cases hpos : 0 < n
      · by_cases hall : b.readableBytes ≤ n
        · obtain ⟨hblocks, hpending⟩ := ih hrest (n := n - b.readableBytes) (by omega)
          simp only [hpos, hall, if_true]
          have hgone : b.contents.drop n = [] := List.drop_of_length_le (hbytes ▸ hall)
          exact ⟨hblocks, by rw [hpending, pending_cons, hbytes, List.drop_append, hgone,
            List.nil_append]⟩
        · have hlt : n < b.contents.length := by omega
          obtain ⟨hvalid', hcontents⟩ := setReaderIndex_spec hvalid hlt
          simp only [hpos, hall, if_true, if_false]
          refine ⟨blocks_cons.mpr ⟨⟨hvalid', ?_⟩, hrest⟩, ?_⟩
          · rw [hcontents]
            simpa using hlt
          · rw [pending_cons, hcontents, pending_cons, List.drop_append_of_le_length (by omega)]
      · obtain rfl : n = 0 := by omega
        simp [hvalid, hne, hrest]

end Nets.Session
