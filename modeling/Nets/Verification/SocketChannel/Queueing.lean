import Nets.Program.WriteBuffer
import Nets.Verification.SocketChannel.WriteBuffer
import Nets.Verification.SocketChannel.Equations

/-! # The write list is a queue of bytes

The loop over the vector computes `removeSentBuffer`. Every call keeps the blocks non-empty and acts
on the bytes waiting as a queue does. -/

namespace Nets.Session

open Library

variable {β : Type}

/-! ## The loop over the vector -/

theorem erase_move {writeBuffer : List (ByteBuffer β)} {it : ℕ} (h : it < writeBuffer.length) :
    Vectors.erase ByteBuffer.move it writeBuffer = writeBuffer.eraseIdx it :=
  Vectors.erase_eq_eraseIdx (fun _ => rfl) h

/-- The loop erases at the front until a block is sent in part. -/
theorem removeSent_eq (writeBuffer : List (ByteBuffer β)) (writtenBytes : ℕ) :
    removeSent writeBuffer writtenBytes = some (removeSentBuffer writeBuffer writtenBytes) := by
  induction writeBuffer generalizing writtenBytes with
  | nil => rfl
  | cons b writeBuffer ih =>
      unfold removeSentBuffer
      by_cases hpos : 0 < writtenBytes
      · by_cases hall : b.readableBytes ≤ writtenBytes
        · have hround : removeSentRound ⟨b :: writeBuffer, 0, writtenBytes⟩ =
              .inl ⟨writeBuffer, 0, writtenBytes - b.readableBytes⟩ := by
            simp [removeSentRound, hpos, hall, erase_move]
          simp only [hpos, hall, if_true]
          rw [removeSent, List.length_cons, Nat.add_right_comm, Loop.run_succ_of_continue hround]
          exact ih (writtenBytes - b.readableBytes)
        · have hround : removeSentRound ⟨b :: writeBuffer, 0, writtenBytes⟩ =
              .inl ⟨b.setReaderIndex (addSize b.readerIndex writtenBytes) :: writeBuffer, 1, 0⟩ := by
            simp [removeSentRound, hpos, hall]
          have hleave : removeSentRound
              ⟨b.setReaderIndex (addSize b.readerIndex writtenBytes) :: writeBuffer, 1, 0⟩ =
              .inr (b.setReaderIndex (addSize b.readerIndex writtenBytes) :: writeBuffer) := by
            rw [removeSentRound]
            split <;> rfl
          simp only [hpos, hall, if_true, if_false]
          rw [removeSent, Loop.run_succ_of_continue hround, Loop.run_succ_of_leave hleave]
      · have hleave : removeSentRound ⟨b :: writeBuffer, 0, writtenBytes⟩ =
            .inr (b :: writeBuffer) := by
          simp [removeSentRound, hpos]
        simp only [hpos, if_false]
        rw [removeSent, Loop.run_succ_of_leave hleave]

/-- A round leaves no empty block, whatever block it stands at. -/
theorem Blocks.removeSentRound {r t : Removal β} (h : Blocks r.writeBuffer)
    (hround : Session.removeSentRound r = .inl t) : Blocks t.writeBuffer := by
  obtain ⟨writeBuffer, it, writtenBytes⟩ := r
  unfold Session.removeSentRound at hround
  split at hround
  · rename_i b hb
    obtain ⟨hit, hget⟩ := List.getElem?_eq_some_iff.mp hb
    have hmem : b ∈ writeBuffer := List.mem_of_getElem? hb
    split at hround
    · dsimp only at hround
      split at hround
      · obtain rfl := Sum.inl.inj hround
        intro c hc
        simp only [erase_move hit] at hc
        exact h c (List.mem_of_mem_eraseIdx hc)
      · rename_i hpart
        obtain rfl := Sum.inl.inj hround
        intro c hc
        obtain hold | rfl := List.mem_or_eq_of_mem_set hc
        · exact h c hold
        · have hlt : writtenBytes < b.contents.length := by
            rw [← (h b hmem).1.readableBytes_eq_length]
            exact Nat.lt_of_not_le hpart
          obtain ⟨hvalid, hcontents⟩ := setReaderIndex_spec (h b hmem).1 hlt
          refine ⟨hvalid, ?_⟩
          rw [hcontents]
          simpa using hlt
    · cases hround
  · cases hround

/-! ## Blocks and bytes -/

theorem Blocks.readableBytes_ne_zero {writeBuffer : List (ByteBuffer β)} (h : Blocks writeBuffer) :
    ∀ b ∈ writeBuffer, b.readableBytes ≠ 0 := by
  intro b hb
  obtain ⟨hvalid, hne⟩ := h b hb
  rw [hvalid.readableBytes_eq_length]
  exact mt List.length_eq_zero_iff.mp hne

theorem totalBytes_eq {writeBuffer : List (ByteBuffer β)} (h : Blocks writeBuffer) :
    totalBytes writeBuffer = (pending writeBuffer).length := sum_readableBytes h

/-! ## Appending -/

section

variable [Inhabited β]

/-- No object has more than `2 ^ 63` bytes. -/
theorem appendBlock_returns {data : List β} {writeBuffer : List (ByteBuffer β)}
    (hblocks : Blocks writeBuffer) (hsize : data.length ≤ 2 ^ 63) :
    ∃ writeBuffer', appendBlock data writeBuffer = .ok writeBuffer' := by
  obtain ⟨new, hnew, -, -⟩ := ByteBuffer.ofData_ok hsize
  unfold appendBlock
  split
  · rename_i last hlast
    split
    · rename_i hroom
      have hvalid := (hblocks last (List.mem_of_getLast? hlast)).1
      obtain ⟨b, hwrite, -, -⟩ := ByteBuffer.writeBytes_of_writable hvalid data hroom
      exact ⟨_, by rw [hwrite]⟩
    · exact ⟨_, by rw [hnew]; rfl⟩
  · exact ⟨_, by rw [hnew]; rfl⟩

theorem appendBuffer_returns {data : List β} {s : Session β} (epoll : Bool)
    (hblocks : Blocks s.writeBuffer) (hsize : data.length ≤ 2 ^ 63) :
    ∃ t, s.appendBuffer data epoll = some t := by
  obtain ⟨writeBuffer, happend⟩ := appendBlock_returns hblocks hsize
  exact ⟨_, by rw [appendBuffer, happend]⟩

/-! ## The queue -/

theorem appendBuffer_spec {data : List β} {epoll : Bool} {s t : Session β}
    (hblocks : Blocks s.writeBuffer) (hdata : data ≠ []) (h : s.appendBuffer data epoll = some t) :
    Blocks t.writeBuffer ∧ pending t.writeBuffer = pending s.writeBuffer ++ data :=
  appendBlock_spec hblocks hdata (appendBuffer_kept h).2

/-- What a call keeps. -/
theorem Blocks.step {s t : Session β} {call : Call β} (h : Blocks s.writeBuffer)
    (hstep : writeList.step s call = some t) : Blocks t.writeBuffer := by
  cases call with
  | appendBuffer data epoll =>
      simp only [writeList] at hstep
      split at hstep
      · cases hstep
      · rename_i hdata
        exact (appendBuffer_spec h (by simpa using hdata) hstep).1
  | removeSentBuffer writtenBytes =>
      simp only [writeList, removeSent_eq] at hstep
      split at hstep
      · rename_i hle
        obtain rfl := Option.some.inj hstep
        exact (removeSentBuffer_spec h (totalBytes_eq h ▸ hle)).1
      · cases hstep

theorem Blocks.of_reachable {s : Session β} (hs : writeList.Reachable s) : Blocks s.writeBuffer :=
  hs.invariant (fun _ hinit => hinit ▸ blocks_nil) fun _ _ _ h hstep => h.step hstep

/-- The write list is a queue of bytes in non-empty blocks. -/
theorem writeBuffer_queue {s : Session β} (hs : writeList.Reachable s) :
    (∀ b ∈ s.writeBuffer, b.readableBytes ≠ 0) ∧
    (∀ (data : List β) (epoll : Bool), data ≠ [] →
      (data.length ≤ 2 ^ 63 → ∃ t, s.appendBuffer data epoll = some t) ∧
        ∀ t, s.appendBuffer data epoll = some t →
          pending t.writeBuffer = pending s.writeBuffer ++ data) ∧
    ∀ writtenBytes ≤ totalBytes s.writeBuffer,
      (∀ r, Loop.Reaches removeSentRound ⟨s.writeBuffer, 0, writtenBytes⟩ r →
        ∀ b ∈ r.writeBuffer, b.readableBytes ≠ 0) ∧
      ∃ writeBuffer, removeSent s.writeBuffer writtenBytes = some writeBuffer ∧
        pending writeBuffer = (pending s.writeBuffer).drop writtenBytes := by
  have hblocks := Blocks.of_reachable hs
  refine ⟨hblocks.readableBytes_ne_zero, ?_, ?_⟩
  · intro data epoll hdata
    exact ⟨appendBuffer_returns epoll hblocks, fun t h => (appendBuffer_spec hblocks hdata h).2⟩
  · intro writtenBytes hle
    constructor
    · intro r hr
      exact Blocks.readableBytes_ne_zero (hr.invariant (I := fun r => Blocks r.writeBuffer)
        (fun _ _ h hround => h.removeSentRound hround) hblocks)
    · exact ⟨_, removeSent_eq _ _, (removeSentBuffer_spec hblocks (totalBytes_eq hblocks ▸ hle)).2⟩

end

/-- Three bytes were appended, and two of them are sent. -/
def partlySent : Session ℕ :=
  { fresh with
    writeBuffer := [⟨some [1, 2, 3, 0], 2, 3, 4⟩]
    events := kWriteEvent
    isRegistered := true
    inLoop := true
    interest := some kWriteEvent }

/-- A block sent in part takes one more byte. -/
theorem writeBuffer_queue_partlySent : writeList.Reachable partlySent ∧
    ∀ t, partlySent.appendBuffer [4] true = some t → pending t.writeBuffer = [3, 4] := by
  have hreachable : writeList.Reachable partlySent := by
    have hinit : writeList.Reachable { (fresh : Session ℕ) with inLoop := true } := .initial rfl
    have hrun : writeList.run { (fresh : Session ℕ) with inLoop := true }
        [.appendBuffer [1, 2, 3] true, .removeSentBuffer 2] = some partlySent := rfl
    exact hinit.run _ hrun
  obtain ⟨-, happend, -⟩ := writeBuffer_queue hreachable
  exact ⟨hreachable, (happend [4] true (List.cons_ne_nil 4 [])).2⟩

end Nets.Session
