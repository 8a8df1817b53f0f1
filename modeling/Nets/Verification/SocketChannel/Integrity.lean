import Nets.Verification.SocketChannel.Sending

/-! # Integrity of the output stream

What the kernel has accepted, followed by what is buffered, is what was written: in every run in
which no `writev` takes bytes behind a batch that was cut short. -/

namespace Nets.Session

open Library

/-! ## Runs that keep the output -/

section

variable {α β : Type} [Inhabited β] {label : ℕ → List α → List β}

/-- The application does not shut down the write side, does not revive a dead channel, and no
`writev` leaves a gap. -/
def KeepsOutput (s : Session β) : Action α β → Prop
  | .handleWriteEvent answers _ =>
    Contiguous (offers (s.writeBuffer.map ByteBuffer.contents)) answers
  | .shutdownRead => s.state ≠ .inactive
  | .shutdownWrite => False
  | _ => True

omit [Inhabited β] in
theorem KeepsOutput.orderly {s : Session β} {action : Action α β} (h : s.KeepsOutput action) :
    s.Orderly action ∧ action ≠ .shutdownWrite := by
  cases action with
  | handleWriteEvent answers epoll => exact ⟨h, by simp⟩
  | shutdownRead => exact ⟨h, by simp⟩
  | shutdownWrite => exact absurd h id
  | _ => exact ⟨trivial, by simp⟩

theorem intact_step {s t : Session β} {action : Action α β}
    (hs : s.Dead ∨ s.Live ∧ s.output.Intact) (hok : s.KeepsOutput action)
    (h : (system label).step s action = some t) : t.Dead ∨ t.Live ∧ t.output.Intact := by
  obtain ⟨horderly, hwrite⟩ := hok.orderly
  rcases hs with hdead | ⟨hlive, hintact⟩
  · exact .inl (dead_step hdead horderly h).1
  · rcases live_step hlive horderly hwrite h with ⟨hlive', hsteps⟩ | ⟨hdead, -⟩
    · exact .inr ⟨hlive', hintact.of_steps hsteps⟩
    · exact .inl hdead

/-- As long as the channel is not `INACTIVE`, the bytes accepted so far followed by the bytes
buffered are the messages written, in the order of the calls. -/
theorem accepted_append_pending {s : Session β}
    (hs : (system label).ReachableUnder KeepsOutput s) (hstate : s.state ≠ .inactive) :
    acceptedBytes s.log ++ pending s.writeBuffer = writtenBytes s.log := by
  have hinv : s.Dead ∨ s.Live ∧ s.output.Intact := by
    refine System.ReachableUnder.invariant ?_ (fun _ _ _ h hok => intact_step h hok) hs
    rintro s rfl
    exact .inr ⟨live_channelActive, rfl⟩
  rcases hinv with hdead | ⟨-, hintact⟩
  · exact absurd hdead.inactive hstate
  · exact hintact

end

/-- Bytes as they are. -/
def plain (_ : ℕ) (data : List UInt8) : List UInt8 := data

/-- Three bytes, of which the first is taken by the write call and the second by an event. -/
theorem accepted_append_pending_partial :
    ∃ s, (system plain).run fresh.channelActive [.handlerReturns,
        .write [1, 2, 3] false (.accepted 1) 0 true, .handleWriteEvent [.accepted 1] true] =
          some s ∧
      acceptedBytes s.log ++ pending s.writeBuffer = writtenBytes s.log := by
  obtain ⟨s, hrun⟩ : ∃ s, (system plain).run fresh.channelActive [.handlerReturns,
      .write [1, 2, 3] false (.accepted 1) 0 true, .handleWriteEvent [.accepted 1] true] =
        some s := ⟨_, rfl⟩
  have hstate : ((system plain).run fresh.channelActive [.handlerReturns,
      .write [1, 2, 3] false (.accepted 1) 0 true, .handleWriteEvent [.accepted 1] true]).map
        (fun s => s.state) = some .active := rfl
  rw [hrun] at hstate
  have hreachable : (system plain).ReachableUnder KeepsOutput s := by
    refine System.ReachableUnder.run _ (.initial rfl) ?_ hrun
    exact List.forall_mem_cons.mpr ⟨fun _ => trivial, List.forall_mem_cons.mpr ⟨fun _ => trivial,
      List.forall_mem_singleton.mpr fun _ => contiguous_singleton _ _⟩⟩
  refine ⟨s, hrun, accepted_append_pending hreachable ?_⟩
  have hactive : s.state = .active := Option.some.inj hstate
  rw [hactive]
  decide

/-! ## A gap

Messages of one byte fill blocks of one byte, so 513 of them take three batches. -/

/-- Answers of a kernel that is well but busy. -/
def Mild : Answer → Prop
  | .accepted _ => True
  | .failed errNum => errNum = EAGAIN ∨ errNum = EINTR

/-- Write calls and write events only. -/
def OnlyWrites (_ : Session UInt8) : Action UInt8 UInt8 → Prop
  | .write _ _ answer _ _ => Mild answer
  | .handleWriteEvent answers _ => ∀ answer ∈ answers, Mild answer
  | .handlerReturns => True
  | _ => False

/-- A full block of one byte. -/
def single (byte : UInt8) : ByteBuffer UInt8 := ⟨some [byte], 0, 1, 1⟩

theorem blocks_map_single (bytes : List UInt8) : Blocks (bytes.map single) := by
  intro b hb
  obtain ⟨byte, -, rfl⟩ := List.mem_map.mp hb
  exact ⟨⟨Nat.zero_le 1, Nat.le_refl 1, rfl, show 1 < 2 ^ 64 by decide⟩, List.cons_ne_nil _ _⟩

theorem appendBlock_single (writeBuffer : List (ByteBuffer UInt8)) (last byte : UInt8) :
    appendBlock [byte] (writeBuffer ++ [single last]) =
      .ok (writeBuffer ++ [single last] ++ [single byte]) := by
  have hnew : ByteBuffer.ofData [byte] = .ok (single byte) := rfl
  have hfull : ¬ [byte].length ≤ (single last).writableBytes := by
    change ¬ 1 ≤ subSize 1 1
    decide
  unfold appendBlock
  rw [List.getLast?_append]
  simp only [List.getLast?_singleton, Option.some_or, hfull, if_false, hnew]
  rfl

/-- Writing one byte behind a full block. -/
def writeByte (byte : UInt8) : Action UInt8 UInt8 := .write [byte] false (.failed EAGAIN) 0 true

/-- An idle session with full blocks of one byte each, none of them accepted. -/
structure Busy (bytes : List UInt8) (s : Session UInt8) : Prop where
  state : s.state = .active
  stack : s.stack = []
  blocks : s.writeBuffer = bytes.map single
  event : s.events &&& kWriteEvent ≠ 0
  accepted : acceptedBytes s.log = []
  written : writtenBytes s.log = bytes

theorem busy_writeByte {bytes : List UInt8} {s : Session UInt8} (hs : Busy bytes s)
    (hne : bytes ≠ []) (byte : UInt8) :
    ∃ t, (system plain).step s (writeByte byte) = some t ∧ Busy (bytes ++ [byte]) t := by
  have hnonempty : s.writeBuffer ≠ [] := by simpa [hs.blocks] using hne
  have happend : appendBlock [byte] s.writeBuffer = .ok (s.writeBuffer ++ [single byte]) := by
    obtain ⟨front, last, rfl⟩ := (List.eq_nil_or_concat bytes).resolve_left hne
    rw [hs.blocks, List.concat_eq_append, List.map_append]
    exact appendBlock_single _ _ _
  refine ⟨{ s with
      toSocketChannel.writeBuffer := s.writeBuffer ++ [single byte]
      toSocketChannel.writeCompleteCallbacks := s.writeCompleteCallbacks ++ [none]
      writes := s.writes + 1
      log := s.log ++ [.write [byte] none] }, ?_, hs.state, hs.stack, ?_, hs.event, ?_, ?_⟩
  · simp [system, act, writeByte, write, plain, doWrite, hs.state, hnonempty, appendBuffer,
      happend, hasWriteEvent, hs.event, pushCallback, resume, hs.stack, unwind]
  · simp [hs.blocks]
  · rw [acceptedBytes_append, hs.accepted]
    rfl
  · rw [writtenBytes_append, hs.written]
    rfl

theorem busy_writeBytes {bytes : List UInt8} {s : Session UInt8} (hs : Busy bytes s)
    (hne : bytes ≠ []) (more : List UInt8) :
    ∃ t, (system plain).run s (more.map writeByte) = some t ∧ Busy (bytes ++ more) t := by
  induction more generalizing bytes s with
  | nil => exact ⟨s, rfl, by rwa [List.append_nil]⟩
  | cons byte more ih =>
      obtain ⟨t, ht, hbusy⟩ := busy_writeByte hs hne byte
      obtain ⟨u, hu, hbusy'⟩ := ih hbusy (by simp)
      refine ⟨u, ?_, by simpa using hbusy'⟩
      rw [List.map_cons, System.run_cons, ht, Option.bind_some, hu]

/-- The first of the messages, written when the connect handler has returned. -/
theorem busy_first : ∃ s, (system plain).run fresh.channelActive [.handlerReturns, writeByte 0] =
    some s ∧ Busy [0] s :=
  ⟨_, rfl, rfl, rfl, rfl, by decide, rfl, rfl⟩

/-- The bytes of the 513 messages. -/
def stream : List UInt8 := List.replicate 512 0 ++ [1]

/-- The second batch is not taken at all, the third is. -/
def gap : List Answer := [.accepted 256, .accepted 0, .accepted 1]

/-- What the kernel takes: the first batch, and the byte behind the second. -/
def overtaken : List UInt8 := List.replicate 256 0 ++ [1]

theorem writev_gap : writev (stream.map fun byte => [byte]) gap =
    some (overtaken, .ok 257) := by
  decide +kernel

/-- Sending the stream with a gap accepts its last byte too early. -/
theorem busy_gap {s : Session UInt8} (hs : Busy stream s) :
    ∃ t, (system plain).step s (.handleWriteEvent gap true) = some t ∧ t.state ≠ .inactive ∧
      acceptedBytes t.log ++ pending t.writeBuffer ≠ writtenBytes t.log := by
  have hblocks : Blocks s.writeBuffer := hs.blocks ▸ blocks_map_single stream
  have hcontents : s.writeBuffer.map ByteBuffer.contents = stream.map fun byte => [byte] := by
    rw [hs.blocks, List.map_map]
    rfl
  have hpending : pending s.writeBuffer = stream := by
    rw [← flatten_contents, hcontents]
    decide +kernel
  have hlength : stream.length = 513 := by decide +kernel
  have htotal : (s.writeBuffer.map ByteBuffer.readableBytes).sum = 513 := by
    rw [sum_readableBytes hblocks, hpending, hlength]
  have hnonempty : s.writeBuffer ≠ [] := by
    intro hnil
    rw [hnil] at htotal
    cases htotal
  have hwritev : (s.writeBuffer.mapM iovec).bind (fun iovecs => writev iovecs gap) =
      some (overtaken, .ok 257) := by
    rw [mapM_iovec hblocks, Option.bind_some, hcontents, writev_gap]
  obtain ⟨-, hrest⟩ := removeSentBuffer_spec hblocks (n := 257) (by rw [hpending, hlength]; decide)
  refine ⟨{ s with
      toSocketChannel.writeBuffer := removeSentBuffer s.writeBuffer 257
      log := s.log ++ [.accepted overtaken] }, ?_, ?_, ?_⟩
  · obtain ⟨iovecs, hiovecs, hresult⟩ := Option.bind_eq_some_iff.mp hwritev
    simp [system, act, hs.stack, handleWriteEvent, hs.state, assertThat, hnonempty, hiovecs,
      hresult, htotal, finishWriteEvent, emit, resume, unwind]
  · rw [hs.state]
    decide
  · rw [acceptedBytes_append, hs.accepted, writtenBytes_append, hs.written, hrest, hpending]
    decide +kernel

/-- 513 messages of one byte and one write event: a byte is overtaken, and lost. -/
theorem not_accepted_append_pending :
    ¬ ∀ s, (system plain).ReachableUnder OnlyWrites s → s.state ≠ .inactive →
      acceptedBytes s.log ++ pending s.writeBuffer = writtenBytes s.log := by
  intro h
  obtain ⟨s, hfirst, hs⟩ := busy_first
  obtain ⟨t, hmore, ht⟩ := busy_writeBytes hs (by simp) (List.replicate 511 0 ++ [1])
  have hstream : [0] ++ (List.replicate 511 0 ++ [1]) = stream := rfl
  obtain ⟨u, hgap, hstate, hbroken⟩ := busy_gap (hstream ▸ ht)
  have hmild : ∀ byte v, OnlyWrites v (writeByte byte) := fun _ _ => .inl rfl
  have hs' : (system plain).ReachableUnder OnlyWrites s := by
    refine System.ReachableUnder.run _ (.initial rfl) ?_ hfirst
    exact List.forall_mem_cons.mpr
      ⟨fun _ => trivial, List.forall_mem_singleton.mpr (hmild 0)⟩
  have ht' : (system plain).ReachableUnder OnlyWrites t := by
    refine System.ReachableUnder.run _ hs' (fun action haction v => ?_) hmore
    obtain ⟨byte, -, rfl⟩ := List.mem_map.mp haction
    exact hmild byte v
  refine hbroken (h u (.step ht' ?_ hgap) hstate)
  simp [OnlyWrites, gap, Mild]

end Nets.Session
