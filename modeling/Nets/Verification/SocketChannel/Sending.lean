import Nets.Verification.SocketChannel.Equations
import Nets.Verification.SocketChannel.Output
import Nets.Verification.SocketChannel.WriteBuffer
import Nets.Verification.SocketChannel.Writev

/-! # The channel implements the abstract output

A live channel does abstract steps, as long as no `writev` leaves a gap. Once it is `INACTIVE`
it stays so, and nothing more happens to the output. -/

namespace Nets.Session

open Library Relation

variable {α β : Type}

/-! ## The output of a session -/

def output (s : Session β) : Output β where
  pending := pending s.writeBuffer
  waiting := s.writeCompleteCallbacks.filterMap id
  log := s.log

structure Live (s : Session β) : Prop where
  alive : s.state ≠ .inactive
  blocks : Blocks s.writeBuffer
  settled : s.writeBuffer = [] → s.output.waiting = []
  handlers : ∀ frame ∈ s.stack, frame = .handler
  numbered : s.writes = (messages s.log).length

/-- A frame whose rest of a direct write has bytes left. -/
def Leaves : Frame β → Prop
  | .finishWrite remaining _ _ => remaining ≠ []
  | _ => True

structure Dead (s : Session β) : Prop where
  inactive : s.state = .inactive
  leaves : ∀ frame ∈ s.stack, Leaves frame

/-- `t` is live after abstract steps, or dead with a trace that abstract steps explain. -/
def Outcome (s t : Session β) : Prop :=
  (t.Live ∧ Output.Steps s.output t.output) ∨
    (t.Dead ∧ ∃ o, Output.Steps s.output o ∧ o.log = t.log)

theorem outcome_of_live {s t : Session β} (ht : t.Live) (h : Output.Steps s.output t.output) :
    Outcome s t := .inl ⟨ht, h⟩

/-- The trace of a channel that ends grows by notes only. -/
theorem outcome_of_dead {s t : Session β} {o : Output β} (events : List (Event β)) (ht : t.Dead)
    (h : Output.Steps s.output o)
    (hevents : ∀ event ∈ events, isNote event = true) (hlog : t.log = o.log ++ events) :
    Outcome s t :=
  .inr ⟨ht, { o with log := o.log ++ events }, h.trans (o.steps_notes hevents), hlog.symm⟩

theorem notes_disconnect : ∀ event ∈ [(.disconnect : Event β)], isNote event = true := by
  simp [isNote]

theorem Live.leaves {s : Session β} (h : s.Live) : ∀ frame ∈ s.stack, Leaves frame := by
  intro frame hframe
  rw [h.handlers frame hframe]
  trivial

theorem dead_channelInActive {s : Session β} (h : ∀ frame ∈ s.stack, Leaves frame) :
    s.channelInActive.Dead := by
  refine ⟨rfl, fun frame hframe => ?_⟩
  simp only [channelInActive, List.mem_cons] at hframe
  rcases hframe with rfl | rfl | hframe
  · trivial
  · trivial
  · exact h frame hframe

/-- A live channel whose trace grows by notes only. -/
theorem outcome_of_notes {s t : Session β} (events : List (Event β)) (hs : s.Live) (halive : t.state ≠ .inactive)
    (hwriteBuffer : t.writeBuffer = s.writeBuffer)
    (hcallbacks : t.writeCompleteCallbacks = s.writeCompleteCallbacks)
    (hstack : ∀ frame ∈ t.stack, frame = .handler) (hwrites : t.writes = s.writes)
    (hevents : ∀ event ∈ events, isNote event = true)
    (hlog : t.log = s.log ++ events) : Outcome s t := by
  have houtput : t.output = { s.output with log := s.output.log ++ events } := by
    simp only [output, hwriteBuffer, hcallbacks, hlog]
  refine outcome_of_live ⟨halive, hwriteBuffer ▸ hs.blocks, fun hnil => ?_, hstack, ?_⟩ ?_
  · rw [houtput]
    exact hs.settled (hwriteBuffer ▸ hnil)
  · rw [hwrites, hlog, messages_append, messages_notes hevents, List.append_nil, hs.numbered]
  · rw [houtput]
    exact s.output.steps_notes hevents

theorem Live.of_kept {s t : Session β} (hs : s.Live) (h : Kept s t)
    (hwriteBuffer : t.writeBuffer = s.writeBuffer) : t.Live ∧ t.output = s.output := by
  have houtput : t.output = s.output := by
    simp only [output, hwriteBuffer, h.writeCompleteCallbacks, h.log]
  refine ⟨⟨?_, hwriteBuffer ▸ hs.blocks, fun hnil => ?_, ?_, ?_⟩, houtput⟩
  · rw [h.state]
    exact hs.alive
  · rw [houtput]
    exact hs.settled (hwriteBuffer ▸ hnil)
  · rw [h.stack]
    exact hs.handlers
  · rw [h.writes, h.log, hs.numbered]

/-! ## Going back to application code -/

theorem unwind_handlers [Inhabited β] {stack : List (Frame β)} {s : Session β}
    (h : ∀ frame ∈ stack, frame = .handler) : unwind stack s = some { s with stack } := by
  cases stack with
  | nil => rfl
  | cons frame stack =>
      obtain rfl := h _ List.mem_cons_self
      rfl

/-- Unwinding a dead channel queues its deregister tasks and may grow its blocks. -/
theorem dead_unwind [Inhabited β] {stack : List (Frame β)} {s t : Session β}
    (hstate : s.state = .inactive) (hleaves : ∀ frame ∈ stack, Leaves frame)
    (h : unwind stack s = some t) :
    t.Dead ∧ ∃ events, (∀ event ∈ events, isNote event = true) ∧ t.log = s.log ++ events := by
  induction stack generalizing s with
  | nil =>
      obtain rfl := Option.some.inj h
      exact ⟨⟨hstate, by simp⟩, [], by simp, by simp⟩
  | cons frame stack ih =>
      obtain ⟨hframe, hstack⟩ := List.forall_mem_cons.mp hleaves
      cases frame with
      | handler =>
          obtain rfl := Option.some.inj h
          exact ⟨⟨hstate, hleaves⟩, [], by simp, by simp⟩
      | deregister =>
          obtain ⟨hdead, events, hevents, hlog⟩ :=
            ih (s := s.addTask .deregister) hstate hstack h
          refine ⟨hdead, .addTask .deregister :: events,
            List.forall_mem_cons.mpr ⟨rfl, hevents⟩, ?_⟩
          rw [hlog, addTask, List.append_assoc, List.singleton_append]
      | finishWrite remaining callback epoll =>
          obtain ⟨u, hu, hrest⟩ := Option.bind_eq_some_iff.mp h
          rcases finishWrite_eq hu with ⟨hnil, -⟩ | ⟨-, v, hv, rfl⟩
          · exact absurd hnil hframe
          · obtain ⟨hkept, -⟩ := appendBuffer_kept hv
            have hlog : (v.pushCallback callback).log = s.log := hkept.log
            rw [← hlog]
            exact ih (hkept.state.trans hstate) hstack hrest

theorem outcome_resume [Inhabited β] {s t u : Session β} (h : Outcome s u)
    (hresume : u.resume = some t) : Outcome s t := by
  rcases h with ⟨hlive, hsteps⟩ | ⟨hdead, o, hsteps, hlog⟩
  · rw [resume, unwind_handlers hlive.handlers] at hresume
    obtain rfl := Option.some.inj hresume
    exact .inl ⟨hlive, hsteps⟩
  · obtain ⟨hdead', events, hevents, hlog'⟩ := dead_unwind hdead.inactive hdead.leaves hresume
    exact outcome_of_dead _ hdead' hsteps hevents (by rw [hlog', hlog])

/-! ## Writing -/

section

variable [Inhabited β]

/-- Appended bytes stay pending and their callback waits. -/
theorem live_append {remaining : List β} (callback : Option ℕ) {epoll : Bool} {s t : Session β}
    {log : List (Event β)} (hs : s.Live) (hremaining : remaining ≠ [])
    (hlog : (messages log).length = (messages s.log).length + 1)
    (h : { s with writes := s.writes + 1, log }.appendBuffer remaining epoll = some t) :
    (t.pushCallback callback).Live ∧ (t.pushCallback callback).output =
      { pending := pending s.writeBuffer ++ remaining
        waiting := s.output.waiting ++ callback.toList
        log } := by
  obtain ⟨hkept, happend⟩ := appendBuffer_kept h
  obtain ⟨hblocks, hpending⟩ := appendBlock_spec hs.blocks hremaining happend
  have hlog' : t.log = log := hkept.log
  refine ⟨⟨?_, hblocks, fun hnil => ?_, ?_, ?_⟩, ?_⟩
  · exact fun hstate => hs.alive (hkept.state.symm.trans hstate)
  · have hempty := hblocks.pending_eq_nil.mpr hnil
    rw [hpending] at hempty
    exact absurd (List.append_eq_nil_iff.mp hempty).2 hremaining
  · exact fun frame hframe => hs.handlers frame (hkept.stack ▸ hframe)
  · change t.writes = (messages t.log).length
    rw [hlog', hlog, ← hs.numbered]
    exact hkept.writes
  · simp only [output, pushCallback, hpending, hkept.writeCompleteCallbacks, hlog',
      List.filterMap_append]
    cases callback <;> rfl

/-- The end of a direct write: what is left stays pending and its callback waits, and when
nothing is left the callback is queued. -/
theorem live_finishWrite {remaining : List β} {callback : Option ℕ} {epoll : Bool}
    {s t : Session β} {log : List (Event β)} (hs : s.Live) (hempty : s.writeBuffer = [])
    (hlog : (messages log).length = (messages s.log).length + 1)
    (h : { s with writes := s.writes + 1, log }.finishWrite remaining callback epoll = some t) :
    t.Live ∧
      Output.Steps { pending := remaining, waiting := callback.toList, log } t.output := by
  rcases finishWrite_eq h with ⟨rfl, rfl⟩ | ⟨hremaining, u, hu, rfl⟩
  · have htasks : messages ((callbackTasks [callback]).map (Event.addTask (β := β))) = [] := by
      cases callback <;> rfl
    rw [queueCallbacks_eq]
    refine ⟨⟨hs.alive, hs.blocks, hs.settled, hs.handlers, ?_⟩, ?_⟩
    · change s.writes + 1 = (messages (log ++ _)).length
      rw [messages_append, htasks, List.append_nil, hlog, hs.numbered]
    · have hsteps := Output.steps_complete callback.toList log
      have hwaiting : s.writeCompleteCallbacks.filterMap id = [] := hs.settled hempty
      have htoList : ([callback].filterMap id) = callback.toList := by cases callback <;> rfl
      simpa only [output, hempty, pending_nil, hwaiting, callbackTasks_eq, htoList]
        using hsteps
  · obtain ⟨hlive, houtput⟩ := live_append callback hs hremaining hlog hu
    refine ⟨hlive, ?_⟩
    rw [houtput, hempty, hs.settled hempty]
    exact .refl

/-- A direct write: the message is submitted, and the kernel takes what it accepts of it. -/
theorem outcome_doWriteDirectly {data : List β} {callback : Option ℕ} {answer : Answer}
    {before : β} {epoll : Bool} {s t : Session β} (hs : s.Live) (hempty : s.writeBuffer = [])
    (hcallback : callback = none ∨ callback = some (messages s.log).length)
    (h : { s with writes := s.writes + 1, log := s.log ++ [Event.write data callback]
      }.doWriteDirectly data callback answer before epoll = some t) : Outcome s t := by
  have hsubmit : Output.Steps s.output
      { pending := data, waiting := callback.toList, log := s.log ++ [.write data callback] } := by
    have hstep := Output.Step.submit (o := s.output) data hcallback
    rw [hs.settled hempty, List.nil_append] at hstep
    refine .single ?_
    simpa [output, hempty] using hstep
  have hsubmitted : (messages (s.log ++ [.write data callback])).length =
      (messages s.log).length + 1 := by simp
  cases answer with
  | accepted bytes =>
      simp only [doWriteDirectly, emit] at h
      obtain ⟨hlive, hsteps⟩ := live_finishWrite hs hempty
        (by rw [messages_append, messages_accepted, List.append_nil, hsubmitted]) h
      have haccept : Output.Step
          { pending := data, waiting := callback.toList, log := s.log ++ [.write data callback] }
          { pending := data.drop bytes, waiting := callback.toList,
            log := s.log ++ [.write data callback] ++ [.accepted (data.take bytes)] } :=
        .accept (List.take_append_drop bytes data).symm
      exact outcome_of_live hlive ((hsubmit.tail haccept).trans hsteps)
  | failed errNum =>
      simp only [doWriteDirectly] at h
      split at h
      · obtain ⟨hlive, hsteps⟩ := live_finishWrite hs hempty hsubmitted h
        exact outcome_of_live hlive (hsubmit.trans hsteps)
      · rename_i hfatal
        obtain rfl := Option.some.inj h
        rw [handleWriteError, if_neg hfatal]
        refine outcome_of_dead _ ?_ hsubmit notes_disconnect rfl
        refine dead_channelInActive fun frame hframe => ?_
        rcases List.mem_cons.mp hframe with rfl | hframe
        · exact List.cons_ne_nil _ _
        · exact hs.leaves frame hframe

theorem outcome_write {label : ℕ → List α → List β} {data : List α} {callback : Bool}
    {answer : Answer} {before : β} {epoll : Bool} {s t : Session β} (hs : s.Live)
    (h : s.write label data callback answer before epoll = some t) : Outcome s t := by
  have hcallback : (if callback then some s.writes else none) = none ∨
      (if callback then some s.writes else none) = some (messages s.log).length := by
    rw [hs.numbered]
    cases callback
    · exact .inl rfl
    · exact .inr rfl
  unfold write at h
  simp only at h
  generalize (if callback then some s.writes else none) = callback at h hcallback
  generalize label s.writes data = data at h
  unfold doWrite at h
  rw [if_neg hs.alive] at h
  split at h
  · rename_i hnil
    obtain rfl := Option.some.inj h
    obtain rfl := List.isEmpty_iff.mp hnil
    refine outcome_of_live ⟨hs.alive, hs.blocks, hs.settled, hs.handlers, ?_⟩
      (.single (.ignore callback))
    simp [hs.numbered]
  rename_i hdata
  have hne : data ≠ [] := fun hnil => hdata (List.isEmpty_iff.mpr hnil)
  split at h
  · rename_i hempty
    exact outcome_doWriteDirectly hs (List.isEmpty_iff.mp hempty) hcallback h
  · obtain ⟨u, hu, rfl⟩ := Option.map_eq_some_iff.mp h
    obtain ⟨hlive, houtput⟩ := live_append callback hs hne (by simp) hu
    refine outcome_of_live hlive ?_
    rw [houtput]
    exact .single (.submit data hcallback)

end

/-! ## The events of the loop -/

theorem dead_of_live {s t : Session β} (hs : s.Live) (h : t.stack = s.stack) :
    t.channelInActive.Dead := by
  refine dead_channelInActive fun frame hframe => ?_
  rw [h] at hframe
  exact hs.leaves frame hframe

theorem flatten_contents (writeBuffer : List (ByteBuffer β)) :
    (writeBuffer.map ByteBuffer.contents).flatten = pending writeBuffer :=
  (List.flatMap_def ..).symm

/-- Everything was taken: nothing is pending, and all callbacks that waited are queued. -/
theorem live_drain {s : Session β} (hs : s.Live) :
    (s.emit (.accepted (pending s.writeBuffer))).drain.Live ∧
      Output.Steps s.output (s.emit (.accepted (pending s.writeBuffer))).drain.output := by
  rw [drain, queueCallbacks_eq]
  refine ⟨⟨hs.alive, blocks_nil, fun _ => rfl, hs.handlers, ?_⟩, ?_⟩
  · change s.writes = (messages (s.log ++ [.accepted _] ++ _)).length
    rw [messages_append, messages_append, messages_accepted, messages_tasks, List.append_nil,
      List.append_nil, hs.numbered]
  · have haccept : Output.Step s.output
        { s.output with pending := [], log := s.log ++ [.accepted (pending s.writeBuffer)] } :=
      .accept (List.append_nil _).symm
    have hsteps := ReflTransGen.head haccept (Output.steps_complete s.output.waiting _)
    simpa only [output, emit, callbackTasks_eq, pending_nil, List.filterMap_nil] using hsteps

/-- After `writev` took the first `m` bytes and reported so. -/
theorem outcome_finishWriteEvent {m totalBytes : ℕ} {result : Except ℕ ℕ} (epoll : Bool)
    {s : Session β} (hs : s.Live) (hm : m ≤ (pending s.writeBuffer).length)
    (htotal : totalBytes = (pending s.writeBuffer).length)
    (hok : ∀ n, result = .ok n → n = m)
    (herror : ∀ errNum, result = .error errNum → ¬ (errNum = EAGAIN ∨ errNum = EINTR)) :
    Outcome s ((s.emit (.accepted ((pending s.writeBuffer).take m))).finishWriteEvent
      totalBytes result epoll) := by
  have haccept : Output.Steps s.output
      { s.output with
        pending := (pending s.writeBuffer).drop m
        log := s.log ++ [.accepted ((pending s.writeBuffer).take m)] } :=
    .single (.accept (List.take_append_drop m _).symm)
  have hnumbered : s.writes =
      (messages (s.log ++ [.accepted ((pending s.writeBuffer).take m)])).length := by
    rw [messages_append, messages_accepted, List.append_nil, hs.numbered]
  cases result with
  | error errNum =>
      rw [finishWriteEvent, handleWriteError, if_neg (herror errNum rfl)]
      exact outcome_of_dead _ (dead_of_live hs rfl) haccept notes_disconnect rfl
  | ok n =>
      obtain rfl := hok n rfl
      unfold finishWriteEvent
      by_cases hall : totalBytes = n
      · have htake : (pending s.writeBuffer).take n = pending s.writeBuffer :=
          List.take_of_length_le (by omega)
        obtain ⟨hlive, hsteps⟩ := live_drain hs
        simp only [hall, if_true, htake]
        generalize (s.emit (.accepted (pending s.writeBuffer))).drain = u at hlive hsteps ⊢
        split
        · exact outcome_of_dead _ (dead_of_live hlive rfl) hsteps notes_disconnect rfl
        · obtain ⟨hkept, hblocks⟩ := modify_kept epoll (u.setEvents kReadEvent)
          obtain ⟨hlive', houtput⟩ := hlive.of_kept (t := (u.setEvents kReadEvent).modify epoll)
            ⟨hkept.state, hkept.writeCompleteCallbacks, hkept.pendingTasks, hkept.stack,
              hkept.writes, hkept.log⟩ hblocks
          exact outcome_of_live hlive' (houtput ▸ hsteps)
      · simp only [hall, if_false]
        obtain ⟨hblocks, hpending⟩ := removeSentBuffer_spec hs.blocks hm
        refine outcome_of_live ⟨hs.alive, hblocks, fun hnil => ?_, hs.handlers, hnumbered⟩ ?_
        · have hempty := hblocks.pending_eq_nil.mpr hnil
          rw [hpending, List.drop_eq_nil_iff] at hempty
          omega
        · simpa only [output, emit, hpending] using haccept

theorem outcome_handleWriteEvent {answers : List Answer} {epoll : Bool} {s t : Session β}
    (hs : s.Live)
    (hok : Contiguous (offers (s.writeBuffer.map ByteBuffer.contents)) answers)
    (h : s.handleWriteEvent answers epoll = some t) : Outcome s t := by
  unfold handleWriteEvent at h
  rw [if_neg hs.alive] at h
  obtain ⟨hkept, hwriteBuffer⟩ :=
    assertThat_kept .handleWriteEvent (!s.writeBuffer.isEmpty) s
  obtain ⟨hlive, houtput⟩ := hs.of_kept hkept hwriteBuffer
  simp only at h
  generalize s.assertThat .handleWriteEvent (!s.writeBuffer.isEmpty) = u
    at h hwriteBuffer hlive houtput
  rw [mapM_iovec hlive.blocks, Option.bind_some] at h
  obtain ⟨⟨sent, result⟩, hwritev, rfl⟩ := Option.map_eq_some_iff.mp h
  obtain ⟨m, hm, rfl, hresult⟩ := writev_spec (hwriteBuffer ▸ hok) hwritev
  rw [flatten_contents] at hm ⊢
  have houtcome := outcome_finishWriteEvent epoll hlive hm
    (sum_readableBytes hlive.blocks) hresult
    fun errNum he => writev_error (he ▸ hwritev)
  rwa [Outcome, houtput] at houtcome

theorem notes_shutdown (how : How) :
    ∀ event ∈ [(.shutdown how : Event β)], isNote event = true := by
  simp [isNote]

theorem outcome_channelInActive {s : Session β} (hs : s.Live) : Outcome s s.channelInActive :=
  outcome_of_dead _ (dead_of_live hs rfl) .refl notes_disconnect rfl

/-- Shutting down both directions drops what is pending, of a channel that then is `INACTIVE`. -/
theorem outcome_shutdown {s : Session β} (hs : s.Live) : Outcome s s.shutdown := by
  refine outcome_of_dead [.shutdown .rdwr, .disconnect] (dead_of_live hs rfl) .refl
    (by simp [isNote]) ?_
  simp [shutdown, shutdownHow, channelInActive, emit, output]

theorem outcome_shutdownRead {s : Session β} (hs : s.Live) : Outcome s s.shutdownRead :=
  outcome_of_notes _ hs (by simp [shutdownRead]) rfl rfl hs.handlers rfl (notes_shutdown .rd) rfl

theorem outcome_handleReadEvent [Inhabited β] {answers : List (ReadAnswer β)} {epoll : Bool}
    {s t : Session β} (hs : s.Live) (h : s.handleReadEvent answers epoll = some t) :
    Outcome s t := by
  unfold handleReadEvent at h
  rw [if_neg hs.alive] at h
  split at h
  · cases h
  · obtain rfl := Option.some.inj h
    unfold handleReadError
    split
    · exact outcome_of_live hs .refl
    · exact outcome_channelInActive hs
  · rename_i byteBuffer _
    split at h
    · obtain rfl := Option.some.inj h
      refine outcome_of_notes [.read byteBuffer] hs hs.alive rfl rfl ?_ rfl
        (by simp [isNote]) rfl
      exact List.forall_mem_cons.mpr ⟨rfl, hs.handlers⟩
    split at h
    · obtain rfl := Option.some.inj h
      exact outcome_shutdown hs
    · obtain rfl := Option.some.inj h
      obtain ⟨hkept, hblocks⟩ := modify_kept epoll (s.shutdownRead.setEvents kWriteEvent)
      refine outcome_of_notes _ hs ?_ hblocks hkept.writeCompleteCallbacks ?_ hkept.writes
        (notes_shutdown .rd) hkept.log
      · rw [hkept.state]
        simp [setEvents, shutdownRead]
      · rw [hkept.stack]
        exact hs.handlers

theorem outcome_runTask {epoll : Bool} {s t : Session β} (hs : s.Live)
    (h : s.runTask epoll = some t) : Outcome s t := by
  unfold runTask at h
  split at h
  · cases h
  · obtain rfl := Option.some.inj h
    refine outcome_of_notes [] hs hs.alive rfl rfl ?_ rfl (by simp)
      (List.append_nil _).symm
    exact List.forall_mem_cons.mpr ⟨rfl, hs.handlers⟩
  · rename_i pendingTasks _
    obtain rfl := Option.some.inj h
    obtain ⟨hkept, hblocks⟩ :=
      assertThat_kept .deregisterChannel s.inLoop { s with pendingTasks }
    refine outcome_of_notes [] hs ?_ hblocks hkept.writeCompleteCallbacks ?_
      hkept.writes (by simp) (hkept.log.trans (List.append_nil _).symm)
    · exact fun hstate => hs.alive (hkept.state.symm.trans hstate)
    · exact fun frame hframe => hs.handlers frame (hkept.stack ▸ hframe)

/-! ## Steps -/

section

variable [Inhabited β] {label : ℕ → List α → List β}

/-- The calls under which the channel implements the abstract output: no `writev` leaves a gap,
`shutdownWrite` drops no message whose callback waits, and a dead channel is not revived. -/
def Orderly (s : Session β) : Action α β → Prop
  | .handleWriteEvent answers _ =>
    Contiguous (offers (s.writeBuffer.map ByteBuffer.contents)) answers
  | .shutdownRead => s.state ≠ .inactive
  | .shutdownWrite => s.state ≠ .inactive ∧ s.writeCompleteCallbacks.filterMap id = []
  | _ => True

omit [Inhabited β] in
/-- Shutting down the write side drops what is pending. -/
theorem live_shutdownWrite {s : Session β} (hs : s.Live)
    (hwaiting : s.writeCompleteCallbacks.filterMap id = []) :
    s.shutdownWrite.Live ∧ s.shutdownWrite.output =
      { s.output with pending := [], log := s.log ++ [.shutdown .wr] } := by
  refine ⟨⟨by simp [shutdownWrite], blocks_nil, fun _ => hwaiting, hs.handlers, ?_⟩, rfl⟩
  change s.writes = (messages (s.log ++ [.shutdown .wr])).length
  rw [messages_append, messages_note rfl, List.append_nil, hs.numbered]

theorem live_act {s u : Session β} {action : Action α β} (hs : s.Live)
    (hok : s.Orderly action) (hwrite : action ≠ .shutdownWrite)
    (h : s.act label action = some u) : Outcome s u := by
  cases action with
  | write data callback answer before epoll => exact outcome_write hs h
  | shutdown =>
      obtain rfl := Option.some.inj h
      exact outcome_shutdown hs
  | shutdownRead =>
      obtain rfl := Option.some.inj h
      exact outcome_shutdownRead hs
  | shutdownWrite => exact absurd rfl hwrite
  | handlerReturns =>
      simp only [act] at h
      split at h
      · rename_i stack hstack
        obtain rfl := Option.some.inj h
        refine outcome_of_notes [] hs hs.alive rfl rfl ?_ rfl (by simp)
          (List.append_nil _).symm
        have hhandlers := hs.handlers
        rw [hstack] at hhandlers
        exact (List.forall_mem_cons.mp hhandlers).2
      · cases h
  | handleReadEvent answers epoll =>
      simp only [act] at h
      split at h
      · exact outcome_handleReadEvent hs h
      · cases h
  | handleWriteEvent answers epoll =>
      simp only [act] at h
      split at h
      · exact outcome_handleWriteEvent hs hok h
      · cases h
  | handleErrorEvent =>
      simp only [act] at h
      split at h
      · obtain rfl := Option.some.inj h
        rw [handleErrorEvent, if_neg hs.alive]
        exact outcome_channelInActive hs
      · cases h
  | runTask epoll =>
      simp only [act] at h
      split at h
      · exact outcome_runTask hs h
      · cases h

theorem live_step {s t : Session β} {action : Action α β} (hs : s.Live)
    (hok : s.Orderly action) (hwrite : action ≠ .shutdownWrite)
    (h : (system label).step s action = some t) : Outcome s t := by
  obtain ⟨u, hact, hresume⟩ := Option.bind_eq_some_iff.mp h
  exact outcome_resume (live_act hs hok hwrite hact) hresume

/-- What a dead channel does: it stays dead, and no callback is queued. -/
def StaysDead (s t : Session β) : Prop :=
  t.Dead ∧ ∃ events, queuedCallbacks events = [] ∧ t.log = s.log ++ events

omit [Inhabited β] in
theorem Dead.stays {s : Session β} (hs : s.Dead) : StaysDead s s :=
  ⟨hs, [], rfl, (List.append_nil _).symm⟩

theorem dead_act {s u : Session β} {action : Action α β} (hs : s.Dead)
    (hok : s.Orderly action) (h : s.act label action = some u) : StaysDead s u := by
  cases action with
  | write data callback answer before epoll =>
      simp only [act, write, doWrite, hs.inactive, if_true, Option.some.injEq] at h
      subst h
      exact ⟨⟨hs.inactive, hs.leaves⟩, _, rfl, rfl⟩
  | shutdown =>
      obtain rfl := Option.some.inj h
      refine ⟨dead_channelInActive hs.leaves, [.shutdown .rdwr, .disconnect], rfl, ?_⟩
      simp [shutdown, shutdownHow, channelInActive, emit]
  | shutdownRead => exact absurd hs.inactive hok
  | shutdownWrite => exact absurd hs.inactive hok.1
  | handlerReturns =>
      simp only [act] at h
      split at h
      · rename_i stack hstack
        obtain rfl := Option.some.inj h
        have hleaves := hs.leaves
        rw [hstack] at hleaves
        exact ⟨⟨hs.inactive, (List.forall_mem_cons.mp hleaves).2⟩, [], rfl,
          (List.append_nil _).symm⟩
      · cases h
  | handleReadEvent answers epoll =>
      simp only [act, handleReadEvent, hs.inactive, if_true] at h
      split at h
      · obtain rfl := Option.some.inj h
        exact hs.stays
      · cases h
  | handleWriteEvent answers epoll =>
      simp only [act, handleWriteEvent, hs.inactive, if_true] at h
      split at h
      · obtain rfl := Option.some.inj h
        exact hs.stays
      · cases h
  | handleErrorEvent =>
      simp only [act, handleErrorEvent, hs.inactive, if_true] at h
      split at h
      · obtain rfl := Option.some.inj h
        exact hs.stays
      · cases h
  | runTask epoll =>
      simp only [act] at h
      split at h
      · unfold runTask at h
        split at h
        · cases h
        · obtain rfl := Option.some.inj h
          exact ⟨⟨hs.inactive, List.forall_mem_cons.mpr ⟨trivial, hs.leaves⟩⟩, [], rfl,
            (List.append_nil _).symm⟩
        · rename_i pendingTasks _
          obtain rfl := Option.some.inj h
          obtain ⟨hkept, -⟩ :=
            assertThat_kept .deregisterChannel s.inLoop { s with pendingTasks }
          refine ⟨⟨hkept.state.trans hs.inactive, fun frame hframe => ?_⟩, [], rfl,
            hkept.log.trans (List.append_nil _).symm⟩
          exact hs.leaves frame (hkept.stack ▸ hframe)
      · cases h

theorem dead_step {s t : Session β} {action : Action α β} (hs : s.Dead)
    (hok : s.Orderly action) (h : (system label).step s action = some t) : StaysDead s t := by
  obtain ⟨u, hact, hresume⟩ := Option.bind_eq_some_iff.mp h
  obtain ⟨hdead, events, hevents, hlog⟩ := dead_act hs hok hact
  obtain ⟨hdead', notes, hnotes, hlog'⟩ := dead_unwind hdead.inactive hdead.leaves hresume
  refine ⟨hdead', events ++ notes, ?_, by rw [hlog', hlog, List.append_assoc]⟩
  rw [queuedCallbacks_append, hevents, queuedCallbacks_notes hnotes, List.append_nil]

end

theorem live_channelActive : (fresh.channelActive : Session β).Live := by
  refine ⟨by simp [channelActive], blocks_nil, fun _ => rfl, ?_, rfl⟩
  exact List.forall_mem_cons.mpr ⟨rfl, fun frame hframe => absurd hframe List.not_mem_nil⟩

end Nets.Session
