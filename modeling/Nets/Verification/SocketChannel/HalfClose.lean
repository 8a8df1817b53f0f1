import Nets.Verification.SocketChannel.Draining

/-! # Half-close by the application

After `shutdownWrite` the channel goes on reading as long as the application writes nothing, no
write event is handled, and every read event finds data. -/

namespace Nets.Session

open Library

variable {α β : Type} {s t : Session β}

/-! ## Active channels -/

/-- The loop holds the channel and the kernel watches it for reading. -/
structure Watching (s : Session β) : Prop where
  inLoop : s.inLoop = true
  events : s.events &&& kReadEvent ≠ 0
  interest : ∃ mask, s.interest = some mask ∧ mask &&& kReadEvent ≠ 0

theorem Watching.addEvent (hs : s.Watching) (event : ℕ) : (s.addEvent event).Watching := by
  refine ⟨hs.inLoop, ?_, hs.interest⟩
  have hevents := hs.events
  simp only [Session.addEvent, Nat.and_or_distrib_right, ne_eq, Nat.or_eq_zero_iff, not_and]
  exact fun hzero => absurd hzero hevents

theorem Watching.modify (hs : s.Watching) (epoll : Bool) : (s.modify epoll).Watching := by
  have hsome : s.events ≠ kNoneEvent := by
    intro hnone
    have hevents := hs.events
    simp [hnone, kNoneEvent] at hevents
  obtain ⟨hevents, hinLoop, hinterest⟩ := modify_registration epoll hsome
  refine ⟨hinLoop.trans hs.inLoop, hevents ▸ hs.events, ?_⟩
  rw [hinterest]
  split
  · exact ⟨s.events, rfl, hs.events⟩
  · exact hs.interest

theorem watching_channelActive : (fresh.channelActive : Session β).Watching := by
  refine ⟨rfl, ?_, kReadEvent, ?_, by decide⟩
  · simp [channelActive, epollAdd, fresh, Session.addEvent, kNoneEvent, kReadEvent]
  · simp [channelActive, epollAdd, fresh, Session.addEvent, kNoneEvent, kReadEvent]

/-- What holds of a channel as long as it is `ACTIVE`: it has not ended before. -/
structure Open (s : Session β) : Prop where
  active : s.state = .active
  handlers : ∀ frame ∈ s.stack, frame = .handler
  tasks : .deregister ∉ s.pendingTasks
  watching : s.Watching

theorem Open.same (hs : s.Open) (hstate : t.state = s.state)
    (hhandlers : ∀ frame ∈ t.stack, frame = .handler) (htasks : .deregister ∉ t.pendingTasks)
    (hinLoop : t.inLoop = s.inLoop) (hevents : t.events = s.events)
    (hinterest : t.interest = s.interest) : t.Open :=
  ⟨hstate.trans hs.active, hhandlers, htasks,
    hinLoop.trans hs.watching.inLoop, hevents ▸ hs.watching.events, hinterest ▸ hs.watching.interest⟩

theorem Open.modify (hs : s.Open) (hwatching : t.Watching) (hstate : t.state = s.state)
    (hstack : t.stack = s.stack) (htasks : t.pendingTasks = s.pendingTasks) (epoll : Bool) :
    (t.modify epoll).Open := by
  obtain ⟨hkept, -⟩ := modify_kept epoll t
  refine ⟨hkept.state.trans (hstate.trans hs.active), ?_, ?_, hwatching.modify epoll⟩
  · rw [hkept.stack, hstack]
    exact hs.handlers
  · rw [hkept.pendingTasks, htasks]
    exact hs.tasks

theorem notMem_callbackTasks (callbacks : List (Option ℕ)) :
    .deregister ∉ callbackTasks callbacks := by
  simp [callbackTasks_eq]

theorem Open.queueCallbacks (hs : s.Open) (callbacks : List (Option ℕ)) :
    (queueCallbacks callbacks s).Open := by
  rw [queueCallbacks_eq]
  refine hs.same rfl hs.handlers ?_ rfl rfl rfl
  simpa using ⟨hs.tasks, notMem_callbackTasks callbacks⟩

/-- An open channel that is `ACTIVE` no more need not be open. -/
def Remains (s : Session β) : Prop := s.state = .active → s.Open

theorem Open.remains (hs : s.Open) : s.Remains := fun _ => hs

theorem Open.stays (hs : s.Open) (hstate : t.state = s.state)
    (hhandlers : ∀ frame ∈ t.stack, frame = .handler) (htasks : .deregister ∉ t.pendingTasks)
    (hinLoop : t.inLoop = s.inLoop) (hevents : t.events = s.events)
    (hinterest : t.interest = s.interest) : t.Remains :=
  (hs.same hstate hhandlers htasks hinLoop hevents hinterest).remains

theorem remains_channelInActive (s : Session β) : s.channelInActive.Remains := by
  intro hstate
  cases hstate

theorem Open.handleError (hs : s.Open) (mild : Prop) [Decidable mild] :
    (if mild then s else s.channelInActive).Remains := by
  split
  · exact hs.remains
  · exact remains_channelInActive s

theorem Open.finishWriteEvent {result : Except ℕ ℕ} (totalBytes : ℕ) (epoll : Bool) (hs : s.Open) :
    (s.finishWriteEvent totalBytes result epoll).Remains := by
  cases result with
  | error errNum => exact hs.handleError _
  | ok n =>
      rw [Session.finishWriteEvent]
      split
      · have hdrain : s.drain.Open := by
          have hempty : { s with writeBuffer := [], writeCompleteCallbacks := [] }.Open :=
            hs.same rfl hs.handlers hs.tasks rfl rfl rfl
          exact hempty.queueCallbacks _
        simp only
        split
        · exact remains_channelInActive _
        · have hwatching : (s.drain.setEvents kReadEvent).Watching :=
            ⟨hdrain.watching.inLoop, by simp [setEvents, kReadEvent], hdrain.watching.interest⟩
          exact (hdrain.modify hwatching rfl rfl rfl epoll).remains
      · exact hs.stays rfl hs.handlers hs.tasks rfl rfl rfl

section

variable [Inhabited β] {label : ℕ → List α → List β} {action : Action α β}

theorem Open.appendBuffer {data : List β} {epoll : Bool} (hs : s.Open)
    (h : s.appendBuffer data epoll = some t) : t.Open := by
  rw [Session.appendBuffer] at h
  split at h
  · cases h
  rename_i writeBuffer _
  have hblocks : { s with writeBuffer }.Open := hs.same rfl hs.handlers hs.tasks rfl rfl rfl
  rw [← Option.some.inj h]
  split
  · exact hblocks
  · exact hblocks.modify (hblocks.watching.addEvent kWriteEvent) rfl rfl rfl epoll

theorem Open.finishWrite {remaining : List β} {callback : Option ℕ} {epoll : Bool} (hs : s.Open)
    (h : s.finishWrite remaining callback epoll = some t) : t.Open := by
  rcases finishWrite_eq h with ⟨-, rfl⟩ | ⟨-, u, hu, rfl⟩
  · exact hs.queueCallbacks _
  · have hopen := hs.appendBuffer hu
    exact hopen.same rfl hopen.handlers hopen.tasks rfl rfl rfl

theorem Open.doWrite {data : List β} {callback : Option ℕ} {answer : Answer} {before : β}
    {epoll : Bool} (hs : s.Open) (h : s.doWrite data callback answer before epoll = some t) :
    t.Remains := by
  rw [Session.doWrite] at h
  split at h
  · exact Option.some.inj h ▸ hs.remains
  split at h
  · exact Option.some.inj h ▸ hs.remains
  split at h
  · cases answer with
    | accepted bytes =>
        have hemit : (s.emit (.accepted (data.take bytes))).Open :=
          hs.same rfl hs.handlers hs.tasks rfl rfl rfl
        exact (hemit.finishWrite h).remains
    | failed errNum =>
        simp only [doWriteDirectly] at h
        split at h
        · exact (hs.finishWrite h).remains
        · rename_i hfatal
          rw [← Option.some.inj h, handleWriteError, if_neg hfatal]
          exact remains_channelInActive _
  · obtain ⟨u, hu, rfl⟩ := Option.map_eq_some_iff.mp h
    have hopen := hs.appendBuffer hu
    exact hopen.stays rfl hopen.handlers hopen.tasks rfl rfl rfl

theorem Open.handleReadEvent {answers : List (ReadAnswer β)} {epoll : Bool} (hs : s.Open)
    (h : s.handleReadEvent answers epoll = some t) : t.Remains := by
  rw [Session.handleReadEvent] at h
  split at h
  · exact Option.some.inj h ▸ hs.remains
  split at h
  · cases h
  · exact Option.some.inj h ▸ hs.handleError _
  split at h
  · rw [← Option.some.inj h]
    refine hs.stays rfl ?_ hs.tasks rfl rfl rfl
    exact List.forall_mem_cons.mpr ⟨rfl, hs.handlers⟩
  split at h
  · exact Option.some.inj h ▸ remains_channelInActive _
  · rw [← Option.some.inj h]
    intro hstate
    have hkept := (modify_kept epoll (s.shutdownRead.setEvents kWriteEvent)).1.state
    rw [hstate] at hkept
    cases hkept

theorem Open.act (hs : s.Open) (h : s.act label action = some t) : t.Remains := by
  cases action with
  | write data callback answer before epoll =>
      have hcalled : { s with
          writes := s.writes + 1
          log := s.log ++ [Event.write (label s.writes data)
            (if callback then some s.writes else none)] }.Open :=
        hs.same rfl hs.handlers hs.tasks rfl rfl rfl
      exact hcalled.doWrite h
  | shutdown => exact Option.some.inj h ▸ remains_channelInActive _
  | shutdownRead | shutdownWrite =>
      rw [← Option.some.inj h]
      intro hstate
      cases hstate
  | handlerReturns =>
      simp only [Session.act] at h
      split at h
      case h_1 stack hstack =>
          rw [← Option.some.inj h]
          refine hs.stays rfl ?_ hs.tasks rfl rfl rfl
          exact (List.forall_mem_cons.mp (hstack ▸ hs.handlers)).2
      case h_2 => cases h
  | handleReadEvent answers epoll =>
      obtain ⟨-, h⟩ := Option.ite_none_right_eq_some.mp h
      exact hs.handleReadEvent h
  | handleWriteEvent answers epoll =>
      obtain ⟨-, h⟩ := Option.ite_none_right_eq_some.mp h
      rw [handleWriteEvent, if_neg (by simp [hs.active])] at h
      obtain ⟨iovecs, -, h⟩ := Option.bind_eq_some_iff.mp h
      obtain ⟨⟨sent, result⟩, -, rfl⟩ := Option.map_eq_some_iff.mp h
      obtain ⟨hkept, -⟩ := assertThat_kept .handleWriteEvent (!s.writeBuffer.isEmpty) s
      obtain ⟨hevents, -, hinterest, hinLoop⟩ :=
        assertThat_registration .handleWriteEvent (!s.writeBuffer.isEmpty) s
      refine Open.finishWriteEvent _ epoll (hs.same hkept.state ?_ ?_ hinLoop hevents hinterest)
      · exact fun frame hframe => hs.handlers frame (hkept.stack ▸ hframe)
      · exact fun htask => hs.tasks (hkept.pendingTasks ▸ htask)
  | handleErrorEvent =>
      obtain ⟨-, h⟩ := Option.ite_none_right_eq_some.mp h
      exact Option.some.inj h ▸ hs.handleError _
  | runTask epoll =>
      obtain ⟨-, h⟩ := Option.ite_none_right_eq_some.mp h
      have htasks := hs.tasks
      rw [Session.runTask] at h
      split at h
      case h_1 => cases h
      case h_2 pendingTasks hpending =>
          rw [hpending, List.mem_cons, not_or] at htasks
          rw [← Option.some.inj h]
          refine hs.stays rfl ?_ htasks.2 rfl rfl rfl
          exact List.forall_mem_cons.mpr ⟨rfl, hs.handlers⟩
      case h_3 pendingTasks hpending => simp [hpending] at htasks

/-! A channel that is not `ACTIVE` any more never is again. -/

omit [Inhabited β] in
theorem state_handleError (mild : Prop) [Decidable mild] (s : Session β) :
    (if mild then s else s.channelInActive).state = s.state ∨
      (if mild then s else s.channelInActive).state ≠ .active := by
  split
  · exact .inl rfl
  · exact .inr (by simp [channelInActive])

theorem state_doWrite {data : List β} {callback : Option ℕ} {answer : Answer} {before : β}
    {epoll : Bool} (h : s.doWrite data callback answer before epoll = some t) :
    t.state = s.state ∨ t.state ≠ .active := by
  rw [Session.doWrite] at h
  split at h
  · exact .inl (Option.some.inj h ▸ rfl)
  split at h
  · exact .inl (Option.some.inj h ▸ rfl)
  split at h
  · cases answer with
    | accepted bytes => exact .inl (finishWrite_frame h).1
    | failed errNum =>
        simp only [doWriteDirectly] at h
        split at h
        · exact .inl (finishWrite_frame h).1
        · rw [← Option.some.inj h]
          exact state_handleError _ { s with stack := _ }
  · obtain ⟨u, hu, rfl⟩ := Option.map_eq_some_iff.mp h
    exact .inl (appendBuffer_kept hu).1.state

theorem state_handleReadEvent {answers : List (ReadAnswer β)} {epoll : Bool}
    (h : s.handleReadEvent answers epoll = some t) : t.state = s.state ∨ t.state ≠ .active := by
  rw [Session.handleReadEvent] at h
  split at h
  · exact .inl (Option.some.inj h ▸ rfl)
  split at h
  · cases h
  · exact Option.some.inj h ▸ state_handleError _ s
  split at h
  · exact .inl (Option.some.inj h ▸ rfl)
  split at h
  · exact .inr (Option.some.inj h ▸ by simp [shutdown, channelInActive])
  · rw [← Option.some.inj h, (modify_kept epoll (s.shutdownRead.setEvents kWriteEvent)).1.state]
    exact .inr (by simp [setEvents, shutdownRead])

omit [Inhabited β] in
theorem state_finishWriteEvent (totalBytes : ℕ) (result : Except ℕ ℕ) (epoll : Bool)
    (s : Session β) :
    (s.finishWriteEvent totalBytes result epoll).state = s.state ∨
      (s.finishWriteEvent totalBytes result epoll).state ≠ .active := by
  cases result with
  | error errNum => exact state_handleError _ s
  | ok n =>
      rw [Session.finishWriteEvent]
      split
      · simp only
        split
        · exact .inr (by simp [channelInActive])
        · exact .inl ((modify_kept epoll _).1.state.trans (state_drain s))
      · exact .inl rfl

omit [Inhabited β] in
theorem state_handleWriteEvent {answers : List Answer} {epoll : Bool}
    (h : s.handleWriteEvent answers epoll = some t) : t.state = s.state ∨ t.state ≠ .active := by
  rw [handleWriteEvent] at h
  split at h
  · exact .inl (Option.some.inj h ▸ rfl)
  · obtain ⟨iovecs, -, h⟩ := Option.bind_eq_some_iff.mp h
    obtain ⟨⟨sent, result⟩, -, rfl⟩ := Option.map_eq_some_iff.mp h
    have hkept := (assertThat_kept .handleWriteEvent (!s.writeBuffer.isEmpty) s).1.state
    rw [← hkept]
    exact state_finishWriteEvent _ result epoll _

theorem state_act (h : s.act label action = some t) : t.state = s.state ∨ t.state ≠ .active := by
  cases action with
  | write data callback answer before epoll =>
      exact state_doWrite (s := { s with
        writes := s.writes + 1
        log := s.log ++ [Event.write (label s.writes data)
          (if callback then some s.writes else none)] }) h
  | shutdown => exact .inr (Option.some.inj h ▸ by simp [shutdown, channelInActive])
  | shutdownRead => exact .inr (Option.some.inj h ▸ by simp [shutdownRead])
  | shutdownWrite => exact .inr (Option.some.inj h ▸ by simp [shutdownWrite])
  | handlerReturns =>
      simp only [Session.act] at h
      split at h
      case h_1 => exact .inl (Option.some.inj h ▸ rfl)
      case h_2 => cases h
  | handleReadEvent answers epoll =>
      exact state_handleReadEvent (Option.ite_none_right_eq_some.mp h).2
  | handleWriteEvent answers epoll =>
      exact state_handleWriteEvent (Option.ite_none_right_eq_some.mp h).2
  | handleErrorEvent =>
      obtain ⟨-, h⟩ := Option.ite_none_right_eq_some.mp h
      exact Option.some.inj h ▸ state_handleError _ s
  | runTask epoll =>
      obtain ⟨-, h⟩ := Option.ite_none_right_eq_some.mp h
      rw [Session.runTask] at h
      split at h
      · cases h
      · exact .inl (Option.some.inj h ▸ rfl)
      · rename_i pendingTasks _
        rw [← Option.some.inj h]
        exact .inl (assertThat_kept .deregisterChannel s.inLoop { s with pendingTasks }).1.state

theorem open_of_reachable (hs : (system label).Reachable s) (hactive : s.state = .active) :
    s.Open := by
  refine hs.invariant (I := Remains) ?_ (fun s action t hs h hstate => ?_) hactive
  · rintro s rfl -
    refine ⟨rfl, ?_, ?_, watching_channelActive⟩
    · simp [channelActive, epollAdd, fresh, addEvent]
    · simp [channelActive, epollAdd, fresh, addEvent]
  · obtain ⟨u, hact, hresume⟩ := Option.bind_eq_some_iff.mp h
    have hu : u.state = .active := (unwind_frame hresume).1.symm.trans hstate
    have hsame : u.state = s.state := (state_act hact).resolve_right (absurd hu)
    have hopen := (hs (hsame.symm.trans hu)).act hact hu
    rw [resume, unwind_handlers hopen.handlers] at hresume
    exact Option.some.inj hresume ▸ hopen

end

/-! ## Reading on -/

/-- The bytes that a step hands to `::write` or `::writev`. -/
def handedOver (label : ℕ → List α → List β) (s : Session β) : Action α β → List β
  | .write data _ _ _ _ =>
    if s.state = .inactive ∨ s.writeBuffer ≠ [] then [] else label s.writes data
  | .handleWriteEvent _ _ => if s.state = .inactive then [] else pending s.writeBuffer
  | _ => []

/-- No other shutdown function is called, no error event is handled, and no read reports the end
of the stream or a fatal error. -/
def Undisturbed (_ : Session β) : Action α β → Prop
  | .shutdown | .shutdownRead | .shutdownWrite | .handleErrorEvent => False
  | .handleReadEvent answers _ =>
    (∀ errNum, received kRecvBufferSize answers ≠ .error errNum) ∧
      ∀ rest, answers ≠ .data [] :: rest
  | .write .. | .handleWriteEvent .. | .handlerReturns | .runTask _ => True

/-- The step hands no byte to the kernel and leaves a channel that is not `INACTIVE` and watched for
reading, and what a read event receives is delivered. -/
def KeepsReading [Inhabited β] (label : ℕ → List α → List β) (s : Session β)
    (action : Action α β) : Prop :=
  handedOver label s action = [] ∧ ∀ t, (system label).step s action = some t →
    t.state ≠ .inactive ∧ t.Watching ∧
      ∀ answers epoll, action = .handleReadEvent answers epoll →
        ∃ message, t.log = s.log ++ [.read message] ∧
          received kRecvBufferSize answers = .ok message.contents

/-- Nothing is written, no write event is handled, and every read event finds data. -/
def OnlyReads (label : ℕ → List α → List β) (s : Session β) : Action α β → Prop
  | .write data _ _ _ _ => label s.writes data = []
  | .handleWriteEvent _ _ => False
  | .handleReadEvent answers _ => received kRecvBufferSize answers ≠ .ok []
  | _ => True

/-- What holds after `shutdownWrite` as long as the channel only reads. -/
structure Listening (s : Session β) : Prop where
  halfClosed : s.state = .halfClose
  sent : s.writeBuffer = []
  handlers : ∀ frame ∈ s.stack, frame = .handler
  tasks : .deregister ∉ s.pendingTasks
  watching : s.Watching

theorem Open.shutdownWrite (hs : s.Open) : s.shutdownWrite.Listening :=
  ⟨rfl, rfl, hs.handlers, hs.tasks, hs.watching.inLoop, hs.watching.events, hs.watching.interest⟩

theorem Listening.same (hs : s.Listening) (hstate : t.state = s.state)
    (hsent : t.writeBuffer = s.writeBuffer) (hhandlers : ∀ frame ∈ t.stack, frame = .handler)
    (htasks : .deregister ∉ t.pendingTasks) (hinLoop : t.inLoop = s.inLoop)
    (hevents : t.events = s.events) (hinterest : t.interest = s.interest) : t.Listening :=
  ⟨hstate.trans hs.halfClosed, hsent.trans hs.sent, hhandlers, htasks,
    hinLoop.trans hs.watching.inLoop, hevents ▸ hs.watching.events, hinterest ▸ hs.watching.interest⟩

theorem Listening.alive (hs : s.Listening) : s.state ≠ .inactive := by simp [hs.halfClosed]

section

variable [Inhabited β] {label : ℕ → List α → List β} {action : Action α β}

/-- A write of no bytes changes nothing but the trace. -/
theorem Listening.write {data : List α} {callback : Bool} {answer : Answer} {before : β}
    {epoll : Bool} (hs : s.Listening) (hdata : label s.writes data = [])
    (h : s.write label data callback answer before epoll = some t) : t.Listening := by
  rw [Session.write, doWrite, if_neg hs.alive, hdata, if_pos List.isEmpty_nil] at h
  rw [← Option.some.inj h]
  exact hs.same rfl rfl hs.handlers hs.tasks rfl rfl rfl

/-- A read event that finds data delivers it. -/
theorem Listening.handleReadEvent {answers : List (ReadAnswer β)} {epoll : Bool}
    (hs : s.Listening) (hquiet : ∀ errNum, received kRecvBufferSize answers ≠ .error errNum)
    (hdata : received kRecvBufferSize answers ≠ .ok [])
    (h : s.handleReadEvent answers epoll = some t) :
    t.Listening ∧ ∃ message, t.log = s.log ++ [.read message] ∧
      received kRecvBufferSize answers = .ok message.contents := by
  rcases handleReadEvent_eq hs.alive h with
    ⟨errNum, hfatal, -⟩ | ⟨byteBuffer, hreceived, -, rfl⟩ | ⟨hnone, -⟩
  · exact absurd hfatal (hquiet errNum)
  · refine ⟨hs.same rfl rfl ?_ hs.tasks rfl rfl rfl, byteBuffer, rfl, hreceived⟩
    exact List.forall_mem_cons.mpr ⟨rfl, hs.handlers⟩
  · exact absurd hnone hdata

omit [Inhabited β] in
theorem Listening.runTask {epoll : Bool} (hs : s.Listening) (h : s.runTask epoll = some t) :
    t.Listening := by
  have htasks := hs.tasks
  rw [Session.runTask] at h
  split at h
  case h_1 => cases h
  case h_2 pendingTasks hpending =>
      rw [hpending, List.mem_cons, not_or] at htasks
      rw [← Option.some.inj h]
      refine hs.same rfl rfl ?_ htasks.2 rfl rfl rfl
      exact List.forall_mem_cons.mpr ⟨rfl, hs.handlers⟩
  case h_3 pendingTasks hpending => simp [hpending] at htasks

/-- A step that only reads. -/
theorem Listening.act (hs : s.Listening) (hbase : s.Undisturbed action)
    (hok : OnlyReads label s action) (h : s.act label action = some t) :
    t.Listening ∧ ∀ answers epoll, action = .handleReadEvent answers epoll →
      ∃ message, t.log = s.log ++ [.read message] ∧
        received kRecvBufferSize answers = .ok message.contents := by
  cases action with
  | write data callback answer before epoll => exact ⟨hs.write hok h, by simp⟩
  | shutdown | shutdownRead | shutdownWrite | handleErrorEvent => exact absurd hbase id
  | handlerReturns =>
      simp only [Session.act] at h
      split at h
      case h_1 stack hstack =>
          rw [← Option.some.inj h]
          refine ⟨hs.same rfl rfl ?_ hs.tasks rfl rfl rfl, by simp⟩
          exact (List.forall_mem_cons.mp (hstack ▸ hs.handlers)).2
      case h_2 => cases h
  | handleReadEvent answers epoll =>
      obtain ⟨-, h⟩ := Option.ite_none_right_eq_some.mp h
      obtain ⟨hlistening, hdelivered⟩ := hs.handleReadEvent hbase.1 hok h
      refine ⟨hlistening, fun answers' epoll' heq => ?_⟩
      cases heq
      exact hdelivered
  | handleWriteEvent answers epoll => exact absurd hok id
  | runTask epoll => exact ⟨hs.runTask (Option.ite_none_right_eq_some.mp h).2, by simp⟩

theorem Listening.step (hs : s.Listening) (hbase : s.Undisturbed action)
    (hok : OnlyReads label s action) (h : (system label).step s action = some t) :
    t.Listening ∧ ∀ answers epoll, action = .handleReadEvent answers epoll →
      ∃ message, t.log = s.log ++ [.read message] ∧
        received kRecvBufferSize answers = .ok message.contents := by
  obtain ⟨u, hact, hresume⟩ := Option.bind_eq_some_iff.mp h
  obtain ⟨hu, hdelivered⟩ := hs.act hbase hok hact
  rw [resume, unwind_handlers hu.handlers] at hresume
  exact Option.some.inj hresume ▸ ⟨hu, hdelivered⟩

theorem Listening.keepsReading (hs : s.Listening) (hbase : s.Undisturbed action)
    (hok : OnlyReads label s action) : KeepsReading label s action := by
  refine ⟨?_, fun t h => ?_⟩
  · cases action with
    | write data callback answer before epoll =>
        rw [handedOver, show label s.writes data = [] from hok, ite_self]
    | handleWriteEvent answers epoll => exact absurd hok id
    | _ => rfl
  · obtain ⟨ht, hdelivered⟩ := hs.step hbase hok h
    exact ⟨ht.alive, ht.watching, hdelivered⟩

omit [Inhabited β] in
/-- A write event finds no blocks, so it has sent everything. -/
theorem Listening.inactive_of_handleWriteEvent {answers : List Answer} {epoll : Bool}
    (hs : s.Listening) (h : s.handleWriteEvent answers epoll = some t) : t.state = .inactive := by
  obtain ⟨sent, result, hwritten, rfl⟩ := handleWriteEvent_eq (by simp [hs.sent]) hs.alive h
  have hnothing : s.written answers = some ([], .ok 0) := by
    have hcount : blockCount 0 = 0 := by decide
    simp [written, hs.sent, writev, hcount, Loop.run, writevBatch]
  rw [hnothing] at hwritten
  obtain ⟨rfl, rfl⟩ := Prod.mk.inj (Option.some.inj hwritten)
  have hkept := (assertThat_kept .handleWriteEvent (!s.writeBuffer.isEmpty) s).1.state
  have hhalf : ((s.assertThat .handleWriteEvent (!s.writeBuffer.isEmpty)).emit
      (.accepted [])).drain.state = .halfClose :=
    (state_drain _).trans (hkept.trans hs.halfClosed)
  rw [finishWriteEvent, if_pos (by simp [hs.sent])]
  simp only [hhalf, if_true]
  rfl

/-- A read event that finds nothing shuts the channel down. -/
theorem Listening.inactive_of_handleReadEvent {answers : List (ReadAnswer β)} {epoll : Bool}
    (hs : s.Listening) (hdata : received kRecvBufferSize answers = .ok [])
    (h : s.handleReadEvent answers epoll = some t) : t.state = .inactive := by
  rcases handleReadEvent_eq hs.alive h with
    ⟨errNum, hreceived, -⟩ | ⟨byteBuffer, hreceived, hne, -⟩ | ⟨-, rfl⟩
  · rw [hdata] at hreceived
    cases hreceived
  · rw [hdata] at hreceived
    exact absurd (Except.ok.inj hreceived).symm hne
  · rw [if_pos (by simp [hs.sent])]
    rfl

theorem Listening.onlyReads (hs : s.Listening) (hbase : s.Undisturbed action)
    (hkeeps : KeepsReading label s action) (h : (system label).step s action = some t) :
    OnlyReads label s action := by
  obtain ⟨hnothing, hnext⟩ := hkeeps
  have halive := (hnext t h).1
  obtain ⟨u, hact, hresume⟩ := Option.bind_eq_some_iff.mp h
  rw [(unwind_frame hresume).1] at halive
  cases action with
  | write data callback answer before epoll =>
      have hnil : label s.writes data = [] := by
        simpa [handedOver, hs.sent, hs.halfClosed] using hnothing
      exact hnil
  | handleWriteEvent answers epoll =>
      obtain ⟨-, hact⟩ := Option.ite_none_right_eq_some.mp hact
      exact absurd (hs.inactive_of_handleWriteEvent hact) halive
  | handleReadEvent answers epoll =>
      obtain ⟨-, hact⟩ := Option.ite_none_right_eq_some.mp hact
      exact fun hdata => halive (hs.inactive_of_handleReadEvent hdata hact)
  | _ => trivial

/-- After the application shuts down the write side of an `ACTIVE` channel, in any run in which
neither the application nor the peer nor an error ends the channel: it hands over no more bytes, does
not become `INACTIVE` and delivers what it receives if and only if it only reads. -/
theorem keepsReading_iff (hs : (system label).Reachable s) (hactive : s.state = .active)
    (h : (system label).step s .shutdownWrite = some t) {actions : List (Action α β)}
    (hundisturbed : (system label).StepsMeet Undisturbed t actions) :
    (system label).StepsMeet (KeepsReading label) t actions ↔
      (system label).StepsMeet (OnlyReads label) t actions := by
  have hlistening := (open_of_reachable hs hactive).shutdownWrite
  have hresume : s.shutdownWrite.resume = some t := h
  rw [resume, unwind_handlers hlistening.handlers] at hresume
  obtain rfl := Option.some.inj hresume
  refine System.stepsMeet_congr _ (fun s action t hs hbase h => ⟨⟨?_, ?_⟩, ?_⟩) hlistening
    hundisturbed
  · exact fun hkeeps => hs.onlyReads hbase hkeeps h
  · exact hs.keepsReading hbase
  · exact fun hok => (hs.step hbase hok h).1

end

/-- One byte arrives after `shutdownWrite`. -/
theorem keepsReading_iff_one : ∃ s t : Session UInt8,
    (system plain).run fresh.channelActive [.handlerReturns] = some s ∧
      (system plain).step s .shutdownWrite = some t ∧
        (system plain).StepsMeet (KeepsReading plain) t [.handleReadEvent [.data [7]] true] := by
  obtain ⟨s, hrun⟩ : ∃ s, (system plain).run fresh.channelActive [.handlerReturns] = some s :=
    ⟨_, rfl⟩
  have hactive : ((system plain).run fresh.channelActive [.handlerReturns]).map
      (fun s => s.state) = some .active := rfl
  rw [hrun] at hactive
  obtain ⟨t, ht⟩ : ∃ t, (system plain).step s .shutdownWrite = some t := by
    have hlistening := (open_of_reachable (System.Reachable.run (system plain) (.initial rfl) hrun)
      (Option.some.inj hactive)).shutdownWrite
    exact ⟨_, unwind_handlers hlistening.handlers⟩
  have hreceived : received kRecvBufferSize [.data [(7 : UInt8)]] = .ok [7] := rfl
  have hundisturbed : (system plain).StepsMeet Undisturbed t [.handleReadEvent [.data [7]] true] :=
    fun _ _ => ⟨⟨by simp [hreceived], by simp⟩, trivial⟩
  have honly : (system plain).StepsMeet (OnlyReads plain) t [.handleReadEvent [.data [7]] true] :=
    fun _ _ => ⟨by simp [OnlyReads, hreceived], trivial⟩
  exact ⟨s, t, hrun, ht, (keepsReading_iff (System.Reachable.run _ (.initial rfl) hrun)
    (Option.some.inj hactive) ht hundisturbed).mpr honly⟩

/-- With output pending, the write event that is still registered ends the channel. -/
theorem not_keepsReading : ∃ s t : Session UInt8, (system plain).Reachable s ∧
    s.state = .active ∧ (system plain).step s .shutdownWrite = some t ∧
      (system plain).StepsMeet Undisturbed t [.handleWriteEvent [] true] ∧
        ¬ (system plain).StepsMeet (KeepsReading plain) t [.handleWriteEvent [] true] := by
  obtain ⟨s, hrun⟩ : ∃ s, (system plain).run fresh.channelActive unsent = some s := ⟨_, rfl⟩
  obtain ⟨t, ht⟩ : ∃ t, ((system plain).run fresh.channelActive unsent).bind
      (fun s => (system plain).step s .shutdownWrite) = some t := ⟨_, rfl⟩
  obtain ⟨u, hu⟩ : ∃ u, (((system plain).run fresh.channelActive unsent).bind
      (fun s => (system plain).step s .shutdownWrite)).bind
        (fun t => (system plain).step t (.handleWriteEvent [] true)) = some u := ⟨_, rfl⟩
  have hactive : ((system plain).run fresh.channelActive unsent).map
      (fun s => s.state) = some .active := rfl
  have hinactive : ((((system plain).run fresh.channelActive unsent).bind
      (fun s => (system plain).step s .shutdownWrite)).bind
        (fun t => (system plain).step t (.handleWriteEvent [] true))).map
          (fun u => u.state) = some .inactive := rfl
  rw [hu] at hinactive
  rw [ht] at hu
  rw [hrun] at ht hactive
  refine ⟨s, t, System.Reachable.run _ (.initial rfl) hrun, Option.some.inj hactive, ht,
    fun _ _ => ⟨trivial, trivial⟩, fun hkeeps => ?_⟩
  obtain ⟨⟨-, hnext⟩, -⟩ := hkeeps u hu
  exact (hnext u hu).1 (Option.some.inj hinactive)

end Nets.Session
