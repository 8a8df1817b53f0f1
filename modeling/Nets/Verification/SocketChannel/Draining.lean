import Nets.Verification.SocketChannel.Integrity
import Nets.Verification.SocketChannel.Lifecycle
import Nets.Verification.SocketChannel.Reading

/-! # Draining after the end of the stream

A channel that reads the end of the stream while it has output pending sends that output first, and
disconnects with the write event that sends the last of it; unless a deregister task is waiting in
its loop, left over from an earlier end of the channel. -/

namespace Nets.Session

open Library

variable {α β : Type} {s t : Session β}

/-! ## The blocks in every state -/

/-- What holds of the blocks in every state, however often the channel has ended. -/
structure Filled (s : Session β) : Prop where
  blocks : Blocks s.writeBuffer
  leaves : ∀ frame ∈ s.stack, Leaves frame

theorem Filled.of_same (hs : s.Filled) (hblocks : t.writeBuffer = s.writeBuffer)
    (hstack : t.stack = s.stack) : t.Filled :=
  ⟨hblocks ▸ hs.blocks, hstack ▸ hs.leaves⟩

theorem Filled.modify (hs : s.Filled) (epoll : Bool) : (s.modify epoll).Filled :=
  hs.of_same (modify_kept epoll s).2 (modify_kept epoll s).1.stack

theorem Filled.channelInActive (hs : s.Filled) : s.channelInActive.Filled := by
  refine ⟨hs.blocks, ?_⟩
  simpa [Session.channelInActive, Leaves] using hs.leaves

theorem Filled.shutdownHow (hs : s.Filled) (how : How) : (s.shutdownHow how).Filled := by
  cases how with
  | rd => exact hs.of_same rfl rfl
  | wr | rdwr => exact ⟨blocks_nil, hs.leaves⟩

/-- The rest of `handleReadError` and `handleWriteError`. -/
theorem Filled.handleError (hs : s.Filled) (mild : Prop) [Decidable mild] :
    (if mild then s else s.channelInActive).Filled := by
  split
  · exact hs
  · exact hs.channelInActive

/-- What `writev` makes of the blocks. -/
def written (answers : List Answer) (s : Session β) : Option (List β × Except ℕ ℕ) :=
  (s.writeBuffer.mapM iovec).bind fun iovecs => writev iovecs answers

theorem le_of_written {answers : List Answer} {sent : List β} {n : ℕ} (hs : Blocks s.writeBuffer)
    (h : s.written answers = some (sent, .ok n)) :
    n = sent.length ∧ n ≤ (pending s.writeBuffer).length := by
  rw [written, mapM_iovec hs, Option.bind_some] at h
  rw [← flatten_contents]
  exact writev_count h

theorem handleWriteEvent_eq {answers : List Answer} {epoll : Bool} (hs : Blocks s.writeBuffer)
    (halive : s.state ≠ .inactive) (h : s.handleWriteEvent answers epoll = some t) :
    ∃ sent result, s.written answers = some (sent, result) ∧
      t = ((s.assertThat .handleWriteEvent (!s.writeBuffer.isEmpty)).emit
        (.accepted sent)).finishWriteEvent (pending s.writeBuffer).length result epoll := by
  obtain ⟨-, hblocks⟩ := assertThat_kept .handleWriteEvent (!s.writeBuffer.isEmpty) s
  rw [handleWriteEvent, if_neg halive] at h
  simp only [hblocks, sum_readableBytes hs] at h
  obtain ⟨iovecs, hiovecs, h⟩ := Option.bind_eq_some_iff.mp h
  obtain ⟨⟨sent, result⟩, hwritev, rfl⟩ := Option.map_eq_some_iff.mp h
  exact ⟨sent, result, by simp [written, hiovecs, hwritev], rfl⟩

theorem Filled.finishWriteEvent {result : Except ℕ ℕ} (totalBytes : ℕ) (epoll : Bool)
    (hs : s.Filled) (h : ∀ n, result = .ok n → n ≤ (pending s.writeBuffer).length) :
    (s.finishWriteEvent totalBytes result epoll).Filled := by
  cases result with
  | error errNum => exact hs.handleError _
  | ok n =>
      rw [Session.finishWriteEvent]
      by_cases hall : totalBytes = n
      · have hdrain : s.drain.Filled := by
          rw [drain, queueCallbacks_eq]
          exact ⟨blocks_nil, hs.leaves⟩
        simp only [hall, if_true]
        split
        · exact hdrain.channelInActive
        · exact (hdrain.of_same (t := s.drain.setEvents kReadEvent) rfl rfl).modify epoll
      · simp only [hall, if_false]
        exact ⟨(removeSentBuffer_spec hs.blocks (h n rfl)).1, hs.leaves⟩

section

variable [Inhabited β]

theorem Filled.append {data : List β} {epoll : Bool} (hs : s.Filled) (hdata : data ≠ [])
    (h : s.appendBuffer data epoll = some t) : t.Filled := by
  obtain ⟨hkept, happend⟩ := appendBuffer_kept h
  exact ⟨(appendBlock_spec hs.blocks hdata happend).1, hkept.stack ▸ hs.leaves⟩

theorem Filled.finishWrite {remaining : List β} {callback : Option ℕ} {epoll : Bool}
    (hs : s.Filled) (h : s.finishWrite remaining callback epoll = some t) : t.Filled := by
  rcases finishWrite_eq h with ⟨-, rfl⟩ | ⟨hremaining, u, hu, rfl⟩
  · rw [queueCallbacks_eq]
    exact hs.of_same rfl rfl
  · exact (hs.append hremaining hu).of_same rfl rfl

theorem Filled.unwind {stack : List (Frame β)} (hs : s.Filled)
    (hstack : ∀ frame ∈ stack, Leaves frame) (h : unwind stack s = some t) : t.Filled := by
  induction stack generalizing s with
  | nil =>
      obtain rfl := Option.some.inj h
      exact ⟨hs.blocks, by simp⟩
  | cons frame stack ih =>
      obtain ⟨-, hrest⟩ := List.forall_mem_cons.mp hstack
      cases frame with
      | handler =>
          obtain rfl := Option.some.inj h
          exact ⟨hs.blocks, hstack⟩
      | deregister => exact ih (hs.of_same (t := s.addTask .deregister) rfl rfl) hrest h
      | finishWrite remaining callback epoll =>
          obtain ⟨u, hu, hunwind⟩ := Option.bind_eq_some_iff.mp h
          exact ih (hs.finishWrite hu) hrest hunwind

theorem Filled.doWrite {data : List β} {callback : Option ℕ} {answer : Answer} {before : β}
    {epoll : Bool} (hs : s.Filled) (h : s.doWrite data callback answer before epoll = some t) :
    t.Filled := by
  rw [Session.doWrite] at h
  split at h
  · exact Option.some.inj h ▸ hs
  split at h
  · exact Option.some.inj h ▸ hs
  rename_i hdata
  split at h
  · cases answer with
    | accepted bytes => exact (hs.of_same (t := s.emit _) rfl rfl).finishWrite h
    | failed errNum =>
        simp only [doWriteDirectly] at h
        split at h
        · exact hs.finishWrite h
        · rw [← Option.some.inj h]
          have hpush : { s with
              stack := .finishWrite (before :: data) callback epoll :: s.stack }.Filled :=
            ⟨hs.blocks, List.forall_mem_cons.mpr ⟨List.cons_ne_nil _ _, hs.leaves⟩⟩
          exact hpush.handleError _
  · obtain ⟨u, hu, rfl⟩ := Option.map_eq_some_iff.mp h
    exact (hs.append (by simpa using hdata) hu).of_same rfl rfl

theorem Filled.handleReadEvent {answers : List (ReadAnswer β)} {epoll : Bool} (hs : s.Filled)
    (h : s.handleReadEvent answers epoll = some t) : t.Filled := by
  rw [Session.handleReadEvent] at h
  split at h
  · exact Option.some.inj h ▸ hs
  split at h
  · cases h
  · exact Option.some.inj h ▸ hs.handleError _
  split at h
  · rw [← Option.some.inj h]
    exact ⟨hs.blocks, by simpa [fireRead, Leaves] using hs.leaves⟩
  split at h
  · exact Option.some.inj h ▸ (hs.shutdownHow .rdwr).channelInActive
  · rw [← Option.some.inj h]
    have hread : (s.shutdownRead.setEvents kWriteEvent).Filled := hs.of_same rfl rfl
    exact hread.modify epoll

theorem Filled.act {label : ℕ → List α → List β} {action : Action α β} (hs : s.Filled)
    (h : s.act label action = some t) : t.Filled := by
  cases action with
  | write data callback answer before epoll =>
      have hcalled : { s with
          writes := s.writes + 1
          log := s.log ++ [Event.write (label s.writes data)
            (if callback then some s.writes else none)] }.Filled := hs.of_same rfl rfl
      exact hcalled.doWrite h
  | shutdown => exact Option.some.inj h ▸ (hs.shutdownHow .rdwr).channelInActive
  | shutdownRead => exact Option.some.inj h ▸ (hs.shutdownHow .rd).of_same rfl rfl
  | shutdownWrite => exact Option.some.inj h ▸ (hs.shutdownHow .wr).of_same rfl rfl
  | handlerReturns =>
      simp only [Session.act] at h
      split at h
      case h_1 stack hstack =>
          rw [← Option.some.inj h]
          exact ⟨hs.blocks, (List.forall_mem_cons.mp (hstack ▸ hs.leaves)).2⟩
      case h_2 => cases h
  | handleReadEvent answers epoll =>
      obtain ⟨-, h⟩ := Option.ite_none_right_eq_some.mp h
      exact hs.handleReadEvent h
  | handleWriteEvent answers epoll =>
      obtain ⟨-, h⟩ := Option.ite_none_right_eq_some.mp h
      by_cases halive : s.state = .inactive
      · rw [Session.handleWriteEvent, if_pos halive] at h
        exact Option.some.inj h ▸ hs
      · obtain ⟨sent, result, hwritten, rfl⟩ := handleWriteEvent_eq hs.blocks halive h
        obtain ⟨hkept, hblocks⟩ := assertThat_kept .handleWriteEvent (!s.writeBuffer.isEmpty) s
        have hfilled : ((s.assertThat .handleWriteEvent (!s.writeBuffer.isEmpty)).emit
            (.accepted sent)).Filled := hs.of_same hblocks hkept.stack
        refine hfilled.finishWriteEvent _ epoll fun n hn => ?_
        rw [show ((s.assertThat .handleWriteEvent (!s.writeBuffer.isEmpty)).emit
          (.accepted sent)).writeBuffer = s.writeBuffer from hblocks]
        exact (le_of_written hs.blocks (hn ▸ hwritten)).2
  | handleErrorEvent =>
      obtain ⟨-, h⟩ := Option.ite_none_right_eq_some.mp h
      exact Option.some.inj h ▸ hs.handleError _
  | runTask epoll =>
      obtain ⟨-, h⟩ := Option.ite_none_right_eq_some.mp h
      rw [Session.runTask] at h
      split at h
      · cases h
      · rw [← Option.some.inj h]
        exact ⟨hs.blocks, by simpa [Leaves] using hs.leaves⟩
      · rename_i pendingTasks _
        rw [← Option.some.inj h]
        obtain ⟨hkept, hblocks⟩ :=
          assertThat_kept .deregisterChannel s.inLoop { s with pendingTasks }
        exact hs.of_same hblocks hkept.stack

theorem filled_of_reachable {label : ℕ → List α → List β} (hs : (system label).Reachable s) :
    s.Filled := by
  refine hs.invariant ?_ fun s action t hs h => ?_
  · rintro s rfl
    exact ⟨blocks_nil, List.forall_mem_cons.mpr ⟨trivial, by simp [epollAdd, fresh, addEvent]⟩⟩
  · obtain ⟨u, hact, hresume⟩ := Option.bind_eq_some_iff.mp h
    have hu := hs.act hact
    exact hu.unwind hu.leaves hresume

end

/-! ## Runs after the end of the stream -/

/-- The kernel reports no fatal error, no error event is handled, and no shutdown function is
called. -/
def Quiet (s : Session β) : Action α β → Prop
  | .shutdown | .shutdownRead | .shutdownWrite | .handleErrorEvent => False
  | .handleReadEvent answers _ => ∀ errNum, received kRecvBufferSize answers ≠ .error errNum
  | .handleWriteEvent answers _ => ∀ sent errNum, s.written answers ≠ some (sent, .error errNum)
  | .write .. | .handlerReturns | .runTask _ => True

/-- A write event in which `writev` reports the number of the bytes held. -/
def ReportsAll (s : Session β) : Action α β → Prop
  | .handleWriteEvent answers _ =>
    ∃ sent, s.written answers = some (sent, .ok (pending s.writeBuffer).length)
  | _ => False

def LeavesSome (s : Session β) (action : Action α β) : Prop := s.Quiet action ∧ ¬ s.ReportsAll action

/-- What `u` holds are the bytes held in `t` and those written since, less as many as the kernel
has taken since. -/
def HeldSince (t u : Session β) (since : List (Event β)) : Prop :=
  u.log = t.log ++ since ∧ .disconnect ∉ since.filterMap delivery? ∧
    pending u.writeBuffer =
      (pending t.writeBuffer ++ writtenBytes since).drop (acceptedBytes since).length

/-- The channel is not `INACTIVE`, and `kWriteEvent` is the only event registered. -/
structure Draining (t u : Session β) : Prop where
  alive : u.state ≠ .inactive
  interest : u.interest = some kWriteEvent
  held : ∃ since, HeldSince t u since

/-- From `t` on the channel is draining up to a write event that reports all bytes held, and
disconnects with it. -/
structure Drains [Inhabited β] (label : ℕ → List α → List β) (t : Session β) : Prop where
  keeps : ∀ actions u, (system label).StepsMeet LeavesSome t actions →
    (system label).run t actions = some u → Draining t u
  ends : ∀ actions u action v, (system label).StepsMeet LeavesSome t actions →
    (system label).run t actions = some u → u.ReportsAll action →
      (system label).step u action = some v →
        v.state = .inactive ∧
          ∃ events, v.log = u.log ++ events ∧ events.filterMap delivery? = [.disconnect]

/-- What the steps of a draining channel preserve. -/
structure Emptying (t u : Session β) : Prop where
  state : u.state = .halfClose
  events : u.events = kWriteEvent
  interest : u.interest = some kWriteEvent
  blocks : Blocks u.writeBuffer
  nonempty : u.writeBuffer ≠ []
  handlers : ∀ frame ∈ u.stack, frame = .handler
  tasks : .deregister ∉ u.pendingTasks
  held : ∃ since, HeldSince t u since

theorem Emptying.alive {u : Session β} (hu : Emptying t u) : u.state ≠ .inactive := by
  simp [hu.state]

theorem HeldSince.append {u v : Session β} {since : List (Event β)} (hu : HeldSince t u since)
    (hblocks : Blocks u.writeBuffer) (hnonempty : u.writeBuffer ≠ []) {events : List (Event β)}
    (hlog : v.log = u.log ++ events) (hdelivery : .disconnect ∉ events.filterMap delivery?)
    (hpending : pending v.writeBuffer =
      (pending u.writeBuffer ++ writtenBytes events).drop (acceptedBytes events).length) :
    HeldSince t v (since ++ events) := by
  obtain ⟨hsince, hdisconnect, hheld⟩ := hu
  have hleft : (acceptedBytes since).length ≤
      (pending t.writeBuffer ++ writtenBytes since).length := by
    have hne : ¬ pending u.writeBuffer = [] := mt hblocks.pending_eq_nil.mp hnonempty
    rw [hheld, List.drop_eq_nil_iff] at hne
    omega
  refine ⟨by rw [hlog, hsince, List.append_assoc], ?_, ?_⟩
  · rw [List.filterMap_append, List.mem_append, not_or]
    exact ⟨hdisconnect, hdelivery⟩
  rw [hpending, hheld, writtenBytes_append, acceptedBytes_append, List.length_append,
    ← List.append_assoc, ← List.drop_append_of_le_length hleft, List.drop_drop]

/-- A step that leaves the registration alone. -/
theorem Emptying.next {u v : Session β} (hu : Emptying t u) (events : List (Event β))
    (hstate : v.state = u.state) (hevents : v.events = u.events)
    (hinterest : v.interest = u.interest) (hblocks : Blocks v.writeBuffer)
    (hnonempty : v.writeBuffer ≠ []) (hhandlers : ∀ frame ∈ v.stack, frame = .handler)
    (htasks : .deregister ∉ v.pendingTasks) (hlog : v.log = u.log ++ events)
    (hdelivery : .disconnect ∉ events.filterMap delivery?)
    (hpending : pending v.writeBuffer =
      (pending u.writeBuffer ++ writtenBytes events).drop (acceptedBytes events).length) :
    Emptying t v := by
  obtain ⟨since, hsince⟩ := hu.held
  exact ⟨hstate.trans hu.state, hevents.trans hu.events, hinterest.trans hu.interest, hblocks,
    hnonempty, hhandlers, htasks,
    since ++ events, hsince.append hu.blocks hu.nonempty hlog hdelivery hpending⟩

/-- A step that leaves the blocks alone as well. -/
theorem Emptying.same {u v : Session β} (hu : Emptying t u) (events : List (Event β))
    (hstate : v.state = u.state) (hevents : v.events = u.events)
    (hinterest : v.interest = u.interest) (hblocks : v.writeBuffer = u.writeBuffer)
    (hhandlers : ∀ frame ∈ v.stack, frame = .handler) (htasks : .deregister ∉ v.pendingTasks)
    (hlog : v.log = u.log ++ events) (hnotes : ∀ event ∈ events, isNote event = true)
    (haccepted : acceptedBytes events = []) (hdelivery : .disconnect ∉ events.filterMap delivery?) :
    Emptying t v := by
  refine hu.next events hstate hevents hinterest (hblocks ▸ hu.blocks) (hblocks ▸ hu.nonempty)
    hhandlers htasks hlog hdelivery ?_
  simp [hblocks, haccepted, writtenBytes, messages_notes hnotes]

/-- Setting `kWriteEvent` again. -/
theorem modify_interest (epoll : Bool) (hinterest : s.interest = some kWriteEvent)
    (hevents : s.events = kWriteEvent) :
    (s.modify epoll).interest = some kWriteEvent ∧ (s.modify epoll).events = kWriteEvent := by
  obtain ⟨hsame, -, hmodify⟩ :=
    modify_registration (s := s) epoll (by rw [hevents]; decide)
  refine ⟨?_, hsame.trans hevents⟩
  rw [hmodify, hevents]
  split
  · rfl
  · exact hinterest

section

variable [Inhabited β] {label : ℕ → List α → List β} {u v : Session β} {action : Action α β}

/-- Written bytes are appended to those held, without asking the kernel. -/
theorem Emptying.doWrite {data : List β} {callback : Option ℕ} {answer : Answer} {before : β}
    {epoll : Bool} (hu : Emptying t u)
    (h : { u with writes := u.writes + 1, log := u.log ++ [Event.write data callback]
      }.doWrite data callback answer before epoll = some v) : Emptying t v := by
  rw [Session.doWrite, if_neg hu.alive] at h
  split at h
  case isTrue hnil =>
      rw [← Option.some.inj h]
      refine hu.next [.write data callback] rfl rfl rfl hu.blocks hu.nonempty hu.handlers hu.tasks
        rfl (by simp [delivery?]) ?_
      simp [writtenBytes, List.isEmpty_iff.mp hnil]
  case isFalse hdata =>
      have hfull : ¬ u.writeBuffer.isEmpty := by simpa using hu.nonempty
      simp only [hfull] at h
      obtain ⟨w, hw, rfl⟩ := Option.map_eq_some_iff.mp h
      have hwrite : u.events &&& kWriteEvent ≠ 0 := by simp [hu.events, kWriteEvent]
      rw [appendBuffer] at hw
      split at hw
      · cases hw
      rename_i writeBuffer happend
      obtain ⟨hblocks, hpending⟩ := appendBlock_spec hu.blocks (by simpa using hdata) happend
      simp only [hasWriteEvent, hwrite, ne_eq, not_false_eq_true, decide_true, if_true] at hw
      rw [← Option.some.inj hw]
      refine hu.next [.write data callback] rfl rfl rfl hblocks ?_ hu.handlers hu.tasks rfl
        (by simp [delivery?]) (by simpa [writtenBytes, pushCallback] using hpending)
      intro hnil
      rw [show writeBuffer = [] from hnil] at hpending
      simp [hu.blocks.pending_eq_nil, hu.nonempty] at hpending

theorem Emptying.handleReadEvent {answers : List (ReadAnswer β)} {epoll : Bool}
    (hu : Emptying t u) (hquiet : ∀ errNum, received kRecvBufferSize answers ≠ .error errNum)
    (h : u.handleReadEvent answers epoll = some v) : Emptying t v := by
  rcases handleReadEvent_eq hu.alive h with
    ⟨errNum, hfatal, -⟩ | ⟨byteBuffer, -, -, rfl⟩ | ⟨-, rfl⟩
  · exact absurd hfatal (hquiet errNum)
  · refine hu.same [.read byteBuffer] rfl rfl rfl rfl ?_ hu.tasks rfl (by simp [isNote]) rfl
      (by simp [delivery?])
    exact List.forall_mem_cons.mpr ⟨rfl, hu.handlers⟩
  · obtain ⟨hkept, hblocks⟩ := modify_kept epoll (u.shutdownRead.setEvents kWriteEvent)
    obtain ⟨hinterest, hevents⟩ :=
      modify_interest (s := u.shutdownRead.setEvents kWriteEvent) epoll hu.interest rfl
    rw [if_neg (by simpa using hu.nonempty)]
    refine hu.same [.shutdown .rd] (hkept.state.trans hu.state.symm)
      (hevents.trans hu.events.symm) (hinterest.trans hu.interest.symm) hblocks ?_ ?_ hkept.log
      (by simp [isNote]) rfl (by simp [delivery?])
    · exact fun frame hframe => hu.handlers frame (hkept.stack ▸ hframe)
    · exact fun htask => hu.tasks (hkept.pendingTasks ▸ htask)

omit [Inhabited β] in
/-- A write event that does not report all bytes sends a part of them. -/
theorem Emptying.handleWriteEvent {answers : List Answer} {epoll : Bool} (hu : Emptying t u)
    (hquiet : ∀ sent errNum, u.written answers ≠ some (sent, .error errNum))
    (hsome : ¬ ∃ sent, u.written answers = some (sent, .ok (pending u.writeBuffer).length))
    (h : u.handleWriteEvent answers epoll = some v) : Emptying t v := by
  obtain ⟨sent, result, hwritten, rfl⟩ := handleWriteEvent_eq hu.blocks hu.alive h
  have hassert : u.assertThat .handleWriteEvent (!u.writeBuffer.isEmpty) = u := by
    simp [assertThat, hu.nonempty]
  rw [hassert]
  cases result with
  | error errNum => exact absurd hwritten (hquiet sent errNum)
  | ok n =>
      obtain ⟨hn, hle⟩ := le_of_written hu.blocks hwritten
      have hne : (pending u.writeBuffer).length ≠ n := by
        rintro rfl
        exact hsome ⟨sent, hwritten⟩
      obtain ⟨hblocks, hpending⟩ := removeSentBuffer_spec hu.blocks hle
      have hnonempty : removeSentBuffer u.writeBuffer n ≠ [] := by
        intro hnil
        have hnone := hblocks.pending_eq_nil.mpr hnil
        rw [hpending, List.drop_eq_nil_iff] at hnone
        omega
      rw [finishWriteEvent, if_neg hne]
      refine hu.next [.accepted sent] rfl rfl rfl hblocks hnonempty hu.handlers hu.tasks rfl
        (by simp [delivery?]) (hpending.trans ?_)
      simp [writtenBytes, hn]

theorem Emptying.act (hu : Emptying t u) (hsome : u.LeavesSome action)
    (h : u.act label action = some v) : Emptying t v := by
  obtain ⟨hquiet, hsome⟩ := hsome
  cases action with
  | write data callback answer before epoll => exact hu.doWrite h
  | shutdown | shutdownRead | shutdownWrite | handleErrorEvent => exact absurd hquiet id
  | handlerReturns =>
      simp only [Session.act] at h
      split at h
      case h_1 stack hstack =>
          rw [← Option.some.inj h]
          refine hu.same [] rfl rfl rfl rfl ?_ hu.tasks (by simp) (by simp) rfl (by simp)
          exact (List.forall_mem_cons.mp (hstack ▸ hu.handlers)).2
      case h_2 => cases h
  | handleReadEvent answers epoll =>
      obtain ⟨-, h⟩ := Option.ite_none_right_eq_some.mp h
      exact hu.handleReadEvent hquiet h
  | handleWriteEvent answers epoll =>
      obtain ⟨-, h⟩ := Option.ite_none_right_eq_some.mp h
      exact hu.handleWriteEvent hquiet hsome h
  | runTask epoll =>
      obtain ⟨-, h⟩ := Option.ite_none_right_eq_some.mp h
      have htasks := hu.tasks
      rw [Session.runTask] at h
      split at h
      case h_1 => cases h
      case h_2 pendingTasks hpending =>
          rw [hpending, List.mem_cons, not_or] at htasks
          rw [← Option.some.inj h]
          refine hu.same [] rfl rfl rfl rfl ?_ htasks.2 (by simp) (by simp) rfl (by simp)
          exact List.forall_mem_cons.mpr ⟨rfl, hu.handlers⟩
      case h_3 pendingTasks hpending => simp [hpending] at htasks

theorem Emptying.step (hu : Emptying t u) (hsome : u.LeavesSome action)
    (h : (system label).step u action = some v) : Emptying t v := by
  obtain ⟨w, hact, hresume⟩ := Option.bind_eq_some_iff.mp h
  have hw := hu.act hsome hact
  rw [resume, unwind_handlers hw.handlers] at hresume
  exact Option.some.inj hresume ▸ hw

omit [Inhabited β] in
theorem Emptying.draining (hu : Emptying t u) : Draining t u := ⟨hu.alive, hu.interest, hu.held⟩

/-- The write event that reports all bytes. -/
theorem Emptying.ends (hu : Emptying t u) (hall : u.ReportsAll action)
    (h : (system label).step u action = some v) :
    v.state = .inactive ∧
      ∃ events, v.log = u.log ++ events ∧ events.filterMap delivery? = [.disconnect] := by
  cases action with
  | handleWriteEvent answers epoll =>
      obtain ⟨w, hact, hresume⟩ := Option.bind_eq_some_iff.mp h
      obtain ⟨-, hact⟩ := Option.ite_none_right_eq_some.mp hact
      obtain ⟨sent, result, hwritten, rfl⟩ := handleWriteEvent_eq hu.blocks hu.alive hact
      obtain ⟨sent', hall⟩ := hall
      obtain ⟨rfl, rfl⟩ := Prod.mk.inj (Option.some.inj (hwritten.symm.trans hall))
      have hassert : u.assertThat .handleWriteEvent (!u.writeBuffer.isEmpty) = u := by
        simp [assertThat, hu.nonempty]
      have hhalf : (u.emit (.accepted sent)).drain.state = .halfClose :=
        (state_drain _).trans hu.state
      rw [hassert, finishWriteEvent, if_pos rfl] at hresume
      simp only [hhalf, if_true] at hresume
      rw [← Option.some.inj hresume]
      refine ⟨rfl, [.accepted sent] ++ (callbackTasks u.writeCompleteCallbacks).map .addTask ++
        [.disconnect], ?_, ?_⟩
      · simp [channelInActive, drain, queueCallbacks_eq, emit]
      · have htasks : ((callbackTasks u.writeCompleteCallbacks).map
            (Event.addTask (β := β))).filterMap delivery? = [] := by
          simp [List.filterMap_map, Function.comp_def, delivery?]
        rw [List.filterMap_append, List.filterMap_append, htasks]
        rfl
  | _ => exact absurd hall id

/-! ## The end of the stream -/

/-- Reading the end of the stream with output pending. -/
theorem endOfStream_eq {rest : List (ReadAnswer β)} {epoll : Bool} (halive : s.state ≠ .inactive)
    (hpending : s.writeBuffer ≠ [])
    (h : (system label).step s (.handleReadEvent (.data [] :: rest) epoll) = some t) :
    s.stack = [] ∧ t = (s.shutdownRead.setEvents kWriteEvent).modify epoll := by
  obtain ⟨u, hact, hresume⟩ := Option.bind_eq_some_iff.mp h
  obtain ⟨hstack, hact⟩ := Option.ite_none_right_eq_some.mp hact
  have hstack : s.stack = [] := by simpa using hstack
  refine ⟨hstack, ?_⟩
  have hend : received kRecvBufferSize (.data [] :: rest : List (ReadAnswer β)) = .ok [] := by
    simp [received]
  rcases handleReadEvent_eq halive hact with
    ⟨errNum, hreceived, -⟩ | ⟨byteBuffer, hreceived, hne, -⟩ | ⟨-, rfl⟩
  · rw [hend] at hreceived
    cases hreceived
  · rw [hend] at hreceived
    exact absurd (Except.ok.inj hreceived).symm hne
  · obtain ⟨hkept, -⟩ := modify_kept epoll (s.shutdownRead.setEvents kWriteEvent)
    rw [if_neg (by simpa using hpending), resume_of_nil (hkept.stack.trans hstack)] at hresume
    exact (Option.some.inj hresume).symm

/-- `epoll_ctl` takes effect and the flag of the channel agrees with the interest list, or
`kWriteEvent` is the only event registered already. -/
def RegistersWrite (epoll : Bool) (s : Session β) : Prop :=
  epoll = true ∧ (s.isRegistered = true ↔ s.interest ≠ none) ∨ s.interest = some kWriteEvent

omit [Inhabited β] in
theorem interest_endOfStream (epoll : Bool) (s : Session β) :
    ((s.shutdownRead.setEvents kWriteEvent).modify epoll).interest = some kWriteEvent ↔
      s.RegistersWrite epoll := by
  have hsome : (s.shutdownRead.setEvents kWriteEvent).events ≠ kNoneEvent := by
    simp [setEvents, kWriteEvent, kNoneEvent]
  obtain ⟨-, -, hinterest⟩ := modify_registration epoll hsome
  rw [hinterest, RegistersWrite]
  change (if epoll = true ∧ (s.isRegistered = true ↔ s.interest ≠ none) then some kWriteEvent
    else s.interest) = _ ↔ _
  split
  case isTrue heffect => simp [heffect]
  case isFalse hnone => simp [hnone]

/-- Without a deregister task the channel drains. -/
theorem drains_endOfStream {epoll : Bool} (hs : s.Filled) (hpending : s.writeBuffer ≠ [])
    (hstack : s.stack = []) (htasks : .deregister ∉ s.pendingTasks)
    (hregisters : s.RegistersWrite epoll) :
    Drains label ((s.shutdownRead.setEvents kWriteEvent).modify epoll) := by
  obtain ⟨hkept, hblocks⟩ := modify_kept epoll (s.shutdownRead.setEvents kWriteEvent)
  have hsome : (s.shutdownRead.setEvents kWriteEvent).events ≠ kNoneEvent := by
    simp [setEvents, kWriteEvent, kNoneEvent]
  obtain ⟨hevents, -, -⟩ := modify_registration epoll hsome
  have hinterest := (interest_endOfStream epoll s).mpr hregisters
  generalize (s.shutdownRead.setEvents kWriteEvent).modify epoll = t
    at hkept hblocks hevents hinterest
  have hempty : t.stack = [] := hkept.stack.trans hstack
  have ht : Emptying t t := by
    refine ⟨hkept.state, hevents, hinterest, hblocks ▸ hs.blocks, hblocks ▸ hpending,
      by simp [hempty], hkept.pendingTasks ▸ htasks, [], by simp, by simp, ?_⟩
    simp [writtenBytes, messages, acceptedBytes]
  have hrun : ∀ actions u, (system label).StepsMeet LeavesSome t actions →
      (system label).run t actions = some u → Emptying t u := fun actions u hmeet hu =>
    hmeet.invariant ht hu fun _ _ _ hv hsome hstep => hv.step hsome hstep
  exact ⟨fun actions u hmeet hu => (hrun actions u hmeet hu).draining,
    fun actions u action v hmeet hu hall hstep => (hrun actions u hmeet hu).ends hall hstep⟩

/-- The tasks of the loop run up to the first that deregisters the channel. -/
theorem exists_deregistered {s : Session β} (hstack : s.stack = [])
    (htask : .deregister ∈ s.pendingTasks) :
    ∃ actions u, (system label).StepsMeet LeavesSome s actions ∧
      (system label).run s actions = some u ∧ u.interest = none := by
  induction htasks : s.pendingTasks generalizing s with
  | nil => simp [htasks] at htask
  | cons task pendingTasks ih =>
      have hquiet : ∀ (v : Session β) (action : Action α β), action = .runTask true ∨
          action = .handlerReturns → v.LeavesSome action := by
        rintro v action (rfl | rfl) <;> exact ⟨trivial, id⟩
      cases task with
      | deregister =>
          have hstep : (system label).step s (.runTask true) =
              some ({ s with pendingTasks }.deregisterChannel true) := by
            obtain ⟨hkept, -⟩ := assertThat_kept .deregisterChannel s.inLoop { s with pendingTasks }
            have hsame : ({ s with pendingTasks }.deregisterChannel true).stack = [] :=
              hkept.stack.trans hstack
            rw [← resume_of_nil hsame]
            simp [system, Session.act, hstack, runTask, htasks]
          exact ⟨[.runTask true], _, .cons hstep (hquiet _ _ (.inl rfl)) trivial,
            by rw [System.run_cons, hstep]; rfl, rfl⟩
      | writeComplete callback =>
          have hstep : (system label).step s (.runTask true) =
              some { s with pendingTasks, stack := [.handler] } := by
            simp [system, Session.act, hstack, runTask, htasks, resume, unwind]
          have hreturn : (system label).step { s with pendingTasks, stack := [.handler] }
              .handlerReturns = some { s with pendingTasks, stack := [] } := by
            simp [system, Session.act, resume, unwind]
          obtain ⟨actions, u, hmeet, hrun, hnone⟩ :=
            ih (s := { s with pendingTasks, stack := [] }) rfl (by simpa [htasks] using htask) rfl
          refine ⟨.runTask true :: .handlerReturns :: actions, u, ?_, ?_, hnone⟩
          · exact .cons hstep (hquiet _ _ (.inl rfl))
              (.cons hreturn (hquiet _ _ (.inr rfl)) hmeet)
          · rw [System.run_cons, hstep, Option.bind_some, System.run_cons, hreturn,
              Option.bind_some, hrun]

/-- A deregister task that waits ends the draining early. -/
theorem not_drains_of_deregister (hstack : t.stack = []) (htask : .deregister ∈ t.pendingTasks) :
    ¬ Drains label t := by
  intro hdrains
  obtain ⟨actions, u, hmeet, hrun, hnone⟩ := exists_deregistered hstack htask
  have hinterest := (hdrains.keeps actions u hmeet hrun).interest
  rw [hnone] at hinterest
  cases hinterest

/-- When the end of the stream is read while output is pending, that output and what is written
afterwards is sent before the channel disconnects, in every run in which nothing else ends it,
if and only if no deregister task of the channel waits in its loop and `kWriteEvent` is registered. -/
theorem drains_iff {rest : List (ReadAnswer β)} {epoll : Bool} (hs : (system label).Reachable s)
    (halive : s.state ≠ .inactive) (hpending : s.writeBuffer ≠ [])
    (h : (system label).step s (.handleReadEvent (.data [] :: rest) epoll) = some t) :
    Drains label t ↔ .deregister ∉ s.pendingTasks ∧ s.RegistersWrite epoll := by
  obtain ⟨hstack, rfl⟩ := endOfStream_eq halive hpending h
  obtain ⟨hkept, -⟩ := modify_kept epoll (s.shutdownRead.setEvents kWriteEvent)
  constructor
  · intro hdrains
    refine ⟨fun htask => ?_, ?_⟩
    · exact not_drains_of_deregister (hkept.stack.trans hstack) (hkept.pendingTasks ▸ htask) hdrains
    · exact (interest_endOfStream epoll s).mp (hdrains.keeps [] _ trivial rfl).interest
  · rintro ⟨htasks, hregisters⟩
    exact drains_endOfStream (filled_of_reachable hs) hpending hstack htasks hregisters

end

/-- Two bytes that the kernel does not take. -/
def unsent : List (Action UInt8 UInt8) := [.handlerReturns, .write [1, 2] false (.failed EAGAIN) 0 true]

/-- An error event comes first; its disconnect handler calls `shutdownRead`. -/
def revived : List (Action UInt8 UInt8) :=
  unsent ++ [.handleErrorEvent, .shutdownRead, .handlerReturns]

def endOfStream : Action UInt8 UInt8 := .handleReadEvent [.data []] true

theorem drains_iff_unsent : ∃ s t : Session UInt8,
    (system plain).run fresh.channelActive unsent = some s ∧
      (system plain).step s endOfStream = some t ∧ Drains plain t := by
  obtain ⟨s, hrun⟩ : ∃ s, (system plain).run fresh.channelActive unsent = some s := ⟨_, rfl⟩
  obtain ⟨t, ht⟩ : ∃ t, ((system plain).run fresh.channelActive unsent).bind
      (fun s => (system plain).step s endOfStream) = some t := ⟨_, rfl⟩
  have hstate : ((system plain).run fresh.channelActive unsent).map
      (fun s => (s.state, s.writeBuffer.isEmpty, s.pendingTasks, s.isRegistered, s.interest)) =
        some (.active, false, [], true, some 3) := rfl
  rw [hrun] at ht hstate
  simp only [Option.map_some, Option.some.injEq, Prod.mk.injEq] at hstate
  obtain ⟨hactive, hpending, htasks, hregistered, hinterest⟩ := hstate
  refine ⟨s, t, hrun, ht, (drains_iff (System.Reachable.run _ (.initial rfl) hrun) (by simp [hactive])
    (by simpa using hpending) ht).mpr ⟨by simp [htasks], .inl ⟨rfl, ?_⟩⟩⟩
  simp [hregistered, hinterest]

/-- The deregister task queued after the error event takes the channel out of the loop before its
output is sent. -/
theorem not_drains_revived : ∃ s t : Session UInt8, (system plain).Reachable s ∧
    s.state ≠ .inactive ∧ s.writeBuffer ≠ [] ∧ (system plain).step s endOfStream = some t ∧
      ¬ Drains plain t := by
  obtain ⟨s, hrun⟩ : ∃ s, (system plain).run fresh.channelActive revived = some s := ⟨_, rfl⟩
  obtain ⟨t, ht⟩ : ∃ t, ((system plain).run fresh.channelActive revived).bind
      (fun s => (system plain).step s endOfStream) = some t := ⟨_, rfl⟩
  have hstate : ((system plain).run fresh.channelActive revived).map
      (fun s => (s.state, s.writeBuffer.isEmpty)) = some (.halfClose, false) := rfl
  have hafter : (((system plain).run fresh.channelActive revived).bind
      (fun s => (system plain).step s endOfStream)).map (fun t => (t.stack.length, t.pendingTasks)) =
        some (0, [.deregister]) := rfl
  rw [hrun] at ht hstate hafter
  rw [Option.bind_some] at hafter ht
  rw [ht] at hafter
  simp only [Option.map_some, Option.some.injEq, Prod.mk.injEq] at hstate hafter
  obtain ⟨hhalf, hpending⟩ := hstate
  obtain ⟨hstack, htasks⟩ := hafter
  exact ⟨s, t, System.Reachable.run _ (.initial rfl) hrun, by simp [hhalf], by simpa using hpending,
    ht, not_drains_of_deregister (List.length_eq_zero_iff.mp hstack) (by simp [htasks])⟩

end Nets.Session
