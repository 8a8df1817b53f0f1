import Nets.Verification.SocketChannel.Equations

/-! # The events a channel is registered for

As long as every `epoll_ctl` succeeds, the interest mask of a channel is `events_`, and a channel with
output asks for write events. -/

namespace Nets.Session

open Library

variable {α β : Type} {s t : Session β}

def EpollSucceeds (_ : Session β) : Action α β → Prop
  | .write _ _ _ _ epoll | .handleReadEvent _ epoll | .handleWriteEvent _ epoll | .runTask epoll =>
    epoll = true
  | .shutdown | .shutdownRead | .shutdownWrite | .handlerReturns | .handleErrorEvent => True

instance (s : Session β) : ∀ action : Action α β, Decidable (s.EpollSucceeds action)
  | .write _ _ _ _ epoll | .handleReadEvent _ epoll | .handleWriteEvent _ epoll | .runTask epoll =>
    inferInstanceAs (Decidable (epoll = true))
  | .shutdown | .shutdownRead | .shutdownWrite | .handlerReturns | .handleErrorEvent =>
    inferInstanceAs (Decidable True)

/-- The `epoll_ctl` of a direct write that is not finished will succeed. -/
def WillSucceed : Frame β → Prop
  | .handler | .deregister => True
  | .finishWrite _ _ epoll => epoll = true

/-- What the poller was last given. -/
def Agrees (s : Session β) : Prop := s.interest = if s.isRegistered then some s.events else none

structure Armed (s : Session β) : Prop where
  agrees : s.Agrees
  output : s.writeBuffer ≠ [] → s.hasWriteEvent = true
  frames : ∀ frame ∈ s.stack, WillSucceed frame

/-! ## Registration -/

theorem hasWriteEvent_addEvent (s : Session β) : (s.addEvent kWriteEvent).hasWriteEvent = true := by
  simp [hasWriteEvent, addEvent, Nat.and_or_distrib_right, kWriteEvent]

/-- `modify` makes the poller agree, whatever the events were before. -/
theorem agrees_modify (h : s.interest = none ↔ s.isRegistered = false) : (s.modify true).Agrees := by
  obtain ⟨h₁, h₂, h₃, -⟩ := assertThat_registration .modifyChannel s.inLoop s
  rw [modify]
  generalize s.assertThat .modifyChannel s.inLoop = u at h₁ h₂ h₃
  rw [← h₂, ← h₃] at h
  split
  case isTrue hregistered =>
      have hsome : u.interest ≠ none := by simp [h, hregistered]
      split
      · simp [epollMod, hsome, Agrees, hregistered]
      · simp [epollDel, Agrees]
  case isFalse hregistered =>
      have hnone : u.interest = none := by simp [h, hregistered]
      simp [epollAdd, hnone, Agrees]

theorem Agrees.isNone (hs : s.Agrees) : s.interest = none ↔ s.isRegistered = false := by
  rw [hs]
  cases s.isRegistered <;> simp

theorem Armed.same (hs : s.Armed) (hevents : t.events = s.events)
    (hregistered : t.isRegistered = s.isRegistered) (hinterest : t.interest = s.interest)
    (houtput : t.writeBuffer ≠ [] → s.writeBuffer ≠ []) (hstack : ∀ frame ∈ t.stack, WillSucceed frame) :
    t.Armed := by
  refine ⟨?_, fun hne => ?_, hstack⟩
  · rw [Agrees, hevents, hregistered, hinterest]
    exact hs.agrees
  · rw [hasWriteEvent, hevents]
    exact hs.output (houtput hne)

/-- `setEvents` or `addEvent`, and `modify`. -/
theorem Armed.modify (hs : s.Armed) (hregistered : t.isRegistered = s.isRegistered)
    (hinterest : t.interest = s.interest) (houtput : t.writeBuffer ≠ [] → t.hasWriteEvent = true)
    (hstack : t.stack = s.stack) : (t.modify true).Armed := by
  have hnone : t.interest = none ↔ t.isRegistered = false := by
    rw [hinterest, hregistered]
    exact hs.agrees.isNone
  obtain ⟨hkept, hblocks⟩ := modify_kept true t
  refine ⟨agrees_modify hnone, fun hne => ?_, ?_⟩
  · have hevents : (t.modify true).events = t.events := by
      obtain ⟨h₁, -⟩ := assertThat_registration .modifyChannel t.inLoop t
      rw [Session.modify]
      generalize t.assertThat .modifyChannel t.inLoop = u at h₁
      rw [← h₁]
      split
      · split
        · rw [epollMod]
          split <;> rfl
        · rfl
      · rw [epollAdd]
        split <;> rfl
    rw [hasWriteEvent, hevents]
    exact houtput (hblocks ▸ hne)
  · rw [hkept.stack, hstack]
    exact hs.frames

/-! ## Calls -/

theorem Armed.channelInActive (hs : s.Armed) : s.channelInActive.Armed := by
  refine hs.same rfl rfl rfl id ?_
  simpa [Session.channelInActive, WillSucceed] using hs.frames

theorem Armed.shutdownHow (hs : s.Armed) (how : How) : (s.shutdownHow how).Armed := by
  cases how with
  | rd => exact hs.same rfl rfl rfl id hs.frames
  | wr | rdwr => exact hs.same rfl rfl rfl (fun hne => absurd rfl hne) hs.frames

/-- The rest of `handleReadError` and `handleWriteError`. -/
theorem Armed.handleError (hs : s.Armed) (mild : Prop) [Decidable mild] :
    (if mild then s else s.channelInActive).Armed := by
  split
  · exact hs
  · exact hs.channelInActive

theorem removeSentBuffer_ne_nil {writeBuffer : List (ByteBuffer β)} {n : ℕ}
    (h : removeSentBuffer writeBuffer n ≠ []) : writeBuffer ≠ [] := by
  rintro rfl
  exact h rfl

theorem Armed.finishWriteEvent {result : Except ℕ ℕ} (totalBytes : ℕ) (hs : s.Armed) :
    (s.finishWriteEvent totalBytes result true).Armed := by
  cases result with
  | error errNum => exact hs.handleError _
  | ok n =>
      have hdrain : s.drain.Armed ∧ s.drain.writeBuffer = [] := by
        rw [drain, queueCallbacks_eq]
        exact ⟨hs.same rfl rfl rfl (fun hne => absurd rfl hne) hs.frames, rfl⟩
      rw [Session.finishWriteEvent]
      split
      · dsimp only
        split
        · exact hdrain.1.channelInActive
        · exact hdrain.1.modify rfl rfl (fun hne => absurd hdrain.2 hne) rfl
      · exact hs.same rfl rfl rfl removeSentBuffer_ne_nil hs.frames

theorem Armed.handleWriteEvent {answers : List Answer} (hs : s.Armed)
    (h : s.handleWriteEvent answers true = some t) : t.Armed := by
  rw [Session.handleWriteEvent] at h
  split at h
  · exact Option.some.inj h ▸ hs
  · obtain ⟨iovecs, -, h⟩ := Option.bind_eq_some_iff.mp h
    obtain ⟨⟨sent, result⟩, -, rfl⟩ := Option.map_eq_some_iff.mp h
    obtain ⟨hkept, hblocks⟩ := assertThat_kept .handleWriteEvent (!s.writeBuffer.isEmpty) s
    obtain ⟨hevents, hregistered, hinterest, -⟩ :=
      assertThat_registration .handleWriteEvent (!s.writeBuffer.isEmpty) s
    refine Armed.finishWriteEvent _ (hs.same hevents hregistered hinterest ?_ ?_)
    · exact fun hne => hblocks ▸ hne
    · exact fun frame hframe => hs.frames frame (hkept.stack ▸ hframe)

theorem Armed.runTask (hs : s.Armed) (h : s.runTask true = some t) : t.Armed := by
  rw [Session.runTask] at h
  split at h
  · cases h
  · rw [← Option.some.inj h]
    exact hs.same rfl rfl rfl id (List.forall_mem_cons.mpr ⟨trivial, hs.frames⟩)
  · rename_i pendingTasks _
    obtain ⟨hkept, hblocks⟩ := assertThat_kept .deregisterChannel s.inLoop { s with pendingTasks }
    obtain ⟨hevents, -⟩ := assertThat_registration .deregisterChannel s.inLoop { s with pendingTasks }
    rw [← Option.some.inj h]
    refine ⟨rfl, fun hne => ?_, fun frame hframe => hs.frames frame (hkept.stack ▸ hframe)⟩
    have hsame : s.hasWriteEvent = true := hs.output (hblocks ▸ hne)
    rw [hasWriteEvent] at hsame ⊢
    exact hevents ▸ hsame

theorem armed_channelActive : (fresh.channelActive : Session β).Armed := by
  refine ⟨?_, fun hne => absurd rfl hne, List.forall_mem_singleton.mpr trivial⟩
  simp [Agrees, channelActive, epollAdd, fresh, addEvent]

variable [Inhabited β]

theorem Armed.appendBuffer {data : List β} (hs : s.Armed) (h : s.appendBuffer data true = some t) :
    t.Armed := by
  rw [Session.appendBuffer] at h
  split at h
  · cases h
  rename_i writeBuffer _
  rw [← Option.some.inj h]
  split
  case isTrue hwrite => exact ⟨hs.agrees, fun _ => hwrite, hs.frames⟩
  · exact hs.modify rfl rfl (fun _ => hasWriteEvent_addEvent _) rfl

theorem Armed.finishWrite {remaining : List β} {callback : Option ℕ} (hs : s.Armed)
    (h : s.finishWrite remaining callback true = some t) : t.Armed := by
  rcases finishWrite_eq h with ⟨-, rfl⟩ | ⟨-, u, hu, rfl⟩
  · rw [queueCallbacks_eq]
    exact hs.same rfl rfl rfl id hs.frames
  · have harmed := hs.appendBuffer hu
    exact harmed.same rfl rfl rfl id harmed.frames

theorem Armed.unwind {stack : List (Frame β)} (hs : s.Armed)
    (hstack : ∀ frame ∈ stack, WillSucceed frame) (h : unwind stack s = some t) : t.Armed := by
  induction stack generalizing s with
  | nil =>
      obtain rfl := Option.some.inj h
      exact hs.same rfl rfl rfl id hstack
  | cons frame stack ih =>
      obtain ⟨hframe, hrest⟩ := List.forall_mem_cons.mp hstack
      cases frame with
      | handler =>
          obtain rfl := Option.some.inj h
          exact hs.same rfl rfl rfl id hstack
      | deregister => exact ih (hs.same (t := s.addTask .deregister) rfl rfl rfl id hs.frames) hrest h
      | finishWrite remaining callback epoll =>
          obtain rfl : epoll = true := hframe
          obtain ⟨u, hu, hunwind⟩ := Option.bind_eq_some_iff.mp h
          exact ih (hs.finishWrite hu) hrest hunwind

theorem Armed.doWrite {data : List β} {callback : Option ℕ} {answer : Answer} {before : β}
    (hs : s.Armed) (h : s.doWrite data callback answer before true = some t) : t.Armed := by
  rw [Session.doWrite] at h
  split at h
  · exact Option.some.inj h ▸ hs
  split at h
  · exact Option.some.inj h ▸ hs
  split at h
  · cases answer with
    | accepted bytes =>
        have hemit : (s.emit (.accepted (data.take bytes))).Armed :=
          hs.same rfl rfl rfl id hs.frames
        exact hemit.finishWrite h
    | failed errNum =>
        rw [doWriteDirectly] at h
        split at h
        · exact hs.finishWrite h
        · rw [← Option.some.inj h]
          have hpush : { s with
              stack := .finishWrite (before :: data) callback true :: s.stack }.Armed :=
            hs.same rfl rfl rfl id (List.forall_mem_cons.mpr ⟨rfl, hs.frames⟩)
          exact hpush.handleError _
  · obtain ⟨u, hu, rfl⟩ := Option.map_eq_some_iff.mp h
    have harmed := hs.appendBuffer hu
    exact harmed.same rfl rfl rfl id harmed.frames

theorem Armed.handleReadEvent {answers : List (ReadAnswer β)} (hs : s.Armed)
    (h : s.handleReadEvent answers true = some t) : t.Armed := by
  rw [Session.handleReadEvent] at h
  split at h
  · exact Option.some.inj h ▸ hs
  split at h
  · cases h
  · exact Option.some.inj h ▸ hs.handleError _
  split at h
  · rw [← Option.some.inj h]
    exact hs.same rfl rfl rfl id (List.forall_mem_cons.mpr ⟨trivial, hs.frames⟩)
  split at h
  · exact Option.some.inj h ▸ (hs.shutdownHow .rdwr).channelInActive
  · rw [← Option.some.inj h]
    exact hs.modify rfl rfl (fun _ => by simp [hasWriteEvent, setEvents, kWriteEvent]) rfl

/-! ## Runs -/

theorem Armed.act {label : ℕ → List α → List β} {action : Action α β} (hs : s.Armed)
    (hepoll : s.EpollSucceeds action) (h : s.act label action = some t) : t.Armed := by
  cases action with
  | write data callback answer before epoll =>
      obtain rfl : epoll = true := hepoll
      have hcalled : { s with
          writes := s.writes + 1
          log := s.log ++ [Event.write (label s.writes data)
            (if callback then some s.writes else none)] }.Armed := hs.same rfl rfl rfl id hs.frames
      exact hcalled.doWrite h
  | shutdown => exact Option.some.inj h ▸ (hs.shutdownHow .rdwr).channelInActive
  | shutdownRead =>
      have hread := hs.shutdownHow .rd
      exact Option.some.inj h ▸ hread.same rfl rfl rfl id hread.frames
  | shutdownWrite =>
      have hwrite := hs.shutdownHow .wr
      exact Option.some.inj h ▸ hwrite.same rfl rfl rfl id hwrite.frames
  | handlerReturns =>
      rw [Session.act] at h
      split at h
      case h_1 stack hstack =>
          rw [← Option.some.inj h]
          exact hs.same rfl rfl rfl id (List.forall_mem_cons.mp (hstack ▸ hs.frames)).2
      case h_2 => cases h
  | handleReadEvent answers epoll =>
      obtain rfl : epoll = true := hepoll
      exact hs.handleReadEvent (Option.ite_none_right_eq_some.mp h).2
  | handleWriteEvent answers epoll =>
      obtain rfl : epoll = true := hepoll
      exact hs.handleWriteEvent (Option.ite_none_right_eq_some.mp h).2
  | handleErrorEvent =>
      obtain ⟨-, h⟩ := Option.ite_none_right_eq_some.mp h
      exact Option.some.inj h ▸ hs.handleError _
  | runTask epoll =>
      obtain rfl : epoll = true := hepoll
      exact hs.runTask (Option.ite_none_right_eq_some.mp h).2

theorem Armed.step {label : ℕ → List α → List β} {action : Action α β} (hs : s.Armed)
    (hepoll : s.EpollSucceeds action) (h : (system label).step s action = some t) : t.Armed := by
  obtain ⟨u, hu, hresume⟩ := Option.bind_eq_some_iff.mp h
  have harmed := hs.act hepoll hu
  exact harmed.unwind harmed.frames hresume

/-- A registered channel with output asks for write events, and its poller knows all it asks for. -/
theorem interest_of_reachable (label : ℕ → List α → List β) (s : Session β)
    (hs : (system label).ReachableUnder EpollSucceeds s) (hregistered : s.isRegistered = true) :
    (s.writeBuffer ≠ [] → s.hasWriteEvent = true) ∧ s.interest = some s.events := by
  have harmed : s.Armed := by
    refine hs.invariant ?_ fun _ _ _ hs hepoll h => hs.step hepoll h
    rintro _ rfl
    exact armed_channelActive
  refine ⟨harmed.output, ?_⟩
  rw [harmed.agrees, if_pos hregistered]

/-- Half of what was written has been sent when the end of the stream is read. -/
theorem interest_halfClosed :
    ∃ s : Session UInt8, (s.state = .halfClose ∧ s.writeBuffer ≠ [] ∧ s.isRegistered = true) ∧
      ((s.writeBuffer ≠ [] → s.hasWriteEvent = true) ∧ s.interest = some s.events) := by
  have hstart : (system fun _ (data : List UInt8) => data).ReachableUnder EpollSucceeds
      fresh.channelActive := .initial rfl
  obtain ⟨s, hs, hhalf⟩ := System.ReachableUnder.exists_of_runUnder _
    (P := fun s : Session UInt8 =>
      s.state = .halfClose ∧ s.writeBuffer ≠ [] ∧ s.isRegistered = true)
    [.handlerReturns, .write [1, 2] false (.accepted 1) 0 true, .handleReadEvent [.data []] true]
    hstart (by decide +kernel)
  exact ⟨s, hhalf, interest_of_reachable _ s hs hhalf.2.2⟩

end Nets.Session
