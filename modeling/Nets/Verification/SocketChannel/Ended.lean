import Nets.Verification.SocketChannel.Equations

/-! # Channels that have ended

What a call of a channel means for its loop: an `INACTIVE` channel stays so unless a shutdown of one
side revives it, only an `INACTIVE` channel asks to be deregistered, and it leaves its registration
alone unless a call on the stack has still to append to the blocks. -/

namespace Nets.Session

open Library

variable {α β : Type} {s t u : Session β}

/-- `shutdownRead` and `shutdownWrite` assign `HALF_CLOSE` to a channel that has ended. -/
def Revives (s : Session β) : Action α β → Prop
  | .shutdownRead | .shutdownWrite => s.state = .inactive
  | _ => False

/-- The deregister task of the channel is queued, or will be when a handler returns. -/
def IsClosing (s : Session β) : Prop := .deregister ∈ s.stack ∨ .deregister ∈ s.pendingTasks

/-- No call has still to append to the blocks. -/
def WritesNothing (stack : List (Frame β)) : Prop :=
  ∀ remaining callback epoll, .finishWrite remaining callback epoll ∉ stack

theorem writesNothing_nil : WritesNothing ([] : List (Frame β)) := fun _ _ _ => List.not_mem_nil

theorem WritesNothing.channelInActive (h : WritesNothing s.stack) :
    WritesNothing s.channelInActive.stack := by
  intro remaining callback epoll hmem
  exact h remaining callback epoll (by simpa [Session.channelInActive] using hmem)

theorem WritesNothing.tail {stack : List (Frame β)} {frame : Frame β}
    (h : WritesNothing (frame :: stack)) : WritesNothing stack :=
  fun remaining callback epoll hmem => h remaining callback epoll (List.mem_cons_of_mem _ hmem)

structure Settles (s t : Session β) : Prop where
  ended : s.state = .inactive → t.state = .inactive
  closing : t.IsClosing → s.IsClosing ∨ t.state = .inactive
  quiet : s.state = .inactive → WritesNothing s.stack →
    t.interest = s.interest ∧ WritesNothing t.stack

theorem Settles.refl (s : Session β) : Settles s s := ⟨id, .inl, fun _ h => ⟨rfl, h⟩⟩

theorem Settles.trans (h : Settles s t) (h' : Settles t u) : Settles s u where
  ended hs := h'.ended (h.ended hs)
  closing hu := by
    rcases h'.closing hu with ht | hend
    · exact (h.closing ht).imp_right h'.ended
    · exact .inr hend
  quiet hs hstack := by
    obtain ⟨hinterest, ht⟩ := h.quiet hs hstack
    obtain ⟨hinterest', hu⟩ := h'.quiet (h.ended hs) ht
    exact ⟨hinterest'.trans hinterest, hu⟩

theorem IsClosing.of_eq (h : t.IsClosing) (hstack : t.stack = s.stack)
    (htasks : .deregister ∈ t.pendingTasks → .deregister ∈ s.pendingTasks) : s.IsClosing :=
  h.imp (hstack ▸ ·) htasks

/-- The channel goes on, and no deregister task is queued. -/
theorem Settles.live (hlive : s.state ≠ .inactive) (hstack : t.stack = s.stack)
    (htasks : .deregister ∈ t.pendingTasks → .deregister ∈ s.pendingTasks) : Settles s t :=
  ⟨fun h => absurd h hlive, fun h => .inl (h.of_eq hstack htasks), fun h => absurd h hlive⟩

theorem Settles.ends (hlive : s.state ≠ .inactive) (hended : t.state = .inactive) : Settles s t :=
  ⟨fun h => absurd h hlive, fun _ => .inr hended, fun h => absurd h hlive⟩

theorem settles_handleError (hlive : s.state ≠ .inactive) (mild : Prop) [Decidable mild] :
    Settles s (if mild then s else s.channelInActive) := by
  split
  · exact .refl s
  · exact .ends hlive rfl

/-- `shutdown` may be called again. -/
theorem settles_shutdown (s : Session β) : Settles s s.shutdown where
  ended _ := rfl
  closing _ := .inr rfl
  quiet _ hstack := ⟨rfl, hstack.channelInActive⟩

theorem settles_queueCallbacks (callbacks : List (Option ℕ)) (s : Session β) :
    Settles s (queueCallbacks callbacks s) := by
  rw [queueCallbacks_eq]
  refine ⟨id, fun h => .inl (h.of_eq rfl fun hmem => ?_), fun _ hstack => ⟨rfl, hstack⟩⟩
  simpa [callbackTasks_eq] using hmem

theorem settles_modify (hlive : s.state ≠ .inactive) (epoll : Bool) : Settles s (s.modify epoll) := by
  obtain ⟨hkept, -⟩ := modify_kept epoll s
  exact .live hlive hkept.stack fun hmem => hkept.pendingTasks ▸ hmem

theorem settles_finishWriteEvent {result : Except ℕ ℕ} (totalBytes : ℕ) (epoll : Bool)
    (hlive : s.state ≠ .inactive) :
    Settles s (s.finishWriteEvent totalBytes result epoll) := by
  cases result with
  | error errNum => exact settles_handleError hlive _
  | ok n =>
      rw [Session.finishWriteEvent]
      split
      · have hempty : Settles s { s with writeBuffer := [], writeCompleteCallbacks := [] } :=
          .live hlive rfl id
        have hdrain : Settles s s.drain := hempty.trans (settles_queueCallbacks _ _)
        have hstate : s.drain.state ≠ .inactive := by
          rwa [drain, queueCallbacks_eq]
        simp only
        split
        · exact hdrain.trans (.ends hstate rfl)
        · have hevents : Settles s.drain (s.drain.setEvents kReadEvent) := .live hstate rfl id
          exact hdrain.trans (hevents.trans
            (settles_modify (s := s.drain.setEvents kReadEvent) hstate epoll))
      · exact .live hlive rfl id

section

variable [Inhabited β] {label : ℕ → List α → List β} {action : Action α β}

theorem settles_appendBuffer {data : List β} {epoll : Bool} (hlive : s.state ≠ .inactive)
    (h : s.appendBuffer data epoll = some t) (callback : Option ℕ) :
    Settles s (t.pushCallback callback) := by
  obtain ⟨hkept, -⟩ := appendBuffer_kept h
  exact .live hlive hkept.stack fun hmem => hkept.pendingTasks ▸ hmem

theorem settles_finishWrite {remaining : List β} {callback : Option ℕ} {epoll : Bool}
    (hlive : s.state ≠ .inactive) (h : s.finishWrite remaining callback epoll = some t) :
    Settles s t := by
  rcases finishWrite_eq h with ⟨-, rfl⟩ | ⟨-, u, hu, rfl⟩
  · exact settles_queueCallbacks _ s
  · exact settles_appendBuffer hlive hu callback

theorem settles_doWrite {data : List β} {callback : Option ℕ} {answer : Answer} {before : β}
    {epoll : Bool} (h : s.doWrite data callback answer before epoll = some t) : Settles s t := by
  rw [doWrite] at h
  split at h
  · exact Option.some.inj h ▸ .refl s
  rename_i hlive
  split at h
  · exact Option.some.inj h ▸ .refl s
  split at h
  · cases answer with
    | accepted bytes =>
        have hemit : Settles s (s.emit (.accepted (data.take bytes))) := .live hlive rfl id
        exact hemit.trans (settles_finishWrite hlive h)
    | failed errNum =>
        simp only [doWriteDirectly] at h
        split at h
        · exact settles_finishWrite hlive h
        · rename_i hfatal
          rw [← Option.some.inj h, handleWriteError, if_neg hfatal]
          exact .ends hlive rfl
  · obtain ⟨u, hu, rfl⟩ := Option.map_eq_some_iff.mp h
    exact settles_appendBuffer hlive hu callback

theorem settles_handleReadEvent {answers : List (ReadAnswer β)} {epoll : Bool}
    (h : s.handleReadEvent answers epoll = some t) : Settles s t := by
  rw [handleReadEvent] at h
  split at h
  · exact Option.some.inj h ▸ .refl s
  rename_i hlive
  split at h
  · cases h
  · exact Option.some.inj h ▸ settles_handleError hlive _
  split at h
  · rw [← Option.some.inj h]
    refine ⟨fun hs => absurd hs hlive, fun hclosing => .inl ?_, fun hs => absurd hs hlive⟩
    simpa [IsClosing, fireRead] using hclosing
  split at h
  · exact Option.some.inj h ▸ settles_shutdown s
  · rw [← Option.some.inj h]
    have hhalf : Settles s (s.shutdownRead.setEvents kWriteEvent) := .live hlive rfl id
    have hstate : (s.shutdownRead.setEvents kWriteEvent).state ≠ .inactive := by
      simp [setEvents, shutdownRead]
    exact hhalf.trans (settles_modify hstate epoll)

omit [Inhabited β] in
theorem settles_handleWriteEvent {answers : List Answer} {epoll : Bool}
    (h : s.handleWriteEvent answers epoll = some t) : Settles s t := by
  rw [handleWriteEvent] at h
  split at h
  · exact Option.some.inj h ▸ .refl s
  rename_i hlive
  obtain ⟨iovecs, -, h⟩ := Option.bind_eq_some_iff.mp h
  obtain ⟨⟨sent, result⟩, -, rfl⟩ := Option.map_eq_some_iff.mp h
  obtain ⟨hkept, -⟩ := assertThat_kept .handleWriteEvent (!s.writeBuffer.isEmpty) s
  have hasserted : Settles s ((s.assertThat .handleWriteEvent (!s.writeBuffer.isEmpty)).emit
      (.accepted sent)) :=
    .live hlive hkept.stack fun hmem => hkept.pendingTasks ▸ hmem
  exact hasserted.trans (settles_finishWriteEvent _ epoll fun hs => hlive (hkept.state ▸ hs))

/-- A call of the application or a handler of the loop. -/
theorem settles_act (htask : ∀ epoll, action ≠ .runTask epoll) (hok : ¬ s.Revives action)
    (h : s.act label action = some t) : Settles s t := by
  cases action with
  | write data callback answer before epoll =>
      have hcalled : Settles s { s with
          writes := s.writes + 1
          log := s.log ++ [Event.write (label s.writes data)
            (if callback then some s.writes else none)] } :=
        ⟨id, .inl, fun _ hstack => ⟨rfl, hstack⟩⟩
      exact hcalled.trans (settles_doWrite h)
  | shutdown => exact Option.some.inj h ▸ settles_shutdown s
  | shutdownRead | shutdownWrite => exact Option.some.inj h ▸ .live hok rfl id
  | handlerReturns =>
      simp only [act] at h
      split at h
      case h_1 stack hstack =>
          rw [← Option.some.inj h]
          refine ⟨id, fun hclosing => .inl ?_, fun _ hwrites => ⟨rfl, (hstack ▸ hwrites).tail⟩⟩
          exact hclosing.imp_left fun hmem => hstack ▸ List.mem_cons_of_mem _ hmem
      case h_2 => cases h
  | handleReadEvent answers epoll =>
      exact settles_handleReadEvent (Option.ite_none_right_eq_some.mp h).2
  | handleWriteEvent answers epoll =>
      exact settles_handleWriteEvent (Option.ite_none_right_eq_some.mp h).2
  | handleErrorEvent =>
      obtain ⟨-, h⟩ := Option.ite_none_right_eq_some.mp h
      rw [← Option.some.inj h, handleErrorEvent]
      split
      · exact .refl s
      · exact .ends ‹_› rfl
  | runTask epoll => exact absurd rfl (htask epoll)

/-- What is left of the calls on the stack queues the task that was owed. -/
theorem settles_unwind {stack : List (Frame β)} (h : unwind stack s = some t) :
    Settles { s with stack } t := by
  induction stack generalizing s with
  | nil => exact Option.some.inj h ▸ .refl _
  | cons frame stack ih =>
      cases frame with
      | handler => exact Option.some.inj h ▸ .refl _
      | deregister =>
          have hqueue : Settles { s with stack := .deregister :: stack }
              { s.addTask .deregister with stack } :=
            ⟨id, fun _ => .inl (.inl List.mem_cons_self), fun _ hwrites => ⟨rfl, hwrites.tail⟩⟩
          exact hqueue.trans (ih h)
      | finishWrite remaining callback epoll =>
          obtain ⟨v, hv, hrest⟩ := Option.bind_eq_some_iff.mp h
          refine Settles.trans ?_ (ih hrest)
          refine ⟨fun hs => (finishWrite_frame hv).1.trans hs, fun hclosing => .inl ?_,
            fun _ hwrites => absurd List.mem_cons_self (hwrites remaining callback epoll)⟩
          refine hclosing.imp (List.mem_cons_of_mem _) fun hmem => ?_
          rcases finishWrite_eq hv with ⟨-, rfl⟩ | ⟨-, w, hw, rfl⟩
          · simpa [queueCallbacks_eq, callbackTasks_eq] using hmem
          · exact (appendBuffer_kept hw).1.pendingTasks ▸ hmem

theorem settles_call (htask : ∀ epoll, action ≠ .runTask epoll) (hok : ¬ s.Revives action)
    (h : (s.act label action).bind resume = some t) : Settles s t := by
  obtain ⟨u, hact, hresume⟩ := Option.bind_eq_some_iff.mp h
  exact (settles_act htask hok hact).trans (settles_unwind hresume)

/-- A channel that has ended, with no call to come back to, takes no write. -/
theorem call_of_ended {data : List α} {callback : Bool} {answer : Answer} {before : β}
    {epoll : Bool} (hstate : s.state = .inactive) (hstack : s.stack = [])
    (h : (s.act label (.write data callback answer before epoll)).bind resume = some t) :
    t.state = .inactive ∧ t.stack = [] ∧ t.pendingTasks = s.pendingTasks := by
  obtain ⟨u, hact, hresume⟩ := Option.bind_eq_some_iff.mp h
  simp only [act, write, doWrite, hstate, if_true] at hact
  have hu := Option.some.inj hact
  have hnil : u.stack = [] := hu ▸ hstack
  rw [resume_of_nil hnil] at hresume
  rw [← Option.some.inj hresume, ← hu]
  exact ⟨hstate, hstack, rfl⟩

end

end Nets.Session
