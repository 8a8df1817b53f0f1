import Nets.Program.SocketChannel

/-! What the calls of a channel may change, one statement for each call. -/

namespace Nets.Session

open Library

variable {β : Type}

/-- Everything is unchanged but the blocks and what concerns the registration. -/
structure Kept (s t : Session β) : Prop where
  state : t.state = s.state
  writeCompleteCallbacks : t.writeCompleteCallbacks = s.writeCompleteCallbacks
  pendingTasks : t.pendingTasks = s.pendingTasks
  stack : t.stack = s.stack
  writes : t.writes = s.writes
  log : t.log = s.log

theorem Kept.refl (s : Session β) : Kept s s := ⟨rfl, rfl, rfl, rfl, rfl, rfl⟩

theorem Kept.trans {s t u : Session β} (h : Kept s t) (h' : Kept t u) : Kept s u :=
  ⟨h'.state.trans h.state, h'.writeCompleteCallbacks.trans h.writeCompleteCallbacks,
    h'.pendingTasks.trans h.pendingTasks, h'.stack.trans h.stack, h'.writes.trans h.writes,
    h'.log.trans h.log⟩

theorem assertThat_kept (assertion : Assertion) (holds : Bool) (s : Session β) :
    Kept s (s.assertThat assertion holds) ∧
      (s.assertThat assertion holds).writeBuffer = s.writeBuffer := by
  unfold assertThat
  split
  · exact ⟨.refl s, rfl⟩
  · exact ⟨⟨rfl, rfl, rfl, rfl, rfl, rfl⟩, rfl⟩

theorem epollAdd_kept (epoll : Bool) (s : Session β) :
    Kept s (s.epollAdd epoll) ∧ (s.epollAdd epoll).writeBuffer = s.writeBuffer := by
  unfold epollAdd
  split
  · exact ⟨⟨rfl, rfl, rfl, rfl, rfl, rfl⟩, rfl⟩
  · exact ⟨.refl s, rfl⟩

theorem epollMod_kept (epoll : Bool) (s : Session β) :
    Kept s (s.epollMod epoll) ∧ (s.epollMod epoll).writeBuffer = s.writeBuffer := by
  unfold epollMod
  split
  · exact ⟨⟨rfl, rfl, rfl, rfl, rfl, rfl⟩, rfl⟩
  · exact ⟨.refl s, rfl⟩

/-- Changing the registration leaves the blocks alone as well. -/
theorem modify_kept (epoll : Bool) (s : Session β) :
    Kept s (s.modify epoll) ∧ (s.modify epoll).writeBuffer = s.writeBuffer := by
  obtain ⟨hkept, hblocks⟩ := assertThat_kept .modifyChannel s.inLoop s
  unfold modify
  generalize s.assertThat .modifyChannel s.inLoop = u at hkept hblocks ⊢
  rw [← hblocks]
  simp only
  split
  · split
    · exact ⟨hkept.trans (epollMod_kept epoll u).1, (epollMod_kept epoll u).2⟩
    · exact ⟨hkept.trans ⟨rfl, rfl, rfl, rfl, rfl, rfl⟩, rfl⟩
  · exact ⟨hkept.trans (epollAdd_kept epoll u).1, (epollAdd_kept epoll u).2⟩

theorem assertThat_registration (assertion : Assertion) (holds : Bool) (s : Session β) :
    (s.assertThat assertion holds).events = s.events ∧
      (s.assertThat assertion holds).isRegistered = s.isRegistered ∧
      (s.assertThat assertion holds).interest = s.interest ∧
      (s.assertThat assertion holds).inLoop = s.inLoop := by
  unfold assertThat
  split <;> exact ⟨rfl, rfl, rfl, rfl⟩

/-- With events to ask for, `modify` adds or modifies, which takes effect when the flag of the
channel agrees with the interest list. -/
theorem modify_registration (epoll : Bool) {s : Session β} (hevents : s.events ≠ kNoneEvent) :
    (s.modify epoll).events = s.events ∧ (s.modify epoll).inLoop = s.inLoop ∧
      (s.modify epoll).interest =
        if epoll = true ∧ (s.isRegistered = true ↔ s.interest ≠ none) then some s.events
        else s.interest := by
  obtain ⟨h₁, h₂, h₃, h₄⟩ := assertThat_registration .modifyChannel s.inLoop s
  unfold modify
  generalize s.assertThat .modifyChannel s.inLoop = u at h₁ h₂ h₃ h₄ ⊢
  rw [← h₁] at hevents ⊢
  rw [← h₂, ← h₃, ← h₄]
  simp only
  split
  case isTrue hregistered =>
      rw [epollMod]
      split <;> simp_all
  case isFalse hregistered =>
      rw [epollAdd]
      split <;> simp_all

theorem appendBuffer_kept [Inhabited β] {data : List β} {epoll : Bool} {s t : Session β}
    (h : s.appendBuffer data epoll = some t) :
    Kept s t ∧ appendBlock data s.writeBuffer = .ok t.writeBuffer := by
  unfold appendBuffer at h
  split at h
  · cases h
  · rename_i writeBuffer happend
    obtain rfl := Option.some.inj h
    rw [happend]
    split
    · exact ⟨⟨rfl, rfl, rfl, rfl, rfl, rfl⟩, rfl⟩
    · obtain ⟨hkept, hblocks⟩ := modify_kept epoll ({ s with writeBuffer }.addEvent kWriteEvent)
      exact ⟨⟨hkept.state, hkept.writeCompleteCallbacks, hkept.pendingTasks, hkept.stack,
        hkept.writes, hkept.log⟩, congrArg _ hblocks.symm⟩

/-- The tasks queued for the callbacks that are waiting. -/
def callbackTasks (callbacks : List (Option ℕ)) : List Task :=
  callbacks.filterMap fun callback => callback.map .writeComplete

theorem callbackTasks_eq (callbacks : List (Option ℕ)) :
    callbackTasks callbacks = (callbacks.filterMap id).map .writeComplete := by
  rw [callbackTasks, List.map_filterMap]
  rfl

theorem queueCallbacks_eq (callbacks : List (Option ℕ)) (s : Session β) :
    queueCallbacks callbacks s =
      { s with
        pendingTasks := s.pendingTasks ++ callbackTasks callbacks
        log := s.log ++ (callbackTasks callbacks).map .addTask } := by
  induction callbacks generalizing s with
  | nil => simp [queueCallbacks, callbackTasks]
  | cons callback callbacks ih =>
      cases callback with
      | none => exact ih s
      | some callback =>
          rw [queueCallbacks, ih]
          simp [addTask, callbackTasks]

/-- The rest of a direct write either is done and queues its callback, or appends what remains
and lets the callback wait. -/
theorem finishWrite_eq [Inhabited β] {remaining : List β} {callback : Option ℕ} {epoll : Bool}
    {s t : Session β} (h : s.finishWrite remaining callback epoll = some t) :
    (remaining = [] ∧ t = queueCallbacks [callback] s) ∨
    remaining ≠ [] ∧ ∃ u, s.appendBuffer remaining epoll = some u ∧
      t = u.pushCallback callback := by
  unfold finishWrite at h
  split at h
  · rename_i hnil
    obtain rfl := Option.some.inj h
    refine .inl ⟨List.isEmpty_iff.mp hnil, ?_⟩
    cases callback <;> rfl
  · rename_i hne
    obtain ⟨u, hu, rfl⟩ := Option.map_eq_some_iff.mp h
    exact .inr ⟨fun hnil => hne (List.isEmpty_iff.mpr hnil), u, hu, rfl⟩

section

variable [Inhabited β]

/-- With nothing on the stack there is nothing left to do. -/
theorem resume_of_nil {s : Session β} (h : s.stack = []) : s.resume = some s := by
  rw [resume, h, unwind, ← h]

theorem finishWrite_frame {remaining : List β} {callback : Option ℕ} {epoll : Bool}
    {s t : Session β} (h : s.finishWrite remaining callback epoll = some t) :
    t.state = s.state ∧ s.log <+: t.log := by
  rcases finishWrite_eq h with ⟨-, rfl⟩ | ⟨-, u, hu, rfl⟩
  · rw [queueCallbacks_eq]
    exact ⟨rfl, List.prefix_append _ _⟩
  · obtain ⟨hkept, -⟩ := appendBuffer_kept hu
    exact ⟨hkept.state, hkept.log ▸ List.prefix_rfl⟩

/-- Going back to application code does not change the state, and only adds to the trace. -/
theorem unwind_frame {stack : List (Frame β)} {s t : Session β} (h : unwind stack s = some t) :
    t.state = s.state ∧ s.log <+: t.log := by
  induction stack generalizing s with
  | nil =>
      obtain rfl := Option.some.inj h
      exact ⟨rfl, List.prefix_rfl⟩
  | cons frame stack ih =>
      cases frame with
      | handler =>
          obtain rfl := Option.some.inj h
          exact ⟨rfl, List.prefix_rfl⟩
      | deregister =>
          obtain ⟨hstate, hlog⟩ := ih h
          exact ⟨hstate, (List.prefix_append _ _).trans hlog⟩
      | finishWrite remaining callback epoll =>
          obtain ⟨u, hu, hrest⟩ := Option.bind_eq_some_iff.mp h
          obtain ⟨hstate, hlog⟩ := finishWrite_frame hu
          obtain ⟨hstate', hlog'⟩ := ih hrest
          exact ⟨hstate'.trans hstate, hlog.trans hlog'⟩

end

end Nets.Session
