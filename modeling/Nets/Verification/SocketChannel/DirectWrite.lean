import Nets.Verification.SocketChannel.Equations
import Nets.Verification.SocketChannel.WriteBuffer

/-! # A direct write that fails

`doWriteDirectly` goes on after `handleWriteError`, with `bytes` still `-1`: when the application has
returned from `channelDisconnect`, the message is appended from the byte before its first one on, and
its callback waits. -/

namespace Nets.Session

open Library

variable {α β : Type}

/-- What is to be sent, who waits for it, and the events asked for. -/
structure SameOutput (s t : Session β) : Prop where
  writeBuffer : t.writeBuffer = s.writeBuffer
  writeCompleteCallbacks : t.writeCompleteCallbacks = s.writeCompleteCallbacks
  events : t.events = s.events

variable [Inhabited β]

theorem finishWrite_callbacks {remaining : List β} {callback : Option ℕ} {epoll : Bool}
    {s t : Session β} (h : s.finishWrite remaining callback epoll = some t) :
    t.writeCompleteCallbacks =
      s.writeCompleteCallbacks ++ if remaining = [] then [] else [callback] := by
  rcases finishWrite_eq h with ⟨rfl, rfl⟩ | ⟨hne, u, hu, rfl⟩
  · rw [queueCallbacks_eq]
    exact (List.append_nil _).symm
  · rw [if_neg hne, pushCallback, (appendBuffer_kept hu).1.writeCompleteCallbacks]

theorem finishWrite_pending {remaining : List β} {callback : Option ℕ} {epoll : Bool}
    {s t : Session β} (hblocks : Blocks s.writeBuffer)
    (h : s.finishWrite remaining callback epoll = some t) :
    Blocks t.writeBuffer ∧ pending t.writeBuffer = pending s.writeBuffer ++ remaining := by
  rcases finishWrite_eq h with ⟨rfl, rfl⟩ | ⟨hne, u, hu, rfl⟩
  · rw [queueCallbacks_eq]
    exact ⟨hblocks, (List.append_nil _).symm⟩
  · exact appendBlock_spec hblocks hne (appendBuffer_kept hu).2

/-- What the calls on the stack still have to do takes no callback back. -/
theorem unwind_callbacks {stack : List (Frame β)} {s t : Session β} (h : unwind stack s = some t) :
    s.writeCompleteCallbacks <+: t.writeCompleteCallbacks := by
  induction stack generalizing s with
  | nil =>
      obtain rfl := Option.some.inj h
      exact List.prefix_rfl
  | cons frame stack ih =>
      cases frame with
      | handler =>
          obtain rfl := Option.some.inj h
          exact List.prefix_rfl
      | deregister => exact ih (s := s.addTask .deregister) h
      | finishWrite remaining callback epoll =>
          obtain ⟨u, hu, hrest⟩ := Option.bind_eq_some_iff.mp h
          have hu' := finishWrite_callbacks hu
          exact (hu' ▸ List.prefix_append _ _).trans (ih hrest)

/-- Nor any byte. -/
theorem unwind_pending {stack : List (Frame β)} {s t : Session β} (hblocks : Blocks s.writeBuffer)
    (h : unwind stack s = some t) : pending s.writeBuffer <+: pending t.writeBuffer := by
  induction stack generalizing s with
  | nil =>
      obtain rfl := Option.some.inj h
      exact List.prefix_rfl
  | cons frame stack ih =>
      cases frame with
      | handler =>
          obtain rfl := Option.some.inj h
          exact List.prefix_rfl
      | deregister => exact ih (s := s.addTask .deregister) hblocks h
      | finishWrite remaining callback epoll =>
          obtain ⟨u, hu, hrest⟩ := Option.bind_eq_some_iff.mp h
          obtain ⟨hblocks', hpending⟩ := finishWrite_pending hblocks hu
          exact (hpending ▸ List.prefix_append _ _).trans (ih hblocks' hrest)

theorem doWriteDirectly_fatal {data : List β} {callback : Option ℕ} {errNum : ℕ} {before : β}
    {epoll : Bool} {s : Session β} (hfatal : ¬ (errNum = EAGAIN ∨ errNum = EINTR)) :
    s.doWriteDirectly data callback (.failed errNum) before epoll =
      some { s with stack := .finishWrite (before :: data) callback epoll :: s.stack
        }.channelInActive := by
  simp only [doWriteDirectly, handleWriteError, hfatal, if_false]

/-- The application returns from `channelDisconnect`. -/
theorem step_handlerReturns (label : ℕ → List α → List β) {s : Session β} {data : List β}
    {callback : Option ℕ} {epoll : Bool} {stack : List (Frame β)}
    (h : s.stack = .handler :: .deregister :: .finishWrite data callback epoll :: stack) :
    (system label).step s .handlerReturns =
      ({ s with stack := .deregister :: .finishWrite data callback epoll :: stack }.addTask
        .deregister |>.finishWrite data callback epoll).bind (unwind stack) := by
  simp [system, act, h, resume, unwind]

/-- A direct write that fails makes the channel `INACTIVE` and disconnects it once. Whatever the
application makes of the channel in `channelDisconnect`, when it has returned the message is queued,
with the byte before it. -/
theorem queues_of_fatal (label : ℕ → List α → List β) (data : List β) (callback : Option ℕ)
    (errNum : ℕ) (before : β) (epoll : Bool) (s : Session β)
    (hfatal : ¬ (errNum = EAGAIN ∨ errNum = EINTR)) :
    ∃ t, s.doWriteDirectly data callback (.failed errNum) before epoll = some t ∧
      (t.state = .inactive ∧ t.log = s.log ++ [.disconnect] ∧ SameOutput s t) ∧
      ∀ u, u.stack = t.stack →
        (¬ ∃ v, (system label).step u .handlerReturns = some v ∧ SameOutput u v) ∧
        ∀ v, (system label).step u .handlerReturns = some v → u.writeBuffer = [] →
          before :: data <+: pending v.writeBuffer := by
  refine ⟨_, doWriteDirectly_fatal hfatal, ⟨rfl, rfl, rfl, rfl, rfl⟩, fun u hstack => ?_⟩
  have hstep := step_handlerReturns label hstack
  constructor
  · rintro ⟨v, hv, hsame⟩
    rw [hstep] at hv
    obtain ⟨w, hw, hrest⟩ := Option.bind_eq_some_iff.mp hv
    have hcallbacks := unwind_callbacks hrest
    have hpushed : w.writeCompleteCallbacks = u.writeCompleteCallbacks ++ [callback] :=
      finishWrite_callbacks hw
    rw [hpushed, hsame.writeCompleteCallbacks] at hcallbacks
    have hle := hcallbacks.length_le
    rw [List.length_append, List.length_singleton] at hle
    omega
  · intro v hv hempty
    rw [hstep] at hv
    obtain ⟨w, hw, hrest⟩ := Option.bind_eq_some_iff.mp hv
    obtain ⟨hblocks, hpending⟩ := finishWrite_pending (by simp [addTask, hempty]) hw
    have hqueued : pending w.writeBuffer = before :: data := by
      rw [hpending]
      simp [addTask, hempty]
    exact hqueued ▸ unwind_pending hblocks hrest

theorem queues_of_brokenPipe :
    ¬ (32 = EAGAIN ∨ 32 = EINTR) ∧
      ∃ t, (fresh : Session UInt8).channelActive.doWriteDirectly [7] (some 0) (.failed 32) 9 true =
        some t ∧ (t.state = .inactive ∧ t.log = [.connect] ++ [.disconnect] ∧
          SameOutput fresh.channelActive t) ∧
        ∀ u, u.stack = t.stack →
          (¬ ∃ v, (system fun _ (data : List UInt8) => data).step u .handlerReturns = some v ∧
            SameOutput u v) ∧
          ∀ v, (system fun _ (data : List UInt8) => data).step u .handlerReturns = some v →
            u.writeBuffer = [] → [9, 7] <+: pending v.writeBuffer :=
  ⟨by decide, queues_of_fatal (fun _ (data : List UInt8) => data) [7] (some 0) 32 9 true
    fresh.channelActive (by decide)⟩

/-- The peer has gone, and the application does nothing about it. -/
theorem not_sameOutput_brokenPipe :
    ¬ ∀ (s t u : Session UInt8) (data : List UInt8) (callback : Option ℕ) (errNum : ℕ)
        (before : UInt8) (epoll : Bool),
      s.state ≠ .inactive → s.writeBuffer = [] → data ≠ [] → errNum ≠ EAGAIN → errNum ≠ EINTR →
        s.doWriteDirectly data callback (.failed errNum) before epoll = some t →
          (system fun _ (data : List UInt8) => data).step t .handlerReturns = some u →
            SameOutput s u := by
  intro h
  let s : Session UInt8 := fresh.channelActive
  let t := { s with stack := .finishWrite [9, 7] none true :: s.stack }.channelInActive
  have hstep : ((system fun _ (data : List UInt8) => data).step t .handlerReturns).any
      (fun u => decide (u.writeCompleteCallbacks = [none])) = true := by decide +kernel
  obtain ⟨u, hu, hpushed⟩ := (Option.any_eq_true ..).mp hstep
  have hsame := h s t u [7] none 32 9 true (by decide) rfl (by simp) (by decide) (by decide) rfl hu
  have hnone : u.writeCompleteCallbacks = [] := hsame.writeCompleteCallbacks
  rw [of_decide_eq_true hpushed] at hnone
  cases hnone

end Nets.Session
