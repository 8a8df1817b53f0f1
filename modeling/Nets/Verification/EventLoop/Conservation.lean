import Nets.Verification.EventLoop.Equations
import Mathlib.Data.List.Infix
import Mathlib.Data.List.Nodup

/-! # The loop starts the tasks in the order in which they were pushed

The tasks started, the rest of the batch and the pending tasks are at any time the tasks pushed,
cut in three. What an exception leaves of a batch is lost, so this holds until one leaves `run`. -/

namespace Nets.EventLoop

open Library

variable {τ α : Type} {s t : EventLoop τ α}

/-- Calls are numbered in the order of their critical sections. -/
def Numbered (s : EventLoop τ α) : Prop := s.pushed.map Pending.call = List.range s.pushed.length

def InOrder (s : EventLoop τ α) : Prop :=
  s.phase ≠ .unwound → s.started ++ s.phase.batch ++ s.pendingTasks = s.pushed

theorem Numbered.nodup (h : Numbered s) : s.pushed.Nodup := by
  apply List.Nodup.of_map Pending.call
  rw [h]
  exact List.nodup_range

/-- A step of the loop moves the two cuts and pushes nothing. -/
theorem advance_conserves {polled : List Ready} (h : s.advance polled = some t) :
    t.pushed = s.pushed ∧ s.phase ≠ .unwound ∧
      t.started ++ t.phase.batch ++ t.pendingTasks =
        s.started ++ s.phase.batch ++ s.pendingTasks := by
  cases hphase : s.phase with
  | outside | updating =>
      simp only [EventLoop.advance, hphase, Option.some.injEq] at h
      subst h
      exact ⟨rfl, nofun, rfl⟩
  | testing =>
      simp only [EventLoop.advance, hphase, Option.some.injEq] at h
      subst h
      split
      · exact ⟨rfl, nofun, rfl⟩
      · exact ⟨rfl, nofun, rfl⟩
  | swapping =>
      simp only [EventLoop.advance, hphase, Option.some.injEq] at h
      subst h
      exact ⟨rfl, nofun, by simp [Phase.batch]⟩
  | executing tmpTasks =>
      cases tmpTasks with
      | nil =>
          simp only [EventLoop.advance, hphase, Option.some.injEq] at h
          subst h
          exact ⟨rfl, nofun, rfl⟩
      | cons t tmpTasks =>
          simp only [EventLoop.advance, hphase, Option.some.injEq] at h
          subst h
          exact ⟨rfl, nofun, by simp [Phase.batch]⟩
  | polling =>
      simp only [EventLoop.advance, hphase, Option.ite_none_right_eq_some, Option.some.injEq] at h
      obtain ⟨_, rfl⟩ := h
      exact ⟨rfl, nofun, rfl⟩
  | handling activeChannels =>
      cases activeChannels with
      | nil =>
          simp only [EventLoop.advance, hphase, Option.some.injEq] at h
          subst h
          exact ⟨rfl, nofun, rfl⟩
      | cons ready activeChannels =>
          cases ready with
          | notifier | channel =>
              simp only [EventLoop.advance, hphase, Option.some.injEq] at h
              subst h
              exact ⟨rfl, nofun, rfl⟩
  | unwound => simp [EventLoop.advance, hphase] at h

variable [DecidableEq τ] {thread : τ}

theorem InOrder.addTask (hs : InOrder s) (task : α) : InOrder (s.addTask thread task) := by
  intro hphase
  change s.started ++ s.phase.batch ++ (s.pendingTasks ++ [_]) = s.pushed ++ [_]
  rw [← List.append_assoc, hs hphase]

theorem Numbered.addTask (hs : Numbered s) (task : α) : Numbered (s.addTask thread task) := by
  have hpushed : (s.addTask thread task).pushed =
      s.pushed ++ [{ call := s.pushed.length, task }] := rfl
  rw [Numbered, hpushed, List.map_append, hs, List.length_append]
  exact List.range_succ.symm

theorem inOrder_of_reachable (hs : (system τ α).Reachable s) : InOrder s ∧ Numbered s := by
  apply invariant_of_calls (I := fun s => InOrder s ∧ Numbered s) _ _ _ _ _ _ hs
  · intro threadId
    exact ⟨fun _ => rfl, rfl⟩
  · intro s thread task hs _ _
    exact ⟨hs.1.addTask task, hs.2.addTask task⟩
  · intro s thread hs _ _
    exact hs
  · intro s thread t hs h
    obtain ⟨eventFd, rfl, -⟩ := finishCall_spec h
    exact hs
  · intro s polled t hs _ h
    obtain ⟨hpushed, hphase, hcut⟩ := advance_conserves h
    constructor
    · intro _
      rw [hcut, hpushed]
      exact hs.1 hphase
    · rw [Numbered, hpushed]
      exact hs.2
  · intro s hs _
    exact ⟨fun hphase => absurd rfl hphase, hs.2⟩

/-! ## Along a run -/

theorem pushed_prefix_step {action : Action τ α} (h : s.step action = some t) :
    s.pushed <+: t.pushed := by
  cases action with
  | addTask thread task =>
      obtain ⟨_, hresult⟩ := Option.ite_none_right_eq_some.mp h
      rw [← Option.some.inj hresult]
      exact List.prefix_append ..
  | execute thread task =>
      obtain ⟨_, hresult⟩ := Option.ite_none_right_eq_some.mp h
      rw [← Option.some.inj hresult]
      obtain heq | heq := execute_eq thread task s
      · rw [heq]
      · rw [heq]
        exact List.prefix_append ..
  | shutdown thread =>
      obtain ⟨_, hresult⟩ := Option.ite_none_right_eq_some.mp h
      rw [← Option.some.inj hresult]
      exact List.prefix_rfl
  | finishCall thread =>
      obtain ⟨eventFd, rfl, -⟩ := finishCall_spec h
      exact List.prefix_rfl
  | advance polled =>
      obtain ⟨_, hresult⟩ := Option.ite_none_right_eq_some.mp h
      rw [(advance_conserves hresult).1]
  | throwOut =>
      obtain ⟨_, hresult⟩ := Option.ite_none_right_eq_some.mp h
      rw [throwOut_eq hresult]

theorem pushed_prefix_run {actions : List (Action τ α)}
    (h : (system τ α).run s actions = some t) : s.pushed <+: t.pushed :=
  System.run_invariant (I := fun u => s.pushed <+: u.pushed)
    (fun _ _ _ hprefix hstep => hprefix.trans (pushed_prefix_step hstep)) List.prefix_rfl h

/-- The tasks started, the rest of the batch and the pending tasks are the tasks pushed, each of
them once. Whatever the run does next, it starts the rest of the batch before anything else. -/
theorem tasks_conserved (hs : (system τ α).Reachable s) (hphase : s.phase ≠ .unwound) :
    s.started ++ s.phase.batch ++ s.pendingTasks = s.pushed ∧ s.pushed.Nodup ∧
      ∀ actions t, (system τ α).run s actions = some t → t.phase ≠ .unwound →
        t.started <+: s.started ++ s.phase.batch ∨ s.started ++ s.phase.batch <+: t.started := by
  obtain ⟨horder, hnumbered⟩ := inOrder_of_reachable hs
  refine ⟨horder hphase, hnumbered.nodup, ?_⟩
  intro actions t hrun hphase'
  have horder' := (inOrder_of_reachable (System.Reachable.run _ hs hrun)).1 hphase'
  have hbatch : s.started ++ s.phase.batch <+: t.pushed := by
    apply List.IsPrefix.trans _ (pushed_prefix_run hrun)
    rw [← horder hphase]
    exact List.prefix_append ..
  have hstarted : t.started <+: t.pushed := by
    rw [← horder', List.append_assoc]
    exact List.prefix_append ..
  exact List.prefix_or_prefix_of_prefix hstarted hbatch

/-- Thread 0 runs the first of two tasks and adds a third. -/
theorem tasks_conserved_batch :
    ∃ s : EventLoop ℕ ℕ, s.started.length = 1 ∧ s.phase.batch.length = 1 ∧
      s.started ++ s.phase.batch ++ s.pendingTasks = s.pushed := by
  obtain ⟨s, hrun⟩ : ∃ s, (system ℕ ℕ).run (create 0)
      [.addTask 0 5, .finishCall 0, .addTask 1 6, .advance [], .advance [], .finishCall 1,
        .advance [], .advance [], .advance [], .addTask 0 7] = some s := ⟨_, rfl⟩
  obtain ⟨s', rfl, hphase, hstarted, hbatch⟩ : ∃ s' : EventLoop ℕ ℕ, s' = s ∧
      s'.phase ≠ .unwound ∧ s'.started.length = 1 ∧ s'.phase.batch.length = 1 :=
    ⟨_, Option.some.inj hrun, nofun, rfl, rfl⟩
  have hs : (system ℕ ℕ).Reachable s' := System.Reachable.run _ (.initial ⟨0, rfl⟩) hrun
  exact ⟨s', hstarted, hbatch, (tasks_conserved hs hphase).1⟩

end Nets.EventLoop
