import Nets.Verification.EventLoop.Equations

/-! # The loop never sleeps on a pending task

From the swap of `pendingTasks_` to the return of the poller, every pending task is covered: the
eventfd is readable, or the thread that pushed the task has yet to notify. A thread that pushes is
such a thread at once, and when it decides whether to notify, it does: other threads always, and
the thread of the loop because it can push only while `runningPendingTasks_` is set. -/

namespace Nets.EventLoop

open Library

variable {τ α : Type} {s t : EventLoop τ α}

/-- Between the assignments to `runningPendingTasks_`. -/
def Phase.isFlagged : Phase α → Bool
  | .swapping | .executing _ => true
  | _ => false

/-- Between the swap and the return of the poller. -/
def Phase.isSwapped : Phase α → Bool
  | .executing _ | .polling => true
  | _ => false

theorem Phase.isFlagged_of_isSwapped {phase : Phase α} (hswapped : phase.isSwapped = true)
    (happlication : phase.isApplication = true) : phase.isFlagged = true := by
  cases phase with
  | executing tmpTasks => rfl
  | polling => cases happlication
  | outside | testing | updating | swapping | handling activeChannels | unwound => cases hswapped

/-- Every pending task was pushed by a call that has yet to notify. -/
def Unnotified (s : EventLoop τ α) : Prop :=
  ∀ p ∈ s.pendingTasks, ∃ thread, s.callers thread = .pushed p.call

def Covered (s : EventLoop τ α) : Prop := 0 < s.eventFd ∨ Unnotified s

structure Awake (s : EventLoop τ α) : Prop where
  caller : s.phase.isApplication = false → s.callers s.threadId = .outside
  flag : s.phase.isFlagged = true → s.runningPendingTasks = true
  covered : s.phase.isSwapped = true → Covered s

theorem Unnotified.of_no_tasks (h : s.pendingTasks = []) : Unnotified s := by
  intro p hp
  rw [h] at hp
  cases hp

/-! ## Calls -/

variable [DecidableEq τ] {thread : τ}

/-- A thread that was in no call stands for no pending task. -/
theorem Unnotified.setCaller (h : Unnotified s) (hcaller : ∀ call, s.callers thread ≠ .pushed call)
    (caller : Caller) : Unnotified (s.setCaller thread caller) := by
  intro p hp
  obtain ⟨other, hother⟩ := h p hp
  have hne : other ≠ thread := by
    intro heq
    apply hcaller p.call
    rwa [← heq]
  exact ⟨other, by rw [callers_setCaller, Function.update_of_ne hne, hother]⟩

theorem Unnotified.addTask (h : Unnotified s) (hcaller : s.callers thread = .outside) (task : α) :
    Unnotified (s.addTask thread task) := by
  intro p hp
  obtain hp | hp := List.mem_append.mp hp
  · exact h.setCaller (by simp [hcaller]) _ p hp
  · obtain rfl := List.mem_singleton.mp hp
    exact ⟨thread, Function.update_self ..⟩

theorem caller_of_call (hs : Awake s) (hphase : thread = s.threadId → s.phase.isApplication = true)
    (caller : Caller) (hidle : s.phase.isApplication = false) :
    (s.setCaller thread caller).callers s.threadId = .outside := by
  have hne : s.threadId ≠ thread := by
    intro heq
    rw [hphase heq.symm] at hidle
    cases hidle
  rw [callers_setCaller, Function.update_of_ne hne]
  exact hs.caller hidle

theorem Awake.addTask (hs : Awake s) (hcaller : s.callers thread = .outside)
    (hphase : thread = s.threadId → s.phase.isApplication = true) (task : α) :
    Awake (s.addTask thread task) where
  caller := caller_of_call hs hphase _
  flag := hs.flag
  covered hswapped :=
    (hs.covered hswapped).imp id fun h => h.addTask hcaller task

theorem Awake.shutdown (hs : Awake s) (hcaller : s.callers thread = .outside)
    (hphase : thread = s.threadId → s.phase.isApplication = true) :
    Awake (s.shutdown thread) where
  caller := caller_of_call hs hphase _
  flag := hs.flag
  covered hswapped :=
    (hs.covered hswapped).imp id fun h => h.setCaller (by simp [hcaller]) _

/-- The decision to notify. After a push there is a notification: in the phases where coverage
counts the thread of the loop can be in a call only while it executes tasks, with the flag set. -/
theorem Awake.finishCall (hs : Awake s) (h : s.finishCall thread = some t) : Awake t := by
  obtain ⟨eventFd, rfl, hle, hcaller, hnotify⟩ := finishCall_spec h
  have happlication : thread = s.threadId → s.phase.isApplication = true := by
    intro hthread
    by_contra hidle
    apply hcaller
    rw [hthread]
    exact hs.caller (by simpa using hidle)
  refine ⟨caller_of_call hs happlication .outside, hs.flag, ?_⟩
  intro hswapped
  cases hc : s.callers thread with
  | outside => exact absurd hc hcaller
  | pushed call =>
      left
      apply hnotify call hc
      by_cases hthread : thread = s.threadId
      · right
        apply hs.flag
        exact Phase.isFlagged_of_isSwapped hswapped (happlication hthread)
      · exact Or.inl hthread
  | stopped =>
      apply (hs.covered hswapped).imp
      · intro hpos
        exact Nat.lt_of_lt_of_le hpos hle
      · intro hunnotified
        exact hunnotified.setCaller (by simp [hc]) _

/-! ## The cycle -/

omit [DecidableEq τ] in
/-- The loop sets the flag before it swaps, leaves no pending task behind when it swaps, and
clears the flag when it can no longer push. -/
theorem Awake.advance (hs : Awake s) (hcaller : s.callers s.threadId = .outside)
    {polled : List Ready} (h : s.advance polled = some t) : Awake t := by
  have hflag := hs.flag
  have hcovered := hs.covered
  cases hphase : s.phase with
  | outside =>
      simp only [EventLoop.advance, hphase, Option.some.injEq] at h
      subst h
      exact ⟨fun _ => hcaller, nofun, nofun⟩
  | testing =>
      simp only [EventLoop.advance, hphase, Option.some.injEq] at h
      subst h
      split
      · exact ⟨fun _ => hcaller, nofun, nofun⟩
      · exact ⟨fun _ => hcaller, nofun, nofun⟩
  | updating =>
      simp only [EventLoop.advance, hphase, Option.some.injEq] at h
      subst h
      exact ⟨fun _ => hcaller, fun _ => rfl, nofun⟩
  | swapping =>
      simp only [EventLoop.advance, hphase, Option.some.injEq] at h
      subst h
      rw [hphase] at hflag
      exact ⟨fun _ => hcaller, hflag, fun _ => Or.inr (.of_no_tasks rfl)⟩
  | executing tmpTasks =>
      rw [hphase] at hflag hcovered
      cases tmpTasks with
      | nil =>
          simp only [EventLoop.advance, hphase, Option.some.injEq] at h
          subst h
          exact ⟨fun _ => hcaller, nofun, hcovered⟩
      | cons t tmpTasks =>
          simp only [EventLoop.advance, hphase, Option.some.injEq] at h
          subst h
          exact ⟨fun _ => hcaller, hflag, hcovered⟩
  | polling =>
      simp only [EventLoop.advance, hphase, Option.ite_none_right_eq_some, Option.some.injEq] at h
      obtain ⟨_, rfl⟩ := h
      exact ⟨fun _ => hcaller, nofun, nofun⟩
  | handling activeChannels =>
      cases activeChannels with
      | nil =>
          simp only [EventLoop.advance, hphase, Option.some.injEq] at h
          subst h
          exact ⟨fun _ => hcaller, nofun, nofun⟩
      | cons ready activeChannels =>
          cases ready with
          | notifier | channel =>
              simp only [EventLoop.advance, hphase, Option.some.injEq] at h
              subst h
              exact ⟨fun _ => hcaller, nofun, nofun⟩
  | unwound => simp [EventLoop.advance, hphase] at h

theorem awake_of_reachable (hs : (system τ α).Reachable s) : Awake s := by
  apply invariant_of_calls (I := Awake) _ _ _ _ _ _ hs
  · intro threadId
    exact ⟨fun _ => rfl, nofun, nofun⟩
  · intro s thread task hs hcaller hphase
    exact hs.addTask hcaller hphase task
  · intro s thread hs hcaller hphase
    exact hs.shutdown hcaller hphase
  · intro s thread t hs h
    exact hs.finishCall h
  · intro s polled t hs hcaller h
    exact hs.advance hcaller h
  · intro s hs hcaller
    exact ⟨fun _ => hcaller, nofun, nofun⟩

/-- While the loop is blocked in the poller with the counter at 0, every pending task belongs to a
call of `addTask` that has pushed it and not yet notified. -/
theorem polling_unnotified (hs : (system τ α).Reachable s) (hpolling : s.phase = .polling)
    (hcounter : s.eventFd = 0) :
    ∀ p ∈ s.pendingTasks, ∃ thread, s.callers thread = .pushed p.call := by
  have hcovered : Covered s := by
    apply (awake_of_reachable hs).covered
    rw [hpolling]
    rfl
  obtain hpos | hunnotified := hcovered
  · omega
  · exact hunnotified

/-- Thread 1 has pushed while thread 0, the loop, is in its first poll. -/
theorem polling_unnotified_push :
    ∃ s : EventLoop ℕ ℕ, s.pendingTasks.length = 1 ∧
      ∀ p ∈ s.pendingTasks, ∃ thread, s.callers thread = .pushed p.call := by
  obtain ⟨s, hrun⟩ : ∃ s, (system ℕ ℕ).run (create 0)
      [.advance [], .advance [], .advance [], .advance [], .advance [], .addTask 1 7] = some s :=
    ⟨_, rfl⟩
  have hphase : ∃ s' : EventLoop ℕ ℕ, s' = s ∧ s'.phase = .polling ∧ s'.eventFd = 0 ∧
      s'.pendingTasks.length = 1 := by
    exact ⟨_, Option.some.inj hrun, rfl, rfl, rfl⟩
  obtain ⟨s', rfl, hpolling, hcounter, hlength⟩ := hphase
  have hs : (system ℕ ℕ).Reachable s' := System.Reachable.run _ (.initial ⟨0, rfl⟩) hrun
  exact ⟨s', hlength, polling_unnotified hs hpolling hcounter⟩

end Nets.EventLoop
