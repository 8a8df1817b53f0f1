import Nets.Program.EventLoop

/-! # What the calls and the steps of the loop change -/

namespace Nets.EventLoop

open Library

variable {τ α : Type} {s t : EventLoop τ α}

/-! ## Steps of the loop alone -/

theorem notify_eq (s : EventLoop τ α) : s.notify = { s with eventFd := s.notify.eventFd } := by
  rw [notify]
  split <;> rfl

theorem eventFd_le_notify (s : EventLoop τ α) : s.eventFd ≤ s.notify.eventFd := by
  rw [notify]
  split
  · exact Nat.le_succ _
  · exact Nat.le_refl _

/-- A write to a full eventfd fails, but then the counter is positive already. -/
theorem notify_eventFd_pos (s : EventLoop τ α) : 0 < s.notify.eventFd := by
  rw [notify]
  split
  case isTrue => exact Nat.succ_pos _
  case isFalse hfull =>
      have hmax : 0 < kEventFdMax := by decide
      omega

/-- An exception changes the phase only. -/
theorem throwOut_eq (h : s.throwOut = some t) : t = { s with phase := .unwound } := by
  rw [throwOut] at h
  split at h
  all_goals first
    | exact (Option.some.inj h).symm
    | cases h

/-! ## Calls -/

variable [DecidableEq τ] {thread : τ}

@[simp] theorem isInCurrentEventLoop_iff :
    s.isInCurrentEventLoop thread = true ↔ thread = s.threadId :=
  decide_eq_true_iff

theorem callers_setCaller (caller : Caller) (s : EventLoop τ α) :
    (s.setCaller thread caller).callers = Function.update s.callers thread caller := rfl

theorem mayCall_iff :
    s.mayCall thread = true ↔
      s.callers thread = .outside ∧ (thread = s.threadId → s.phase.isApplication = true) := by
  by_cases hthread : thread = s.threadId
  · simp [mayCall, isInCurrentEventLoop, hthread]
  · simp [mayCall, isInCurrentEventLoop, hthread]

/-- The end of a call leaves everything but the caller and the counter. It notifies after a push,
unless the thread of the loop pushed outside `runPendingTasks`. -/
theorem finishCall_spec (h : s.finishCall thread = some t) :
    ∃ eventFd, t = { s.setCaller thread .outside with eventFd } ∧ s.eventFd ≤ eventFd ∧
      s.callers thread ≠ .outside ∧
      ∀ call, s.callers thread = .pushed call →
        thread ≠ s.threadId ∨ s.runningPendingTasks = true → 0 < eventFd := by
  have hnotified : (s.setCaller thread .outside).notify =
      { s.setCaller thread .outside with
        eventFd := (s.setCaller thread .outside).notify.eventFd } := notify_eq _
  have hle : s.eventFd ≤ (s.setCaller thread .outside).notify.eventFd :=
    eventFd_le_notify (s.setCaller thread .outside)
  rw [finishCall] at h
  cases hcaller : s.callers thread with
  | outside => simp [hcaller] at h
  | pushed call =>
      simp only [hcaller, Option.some.injEq] at h
      split at h
      · refine ⟨_, h ▸ hnotified, hle, by simp, ?_⟩
        intro _ _ _
        exact notify_eventFd_pos _
      case isFalse hquiet =>
          refine ⟨s.eventFd, h.symm, Nat.le_refl _, by simp, ?_⟩
          intro _ _ hloud
          simp only [Bool.or_eq_true, Bool.not_eq_true', not_or, Bool.not_eq_false,
            isInCurrentEventLoop_iff] at hquiet
          obtain hthread | hflag := hloud
          · exact absurd hquiet.1 hthread
          · exact absurd hflag hquiet.2
  | stopped =>
      simp only [hcaller, Option.some.injEq] at h
      split at h
      · exact ⟨_, h ▸ hnotified, hle, by simp, by simp⟩
      · exact ⟨s.eventFd, h.symm, Nat.le_refl _, by simp, by simp⟩

theorem execute_eq (thread : τ) (task : α) (s : EventLoop τ α) :
    s.execute thread task = s ∨ s.execute thread task = s.addTask thread task := by
  rw [execute]
  split
  · exact Or.inl rfl
  · exact Or.inr rfl

/-! ## All threads together -/

/-- An invariant of the loop is one that every call and every step of the loop keeps. -/
theorem invariant_of_calls {I : EventLoop τ α → Prop}
    (hcreate : ∀ threadId, I (create threadId))
    (hpush : ∀ s thread task, I s → s.callers thread = .outside →
      (thread = s.threadId → s.phase.isApplication = true) → I (s.addTask thread task))
    (hshutdown : ∀ s thread, I s → s.callers thread = .outside →
      (thread = s.threadId → s.phase.isApplication = true) → I (s.shutdown thread))
    (hfinish : ∀ s thread t, I s → s.finishCall thread = some t → I t)
    (hadvance : ∀ s polled t, I s → s.callers s.threadId = .outside →
      s.advance polled = some t → I t)
    (hthrow : ∀ s, I s → s.callers s.threadId = .outside → I { s with phase := .unwound })
    (hs : (system τ α).Reachable s) : I s := by
  apply hs.invariant
  · rintro _ ⟨threadId, rfl⟩
    exact hcreate threadId
  · intro s action t hs ht
    cases action with
    | addTask thread task =>
        obtain ⟨hcall, hresult⟩ := Option.ite_none_right_eq_some.mp ht
        rw [← Option.some.inj hresult]
        obtain ⟨hcaller, hphase⟩ := mayCall_iff.mp hcall
        exact hpush s thread task hs hcaller hphase
    | execute thread task =>
        obtain ⟨hcall, hexecute⟩ := Option.ite_none_right_eq_some.mp ht
        obtain rfl : s.execute thread task = t := Option.some.inj hexecute
        obtain ⟨hcaller, hphase⟩ := mayCall_iff.mp hcall
        obtain heq | heq := execute_eq thread task s
        · rwa [heq]
        · rw [heq]
          exact hpush s thread task hs hcaller hphase
    | shutdown thread =>
        obtain ⟨hcall, hresult⟩ := Option.ite_none_right_eq_some.mp ht
        rw [← Option.some.inj hresult]
        obtain ⟨hcaller, hphase⟩ := mayCall_iff.mp hcall
        exact hshutdown s thread hs hcaller hphase
    | finishCall thread => exact hfinish s thread t hs ht
    | advance polled =>
        obtain ⟨hcaller, hadvanced⟩ := Option.ite_none_right_eq_some.mp ht
        exact hadvance s polled t hs hcaller hadvanced
    | throwOut =>
        obtain ⟨hcaller, hthrown⟩ := Option.ite_none_right_eq_some.mp ht
        rw [throwOut_eq hthrown]
        exact hthrow s hs hcaller

end Nets.EventLoop
