import Nets.Verification.TimerManager.Thread

/-! # Firing, cancelling and waiting

What holds in every run of a manager: its timers are fired on schedule, a timer that is cancelled is not
fired again, and the loop does not sleep past a timer. -/

namespace Nets.TimerThread

open Library TimerManager

variable {s t : TimerThread} {timer : Timer} {e : ℤ × Timer} {action : Action} {key : ℕ}
  {clock : ℕ → ℤ} {callbacks : ℕ → List Call} {u v : Update}

/-- The intervals of the timers that are added are not negative. -/
def NonNegative (_ : TimerThread) : Action → Prop
  | .call (.addTimer _ _ interval _) => 0 ≤ interval
  | _ => True

instance (s : TimerThread) (action : Action) : Decidable (NonNegative s action) := by
  unfold NonNegative
  split <;> infer_instance

/-! ## `update` is a run -/

theorem run_calls (calls : List Call) (hbetween : s.updating ≠ .between) :
    ∃ added, system.run s (calls.map .call) =
      some { s with update := calls.foldl Update.perform s.update, added } := by
  induction calls generalizing s with
  | nil => exact ⟨s.added, rfl⟩
  | cons call calls ih =>
      have hstep : system.step s (.call call) = some { s with
          update := s.update.perform call
          added := s.added ++ addedBy call s.update.manager } := if_neg hbetween
      obtain ⟨added, hrun⟩ := ih (s := { s with
        update := s.update.perform call
        added := s.added ++ addedBy call s.update.manager }) hbetween
      exact ⟨added, by rw [List.map_cons, System.run_cons, hstep, Option.bind_some, hrun]; rfl⟩

/-- One round of the loop in `update` with all calls of its callback. -/
theorem run_of_step (added : List Timer) (h : u.step clock callbacks = .inl v) :
    ∃ actions added', system.run ⟨u, .between, added⟩ actions = some ⟨v, .between, added'⟩ := by
  cases hrest : u.rest with
  | nil =>
      rw [Update.step, hrest] at h
      cases h
  | cons e next =>
      rw [step_of_rest hrest] at h
      split at h
      case isFalse => cases h
      case isTrue hexpired =>
          rw [← Sum.inl.inj h]
          cases hlive : e.2.isRepeatable with
          | false =>
              refine ⟨[.round (clock u.round)], added, ?_⟩
              simp [system, step, round, hrest, hexpired, hlive, Update.onTimer, System.run_cons]
          | true =>
              obtain ⟨added', hrun⟩ := run_calls
                (s := ⟨{ u with
                  round := u.round + 1
                  fired := u.fired ++ [⟨e.2.id.key, e.2.expiredTime, clock u.round⟩] },
                  .within (clock u.round), added⟩) (callbacks u.round) (by simp)
              refine ⟨.round (clock u.round) ::
                ((callbacks u.round).map .call ++ [.callbackReturns]), added', ?_⟩
              have hround : system.step ⟨u, .between, added⟩ (.round (clock u.round)) =
                  some ⟨{ u with
                    round := u.round + 1
                    fired := u.fired ++ [⟨e.2.id.key, e.2.expiredTime, clock u.round⟩] },
                    .within (clock u.round), added⟩ := by
                simp [system, step, round, hrest, hexpired, hlive]
              rw [System.run_cons, hround, Option.bind_some, System.run_append, hrun]
              simp [system, step, System.run_cons, Update.onTimer, hlive]

/-- What `update` does in one go, the thread does in single steps. -/
theorem run_of_update {m : TimerManager} {fuel : ℕ} (added : List Timer)
    (h : m.update fuel clock callbacks = some v) : ∃ actions added',
      system.run ⟨m.begin, .between, added⟩ actions = some ⟨v, .outside, added'⟩ := by
  have hloop : ∀ fuel u added, Loop.run (Update.step clock callbacks) fuel u = some v →
      ∃ actions added', system.run ⟨u, .between, added⟩ actions = some ⟨v, .outside, added'⟩ := by
    intro fuel
    induction fuel with
    | zero => simp
    | succ fuel ih =>
        intro u added h
        cases hstep : u.step clock callbacks with
        | inl w =>
            rw [Loop.run_succ_of_continue hstep] at h
            obtain ⟨first, added₁, hfirst⟩ := run_of_step added hstep
            obtain ⟨rest, added₂, hrest⟩ := ih w added₁ h
            refine ⟨first ++ rest, added₂, ?_⟩
            rw [System.run_append, hfirst, Option.bind_some, hrest]
        | inr w =>
            rw [Loop.run_succ_of_leave hstep] at h
            obtain rfl := Option.some.inj h
            refine ⟨[.round (clock u.round)], added, ?_⟩
            cases hrest : u.rest with
            | nil =>
                obtain rfl : u = w := by simpa [Update.step, hrest] using hstep
                simp [system, step, round, hrest, System.run_cons]
            | cons e next =>
                rw [step_of_rest hrest] at hstep
                split at hstep
                case isTrue => cases hstep
                case isFalse hexpired =>
                    obtain rfl := Sum.inr.inj hstep
                    simp [system, step, round, hrest, hexpired, System.run_cons]
  exact hloop fuel m.begin added h

/-! ## Firing -/

/-- The calls of the timer's callback so far. -/
def firings (s : TimerThread) (timer : Timer) : List Firing :=
  firingsOf timer.id.key s.update.fired

/-- Every call of a callback is one of a timer that was added, and every timer that was added is fired
on schedule: not early, without drift, and no more often than it was asked for. -/
theorem fired_on_schedule (hs : system.Reachable s) :
    (s.added.map fun timer => timer.id.key).Nodup ∧
      (∀ firing ∈ s.update.fired, ∃ timer ∈ s.added, firing ∈ s.firings timer) ∧
        ∀ timer ∈ s.added, OnSchedule timer (s.firings timer) := by
  have htimed : Timed s := timed_of_reachable hs
  refine ⟨htimed.added, fun firing hfiring => ?_, fun timer htimer => ?_⟩
  · obtain ⟨timer, htimer, hkey⟩ := htimed.fired firing hfiring
    exact ⟨timer, htimer, List.mem_filter.mpr ⟨hfiring, by simp [hkey]⟩⟩
  · exact (htimed.scheduled timer htimer).onSchedule

/-- A timer that is called late the second time. -/
theorem fired_on_schedule_late : ∃ s : TimerThread,
    s.update.fired = [⟨0, 1000, 1000⟩, ⟨0, 3000, 5500⟩] ∧
      (s.added.map fun timer => timer.id.key).Nodup ∧
        (∀ firing ∈ s.update.fired, ∃ timer ∈ s.added, firing ∈ s.firings timer) ∧
          ∀ timer ∈ s.added, OnSchedule timer (s.firings timer) := by
  have hinitial : system.Reachable (create 0) := .initial ⟨0, rfl⟩
  obtain ⟨s, hs, hfired⟩ := hinitial.exists_of_runUnder _
    (P := fun s => s.update.fired = [⟨0, 1000, 1000⟩, ⟨0, 3000, 5500⟩])
    [.call (.addTimer 1000 2 2 false), .update, .round 1000, .callbackReturns, .round 1500, .update,
      .round 5500] (by decide +kernel)
  exact ⟨s, hfired, fired_on_schedule hs⟩

/-! ## Cancelling -/

/-- The timer of the id is marked, and everything else stays as it is. -/
def cancelKey (key : ℕ) (e : ℤ × Timer) : ℤ × Timer :=
  if e.2.id.key = key then (e.1, e.2.cancel) else e

theorem Timed.settled_scheduled (hs : Timed s) (htimer : timer ∈ s.added) :
    Scheduled timer (firingsOf timer.id.key s.settled) := by
  have hscheduled := hs.scheduled timer htimer
  cases hupdating : s.updating with
  | outside | between => rwa [settled_of_ne (by simp [hupdating])]
  | within now =>
      obtain ⟨e, next, firing, -, hfired, -, -⟩ := hs.within now hupdating
      rw [hfired, firingsOf_append] at hscheduled
      exact (scheduled_append.mp hscheduled).1

/-- Only a call of `addTimer` adds a timer. -/
theorem added_of_step (h : s.step action = some t) : t.added = s.added ∨
    ∃ call, action = .call call ∧ t.added = s.added ++ addedBy call s.update.manager := by
  cases action with
  | call call =>
      obtain ⟨-, heq⟩ := Option.ite_none_left_eq_some.mp h
      rw [← Option.some.inj heq]
      exact .inr ⟨call, rfl, rfl⟩
  | takeId =>
      rw [← Option.some.inj h]
      exact .inl rfl
  | update =>
      obtain ⟨-, heq⟩ := Option.ite_none_right_eq_some.mp h
      rw [← Option.some.inj heq]
      exact .inl rfl
  | round now =>
      obtain ⟨-, heq⟩ := Option.ite_none_right_eq_some.mp h
      rw [← Option.some.inj heq, TimerThread.round]
      split
      · exact .inl rfl
      · split
        · split <;> exact .inl rfl
        · exact .inl rfl
  | callbackReturns =>
      rw [TimerThread.step] at h
      split at h
      case h_1 =>
          rw [← Option.some.inj h]
          exact .inl rfl
      case h_2 => cases h
      case h_3 => cases h

theorem nonNegative_intervals (hs : system.ReachableUnder NonNegative s) :
    ∀ timer ∈ s.added, 0 ≤ timer.interval := by
  induction hs with
  | initial hs =>
      obtain ⟨timerIdGenerator, rfl⟩ := hs
      simp [create]
  | @step s t action _ hok h ih =>
      rcases added_of_step h with hadded | ⟨call, rfl, hadded⟩
      · rwa [hadded]
      · rw [hadded]
        refine List.forall_mem_append.mpr ⟨ih, ?_⟩
        cases call with
        | removeTimer => simp [addedBy]
        | addTimer expiredTime repeatTimes interval fixedDelay =>
            have hinterval : 0 ≤ interval := hok
            simpa [addedBy, newTimer] using hinterval

/-- The search begins at the time the timer was added with, and no timer is kept under an earlier
one. -/
theorem removeTimer_eq (hs : system.ReachableUnder NonNegative s) (htimer : timer ∈ s.added) :
    s.update.perform (.removeTimer timer.id) = s.update.map (cancelKey timer.id.key) := by
  have htimed : Timed s := timed_of_reachable hs.reachable
  have hsame : ∀ e ∈ s.update.timers, cancelBy [.removeTimer timer.id] e = cancelKey timer.id.key e := by
    intro e he
    obtain ⟨other, hother, hkey, hentry⟩ := htimed.entries e he
    by_cases hsame : e.2.id.key = timer.id.key
    · obtain rfl : other = timer :=
        List.inj_on_of_nodup_map htimed.added hother htimer (hkey.trans hsame)
      have hreach : other.id.value ≤ e.1 := by
        rw [hentry.key]
        exact (htimed.settled_scheduled htimer).le_after (nonNegative_intervals hs other htimer)
      simp [cancelBy, cancels, cancelKey, hreach, hsame]
    · have hne : timer.id.key ≠ e.2.id.key := fun h => hsame h.symm
      simp [cancelBy, cancels, cancelKey, hsame, hne]
  rw [perform_eq htimed.stored, Update.map, Update.map]
  congr 1
  · exact List.map_congr_left fun e he => hsame e (List.mem_append_left _ he)
  · exact List.map_congr_left fun e he => hsame e (List.mem_append_right _ he)

/-- A timer with repetitions had them before the step, or has just been added. -/
theorem live_of_step (hs : Timed s) (h : s.step action = some t) (he : e ∈ t.update.timers)
    (hlive : e.2.isRepeatable = true) :
    (∃ other ∈ s.update.timers, other.2.id.key = e.2.id.key ∧ other.2.isRepeatable = true) ∨
      e.2.id.key = s.update.timerIdGenerator := by
  cases action with
  | call call =>
      obtain ⟨-, heq⟩ := Option.ite_none_left_eq_some.mp h
      rw [← Option.some.inj heq] at he
      cases call with
      | removeTimer timerId =>
          rw [perform_eq hs.stored, Update.timers_map] at he
          obtain ⟨other, hother, rfl⟩ := List.mem_map.mp he
          exact .inl ⟨other, hother, by simp, (isLive_cancelBy.mp hlive).1⟩
      | addTimer =>
          rw [timers_addTimer] at he
          rcases List.mem_cons.mp ((Multimap.insert_perm ..).mem_iff.mp he) with rfl | he
          · exact .inr rfl
          · exact .inl ⟨e, he, rfl, hlive⟩
  | takeId =>
      rw [← Option.some.inj h] at he
      exact .inl ⟨e, he, rfl, hlive⟩
  | update =>
      obtain ⟨-, heq⟩ := Option.ite_none_right_eq_some.mp h
      rw [← Option.some.inj heq] at he
      exact .inl ⟨e, he, rfl, hlive⟩
  | round now =>
      obtain ⟨-, heq⟩ := Option.ite_none_right_eq_some.mp h
      rw [← Option.some.inj heq, TimerThread.round] at he
      split at he
      case h_1 => exact .inl ⟨e, he, rfl, hlive⟩
      case h_2 time timer next hrest =>
          split at he
          case isFalse => exact .inl ⟨e, he, rfl, hlive⟩
          case isTrue =>
              cases hrepeat : timer.isRepeatable with
              | true =>
                  rw [hrepeat] at he
                  exact .inl ⟨e, he, rfl, hlive⟩
              | false =>
                  rw [hrepeat] at he
                  simp only [Bool.false_eq_true, if_false] at he
                  rw [leaveTimer_timers (by exact hrest)] at he
                  simp only [hrepeat, Bool.false_eq_true, if_false] at he
                  refine .inl ⟨e, ?_, rfl, hlive⟩
                  rw [Update.timers, hrest]
                  rcases List.mem_append.mp he with he | he
                  · exact List.mem_append_left _ he
                  · exact List.mem_append_right _ (List.mem_cons_of_mem _ he)
  | callbackReturns =>
      rw [TimerThread.step] at h
      split at h
      case h_2 => cases h
      case h_3 => cases h
      case h_1 now hwithin =>
          rw [← Option.some.inj h] at he
          obtain ⟨first, next, firing, hrest, -, -, -⟩ := hs.within now hwithin
          have hrest' : (s.update.rescheduleIt now).rest = (first.1, first.2.reschedule now) :: next := by
            simp [Update.rescheduleIt, hrest]
          have hpassed : (s.update.rescheduleIt now).passed = s.update.passed := by
            simp [Update.rescheduleIt, hrest]
          have hothers : ∀ other ∈ s.update.passed ++ next, other ∈ s.update.timers := by
            intro other hother
            rw [Update.timers, hrest]
            rcases List.mem_append.mp hother with hother | hother
            · exact List.mem_append_left _ hother
            · exact List.mem_append_right _ (List.mem_cons_of_mem _ hother)
          rw [leaveTimer_timers hrest', hpassed] at he
          split at he
          case isFalse => exact .inl ⟨e, hothers e he, rfl, hlive⟩
          case isTrue hagain =>
              rcases List.mem_cons.mp ((Multimap.insert_perm ..).mem_iff.mp he) with rfl | he
              · refine .inl ⟨first, ?_, rfl, isRepeatable_of_reschedule hagain⟩
                simp [Update.timers, hrest]
              · exact .inl ⟨e, hothers e he, rfl, hlive⟩

/-- Only a stored timer with repetitions left is fired, and the generator of ids only counts up. -/
theorem fired_of_step (h : s.step action = some t) :
    s.update.timerIdGenerator ≤ t.update.timerIdGenerator ∧
      (t.update.fired = s.update.fired ∨ ∃ e ∈ s.update.timers, ∃ firing,
        e.2.isRepeatable = true ∧ firing.key = e.2.id.key ∧
          t.update.fired = s.update.fired ++ [firing]) := by
  cases action with
  | call call =>
      obtain ⟨-, heq⟩ := Option.ite_none_left_eq_some.mp h
      rw [← Option.some.inj heq]
      cases call with
      | removeTimer => exact ⟨le_rfl, .inl rfl⟩
      | addTimer => exact ⟨Nat.le_succ _, .inl rfl⟩
  | takeId =>
      rw [← Option.some.inj h]
      exact ⟨Nat.le_succ _, .inl rfl⟩
  | update =>
      obtain ⟨-, heq⟩ := Option.ite_none_right_eq_some.mp h
      rw [← Option.some.inj heq]
      exact ⟨le_rfl, .inl rfl⟩
  | round now =>
      obtain ⟨-, heq⟩ := Option.ite_none_right_eq_some.mp h
      rw [← Option.some.inj heq, TimerThread.round]
      split
      case h_1 => exact ⟨le_rfl, .inl rfl⟩
      case h_2 time timer next hrest =>
          split
          case isFalse => exact ⟨le_rfl, .inl rfl⟩
          case isTrue =>
              cases hrepeat : timer.isRepeatable with
              | true =>
                  refine ⟨le_rfl, .inr ⟨(time, timer), ?_, _, hrepeat, rfl, rfl⟩⟩
                  simp [Update.timers, hrest]
              | false =>
                  obtain ⟨hgenerator, hfired⟩ :=
                    leaveTimer_frame { s.update with round := s.update.round + 1 }
                  exact ⟨hgenerator.ge, .inl hfired⟩
  | callbackReturns =>
      rw [TimerThread.step] at h
      split at h
      case h_2 => cases h
      case h_3 => cases h
      case h_1 now _ =>
          obtain ⟨hgenerator, hfired⟩ := leaveTimer_frame (s.update.rescheduleIt now)
          have hframe : (s.update.rescheduleIt now).timerIdGenerator = s.update.timerIdGenerator ∧
              (s.update.rescheduleIt now).fired = s.update.fired := by
            rw [Update.rescheduleIt]
            split <;> exact ⟨rfl, rfl⟩
          rw [← Option.some.inj h]
          exact ⟨(hgenerator.trans hframe.1).ge, .inl (hfired.trans hframe.2)⟩

/-- No timer of the key has repetitions left, and none is added any more. -/
structure Silenced (key : ℕ) (s : TimerThread) : Prop where
  timed : Timed s
  issued : key < s.update.timerIdGenerator
  finished : ∀ e ∈ s.update.timers, e.2.id.key = key → e.2.isRepeatable = false

theorem Silenced.step (hs : Silenced key s) (h : s.step action = some t) :
    Silenced key t ∧ firingsOf key t.update.fired = firingsOf key s.update.fired := by
  obtain ⟨hgenerator, hfired⟩ := fired_of_step h
  refine ⟨⟨hs.timed.step h, hs.issued.trans_le hgenerator, fun e he hkey => ?_⟩, ?_⟩
  · rw [Bool.eq_false_iff]
    intro hlive
    rcases live_of_step hs.timed h he hlive with ⟨other, hother, hsame, hlive'⟩ | hnew
    · have hover := hs.finished other hother (hsame.trans hkey)
      rw [hlive'] at hover
      cases hover
    · exact absurd (hkey.symm.trans hnew) (Nat.ne_of_lt hs.issued)
  · rcases hfired with hsame | ⟨e, he, firing, hlive, hkey, hfired⟩
    · rw [hsame]
    · have hne : firing.key ≠ key := by
        intro heq
        have hover := hs.finished e he (hkey.symm.trans heq)
        rw [hlive] at hover
        cases hover
      rw [hfired, firingsOf_append, firingsOf_of_ne hne, List.append_nil]

theorem Silenced.run (hs : Silenced key s) {actions : List Action}
    (h : system.run s actions = some t) :
    firingsOf key t.update.fired = firingsOf key s.update.fired := by
  let Same (u : TimerThread) : Prop :=
    Silenced key u ∧ firingsOf key u.update.fired = firingsOf key s.update.fired
  have hrun : Same t := by
    apply System.run_invariant _ (show Same s from ⟨hs, rfl⟩) h
    rintro u action v ⟨hsilenced, hsame⟩ hv
    obtain ⟨hsilenced', hsame'⟩ := hsilenced.step hv
    exact ⟨hsilenced', hsame'.trans hsame⟩
  exact hrun.2

/-- After `removeTimer` with the id that `addTimer` returned, the callback of the timer is not called
again in any run; the call marks this timer only, and does nothing where it is not stored any more. -/
theorem cancellation_final (hs : system.ReachableUnder NonNegative s) (htimer : timer ∈ s.added)
    (h : s.step (.call (.removeTimer timer.id)) = some t) :
    (∀ actions u, system.run t actions = some u → u.firings timer = t.firings timer) ∧
      t = { s with update := s.update.map (cancelKey timer.id.key) } ∧
        ((∀ e ∈ s.update.timers, e.2.id.key ≠ timer.id.key) → t = s) := by
  have htimed : Timed s := timed_of_reachable hs.reachable
  have heq : t = { s with update := s.update.map (cancelKey timer.id.key) } := by
    obtain ⟨-, heq⟩ := Option.ite_none_left_eq_some.mp h
    rw [← Option.some.inj heq, removeTimer_eq hs htimer]
    simp [addedBy]
  have hsilenced : Silenced timer.id.key t := by
    refine ⟨htimed.step h, ?_, fun e he hkey => ?_⟩
    · rw [heq]
      exact htimed.issued timer htimer
    · rw [heq, Update.timers_map] at he
      obtain ⟨other, -, rfl⟩ := List.mem_map.mp he
      rw [cancelKey] at hkey ⊢
      split at hkey
      case isTrue hsame =>
          rw [if_pos hsame]
          exact not_isRepeatable_of_isCancelled (isCancelled_cancel _)
      case isFalse hne => exact absurd hkey hne
  refine ⟨fun actions u hrun => hsilenced.run hrun, heq, fun hnone => ?_⟩
  have hid : ∀ part : Timers, part ⊆ s.update.timers → part.map (cancelKey timer.id.key) = part := by
    intro part hpart
    refine (List.map_congr_left fun e he => ?_).trans (List.map_id part)
    exact if_neg (hnone e (hpart he))
  rw [heq, Update.map, hid _ (List.subset_append_left ..), hid _ (List.subset_append_right ..)]

/-- A timer that was fired before cancels itself in its callback. -/
theorem cancellation_final_self : ∃ (s t : TimerThread) (timer : Timer),
    s.update.fired.length = 2 ∧ s.updating = .within 5500 ∧ timer ∈ s.added ∧
      s.step (.call (.removeTimer timer.id)) = some t ∧
        (∀ actions u, system.run t actions = some u → u.firings timer = t.firings timer) ∧
          t = { s with update := s.update.map (cancelKey timer.id.key) } ∧
            ((∀ e ∈ s.update.timers, e.2.id.key ≠ timer.id.key) → t = s) := by
  have hinitial : system.ReachableUnder NonNegative (create 0) := .initial ⟨0, rfl⟩
  obtain ⟨s, hs, hfired, hwithin, htimer⟩ := hinitial.exists_of_runUnder _
    (P := fun s => s.update.fired.length = 2 ∧ s.updating = .within 5500 ∧
      (⟨⟨0, 1000⟩, kRepeatForever, 2, false⟩ : Timer) ∈ s.added)
    [.call (.addTimer 1000 kRepeatForever 2 false), .update, .round 1000, .callbackReturns,
      .round 5500] (by decide +kernel)
  have hstep : s.step (.call (.removeTimer ⟨0, 1000⟩)) = some { s with
      update := s.update.perform (.removeTimer ⟨0, 1000⟩)
      added := s.added ++ addedBy (.removeTimer ⟨0, 1000⟩) s.update.manager } := by
    simp [step, hwithin]
  exact ⟨s, _, _, hfired, hwithin, htimer, hstep, cancellation_final hs htimer hstep⟩

/-! ## Waiting -/

theorem nearestTimerRemainingExpiredTime_cons (now : ℤ) (first : ℤ × Timer) (rest : Timers) :
    nearestTimerRemainingExpiredTime now (first :: rest) =
      if first.1 ≤ now then 0 else (first.1 - now) / 1000 := by
  rw [nearestTimerRemainingExpiredTime]
  split
  · rfl
  · exact Int.tdiv_eq_ediv_of_nonneg (by omega)

/-- What `EventLoop::run` waits for when it polls is between its two limits, and is no longer than until
the first of the timers that will be fired. -/
theorem poll_in_time (hs : system.Reachable s) (now : ℤ) :
    1 ≤ pollTimeout (nearestTimerRemainingExpiredTime now s.update.timers) ∧
      pollTimeout (nearestTimerRemainingExpiredTime now s.update.timers) ≤ 3000 ∧
        (∀ e ∈ s.update.timers, IsLive e →
          pollTimeout (nearestTimerRemainingExpiredTime now s.update.timers) * 1000 ≤
            max 1000 (e.2.expiredTime - now)) ∧
          (nearestTimerRemainingExpiredTime now s.update.timers = -1 → s.update.timers = []) := by
  have hstored : Stored s.update.timers := (timed_of_reachable hs).stored
  have hlimits : ∀ remaining, 1 ≤ pollTimeout remaining ∧ pollTimeout remaining ≤ 3000 := by
    intro remaining
    simp only [pollTimeout, kMinimumPollTimeout, kDefaultPollTimeout]
    omega
  refine ⟨(hlimits _).1, (hlimits _).2, ?_, ?_⟩
  · intro e he hlive
    rw [hstored.expiredTime_eq he hlive]
    cases htimers : s.update.timers with
    | nil => simp [htimers] at he
    | cons first rest =>
        have hle : first.1 ≤ e.1 := by
          have hsorted := hstored.sorted
          rw [htimers] at hsorted he
          rcases List.mem_cons.mp he with rfl | he
          · exact le_rfl
          · exact (List.pairwise_cons.mp hsorted).1 e he
        rw [nearestTimerRemainingExpiredTime_cons, pollTimeout, kMinimumPollTimeout,
          kDefaultPollTimeout]
        split
        · omega
        · omega
  · cases htimers : s.update.timers with
    | nil => simp
    | cons first rest =>
        rw [nearestTimerRemainingExpiredTime_cons]
        split
        · omega
        · omega

/-- The first of two timers is cancelled: the wait ends for it, before the second is due. -/
theorem poll_in_time_cancelled : ∃ s : TimerThread,
    s.update.timers = [(2000000, ⟨⟨0, 0⟩, 0, 5, false⟩), (2500000, ⟨⟨1, 2500000⟩, 1, 5, true⟩)] ∧
      1 ≤ pollTimeout (nearestTimerRemainingExpiredTime 0 s.update.timers) ∧
        pollTimeout (nearestTimerRemainingExpiredTime 0 s.update.timers) ≤ 3000 ∧
          (∀ e ∈ s.update.timers, IsLive e →
            pollTimeout (nearestTimerRemainingExpiredTime 0 s.update.timers) * 1000 ≤
              max 1000 (e.2.expiredTime - 0)) ∧
            (nearestTimerRemainingExpiredTime 0 s.update.timers = -1 → s.update.timers = []) := by
  have hinitial : system.Reachable (create 0) := .initial ⟨0, rfl⟩
  obtain ⟨s, hs, htimers⟩ := hinitial.exists_of_runUnder _
    (P := fun s => s.update.timers =
      [(2000000, ⟨⟨0, 0⟩, 0, 5, false⟩), (2500000, ⟨⟨1, 2500000⟩, 1, 5, true⟩)])
    [.call (.addTimer 2000000 1 5 false), .call (.addTimer 2500000 1 5 true),
      .call (.removeTimer ⟨0, 2000000⟩)] (by decide +kernel)
  exact ⟨s, htimers, poll_in_time hs 0⟩

end Nets.TimerThread
