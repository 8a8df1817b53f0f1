import Nets.Verification.TimerManager.Rounds
import Nets.Verification.TimerManager.Schedule

/-! # Timers over whole runs

What the container, the firings and the timers that were added have to do with each other, whatever the
callbacks do and wherever in `update` the thread is. A timer in its callback has been fired once more
than the container shows. -/

namespace Nets.TimerManager

open Library

variable {timer : Timer} {e : ℤ × Timer} {s : Update} {next : Timers}

/-- What is stored of a timer after its firings: the timer they leave, or that timer cancelled, under
the time they leave. -/
structure Entry (timer : Timer) (firings : List Firing) (e : ℤ × Timer) : Prop where
  key : e.1 = (Timer.after timer firings).expiredTime
  timer : e.2 = Timer.after timer firings ∨ e.2 = (Timer.after timer firings).cancel

theorem Entry.cancelBy {firings : List Firing} (h : Entry timer firings e) (calls : List Call) :
    Entry timer firings (cancelBy calls e) := by
  refine ⟨by simpa using h.key, ?_⟩
  rw [TimerManager.cancelBy]
  split
  · rcases h.timer with htimer | htimer
    · exact .inr (congrArg Timer.cancel htimer)
    · refine .inr ?_
      rw [htimer]
      rfl
  · exact h.timer

/-- Only a timer that is not cancelled is called. -/
theorem Entry.eq_after {firings : List Firing} (h : Entry timer firings e)
    (hlive : e.2.isRepeatable = true) : e.2 = Timer.after timer firings := by
  rcases h.timer with htimer | htimer
  · exact htimer
  · rw [htimer, not_isRepeatable_of_isCancelled (isCancelled_cancel _)] at hlive
    cases hlive

/-! ## The place of `it` -/

theorem timers_addTimer (s : Update) (expiredTime repeatTimes interval : ℤ) (fixedDelay : Bool) :
    (s.perform (.addTimer expiredTime repeatTimes interval fixedDelay)).timers =
      s.timers.insert expiredTime
        (s.manager.newTimer expiredTime repeatTimes interval fixedDelay) :=
  withTimers_timers ..

/-- A timer that is added comes before or behind the one at `it`. -/
theorem rest_addTimer (h : s.rest = e :: next) (expiredTime repeatTimes interval : ℤ)
    (fixedDelay : Bool) : ∃ next',
      (s.perform (.addTimer expiredTime repeatTimes interval fixedDelay)).rest = e :: next' := by
  have hdrop : s.timers.drop s.passed.length = e :: next := by
    rw [Update.timers, List.drop_left, h]
  by_cases hle : (s.timers.upTo expiredTime).length ≤ s.passed.length
  · refine ⟨next, ?_⟩
    simp only [Update.perform, hle, if_true, Update.withTimers]
    exact (Multimap.drop_insert_of_le hle).trans hdrop
  · simp only [Update.perform, hle, if_false, Update.withTimers]
    exact Multimap.exists_drop_insert (Nat.lt_of_not_le hle) hdrop

end Nets.TimerManager

namespace Nets.TimerThread

open Library TimerManager

variable {s t : TimerThread} {now : ℤ} {e : ℤ × Timer} {next : Timers} {timer : Timer}

/-- The calls of callbacks that have returned. -/
def settled (s : TimerThread) : List Firing :=
  match s.updating with
  | .within _ => s.update.fired.dropLast
  | .outside | .between => s.update.fired

/-- The callback of the timer at `it` is the last that was called. -/
structure InCallback (now : ℤ) (s : TimerThread) (e : ℤ × Timer) (next : Timers)
    (firing : Firing) : Prop where
  rest : s.update.rest = e :: next
  fired : s.update.fired = s.settled ++ [firing]
  key : firing.key = e.2.id.key
  now : firing.now = now

/-- No two timers have the same id, and each of those that were added has been fired on schedule; each
of those that are stored is one of them. -/
structure Timed (s : TimerThread) : Prop where
  stored : Stored s.update.timers
  issued : ∀ timer ∈ s.added, timer.id.key < s.update.timerIdGenerator
  added : (s.added.map fun timer => timer.id.key).Nodup
  entries : ∀ e ∈ s.update.timers,
    ∃ timer ∈ s.added, timer.id.key = e.2.id.key ∧ Entry timer (firingsOf timer.id.key s.settled) e
  scheduled : ∀ timer ∈ s.added, Scheduled timer (firingsOf timer.id.key s.update.fired)
  fired : ∀ firing ∈ s.update.fired, ∃ timer ∈ s.added, timer.id.key = firing.key
  within : ∀ now, s.updating = .within now → ∃ e next firing, InCallback now s e next firing

theorem settled_of_ne (h : ∀ now, s.updating ≠ .within now) : s.settled = s.update.fired := by
  cases hupdating : s.updating with
  | outside | between => simp [settled, hupdating]
  | within now => exact absurd hupdating (h now)

theorem mem_settled {firing : Firing} (h : firing ∈ s.settled) : firing ∈ s.update.fired := by
  rw [settled] at h
  split at h
  · exact (List.dropLast_sublist _).subset h
  · exact h
  · exact h

theorem timed_create (timerIdGenerator : ℕ) : Timed (create timerIdGenerator) where
  stored := managed_empty.stored
  issued := by simp [create]
  added := by simp [create]
  entries := by simp [create, begin, empty, Update.timers]
  scheduled := by simp [create]
  fired := by simp [create, begin]
  within := by simp [create]

/-- Nothing is fired and nothing is added, outside of callbacks. -/
theorem Timed.part (hs : Timed s) (hpart : t.update.timers.Sublist s.update.timers)
    (hgenerator : s.update.timerIdGenerator ≤ t.update.timerIdGenerator)
    (hfired : t.update.fired = s.update.fired) (hadded : t.added = s.added)
    (hbefore : ∀ now, s.updating ≠ .within now) (hafter : ∀ now, t.updating ≠ .within now) :
    Timed t := by
  have hsettled : t.settled = s.settled := by
    rw [settled_of_ne hbefore, settled_of_ne hafter, hfired]
  refine ⟨hs.stored.sublist hpart, ?_, ?_, ?_, ?_, ?_, ?_⟩
  · rw [hadded]
    exact fun timer htimer => (hs.issued timer htimer).trans_le hgenerator
  · rw [hadded]
    exact hs.added
  · rw [hadded, hsettled]
    exact fun e he => hs.entries e (hpart.subset he)
  · rw [hadded, hfired]
    exact hs.scheduled
  · rw [hadded, hfired]
    exact hs.fired
  · exact fun now hnow => absurd hnow (hafter now)

/-! ## Calls -/

theorem Timed.removeTimer (hs : Timed s) (timerId : TimerId) :
    Timed { s with update := s.update.perform (.removeTimer timerId) } := by
  rw [perform_eq hs.stored]
  refine ⟨?_, hs.issued, hs.added, ?_, hs.scheduled, hs.fired, ?_⟩
  · rw [Update.timers_map]
    exact hs.stored.cancelBy _
  · intro e he
    rw [Update.timers_map] at he
    obtain ⟨e, hmem, rfl⟩ := List.mem_map.mp he
    obtain ⟨timer, htimer, hkey, hentry⟩ := hs.entries e hmem
    exact ⟨timer, htimer, by simpa using hkey, hentry.cancelBy _⟩
  · intro now hnow
    obtain ⟨e, next, firing, hrest, hfired, hkey, hreading⟩ := hs.within now hnow
    refine ⟨cancelBy [.removeTimer timerId] e, next.map (cancelBy [.removeTimer timerId]), firing, ?_,
      hfired, by simpa using hkey, hreading⟩
    simp [Update.map, hrest]

theorem Timed.addTimer (hs : Timed s) (expiredTime repeatTimes interval : ℤ) (fixedDelay : Bool) :
    Timed { s with
      update := s.update.perform (.addTimer expiredTime repeatTimes interval fixedDelay)
      added := s.added ++ [s.update.manager.newTimer expiredTime repeatTimes interval fixedDelay] } := by
  -- the new timer has an id of its own
  have hnew : ∀ timer ∈ s.added, timer.id.key ≠ s.update.timerIdGenerator :=
    fun timer htimer => Nat.ne_of_lt (hs.issued timer htimer)
  have hunfired : ∀ fired : List Firing, fired ⊆ s.update.fired →
      firingsOf s.update.timerIdGenerator fired = [] := by
    intro fired hsubset
    apply firingsOf_eq_nil
    intro firing hfiring
    obtain ⟨timer, htimer, hkey⟩ := hs.fired firing (hsubset hfiring)
    exact hkey ▸ hnew timer htimer
  have hid : s.update.timerIdGenerator ∉ s.update.timers.map fun e => e.2.id.key := by
    intro hmem
    obtain ⟨e, he, hkey⟩ := List.mem_map.mp hmem
    obtain ⟨timer, htimer, htimerKey, -⟩ := hs.entries e he
    exact hnew timer htimer (htimerKey.trans hkey)
  refine ⟨?_, ?_, ?_, ?_, ?_, ?_, ?_⟩
  · rw [timers_addTimer]
    exact hs.stored.insert
      (s.update.manager.newTimer expiredTime repeatTimes interval fixedDelay) hid
  · intro timer htimer
    rcases List.mem_append.mp htimer with htimer | htimer
    · exact Nat.lt_succ_of_lt (hs.issued timer htimer)
    · obtain rfl := List.mem_singleton.mp htimer
      exact Nat.lt_succ_self _
  · rw [List.map_append]
    refine List.nodup_append_comm.mpr (List.nodup_cons.mpr ⟨?_, hs.added⟩)
    intro hmem
    obtain ⟨timer, htimer, hkey⟩ := List.mem_map.mp hmem
    exact hnew timer htimer hkey
  · intro e he
    rw [timers_addTimer] at he
    rcases List.mem_cons.mp ((Multimap.insert_perm ..).mem_iff.mp he) with rfl | he
    · refine ⟨_, List.mem_append_right _ (List.mem_singleton_self _), rfl, ?_⟩
      have hnone : firingsOf s.update.timerIdGenerator s.settled = [] :=
        hunfired _ fun _ => mem_settled
      change Entry _ (firingsOf s.update.timerIdGenerator s.settled) _
      rw [hnone]
      exact ⟨rfl, .inl rfl⟩
    · obtain ⟨timer, htimer, hentry⟩ := hs.entries e he
      exact ⟨timer, List.mem_append_left _ htimer, hentry⟩
  · intro timer htimer
    rcases List.mem_append.mp htimer with htimer | htimer
    · exact hs.scheduled timer htimer
    · obtain rfl := List.mem_singleton.mp htimer
      change Scheduled _ (firingsOf s.update.timerIdGenerator s.update.fired)
      rw [hunfired _ fun _ => id]
      trivial
  · intro firing hfiring
    obtain ⟨timer, htimer, hkey⟩ := hs.fired firing hfiring
    exact ⟨timer, List.mem_append_left _ htimer, hkey⟩
  · intro now hnow
    obtain ⟨e, next, firing, hrest, hfired, hkey, hreading⟩ := hs.within now hnow
    obtain ⟨next', hrest'⟩ := rest_addTimer hrest expiredTime repeatTimes interval fixedDelay
    exact ⟨e, next', firing, hrest', hfired, hkey, hreading⟩

/-! ## `update` -/

theorem Timed.fire (hs : Timed s) (hbetween : s.updating = .between) (hrest : s.update.rest = e :: next)
    (hexpired : e.2.isExpired now = true) (hlive : e.2.isRepeatable = true) :
    Timed { s with
      update := { s.update with
        round := s.update.round + 1
        fired := s.update.fired ++ [⟨e.2.id.key, e.2.expiredTime, now⟩] }
      updating := .within now } := by
  have hsettled : s.settled = s.update.fired := settled_of_ne (by simp [hbetween])
  have hmem : e ∈ s.update.timers := by simp [Update.timers, hrest]
  obtain ⟨timer, htimer, hkey, hentry⟩ := hs.entries e hmem
  have heq : e.2 = Timer.after timer (firingsOf timer.id.key s.update.fired) :=
    hsettled ▸ hentry.eq_after hlive
  refine ⟨hs.stored, hs.issued, hs.added, ?_, ?_, ?_, ?_⟩
  · intro e he
    obtain ⟨timer, htimer, hkey, hentry⟩ := hs.entries e he
    refine ⟨timer, htimer, hkey, ?_⟩
    rw [hsettled] at hentry
    simpa [settled] using hentry
  · intro other hother
    rw [firingsOf_append]
    by_cases hsame : e.2.id.key = other.id.key
    · obtain rfl : timer = other :=
        List.inj_on_of_nodup_map hs.added htimer hother (hkey.trans hsame)
      rw [firingsOf_self hsame]
      refine scheduled_append.mpr ⟨hs.scheduled timer htimer, ?_⟩
      rw [← heq]
      exact ⟨rfl, rfl, hlive, of_decide_eq_true hexpired, trivial⟩
    · rw [firingsOf_of_ne hsame, List.append_nil]
      exact hs.scheduled other hother
  · intro firing hfiring
    rcases List.mem_append.mp hfiring with hfiring | hfiring
    · exact hs.fired firing hfiring
    · obtain rfl := List.mem_singleton.mp hfiring
      exact ⟨timer, htimer, hkey⟩
  · intro now' hnow
    obtain rfl := Updating.within.inj hnow
    exact ⟨e, next, ⟨e.2.id.key, e.2.expiredTime, now⟩, hrest, by simp [settled], rfl, rfl⟩

theorem Timed.round (hs : Timed s) (hbetween : s.updating = .between) (now : ℤ) :
    Timed (s.round now) := by
  have hbefore : ∀ now, s.updating ≠ .within now := by simp [hbetween]
  rw [TimerThread.round]
  split
  case h_1 => exact hs.part (.refl _) le_rfl rfl rfl hbefore (by simp)
  case h_2 time timer next hrest =>
      split
      case isFalse => exact hs.part (.refl _) le_rfl rfl rfl hbefore (by simp)
      case isTrue hexpired =>
          cases hlive : timer.isRepeatable with
          | true => exact hs.fire hbetween hrest hexpired hlive
          | false =>
              obtain ⟨hgenerator, hfired⟩ :=
                leaveTimer_frame { s.update with round := s.update.round + 1 }
              refine hs.part ?_ hgenerator.ge hfired rfl hbefore (by simp [hbetween])
              have htimers : s.update.timers = s.update.passed ++ (time, timer) :: next := by
                rw [Update.timers, hrest]
              simp only [Bool.false_eq_true, if_false]
              rw [leaveTimer_timers (by exact hrest), htimers]
              simp [hlive]

/-- The timer comes back from its callback, under its next time, unless it was cancelled or has no
repetitions left. -/
theorem Timed.callbackReturns (hs : Timed s) (hwithin : s.updating = .within now) :
    Timed { s with
      update := (s.update.rescheduleIt now).leaveTimer
      updating := .between } := by
  obtain ⟨e, next, firing, hrest, hfired, hkey, hreading⟩ := hs.within now hwithin
  have hmem : e ∈ s.update.timers := by simp [Update.timers, hrest]
  obtain ⟨timer, htimer, htimerKey, hentry⟩ := hs.entries e hmem
  obtain ⟨hgenerator, hfired'⟩ := leaveTimer_frame (s.update.rescheduleIt now)
  have hrest' : (s.update.rescheduleIt now).rest = (e.1, e.2.reschedule now) :: next := by
    simp [Update.rescheduleIt, hrest]
  have hframe : (s.update.rescheduleIt now).timerIdGenerator = s.update.timerIdGenerator ∧
      (s.update.rescheduleIt now).fired = s.update.fired ∧
        (s.update.rescheduleIt now).passed = s.update.passed := by
    simp [Update.rescheduleIt, hrest]
  have htimers := leaveTimer_timers hrest'
  rw [hframe.2.2] at htimers
  -- the other timers are where they were, and their firings too
  have hothers : (s.update.passed ++ next).Sublist s.update.timers := by
    simp [Update.timers, hrest]
  have hapart : ∀ other ∈ s.update.passed ++ next, e.2.id.key ≠ other.2.id.key := by
    intro other hother heq
    have hids := hs.stored.ids
    rw [Update.timers, hrest, (List.perm_middle.map _).nodup_iff, List.map_cons] at hids
    exact (List.nodup_cons.mp hids).1 (List.mem_map.mpr ⟨other, hother, heq.symm⟩)
  have hentries : ∀ other ∈ s.update.passed ++ next, ∃ timer ∈ s.added,
      timer.id.key = other.2.id.key ∧ Entry timer (firingsOf timer.id.key s.update.fired) other := by
    intro other hother
    obtain ⟨timer, htimer, hsame, hentry⟩ := hs.entries other (hothers.subset hother)
    refine ⟨timer, htimer, hsame, ?_⟩
    have hne : firing.key ≠ timer.id.key := by
      rw [hkey, hsame]
      exact hapart other hother
    rwa [hfired, firingsOf_append, firingsOf_of_ne hne, List.append_nil]
  refine ⟨?_, ?_, hs.added, ?_, ?_, ?_, by simp⟩
  · rw [htimers]
    split
    · apply (hs.stored.sublist hothers).insert (e.2.reschedule now)
      intro hmem
      obtain ⟨other, hother, heq⟩ := List.mem_map.mp hmem
      exact hapart other hother heq.symm
    · exact hs.stored.sublist hothers
  · rw [hgenerator, hframe.1]
    exact hs.issued
  · intro other hother
    change ∃ timer ∈ s.added, timer.id.key = other.2.id.key ∧
      Entry timer (firingsOf timer.id.key (s.update.rescheduleIt now).leaveTimer.fired) other
    rw [hfired', hframe.2.1]
    rw [htimers] at hother
    split at hother
    case isFalse => exact hentries other hother
    case isTrue hagain =>
        rcases List.mem_cons.mp ((Multimap.insert_perm ..).mem_iff.mp hother) with rfl | hother
        · refine ⟨timer, htimer, htimerKey, ?_⟩
          have hafter : e.2.reschedule now =
              Timer.after timer (firingsOf timer.id.key s.update.fired) := by
            rw [hfired, firingsOf_append, firingsOf_self (hkey.trans htimerKey.symm),
              Timer.after_concat, hreading, ← hentry.eq_after (isRepeatable_of_reschedule hagain)]
          exact ⟨congrArg Timer.expiredTime hafter, .inl hafter⟩
        · exact hentries other hother
  · rw [hfired', hframe.2.1]
    exact hs.scheduled
  · rw [hfired', hframe.2.1]
    exact hs.fired

theorem Timed.step (hs : Timed s) {action : Action} (h : s.step action = some t) : Timed t := by
  cases action with
  | call call =>
      obtain ⟨-, heq⟩ := Option.ite_none_left_eq_some.mp h
      rw [← Option.some.inj heq]
      cases call with
      | removeTimer timerId => simpa [addedBy] using hs.removeTimer timerId
      | addTimer expiredTime repeatTimes interval fixedDelay =>
          exact hs.addTimer expiredTime repeatTimes interval fixedDelay
  | takeId =>
      rw [← Option.some.inj h]
      refine ⟨hs.stored, ?_, hs.added, hs.entries, hs.scheduled, hs.fired, ?_⟩
      · exact fun timer htimer => Nat.lt_succ_of_lt (hs.issued timer htimer)
      · intro now hnow
        obtain ⟨e, next, firing, hrest, hfired, hkey, hreading⟩ := hs.within now hnow
        exact ⟨e, next, firing, hrest, hfired, hkey, hreading⟩
  | update =>
      obtain ⟨houtside, heq⟩ := Option.ite_none_right_eq_some.mp h
      rw [← Option.some.inj heq]
      exact hs.part (.refl _) le_rfl rfl rfl (by simp [houtside]) (by simp)
  | round now =>
      obtain ⟨hbetween, heq⟩ := Option.ite_none_right_eq_some.mp h
      rw [← Option.some.inj heq]
      exact hs.round hbetween now
  | callbackReturns =>
      rw [TimerThread.step] at h
      split at h
      case h_1 now hwithin =>
          rw [← Option.some.inj h]
          exact hs.callbackReturns hwithin
      case h_2 => cases h
      case h_3 => cases h

theorem timed_of_reachable (hs : system.Reachable s) : Timed s := by
  apply hs.invariant
  · rintro _ ⟨timerIdGenerator, rfl⟩
    exact timed_create timerIdGenerator
  · exact fun _ _ _ hs h => hs.step h

end Nets.TimerThread
