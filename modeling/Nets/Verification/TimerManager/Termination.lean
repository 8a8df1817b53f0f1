import Mathlib.Algebra.Order.BigOperators.Group.List
import Mathlib.Algebra.Order.Ring.Nat
import Nets.Verification.TimerManager.Rounds

/-! # When `update` ends

With a clock that stands still and callbacks that leave the manager alone, every round fires a timer
that has fewer firings left or a later time than before, unless the timer repeats for ever and its next
time is the same. -/

namespace Nets.TimerManager

open Library

variable {s t : Update} {now : ℤ} {e : ℤ × Timer} {next : Timers} {m : TimerManager}

/-- Due for ever: the next time is the same. -/
def Timer.IsStuck (now : ℤ) (timer : Timer) : Prop :=
  timer.isExpired now = true ∧ timer.repeatTimes = kRepeatForever ∧
    (timer.reschedule now).expiredTime = timer.expiredTime

/-- The timer at `it` is due for ever. -/
def AtStuck (now : ℤ) (s : Update) : Prop := ∃ e ∈ s.rest.head?, Timer.IsStuck now e.2

/-- A call of `update` in which no callback calls the manager. -/
abbrev quietStep (now : ℤ) : Update → Update ⊕ Update := Update.step (fun _ => now) fun _ => []

/-! ## Firing one timer -/

theorem le_expiredTime_reschedule {timer : Timer} (hinterval : 0 ≤ timer.interval)
    (hexpired : timer.expiredTime ≤ now) :
    timer.expiredTime ≤ (timer.reschedule now).expiredTime := by
  have hvalue : timer.id.value ≤ now := hexpired
  change timer.id.value ≤
    plusMilliseconds (if timer.fixedDelay then now else timer.id.value) timer.interval
  rw [plusMilliseconds, kMicrosecondsPerMillisecond]
  split <;> omega

/-- The firings the timer can still come to, and the time until it is not due any more. -/
def left (now : ℤ) (e : ℤ × Timer) : ℕ := (now + 1 - e.1).toNat + e.2.repeatTimes.toNat + 1

theorem left_reschedule {timer : Timer} (hinterval : 0 ≤ timer.interval)
    (hexpired : timer.expiredTime ≤ now) (hrepeatable : timer.isRepeatable = true)
    (hfree : ¬ Timer.IsStuck now timer) :
    left now ((timer.reschedule now).expiredTime, timer.reschedule now) <
      left now (timer.expiredTime, timer) := by
  have hle := le_expiredTime_reschedule hinterval hexpired
  have htimes : (timer.reschedule now).repeatTimes =
      if timer.repeatTimes > 0 then timer.repeatTimes - 1 else timer.repeatTimes := rfl
  rw [left, left, htimes]
  rcases of_decide_eq_true hrepeatable with hforever | hpositive
  · have hne : (timer.reschedule now).expiredTime ≠ timer.expiredTime := fun heq =>
      hfree ⟨decide_eq_true hexpired, hforever, heq⟩
    rw [hforever, kRepeatForever]
    simp only
    omega
  · rw [if_pos hpositive]
    simp only
    omega

theorem Timer.IsStuck.reschedule_eq {timer : Timer} (h : Timer.IsStuck now timer) :
    timer.reschedule now = timer := by
  obtain ⟨-, hforever, htime⟩ := h
  obtain ⟨⟨key, value⟩, repeatTimes, interval, fixedDelay⟩ := timer
  obtain rfl : repeatTimes = kRepeatForever := hforever
  have hvalue : plusMilliseconds (if fixedDelay then now else value) interval = value := htime
  simp [Timer.reschedule, hvalue, kRepeatForever]

/-! ## Rounds -/

/-- What holds at the beginning of every round. -/
structure Steady (s : Update) : Prop where
  stored : Stored s.timers
  intervals : ∀ e ∈ s.timers, 0 ≤ e.2.interval

/-- The timer at `it` after its callback. -/
def fireIt (now : ℤ) (e : ℤ × Timer) (next : Timers) (s : Update) : Update where
  passed := s.passed
  rest := (e.1, e.2.reschedule now) :: next
  timerIdGenerator := s.timerIdGenerator
  round := s.round + 1
  fired := s.fired ++ [⟨e.2.id.key, e.2.expiredTime, now⟩]

/-- What a round does: the timer at `it` is removed, or comes back with its next time. -/
inductive Round (now : ℤ) (e : ℤ × Timer) (next : Timers) (s t : Update) : Prop where
  | removed (htimers : t.timers = s.passed ++ next) (hrest : t.rest = next)
  | fired (hrepeatable : e.2.isRepeatable = true)
      (hreinserted : Reinserted (e.2.reschedule now) next (fireIt now e next s) t)

theorem Steady.expiredTime_eq (hs : Steady s) (hrest : s.rest = e :: next)
    (hrepeatable : e.2.isRepeatable = true) : e.2.expiredTime = e.1 :=
  hs.stored.expiredTime_eq (Progress.mem hrest) hrepeatable

theorem quietStep_eq (hrest : s.rest = e :: next) : quietStep now s =
    if e.2.isExpired now then
      .inl (if e.2.isRepeatable then (fireIt now e next s).leaveTimer
        else { s with round := s.round + 1, rest := next })
    else .inr s := by
  rw [quietStep, step_of_rest hrest]
  congr 2
  by_cases hrepeatable : e.2.isRepeatable = true
  · rw [Update.onTimer, if_pos hrepeatable, if_pos hrepeatable]
    simp [Update.rescheduleIt, fireIt, hrest]
  · rw [Update.onTimer, if_neg hrepeatable, if_neg hrepeatable]
    simp [Update.leaveTimer, hrest, hrepeatable]

theorem Steady.round (hs : Steady s) (h : quietStep now s = .inl t) :
    ∃ e next, s.rest = e :: next ∧ e.2.isExpired now = true ∧ Round now e next s t := by
  cases hrest : s.rest with
  | nil =>
      rw [quietStep, Update.step, hrest] at h
      cases h
  | cons e next =>
      rw [quietStep_eq hrest] at h
      split at h
      case isFalse => cases h
      case isTrue hexpired =>
          refine ⟨e, next, rfl, hexpired, ?_⟩
          obtain rfl := Sum.inl.inj h
          split
          case isFalse => exact .removed rfl rfl
          case isTrue hrepeatable =>
              rw [Update.leaveTimer, fireIt]
              dsimp only
              split
              case isFalse => exact .removed rfl rfl
              case isTrue =>
                  have htime := hs.expiredTime_eq hrest hrepeatable
                  have hdue : e.2.expiredTime ≤ now := of_decide_eq_true hexpired
                  have hle := le_expiredTime_reschedule (hs.intervals e (Progress.mem hrest)) hdue
                  have hsorted := hs.stored.sorted.sublist (sublist_without hrest)
                  refine .fired hrepeatable (reinsert_spec hsorted fun x hx => ?_)
                  exact ((key_le_of_rest hs.stored hrest).1 x hx).trans (htime ▸ hle)

/-- The timers after a round are those before, but for the one that was fired. -/
theorem Round.mem_timers (h : Round now e next s t) {x : ℤ × Timer} (hx : x ∈ t.timers) :
    x = ((e.2.reschedule now).expiredTime, e.2.reschedule now) ∨ x ∈ s.passed ++ next := by
  cases h with
  | removed htimers _ => exact .inr (htimers ▸ hx)
  | fired _ hreinserted =>
      rw [hreinserted.timers] at hx
      exact List.mem_cons.mp ((Multimap.insert_perm _ _ _).mem_iff.mp hx)

theorem Steady.step (hs : Steady s) (h : quietStep now s = .inl t) : Steady t := by
  obtain ⟨e, next, hrest, -, hround⟩ := hs.round h
  have hsub := sublist_without hrest
  refine ⟨?_, fun x hx => ?_⟩
  · cases hround with
    | removed htimers _ =>
        rw [htimers]
        exact hs.stored.sublist hsub
    | fired _ hreinserted =>
        rw [hreinserted.timers]
        exact (hs.stored.sublist hsub).insert _ (id_notMem_of_rest hs.stored hrest)
  · rcases hround.mem_timers hx with rfl | hx
    · exact hs.intervals e (Progress.mem hrest)
    · exact hs.intervals x (hsub.subset hx)

/-! ## The measure -/

/-- All that is left from `it` on. -/
def allLeft (now : ℤ) (rest : Timers) : ℕ := (rest.map (left now)).sum

theorem Steady.allLeft_lt (hs : Steady s) (hfree : ¬ AtStuck now s) (h : quietStep now s = .inl t) :
    allLeft now t.rest < allLeft now s.rest := by
  obtain ⟨e, next, hrest, hexpired, hround⟩ := hs.round h
  have hsplit : allLeft now s.rest = left now e + allLeft now next := by
    rw [hrest, allLeft, List.map_cons, List.sum_cons]
    rfl
  rw [hsplit]
  cases hround with
  | removed _ hnext =>
      rw [hnext, left]
      omega
  | fired hrepeatable hreinserted =>
      obtain ⟨tail, hperm, htail⟩ := hreinserted.rest
      have hsum : allLeft now t.rest =
          left now ((e.2.reschedule now).expiredTime, e.2.reschedule now) + allLeft now tail := by
        rw [allLeft, (hperm.map _).sum_nat, List.map_cons, List.sum_cons]
        rfl
      have hle : allLeft now tail ≤ allLeft now next := (htail.map (left now)).sum_le_sum fun _ _ => Nat.zero_le _
      have hdue : e.2.expiredTime ≤ now := of_decide_eq_true hexpired
      have hstuck : ¬ Timer.IsStuck now e.2 := fun hstuck => hfree ⟨e, by simp [hrest], hstuck⟩
      have hlt := left_reschedule (hs.intervals e (Progress.mem hrest)) hdue hrepeatable hstuck
      have hsame : left now (e.2.expiredTime, e.2) = left now e := by
        rw [left, left, hs.expiredTime_eq hrest hrepeatable]
      omega

/-! ## Timers that are due for ever -/

theorem Timer.IsStuck.isRepeatable {timer : Timer} (h : Timer.IsStuck now timer) :
    timer.isRepeatable = true := by
  simp [Timer.isRepeatable, h.2.1]

/-- The timer is fired, and `it` stays with it. -/
theorem Steady.stuck (hs : Steady s) (hstuck : AtStuck now s) :
    ∃ t, quietStep now s = .inl t ∧ Steady t ∧ AtStuck now t := by
  obtain ⟨e, he, hstuck⟩ := hstuck
  obtain ⟨next, hrest⟩ : ∃ next, s.rest = e :: next := by
    cases hrest : s.rest with
    | nil => simp [hrest] at he
    | cons x next =>
        rw [hrest] at he
        exact ⟨next, by rw [Option.some.inj he]⟩
  have hstep : quietStep now s = .inl (fireIt now e next s).leaveTimer := by
    rw [quietStep_eq hrest, if_pos hstuck.1, if_pos hstuck.isRepeatable]
  refine ⟨_, hstep, hs.step hstep, ?_⟩
  have hnone : ¬ (next.head?.any fun nextIt => nextIt.1 < e.2.expiredTime) = true := by
    intro hany
    obtain ⟨x, hx, hlt⟩ := (Option.any_eq_true ..).mp hany
    have hle := (key_le_of_rest hs.stored hrest).2 x (List.mem_of_mem_head? hx)
    rw [← hs.expiredTime_eq hrest hstuck.isRepeatable] at hle
    exact absurd (of_decide_eq_true hlt) (not_lt.mpr hle)
  have hsame : (fireIt now e next s).leaveTimer =
      (fireIt now e next s).withTimers ((s.passed ++ next).insert e.2.expiredTime e.2)
        ((s.passed ++ next).upTo e.2.expiredTime).length := by
    rw [Update.leaveTimer, fireIt]
    simp only [hstuck.reschedule_eq, hstuck.isRepeatable, if_true, Update.reinsert]
    rw [if_neg hnone]
  refine ⟨(e.2.expiredTime, e.2), ?_, hstuck⟩
  rw [hsame, Update.withTimers, Multimap.insert, List.drop_left' rfl]
  rfl

/-! ## The whole call -/

theorem steady_begin (hm : Stored m.timers) (hintervals : ∀ e ∈ m.timers, 0 ≤ e.2.interval) :
    Steady m.begin := ⟨hm, hintervals⟩

/-- Due, and repeated for ever without an interval. -/
def IsIdle (now : ℤ) (e : ℤ × Timer) : Prop :=
  e.2.isExpired now = true ∧ e.2.repeatTimes = kRepeatForever ∧ e.2.interval = 0

instance (now : ℤ) : DecidablePred (IsIdle now) := fun _ => inferInstanceAs (Decidable (_ ∧ _ ∧ _))

theorem Timer.IsStuck.interval_eq {timer : Timer} (h : Timer.IsStuck now timer)
    (hinterval : 0 ≤ timer.interval) : timer.interval = 0 := by
  obtain ⟨hexpired, -, htime⟩ := h
  have hvalue : timer.id.value ≤ now := of_decide_eq_true hexpired
  change plusMilliseconds (if timer.fixedDelay then now else timer.id.value) timer.interval =
    timer.id.value at htime
  rw [plusMilliseconds, kMicrosecondsPerMillisecond] at htime
  split at htime <;> omega

theorem Steady.noneIdle (hs : Steady s) (hnone : ∀ e ∈ s.timers, ¬ IsIdle now e)
    (h : quietStep now s = .inl t) : ∀ e ∈ t.timers, ¬ IsIdle now e := by
  obtain ⟨e, next, hrest, hexpired, hround⟩ := hs.round h
  intro x hx
  rcases hround.mem_timers hx with rfl | hx
  · rintro ⟨-, hforever, hinterval⟩
    refine hnone e (Progress.mem hrest) ⟨hexpired, ?_, hinterval⟩
    change (if e.2.repeatTimes > 0 then e.2.repeatTimes - 1 else e.2.repeatTimes) = kRepeatForever
      at hforever
    rw [kRepeatForever] at hforever ⊢
    split at hforever
    · omega
    · exact hforever
  · exact hnone x ((sublist_without hrest).subset hx)

/-- `update` ends exactly when it comes to no timer that is due for ever; so it does when no timer that
is due repeats for ever without an interval. -/
theorem terminates_iff (now : ℤ) (m : TimerManager) (hm : Stored m.timers)
    (hintervals : ∀ e ∈ m.timers, 0 ≤ e.2.interval) :
    (Loop.Terminates (Update.step (fun _ => now) fun _ => []) m.begin ↔
      ∀ s, Loop.Reaches (Update.step (fun _ => now) fun _ => []) m.begin s → ¬ AtStuck now s) ∧
    ((∀ e ∈ m.timers, ¬ IsIdle now e) →
      Loop.Terminates (Update.step (fun _ => now) fun _ => []) m.begin) := by
  have hbegin := steady_begin hm hintervals
  have hiff : Loop.Terminates (quietStep now) m.begin ↔
      ∀ s, Loop.Reaches (quietStep now) m.begin s → ¬ AtStuck now s := by
    refine Loop.terminates_iff_of_variant (I := Steady) (fun s => allLeft now s.rest)
      (fun s t hs h => hs.step h) (fun s t hs hfree h => hs.allLeft_lt hfree h) ?_ hbegin
    intro s hs hstuck
    refine Loop.not_terminates_of_invariant (I := fun s => Steady s ∧ AtStuck now s) ?_ ⟨hs, hstuck⟩
    exact fun s hs => hs.1.stuck hs.2
  refine ⟨hiff, fun hnone => hiff.mpr fun s hreaches hstuck => ?_⟩
  obtain ⟨hs, hfree⟩ : Steady s ∧ ∀ e ∈ s.timers, ¬ IsIdle now e :=
    hreaches.invariant (I := fun s => Steady s ∧ ∀ e ∈ s.timers, ¬ IsIdle now e)
      (fun s t hs h => ⟨hs.1.step h, hs.1.noneIdle hs.2 h⟩) ⟨hbegin, hnone⟩
  obtain ⟨e, he, hstuck⟩ := hstuck
  have hmem : e ∈ s.timers := List.mem_append_right _ (List.mem_of_mem_head? he)
  exact hfree e hmem ⟨hstuck.1, hstuck.2.1, hstuck.interval_eq (hs.intervals e hmem)⟩

/-- Three times at once, and every second. -/
def thriceAndEverySecond : TimerManager :=
  (empty.addTimer 0 3 0 false).addTimer 1000000 kRepeatForever 1000 true

theorem terminates_thrice :
    Stored thriceAndEverySecond.timers ∧
      Loop.Terminates (Update.step (fun _ => 2500000) fun _ => []) thriceAndEverySecond.begin := by
  have hstored : Stored thriceAndEverySecond.timers :=
    ((managed_empty.addTimer ..).addTimer ..).stored
  exact ⟨hstored, (terminates_iff 2500000 thriceAndEverySecond hstored (by decide)).2 (by decide)⟩

/-- `scheduleAtFixedRate` with no delay and no interval. -/
theorem not_terminates_atFixedRate :
    ¬ ∀ (now : ℤ) (m : TimerManager), Managed m → (∀ e ∈ m.timers, 0 ≤ e.2.interval) →
      Loop.Terminates (Update.step (fun _ => now) fun _ => []) m.begin := by
  intro h
  let m := empty.addTimer 0 kRepeatForever 0 false
  have hm : Managed m := managed_empty.addTimer ..
  have hintervals : ∀ e ∈ m.timers, 0 ≤ e.2.interval := by decide
  have hstuck : AtStuck 0 m.begin := ⟨_, rfl, rfl, rfl, rfl⟩
  refine Loop.not_terminates_of_invariant (I := fun s => Steady s ∧ AtStuck 0 s)
    (fun s hs => hs.1.stuck hs.2) ⟨steady_begin hm.stored hintervals, hstuck⟩ ?_
  exact h 0 m hm hintervals

end Nets.TimerManager
