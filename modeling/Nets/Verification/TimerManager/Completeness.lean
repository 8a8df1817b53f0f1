import Nets.Verification.TimerManager.Accounting

/-! # The timers that are due

With a clock that stands still `update` ends, and calls the callbacks in the order of the times they
are scheduled for. It fires every timer as often as it is due and leaves none behind that is due, unless
it passes over one that has the new time of a timer it has fired. -/

namespace Nets.TimerManager

open Library

variable {callbacks : ℕ → List Call} {s t r : Update} {now : ℤ} {e : ℤ × Timer}
  {m : TimerManager} {trace : List Update}

/-- `update` returns and no timer that is due is left; the callbacks were called in order and on
schedule, and those of a timer that none of them cancels once for each time it was due. -/
def Completes (now : ℤ) (callbacks : ℕ → List Call) (m : TimerManager) : Prop :=
  ∃ trace s, Loop.Rounds (Update.step (fun _ => now) callbacks) m.begin trace s ∧
    (∀ e ∈ s.timers, IsLive e → now < e.2.expiredTime) ∧
    OfTimers now m.timers s.fired ∧
    (∀ e ∈ m.timers, ¬ CancelsKey callbacks trace e.2.id.key →
      FiredAsDue now e.2 (firingsOf e.2.id.key s.fired)) ∧
    s.fired.Pairwise fun x y => x.expiredTime ≤ y.expiredTime

/-- A callback that is called in one of the rounds cancels the timer. -/
def CancelledIn (callbacks : ℕ → List Call) (trace : List Update) (e : ℤ × Timer) : Prop :=
  ∃ s ∈ trace, fires s = true ∧ (callbacks s.round).any (cancels · e) = true

/-- Whenever the new time of a timer that is fired is due and is the key of the timers behind it, each
of them that is live is cancelled by this callback or a later one. -/
def SkipsCancelled (now : ℤ) (callbacks : ℕ → List Call) : List Update → Prop
  | [] => True
  | s :: trace =>
    (∀ e ∈ tied now callbacks s, IsLive e → e.1 ≤ now → CancelledIn callbacks (s :: trace) e) ∧
      SkipsCancelled now callbacks trace

/-! ## What is passed over -/

theorem cancelledIn_cons : CancelledIn callbacks (s :: trace) e ↔
    (fires s = true ∧ (callbacks s.round).any (cancels · e) = true) ∨
      CancelledIn callbacks trace e := by
  simp only [CancelledIn, List.mem_cons, exists_eq_or_imp]

/-- A timer that has been passed over stays as it is, until it is cancelled. -/
theorem cancelled_effect :
    (IsLive (effect callbacks s e) → (effect callbacks s e).1 ≤ now →
      CancelledIn callbacks trace (effect callbacks s e)) ↔
    (IsLive e → e.1 ≤ now → CancelledIn callbacks (s :: trace) e) := by
  rw [cancelledIn_cons]
  by_cases hnow : fires s = true ∧ (callbacks s.round).any (cancels · e) = true
  · have heffect : effect callbacks s e = cancelBy (callbacks s.round) e := by
      rw [effect, if_pos hnow.1]
    have hdead : ¬ IsLive (effect callbacks s e) := by
      rw [heffect, isLive_cancelBy, hnow.2]
      rintro ⟨-, hcancelled⟩
      cases hcancelled
    exact ⟨fun _ _ _ => .inl hnow, fun _ hlive => absurd hlive hdead⟩
  · have heffect : effect callbacks s e = e := by
      rw [effect]
      split
      case isTrue hfires =>
          apply cancelBy_of_not
          exact Bool.eq_false_iff.mpr fun hany => hnow ⟨hfires, hany⟩
      case isFalse => rfl
    rw [heffect]
    simp only [hnow, false_or]

/-- When the loop is left nothing is due behind `it`; what is in front of it was passed over, and is
due unless it has been cancelled. -/
theorem due_iff (h : Loop.Rounds (Update.step (fun _ => now) callbacks) s trace r)
    (hs : Progress s) (hnow : 0 ≤ now) (hcalls : ∀ n, AddsNone (callbacks n)) :
    Progress r ∧ ((∀ e ∈ r.timers, IsLive e → now < e.1) ↔
      (∀ e ∈ s.passed, IsLive e → e.1 ≤ now → CancelledIn callbacks trace e) ∧
        SkipsCancelled now callbacks trace) := by
  induction h with
  | @leave s r h =>
      obtain ⟨rfl, hrest⟩ := hs.leave hnow h
      refine ⟨hs, fun hdue => ⟨fun e he hlive hle => ?_, trivial⟩, fun hpassed e he hlive => ?_⟩
      · exact absurd hle (not_le.mpr (hdue e (List.mem_append_left _ he) hlive))
      · rcases List.mem_append.mp he with he | he
        · refine lt_of_not_ge fun hle => ?_
          obtain ⟨u, hu, -⟩ := hpassed.1 e he hlive hle
          cases hu
        · exact hrest e he hlive
  | @round s t trace r h _ ih =>
      have hmoves := hs.step (hcalls s.round) h
      obtain ⟨hr, hdue⟩ := ih hmoves.progress
      refine ⟨hr, hdue.trans ?_⟩
      rw [hmoves.passed, SkipsCancelled, ← and_assoc]
      apply and_congr_left
      intro _
      rw [List.forall_mem_map, List.forall_mem_append]
      simp only [cancelled_effect]

/-! ## The whole call -/

theorem progress_begin (hm : Stored m.timers) (hintervals : ∀ e ∈ m.timers, 0 < e.2.interval) :
    Progress m.begin := ⟨hm, hintervals, .nil, nofun⟩

theorem terminates_step (hs : Progress s) (hcalls : ∀ n, AddsNone (callbacks n)) :
    Loop.Terminates (Update.step (fun _ => now) callbacks) s := by
  apply Loop.terminates_of_variant (I := Progress) (fun s => weight now s.rest) _ hs
  intro s t hs h
  have hmoves := hs.step (hcalls s.round) h
  exact ⟨hmoves.progress, hmoves.weight⟩

/-- What is left of a timer is not due, so it was fired as often as it was due. -/
theorem firedAsDue_of_isLeft {firings : List Firing} (hof : OfTimers now m.timers firings)
    (he : e ∈ m.timers) (hleft : IsLeft s.timers firings e.2)
    (hcomplete : ∀ x ∈ s.timers, IsLive x → now < x.2.expiredTime) :
    FiredAsDue now e.2 (firingsOf e.2.id.key firings) := by
  refine ⟨hof.scheduled e he, fun firing hfiring => ?_, fun hrepeatable => ?_⟩
  · exact hof.reading firing (List.mem_of_mem_filter hfiring)
  · rcases hleft with ⟨x, hx, hafter⟩ | hdead
    · rw [← hafter] at hrepeatable ⊢
      exact hcomplete x hx hrepeatable
    · rw [hdead] at hrepeatable
      cases hrepeatable

/-- `update` does all that is due exactly when it passes over no timer that stays live. -/
theorem completes_iff (hm : Stored m.timers) (hintervals : ∀ e ∈ m.timers, 0 < e.2.interval)
    (hnow : 0 ≤ now) (hcalls : ∀ n, AddsNone (callbacks n)) :
    Completes now callbacks m ↔
      ∀ trace s, Loop.Rounds (Update.step (fun _ => now) callbacks) m.begin trace s →
        SkipsCancelled now callbacks trace := by
  have hbegin := progress_begin hm hintervals
  have hdue : ∀ s, Progress s → ((∀ e ∈ s.timers, IsLive e → now < e.2.expiredTime) ↔
      ∀ e ∈ s.timers, IsLive e → now < e.1) := by
    intro s hs
    refine forall₂_congr fun e he => forall_congr' fun hlive => ?_
    rw [hs.stored.expiredTime_eq he hlive]
  constructor
  · rintro ⟨_, s, hreturns, hcomplete, -⟩ trace s' hrounds
    obtain rfl := hrounds.returns.unique hreturns.returns
    obtain ⟨hs, hiff⟩ := due_iff hrounds hbegin hnow hcalls
    exact (hiff.mp ((hdue _ hs).mp hcomplete)).2
  · intro hskips
    obtain ⟨s, hreturns⟩ : Loop.Terminates (Update.step (fun _ => now) callbacks) m.begin :=
      terminates_step hbegin hcalls
    obtain ⟨trace, hrounds⟩ := hreturns.exists_rounds
    obtain ⟨hs, hiff⟩ := due_iff hrounds hbegin hnow hcalls
    have hcomplete := (hdue s hs).mpr (hiff.mpr ⟨nofun, hskips trace s hrounds⟩)
    obtain ⟨firings, hfired, hof, hleft⟩ := exists_fired hrounds hbegin hnow hcalls
    obtain rfl : s.fired = firings := hfired
    exact ⟨trace, s, hrounds, hcomplete, hof,
      fun e he hfree => firedAsDue_of_isLeft hof he (hleft e he hfree) hcomplete, hs.fired⟩

/-- A timer for every second from 1 s on, and one for 2 s. -/
def everySecond : TimerManager :=
  (empty.addTimer 1000000 kRepeatForever 1000 false).addTimer 2000000 1 1000 false

theorem stored_everySecond : Stored everySecond.timers :=
  ((managed_empty.addTimer ..).addTimer ..).stored

/-- At 1.5 s. -/
theorem completes_iff_early : Completes 1500000 (fun _ => []) everySecond ↔
    ∀ trace s, Loop.Rounds (Update.step (fun _ => 1500000) fun _ => []) everySecond.begin trace s →
      SkipsCancelled 1500000 (fun _ => []) trace :=
  completes_iff stored_everySecond (by decide) (by decide) fun _ => nofun

/-- At 2 s the timer for 2 s is passed over, and left behind. -/
theorem not_completes_tied : ¬ Completes 2000000 (fun _ => []) everySecond := by
  rintro ⟨_, s, hreturns, hcomplete, -⟩
  have hleft : (update 10 (fun _ => 2000000) (fun _ => []) everySecond).any (fun s =>
      decide (∃ e ∈ s.timers, IsLive e ∧ e.2.expiredTime ≤ 2000000)) = true := by
    decide +kernel
  obtain ⟨s', hupdate, hdue⟩ := (Option.any_eq_true ..).mp hleft
  obtain rfl := Loop.Returns.unique ⟨10, hupdate⟩ hreturns.returns
  obtain ⟨e, he, hlive, hle⟩ := of_decide_eq_true hdue
  exact absurd hle (not_le.mpr (hcomplete e he hlive))

end Nets.TimerManager
