import Nets.Verification.TimerManager.Rounds
import Nets.Verification.TimerManager.Schedule

/-! # What a call of `update` fires

With a clock that stands still and callbacks that add no timers, every firing is one of a timer that
was stored before, each timer is fired on its schedule, and a timer that no callback cancels is either
stored as its firings leave it or has no repetitions left. -/

namespace Nets.TimerManager

open Library

variable {callbacks : ℕ → List Call} {s t r : Update} {now : ℤ} {e : ℤ × Timer} {next : Timers}
  {timers : Timers} {trace : List Update} {firings : List Firing} {calls : List Call} {key : ℕ}

/-- A callback that is called in one of the rounds cancels the timer of the key. -/
def CancelsKey (callbacks : ℕ → List Call) (trace : List Update) (key : ℕ) : Prop :=
  ∃ s ∈ trace, fires s = true ∧
    ∃ e ∈ s.timers, e.2.id.key = key ∧ (callbacks s.round).any (cancels · e) = true

/-- The timer at `it` after a call of its callback. -/
def afterCall (now : ℤ) (callbacks : ℕ → List Call) (s : Update) (e : ℤ × Timer) : Timer :=
  (cancelBy (callbacks s.round) e).2.reschedule now

/-- The call of the callback of the timer at `it`. -/
def called (now : ℤ) (e : ℤ × Timer) : List Firing :=
  if IsLive e then [⟨e.2.id.key, e.2.expiredTime, now⟩] else []

/-- What a round that begins with `e` at `it` fires and keeps. -/
structure Rounded (now : ℤ) (callbacks : ℕ → List Call) (e : ℤ × Timer) (next : Timers)
    (s t : Update) : Prop where
  rest : s.rest = e :: next
  due : e.2.expiredTime ≤ now
  fired : t.fired = s.fired ++ called now e
  timers : ∀ x, x ∈ t.timers ↔ (∃ y ∈ s.passed ++ next, effect callbacks s y = x) ∨
    IsLive e ∧ (afterCall now callbacks s e).isRepeatable = true ∧
      x = ((afterCall now callbacks s e).expiredTime, afterCall now callbacks s e)

/-- The firings are those of the timers, each on its schedule. -/
structure OfTimers (now : ℤ) (timers : Timers) (firings : List Firing) : Prop where
  stored : ∀ firing ∈ firings, ∃ e ∈ timers, e.2.id.key = firing.key
  reading : ∀ firing ∈ firings, firing.now = now
  scheduled : ∀ e ∈ timers, Scheduled e.2 (firingsOf e.2.id.key firings)

/-- The timer is stored as the firings leave it, or they have used it up. -/
def IsLeft (timers : Timers) (firings : List Firing) (timer : Timer) : Prop :=
  (∃ e ∈ timers, e.2 = Timer.after timer (firingsOf timer.id.key firings)) ∨
    (Timer.after timer (firingsOf timer.id.key firings)).isRepeatable = false

/-! ## One round -/

@[simp] theorem effect_id (e : ℤ × Timer) : (effect callbacks s e).2.id.key = e.2.id.key := by
  rw [effect]
  split
  · exact cancelBy_id ..
  · rfl

theorem rounded_of_step (hs : Progress s) (hcalls : AddsNone (callbacks s.round))
    (h : s.step (fun _ => now) callbacks = .inl t) : ∃ e next, Rounded now callbacks e next s t := by
  cases hrest : s.rest with
  | nil =>
      rw [Update.step, hrest] at h
      cases h
  | cons e next =>
      refine ⟨e, next, ?_⟩
      rw [step_of_rest hrest] at h
      split at h
      case isFalse => cases h
      case isTrue hexpired =>
          obtain rfl := Sum.inl.inj h
          have hdue : e.2.expiredTime ≤ now := of_decide_eq_true hexpired
          by_cases hlive : IsLive e
          · rw [onTimer_eq hs hrest hlive hcalls]
            refine ⟨hrest, hdue, ?_, fun x => ?_⟩
            · rw [(leaveTimer_frame _).2, called, if_pos hlive]
              rfl
            · have hmem : (∃ y ∈ s.passed ++ next, effect callbacks s y = x) ↔
                  x ∈ (s.passed ++ next).map (cancelBy (callbacks s.round)) := by
                rw [← map_effect hrest hlive, List.mem_map]
              have hleave : (afterCallback now callbacks e next s).leaveTimer.timers =
                  if (afterCall now callbacks s e).isRepeatable then
                    Multimap.insert (afterCall now callbacks s e).expiredTime
                      (afterCall now callbacks s e) ((s.passed ++ next).map (cancelBy (callbacks s.round)))
                  else (s.passed ++ next).map (cancelBy (callbacks s.round)) := by
                rw [leaveTimer_timers rfl, List.map_append]
                rfl
              rw [hmem, hleave]
              split
              case isTrue hagain =>
                  rw [(Multimap.insert_perm ..).mem_iff, List.mem_cons, or_comm]
                  simp only [hlive, hagain, true_and]
              case isFalse hlast =>
                  refine ⟨.inl, ?_⟩
                  rintro (hkept | ⟨-, hagain, -⟩)
                  · exact hkept
                  · exact absurd hagain hlast
          · have hdead : e.2.isRepeatable = false := Bool.eq_false_iff.mpr hlive
            have hfires : fires s = false := by
              rw [fires, hrest]
              exact hdead
            have heffect : ∀ y, effect callbacks s y = y := by
              intro y
              simp [effect, hfires]
            rw [Update.onTimer]
            refine ⟨hrest, hdue, ?_, fun x => ?_⟩
            · simp [called, hdead, hlive, Update.leaveTimer, hrest]
            · simp [hdead, hlive, Update.leaveTimer, hrest, heffect, Update.timers]

/-! ## From one round on -/

theorem scheduled_of_cancelBy (h : Scheduled (cancelBy calls e).2 firings) : Scheduled e.2 firings := by
  cases hany : calls.any (cancels · e) with
  | false => rwa [cancelBy_of_not hany] at h
  | true =>
      have hdead := not_isRepeatable_of_isCancelled (isCancelled_cancelBy hany)
      rw [h.eq_nil hdead]
      trivial

theorem scheduled_of_effect (h : Scheduled (effect callbacks s e).2 firings) :
    Scheduled e.2 firings := by
  rw [effect] at h
  split at h
  case isTrue => exact scheduled_of_cancelBy h
  case isFalse => exact h

/-- A timer that repeats after its callback has not been cancelled by it. -/
theorem afterCall_of_isRepeatable (hagain : (afterCall now callbacks s e).isRepeatable = true) :
    afterCall now callbacks s e = e.2.reschedule now := by
  have hlive : IsLive (cancelBy (callbacks s.round) e) := isRepeatable_of_reschedule hagain
  rw [afterCall, cancelBy_of_not (isLive_cancelBy.mp hlive).2]

theorem CancelsKey.tail (h : CancelsKey callbacks trace key) : CancelsKey callbacks (s :: trace) key := by
  obtain ⟨u, hu, hcancels⟩ := h
  exact ⟨u, List.mem_cons_of_mem s hu, hcancels⟩

theorem not_cancels_of_head (h : ¬ CancelsKey callbacks (s :: trace) e.2.id.key) (he : e ∈ s.timers)
    (hfires : fires s = true) : (callbacks s.round).any (cancels · e) = false := by
  apply Bool.eq_false_iff.mpr
  intro hany
  exact h ⟨s, List.mem_cons_self, hfires, e, he, rfl, hany⟩

theorem effect_of_not_cancels (h : ¬ CancelsKey callbacks (s :: trace) e.2.id.key)
    (he : e ∈ s.timers) : effect callbacks s e = e := by
  rw [effect]
  split
  case isTrue hfires => exact cancelBy_of_not (not_cancels_of_head h he hfires)
  case isFalse => rfl

theorem mem_called {firing : Firing} (h : firing ∈ called now e) :
    IsLive e ∧ firing = ⟨e.2.id.key, e.2.expiredTime, now⟩ := by
  rw [called] at h
  split at h
  case isTrue hlive => exact ⟨hlive, List.mem_singleton.mp h⟩
  case isFalse => cases h

theorem firingsOf_called : firingsOf e.2.id.key (called now e) = called now e := by
  rw [firingsOf, List.filter_eq_self]
  intro firing hfiring
  rw [(mem_called hfiring).2]
  exact decide_eq_true rfl

theorem firingsOf_called_of_ne (hne : e.2.id.key ≠ key) : firingsOf key (called now e) = [] := by
  apply firingsOf_eq_nil
  intro firing hfiring
  rw [(mem_called hfiring).2]
  exact hne

theorem Rounded.mem_timers (h : Rounded now callbacks e next s t) {x : ℤ × Timer} :
    x ∈ s.timers ↔ x = e ∨ x ∈ s.passed ++ next := by
  rw [Update.timers, h.rest, List.perm_middle.mem_iff, List.mem_cons]

theorem Rounded.key_ne (h : Rounded now callbacks e next s t) (hs : Stored s.timers) {x : ℤ × Timer}
    (hx : x ∈ s.passed ++ next) : e.2.id.key ≠ x.2.id.key := by
  intro heq
  exact id_notMem_of_rest hs h.rest (List.mem_map.mpr ⟨x, hx, heq.symm⟩)

/-- The timer itself comes back, with the repetitions it has left, or is not heard of again. -/
theorem Rounded.again_or_gone (h : Rounded now callbacks e next s t) (hs : Stored s.timers)
    (ht : OfTimers now t.timers firings) :
    (IsLive e ∧ (e.2.reschedule now).isRepeatable = true ∧
        ∃ x ∈ t.timers, x.2 = e.2.reschedule now) ∨
      firingsOf e.2.id.key firings = [] ∧
        (IsLive e → (afterCall now callbacks s e).isRepeatable = false) := by
  by_cases hagain : IsLive e ∧ (afterCall now callbacks s e).isRepeatable = true
  · obtain ⟨hlive, hagain⟩ := hagain
    have hentry := (h.timers _).mpr (.inr ⟨hlive, hagain, rfl⟩)
    have heq := afterCall_of_isRepeatable hagain
    rw [heq] at hagain hentry
    exact .inl ⟨hlive, hagain, _, hentry, rfl⟩
  · refine .inr ⟨firingsOf_eq_nil fun firing hfiring heq => ?_, fun hlive => ?_⟩
    · obtain ⟨x, hx, hkey⟩ := ht.stored firing hfiring
      rcases (h.timers x).mp hx with ⟨y, hy, rfl⟩ | ⟨hlive, hrepeats, -⟩
      · rw [effect_id] at hkey
        exact h.key_ne hs hy (hkey.trans heq).symm
      · exact hagain ⟨hlive, hrepeats⟩
    · exact Bool.eq_false_iff.mpr fun hrepeats => hagain ⟨hlive, hrepeats⟩

/-- The timers and the firings that `t` begins with, from those of the round before it. -/
theorem Rounded.ofTimers (h : Rounded now callbacks e next s t) (hs : Stored s.timers)
    (ht : OfTimers now t.timers firings) : OfTimers now s.timers (called now e ++ firings) := by
  refine ⟨fun firing hfiring => ?_, fun firing hfiring => ?_, fun x hx => ?_⟩
  · rcases List.mem_append.mp hfiring with hcalled | hlater
    · exact ⟨e, h.mem_timers.mpr (.inl rfl), by rw [(mem_called hcalled).2]⟩
    · obtain ⟨x, hx, hkey⟩ := ht.stored firing hlater
      rcases (h.timers x).mp hx with ⟨y, hy, rfl⟩ | ⟨-, -, rfl⟩
      · exact ⟨y, h.mem_timers.mpr (.inr hy), by rwa [effect_id] at hkey⟩
      · refine ⟨e, h.mem_timers.mpr (.inl rfl), ?_⟩
        rw [← hkey]
        exact (cancelBy_id (callbacks s.round) e).symm
  · rcases List.mem_append.mp hfiring with hcalled | hlater
    · rw [(mem_called hcalled).2]
    · exact ht.reading firing hlater
  · rw [firingsOf_append]
    rcases h.mem_timers.mp hx with rfl | hother
    · rw [firingsOf_called]
      by_cases hlive : IsLive x
      · rw [called, if_pos hlive]
        refine ⟨rfl, rfl, hlive, h.due, ?_⟩
        rcases h.again_or_gone hs ht with ⟨-, -, y, hy, heq⟩ | ⟨hnone, -⟩
        · have hscheduled := ht.scheduled y hy
          rw [heq] at hscheduled
          exact hscheduled
        · rw [hnone]
          trivial
      · rcases h.again_or_gone hs ht with ⟨hlive', -⟩ | ⟨hnone, -⟩
        · exact absurd hlive' hlive
        · rw [called, if_neg hlive, hnone]
          trivial
    · rw [firingsOf_called_of_ne (h.key_ne hs hother), List.nil_append]
      have hscheduled := ht.scheduled _ ((h.timers _).mpr (.inl ⟨x, hother, rfl⟩))
      rw [effect_id] at hscheduled
      exact scheduled_of_effect hscheduled

/-- A timer that is not cancelled is left by all rounds as it is left by those after the first. -/
theorem Rounded.isLeft (h : Rounded now callbacks e next s t) (hs : Stored s.timers)
    (ht : OfTimers now t.timers firings)
    (hleft : ∀ x ∈ t.timers, ¬ CancelsKey callbacks trace x.2.id.key → IsLeft timers firings x.2) :
    ∀ x ∈ s.timers, ¬ CancelsKey callbacks (s :: trace) x.2.id.key →
      IsLeft timers (called now e ++ firings) x.2 := by
  intro x hx hfree
  have hrest : ¬ CancelsKey callbacks trace x.2.id.key := fun hcancels => hfree hcancels.tail
  rw [IsLeft, firingsOf_append]
  rcases h.mem_timers.mp hx with rfl | hother
  · rw [firingsOf_called]
    by_cases hlive : IsLive x
    · rw [called, if_pos hlive]
      change (∃ y ∈ timers, y.2 = Timer.after (x.2.reschedule now) (firingsOf x.2.id.key firings)) ∨
        (Timer.after (x.2.reschedule now) (firingsOf x.2.id.key firings)).isRepeatable = false
      rcases h.again_or_gone hs ht with ⟨-, -, y, hy, heq⟩ | ⟨hnone, hlast⟩
      · have hleft := hleft y hy
        rw [heq] at hleft
        exact hleft hrest
      · have hfires : fires s = true := fires_of_isLive h.rest hlive
        have hlast := hlast hlive
        rw [afterCall, cancelBy_of_not (not_cancels_of_head hfree hx hfires)] at hlast
        rw [hnone]
        exact .inr hlast
    · rcases h.again_or_gone hs ht with ⟨hlive', -⟩ | ⟨hnone, -⟩
      · exact absurd hlive' hlive
      · rw [called, if_neg hlive, hnone]
        exact .inr (Bool.eq_false_iff.mpr hlive)
  · rw [firingsOf_called_of_ne (h.key_ne hs hother), List.nil_append]
    have hentry := (h.timers _).mpr (.inl ⟨x, hother, rfl⟩)
    rw [effect_of_not_cancels hfree hx] at hentry
    exact hleft x hentry hrest

/-- From any round on: the firings are those of the timers that are stored there, and each timer that
is not cancelled is left as its firings leave it. -/
theorem exists_fired (h : Loop.Rounds (Update.step (fun _ => now) callbacks) s trace r)
    (hs : Progress s) (hnow : 0 ≤ now) (hcalls : ∀ n, AddsNone (callbacks n)) :
    ∃ firings, r.fired = s.fired ++ firings ∧ OfTimers now s.timers firings ∧
      ∀ e ∈ s.timers, ¬ CancelsKey callbacks trace e.2.id.key → IsLeft r.timers firings e.2 := by
  induction h with
  | @leave s r h =>
      obtain ⟨rfl, -⟩ := hs.leave hnow h
      refine ⟨[], (List.append_nil _).symm, ⟨nofun, nofun, fun _ _ => trivial⟩, fun e he _ => ?_⟩
      exact .inl ⟨e, he, rfl⟩
  | @round s t trace r h _ ih =>
      obtain ⟨firings, hfired, hof, hleft⟩ := ih (hs.step (hcalls s.round) h).progress
      obtain ⟨e, next, hround⟩ := rounded_of_step hs (hcalls s.round) h
      refine ⟨_, ?_, hround.ofTimers hs.stored hof, hround.isLeft hs.stored hof hleft⟩
      rw [hfired, hround.fired, List.append_assoc]

end Nets.TimerManager
