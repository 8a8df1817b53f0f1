import Mathlib.Algebra.GroupWithZero.Nat
import Nets.Verification.TimerManager.Stored

/-! # The rounds of `update`

What one round does with the container, where the callbacks add no timers: it cancels, it moves the
timer at `it` behind those that are due at the same time, and it may pass over these. -/

namespace Nets.TimerManager

open Library

variable {clock : ℕ → ℤ} {callbacks : ℕ → List Call} {s t : Update} {now : ℤ}

/-- The calls cancel timers and add none. -/
def AddsNone (calls : List Call) : Prop :=
  ∀ call ∈ calls, ∃ timerId, call = .removeTimer timerId

/-- The callback of the timer at `it` is called in the round. -/
def fires (s : Update) : Bool := s.rest.head?.any fun e => e.2.isRepeatable

/-- What the round makes of the other timers. -/
def effect (callbacks : ℕ → List Call) (s : Update) (e : ℤ × Timer) : ℤ × Timer :=
  if fires s then cancelBy (callbacks s.round) e else e

/-- The timers behind `it` whose key is the new time of the timer at `it`, when that is still
repeatable after its callback. -/
def tied (now : ℤ) (callbacks : ℕ → List Call) (s : Update) : Timers :=
  match s.rest with
  | [] => []
  | e :: next =>
    let timer := (cancelBy (callbacks s.round) e).2.reschedule now
    if e.2.isRepeatable && timer.isRepeatable then
      next.takeWhile fun other => decide (other.1 = timer.expiredTime)
    else []

/-! ## The calls of a callback -/

def Update.map (f : ℤ × Timer → ℤ × Timer) (s : Update) : Update :=
  { s with passed := s.passed.map f, rest := s.rest.map f }

theorem Update.timers_map (f : ℤ × Timer → ℤ × Timer) (s : Update) :
    (s.map f).timers = s.timers.map f := by
  rw [Update.timers, Update.timers, List.map_append]
  rfl

theorem Update.withTimers_map (f : ℤ × Timer → ℤ × Timer) (s : Update) :
    s.withTimers (s.timers.map f) s.passed.length = s.map f := by
  have hlength : s.passed.length = (s.passed.map f).length := (List.length_map f).symm
  rw [Update.withTimers, Update.timers, List.map_append, hlength, List.take_left', List.drop_left']
  · rfl
  · rfl
  · rfl

theorem perform_eq (hs : Stored s.timers) (timerId : TimerId) :
    s.perform (.removeTimer timerId) = s.map (cancelBy [.removeTimer timerId]) := by
  rw [Update.perform, hs.removeTimer]
  exact s.withTimers_map _

theorem foldl_perform_eq (s : Update) (hs : Stored s.timers) {calls : List Call}
    (hcalls : AddsNone calls) :
    calls.foldl Update.perform s = s.map (cancelBy calls) := by
  induction calls generalizing s with
  | nil =>
      have hid : ∀ timers : Timers, timers.map (cancelBy []) = timers := by
        intro timers
        exact List.map_id timers
      rw [Update.map, hid, hid]
      rfl
  | cons call calls ih =>
      obtain ⟨⟨timerId, rfl⟩, hrest⟩ := List.forall_mem_cons.mp hcalls
      have hcancelled : Stored (s.map (cancelBy [.removeTimer timerId])).timers := by
        rw [Update.timers_map]
        exact hs.cancelBy _
      have hcompose : ∀ timers : Timers,
          (timers.map (cancelBy [.removeTimer timerId])).map (cancelBy calls) =
            timers.map (cancelBy (.removeTimer timerId :: calls)) := by
        intro timers
        rw [List.map_map]
        apply List.map_congr_left
        intro e _
        exact (cancelBy_cons _ calls e).symm
      rw [List.foldl_cons, perform_eq hs, ih _ hcancelled hrest, Update.map, Update.map, Update.map]
      simp only [hcompose]

/-! ## Rescheduling -/

theorem isRepeatable_of_reschedule {timer : Timer}
    (h : (timer.reschedule now).isRepeatable = true) : timer.isRepeatable = true := by
  by_cases hpositive : timer.repeatTimes > 0
  · simp [Timer.isRepeatable, hpositive]
  · simpa [Timer.isRepeatable, Timer.reschedule, hpositive] using h

/-- With a positive interval the next time is later. -/
theorem lt_expiredTime_reschedule {timer : Timer} (hinterval : 0 < timer.interval)
    (hexpired : timer.expiredTime ≤ now) :
    timer.expiredTime < (timer.reschedule now).expiredTime := by
  have hvalue : timer.id.value ≤ now := hexpired
  change timer.id.value <
    plusMilliseconds (if timer.fixedDelay then now else timer.id.value) timer.interval
  rw [plusMilliseconds, kMicrosecondsPerMillisecond]
  split <;> omega

/-! ## Reinserting -/

/-- The timers of the same time are passed over; what comes after `it` is the timer itself and timers
that came after it before. -/
structure Reinserted (timer : Timer) (next : Timers) (s t : Update) : Prop where
  passed : t.passed =
    s.passed ++ next.takeWhile fun e => decide (e.1 = timer.expiredTime)
  timers : t.timers = (s.passed ++ next).insert timer.expiredTime timer
  rest : ∃ tail, t.rest.Perm ((timer.expiredTime, timer) :: tail) ∧ tail.Sublist next
  fired : t.fired = s.fired

theorem withTimers_timers (timers : Timers) (it : ℕ) (s : Update) :
    (s.withTimers timers it).timers = timers := List.take_append_drop it timers

theorem reinsert_spec {timer : Timer} {next : Timers} (hsorted : (s.passed ++ next).Sorted)
    (hpassed : ∀ e ∈ s.passed, e.1 ≤ timer.expiredTime) :
    Reinserted timer next s (s.reinsert timer next) := by
  have hinsert : (s.passed ++ next).insert timer.expiredTime timer =
      s.passed ++ (next.upTo timer.expiredTime ++
        (timer.expiredTime, timer) :: next.beyond timer.expiredTime) := by
    rw [Multimap.insert, Multimap.upTo_append_of_le hpassed, Multimap.beyond_append_of_le hpassed,
      List.append_assoc]
  rw [Update.reinsert]
  split
  case isTrue hbefore =>
      obtain ⟨e, he, hlt⟩ := (Option.any_eq_true ..).mp hbefore
      have hlt : e.1 < timer.expiredTime := of_decide_eq_true hlt
      have hnone : next.takeWhile (fun e => decide (e.1 = timer.expiredTime)) = [] := by
        cases next with
        | nil => rfl
        | cons x next =>
            obtain rfl := Option.some.inj he
            rw [List.takeWhile_cons_of_neg]
            simpa using hlt.ne
      refine ⟨?_, withTimers_timers .., ⟨next, ?_, List.Sublist.refl next⟩, rfl⟩
      · rw [hnone, List.append_nil]
        change ((s.passed ++ next).insert timer.expiredTime timer).take s.passed.length = s.passed
        rw [hinsert, List.take_left']
        rfl
      · change (((s.passed ++ next).insert timer.expiredTime timer).drop s.passed.length).Perm _
        rw [hinsert, List.drop_left' rfl]
        exact Multimap.insert_perm timer.expiredTime timer next
  case isFalse hbefore =>
      have hle : ∀ e ∈ next, timer.expiredTime ≤ e.1 := by
        intro e he
        cases next with
        | nil => cases he
        | cons x next =>
            have hhead : timer.expiredTime ≤ x.1 := by
              simpa using hbefore
            exact hhead.trans (hsorted.head_le rfl e he)
      have htied : (s.passed ++ next).upTo timer.expiredTime =
          s.passed ++ next.takeWhile fun e => decide (e.1 = timer.expiredTime) := by
        rw [Multimap.upTo_append_of_le hpassed, Multimap.upTo_eq_takeWhile hle]
      refine ⟨?_, withTimers_timers .., ⟨next.beyond timer.expiredTime, ?_, ?_⟩, rfl⟩
      · change ((s.passed ++ next).insert timer.expiredTime timer).take
          ((s.passed ++ next).upTo timer.expiredTime).length = _
        rw [Multimap.insert, List.take_left' rfl, htied]
      · change (((s.passed ++ next).insert timer.expiredTime timer).drop
          ((s.passed ++ next).upTo timer.expiredTime).length).Perm _
        rw [Multimap.insert, List.drop_left' rfl, Multimap.beyond_append_of_le hpassed]
      · exact List.dropWhile_sublist _

theorem leaveTimer_timers {u : Update} {e : ℤ × Timer} {next : Timers} (hrest : u.rest = e :: next) :
    u.leaveTimer.timers = if e.2.isRepeatable then (u.passed ++ next).insert e.2.expiredTime e.2
      else u.passed ++ next := by
  simp only [Update.leaveTimer, hrest]
  split
  · rw [Update.reinsert]
    split
    · exact withTimers_timers ..
    · exact withTimers_timers ..
  · rfl

theorem leaveTimer_frame (u : Update) : u.leaveTimer.timerIdGenerator = u.timerIdGenerator ∧
    u.leaveTimer.fired = u.fired := by
  rw [Update.leaveTimer]
  split
  · exact ⟨rfl, rfl⟩
  · split
    · rw [Update.reinsert]
      split <;> exact ⟨rfl, rfl⟩
    · exact ⟨rfl, rfl⟩

/-! ## One round -/

/-- What holds at the beginning of every round, with positive intervals. -/
structure Progress (s : Update) : Prop where
  stored : Stored s.timers
  intervals : ∀ e ∈ s.timers, 0 < e.2.interval
  fired : s.fired.Pairwise fun x y => x.expiredTime ≤ y.expiredTime
  rest : ∀ firing ∈ s.fired, ∀ e ∈ s.rest, firing.expiredTime ≤ e.1

/-- How many firings the timers from `it` on can still come to. -/
def weight (now : ℤ) (rest : Timers) : ℕ := (rest.map fun e => (now + 1 - e.1).toNat + 1).sum

theorem weight_cons (e : ℤ × Timer) (rest : Timers) :
    weight now (e :: rest) = (now + 1 - e.1).toNat + 1 + weight now rest := rfl

theorem weight_map_cancelBy (calls : List Call) (rest : Timers) :
    weight now (rest.map (cancelBy calls)) = weight now rest := by
  rw [weight, List.map_map]
  simp [weight, Function.comp_def]

theorem weight_le_of_sublist (now : ℤ) {xs ys : Timers} (h : xs.Sublist ys) : weight now xs ≤ weight now ys := by
  induction h with
  | slnil => exact Nat.le_refl _
  | cons e _ ih =>
      rw [weight_cons]
      omega
  | cons_cons e _ ih =>
      rw [weight_cons, weight_cons]
      omega

theorem weight_eq_of_perm {xs ys : Timers} (h : xs.Perm ys) : weight now xs = weight now ys :=
  (h.map _).sum_nat

variable {e : ℤ × Timer} {next : Timers}

theorem key_le_of_rest (hs : Stored s.timers) (hrest : s.rest = e :: next) :
    (∀ x ∈ s.passed, x.1 ≤ e.1) ∧ ∀ x ∈ next, e.1 ≤ x.1 := by
  have hsorted := hs.sorted
  rw [Update.timers, hrest] at hsorted
  obtain ⟨-, hsorted, hle⟩ := List.pairwise_append.mp hsorted
  exact ⟨fun x hx => hle x hx e List.mem_cons_self, (List.pairwise_cons.mp hsorted).1⟩

/-- No other timer has the id. -/
theorem id_notMem_of_rest (hs : Stored s.timers) (hrest : s.rest = e :: next) :
    e.2.id.key ∉ (s.passed ++ next).map fun x => x.2.id.key := by
  have hids := hs.ids
  rw [Update.timers, hrest, (List.perm_middle.map _).nodup_iff, List.map_cons] at hids
  exact (List.nodup_cons.mp hids).1

/-- The callbacks that have been called are in order as long as `it` does not go back. -/
theorem Progress.of_forward (hs : Progress s) (hrest : s.rest = e :: next) (hstored : Stored t.timers)
    (hintervals : ∀ x ∈ t.timers, 0 < x.2.interval) (hforward : ∀ x ∈ t.rest, e.1 ≤ x.1)
    (new : List Firing) (hfired : t.fired = s.fired ++ new)
    (hnew : ∀ firing ∈ new, firing.expiredTime = e.1) : Progress t := by
  have hold : ∀ firing ∈ s.fired, firing.expiredTime ≤ e.1 := by
    intro firing hmem
    apply hs.rest firing hmem e
    rw [hrest]
    exact List.mem_cons_self
  refine ⟨hstored, hintervals, ?_, ?_⟩
  · rw [hfired]
    refine List.pairwise_append.mpr ⟨hs.fired, ?_, ?_⟩
    · apply List.pairwise_of_forall_mem_list
      intro x hx y hy
      exact ((hnew x hx).trans (hnew y hy).symm).le
    · intro x hx y hy
      rw [hnew y hy]
      exact hold x hx
  · intro firing hmem x hx
    rw [hfired] at hmem
    rcases List.mem_append.mp hmem with hmem | hmem
    · exact (hold firing hmem).trans (hforward x hx)
    · rw [hnew firing hmem]
      exact hforward x hx

/-- What a round that does not leave the loop does. -/
structure Moves (now : ℤ) (callbacks : ℕ → List Call) (s t : Update) : Prop where
  passed : t.passed = (s.passed ++ tied now callbacks s).map (effect callbacks s)
  progress : Progress t
  weight : weight now t.rest < weight now s.rest

theorem sublist_without (hrest : s.rest = e :: next) : (s.passed ++ next).Sublist s.timers := by
  rw [Update.timers, hrest]
  exact (List.Sublist.refl s.passed).append (List.sublist_cons_self e next)

/-- A timer that is not repeatable is removed without a call. -/
theorem Progress.erase (hs : Progress s) (hrest : s.rest = e :: next)
    (hdead : e.2.isRepeatable = false)
    (ht : t = { s with round := s.round + 1, rest := next }) : Moves now callbacks s t := by
  have hsub := sublist_without hrest
  have hfires : fires s = false := by
    rw [fires, hrest]
    exact hdead
  have htied : tied now callbacks s = [] := by
    simp [tied, hrest, hdead]
  subst ht
  refine ⟨?_, ?_, ?_⟩
  · rw [htied, List.append_nil]
    have hid : effect callbacks s = id := by
      funext x
      simp [effect, hfires]
    rw [hid, List.map_id]
  · exact hs.of_forward hrest (hs.stored.sublist hsub) (fun x hx => hs.intervals x (hsub.subset hx))
      (key_le_of_rest hs.stored hrest).2 [] (List.append_nil s.fired).symm nofun
  · rw [hrest, weight_cons]
    change weight now next < _
    omega

/-- The state in which the callback of the timer at `it` has returned. -/
def afterCallback (now : ℤ) (callbacks : ℕ → List Call) (e : ℤ × Timer) (next : Timers) (s : Update) :
    Update where
  passed := s.passed.map (cancelBy (callbacks s.round))
  rest := (e.1, (cancelBy (callbacks s.round) e).2.reschedule now) ::
    next.map (cancelBy (callbacks s.round))
  timerIdGenerator := s.timerIdGenerator
  round := s.round + 1
  fired := s.fired ++ [⟨e.2.id.key, e.2.expiredTime, now⟩]

theorem onTimer_eq (hs : Progress s) (hrest : s.rest = e :: next) (hlive : IsLive e)
    (hcalls : AddsNone (callbacks s.round)) :
    { s with round := s.round + 1 }.onTimer now (callbacks s.round) e.2 =
      afterCallback now callbacks e next s := by
  have hstored : Stored ({ s with
      round := s.round + 1
      fired := s.fired ++ [⟨e.2.id.key, e.2.expiredTime, now⟩] } : Update).timers := hs.stored
  have hperform := foldl_perform_eq _ hstored hcalls
  have hrepeatable : e.2.isRepeatable = true := hlive
  rw [Update.onTimer, if_pos hrepeatable]
  change Update.rescheduleIt now ((callbacks s.round).foldl Update.perform _) = _
  rw [hperform]
  simp [Update.map, Update.rescheduleIt, afterCallback, hrest]

theorem fires_of_isLive (hrest : s.rest = e :: next) (hlive : IsLive e) : fires s = true := by
  rw [fires, hrest]
  exact hlive

theorem Progress.mem (hrest : s.rest = e :: next) : e ∈ s.timers := by
  rw [Update.timers, hrest]
  exact List.mem_append_right _ List.mem_cons_self

/-- The call of the callback comes after all that have been made. -/
theorem Progress.of_fired (hs : Progress s) (hrest : s.rest = e :: next) (hlive : IsLive e)
    (hstored : Stored t.timers) (hintervals : ∀ x ∈ t.timers, 0 < x.2.interval)
    (hforward : ∀ x ∈ t.rest, e.1 ≤ x.1)
    (hfired : t.fired = s.fired ++ [⟨e.2.id.key, e.2.expiredTime, now⟩]) : Progress t := by
  refine hs.of_forward hrest hstored hintervals hforward _ hfired ?_
  intro firing hmem
  rw [List.mem_singleton.mp hmem]
  exact hs.stored.expiredTime_eq (Progress.mem hrest) hlive

/-- The other timers, and what the callback makes of them. -/
theorem Progress.others (hs : Progress s) (hrest : s.rest = e :: next) (calls : List Call) :
    Stored ((s.passed ++ next).map (cancelBy calls)) ∧
      (∀ x ∈ (s.passed ++ next).map (cancelBy calls), 0 < x.2.interval) ∧
      ∀ x ∈ next.map (cancelBy calls), e.1 ≤ x.1 := by
  have hsub := sublist_without hrest
  refine ⟨(hs.stored.sublist hsub).cancelBy calls, fun x hx => ?_, fun x hx => ?_⟩
  · obtain ⟨x, hmem, rfl⟩ := List.mem_map.mp hx
    rw [cancelBy_interval]
    exact hs.intervals x (hsub.subset hmem)
  · obtain ⟨x, hmem, rfl⟩ := List.mem_map.mp hx
    rw [cancelBy_key]
    exact (key_le_of_rest hs.stored hrest).2 x hmem

theorem map_effect (hrest : s.rest = e :: next) (hlive : IsLive e) (timers : Timers) :
    timers.map (effect callbacks s) = timers.map (cancelBy (callbacks s.round)) := by
  apply List.map_congr_left
  intro x _
  rw [effect, fires_of_isLive hrest hlive, if_pos rfl]

/-- A timer that was fired for the last time, or has been cancelled by its callback, is removed. -/
theorem Progress.fireLast (hs : Progress s) (hrest : s.rest = e :: next) (hlive : IsLive e)
    (hlast : ((cancelBy (callbacks s.round) e).2.reschedule now).isRepeatable = false)
    (ht : t = { afterCallback now callbacks e next s with
      rest := next.map (cancelBy (callbacks s.round)) }) : Moves now callbacks s t := by
  have htied : tied now callbacks s = [] := by
    simp [tied, hrest, hlast]
  have htimers : t.timers = (s.passed ++ next).map (cancelBy (callbacks s.round)) := by
    rw [ht, List.map_append]
    rfl
  obtain ⟨hstored, hintervals, hforward⟩ := hs.others hrest (callbacks s.round)
  refine ⟨?_, ?_, ?_⟩
  · rw [htied, List.append_nil, ht, map_effect hrest hlive]
    rfl
  · have hfired : t.fired = s.fired ++ [⟨e.2.id.key, e.2.expiredTime, now⟩] := by
      rw [ht]
      rfl
    refine hs.of_fired hrest hlive (htimers ▸ hstored) (htimers ▸ hintervals) ?_ hfired
    rw [ht]
    exact hforward
  · rw [ht, hrest, weight_cons]
    change weight now (next.map _) < _
    rw [weight_map_cancelBy]
    omega

/-- A timer that stays repeatable comes back behind those that are due at its new time. -/
theorem Progress.fireAgain (hs : Progress s) (hrest : s.rest = e :: next) (hlive : IsLive e)
    (hexpired : e.1 ≤ now)
    (hagain : ((cancelBy (callbacks s.round) e).2.reschedule now).isRepeatable = true)
    (ht : t = (afterCallback now callbacks e next s).reinsert
      ((cancelBy (callbacks s.round) e).2.reschedule now) (next.map (cancelBy (callbacks s.round)))) :
    Moves now callbacks s t := by
  have hmem := Progress.mem hrest
  have hkept : cancelBy (callbacks s.round) e = e := by
    apply cancelBy_of_not
    have hlives : IsLive (cancelBy (callbacks s.round) e) := isRepeatable_of_reschedule hagain
    exact (isLive_cancelBy.mp hlives).2
  have htime : e.2.expiredTime = e.1 := hs.stored.expiredTime_eq hmem hlive
  rw [hkept] at ht hagain
  have hlater : e.1 < (e.2.reschedule now).expiredTime := by
    rw [← htime] at hexpired ⊢
    exact lt_expiredTime_reschedule (hs.intervals e hmem) hexpired
  obtain ⟨hstored, hintervals, hforward⟩ := hs.others hrest (callbacks s.round)
  have hothers : (afterCallback now callbacks e next s).passed ++
      next.map (cancelBy (callbacks s.round)) =
        (s.passed ++ next).map (cancelBy (callbacks s.round)) := by
    rw [List.map_append]
    rfl
  have hpassed : ∀ x ∈ (afterCallback now callbacks e next s).passed,
      x.1 ≤ (e.2.reschedule now).expiredTime := by
    intro x hx
    obtain ⟨x, hbefore, rfl⟩ := List.mem_map.mp hx
    rw [cancelBy_key]
    exact ((key_le_of_rest hs.stored hrest).1 x hbefore).trans hlater.le
  have hsorted : Multimap.Sorted ((afterCallback now callbacks e next s).passed ++
      next.map (cancelBy (callbacks s.round))) := by
    rw [hothers]
    exact hstored.sorted
  have hinserted := reinsert_spec hsorted hpassed
  rw [← ht] at hinserted
  obtain ⟨tail, hperm, htail⟩ := hinserted.rest
  have hid : (e.2.reschedule now).id.key ∉
      ((s.passed ++ next).map (cancelBy (callbacks s.round))).map fun x => x.2.id.key := by
    change e.2.id.key ∉ _
    rw [List.map_map]
    simpa [Function.comp_def] using id_notMem_of_rest hs.stored hrest
  have htimers := hinserted.timers
  rw [hothers] at htimers
  refine ⟨?_, ?_, ?_⟩
  · have htied : tied now callbacks s =
        next.takeWhile fun x => decide (x.1 = (e.2.reschedule now).expiredTime) := by
      have hrepeatable : e.2.isRepeatable = true := hlive
      simp [tied, hrest, hkept, hagain, hrepeatable]
    rw [hinserted.passed, htied, map_effect hrest hlive, List.map_append]
    congr 1
    rw [List.takeWhile_map]
    simp [Function.comp_def]
  · refine hs.of_fired hrest hlive ?_ ?_ ?_ hinserted.fired
    · rw [htimers]
      exact hstored.insert _ hid
    · intro x hx
      rw [htimers] at hx
      rcases List.mem_cons.mp ((Multimap.insert_perm _ _ _).mem_iff.mp hx) with rfl | hx
      · exact hs.intervals e hmem
      · exact hintervals x hx
    · intro x hx
      rcases List.mem_cons.mp (hperm.mem_iff.mp hx) with rfl | hx
      · exact hlater.le
      · exact hforward x (htail.subset hx)
  · rw [weight_eq_of_perm hperm, hrest, weight_cons, weight_cons]
    have hle := weight_le_of_sublist now htail
    rw [weight_map_cancelBy] at hle
    omega

theorem step_of_rest (hrest : s.rest = e :: next) : s.step clock callbacks =
    if e.2.isExpired (clock s.round) then
      .inl ({ s with round := s.round + 1 }.onTimer (clock s.round) (callbacks s.round)
        e.2).leaveTimer
    else .inr s := by
  obtain ⟨passed, rest, timerIdGenerator, round, fired⟩ := s
  obtain rfl : rest = e :: next := hrest
  rfl

theorem Progress.step (hs : Progress s) (hcalls : AddsNone (callbacks s.round))
    (h : s.step (fun _ => now) callbacks = .inl t) : Moves now callbacks s t := by
  cases hrest : s.rest with
  | nil =>
      rw [Update.step, hrest] at h
      cases h
  | cons e next =>
      have hround : e.2.isExpired now = true ∧
          ({ s with round := s.round + 1 }.onTimer now (callbacks s.round) e.2).leaveTimer = t := by
        rw [step_of_rest hrest] at h
        split at h
        · exact ⟨‹_›, Sum.inl.inj h⟩
        · cases h
      obtain ⟨hexpired, ht⟩ := hround
      by_cases hlive : IsLive e
      · rw [onTimer_eq hs hrest hlive hcalls] at ht
        have htime : e.2.expiredTime = e.1 := hs.stored.expiredTime_eq (Progress.mem hrest) hlive
        have hexpired : e.1 ≤ now := htime ▸ of_decide_eq_true hexpired
        by_cases hagain : ((cancelBy (callbacks s.round) e).2.reschedule now).isRepeatable = true
        · apply hs.fireAgain hrest hlive hexpired hagain
          rw [← ht, Update.leaveTimer, afterCallback]
          simp [hagain]
        · apply hs.fireLast hrest hlive (Bool.eq_false_iff.mpr hagain)
          rw [← ht, Update.leaveTimer, afterCallback]
          simp [hagain]
      · have hdead : e.2.isRepeatable = false := Bool.eq_false_iff.mpr hlive
        apply hs.erase hrest hdead
        rw [← ht, Update.onTimer]
        simp [hdead, Update.leaveTimer, hrest]

/-- The loop is left before the first timer that is not due. -/
theorem Progress.leave (hs : Progress s) (hnow : 0 ≤ now) {r : Update}
    (h : s.step (fun _ => now) callbacks = .inr r) :
    r = s ∧ ∀ e ∈ s.rest, IsLive e → now < e.1 := by
  cases hrest : s.rest with
  | nil =>
      rw [Update.step, hrest] at h
      exact ⟨(Sum.inr.inj h).symm, nofun⟩
  | cons e next =>
      have hround : e.2.isExpired now = false ∧ s = r := by
        rw [step_of_rest hrest] at h
        split at h
        · cases h
        · exact ⟨Bool.eq_false_iff.mpr ‹_›, Sum.inr.inj h⟩
      obtain ⟨hexpired, rfl⟩ := hround
      have hlater : now < e.2.expiredTime := not_le.mp (of_decide_eq_false hexpired)
      have hkey : now < e.1 := by
        rcases hs.stored.keys e (Progress.mem hrest) with heq | hcancelled
        · rwa [heq] at hlater
        · rw [hcancelled.1] at hlater
          exact absurd hnow (not_le.mpr hlater)
      refine ⟨rfl, fun x hx _ => ?_⟩
      rcases List.mem_cons.mp hx with rfl | hx
      · exact hkey
      · exact hkey.trans_le ((key_le_of_rest hs.stored hrest).2 x hx)

end Nets.TimerManager
