import Mathlib.Tactic.Ring
import Nets.Program.TimerManager

/-! # The schedule of a timer

What the readings of the clock make of a timer, apart from any container: when each of its callbacks
was due, and how many of them there can be. -/

namespace Nets.TimerManager

variable {timer : Timer} {firing : Firing} {firings more : List Firing} {key : ℕ}

/-- The calls of one timer's callback. -/
def firingsOf (key : ℕ) (firings : List Firing) : List Firing :=
  firings.filter fun firing => firing.key = key

/-- The timer after its callback was called at the given readings. -/
def Timer.after (timer : Timer) (firings : List Firing) : Timer :=
  firings.foldl (fun timer firing => timer.reschedule firing.now) timer

/-- Each callback was called for the time that the ones before it have left, not before that time, and
while there were repetitions left. -/
def Scheduled : Timer → List Firing → Prop
  | _, [] => True
  | timer, firing :: firings =>
    firing.key = timer.id.key ∧ firing.expiredTime = timer.expiredTime ∧
      timer.isRepeatable = true ∧ timer.expiredTime ≤ firing.now ∧
        Scheduled (timer.reschedule firing.now) firings

/-- At the reading `now` the callback was called once for each time up to `now` that the timer comes to
while it repeats. -/
structure FiredAsDue (now : ℤ) (timer : Timer) (firings : List Firing) : Prop where
  scheduled : Scheduled timer firings
  reading : ∀ firing ∈ firings, firing.now = now
  complete : (Timer.after timer firings).isRepeatable = true →
    now < (Timer.after timer firings).expiredTime

/-- The calls of a timer's callback, against the timer as it was added. -/
structure OnSchedule (timer : Timer) (firings : List Firing) : Prop where
  notEarly : ∀ firing ∈ firings, firing.expiredTime ≤ firing.now
  fixedRate : timer.fixedDelay = false → ∀ (k : ℕ) (firing : Firing), firings[k]? = some firing →
    firing.expiredTime = plusMilliseconds timer.expiredTime (k * timer.interval)
  fixedDelay : timer.fixedDelay = true → ∀ (k : ℕ) (firing later : Firing),
    firings[k]? = some firing → firings[k + 1]? = some later →
      plusMilliseconds firing.now timer.interval ≤ later.now
  repeatTimes : 0 ≤ timer.repeatTimes → (firings.length : ℤ) ≤ timer.repeatTimes

@[simp] theorem firingsOf_append :
    firingsOf key (firings ++ more) = firingsOf key firings ++ firingsOf key more :=
  List.filter_append ..

theorem firingsOf_self (h : firing.key = key) : firingsOf key [firing] = [firing] := by
  simp [firingsOf, h]

theorem firingsOf_of_ne (h : firing.key ≠ key) : firingsOf key [firing] = [] := by
  simp [firingsOf, h]

theorem firingsOf_eq_nil (h : ∀ firing ∈ firings, firing.key ≠ key) : firingsOf key firings = [] := by
  simpa [firingsOf] using h

@[simp] theorem Timer.after_nil (timer : Timer) : Timer.after timer [] = timer := rfl

@[simp] theorem Timer.after_cons (timer : Timer) (firing : Firing) (firings : List Firing) :
    Timer.after timer (firing :: firings) = Timer.after (timer.reschedule firing.now) firings := rfl

theorem Timer.after_concat (timer : Timer) (firings : List Firing) (firing : Firing) :
    Timer.after timer (firings ++ [firing]) =
      (Timer.after timer firings).reschedule firing.now := by
  simp [Timer.after]

theorem scheduled_append : Scheduled timer (firings ++ more) ↔
    Scheduled timer firings ∧ Scheduled (Timer.after timer firings) more := by
  induction firings generalizing timer with
  | nil => simp [Scheduled]
  | cons firing firings ih => simp [Scheduled, ih, and_assoc]

theorem Scheduled.eq_nil (h : Scheduled timer firings) (hdead : timer.isRepeatable = false) :
    firings = [] := by
  cases firings with
  | nil => rfl
  | cons firing firings =>
      obtain ⟨-, -, hrepeatable, -⟩ := h
      rw [hdead] at hrepeatable
      cases hrepeatable

theorem FiredAsDue.of_cons {now : ℤ} (h : FiredAsDue now timer (firing :: firings)) :
    firing = ⟨timer.id.key, timer.expiredTime, now⟩ ∧ timer.isRepeatable = true ∧
      timer.expiredTime ≤ now ∧ FiredAsDue now (timer.reschedule now) firings := by
  obtain ⟨hkey, hexpired, hrepeatable, hle, hrest⟩ := h.scheduled
  obtain ⟨hnow, hreading⟩ := List.forall_mem_cons.mp h.reading
  have hcomplete := h.complete
  obtain ⟨key, expiredTime, reading⟩ := firing
  obtain rfl : reading = now := hnow
  obtain rfl : key = timer.id.key := hkey
  obtain rfl : expiredTime = timer.expiredTime := hexpired
  exact ⟨rfl, hrepeatable, hle, hrest, hreading, hcomplete⟩

/-- There is one way to fire a timer as it is due. -/
theorem FiredAsDue.unique {now : ℤ} (h : FiredAsDue now timer firings)
    (h' : FiredAsDue now timer more) : firings = more := by
  induction firings generalizing timer more with
  | nil =>
      cases more with
      | nil => rfl
      | cons firing more =>
          obtain ⟨-, hrepeatable, hle, -⟩ := h'.of_cons
          exact absurd hle (not_le.mpr (h.complete hrepeatable))
  | cons firing firings ih =>
      obtain ⟨rfl, hrepeatable, hle, hrest⟩ := h.of_cons
      cases more with
      | nil => exact absurd hle (not_le.mpr (h'.complete hrepeatable))
      | cons other more =>
          obtain ⟨rfl, -, -, hrest'⟩ := h'.of_cons
          rw [ih hrest hrest']

theorem Scheduled.not_early (h : Scheduled timer firings) :
    ∀ firing ∈ firings, firing.expiredTime ≤ firing.now := by
  induction firings generalizing timer with
  | nil => simp
  | cons firing firings ih =>
      obtain ⟨-, hexpired, -, hle, hrest⟩ := h
      exact List.forall_mem_cons.mpr ⟨hexpired ▸ hle, ih hrest⟩

/-- A time of a fixed rate does not depend on the readings. -/
theorem Scheduled.fixed_rate (h : Scheduled timer firings) (hrate : timer.fixedDelay = false) {k : ℕ}
    (hk : firings[k]? = some firing) :
    firing.expiredTime = plusMilliseconds timer.expiredTime (k * timer.interval) := by
  induction firings generalizing timer k with
  | nil => simp at hk
  | cons first firings ih =>
      obtain ⟨-, hexpired, -, -, hrest⟩ := h
      cases k with
      | zero =>
          obtain rfl : first = firing := by simpa using hk
          simp [hexpired, plusMilliseconds]
      | succ k =>
          have hnext : (timer.reschedule first.now).expiredTime =
              plusMilliseconds timer.expiredTime timer.interval := by
            simp [Timer.reschedule, Timer.expiredTime, hrate]
          have hlater := ih hrest hrate (by simpa using hk)
          rw [hlater, hnext]
          simp only [plusMilliseconds, Timer.reschedule]
          push_cast
          ring

/-- After a fixed delay the next time is counted from the reading. -/
theorem Scheduled.fixed_delay (h : Scheduled timer firings) (hdelay : timer.fixedDelay = true)
    {later : Firing} {k : ℕ} (hk : firings[k]? = some firing) (hlater : firings[k + 1]? = some later) :
    plusMilliseconds firing.now timer.interval ≤ later.now := by
  induction firings generalizing timer k with
  | nil => simp at hk
  | cons first firings ih =>
      obtain ⟨-, -, -, -, hrest⟩ := h
      cases k with
      | zero =>
          obtain rfl : first = firing := by simpa using hk
          cases firings with
          | nil => simp at hlater
          | cons second firings =>
              obtain rfl : second = later := by simpa using hlater
              obtain ⟨-, -, -, hle, -⟩ := hrest
              simpa [Timer.reschedule, Timer.expiredTime, hdelay] using hle
      | succ k =>
          have hle : plusMilliseconds firing.now (timer.reschedule first.now).interval ≤ later.now :=
            ih hrest hdelay (by simpa using hk) (by simpa using hlater)
          exact hle

/-- Every call takes one of the repetitions. -/
theorem Scheduled.length_le (h : Scheduled timer firings) (hrepeat : 0 ≤ timer.repeatTimes) :
    (firings.length : ℤ) ≤ timer.repeatTimes := by
  induction firings generalizing timer with
  | nil => simpa using hrepeat
  | cons firing firings ih =>
      obtain ⟨-, -, hrepeatable, -, hrest⟩ := h
      have hpositive : 0 < timer.repeatTimes := by
        rcases of_decide_eq_true hrepeatable with hforever | hpositive
        · rw [hforever] at hrepeat
          cases hrepeat
        · exact hpositive
      have hleft : (timer.reschedule firing.now).repeatTimes = timer.repeatTimes - 1 := by
        simp [Timer.reschedule, hpositive]
      have hlength := ih hrest (by omega)
      rw [List.length_cons]
      push_cast
      omega

theorem Scheduled.onSchedule (h : Scheduled timer firings) : OnSchedule timer firings where
  notEarly := h.not_early
  fixedRate := fun hrate _ _ hk => h.fixed_rate hrate hk
  fixedDelay := fun hdelay _ _ _ hk hlater => h.fixed_delay hdelay hk hlater
  repeatTimes := h.length_le

/-- With an interval that is not negative a timer only moves to later times. -/
theorem Scheduled.le_after (h : Scheduled timer firings) (hinterval : 0 ≤ timer.interval) :
    timer.expiredTime ≤ (Timer.after timer firings).expiredTime := by
  induction firings generalizing timer with
  | nil => exact le_rfl
  | cons firing firings ih =>
      obtain ⟨-, -, -, hle, hrest⟩ := h
      have hnext : timer.expiredTime ≤ (timer.reschedule firing.now).expiredTime := by
        change timer.id.value ≤ firing.now at hle
        change timer.id.value ≤ plusMilliseconds _ timer.interval
        rw [plusMilliseconds, kMicrosecondsPerMillisecond]
        split <;> omega
      exact hnext.trans (ih hrest hinterval)

end Nets.TimerManager
