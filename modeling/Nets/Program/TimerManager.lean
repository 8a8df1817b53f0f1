import Mathlib.Data.Int.Order.Basic
import Nets.Library.Loop
import Nets.Library.Multimap
import Nets.Library.System

/-! # Timers

`base/timer/TimerManager.cpp` and `base/timer/Timer.cpp`. A time is a number of microseconds, without
bound. What a callback does with the manager is given for each round of the loop in `update`, and so
is the reading of the clock. -/

namespace Nets

open Library

def kMicrosecondsPerMillisecond : ℤ := 1000

def plusMilliseconds (time milliseconds : ℤ) : ℤ := time + milliseconds * kMicrosecondsPerMillisecond

def kRepeatForever : ℤ := -1

structure TimerId where
  key : ℕ
  value : ℤ
  deriving DecidableEq, Repr

/-- `interval` counts milliseconds. The callback is known by the key. -/
structure Timer where
  id : TimerId
  repeatTimes : ℤ
  interval : ℤ
  fixedDelay : Bool
  deriving DecidableEq, Repr

namespace Timer

def expiredTime (timer : Timer) : ℤ := timer.id.value

def setExpiredTime (expiredTime : ℤ) (timer : Timer) : Timer :=
  { timer with id := { timer.id with value := expiredTime } }

def setRepeatTimes (repeatTimes : ℤ) (timer : Timer) : Timer := { timer with repeatTimes }

def isRepeatable (timer : Timer) : Bool :=
  timer.repeatTimes = kRepeatForever ∨ timer.repeatTimes > 0

def isExpired (now : ℤ) (timer : Timer) : Bool := now ≥ timer.id.value

/-- What `removeTimer` does with the timer; `update` removes it. -/
def cancel (timer : Timer) : Timer := (timer.setExpiredTime 0).setRepeatTimes 0

/-- `onTimer` from the return of the callback on. -/
def reschedule (now : ℤ) (timer : Timer) : Timer where
  id := {
    key := timer.id.key
    value := plusMilliseconds (if timer.fixedDelay then now else timer.id.value) timer.interval }
  repeatTimes := if timer.repeatTimes > 0 then timer.repeatTimes - 1 else timer.repeatTimes
  interval := timer.interval
  fixedDelay := timer.fixedDelay

end Timer

abbrev Timers := Multimap ℤ Timer

structure TimerManager where
  timers : Timers
  timerIdGenerator : ℕ

namespace TimerManager

def empty : TimerManager where
  timers := []
  timerIdGenerator := 0

def newTimer (expiredTime repeatTimes interval : ℤ) (fixedDelay : Bool) (m : TimerManager) : Timer where
  id := { key := m.timerIdGenerator, value := expiredTime }
  repeatTimes
  interval
  fixedDelay

def addTimer (expiredTime repeatTimes interval : ℤ) (fixedDelay : Bool) (m : TimerManager) :
    TimerManager where
  timers := m.timers.insert expiredTime (m.newTimer expiredTime repeatTimes interval fixedDelay)
  timerIdGenerator := m.timerIdGenerator + 1

/-- The first timer of the key, from `lower_bound` on. -/
def cancelFirst (key : ℕ) : Timers → Timers
  | [] => []
  | (time, timer) :: timers =>
    if key = timer.id.key then (time, timer.cancel) :: timers
    else (time, timer) :: cancelFirst key timers

def removeTimer (timerId : TimerId) (timers : Timers) : Timers :=
  timers.takeWhile (fun e => e.1 < timerId.value) ++
    cancelFirst timerId.key (timers.dropWhile fun e => e.1 < timerId.value)

/-! ## `update` -/

/-- What a callback may call. -/
inductive Call where
  | removeTimer (timerId : TimerId)
  | addTimer (expiredTime repeatTimes interval : ℤ) (fixedDelay : Bool)

/-- A call of a callback: the timer, the time it was scheduled for, and the reading of the clock. -/
structure Firing where
  key : ℕ
  expiredTime : ℤ
  now : ℤ
  deriving DecidableEq, Repr

/-- The container as the iterator `it` divides it, and the calls of callbacks so far. -/
structure Update where
  passed : Timers
  rest : Timers
  timerIdGenerator : ℕ
  round : ℕ
  fired : List Firing

namespace Update

def timers (s : Update) : Timers := s.passed ++ s.rest

def manager (s : Update) : TimerManager where
  timers := s.timers
  timerIdGenerator := s.timerIdGenerator

/-- The iterator at the given place of other timers. -/
def withTimers (timers : Timers) (it : ℕ) (s : Update) : Update :=
  { s with passed := timers.take it, rest := timers.drop it }

/-- Iterators stay at their entries: an entry that comes before `it` moves its place. -/
def perform (s : Update) : Call → Update
  | .removeTimer timerId => s.withTimers (removeTimer timerId s.timers) s.passed.length
  | .addTimer expiredTime repeatTimes interval fixedDelay =>
    let m := s.manager.addTimer expiredTime repeatTimes interval fixedDelay
    let it := if (s.timers.upTo expiredTime).length ≤ s.passed.length then s.passed.length + 1
      else s.passed.length
    { s with timerIdGenerator := m.timerIdGenerator }.withTimers m.timers it

/-- The timer at `it` after its callback. -/
def rescheduleIt (now : ℤ) (s : Update) : Update :=
  match s.rest with
  | [] => s
  | (time, timer) :: next => { s with rest := (time, timer.reschedule now) :: next }

/-- `it->second.onTimer(now)`. -/
def onTimer (now : ℤ) (calls : List Call) (timer : Timer) (s : Update) : Update :=
  if timer.isRepeatable then
    let s := { s with fired := s.fired ++ [⟨timer.id.key, timer.expiredTime, now⟩] }
    (calls.foldl perform s).rescheduleIt now
  else s

/-- The timer is back in the container, behind all that are due at the same time, and `it` goes to
`nextIt` if that is due before, otherwise to the timer itself. -/
def reinsert (timer : Timer) (next : Timers) (s : Update) : Update :=
  let timers := s.passed ++ next
  if next.head?.any fun nextIt => nextIt.1 < timer.expiredTime then
    s.withTimers (timers.insert timer.expiredTime timer) s.passed.length
  else s.withTimers (timers.insert timer.expiredTime timer) (timers.upTo timer.expiredTime).length

/-- `it` goes on, with its timer or past it. -/
def leaveTimer (s : Update) : Update :=
  match s.rest with
  | [] => s
  | (_, timer) :: next =>
    if timer.isRepeatable then s.reinsert timer next else { s with rest := next }

/-- One round of the loop. -/
def step (clock : ℕ → ℤ) (callbacks : ℕ → List Call) (s : Update) : Update ⊕ Update :=
  match s.rest with
  | [] => .inr s
  | (_, timer) :: _ =>
    let now := clock s.round
    if timer.isExpired now then
      .inl (({ s with round := s.round + 1 }.onTimer now (callbacks s.round) timer).leaveTimer)
    else .inr s

end Update

/-- `it` at the first timer. -/
def begin (m : TimerManager) : Update where
  passed := []
  rest := m.timers
  timerIdGenerator := m.timerIdGenerator
  round := 0
  fired := []

/-- `update`, with what is left in the container when it returns. -/
def update (fuel : ℕ) (clock : ℕ → ℤ) (callbacks : ℕ → List Call) (m : TimerManager) : Option Update :=
  Loop.run (Update.step clock callbacks) fuel m.begin

/-! ## How long to wait for a timer -/

def kMillisecondsPerSecond : ℤ := 1000

def nearestTimerRemainingExpiredTime (now : ℤ) : Timers → ℤ
  | [] => -1
  | (time, _) :: _ => if time ≤ now then 0 else (time - now).tdiv kMillisecondsPerSecond

def kDefaultPollTimeout : ℤ := 3000

def kMinimumPollTimeout : ℤ := 1

/-- What `EventLoop::run` passes to `poll`. -/
def pollTimeout (remainingExpiredTime : ℤ) : ℤ :=
  max kMinimumPollTimeout
    (if remainingExpiredTime = -1 then kDefaultPollTimeout
      else min remainingExpiredTime kDefaultPollTimeout)

end TimerManager

/-! ## The thread of a manager -/

/-- Where the thread is: not in `update`, at the condition of its loop, or in the callback of the timer
at `it`, with the reading of the clock for it. -/
inductive Updating where
  | outside
  | between
  | within (now : ℤ)
  deriving DecidableEq

/-- A manager over its whole life; `added` are the timers as they were added. -/
structure TimerThread where
  update : TimerManager.Update
  updating : Updating
  added : List Timer

namespace TimerThread

open TimerManager

/-- `timerIdGenerator` is that of all managers; others take ids from it at any time. -/
inductive Action where
  | call (call : Call)
  | takeId
  | update
  | round (now : ℤ)
  | callbackReturns

def create (timerIdGenerator : ℕ) : TimerThread where
  update := { empty.begin with timerIdGenerator }
  updating := .outside
  added := []

def addedBy (call : Call) (m : TimerManager) : List Timer :=
  match call with
  | .removeTimer _ => []
  | .addTimer expiredTime repeatTimes interval fixedDelay =>
    [m.newTimer expiredTime repeatTimes interval fixedDelay]

/-- A round of the loop of `update`, up to the callback if one is called. -/
def round (now : ℤ) (s : TimerThread) : TimerThread :=
  match s.update.rest with
  | [] => { s with updating := .outside }
  | (_, timer) :: _ =>
    if timer.isExpired now then
      let update := { s.update with round := s.update.round + 1 }
      if timer.isRepeatable then
        { s with
          update := { update with fired := update.fired ++ [⟨timer.id.key, timer.expiredTime, now⟩] }
          updating := .within now }
      else { s with update := update.leaveTimer }
    else { s with updating := .outside }

def step (s : TimerThread) : Action → Option TimerThread
  | .call call =>
    if s.updating = .between then none
    else some { s with
      update := s.update.perform call
      added := s.added ++ addedBy call s.update.manager }
  | .takeId =>
    some { s with update := { s.update with timerIdGenerator := s.update.timerIdGenerator + 1 } }
  | .update =>
    if s.updating = .outside then
      some { s with
        update := { s.update with passed := [], rest := s.update.timers }
        updating := .between }
    else none
  | .round now => if s.updating = .between then some (s.round now) else none
  | .callbackReturns =>
    match s.updating with
    | .within now =>
      some { s with update := (s.update.rescheduleIt now).leaveTimer, updating := .between }
    | .outside | .between => none

def system : System TimerThread Action where
  initial s := ∃ timerIdGenerator, s = create timerIdGenerator
  step := step

end TimerThread

end Nets
