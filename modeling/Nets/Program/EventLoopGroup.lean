import Nets.Program.EventLoop

/-! # A group of event loops

`net/core/EventLoopGroup.cpp`. The pool of the group has `numOfEventLoops_` core threads and no queue:
each `submit` of `loopEach` creates one thread, which constructs its loop, stores it and runs it. A
step is one critical section of `mutex_`, one access to `nextLoop_` or `running_`, or a step of one
loop. -/

namespace Nets

open Library

namespace EventLoopGroup

/-- The threads of the group, the callers of `shutdown` of the group, and all others. -/
inductive Thread where
  | worker (w : ℕ)
  | stop (i : ℕ)
  | other (n : ℕ)
  deriving DecidableEq

def Thread.isStop : Thread → Bool
  | .stop _ => true
  | .worker _ | .other _ => false

/-- Where a thread of the group is: `running` is in `eventLoop->run()`, from its call on. -/
inductive Phase where
  | constructing
  | pushing
  | running
  | returned
  deriving DecidableEq

structure Worker (α : Type) where
  phase : Phase
  loop : EventLoop Thread α

/-- Where the call of `loopEach` is. -/
inductive LoopEach where
  | outside
  | submitting (i : ℕ)
  | waiting
  | returned
  deriving DecidableEq

/-- Where a call of `shutdown` is, with its place in `eventLoops_`. -/
inductive Stop where
  | examining (k : ℕ)
  | stopping (k : ℕ)
  | notifying (k : ℕ)
  | returned
  deriving DecidableEq

end EventLoopGroup

open EventLoopGroup

/-- A loop goes by the number of its thread. -/
structure EventLoopGroup (α : Type) where
  nextLoop : ℕ
  numOfEventLoops : ℕ
  eventLoops : List ℕ
  workers : List (Worker α)
  loopEach : LoopEach
  stops : List Stop

namespace EventLoopGroup

variable {α : Type}

/-- No group where the constructor of the pool throws. -/
def create (numOfEventLoops : ℕ) : Option (EventLoopGroup α) :=
  if numOfEventLoops = 0 then none
  else
    some {
      nextLoop := 0
      numOfEventLoops
      eventLoops := []
      workers := []
      loopEach := .outside
      stops := [] }

def setWorker (w : ℕ) (worker : Worker α) (s : EventLoopGroup α) : EventLoopGroup α :=
  { s with workers := s.workers.set w worker }

def setStop (i : ℕ) (stop : Stop) (s : EventLoopGroup α) : EventLoopGroup α :=
  { s with stops := s.stops.set i stop }

/-! ## `next` -/

/-- `eventLoops_[nextLoop_++]`: what is there, and the group after it. -/
def next (s : EventLoopGroup α) : Option ℕ × EventLoopGroup α :=
  (s.eventLoops[s.nextLoop]?, { s with nextLoop := s.nextLoop + 1 })

/-- The rest of `next`. -/
def wrap (s : EventLoopGroup α) : EventLoopGroup α :=
  if s.eventLoops.length ≤ s.nextLoop then { s with nextLoop := 0 } else s

/-! ## `loopEach` -/

/-- The next step of `loopEach`. Waiting for `cv_` is waiting for the size: the thread that stores
the last loop notifies under `mutex_`. -/
def stepLoopEach (s : EventLoopGroup α) : Option (EventLoopGroup α) :=
  match s.loopEach with
  | .submitting i =>
    if i < s.numOfEventLoops then
      some { s with
        workers := s.workers ++ [{ phase := .constructing, loop := .create (.worker i) }]
        loopEach := .submitting (i + 1) }
    else some { s with loopEach := .waiting }
  | .waiting =>
    if s.eventLoops.length = s.numOfEventLoops then some { s with loopEach := .returned } else none
  | .outside | .returned => none

/-- The next step of a thread of the group, up to the call of `run`. -/
def stepWorker (w : ℕ) (worker : Worker α) (s : EventLoopGroup α) : Option (EventLoopGroup α) :=
  match worker.phase with
  | .constructing => some (s.setWorker w { phase := .pushing, loop := .create (.worker w) })
  | .pushing =>
    some ({ s with eventLoops := s.eventLoops ++ [w] }.setWorker w { worker with phase := .running })
  | .running | .returned => none

/-! ## The loops -/

/-- The step is one of `run`. -/
def isRun : EventLoop.Action Thread α → Bool
  | .advance _ | .throwOut => true
  | .addTask _ _ | .execute _ _ | .shutdown _ | .finishCall _ => false

/-- The step is one of a thread that is in the `shutdown` of the group. -/
def isOfStop : EventLoop.Action Thread α → Bool
  | .addTask thread _ | .execute thread _ | .shutdown thread | .finishCall thread => thread.isStop
  | .advance _ | .throwOut => false

/-- `run` is not entered, or left again. -/
def isOutside : EventLoop.Phase α → Bool
  | .outside | .unwound => true
  | _ => false

/-- A step of the loop: `run` as long as it has not returned, or a call of any thread. -/
def stepLoop (w : ℕ) (worker : Worker α) (action : EventLoop.Action Thread α)
    (s : EventLoopGroup α) : Option (EventLoopGroup α) :=
  match worker.phase with
  | .running =>
    (worker.loop.step action).map fun loop =>
      s.setWorker w { loop, phase := if isRun action && isOutside loop.phase then .returned else .running }
  | .returned =>
    if isRun action then none
    else (worker.loop.step action).map fun loop => s.setWorker w { worker with loop }
  | .constructing | .pushing => none

/-! ## `shutdown` -/

/-- The loop at the place `k` of `eventLoops_`, with its thread. -/
def loopAt (k : ℕ) (s : EventLoopGroup α) : Option (ℕ × Worker α) :=
  s.eventLoops[k]?.bind fun w => s.workers[w]?.map fun worker => (w, worker)

/-- A call to the loop at the place `k`, by the thread of the shutdown `i`. -/
def callLoop (i k : ℕ) (action : EventLoop.Action Thread α) (stop : Stop) (s : EventLoopGroup α) :
    Option (EventLoopGroup α) :=
  (s.loopAt k).bind fun (w, worker) =>
    (worker.loop.step action).map fun loop => (s.setWorker w { worker with loop }).setStop i stop

/-- The next step of `shutdown`. -/
def stepStop (i : ℕ) (stop : Stop) (s : EventLoopGroup α) : Option (EventLoopGroup α) :=
  match stop with
  | .examining k =>
    match s.loopAt k with
    | none => some (s.setStop i .returned)
    | some (_, worker) =>
      some (s.setStop i (if worker.loop.running then .stopping k else .examining (k + 1)))
  | .stopping k => s.callLoop i k (.shutdown (.stop i)) (.notifying k)
  | .notifying k => s.callLoop i k (.finishCall (.stop i)) (.examining (k + 1))
  | .returned => none

/-! ## All threads together -/

inductive Action (α : Type) where
  | loopEach
  | submit
  | shutdown
  | worker (w : ℕ)
  | loop (w : ℕ) (action : EventLoop.Action Thread α)
  | stop (i : ℕ)

/-- `loopEach` is called once, and `shutdown` when it has returned. -/
def step (s : EventLoopGroup α) : Action α → Option (EventLoopGroup α)
  | .loopEach => if s.loopEach = .outside then some { s with loopEach := .submitting 0 } else none
  | .submit => s.stepLoopEach
  | .shutdown =>
    if s.loopEach = .returned then some { s with stops := s.stops ++ [.examining 0] } else none
  | .worker w => s.workers[w]?.bind fun worker => s.stepWorker w worker
  | .loop w action =>
    if isOfStop action then none
    else s.workers[w]?.bind fun worker => s.stepLoop w worker action
  | .stop i => s.stops[i]?.bind fun stop => s.stepStop i stop

def system (α : Type) : System (EventLoopGroup α) (Action α) where
  initial s := ∃ numOfEventLoops, create numOfEventLoops = some s
  step := step

end EventLoopGroup

end Nets
