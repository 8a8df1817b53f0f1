import Mathlib.Algebra.Group.Nat.Defs
import Nets.Library.System

/-! # The event loop

`net/core/EventLoop.cpp` with the tasks given to it by any thread, and the eventfd of
`NotifyChannel.cpp`. A step is one critical section under `mutex_`, one system call, or a stretch
of code that touches nothing another thread can see. Timer callbacks, tasks and event handlers are
application code: while it runs, the thread of the loop may call the loop like any other. -/

namespace Nets

open Library

/-- The largest value an eventfd counts to; a write beyond it fails with `EAGAIN`. -/
def kEventFdMax : ℕ := 2 ^ 64 - 2

namespace EventLoop

/-- An element of `pendingTasks_`, with the number of the `addTask` call that pushed it. -/
structure Pending (α : Type) where
  call : ℕ
  task : α
  deriving DecidableEq

/-- Where a thread is in its calls to the loop: behind the critical section of `addTask`, or behind
`running_ = false` in `shutdown`, the decision to notify is still to come. -/
inductive Caller where
  | outside
  | pushed (call : ℕ)
  | stopped
  deriving DecidableEq

/-- An element of `activeChannels_`. -/
inductive Ready where
  | notifier
  | channel
  deriving DecidableEq

/-- Where the thread of the loop is in `run`. -/
inductive Phase (α : Type) where
  | outside
  | testing
  | updating
  | swapping
  | executing (tmpTasks : List (Pending α))
  | polling
  | handling (activeChannels : List Ready)
  | unwound

/-- In these phases application code may run. -/
def Phase.isApplication {α : Type} : Phase α → Bool
  | .testing | .swapping | .polling => false
  | .outside | .updating | .executing _ | .handling _ | .unwound => true

/-- The tasks of the batch that have not been started. -/
def Phase.batch {α : Type} : Phase α → List (Pending α)
  | .executing tmpTasks => tmpTasks
  | _ => []

end EventLoop

open EventLoop

/-- `pushed` and `started` record the tasks in the order in which they were pushed and started. -/
structure EventLoop (τ α : Type) where
  threadId : τ
  running : Bool
  pendingTasks : List (Pending α)
  runningPendingTasks : Bool
  eventFd : ℕ
  phase : Phase α
  callers : τ → Caller
  pushed : List (Pending α)
  started : List (Pending α)

namespace EventLoop

variable {τ α : Type} [DecidableEq τ]

def create (threadId : τ) : EventLoop τ α where
  threadId
  running := false
  pendingTasks := []
  runningPendingTasks := false
  eventFd := 0
  phase := .outside
  callers _ := .outside
  pushed := []
  started := []

def isInCurrentEventLoop (thread : τ) (s : EventLoop τ α) : Bool := thread = s.threadId

/-- `NotifyChannel::notify`. -/
def notify (s : EventLoop τ α) : EventLoop τ α :=
  if s.eventFd < kEventFdMax then { s with eventFd := s.eventFd + 1 } else s

/-- `NotifyChannel::handleReadEvent`: reading the counter resets it. -/
def handleReadEvent (s : EventLoop τ α) : EventLoop τ α := { s with eventFd := 0 }

def setCaller (thread : τ) (caller : Caller) (s : EventLoop τ α) : EventLoop τ α :=
  { s with callers := Function.update s.callers thread caller }

/-! ## Calls of any thread -/

/-- The critical section of `addTask`. -/
def addTask (thread : τ) (task : α) (s : EventLoop τ α) : EventLoop τ α :=
  let pending := { call := s.pushed.length, task }
  { s with
    pendingTasks := s.pendingTasks ++ [pending]
    pushed := s.pushed ++ [pending] }.setCaller thread (.pushed pending.call)

/-- In the thread of the loop the function is called there and then, as application code.
`submit` wraps the function and does the same. -/
def execute (thread : τ) (task : α) (s : EventLoop τ α) : EventLoop τ α :=
  if s.isInCurrentEventLoop thread then s else s.addTask thread task

/-- Up to `running_ = false`. -/
def shutdown (thread : τ) (s : EventLoop τ α) : EventLoop τ α :=
  { s with running := false }.setCaller thread .stopped

/-- The end of `addTask`, and of `shutdown`. -/
def finishCall (thread : τ) (s : EventLoop τ α) : Option (EventLoop τ α) :=
  match s.callers thread with
  | .outside => none
  | .pushed _ =>
    let s' := s.setCaller thread .outside
    some (if !s.isInCurrentEventLoop thread || s.runningPendingTasks then s'.notify else s')
  | .stopped =>
    let s' := s.setCaller thread .outside
    some (if !s.isInCurrentEventLoop thread then s'.notify else s')

/-- A thread calls when it is in no other call; the thread of the loop, from application code. -/
def mayCall (thread : τ) (s : EventLoop τ α) : Bool :=
  s.callers thread = .outside && (!s.isInCurrentEventLoop thread || s.phase.isApplication)

/-! ## The cycle of the loop -/

/-- The next step of `run`. The poller reports the notifier only when its counter is positive; it
may report nothing, as after a timeout. -/
def advance (polled : List Ready) (s : EventLoop τ α) : Option (EventLoop τ α) :=
  match s.phase with
  | .outside => some { s with running := true, phase := .testing }
  | .testing => some { s with phase := if s.running then .updating else .outside }
  | .updating => some { s with runningPendingTasks := true, phase := .swapping }
  | .swapping => some { s with pendingTasks := [], phase := .executing s.pendingTasks }
  | .executing (t :: tmpTasks) =>
    some { s with started := s.started ++ [t], phase := .executing tmpTasks }
  | .executing [] => some { s with runningPendingTasks := false, phase := .polling }
  | .polling =>
    if .notifier ∈ polled → 0 < s.eventFd then some { s with phase := .handling polled } else none
  | .handling (.notifier :: activeChannels) =>
    some { s.handleReadEvent with phase := .handling activeChannels }
  | .handling (.channel :: activeChannels) => some { s with phase := .handling activeChannels }
  | .handling [] => some { s with phase := .testing }
  | .unwound => none

/-- An exception of application code leaves `run`, and what is left of a batch goes with it. -/
def throwOut (s : EventLoop τ α) : Option (EventLoop τ α) :=
  match s.phase with
  | .updating | .executing _ | .handling _ => some { s with phase := .unwound }
  | _ => none

/-! ## All threads together -/

inductive Action (τ α : Type) where
  | addTask (thread : τ) (task : α)
  | execute (thread : τ) (task : α)
  | shutdown (thread : τ)
  | finishCall (thread : τ)
  | advance (polled : List Ready)
  | throwOut

def step (s : EventLoop τ α) : Action τ α → Option (EventLoop τ α)
  | .addTask thread task => if s.mayCall thread then some (s.addTask thread task) else none
  | .execute thread task => if s.mayCall thread then some (s.execute thread task) else none
  | .shutdown thread => if s.mayCall thread then some (s.shutdown thread) else none
  | .finishCall thread => s.finishCall thread
  | .advance polled => if s.callers s.threadId = .outside then s.advance polled else none
  | .throwOut => if s.callers s.threadId = .outside then s.throwOut else none

/-- Runs of a loop that some thread has created. -/
def system (τ α : Type) [DecidableEq τ] : System (EventLoop τ α) (Action τ α) where
  initial s := ∃ threadId, s = create threadId
  step := step

end EventLoop

end Nets
