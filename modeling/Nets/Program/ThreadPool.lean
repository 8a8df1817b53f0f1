import Nets.Library.System
import Nets.Program.BoundedBlockingQueue
import Mathlib.Data.BitVec

/-! # The thread pool

`base/ThreadPool.cpp` and `base/ThreadPool.h`. A step is one atomic access to `ctl_`, one critical
section of `mutex_`, or one step inside the task queue. Tasks are application code that does not
throw out of a worker; what a task calls is a call of its own. -/

namespace Nets

open Library

namespace ThreadPool

def kCountBits : ℕ := 30

def kCountMask : BitVec 32 := (1#32 <<< kCountBits) - 1

def kRunning : BitVec 32 := 1#32 <<< kCountBits

def kShutdown : BitVec 32 := 0#32 <<< kCountBits

def isRunning (ctl : BitVec 32) : Bool := ctl &&& ~~~kCountMask = kRunning

def isShutdown (ctl : BitVec 32) : Bool := ctl &&& ~~~kCountMask = kShutdown

def numOfActiveThreads (ctl : BitVec 32) : ℕ := (ctl &&& kCountMask).toNat

/-- Workers are numbered as they are created, the calls of `execute` and of `shutdown` as they
begin. -/
inductive Thread where
  | worker (w : ℕ)
  | call (i : ℕ)
  | stop (i : ℕ)
  deriving DecidableEq

/-- The task of a call of `execute`, and any copy of it. -/
structure Submission (α : Type) where
  call : ℕ
  task : α
  deriving DecidableEq

/-- `erased` is inside the critical section of `releaseThread`. -/
inductive WorkerPhase where
  | ready
  | executing
  | looping
  | taking
  | releasing
  | erased
  | exited
  deriving DecidableEq

/-- `ThreadWrapper`; its `task_` is the variable the thread passes to `take`. -/
structure Worker where
  isCoreThread : Bool
  phase : WorkerPhase
  deriving DecidableEq

/-- Where a call of `execute` is. From `adding` to `retreating` it is in `addThreadTask`, from
`constructing` on inside its critical section. -/
inductive Call (α : Type) where
  | loading (task : α)
  | adding (task : α) (isCore : Bool)
  | comparing (task : α) (isCore : Bool) (ctl : BitVec 32)
  | creating (task : α) (isCore : Bool)
  | constructing (task : α) (isCore : Bool)
  | emplacing (task : α) (isCore : Bool) (w : ℕ)
  | retreating (task : α) (isCore : Bool)
  | reloading (task : α)
  | pushing (task : α)
  | accepted (task : α)
  | returned (task : α) (result : Bool)
  | thrown (task : α)
  deriving DecidableEq

/-- Where a call of `shutdown` is. -/
inductive Stop where
  | checking
  | alreadyShutdown
  | loading
  | comparing (ctl : BitVec 32)
  | notifyingFull
  | notifyingEmpty
  | waiting
  | draining
  | popping
  | returned
  deriving DecidableEq

end ThreadPool

open ThreadPool

/-- `mutex` is `mutex_`. `started` and `finished` record the tasks that workers have called and
that have returned to them. -/
structure ThreadPool (α : Type) where
  corePoolSize : ℕ
  maximumPoolSize : ℕ
  taskQueue : BoundedBlockingQueue Thread (Submission α)
  threadPool : List ℕ
  ctl : BitVec 32
  mutex : Option Thread
  workers : List Worker
  calls : List (Call α)
  stops : List Stop
  started : List (Submission α)
  finished : List (Submission α)

namespace ThreadPool

variable {α : Type}

/-- No pool where the constructor throws. -/
def create (corePoolSize maximumPoolSize maxQueueSize : ℕ) : Option (ThreadPool α) :=
  if corePoolSize = 0 ∨ maximumPoolSize < corePoolSize then none
  else
    some {
      corePoolSize
      maximumPoolSize
      taskQueue := .create maxQueueSize
      threadPool := []
      ctl := kRunning
      mutex := none
      workers := []
      calls := []
      stops := []
      started := []
      finished := [] }

def setWorker (w : ℕ) (worker : Worker) (s : ThreadPool α) : ThreadPool α :=
  { s with workers := s.workers.set w worker }

def setCall (i : ℕ) (call : Call α) (s : ThreadPool α) : ThreadPool α :=
  { s with calls := s.calls.set i call }

def setStop (i : ℕ) (stop : Stop) (s : ThreadPool α) : ThreadPool α :=
  { s with stops := s.stops.set i stop }

def setTaskQueue (taskQueue : BoundedBlockingQueue Thread (Submission α)) (s : ThreadPool α) :
    ThreadPool α :=
  { s with taskQueue }

def setCtl (ctl : BitVec 32) (s : ThreadPool α) : ThreadPool α := { s with ctl }

def setMutex (mutex : Option Thread) (s : ThreadPool α) : ThreadPool α := { s with mutex }

def setThreadPool (threadPool : List ℕ) (s : ThreadPool α) : ThreadPool α := { s with threadPool }

/-- How many threads `addThreadTask` allows. -/
def limit (isCore : Bool) (s : ThreadPool α) : ℕ :=
  if isCore then s.corePoolSize else s.maximumPoolSize

/-! ## Workers -/

/-- `take` as a worker calls it: a core thread waits without a timeout. -/
def takeRequest (isCoreThread : Bool) : Request (Submission α) :=
  if isCoreThread then BoundedBlockingQueue.takeIf else BoundedBlockingQueue.takeForIf

/-- `task_();` begins. -/
def startTask (sub : Submission α) (s : ThreadPool α) : ThreadPool α :=
  { s with started := s.started ++ [sub] }

/-- `task_();` returns, and `task_ = nullptr;` follows. -/
def finishTask (w : ℕ) (s : ThreadPool α) : ThreadPool α :=
  { s with
    finished := s.finished ++ (s.taskQueue.outputs (.worker w)).toList
    taskQueue := s.taskQueue.setOutput (.worker w) none }

/-- The next step of `runThread`. -/
def stepWorker (w : ℕ) (worker : Worker) (s : ThreadPool α) : Option (ThreadPool α) :=
  match worker.phase with
  | .ready =>
    match s.taskQueue.outputs (.worker w) with
    | some sub => some ((s.startTask sub).setWorker w { worker with phase := .executing })
    | none => some (s.setWorker w { worker with phase := .looping })
  | .executing => some ((s.finishTask w).setWorker w { worker with phase := .looping })
  | .looping =>
    if isRunning s.ctl then
      let taskQueue := s.taskQueue.enter (takeRequest worker.isCoreThread) (.worker w)
      some ((s.setTaskQueue taskQueue).setWorker w { worker with phase := .taking })
    else some (s.setWorker w { worker with phase := .releasing })
  | .taking =>
    match s.taskQueue.positions (.worker w) with
    | .returned _ result =>
      let phase := if worker.isCoreThread || result then .ready else .releasing
      some ((s.setTaskQueue (s.taskQueue.leave (.worker w))).setWorker w { worker with phase })
    | _ => none
  | .releasing =>
    if s.mutex.isSome then none
    else if w ∈ s.threadPool then
      some (((s.setThreadPool (s.threadPool.erase w)).setMutex (some (.worker w))).setWorker w
        { worker with phase := .erased })
    else some (s.setWorker w { worker with phase := .exited })
  | .erased =>
    some (((s.setCtl (s.ctl - 1)).setMutex none).setWorker w { worker with phase := .exited })
  | .exited => none

/-! ## Calls of `execute` -/

/-- Where `execute` goes on when `addThreadTask` has returned `false`. -/
def notAdded (task : α) (isCore : Bool) : Call α :=
  if isCore then .reloading task else .returned task false

/-- The thread runs as soon as its wrapper is constructed, with its first task in `task_`. -/
def startWorker (isCore : Bool) (sub : Submission α) (s : ThreadPool α) : ThreadPool α :=
  { s with
    workers := s.workers ++ [{ isCoreThread := isCore, phase := .ready }]
    taskQueue := s.taskQueue.setOutput (.worker s.workers.length) (some sub) }

/-- From `isRunning(ctl) && taskQueue_->tryPush(task)` on. -/
def tryPush (i : ℕ) (task : α) (ctl : BitVec 32) (s : ThreadPool α) : ThreadPool α :=
  if isRunning ctl then
    let taskQueue := s.taskQueue.enter (BoundedBlockingQueue.tryPush ⟨i, task⟩) (.call i)
    (s.setTaskQueue taskQueue).setCall i (.pushing task)
  else s.setCall i (.adding task false)

/-- The next step of `execute`. Creating a thread may fail, and the exception leaves the call. -/
def stepCall (i : ℕ) (created : Bool) (call : Call α) (s : ThreadPool α) : Option (ThreadPool α) :=
  match call with
  | .loading task =>
    if isShutdown s.ctl then some (s.setCall i (.returned task false))
    else if numOfActiveThreads s.ctl < s.corePoolSize then some (s.setCall i (.adding task true))
    else some (s.tryPush i task s.ctl)
  | .adding task isCore =>
    if isShutdown s.ctl ∨ s.limit isCore ≤ numOfActiveThreads s.ctl then
      some (s.setCall i (notAdded task isCore))
    else some (s.setCall i (.comparing task isCore s.ctl))
  | .comparing task isCore ctl =>
    if s.ctl = ctl then some ((s.setCtl (ctl + 1)).setCall i (.creating task isCore))
    else some (s.setCall i (.adding task isCore))
  | .creating task isCore =>
    if s.mutex.isSome then none
    else
      some ((s.setMutex (some (.call i))).setCall i
        (if isRunning s.ctl then .constructing task isCore else .retreating task isCore))
  | .constructing task isCore =>
    if created then
      some ((s.startWorker isCore ⟨i, task⟩).setCall i (.emplacing task isCore s.workers.length))
    else some ((s.setMutex none).setCall i (.thrown task))
  | .emplacing task _ w =>
    some (((s.setThreadPool (s.threadPool ++ [w])).setMutex none).setCall i (.accepted task))
  | .retreating task isCore =>
    some (((s.setCtl (s.ctl - 1)).setMutex none).setCall i (notAdded task isCore))
  | .reloading task => some (s.tryPush i task s.ctl)
  | .pushing task =>
    match s.taskQueue.positions (.call i) with
    | .returned _ result =>
      some ((s.setTaskQueue (s.taskQueue.leave (.call i))).setCall i
        (if result then .accepted task else .adding task false))
    | _ => none
  | .accepted task => some (s.setCall i (.returned task true))
  | .returned _ _ | .thrown _ => none

/-! ## Calls of `shutdown` -/

/-- The next step of `shutdown`. Waiting for `cv_` is waiting for the count: it falls under
`mutex_` only, each time with a notification. -/
def stepStop (i : ℕ) (stop : Stop) (s : ThreadPool α) : Option (ThreadPool α) :=
  match stop with
  | .checking => some (s.setStop i (if isShutdown s.ctl then .alreadyShutdown else .loading))
  | .loading => some (s.setStop i (.comparing s.ctl))
  | .comparing ctl =>
    if s.ctl = ctl then
      some ((s.setCtl (kShutdown ||| (ctl &&& kCountMask))).setStop i .notifyingFull)
    else some (s.setStop i .loading)
  | .notifyingFull =>
    some ((s.setTaskQueue s.taskQueue.notifyAllFull).setStop i .notifyingEmpty)
  | .notifyingEmpty => some ((s.setTaskQueue s.taskQueue.notifyAllEmpty).setStop i .waiting)
  | .waiting =>
    if s.mutex.isNone ∧ numOfActiveThreads s.ctl = 0 then
      some ((s.setMutex (some (.stop i))).setStop i .draining)
    else none
  | .draining =>
    s.taskQueue.isEmpty.map fun isEmpty =>
      if isEmpty then (s.setMutex none).setStop i .returned
      else
        (s.setTaskQueue (s.taskQueue.enter BoundedBlockingQueue.tryPop (.stop i))).setStop i .popping
  | .popping =>
    match s.taskQueue.positions (.stop i) with
    | .returned _ _ => some ((s.setTaskQueue (s.taskQueue.leave (.stop i))).setStop i .draining)
    | _ => none
  | .alreadyShutdown | .returned => none

/-! ## All threads together -/

inductive Action (α : Type) where
  | execute (task : α)
  | shutdown
  | worker (w : ℕ)
  | call (i : ℕ) (created : Bool)
  | stop (i : ℕ)
  | queue (thread woken : Thread)
  | wakeUp (thread : Thread)
  | expire (thread : Thread)

/-- The predicate given to the queue is `isShutdown(ctl_)`. -/
def step (s : ThreadPool α) : Action α → Option (ThreadPool α)
  | .execute task => some { s with calls := s.calls ++ [.loading task] }
  | .shutdown => some { s with stops := s.stops ++ [.checking] }
  | .worker w => s.workers[w]?.bind fun worker => s.stepWorker w worker
  | .call i created => s.calls[i]?.bind fun call => s.stepCall i created call
  | .stop i => s.stops[i]?.bind fun stop => s.stepStop i stop
  | .queue thread woken =>
    (s.taskQueue.advance thread woken (isShutdown s.ctl)).map fun q => s.setTaskQueue q
  | .wakeUp thread => (s.taskQueue.wakeUp thread).map fun q => s.setTaskQueue q
  | .expire thread => (s.taskQueue.expire thread).map fun q => s.setTaskQueue q

def system (α : Type) : System (ThreadPool α) (Action α) where
  initial s := ∃ corePoolSize maximumPoolSize maxQueueSize,
    create corePoolSize maximumPoolSize maxQueueSize = some s
  step := step

end ThreadPool

end Nets
