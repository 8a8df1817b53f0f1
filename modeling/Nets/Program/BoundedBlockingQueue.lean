import Mathlib.Logic.Function.Basic
import Nets.Library.System

/-! # The bounded blocking queue

`base/BoundedBlockingQueue.h`. The entry points run the same code up to what they wait for, so that
one machine has all of them: a thread is at a position in its call, and a step is one access to the
mutex, to a condition variable or to the predicate. A condition variable is the list of the threads
that wait for a notification. -/

namespace Nets

/-- How a call waits: without a timeout, with one, or not at all, and whether it has a predicate. -/
inductive Mode where
  | wait (hasPredicate : Bool)
  | waitFor (hasPredicate : Bool)
  | tryLock
  deriving DecidableEq

def Mode.hasPredicate : Mode → Bool
  | .wait hasPredicate | .waitFor hasPredicate => hasPredicate
  | .tryLock => false

/-- The element of a `put`; a `take` has none. -/
structure Request (α : Type) where
  el : Option α
  mode : Mode
  deriving DecidableEq

/-- `goingToSleep` is behind a false test of the wait predicate, `passed` behind a true one. In
the positions from `testing` on a thread holds the mutex, but not while `asleep` or `expired`, and
no longer when it is `notifying`. -/
inductive Position (α : Type) where
  | outside
  | locking (r : Request α)
  | testing (r : Request α)
  | goingToSleep (r : Request α)
  | asleep (r : Request α)
  | expired (r : Request α)
  | lastTesting (r : Request α)
  | passed (r : Request α)
  | notifying (r : Request α)
  | returned (r : Request α) (result : Bool)
  | frontOfEmpty
  deriving DecidableEq

/-- `outputs` is the variable each thread passes to `take`. `pushed` and `taken` record the elements
in the order of the critical sections, with the threads that put and took them. -/
structure BoundedBlockingQueue (τ α : Type) where
  maxQueueSize : ℕ
  queue : List α
  mutex : Option τ
  notFullCV : List τ
  notEmptyCV : List τ
  positions : τ → Position α
  outputs : τ → Option α
  pushed : List (τ × α)
  taken : List (τ × α)

namespace BoundedBlockingQueue

variable {τ α : Type} [DecidableEq τ]

def create (maxQueueSize : ℕ) : BoundedBlockingQueue τ α where
  maxQueueSize
  queue := []
  mutex := none
  notFullCV := []
  notEmptyCV := []
  positions _ := .outside
  outputs _ := none
  pushed := []
  taken := []

/-! ## Entry points -/

def put (el : α) : Request α := ⟨some el, .wait false⟩
def putIf (el : α) : Request α := ⟨some el, .wait true⟩
def putFor (el : α) : Request α := ⟨some el, .waitFor false⟩
def putForIf (el : α) : Request α := ⟨some el, .waitFor true⟩
def tryPush (el : α) : Request α := ⟨some el, .tryLock⟩

def take : Request α := ⟨none, .wait false⟩
def takeIf : Request α := ⟨none, .wait true⟩
def takeFor : Request α := ⟨none, .waitFor false⟩
def takeForIf : Request α := ⟨none, .waitFor true⟩
def tryPop : Request α := ⟨none, .tryLock⟩

/-! ## State -/

def isFull (q : BoundedBlockingQueue τ α) : Bool := q.maxQueueSize ≤ q.queue.length

def setPosition (thread : τ) (position : Position α) (q : BoundedBlockingQueue τ α) :
    BoundedBlockingQueue τ α :=
  { q with positions := Function.update q.positions thread position }

def setOutput (thread : τ) (output : Option α) (q : BoundedBlockingQueue τ α) :
    BoundedBlockingQueue τ α :=
  { q with outputs := Function.update q.outputs thread output }

/-- A thread that is in no call enters one. -/
def enter (r : Request α) (thread : τ) (q : BoundedBlockingQueue τ α) : BoundedBlockingQueue τ α :=
  q.setPosition thread (.locking r)

def leave (thread : τ) (q : BoundedBlockingQueue τ α) : BoundedBlockingQueue τ α :=
  q.setPosition thread .outside

/-! ## Condition variables -/

/-- Where the call waits. -/
def cv (r : Request α) (q : BoundedBlockingQueue τ α) : List τ :=
  if r.el.isSome then q.notFullCV else q.notEmptyCV

def joinCV (r : Request α) (thread : τ) (q : BoundedBlockingQueue τ α) : BoundedBlockingQueue τ α :=
  if r.el.isSome then { q with notFullCV := q.notFullCV ++ [thread] }
  else { q with notEmptyCV := q.notEmptyCV ++ [thread] }

def leaveCV (thread : τ) (q : BoundedBlockingQueue τ α) : BoundedBlockingQueue τ α :=
  { q with
    notFullCV := q.notFullCV.filter (· ≠ thread)
    notEmptyCV := q.notEmptyCV.filter (· ≠ thread) }

/-- `notify_one` wakes some waiting thread, if there is one. -/
def notifyOne (waiting : List τ) (woken : τ) : Option (List τ) :=
  if waiting.isEmpty then some []
  else if woken ∈ waiting then some (waiting.filter (· ≠ woken))
  else none

/-- The notification of a call: a `put` notifies the takers, a `take` the putters. -/
def notifyOther (r : Request α) (woken : τ) (q : BoundedBlockingQueue τ α) :
    Option (BoundedBlockingQueue τ α) :=
  if r.el.isSome then (notifyOne q.notEmptyCV woken).map fun notEmptyCV => { q with notEmptyCV }
  else (notifyOne q.notFullCV woken).map fun notFullCV => { q with notFullCV }

/-- The two halves of `notifyBlockingThread`, which takes no lock. -/
def notifyAllFull (q : BoundedBlockingQueue τ α) : BoundedBlockingQueue τ α :=
  { q with notFullCV := [] }

def notifyAllEmpty (q : BoundedBlockingQueue τ α) : BoundedBlockingQueue τ α :=
  { q with notEmptyCV := [] }

/-! ## Calls -/

/-- What the call waits for, where its predicate evaluates to `p`. -/
def isReady (r : Request α) (p : Bool) (q : BoundedBlockingQueue τ α) : Bool :=
  (if r.el.isSome then !q.isFull else !q.queue.isEmpty) || (r.mode.hasPredicate && p)

def lock (thread : τ) (position : Position α) (q : BoundedBlockingQueue τ α) :
    Option (BoundedBlockingQueue τ α) :=
  if q.mutex.isNone then some ({ q with mutex := some thread }.setPosition thread position)
  else none

def unlock (thread : τ) (position : Position α) (q : BoundedBlockingQueue τ α) :
    BoundedBlockingQueue τ α :=
  { q with mutex := none }.setPosition thread position

/-- `push_back`, or `front` and `pop_front`. -/
def transfer (r : Request α) (thread : τ) (q : BoundedBlockingQueue τ α) :
    BoundedBlockingQueue τ α :=
  match r.el, q.queue with
  | some el, queue =>
    { q with
      queue := queue ++ [el]
      pushed := q.pushed ++ [(thread, el)] }.unlock thread (.notifying r)
  | none, el :: queue =>
    ({ q with
      queue
      taken := q.taken ++ [(thread, el)] }.setOutput thread (some el)).unlock thread (.notifying r)
  | none, [] => q.setPosition thread .frontOfEmpty

/-- The next step of a call, where the predicate evaluates to `p` and a notification wakes
`woken`. -/
def advance (thread woken : τ) (p : Bool) (q : BoundedBlockingQueue τ α) :
    Option (BoundedBlockingQueue τ α) :=
  match q.positions thread with
  | .locking r =>
    if r.mode = .tryLock then
      some ((q.lock thread (.lastTesting r)).getD (q.setPosition thread (.returned r false)))
    else q.lock thread (.testing r)
  | .testing r =>
    some (q.setPosition thread (if q.isReady r p then .passed r else .goingToSleep r))
  | .goingToSleep r => some ((q.joinCV r thread).unlock thread (.asleep r))
  | .asleep r => if thread ∈ q.cv r then none else q.lock thread (.testing r)
  | .expired r => q.lock thread (.lastTesting r)
  | .lastTesting r =>
    some (if q.isReady r p then q.setPosition thread (.passed r)
      else q.unlock thread (.returned r false))
  | .passed r =>
    some (if r.mode.hasPredicate && p then q.unlock thread (.returned r false)
      else q.transfer r thread)
  | .notifying r => (q.notifyOther r woken).map (setPosition thread (.returned r true))
  | .outside | .returned _ _ | .frontOfEmpty => none

/-- A spurious wakeup. -/
def wakeUp (thread : τ) (q : BoundedBlockingQueue τ α) : Option (BoundedBlockingQueue τ α) :=
  match q.positions thread with
  | .asleep _ => some (q.leaveCV thread)
  | _ => none

/-- The time of a `wait_for` is over. -/
def expire (thread : τ) (q : BoundedBlockingQueue τ α) : Option (BoundedBlockingQueue τ α) :=
  match q.positions thread with
  | .asleep r =>
    match r.mode with
    | .waitFor _ => some ((q.leaveCV thread).setPosition thread (.expired r))
    | .wait _ | .tryLock => none
  | _ => none

/-- `isEmpty` takes the lock shared, so it waits for a thread that holds the mutex. -/
def isEmpty (q : BoundedBlockingQueue τ α) : Option Bool :=
  if q.mutex.isNone then some q.queue.isEmpty else none

/-! ## All callers together -/

/-- A call that has returned, with the variable it was given before and after it. -/
structure Outcome (τ α : Type) where
  thread : τ
  r : Request α
  argument : Option α
  result : Bool
  output : Option α

/-- `predicates` is what the predicate given to a thread's call evaluates to, `arguments` the
variable as the call found it. -/
structure Callers (τ α : Type) where
  queue : BoundedBlockingQueue τ α
  predicates : τ → Bool
  arguments : τ → Option α
  outcomes : List (Outcome τ α)

/-- A predicate may become true at any time. -/
inductive Action (τ α : Type) where
  | call (thread : τ) (r : Request α) (argument : Option α) (predicate : Bool)
  | raise (thread : τ)
  | advance (thread woken : τ)
  | wakeUp (thread : τ)
  | expire (thread : τ)
  | leave (thread : τ)

namespace Callers

def call (thread : τ) (r : Request α) (argument : Option α) (predicate : Bool)
    (s : Callers τ α) : Callers τ α :=
  { s with
    queue := (s.queue.setOutput thread argument).enter r thread
    predicates := Function.update s.predicates thread predicate
    arguments := Function.update s.arguments thread argument }

def leave (thread : τ) (r : Request α) (result : Bool) (s : Callers τ α) : Callers τ α :=
  { s with
    queue := s.queue.leave thread
    outcomes := s.outcomes ++
      [⟨thread, r, s.arguments thread, result, s.queue.outputs thread⟩] }

def setQueue (queue : BoundedBlockingQueue τ α) (s : Callers τ α) : Callers τ α := { s with queue }

def step (s : Callers τ α) : Action τ α → Option (Callers τ α)
  | .call thread r argument predicate =>
    match s.queue.positions thread with
    | .outside => some (s.call thread r argument predicate)
    | _ => none
  | .raise thread => some { s with predicates := Function.update s.predicates thread true }
  | .advance thread woken =>
    (s.queue.advance thread woken (s.predicates thread)).map fun queue => s.setQueue queue
  | .wakeUp thread => (s.queue.wakeUp thread).map fun queue => s.setQueue queue
  | .expire thread => (s.queue.expire thread).map fun queue => s.setQueue queue
  | .leave thread =>
    match s.queue.positions thread with
    | .returned r result => some (s.leave thread r result)
    | _ => none

end Callers

def system (τ α : Type) [DecidableEq τ] : Library.System (Callers τ α) (Action τ α) where
  initial s := s.outcomes = [] ∧ ∃ maxQueueSize outputs,
    s.queue = { create maxQueueSize with outputs }
  step := Callers.step

/-! ## Predicates that may give anything -/

/-- What the callers and `notifyBlockingThread` do to the queue. The predicate of a call evaluates to
`p` where a step of the call evaluates it. -/
inductive Operation (τ α : Type) where
  | call (thread : τ) (r : Request α) (argument : Option α)
  | advance (thread woken : τ) (p : Bool)
  | wakeUp (thread : τ)
  | expire (thread : τ)
  | leave (thread : τ)
  | notifyAllFull
  | notifyAllEmpty

def operate (q : BoundedBlockingQueue τ α) : Operation τ α → Option (BoundedBlockingQueue τ α)
  | .call thread r argument =>
    match q.positions thread with
    | .outside => some ((q.setOutput thread argument).enter r thread)
    | _ => none
  | .advance thread woken p => q.advance thread woken p
  | .wakeUp thread => q.wakeUp thread
  | .expire thread => q.expire thread
  | .leave thread =>
    match q.positions thread with
    | .returned _ _ => some (q.leave thread)
    | _ => none
  | .notifyAllFull => some q.notifyAllFull
  | .notifyAllEmpty => some q.notifyAllEmpty

def operations (τ α : Type) [DecidableEq τ] :
    Library.System (BoundedBlockingQueue τ α) (Operation τ α) where
  initial q := ∃ maxQueueSize outputs, q = { create maxQueueSize with outputs }
  step := operate

end BoundedBlockingQueue

end Nets
