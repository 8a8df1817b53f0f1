import Nets.Program.EventLoopGroup

/-! # The bootstrap of a server

`net/bootstrap/ServerBootstrap.cpp`, with `ServerSocketChannel::handleReadEvent` as far as it chooses
the loop of a new connection. One thread calls `bind` and then `sync`; the thread of the main loop
runs `doBind` and, from then on, accepts whenever it handles events. -/

namespace Nets

open Library

namespace ServerBootstrap

/-- A task of the main loop. -/
inductive Task where
  | doBind
  | other (n : ℕ)
  deriving DecidableEq

/-- Where the thread of the user is: from `looping` to `waiting` in `bind`, then between the two
calls, and from `syncing` on in `sync`. -/
inductive User where
  | looping
  | submitting
  | notifying (w : ℕ)
  | waiting
  | bound
  | syncing
  | synced
  deriving DecidableEq

/-- What the main loop has of the server socket; `choosing` is between the two accesses of `next`. -/
inductive Acceptor where
  | unbound
  | failed
  | listening
  | choosing
  deriving DecidableEq

end ServerBootstrap

open ServerBootstrap

/-- `chosen` records `nextLoop_` and `eventLoops_.size()` of the child group at each call of
`nextEventLoopFn_`. -/
structure ServerBootstrap where
  mainLoopGroup : EventLoopGroup Task
  childLoopGroup : EventLoopGroup Task
  user : User
  acceptor : Acceptor
  chosen : List (ℕ × ℕ)

namespace ServerBootstrap

def kNumbOfMainEventLoops : ℕ := 1

/-- The default is twice the number of processors. -/
def create (kDefaultNumbOfChildEventLoops numOfChildEventLoops : ℕ) : Option ServerBootstrap :=
  (EventLoopGroup.create kNumbOfMainEventLoops).bind fun mainLoopGroup =>
    (EventLoopGroup.create (if numOfChildEventLoops = 0 then kDefaultNumbOfChildEventLoops
      else numOfChildEventLoops)).map fun childLoopGroup =>
        { mainLoopGroup, childLoopGroup, user := .looping, acceptor := .unbound, chosen := [] }

/-! ## The thread of the user -/

/-- A step of `loopEach`, and where the thread goes on when it has returned. -/
def stepLoopEach (group : EventLoopGroup Task) : Option (EventLoopGroup Task) :=
  if group.loopEach = .outside then group.step .loopEach else group.step .submit

/-- `mainLoopGroup_.submit`, up to the notification. -/
def submit (s : ServerBootstrap) : Option ServerBootstrap :=
  let (loop, group) := s.mainLoopGroup.next
  let mainLoopGroup := group.wrap
  loop.bind fun w => mainLoopGroup.workers[w]?.bind fun worker =>
    (worker.loop.step (.execute (.other 0) .doBind)).map fun loop =>
      { s with
        mainLoopGroup := mainLoopGroup.setWorker w { worker with loop }
        user := .notifying w }

def stepUser (s : ServerBootstrap) : Option ServerBootstrap :=
  match s.user with
  | .looping =>
    if s.mainLoopGroup.loopEach = .returned then some { s with user := .submitting }
    else (stepLoopEach s.mainLoopGroup).map fun mainLoopGroup => { s with mainLoopGroup }
  | .submitting => s.submit
  | .notifying w =>
    s.mainLoopGroup.workers[w]?.bind fun worker =>
      (worker.loop.step (.finishCall (.other 0))).map fun loop =>
        { s with
          mainLoopGroup := s.mainLoopGroup.setWorker w { worker with loop }
          user := .waiting }
  | .waiting => if s.acceptor = .unbound then none else some { s with user := .bound }
  | .bound => some { s with user := .syncing }
  | .syncing =>
    if s.childLoopGroup.loopEach = .returned then some { s with user := .synced }
    else (stepLoopEach s.childLoopGroup).map fun childLoopGroup => { s with childLoopGroup }
  | .synced => none

/-! ## The thread of the main loop -/

def isExecuting : EventLoop.Phase Task → Bool
  | .executing _ => true
  | _ => false

def isHandling : EventLoop.Phase Task → Bool
  | .handling _ => true
  | _ => false

def mainLoop (s : ServerBootstrap) : Option (EventLoop EventLoopGroup.Thread Task) :=
  s.mainLoopGroup.workers[0]?.map EventLoopGroup.Worker.loop

/-- `doBind`, which the main loop runs as a task, and whether the server channel is registered. An
exception is caught by the task, and the future is ready all the same. -/
def doBind (registered : Bool) (s : ServerBootstrap) : Option ServerBootstrap :=
  if s.acceptor = .unbound ∧ s.mainLoop.any fun loop =>
      isExecuting loop.phase && loop.started.any (·.task = .doBind) then
    some { s with
      mainLoopGroup := s.mainLoopGroup.next.2.wrap
      acceptor := if registered then .listening else .failed }
  else none

/-- A connection is accepted: `childLoopGroup_.next()` up to the increment of `nextLoop_`. -/
def accept (s : ServerBootstrap) : Option ServerBootstrap :=
  if s.acceptor = .listening ∧ s.mainLoop.any fun loop => isHandling loop.phase then
    some { s with
      childLoopGroup := s.childLoopGroup.next.2
      acceptor := .choosing
      chosen := s.chosen ++ [(s.childLoopGroup.nextLoop, s.childLoopGroup.eventLoops.length)] }
  else none

/-- The rest of `next`. -/
def wrap (s : ServerBootstrap) : Option ServerBootstrap :=
  if s.acceptor = .choosing then
    some { s with childLoopGroup := s.childLoopGroup.wrap, acceptor := .listening }
  else none

/-! ## All threads together -/

/-- `worker` and `loop` are steps of the threads of a group. -/
inductive GroupAction where
  | worker (w : ℕ)
  | loop (w : ℕ) (action : EventLoop.Action EventLoopGroup.Thread Task)

def GroupAction.toAction : GroupAction → EventLoopGroup.Action Task
  | .worker w => .worker w
  | .loop w action => .loop w action

inductive Action where
  | user
  | main (action : GroupAction)
  | child (action : GroupAction)
  | doBind (registered : Bool)
  | accept
  | wrap

def step (s : ServerBootstrap) : Action → Option ServerBootstrap
  | .user => s.stepUser
  | .main action =>
    (s.mainLoopGroup.step action.toAction).map fun mainLoopGroup => { s with mainLoopGroup }
  | .child action =>
    (s.childLoopGroup.step action.toAction).map fun childLoopGroup => { s with childLoopGroup }
  | .doBind registered => s.doBind registered
  | .accept => s.accept
  | .wrap => s.wrap

def system : System ServerBootstrap Action where
  initial s := ∃ kDefaultNumbOfChildEventLoops numOfChildEventLoops,
    create kDefaultNumbOfChildEventLoops numOfChildEventLoops = some s
  step := step

end ServerBootstrap

end Nets
