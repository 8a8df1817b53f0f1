import Nets.Program.Dispatch

/-! # A connector

`net/channel/ConnectorChannel.cpp`, with what `EventLoop::run` and `Bootstrap::doConnect` do with one
connector and with the socket channel it makes. A descriptor goes by the number of the call of
`createTcpSocket` that returned it, as the kernel gives out its own numbers again. A step is the code
between two places where the loop or the application has control; the application has it while the
initialization callback runs. Assertions are noted when they fail, and do not stop the program. -/

namespace Nets

open Library

namespace Connector

/-- The task of `handleErrorEvent`, with and without `retry_`. -/
inductive ErrorTask where
  | reconnect
  | deregister
  deriving DecidableEq, Repr

inductive Assertion where
  | connect
  | newSocketChannel
  | reconnect
  | handleErrorEvent
  | registered
  | deregistered
  | lastReference
  deriving DecidableEq, Repr

/-- What happens to descriptors. `connecting` is the call of `connect`, with `state_` and `sockFd_` at
that time; `initializationThrew` tells that an exception has left `initSocketChannel`. -/
inductive Event where
  | connecting (state : ConnectionState) (sockFd : FdType)
  | opened (fd : FdType)
  | used (fd : FdType)
  | closed (fd : FdType)
  | newSocketChannel (fd : FdType)
  | initializationThrew (fd : FdType)
  deriving DecidableEq, Repr

/-- Where an exception goes that `connect` or `handleWriteEvent` does not catch: `EventLoop::submit`
catches those of `doConnect`, and `EventLoop::run` none. -/
inductive Caller where
  | doConnect
  | timer
  | handleEvent
  deriving DecidableEq, Repr

/-- Where `EventLoop::run` is, with the tasks of the connector still to run or its ready events still
to be handled. -/
inductive Phase where
  | update
  | runPendingTasks (tmpTasks : List ErrorTask)
  | dispatch (readyEvents : List ReadyEvent)
  | exited
  deriving DecidableEq, Repr

end Connector

/-- The registry is that of the connector alone. `timers` counts the timers of the loop that wait to
call `connect`, `socketChannels` are the descriptors of the socket channels that exist, and `sockets`
is the number of calls of `createTcpSocket`. -/
structure Connector where
  sockFd : FdType
  state : ConnectionState
  retry : Bool
  registry : Registry Unit
  pendingTasks : List Connector.ErrorTask
  timers : ℕ
  initializing : Option Connector.Caller
  socketChannels : List FdType
  isDestroyed : Bool
  phase : Connector.Phase
  sockets : ℕ
  log : List Connector.Event
  failedAssertions : List Connector.Assertion

namespace Connector

def construct (retry : Bool) (phase : Phase) : Connector where
  sockFd := kInvalidFd
  state := .disconnected
  retry := retry
  registry := Registry.empty
  pendingTasks := []
  timers := 0
  initializing := none
  socketChannels := []
  isDestroyed := false
  phase := phase
  sockets := 0
  log := []
  failedAssertions := []

def Phase.tmpTasks : Phase → List ErrorTask
  | .runPendingTasks tmpTasks => tmpTasks
  | .update | .dispatch _ | .exited => []

/-- The tasks that have not run yet. -/
def tasks (c : Connector) : List ErrorTask := c.phase.tmpTasks ++ c.pendingTasks

def assertThat (assertion : Assertion) (holds : Bool) (c : Connector) : Connector :=
  if holds then c else { c with failedAssertions := c.failedAssertions ++ [assertion] }

def note (event : Connector.Event) (c : Connector) : Connector := { c with log := c.log ++ [event] }

/-- An exception leaves a call. -/
def escape (caller : Caller) (c : Connector) : Connector :=
  match caller with
  | .doConnect => c
  | .timer | .handleEvent => { c with phase := .exited }

/-- Closing a descriptor takes it out of the interest list. -/
def closeFd (fd : FdType) (c : Connector) : Connector :=
  if 0 ≤ fd then
    { c.note (.closed fd) with
      registry := { c.registry with interest := Function.update c.registry.interest fd none } }
  else c

/-! ## Registration -/

def addEvent (event : ℕ) (c : Connector) : Connector :=
  { c with registry := c.registry.addEvent event () }

def registerTo (epoll : Bool) (c : Connector) : Bool × Connector :=
  ((c.registry.registerChannel (fun _ => c.sockFd) () epoll).1,
    { c.note (.used c.sockFd) with
      registry := (c.registry.registerChannel (fun _ => c.sockFd) () epoll).2 })

/-- The kernel carries out every valid `EPOLL_CTL_DEL`. -/
def deregister (c : Connector) : Connector :=
  { c.note (.used c.sockFd) with
    registry := c.registry.deregisterChannel (fun _ => c.sockFd) () true }

def isRegistered (c : Connector) : Bool := c.registry.isRegistered ()

/-- `deregister` between its assertions. -/
def deregisterRegistered (c : Connector) : Connector :=
  let c := (c.assertThat .registered c.isRegistered).deregister
  c.assertThat .deregistered (!c.isRegistered)

/-! ## The connector -/

/-- Up to the call of the initialization callback. -/
def newSocketChannel (caller : Caller) (c : Connector) : Connector :=
  let c := (c.assertThat .newSocketChannel (decide (c.state ≠ .connected))).note (.used c.sockFd)
  { c.note (.newSocketChannel c.sockFd) with
    socketChannels := c.sockFd :: c.socketChannels
    initializing := some caller }

def reconnect (c : Connector) : Connector :=
  let c := c.assertThat .reconnect (decide (c.state ≠ .connected))
  let c := { c with state := .disconnected }.closeFd c.sockFd
  { c with sockFd := kInvalidFd, timers := c.timers + 1 }

def waitConnect (epoll : Bool) (c : Connector) : Connector :=
  match (c.addEvent kWriteEvent).registerTo epoll with
  | (true, c) => { c with state := .connecting }
  | (false, c) =>
    let c := if c.isRegistered then c.deregister else c
    if c.retry then c.reconnect else c

/-- The errors on which `epoll` tells the outcome of the connection. -/
def isPending (errNum : ℕ) : Bool := decide (errNum ∈ [EINTR, EISCONN, EINPROGRESS])

/-- The errors after which it connects again. -/
def isRetried (errNum : ℕ) : Bool :=
  decide (errNum ∈ [EAGAIN, ETIMEDOUT, EADDRINUSE, EADDRNOTAVAIL, ECONNREFUSED, ENETUNREACH])

def handleConnectError (errNum : ℕ) (epoll : Bool) (c : Connector) : Connector :=
  if isPending errNum then c.waitConnect epoll
  else if isRetried errNum then c.reconnect
  else c

/-- Whether `::socket` gives a descriptor, what `::connect` answers (`0`, or `errno`), and whether an
`epoll_ctl` succeeds. -/
structure Answer where
  isCreated : Bool
  errNum : ℕ
  epoll : Bool
  deriving DecidableEq, Repr

def createTcpSocket (c : Connector) : Connector :=
  { c.note (.opened c.sockets) with sockFd := c.sockets, sockets := c.sockets + 1 }

def connect (caller : Caller) (answer : Answer) (c : Connector) : Connector :=
  let c := c.note (.connecting c.state c.sockFd)
  if answer.isCreated then
    let c := c.createTcpSocket
    let c := (c.note (.used c.sockFd)).assertThat .connect (decide (c.state = .disconnected))
    if answer.errNum = 0 then c.newSocketChannel caller
    else c.handleConnectError answer.errNum answer.epoll
  else c.escape caller

/-- What becomes of `initSocketChannel`, of the registration of the socket channel, and of its
`channelConnect`. -/
inductive Outcome where
  | initializationThrows
  | isNotRegistered
  | returns
  | channelConnectThrows
  deriving DecidableEq, Repr

/-- The connector leaves its loop before its socket channel enters. -/
def handOver (c : Connector) : Connector :=
  if c.state = .connecting then { c with state := .connected }.deregisterRegistered
  else { c with state := .connected }

/-- `newSocketChannel` from the end of the initialization callback on. -/
def initialized (outcome : Outcome) (c : Connector) : Option Connector :=
  match c.initializing with
  | none => none
  | some caller =>
    let c := { c with initializing := none }
    match outcome with
    | .initializationThrows => some ((c.note (.initializationThrew c.sockFd)).escape caller)
    | .isNotRegistered | .returns => some (c.handOver.note (.used c.sockFd))
    | .channelConnectThrows => some ((c.handOver.note (.used c.sockFd)).escape caller)

def handleErrorEvent (c : Connector) : Connector :=
  let c := c.assertThat .handleErrorEvent (decide (c.state ≠ .connected))
  { c with pendingTasks := c.pendingTasks ++ [if c.retry then .reconnect else .deregister] }

def handleWriteEvent (sockError : ℕ) (c : Connector) : Connector :=
  if c.state ≠ .connecting then c
  else
    let c := c.note (.used c.sockFd)
    if sockError ≠ 0 then c.handleErrorEvent else c.newSocketChannel .handleEvent

/-- Nothing else holds the connector: no other task, no timer. -/
def isLastReference (c : Connector) : Bool := c.tasks.isEmpty && decide (c.timers = 0)

def performTask (task : ErrorTask) (c : Connector) : Connector :=
  let c := c.deregisterRegistered
  let c := c.assertThat .lastReference c.isLastReference
  match task with
  | .reconnect => c.reconnect
  | .deregister => c

/-! ## The loop -/

def runTimer (answer : Answer) (c : Connector) : Option Connector :=
  match c.phase with
  | .update =>
    if 0 < c.timers then some ({ c with timers := c.timers - 1 }.connect .timer answer) else none
  | _ => none

def runPendingTasks (c : Connector) : Option Connector :=
  match c.phase with
  | .update => some { c with pendingTasks := [], phase := .runPendingTasks c.pendingTasks }
  | _ => none

def runTask (c : Connector) : Option Connector :=
  match c.phase with
  | .runPendingTasks (task :: tmpTasks) =>
    some ({ c with phase := .runPendingTasks tmpTasks }.performTask task)
  | _ => none

/-- `poll` finds the connector ready, or not. -/
def poll (report : Option Dispatch.Report) (c : Connector) : Option Connector :=
  match c.phase, report with
  | .runPendingTasks [], none => some { c with phase := .dispatch [] }
  | .runPendingTasks [], some report =>
    (c.registry.interest report.fd).map fun entry =>
      { c with
        phase := .dispatch (Connection.readyEventsOf (Dispatch.eventsOf entry.2) report.input
          report.error report.output) }
  | _, _ => none

/-- The next handler in `handleEvent`; a connector does not handle read events. -/
def handle (sockError : ℕ) (c : Connector) : Option Connector :=
  match c.phase with
  | .dispatch (event :: readyEvents) =>
    let c := { c with phase := .dispatch readyEvents }
    match event with
    | .error => some c.handleErrorEvent
    | .read => some c
    | .write => some (c.handleWriteEvent sockError)
  | _ => none

/-- After a batch `run` goes on, or returns. -/
def endBatch (isRunning : Bool) (c : Connector) : Option Connector :=
  match c.phase with
  | .dispatch [] => some { c with phase := if isRunning then .update else .exited }
  | _ => none

/-! ## Descriptors of socket channels, and destructors -/

def useSocketChannel (fd : FdType) (c : Connector) : Option Connector :=
  if fd ∈ c.socketChannels then some (c.note (.used fd)) else none

/-- `~SocketChannel`. The loop may hold the channel for any time, and `newSocketChannel` holds it while
the callback runs. -/
def destroySocketChannel (fd : FdType) (c : Connector) : Option Connector :=
  if fd ∈ c.socketChannels ∧ c.initializing = none then
    some ({ c with socketChannels := c.socketChannels.erase fd }.closeFd fd)
  else none

/-- Nothing holds the connector. `~EventLoop` drops what the loop holds. -/
def isReleased (c : Connector) : Bool :=
  decide (c.phase = .exited) || c.isLastReference && (c.registry.channels c.sockFd).isNone

/-- `~ConnectorChannel`. -/
def destroy (c : Connector) : Option Connector :=
  if c.isDestroyed = false ∧ c.initializing = none ∧ c.isReleased = true then
    let c := { c with isDestroyed := true }
    some (if c.state ≠ .connected then c.closeFd c.sockFd else c)
  else none

/-! ## The system -/

inductive Action where
  | initialized (outcome : Outcome)
  | runTimer (answer : Answer)
  | runPendingTasks
  | runTask
  | poll (report : Option Dispatch.Report)
  | handle (sockError : ℕ)
  | endBatch (isRunning : Bool)
  | useSocketChannel (fd : FdType)
  | destroySocketChannel (fd : FdType)
  | destroy
  deriving DecidableEq, Repr

/-- While the initialization callback runs, the loop does nothing else. -/
def step (c : Connector) : Action → Option Connector
  | .initialized outcome => c.initialized outcome
  | .useSocketChannel fd => c.useSocketChannel fd
  | .destroySocketChannel fd => c.destroySocketChannel fd
  | .destroy => c.destroy
  | .runTimer answer => if c.initializing = none then c.runTimer answer else none
  | .runPendingTasks => if c.initializing = none then c.runPendingTasks else none
  | .runTask => if c.initializing = none then c.runTask else none
  | .poll report => if c.initializing = none then c.poll report else none
  | .handle sockError => if c.initializing = none then c.handle sockError else none
  | .endBatch isRunning => if c.initializing = none then c.endBatch isRunning else none

/-- `Bootstrap::doConnect`, which a task, a timer or a handler of the loop may call. -/
def doConnect (retry : Bool) (phase : Phase) (answer : Answer) : Connector :=
  (construct retry phase).connect .doConnect answer

/-- The loop has nothing of the connector. -/
def IsIdle (phase : Phase) : Prop :=
  phase = .update ∨ phase = .runPendingTasks [] ∨ phase = .dispatch []

def system : System Connector Action where
  initial c := ∃ retry phase answer, IsIdle phase ∧ c = doConnect retry phase answer
  step := step

end Connector

end Nets
