import Nets.Program.SocketChannel

/-! # An accepted connection

`ServerSocketChannel::handleReadEvent` of `net/channel/ServerSocketChannel.cpp` gives the new channel
to a loop that is not its own, and goes on with `SocketChannel::channelActive` on the thread that
accepted it. `Session` has the calls of the channel on the thread of its loop; here are both threads
together. -/

namespace Nets

open Library

/-- Where the accepting thread is in `channelActive`: `EPOLL_CTL_ADD` first, then
`channels_[channel->fd()] = channel`, the store to `state_` and `fireSocketChannelConnect`. While
`channelConnect` runs, `closing` counts the calls of `channelDisconnect` that run inside it. -/
inductive ChannelActive where
  | registering
  | recording
  | activating
  | firing
  | delivering (closing : ℕ)
  | delivered
  | failed
  deriving DecidableEq, Repr

/-- The bits of `readyEvents_`. -/
inductive ReadyEvent where
  | error
  | read
  | write
  deriving DecidableEq, Repr

/-- `readyEvents` is what is left of them in the current `handleEvent`, `posted` the calls of `doWrite`
in the tasks of the loop: the data, and whether there is a callback. -/
structure Connection (α β : Type) where
  session : Session β
  acceptor : ChannelActive
  readyEvents : List ReadyEvent
  posted : List (List α × Bool)

namespace Connection

variable {α β : Type}

/-- `channelActive` has executed `addEvent(kReadEvent)`. -/
def accept : Connection α β where
  session := Session.fresh.addEvent kReadEvent
  acceptor := .registering
  readyEvents := []
  posted := []

/-! ## The accepting thread -/

/-- The next step of `channelActive`, up to the call of the application's `channelConnect`. -/
def channelActive (epoll : Bool) (c : Connection α β) : Option (Connection α β) :=
  match c.acceptor with
  | .registering =>
    if epoll then some { c with session := c.session.epollAdd true, acceptor := .recording }
    else some { c with acceptor := .failed }
  | .recording =>
    some { c with session := { c.session with inLoop := true }, acceptor := .activating }
  | .activating => some { c with session := { c.session with state := .active }, acceptor := .firing }
  | .firing => some { c with session := c.session.emit .connect, acceptor := .delivering 0 }
  | .delivering _ | .delivered | .failed => none

/-- What `channelConnect` may call. -/
inductive Call (α : Type) where
  | write (data : List α) (callback : Bool)
  | shutdown
  | shutdownRead
  | shutdownWrite

/-- `write` is not in the thread of the loop and leaves the rest to a task; the others run where they
are called. -/
def call (call : Call α) (closing : ℕ) (c : Connection α β) : Connection α β :=
  match call with
  | .write data callback => { c with posted := c.posted ++ [(data, callback)] }
  | .shutdown =>
    { c with
      session := { c.session.shutdownHow .rdwr with state := .inactive }.emit .disconnect
      acceptor := .delivering (closing + 1) }
  | .shutdownRead => { c with session := c.session.shutdownRead }
  | .shutdownWrite => { c with session := c.session.shutdownWrite }

/-- The return of `channelConnect`, or of a `channelDisconnect` inside it, which is followed by
`addTask(deregister)`. -/
def handlerReturns (closing : ℕ) (c : Connection α β) : Connection α β :=
  match closing with
  | 0 => { c with acceptor := .delivered }
  | closing + 1 => { c with session := c.session.addTask .deregister, acceptor := .delivering closing }

/-! ## The thread of the loop -/

/-- `prepareChannelReadyEvents` and `handleEvent`: an error counts only where there is something to
read, and goes first. `EPOLLIN` and `EPOLLOUT` are reported where they were asked for. -/
def readyEventsOf (events : ℕ) (input error output : Bool) : List ReadyEvent :=
  let input := input && decide (events &&& kReadEvent ≠ 0)
  let output := output && decide (events &&& kWriteEvent ≠ 0)
  (if input && error then [.error] else []) ++ (if input then [.read] else []) ++
    (if output then [.write] else [])

/-- The loop is not in a handler or a task of the channel. -/
def isBetween (c : Connection α β) : Bool := c.session.stack.isEmpty && c.readyEvents.isEmpty

def poll (input error output : Bool) (c : Connection α β) : Option (Connection α β) :=
  if c.isBetween then
    c.session.interest.map fun events =>
      { c with readyEvents := readyEventsOf events input error output }
  else none

/-- The answers of the kernel in a handler of the channel. -/
structure Answers (β : Type) where
  reads : List (ReadAnswer β)
  writes : List Answer
  epoll : Bool

section

variable [Inhabited β] (label : ℕ → List α → List β)

/-- A call on the thread of the loop, and what is left of the calls around it. -/
def perform (action : Session.Action α β) (c : Connection α β) : Option (Connection α β) :=
  ((c.session.act label action).bind Session.resume).map fun session => { c with session }

/-- The next handler of `handleEvent`, up to the call of the application. -/
def handleEvent (answers : Answers β) (c : Connection α β) : Option (Connection α β) :=
  match c.readyEvents with
  | [] => none
  | .error :: readyEvents => { c with readyEvents }.perform label .handleErrorEvent
  | .read :: readyEvents =>
    { c with readyEvents }.perform label (.handleReadEvent answers.reads answers.epoll)
  | .write :: readyEvents =>
    { c with readyEvents }.perform label (.handleWriteEvent answers.writes answers.epoll)

/-- The oldest task that calls `doWrite`. -/
def runPosted (answer : Answer) (before : β) (epoll : Bool) (c : Connection α β) :
    Option (Connection α β) :=
  if c.isBetween then
    match c.posted with
    | [] => none
    | (data, callback) :: posted =>
      { c with posted }.perform label (.write data callback answer before epoll)
  else none

end

/-! ## Both threads together -/

/-- The calls of the application in a handler on the thread of the loop. -/
def isOfHandler : Session.Action α β → Bool
  | .write .. | .shutdown | .shutdownRead | .shutdownWrite | .handlerReturns => true
  | .handleReadEvent .. | .handleWriteEvent .. | .handleErrorEvent | .runTask _ => false

inductive Action (α β : Type) where
  | channelActive (epoll : Bool)
  | call (call : Call α)
  | handlerReturns
  | poll (input error output : Bool)
  | handleEvent (answers : Answers β)
  | inHandler (action : Session.Action α β)
  | runTask (epoll : Bool)
  | runPosted (answer : Answer) (before : β) (epoll : Bool)

section

variable [Inhabited β] (label : ℕ → List α → List β)

def step (c : Connection α β) : Action α β → Option (Connection α β)
  | .channelActive epoll => c.channelActive epoll
  | .call call =>
    match c.acceptor with
    | .delivering closing => some (c.call call closing)
    | _ => none
  | .handlerReturns =>
    match c.acceptor with
    | .delivering closing => some (c.handlerReturns closing)
    | _ => none
  | .poll input error output => c.poll input error output
  | .handleEvent answers => if c.session.stack.isEmpty then c.handleEvent label answers else none
  | .inHandler action =>
    if c.session.stack.isEmpty then none
    else if isOfHandler action then c.perform label action
    else none
  | .runTask epoll => if c.isBetween then c.perform label (.runTask epoll) else none
  | .runPosted answer before epoll => c.runPosted label answer before epoll

def system : System (Connection α β) (Action α β) where
  initial c := c = accept
  step := step label

end

end Connection

end Nets
