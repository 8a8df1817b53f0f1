import Nets.Program.EpollPoller
import Nets.Program.ServerSocketChannel

/-! # The channels of a loop

`EventLoop::run` of `net/core/EventLoop.cpp` with all the channels of the loop, and
`net/channel/ConnectorChannel.cpp`. A channel goes by a number, which stands for its address;
`channels_` and the interest list go by descriptor. `Session` has the calls of one socket channel and
is given here what the loop and the poller hold of it. A step is again the code between two places
where the application is given control, and the application may call at any time: in handlers, tasks
and timers. Assertions are compiled out, and an exception that leaves the loop ends the run. A connection
that another loop accepts for this one is left out: `Connection` has one with the threads of both loops. -/

namespace Nets

open Library

def kInvalidFd : FdType := -1

def EADDRINUSE : ℕ := 98
def EADDRNOTAVAIL : ℕ := 99
def ENETUNREACH : ℕ := 101
def EISCONN : ℕ := 106
def ETIMEDOUT : ℕ := 110
def ECONNREFUSED : ℕ := 111
def EINPROGRESS : ℕ := 115

inductive ConnectionState where
  | connected
  | connecting
  | disconnected
  deriving DecidableEq, Repr

/-- `scheduled` tells that a timer of the loop waits to call `connect` again. -/
structure ConnectorChannel where
  state : ConnectionState
  retry : Bool
  scheduled : Bool
  deriving DecidableEq, Repr

/-- What a socket channel has besides its registration, and what is left of the calls of it. -/
structure Socket (β : Type) where
  writeBuffer : List (ByteBuffer β)
  state : ChannelState
  writeCompleteCallbacks : List (Option ℕ)
  stack : List (Frame β)
  writes : ℕ

inductive ChannelKind (β : Type) where
  | notifyChannel
  | serverSocketChannel
  | datagramChannel
  | connectorChannel (c : ConnectorChannel)
  | socketChannel (s : Socket β)

structure Channel (β : Type) where
  fd : FdType
  kind : ChannelKind β

/-- The tasks the channels give to the loop; those of the application are calls of the application. -/
inductive LoopTask where
  | socketChannel (channel : ℕ) (task : Task)
  | connectorChannel (channel : ℕ)
  deriving DecidableEq, Repr

/-- A socket channel whose initialization callback runs, and the connector it comes from. -/
structure NewChannel where
  connector : Option ℕ
  channel : ℕ
  deriving DecidableEq, Repr

/-- An element of `activeChannels_` with what is left of its `readyEvents_`. -/
structure ReadyChannel where
  channel : ℕ
  readyEvents : List ReadyEvent
  deriving DecidableEq, Repr

/-- Where `run` is: in `timerManager_.update()`, in `runPendingTasks` with the tasks still to run, or
in the loop over `activeChannels_`. -/
inductive RunPhase where
  | update
  | runPendingTasks (tmpTasks : List LoopTask)
  | dispatch (current : Option ReadyChannel) (activeChannels : List ReadyChannel)
  deriving DecidableEq, Repr

/-- `objects` are the channels that exist; the next one gets the number `count`. The innermost
initialization callback comes first. -/
structure Dispatch (β : Type) where
  registry : Registry ℕ
  objects : ℕ → Option (Channel β)
  count : ℕ
  pendingTasks : List LoopTask
  initializing : List NewChannel
  phase : RunPhase

namespace Dispatch

variable {α β : Type}

def fd (d : Dispatch β) (i : ℕ) : FdType := (d.objects i).elim kInvalidFd Channel.fd

/-- `channels_` holds the channel under its descriptor. -/
def Owns (d : Dispatch β) (i : ℕ) : Prop := d.registry.channels (d.fd i) = some i

instance (d : Dispatch β) (i : ℕ) : Decidable (d.Owns i) :=
  inferInstanceAs (Decidable (_ = some i))

/-! ## Channels and descriptors -/

/-- The kernel gives out a descriptor that no channel has. -/
def isFree (fd : FdType) (d : Dispatch β) : Bool :=
  decide (0 ≤ fd) && (List.range d.count).all fun i => decide (d.fd i ≠ fd)

def put (i : ℕ) (fd : FdType) (kind : ChannelKind β) (d : Dispatch β) : Dispatch β :=
  { d with objects := Function.update d.objects i (some ⟨fd, kind⟩) }

/-- A channel as constructed. -/
def create (fd : FdType) (kind : ChannelKind β) (d : Dispatch β) : Dispatch β :=
  { d.put d.count fd kind with
    registry := (d.registry.setEvents kNoneEvent d.count).setRegistered false d.count
    count := d.count + 1 }

/-- Closing a descriptor takes it out of the interest list. -/
def closeFd (fd : FdType) (d : Dispatch β) : Dispatch β :=
  { d with
    registry := { d.registry with interest := Function.update d.registry.interest fd none } }

def addTask (task : LoopTask) (d : Dispatch β) : Dispatch β :=
  { d with pendingTasks := d.pendingTasks ++ [task] }

/-! ## Registration -/

def addEvent (event : ℕ) (i : ℕ) (d : Dispatch β) : Dispatch β :=
  { d with registry := d.registry.addEvent event i }

def registerTo (i : ℕ) (epoll : Bool) (d : Dispatch β) : Bool × Dispatch β :=
  ((d.registry.registerChannel d.fd i epoll).1,
    { d with registry := (d.registry.registerChannel d.fd i epoll).2 })

/-- The kernel carries out every valid `EPOLL_CTL_DEL`. -/
def deregister (i : ℕ) (d : Dispatch β) : Dispatch β :=
  { d with registry := d.registry.deregisterChannel d.fd i true }

/-- What follows a `registerTo` that failed. -/
def deregisterIfRegistered (i : ℕ) (d : Dispatch β) : Dispatch β :=
  if d.registry.isRegistered i then d.deregister i else d

/-! ## Calls of a socket channel -/

/-- `events_` with the given bits. -/
def eventsOf (events : EpollEvents) : ℕ :=
  (if events.epollIn then kReadEvent else kNoneEvent) |||
    (if events.epollOut then kWriteEvent else kNoneEvent)

/-- The events the interest list has for a descriptor. -/
def interestOf (fd : FdType) (d : Dispatch β) : Option ℕ :=
  (d.registry.interest fd).map fun entry => eventsOf entry.2

/-- The channel with what the loop and the poller hold of it. -/
def session (i : ℕ) (fd : FdType) (s : Socket β) (d : Dispatch β) : Session β where
  writeBuffer := s.writeBuffer
  state := s.state
  writeCompleteCallbacks := s.writeCompleteCallbacks
  events := d.registry.events i
  isRegistered := d.registry.isRegistered i
  inLoop := (d.registry.channels fd).isSome
  interest := d.interestOf fd
  pendingTasks := []
  stack := s.stack
  writes := s.writes
  log := []
  failedAssertions := []

def socket (u : Session β) : Socket β where
  writeBuffer := u.writeBuffer
  state := u.state
  writeCompleteCallbacks := u.writeCompleteCallbacks
  stack := u.stack
  writes := u.writes

/-- What a call has changed. It leaves `channels_` alone, and an entry of the interest list that it
has written is an entry of this channel. -/
def store (i : ℕ) (fd : FdType) (u : Session β) (d : Dispatch β) : Dispatch β :=
  { d.put i fd (.socketChannel (socket u)) with
    registry := {
      events := Function.update d.registry.events i u.events
      isRegistered := Function.update d.registry.isRegistered i u.isRegistered
      channels := d.registry.channels
      interest :=
        if u.interest = d.interestOf fd then d.registry.interest
        else Function.update d.registry.interest fd
          (u.interest.map fun events => (i, epollEvents events)) }
    pendingTasks := d.pendingTasks ++ u.pendingTasks.map (.socketChannel i) }

section

variable [Inhabited β] (label : ℕ → List α → List β)

def perform (i : ℕ) (action : Session.Action α β) (d : Dispatch β) : Option (Dispatch β) :=
  match d.objects i with
  | some ⟨fd, .socketChannel s⟩ =>
    (((d.session i fd s).act label action).bind Session.resume).map fun u => d.store i fd u
  | _ => none

end

/-! ## New socket channels -/

/-- `make_shared<SocketChannel>`, up to the call of the initialization callback. -/
def makeSocketChannel (connector : Option ℕ) (fd : FdType) (d : Dispatch β) : Dispatch β :=
  { d.create fd (.socketChannel ⟨[], .inactive, [], [], 0⟩) with
    initializing := ⟨connector, d.count⟩ :: d.initializing }

/-- The connector hands its descriptor over and leaves the loop. -/
def handOver (i : ℕ) (d : Dispatch β) : Dispatch β :=
  match d.objects i with
  | some ⟨fd, .connectorChannel c⟩ =>
    let connected := d.put i fd (.connectorChannel { c with state := .connected })
    if c.state = .connecting then connected.deregister i else connected
  | _ => d

/-- `SocketChannel::channelActive`, up to the call of the application's `channelConnect`. -/
def channelActive (i : ℕ) (epoll : Bool) (d : Dispatch β) : Dispatch β :=
  match d.objects i with
  | some ⟨fd, .socketChannel s⟩ =>
    match (d.addEvent kReadEvent i).registerTo i epoll with
    | (true, d) =>
      d.put i fd (.socketChannel { s with state := .active, stack := .handler :: s.stack })
    | (false, d) => d.deregisterIfRegistered i
  | _ => d

/-- The initialization callback returns. -/
def initialized (epoll : Bool) (d : Dispatch β) : Option (Dispatch β) :=
  match d.initializing with
  | [] => none
  | ⟨none, i⟩ :: initializing => some ({ d with initializing }.channelActive i epoll)
  | ⟨some c, i⟩ :: initializing =>
    some (({ d with initializing }.handOver c).channelActive i epoll)

/-! ## Connectors -/

def reconnect (i : ℕ) (fd : FdType) (c : ConnectorChannel) (d : Dispatch β) : Dispatch β :=
  (d.put i kInvalidFd (.connectorChannel { c with state := .disconnected, scheduled := true })
    ).closeFd fd

def waitConnect (i : ℕ) (fd : FdType) (c : ConnectorChannel) (epoll : Bool) (d : Dispatch β) :
    Dispatch β :=
  match (d.addEvent kWriteEvent i).registerTo i epoll with
  | (true, d) => d.put i fd (.connectorChannel { c with state := .connecting })
  | (false, d) =>
    let d := d.deregisterIfRegistered i
    if c.retry then d.reconnect i fd c else d

def handleConnectError (i : ℕ) (fd : FdType) (c : ConnectorChannel) (errNum : ℕ) (epoll : Bool)
    (d : Dispatch β) : Dispatch β :=
  if errNum ∈ [EINTR, EISCONN, EINPROGRESS] then d.waitConnect i fd c epoll
  else if errNum ∈ [EAGAIN, ETIMEDOUT, EADDRINUSE, EADDRNOTAVAIL, ECONNREFUSED, ENETUNREACH] then
    d.reconnect i fd c
  else d

/-- The new descriptor, what `::connect` answers (`0`, or `errno`), and whether an `epoll_ctl`
succeeds. -/
structure ConnectAnswer where
  sockFd : FdType
  errNum : ℕ
  epoll : Bool
  deriving DecidableEq, Repr

/-- `ConnectorChannel::connect`. -/
def connectTo (i : ℕ) (c : ConnectorChannel) (answer : ConnectAnswer) (d : Dispatch β) :
    Dispatch β :=
  let d := d.put i answer.sockFd (.connectorChannel c)
  if answer.errNum = 0 then d.makeSocketChannel (some i) answer.sockFd
  else d.handleConnectError i answer.sockFd c answer.errNum answer.epoll

/-- `Bootstrap::doConnect`. -/
def connect (retry : Bool) (answer : ConnectAnswer) (d : Dispatch β) : Option (Dispatch β) :=
  if d.isFree answer.sockFd then
    let c : ConnectorChannel := ⟨.disconnected, retry, false⟩
    some ((d.create kInvalidFd (.connectorChannel c)).connectTo d.count c answer)
  else none

/-- `handleErrorEvent` of a connector. -/
def handleErrorEvent (i : ℕ) (d : Dispatch β) : Dispatch β := d.addTask (.connectorChannel i)

/-- `handleWriteEvent` of a connector. -/
def handleWriteEvent (i : ℕ) (fd : FdType) (c : ConnectorChannel) (errNum : ℕ) (d : Dispatch β) :
    Dispatch β :=
  if c.state ≠ .connecting then d
  else if errNum ≠ 0 then d.handleErrorEvent i
  else d.makeSocketChannel (some i) fd

/-! ## Servers and datagram channels -/

/-- `bind`; when the registration fails an exception tells the application. -/
def bind (datagram : Bool) (sockFd : FdType) (epoll : Bool) (d : Dispatch β) :
    Option (Dispatch β) :=
  if d.isFree sockFd then
    let kind := if datagram then .datagramChannel else .serverSocketChannel
    some (((d.create sockFd kind).addEvent kReadEvent d.count).registerTo d.count epoll).2
  else none

/-- `ServerSocketChannel::handleReadEvent`. Connections accepted for other loops are theirs. -/
def handleReadEvent (accepted : Option FdType) (d : Dispatch β) : Option (Dispatch β) :=
  match accepted with
  | none => some d
  | some connFd => if d.isFree connFd then some (d.makeSocketChannel none connFd) else none

/-! ## The loop -/

/-- No call of a handler or a callback has still to return. -/
def isIdle (d : Dispatch β) : Bool :=
  d.initializing.isEmpty && (List.range d.count).all fun i =>
    match d.objects i with
    | some ⟨_, .socketChannel s⟩ => s.stack.isEmpty
    | _ => true

/-- `runPendingTasks` up to the first task. -/
def runPendingTasks (d : Dispatch β) : Option (Dispatch β) :=
  match d.phase with
  | .update =>
    if d.isIdle then some { d with pendingTasks := [], phase := .runPendingTasks d.pendingTasks }
    else none
  | _ => none

/-- Up to the call of the callback, where the task is one. -/
def performTask (task : LoopTask) (d : Dispatch β) : Option (Dispatch β) :=
  match task with
  | .socketChannel i .deregister => some (d.deregister i)
  | .socketChannel i (.writeComplete _) =>
    match d.objects i with
    | some ⟨fd, .socketChannel s⟩ =>
      some (d.put i fd (.socketChannel { s with stack := .handler :: s.stack }))
    | _ => none
  | .connectorChannel i =>
    match d.objects i with
    | some ⟨fd, .connectorChannel c⟩ =>
      some (if c.retry then (d.deregister i).reconnect i fd c else d.deregister i)
    | _ => none

def runTask (d : Dispatch β) : Option (Dispatch β) :=
  match d.phase with
  | .runPendingTasks (task :: tmpTasks) =>
    if d.isIdle then { d with phase := .runPendingTasks tmpTasks }.performTask task else none
  | _ => none

/-- An element of the answer of `::epoll_wait`. -/
structure Report where
  fd : FdType
  input : Bool
  error : Bool
  output : Bool
  deriving DecidableEq, Repr

/-- `data.ptr` tells the channel. -/
def prepareChannelReadyEvents (reports : List Report) (d : Dispatch β) :
    Option (List ReadyChannel) :=
  reports.mapM fun report => (d.registry.interest report.fd).map fun entry =>
    ⟨entry.1, Connection.readyEventsOf (eventsOf entry.2) report.input report.error report.output⟩

/-- `EpollPoller::poll`; the kernel reports no descriptor twice. -/
def poll (reports : List Report) (d : Dispatch β) : Option (Dispatch β) :=
  match d.phase with
  | .runPendingTasks [] =>
    if d.isIdle ∧ (reports.map Report.fd).Nodup then
      (d.prepareChannelReadyEvents reports).map fun activeChannels =>
        { d with phase := .dispatch none activeChannels }
    else none
  | _ => none

/-- No handler of the current channel has still to be called. -/
def hasHandled (current : Option ReadyChannel) : Bool :=
  current.all fun ready => ready.readyEvents.isEmpty

/-- The call of `handleEvent` on the next element of `activeChannels_`. -/
def handleEvent (d : Dispatch β) : Option (Dispatch β) :=
  match d.phase with
  | .dispatch current (ready :: activeChannels) =>
    if d.isIdle && hasHandled current then
      some { d with phase := .dispatch (some ready) activeChannels }
    else none
  | _ => none

def endBatch (d : Dispatch β) : Option (Dispatch β) :=
  match d.phase with
  | .dispatch current [] =>
    if d.isIdle && hasHandled current then some { d with phase := .update } else none
  | _ => none

/-- The answers of the kernel in a handler: to a socket channel, to a connector that asks for the
error of its socket, and to a server that accepts. -/
structure Kernel (β : Type) where
  answers : Connection.Answers β
  sockError : ℕ
  accepted : Option FdType

section

variable [Inhabited β] (label : ℕ → List α → List β)

/-- The handler of a channel for one of its ready events. -/
def handleReady (i : ℕ) (event : ReadyEvent) (kernel : Kernel β) (d : Dispatch β) :
    Option (Dispatch β) :=
  match d.objects i, event with
  | some ⟨_, .socketChannel _⟩, .error => d.perform label i .handleErrorEvent
  | some ⟨_, .socketChannel _⟩, .read =>
    d.perform label i (.handleReadEvent kernel.answers.reads kernel.answers.epoll)
  | some ⟨_, .socketChannel _⟩, .write =>
    d.perform label i (.handleWriteEvent kernel.answers.writes kernel.answers.epoll)
  | some ⟨_, .connectorChannel _⟩, .error => some (d.handleErrorEvent i)
  | some ⟨_, .connectorChannel _⟩, .read => some d
  | some ⟨fd, .connectorChannel c⟩, .write => some (d.handleWriteEvent i fd c kernel.sockError)
  | some ⟨_, .serverSocketChannel⟩, .error => none
  | some ⟨_, .serverSocketChannel⟩, .read => d.handleReadEvent kernel.accepted
  | some ⟨_, .serverSocketChannel⟩, .write => some d
  | some ⟨_, .datagramChannel⟩, _ | some ⟨_, .notifyChannel⟩, _ => some d
  | none, _ => none

/-- The next handler in the current `handleEvent`. -/
def handle (kernel : Kernel β) (d : Dispatch β) : Option (Dispatch β) :=
  match d.phase with
  | .dispatch (some ⟨i, event :: readyEvents⟩) activeChannels =>
    if d.isIdle then
      { d with phase := .dispatch (some ⟨i, readyEvents⟩) activeChannels
        }.handleReady label i event kernel
    else none
  | _ => none

end

/-! ## Destruction -/

def RunPhase.tmpTasks : RunPhase → List LoopTask
  | .runPendingTasks tmpTasks => tmpTasks
  | .update | .dispatch _ _ => []

/-- The tasks that have not run yet. -/
def tasks (d : Dispatch β) : List LoopTask := RunPhase.tmpTasks d.phase ++ d.pendingTasks

/-- The tasks that hold a `shared_ptr` to the channel. -/
def keeps (i : ℕ) : LoopTask → Bool
  | .socketChannel j .deregister | .connectorChannel j => i = j
  | .socketChannel _ (.writeComplete _) => false

/-- What holds the channel besides `channels_` and the tasks: the loop, a timer, or a call. -/
def isHeld : ChannelKind β → Bool
  | .notifyChannel => true
  | .serverSocketChannel | .datagramChannel => false
  | .connectorChannel c => c.scheduled
  | .socketChannel s => !s.stack.isEmpty

/-- The destructor of a channel that nothing holds any more. A connector that is `CONNECTED` leaves
the descriptor to its socket channel. -/
def destroy (i : ℕ) (d : Dispatch β) : Option (Dispatch β) :=
  match d.objects i with
  | none => none
  | some ⟨fd, kind⟩ =>
    if d.Owns i ∨ isHeld kind ∨ d.tasks.any (keeps i) ∨
        d.initializing.any (fun new => new.connector = some i ∨ new.channel = i) then none
    else
      let d := { d with objects := Function.update d.objects i none }
      match kind with
      | .connectorChannel ⟨.connected, _, _⟩ => some d
      | _ => some (d.closeFd fd)

/-! ## The system -/

/-- `EventLoop::EventLoop`. -/
def start (eventFd : FdType) (epoll : Bool) : Dispatch β :=
  let d : Dispatch β := ⟨Registry.empty, fun _ => none, 0, [], [], .update⟩
  (((d.create eventFd .notifyChannel).addEvent kReadEvent 0).registerTo 0 epoll).2

/-- The timer of a connector. -/
def runTimer (i : ℕ) (answer : ConnectAnswer) (d : Dispatch β) : Option (Dispatch β) :=
  match d.phase, d.objects i with
  | .update, some ⟨_, .connectorChannel c⟩ =>
    if c.scheduled ∧ d.isIdle ∧ d.isFree answer.sockFd then
      some (d.connectTo i { c with scheduled := false } answer)
    else none
  | _, _ => none

/-- What the application does, and what the loop does while no handler or callback runs. -/
inductive Action (α β : Type) where
  | call (channel : ℕ) (action : Session.Action α β)
  | connect (retry : Bool) (answer : ConnectAnswer)
  | bind (datagram : Bool) (sockFd : FdType) (epoll : Bool)
  | initialized (epoll : Bool)
  | runTimer (channel : ℕ) (answer : ConnectAnswer)
  | runPendingTasks
  | runTask
  | poll (reports : List Report)
  | handleEvent
  | handle (kernel : Kernel β)
  | endBatch
  | destroy (channel : ℕ)

section

variable [Inhabited β] (label : ℕ → List α → List β)

def step (d : Dispatch β) : Action α β → Option (Dispatch β)
  | .call i action => if Connection.isOfHandler action then d.perform label i action else none
  | .connect retry answer => d.connect retry answer
  | .bind datagram sockFd epoll => d.bind datagram sockFd epoll
  | .initialized epoll => d.initialized epoll
  | .runTimer i answer => d.runTimer i answer
  | .runPendingTasks => d.runPendingTasks
  | .runTask => d.runTask
  | .poll reports => d.poll reports
  | .handleEvent => d.handleEvent
  | .handle kernel => d.handle label kernel
  | .endBatch => d.endBatch
  | .destroy i => d.destroy i

def system : System (Dispatch β) (Action α β) where
  initial d := ∃ eventFd epoll, 0 ≤ eventFd ∧ d = start eventFd epoll
  step := step label

end

end Dispatch

end Nets
