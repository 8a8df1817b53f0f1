import Nets.Library.System
import Nets.Program.ChannelOption

/-! # What a bootstrap hands on

The settings of `net/bootstrap/AbstractBootstrap.h`, `Bootstrap.cpp` and `ServerBootstrap.cpp`, on their way
through `ServerSocketChannel`, `ConnectorChannel` and `DatagramChannel` to the channels of connections. A
caller waits until `bind` and `connect` have done their work in the main loop. That a loop ends with an
exception is left out: a run may go on. -/

namespace Nets

open Library

/-- In which order each map is gone through. -/
def Iteration := { order : ChannelOptionList → List SockOption // ∀ m, Traverses (order m) m }

/-- How far the rest of `bind` comes: the socket is there, and in the end the channel is registered. -/
structure Binding where
  created : Bool
  registered : Bool
  deriving DecidableEq, Repr

/-- The channel of a connection. With an exception it has got no handlers and `called` has no callback. -/
structure Initialized (η χ : Type) where
  configured : Configured
  exception : Option OptionException
  handlers : List η
  called : Option χ

/-- `initSocketChannel` of a `ServerSocketChannel` and of a `ConnectorChannel`. -/
def initSocketChannel {η χ : Type} (host : Host) (it : Iteration) (channelOptions : ChannelOptionList)
    (channelHandlers : List η) (channelInitializationCallback : Option χ) : Initialized η χ :=
  match Configured.client.setChannelOptions host (it.val channelOptions) channelOptions with
  | (configured, some exception) =>
    { configured, exception := some exception, handlers := [], called := none }
  | (configured, none) =>
    { configured, exception := none, handlers := channelHandlers,
      called := channelInitializationCallback }

/-! ## Servers -/

/-- Of a `ServerBootstrap` or of a `ServerSocketChannel`, with handlers of type `η` and callbacks of type
`χ`. -/
structure ServerSettings (η χ : Type) where
  channelOptions : ChannelOptionList
  childOptions : ChannelOptionList
  childHandlers : List η
  childInitializationCallback : Option χ

/-- A `ServerSocketChannel` after `bind`: what it had before, its socket, and the backlog it listens with
if `bind` has returned. -/
structure BoundServer (η χ : Type) where
  settings : ServerSettings η χ
  configured : Configured
  listening : Option Int32

namespace ServerSettings

variable {η χ : Type}

/-- As constructed by `ServerBootstrap`. -/
def create : ServerSettings η χ where
  channelOptions := .none
  childOptions := .none
  childHandlers := []
  childInitializationCallback := none

/-- What is left to `ServerSocketChannel` by `initServerSocketChannel`. An empty map changes nothing. -/
def initServerSocketChannel (it : Iteration) (s : ServerSettings η χ) : ServerSettings η χ :=
  { s with
    channelOptions := ChannelOptionList.server.insertAll (it.val s.channelOptions) s.channelOptions
    childOptions := ChannelOptionList.reuse.insertAll (it.val s.childOptions) s.childOptions }

/-- `ServerSocketChannel::bind`. -/
def bind (host : Host) (it : Iteration) (outcome : Binding) (s : ServerSettings η χ) :
    BoundServer η χ :=
  if outcome.created then
    match Configured.server.setChannelOptions host (it.val s.channelOptions) s.channelOptions with
    | (configured, some _) => { settings := s, configured, listening := none }
    | (configured, none) =>
      { settings := s
        configured
        listening :=
          if outcome.registered then configured.backlog.map Configured.listenBacklog else none }
  else { settings := s, configured := .server, listening := none }

end ServerSettings

/-- A `ServerBootstrap`, the channels it has made, and the connections they accepted. -/
structure ConfiguredServer (η χ : Type) where
  settings : ServerSettings η χ
  servers : List (BoundServer η χ)
  accepted : List (ℕ × Initialized η χ)

namespace ConfiguredServer

variable {η χ : Type}

def create : ConfiguredServer η χ where
  settings := .create
  servers := []
  accepted := []

/-- `none` is a null pointer. `made` is false where the constructor of `ServerSocketChannel` throws. -/
inductive Action (η χ : Type) where
  | option (sockOption : SockOption) (value : ChannelOption.ValueType)
  | childOption (sockOption : SockOption) (value : ChannelOption.ValueType)
  | childHandler (childHandler : Option η)
  | childInitializationCallback (callback : Option χ)
  | bind (made : Bool) (it : Iteration) (outcome : Binding)
  | accept (i : ℕ) (it : Iteration)

/-- The calls that only change the settings. A null pointer throws. -/
def set (s : ServerSettings η χ) : Action η χ → ServerSettings η χ
  | .option sockOption value =>
    { s with channelOptions := s.channelOptions.insertOrAssign sockOption value }
  | .childOption sockOption value =>
    { s with childOptions := s.childOptions.insertOrAssign sockOption value }
  | .childHandler (some childHandler) => { s with childHandlers := s.childHandlers ++ [childHandler] }
  | .childInitializationCallback (some callback) =>
    { s with childInitializationCallback := some callback }
  | _ => s

/-- `doBind`. -/
def doBind (host : Host) (it : Iteration) (outcome : Binding) (s : ConfiguredServer η χ) :
    ConfiguredServer η χ :=
  { s with
    settings := .create
    servers := s.servers ++ [(s.settings.initServerSocketChannel it).bind host it outcome] }

/-- `handleReadEvent` of the `i`-th channel with a connection. -/
def accept (host : Host) (i : ℕ) (it : Iteration) (s : ConfiguredServer η χ) :
    Option (ConfiguredServer η χ) :=
  s.servers[i]?.bind fun server =>
    if server.listening.isSome then
      let settings := server.settings
      some { s with accepted := s.accepted ++ [(i, initSocketChannel host it settings.childOptions
        settings.childHandlers settings.childInitializationCallback)] }
    else none

def step (host : Host) (s : ConfiguredServer η χ) : Action η χ → Option (ConfiguredServer η χ)
  | .bind true it outcome => some (s.doBind host it outcome)
  | .accept i it => s.accept host i it
  | action => some { s with settings := set s.settings action }

def system (η χ : Type) (host : Host) : System (ConfiguredServer η χ) (Action η χ) where
  initial s := s = create
  step := step host

end ConfiguredServer

/-! ## Clients -/

/-- Of a `Bootstrap`. -/
structure ClientSettings (η ω χ ψ : Type) where
  retry : Bool
  retryInterval : ℤ
  channelOptions : ChannelOptionList
  socketChannelHandlers : List η
  datagramChannelHandlers : List ω
  socketChannelInitializationCallback : Option χ
  datagramChannelInitializationCallback : Option ψ

/-- A `ConnectorChannel` with what `initConnectorChannel` gave it, and the channel `newSocketChannel` made
with that. -/
structure ConfiguredConnector (η χ : Type) where
  retry : Bool
  retryInterval : ℤ
  channelOptions : ChannelOptionList
  channelHandlers : List η
  channelInitializationCallback : Option χ
  made : Option (Initialized η χ)

/-- A `DatagramChannel` after `bind`, with what `initDatagramChannel` gave it. `called` is the callback
that was called, and `initialized` says whether it returned. -/
structure BoundDatagram (ω ψ : Type) where
  channelOptions : ChannelOptionList
  handlers : List ω
  called : Option ψ
  initialized : Bool
  configured : Configured
  active : Bool

namespace ClientSettings

variable {η ω χ ψ : Type}

def create : ClientSettings η ω χ ψ where
  retry := false
  retryInterval := 0
  channelOptions := .none
  socketChannelHandlers := []
  datagramChannelHandlers := []
  socketChannelInitializationCallback := none
  datagramChannelInitializationCallback := none

def initConnectorChannel (s : ClientSettings η ω χ ψ) :
    ConfiguredConnector η χ × ClientSettings η ω χ ψ :=
  ({ retry := s.retry
     retryInterval := s.retryInterval
     channelOptions := s.channelOptions
     channelHandlers := s.socketChannelHandlers
     channelInitializationCallback := s.socketChannelInitializationCallback
     made := none },
    { s with
      channelOptions := .none
      socketChannelHandlers := []
      socketChannelInitializationCallback := none })

/-- `initDatagramChannel` and `DatagramChannel::bind`. A callback that throws ends both, and is not
cleared. -/
def bindDatagram (host : Host) (it : Iteration) (returns : Bool) (outcome : Binding)
    (s : ClientSettings η ω χ ψ) : BoundDatagram ω ψ × ClientSettings η ω χ ψ :=
  let options := ChannelOptionList.reuse.insertAll (it.val s.channelOptions) s.channelOptions
  let (configured, exception) :=
    if returns && outcome.created then
      Configured.client.setChannelOptions host (it.val options) options
    else (.client, none)
  ({ channelOptions := s.channelOptions
     handlers := s.datagramChannelHandlers
     called := s.datagramChannelInitializationCallback
     initialized := returns
     configured
     active := returns && outcome.created && exception.isNone && outcome.registered },
    { s with
      channelOptions := .none
      datagramChannelHandlers := []
      datagramChannelInitializationCallback :=
        if returns then none else s.datagramChannelInitializationCallback })

end ClientSettings

/-- A `Bootstrap` and the channels it has made, in the order of the calls. -/
structure ConfiguredClient (η ω χ ψ : Type) where
  settings : ClientSettings η ω χ ψ
  channels : List (ConfiguredConnector η χ ⊕ BoundDatagram ω ψ)

namespace ConfiguredClient

variable {η ω χ ψ : Type}

def create : ConfiguredClient η ω χ ψ where
  settings := .create
  channels := []

/-- `returns` is false where the callback throws that the `bind` calls. -/
inductive Action (η ω χ ψ : Type) where
  | option (sockOption : SockOption) (value : ChannelOption.ValueType)
  | socketChannelHandler (channelHandler : Option η)
  | datagramChannelHandler (channelHandler : Option ω)
  | socketChannelInitializationCallback (callback : Option χ)
  | datagramChannelInitializationCallback (callback : Option ψ)
  | retry (retry : Bool) (interval : ℤ)
  | connect
  | bind (it : Iteration) (returns : Bool) (outcome : Binding)
  | newSocketChannel (i : ℕ) (it : Iteration)

def set (s : ClientSettings η ω χ ψ) : Action η ω χ ψ → ClientSettings η ω χ ψ
  | .option sockOption value =>
    { s with channelOptions := s.channelOptions.insertOrAssign sockOption value }
  | .socketChannelHandler (some channelHandler) =>
    { s with socketChannelHandlers := s.socketChannelHandlers ++ [channelHandler] }
  | .datagramChannelHandler (some channelHandler) =>
    { s with datagramChannelHandlers := s.datagramChannelHandlers ++ [channelHandler] }
  | .socketChannelInitializationCallback (some callback) =>
    { s with socketChannelInitializationCallback := some callback }
  | .datagramChannelInitializationCallback (some callback) =>
    { s with datagramChannelInitializationCallback := some callback }
  | .retry retry interval => { s with retry, retryInterval := interval }
  | _ => s

def doConnect (s : ConfiguredClient η ω χ ψ) : ConfiguredClient η ω χ ψ where
  settings := s.settings.initConnectorChannel.2
  channels := s.channels ++ [.inl s.settings.initConnectorChannel.1]

def doBind (host : Host) (it : Iteration) (returns : Bool) (outcome : Binding)
    (s : ConfiguredClient η ω χ ψ) : ConfiguredClient η ω χ ψ where
  settings := (s.settings.bindDatagram host it returns outcome).2
  channels := s.channels ++ [.inr (s.settings.bindDatagram host it returns outcome).1]

/-- The `i`-th channel is a connector that has not come to a connection yet. -/
def newSocketChannel (host : Host) (i : ℕ) (it : Iteration) (s : ConfiguredClient η ω χ ψ) :
    Option (ConfiguredClient η ω χ ψ) :=
  match s.channels[i]? with
  | some (.inl connector) =>
    if connector.made.isNone then
      let socketChannel := initSocketChannel host it connector.channelOptions
        connector.channelHandlers connector.channelInitializationCallback
      some { s with channels := s.channels.set i (.inl { connector with made := some socketChannel }) }
    else none
  | _ => none

def step (host : Host) (s : ConfiguredClient η ω χ ψ) :
    Action η ω χ ψ → Option (ConfiguredClient η ω χ ψ)
  | .connect => some s.doConnect
  | .bind it returns outcome =>
    if returns || s.settings.datagramChannelInitializationCallback.isSome then
      some (s.doBind host it returns outcome)
    else none
  | .newSocketChannel i it => s.newSocketChannel host i it
  | action => some { s with settings := set s.settings action }

def system (η ω χ ψ : Type) (host : Host) :
    System (ConfiguredClient η ω χ ψ) (Action η ω χ ψ) where
  initial s := s = create
  step := step host

end ConfiguredClient

end Nets
