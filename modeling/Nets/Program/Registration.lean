import Nets.Program.ConnectorChannel

/-! # Registration with assertions

`registerChannel` and `deregisterChannel` of `net/core/EventLoop.cpp`, and their callers
`SocketChannel::channelActive` and `ConnectorChannel::waitConnect`, where an assertion that fails ends
the program. -/

namespace Nets.Registry

variable {χ σ : Type} [DecidableEq χ] (fd : χ → FdType)

/-- What the assertions say of `channels_`: that the descriptor is not in it, or that it is. -/
inductive Assertion where
  | isAbsent
  | isPresent
  deriving DecidableEq, Repr

def registerChannelAsserting (channel : χ) (epoll : Bool) (r : Registry χ) :
    Except Assertion (Bool × Registry χ) :=
  if (r.channels (fd channel)).isSome then .error .isAbsent
  else
    match EpollPoller.registerChannel fd channel epoll r with
    | (true, r) =>
      .ok (true, { r with channels := Function.update r.channels (fd channel) (some channel) })
    | (false, r) => if (r.channels (fd channel)).isNone then .error .isPresent else .ok (false, r)

def deregisterChannelAsserting (channel : χ) (epoll : Bool) (r : Registry χ) :
    Except Assertion (Registry χ) :=
  if (r.channels (fd channel)).isNone then .error .isPresent
  else
    let r := r.deregisterChannel fd channel epoll
    if (r.channels (fd channel)).isSome then .error .isAbsent else .ok r

/-- The `try` and the `catch` of both callers: `state_` becomes `registered` unless
`ChannelRegisterException` is thrown. -/
def activate (event : ℕ) (registered : σ) (channel : χ) (epoll : Bool) (state : σ)
    (r : Registry χ) : Except Assertion (σ × Registry χ) :=
  match registerChannelAsserting fd channel epoll (r.addEvent event channel) with
  | .error assertion => .error assertion
  | .ok (true, r) => .ok (registered, r)
  | .ok (false, r) =>
    if r.isRegistered channel then
      (deregisterChannelAsserting fd channel true r).map fun r => (state, r)
    else .ok (state, r)

/-- `SocketChannel::channelActive`. -/
def channelActive (channel : χ) (epoll : Bool) (state : ChannelState) (r : Registry χ) :
    Except Assertion (ChannelState × Registry χ) :=
  activate fd kReadEvent .active channel epoll state r

/-- `ConnectorChannel::waitConnect`, without the `reconnect` at its end. -/
def waitConnect (channel : χ) (epoll : Bool) (state : ConnectionState) (r : Registry χ) :
    Except Assertion (ConnectionState × Registry χ) :=
  activate fd kWriteEvent .connecting channel epoll state r

end Nets.Registry
