import Mathlib.Data.Int.Notation
import Mathlib.Logic.Function.Basic
import Nets.Program.SocketChannel

/-! # The poller

`net/poller/EpollPoller.cpp`, `EventLoop::registerChannel`, `modifyChannel` and
`deregisterChannel` of `net/core/EventLoop.cpp`, and what they use of `net/channel/Channel.cpp`,
for any number of channels. `fd` gives the descriptor of a channel. -/

namespace Nets

open Library

abbrev FdType := ℤ

/-- The `events` of an `epoll_event`: `EPOLLIN` and `EPOLLOUT`. -/
structure EpollEvents where
  epollIn : Bool
  epollOut : Bool
  deriving DecidableEq, Repr

/-- The second argument of `::epoll_ctl`. -/
inductive EpollOpt where
  | add
  | mod
  | del
  deriving DecidableEq, Repr

def epollEvents (events : ℕ) : EpollEvents where
  epollIn := events &&& kReadEvent ≠ 0
  epollOut := events &&& kWriteEvent ≠ 0

/-- `events_` and `isRegistered_` of the channels, `channels_` of their loop, and the interest list
of the kernel with `data.ptr` and the events of each descriptor. -/
structure Registry (χ : Type) where
  events : χ → ℕ
  isRegistered : χ → Bool
  channels : FdType → Option χ
  interest : FdType → Option (χ × EpollEvents)

namespace Registry

variable {χ : Type}

/-- Channels as constructed, and a loop without any. -/
def empty : Registry χ where
  events _ := kNoneEvent
  isRegistered _ := false
  channels _ := none
  interest _ := none

variable [DecidableEq χ]

def setEvents (events : ℕ) (channel : χ) (r : Registry χ) : Registry χ :=
  { r with events := Function.update r.events channel events }

def addEvent (event : ℕ) (channel : χ) (r : Registry χ) : Registry χ :=
  r.setEvents (r.events channel ||| event) channel

def setRegistered (registered : Bool) (channel : χ) (r : Registry χ) : Registry χ :=
  { r with isRegistered := Function.update r.isRegistered channel registered }

/-- What `::epoll_ctl` makes of the entry of a descriptor, if the request is valid: only a missing
descriptor can be added, only one that is there can be modified or deleted. -/
def epollEntry (opt : EpollOpt) (entry : χ × EpollEvents) (old : Option (χ × EpollEvents)) :
    Option (Option (χ × EpollEvents)) :=
  match opt, old with
  | .add, none => some (some entry)
  | .mod, some _ => some (some entry)
  | .del, some _ => some none
  | _, _ => none

end Registry

namespace EpollPoller

variable {χ : Type} [DecidableEq χ] (fd : χ → FdType)

/-- `epoll` tells whether the kernel carries out a valid request. -/
def epollCtl (opt : EpollOpt) (channel : χ) (epoll : Bool) (r : Registry χ) : Bool × Registry χ :=
  let entry := (channel, epollEvents (r.events channel))
  match Registry.epollEntry opt entry (r.interest (fd channel)) with
  | none => (false, r)
  | some entry =>
    if epoll then (true, { r with interest := Function.update r.interest (fd channel) entry })
    else (false, r)

def deregisterChannel (channel : χ) (epoll : Bool) (r : Registry χ) : Bool × Registry χ :=
  epollCtl fd .del channel epoll (r.setRegistered false channel)

/-- `registerChannel` of a channel that is not registered. -/
def addChannel (channel : χ) (epoll : Bool) (r : Registry χ) : Bool × Registry χ :=
  match epollCtl fd .add channel epoll r with
  | (true, r) => (true, r.setRegistered true channel)
  | (false, r) => (false, r)

/-- `modifyChannel` of a channel that is registered. -/
def modifyRegistered (channel : χ) (epoll : Bool) (r : Registry χ) : Bool × Registry χ :=
  if r.events channel ≠ kNoneEvent then epollCtl fd .mod channel epoll r
  else deregisterChannel fd channel epoll r

-- `registerChannel` and `modifyChannel` call each other, each in the case the other handles itself

def registerChannel (channel : χ) (epoll : Bool) (r : Registry χ) : Bool × Registry χ :=
  if !r.isRegistered channel then addChannel fd channel epoll r
  else modifyRegistered fd channel epoll r

def modifyChannel (channel : χ) (epoll : Bool) (r : Registry χ) : Bool × Registry χ :=
  if r.isRegistered channel then modifyRegistered fd channel epoll r
  else addChannel fd channel epoll r

end EpollPoller

namespace Registry

variable {χ : Type} [DecidableEq χ] (fd : χ → FdType)

def registerChannel (channel : χ) (epoll : Bool) (r : Registry χ) : Bool × Registry χ :=
  match EpollPoller.registerChannel fd channel epoll r with
  | (true, r) => (true, { r with channels := Function.update r.channels (fd channel) (some channel) })
  | (false, r) => (false, r)

def modifyChannel (channel : χ) (epoll : Bool) (r : Registry χ) : Bool × Registry χ :=
  EpollPoller.modifyChannel fd channel epoll r

def deregisterChannel (channel : χ) (epoll : Bool) (r : Registry χ) : Registry χ :=
  let r := (EpollPoller.deregisterChannel fd channel epoll r).2
  { r with channels := Function.update r.channels (fd channel) none }

/-- A call of `registerChannel` or `modifyChannel`: whether it found the channel registered, and
`events_` at that time. -/
structure Request where
  isRegistered : Bool
  events : ℕ
  deriving DecidableEq, Repr

/-- The registry with the last request for each channel. -/
structure History (χ : Type) extends Registry χ where
  lastRequest : χ → Option Request

def request (channel : χ) (s : History χ) : χ → Option Request :=
  Function.update s.lastRequest channel
    (some ⟨s.isRegistered channel, s.events channel⟩)

inductive Action (χ : Type) where
  | setEvents (channel : χ) (events : ℕ)
  | addEvent (channel : χ) (event : ℕ)
  | registerChannel (channel : χ) (epoll : Bool)
  | modifyChannel (channel : χ) (epoll : Bool)
  | deregisterChannel (channel : χ) (epoll : Bool)

def act (s : History χ) : Action χ → History χ
  | .setEvents channel events => ⟨s.setEvents events channel, s.lastRequest⟩
  | .addEvent channel event => ⟨s.addEvent event channel, s.lastRequest⟩
  | .registerChannel channel epoll =>
    ⟨(s.registerChannel fd channel epoll).2, request channel s⟩
  | .modifyChannel channel epoll => ⟨(s.modifyChannel fd channel epoll).2, request channel s⟩
  | .deregisterChannel channel epoll => ⟨s.deregisterChannel fd channel epoll, s.lastRequest⟩

/-- Calls of the channels and of their loop in any order. -/
def system : System (History χ) (Action χ) where
  initial s := s = ⟨empty, fun _ => none⟩
  step s action := some (act fd s action)

/-- Channels are registered outside the loop, and modified and deregistered inside, as the
assertions of the loop have it, and the kernel carries out every valid request. -/
def InOrder (s : History χ) : Action χ → Prop
  | .setEvents _ _ | .addEvent _ _ => True
  | .registerChannel channel epoll => s.channels (fd channel) ≠ some channel ∧ epoll = true
  | .modifyChannel channel epoll | .deregisterChannel channel epoll =>
    s.channels (fd channel) = some channel ∧ epoll = true

instance (s : History χ) : ∀ action, Decidable (InOrder fd s action)
  | .setEvents _ _ | .addEvent _ _ => inferInstanceAs (Decidable True)
  | .registerChannel _ _ => inferInstanceAs (Decidable (_ ∧ _))
  | .modifyChannel _ _ | .deregisterChannel _ _ => inferInstanceAs (Decidable (_ ∧ _))

end Registry

end Nets
