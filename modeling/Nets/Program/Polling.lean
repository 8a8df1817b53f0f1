import Mathlib.Logic.Function.Basic
import Nets.Library.RoundRobin
import Nets.Library.System
import Nets.Program.ByteBuffer
import Nets.Program.SocketChannel

/-! # Polling

`EpollPoller::poll` and `prepareChannelReadyEvents` of `net/poller/EpollPoller.cpp` with the array `events_`,
and the loop of `EventLoop::run` over `activeChannels_`. The ready list of the kernel hands its descriptors
out in turn. -/

namespace Nets

open Library

def kErrorEvent : ℕ := 4

def EPOLLIN : ℕ := 0x001
def EPOLLPRI : ℕ := 0x002
def EPOLLOUT : ℕ := 0x004
def EPOLLERR : ℕ := 0x008
def EPOLLHUP : ℕ := 0x010
def EPOLLRDHUP : ℕ := 0x2000

def kEpollEventInitialSize : ℕ := 12

/-- `INT32_MAX`. -/
def kMaxEpollEventSize : ℕ := 2147483647

/-- `data.ptr` is null in an element the kernel has not written. -/
structure EpollEvent (χ : Type) where
  events : ℕ
  ptr : Option χ

/-- The ready list of the kernel: the descriptors of channels that had something to report when they came
into it, in that order, and what there is to report now. -/
structure ReadyList (χ : Type) where
  queue : List χ
  revents : χ → ℕ

namespace ReadyList

variable {χ : Type}

def isReady (k : ReadyList χ) (channel : χ) : Bool := k.revents channel ≠ 0

/-- `::epoll_wait`, without the time it waits: the first `maxevents` channels that are ready go behind the
others; `-1` where there is no room for any. -/
def epollWait (maxevents : ℤ) (k : ReadyList χ) : Option (List (EpollEvent χ)) × ReadyList χ :=
  if maxevents ≤ 0 then (none, k)
  else
    (some ((RoundRobin.served k.isReady maxevents.toNat k.queue).map fun channel =>
        ⟨k.revents channel, some channel⟩),
      { k with queue := RoundRobin.next k.isReady maxevents.toNat k.queue })

end ReadyList

/-- `events_` of the poller, `activeChannels_` of its loop, and `readyEvents_` of the channels. -/
structure Poller (χ : Type) where
  events : List (EpollEvent χ)
  activeChannels : List χ
  readyEvents : χ → ℕ

namespace Poller

variable {χ : Type} [DecidableEq χ]

def setReadyEvents (events : ℕ) (channel : χ) (p : Poller χ) : Poller χ :=
  { p with readyEvents := Function.update p.readyEvents channel events }

def addReadyEvent (event : ℕ) (channel : χ) (p : Poller χ) : Poller χ :=
  p.setReadyEvents (p.readyEvents channel ||| event) channel

/-- The body of the loop of `prepareChannelReadyEvents`. No result is an access through a null pointer. -/
def prepareReadyEvent (event : EpollEvent χ) (p : Poller χ) : Option (Poller χ) :=
  event.ptr.map fun channel =>
    let revents := event.events
    let p := { p with activeChannels := p.activeChannels ++ [channel] }
    let p := p.setReadyEvents kNoneEvent channel
    let p := if revents &&& EPOLLIN ≠ 0 ∧ revents &&& (EPOLLERR ||| EPOLLHUP) ≠ 0 then
      p.addReadyEvent kErrorEvent channel else p
    let p := if revents &&& (EPOLLIN ||| EPOLLPRI ||| EPOLLRDHUP) ≠ 0 then
      p.addReadyEvent kReadEvent channel else p
    if revents &&& EPOLLOUT ≠ 0 then p.addReadyEvent kWriteEvent channel else p

/-- The loop from the index `i` on, with `n` events to come. -/
def prepareFrom : ℕ → ℕ → Poller χ → Option (Poller χ)
  | _, 0, p => some p
  | i, n + 1, p =>
    p.events[i]?.bind fun event => (p.prepareReadyEvent event).bind (prepareFrom (i + 1) n)

def prepareChannelReadyEvents (numOfReadyEvents : ℕ) (p : Poller χ) : Option (Poller χ) :=
  p.prepareFrom 0 numOfReadyEvents

/-- The size of a full array after a poll. -/
def grownSize (size : ℕ) : ℕ :=
  let size := addSize size (size >>> 1)
  if kMaxEpollEventSize ≤ size then kMaxEpollEventSize - 1 else size

/-- `events_.resize(size)`. -/
def resize (size : ℕ) (p : Poller χ) : Poller χ :=
  { p with events := p.events.take size ++ List.replicate (size - p.events.length) ⟨0, none⟩ }

/-- `static_cast<Int32Type>(size)`. -/
def maxevents (size : ℕ) : ℤ := (BitVec.ofNat 32 size).toInt

/-- `poll` with the events that `::epoll_wait` has written to the front of the array, or with its `-1`. -/
def poll (answer : Option (List (EpollEvent χ))) (p : Poller χ) : Option (Poller χ) :=
  let size := p.events.length
  match answer with
  | none => some p
  | some written =>
    if 0 < written.length then
      let p := { p with events := written ++ p.events.drop written.length }
      (p.prepareChannelReadyEvents written.length).map fun p =>
        if size ≤ written.length then p.resize (grownSize size) else p
    else some p

end Poller

/-- `batches` is a record of the calls of `handleEvent`, with the ready events of the channel, after each
poll. -/
structure Polling (χ : Type) where
  poller : Poller χ
  kernel : ReadyList χ
  batches : List (List (χ × ℕ))

namespace Polling

variable {χ : Type} [DecidableEq χ]

/-- What comes of one round of `run` for the channels. -/
def handle (answer : Option (List (EpollEvent χ))) (kernel : ReadyList χ) (s : Polling χ) :
    Option (Polling χ) :=
  ({ s.poller with activeChannels := [] }.poll answer).map fun poller =>
    { poller, kernel
      batches := s.batches ++
        [poller.activeChannels.map fun channel => (channel, poller.readyEvents channel)] }

/-- `report`: what there is to report of a channel changes. `remove`: its descriptor leaves the interest
list. `fail`: `::epoll_wait` is interrupted. -/
inductive Action (χ : Type) where
  | report (channel : χ) (revents : ℕ)
  | remove (channel : χ)
  | poll
  | fail

def step (s : Polling χ) : Action χ → Option (Polling χ)
  | .report channel revents =>
    some { s with kernel := {
      queue := if revents = 0 then s.kernel.queue else RoundRobin.join channel s.kernel.queue
      revents := Function.update s.kernel.revents channel revents } }
  | .remove channel =>
    some { s with kernel := {
      queue := s.kernel.queue.erase channel
      revents := Function.update s.kernel.revents channel 0 } }
  | .poll =>
    let answer := s.kernel.epollWait (Poller.maxevents s.poller.events.length)
    s.handle answer.1 answer.2
  | .fail => s.handle none s.kernel

/-- `EpollPoller::EpollPoller`. -/
def create : Polling χ where
  poller := ⟨List.replicate kEpollEventInitialSize ⟨0, none⟩, [], fun _ => kNoneEvent⟩
  kernel := ⟨[], fun _ => 0⟩
  batches := []

def system : System (Polling χ) (Action χ) where
  initial s := s = create
  step := step

end Polling

end Nets
