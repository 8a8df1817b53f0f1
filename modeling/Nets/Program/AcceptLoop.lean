import Nets.Library.Descriptors
import Nets.Library.System
import Nets.Program.Dispatch

/-! # The descriptors of a server

`net/channel/ServerSocketChannel.cpp` from the constructor to the destructor, with `createIdleFd`,
`dealwithEMFILE` and `closeFd` of `net/core/Socket.cpp`. The thread of the main loop runs the server
channel; the threads of the child loops destroy the channels of the connections, and any thread of the
process may open and close files of its own. A step is one system call, and what follows it up to the next
one. -/

namespace Nets

open Library

def EMFILE : ℕ := 24
def EPROTO : ℕ := 71
def ECONNABORTED : ℕ := 103

/-- What a descriptor of the process is open on. Connections go by the order in which they arrived. -/
inductive OpenFile where
  | listener
  | idle
  | connection (n : ℕ)
  | other
  deriving DecidableEq, Repr

/-- The kernel says `EMFILE` only where there is no descriptor left. -/
inductive AcceptAnswer where
  | ready
  | failed (errNum : ℕ) (h : errNum ≠ EMFILE)
  deriving DecidableEq, Repr

/-- What becomes of an accepted connection in `handleReadEvent`: `channelActive` registers its channel or
does not, or `initSocketChannel` throws. -/
inductive Initialization where
  | registered
  | rejected
  | thrown
  deriving DecidableEq, Repr

/-- Where the thread of the main loop is: before the system call of `createIdleFd` in the constructor,
before those of `bind`, between two events, behind `accept` with a connection, before each of the four calls
of `dealwithEMFILE`, behind an exception that has left `run`, and before the two calls of the destructor.
`closingSpare none` has `kInvalidFd`. -/
inductive Serving where
  | constructing
  | creatingSocket
  | binding
  | polling
  | initializing (connFd : FdType) (n : ℕ)
  | closingIdle
  | acceptingSpare
  | closingSpare (spare : Option (FdType × ℕ))
  | reopening
  | stopped
  | destroying
  | destroyingIdle
  | destroyed
  deriving DecidableEq, Repr

/-- `listening` is the state of the socket, `backlog` has the connections that wait in the kernel, oldest
first, `channels` the descriptors of the channels that child loops have, and `others` those of the rest of
the process. What follows is a record of the run: how many connections arrived, which of them `accept`
returned, what became of those that are closed, and on what each descriptor was open that was closed by a
channel. -/
structure ServerSocketChannel where
  descriptors : Descriptors OpenFile
  sockFd : FdType
  idleFd : FdType
  serving : Serving
  listening : Bool
  backlog : List ℕ
  channels : List (FdType × ℕ)
  others : List FdType
  arrived : ℕ
  taken : List ℕ
  finished : List ℕ
  refused : List ℕ
  failed : List ℕ
  closed : List (Option OpenFile)

namespace ServerSocketChannel

/-- A process that may have `limit` descriptors and has none. -/
def create (limit : ℕ) : ServerSocketChannel where
  descriptors := .empty limit
  sockFd := kInvalidFd
  idleFd := kInvalidFd
  serving := .constructing
  listening := false
  backlog := []
  channels := []
  others := []
  arrived := 0
  taken := []
  finished := []
  refused := []
  failed := []
  closed := []

/-! ## System calls -/

/-- `::open` and `::socket`; `allowed` tells whether the kernel has anything else against it. -/
def newFile (file : OpenFile) (allowed : Bool) (s : ServerSocketChannel) :
    FdType × ServerSocketChannel :=
  match s.descriptors.openFile file, allowed with
  | some (fd, descriptors), true => (fd, { s with descriptors })
  | _, _ => (kInvalidFd, s)

def closeFd (fd : FdType) (s : ServerSocketChannel) : ServerSocketChannel :=
  if 0 ≤ fd then
    { s with
      descriptors := s.descriptors.closeFile fd
      closed := s.closed ++ [s.descriptors.files fd] }
  else s

/-- `::accept` and `::accept4` on a socket that does not block. A descriptor is looked for first. -/
def accept (answer : AcceptAnswer) (s : ServerSocketChannel) :
    Except ℕ (FdType × ℕ × ServerSocketChannel) :=
  match answer with
  | .failed errNum _ => .error errNum
  | .ready =>
    match s.descriptors.lowestFree, s.backlog with
    | none, _ => .error EMFILE
    | some _, [] => .error EAGAIN
    | some fd, n :: backlog =>
      .ok (fd, n, { s with
        descriptors := s.descriptors.put fd (.connection n)
        backlog
        taken := s.taken ++ [n] })

/-! ## The thread of the main loop -/

/-- `createIdleFd` in the constructor, which throws where it fails: there is no object then. -/
def construct (allowed : Bool) (s : ServerSocketChannel) : ServerSocketChannel :=
  let (fd, s) := s.newFile .idle allowed
  { s with idleFd := fd, serving := if fd < 0 then .destroyed else .creatingSocket }

/-- `createTcpSocket` in `bind`. Where `bind` throws, the only pointer to the channel goes. -/
def createSocket (allowed : Bool) (s : ServerSocketChannel) : ServerSocketChannel :=
  let (fd, s) := s.newFile .listener allowed
  { s with sockFd := fd, serving := if fd < 0 then .destroying else .binding }

/-- The rest of `bind`. -/
def bind (succeeds : Bool) (s : ServerSocketChannel) : ServerSocketChannel :=
  { s with serving := if succeeds then .polling else .destroying, listening := succeeds }

def handleAcceptError (errNum : ℕ) : Serving :=
  if errNum = EAGAIN ∨ errNum = EINTR ∨ errNum = EPROTO ∨ errNum = ECONNABORTED then .polling
  else if errNum = EMFILE then .closingIdle
  else .stopped

def handleReadEvent (answer : AcceptAnswer) (s : ServerSocketChannel) : ServerSocketChannel :=
  match s.accept answer with
  | .ok (connFd, n, s) => { s with serving := .initializing connFd n }
  | .error errNum => { s with serving := handleAcceptError errNum }

/-- The rest of `handleReadEvent` with a connection. A channel that no loop has is destroyed at its end. -/
def initSocketChannel (connFd : FdType) (n : ℕ) (outcome : Initialization) (s : ServerSocketChannel) :
    ServerSocketChannel :=
  match outcome with
  | .registered => { s with channels := s.channels ++ [(connFd, n)], serving := .polling }
  | .rejected => { s.closeFd connFd with failed := s.failed ++ [n], serving := .polling }
  | .thrown => { s.closeFd connFd with failed := s.failed ++ [n], serving := .stopped }

-- `dealwithEMFILE`

def closeIdle (s : ServerSocketChannel) : ServerSocketChannel :=
  { s.closeFd s.idleFd with serving := .acceptingSpare }

def acceptSpare (answer : AcceptAnswer) (s : ServerSocketChannel) : ServerSocketChannel :=
  match s.accept answer with
  | .ok (connFd, n, s) => { s with serving := .closingSpare (some (connFd, n)) }
  | .error _ => { s with serving := .closingSpare none }

def closeSpare (spare : Option (FdType × ℕ)) (s : ServerSocketChannel) : ServerSocketChannel :=
  match spare with
  | some (connFd, n) => { s.closeFd connFd with refused := s.refused ++ [n], serving := .reopening }
  | none => { s.closeFd kInvalidFd with serving := .reopening }

def reopen (allowed : Bool) (s : ServerSocketChannel) : ServerSocketChannel :=
  let (fd, s) := s.newFile .idle allowed
  { s with idleFd := fd, serving := .polling }

/-! ## All threads together -/

/-- From `connect` on, what the rest of the world does. -/
inductive Action where
  | construct (allowed : Bool)
  | createSocket (allowed : Bool)
  | bind (succeeds : Bool)
  | handleReadEvent (answer : AcceptAnswer)
  | initSocketChannel (outcome : Initialization)
  | closeIdle
  | acceptSpare (answer : AcceptAnswer)
  | closeSpare
  | reopen (allowed : Bool)
  | destroy
  | closeSocket
  | closeLast
  | connect
  | destroyChannel (i : ℕ)
  | openOther
  | closeOther (i : ℕ)
  deriving DecidableEq, Repr

/-- The threads other than the one of the main loop. -/
def stepOther (s : ServerSocketChannel) : Action → Option ServerSocketChannel
  | .connect =>
    if s.listening then
      some { s with backlog := s.backlog ++ [s.arrived], arrived := s.arrived + 1 }
    else none
  | .destroyChannel i =>
    s.channels[i]?.map fun (fd, n) =>
      { s.closeFd fd with channels := s.channels.eraseIdx i, finished := s.finished ++ [n] }
  | .openOther =>
    (s.descriptors.openFile .other).map fun (fd, descriptors) =>
      { s with descriptors, others := s.others ++ [fd] }
  | .closeOther i =>
    s.others[i]?.map fun fd =>
      { s with descriptors := s.descriptors.closeFile fd, others := s.others.eraseIdx i }
  | _ => none

def step (s : ServerSocketChannel) (action : Action) : Option ServerSocketChannel :=
  match s.serving, action with
  | .constructing, .construct allowed => some (s.construct allowed)
  | .creatingSocket, .createSocket allowed => some (s.createSocket allowed)
  | .binding, .bind succeeds => some (s.bind succeeds)
  | .polling, .handleReadEvent answer => some (s.handleReadEvent answer)
  | .initializing connFd n, .initSocketChannel outcome => some (s.initSocketChannel connFd n outcome)
  | .closingIdle, .closeIdle => some s.closeIdle
  | .acceptingSpare, .acceptSpare answer => some (s.acceptSpare answer)
  | .closingSpare spare, .closeSpare => some (s.closeSpare spare)
  | .reopening, .reopen allowed => some (s.reopen allowed)
  -- the loop ends, with all its channels
  | .polling, .destroy | .stopped, .destroy => some { s with serving := .destroying }
  | .destroying, .closeSocket =>
    some { s.closeFd s.sockFd with serving := .destroyingIdle, listening := false }
  | .destroyingIdle, .closeLast => some { s.closeFd s.idleFd with serving := .destroyed }
  | _, action => s.stepOther action

def system : System ServerSocketChannel Action where
  initial s := ∃ limit, s = create limit
  step := step

end ServerSocketChannel

end Nets
