import Nets.Library.System
import Nets.Program.ByteBuffer

/-! # The socket channel

`net/channel/SocketChannel.cpp` on its loop thread, with what it uses of `Channel.cpp`,
`EventLoop.cpp` and `EpollPoller.cpp`. The application runs inside the calls to its handlers, so
a step of the system is the code between two places where the application is given control, and
what a call still has to do after a handler returns is kept on an explicit stack. Every answer of
the kernel is part of the action. -/

namespace Nets

open Library

def kRecvBufferSize : ℕ := 16384

/-- `IOV_MAX >> 2`. -/
def kMaxCountOfWriteVOnce : ℕ := 256

def kNoneEvent : ℕ := 0
def kReadEvent : ℕ := 1
def kWriteEvent : ℕ := 2

def EINTR : ℕ := 4
def EAGAIN : ℕ := 11

/-- What `::write` or `::writev` answers: the number of bytes taken from the front of what was
offered, or `-1` and `errno`. -/
inductive Answer where
  | accepted (bytes : ℕ)
  | failed (errNum : ℕ)
  deriving DecidableEq, Repr

/-- What `::read` answers; no bytes at all is the end of the stream. -/
inductive ReadAnswer (β : Type) where
  | data (bytes : List β)
  | failed (errNum : ℕ)

inductive ChannelState where
  | inactive
  | active
  | halfClose
  deriving DecidableEq, Repr

/-- The second argument of `::shutdown`. -/
inductive How where
  | rd
  | wr
  | rdwr
  deriving DecidableEq, Repr

/-- The tasks the channel gives to its loop. A callback goes by the number of the write call it
came with. -/
inductive Task where
  | writeComplete (callback : ℕ)
  | deregister
  deriving DecidableEq, Repr

/-- What can be seen of the channel from outside, in order. -/
inductive Event (β : Type) where
  | write (data : List β) (callback : Option ℕ)
  | accepted (bytes : List β)
  | connect
  | read (message : ByteBuffer β)
  | disconnect
  | addTask (task : Task)
  | shutdown (how : How)

/-- The assertions of the loop that depend on the channel. -/
inductive Assertion where
  | modifyChannel
  | deregisterChannel
  | handleWriteEvent
  deriving DecidableEq, Repr

/-- What is left of a call when control goes to the application: application code itself, the
rest of `channelInActive`, and the rest of `doWriteDirectly` after `handleWriteError`. -/
inductive Frame (β : Type) where
  | handler
  | deregister
  | finishWrite (remaining : List β) (callback : Option ℕ) (epoll : Bool)

structure SocketChannel (β : Type) where
  writeBuffer : List (ByteBuffer β)
  state : ChannelState
  writeCompleteCallbacks : List (Option ℕ)
  events : ℕ
  isRegistered : Bool

/-- The channel, what its loop and the poller hold of it, the control stack, and the trace. -/
structure Session (β : Type) extends SocketChannel β where
  inLoop : Bool
  interest : Option ℕ
  pendingTasks : List Task
  stack : List (Frame β)
  writes : ℕ
  log : List (Event β)
  failedAssertions : List Assertion

namespace Session

variable {β : Type}

def emit (event : Event β) (s : Session β) : Session β := { s with log := s.log ++ [event] }

def addTask (task : Task) (s : Session β) : Session β :=
  { s with pendingTasks := s.pendingTasks ++ [task], log := s.log ++ [.addTask task] }

def assertThat (assertion : Assertion) (holds : Bool) (s : Session β) : Session β :=
  if holds then s else { s with failedAssertions := s.failedAssertions ++ [assertion] }

/-! ## Registration

`epoll` tells whether the one `epoll_ctl` of a call succeeds, given that it is valid. -/

def setEvents (events : ℕ) (s : Session β) : Session β := { s with events }

def addEvent (event : ℕ) (s : Session β) : Session β := { s with events := s.events ||| event }

def hasWriteEvent (s : Session β) : Bool := s.events &&& kWriteEvent ≠ 0

/-- `EPOLL_CTL_ADD` and `setRegistered(true)`. -/
def epollAdd (epoll : Bool) (s : Session β) : Session β :=
  if epoll ∧ s.interest = none then { s with interest := some s.events, isRegistered := true }
  else s

/-- `EPOLL_CTL_MOD`. -/
def epollMod (epoll : Bool) (s : Session β) : Session β :=
  if epoll ∧ s.interest ≠ none then { s with interest := some s.events } else s

/-- `setRegistered(false)` and `EPOLL_CTL_DEL`. -/
def epollDel (epoll : Bool) (s : Session β) : Session β :=
  { s with isRegistered := false, interest := if epoll then none else s.interest }

def modify (epoll : Bool) (s : Session β) : Session β :=
  let s := s.assertThat .modifyChannel s.inLoop
  if s.isRegistered then
    if s.events ≠ kNoneEvent then s.epollMod epoll else s.epollDel epoll
  else s.epollAdd epoll

def deregisterChannel (epoll : Bool) (s : Session β) : Session β :=
  let s := s.assertThat .deregisterChannel s.inLoop
  { s.epollDel epoll with inLoop := false }

/-! ## End of life -/

/-- Up to the call of the application's `channelDisconnect`. -/
def channelInActive (s : Session β) : Session β :=
  { s with
    state := .inactive
    log := s.log ++ [.disconnect]
    stack := .handler :: .deregister :: s.stack }

/-- `shutdown(Int32Type)`. -/
def shutdownHow (how : How) (s : Session β) : Session β :=
  match how with
  | .rd => s.emit (.shutdown .rd)
  | .wr | .rdwr => { s with writeBuffer := [] }.emit (.shutdown how)

def shutdown (s : Session β) : Session β := (s.shutdownHow .rdwr).channelInActive

def shutdownRead (s : Session β) : Session β := { s.shutdownHow .rd with state := .halfClose }

def shutdownWrite (s : Session β) : Session β := { s.shutdownHow .wr with state := .halfClose }

def handleReadError (errNum : ℕ) (s : Session β) : Session β :=
  if errNum = EAGAIN ∨ errNum = EINTR then s else s.channelInActive

def handleWriteError (errNum : ℕ) (s : Session β) : Session β :=
  if errNum = EAGAIN ∨ errNum = EINTR then s else s.channelInActive

def handleErrorEvent (s : Session β) : Session β :=
  if s.state = .inactive then s else s.channelInActive

/-! ## Writing -/

section

variable [Inhabited β]

/-- The last block takes the bytes when it has room for them, otherwise they become a block. -/
def appendBlock (data : List β) (writeBuffer : List (ByteBuffer β)) :
    Except Fault (List (ByteBuffer β)) :=
  match writeBuffer.getLast? with
  | some last =>
    if data.length ≤ last.writableBytes then
      match ByteBuffer.writeBytes data last with
      | .ok _ last => .ok (writeBuffer.dropLast ++ [last])
      | .error fault _ => .error fault
    else (ByteBuffer.ofData data).map fun b => writeBuffer ++ [b]
  | none => (ByteBuffer.ofData data).map fun b => writeBuffer ++ [b]

/-- No result when an exception leaves the call. -/
def appendBuffer (data : List β) (epoll : Bool) (s : Session β) : Option (Session β) :=
  match appendBlock data s.writeBuffer with
  | .error _ => none
  | .ok writeBuffer =>
    let s := { s with writeBuffer }
    some (if s.hasWriteEvent then s else (s.addEvent kWriteEvent).modify epoll)

/-- `writeCompleteCallbacks_.push(callback)`. -/
def pushCallback (callback : Option ℕ) (s : Session β) : Session β :=
  { s with writeCompleteCallbacks := s.writeCompleteCallbacks ++ [callback] }

/-- The end of `doWriteDirectly`, from `remainingBytes` on. -/
def finishWrite (remaining : List β) (callback : Option ℕ) (epoll : Bool) (s : Session β) :
    Option (Session β) :=
  if remaining.isEmpty then
    some (match callback with
      | none => s
      | some callback => s.addTask (.writeComplete callback))
  else
    (s.appendBuffer remaining epoll).map (pushCallback callback)

/-- `before` is the byte in front of the message. After an error other than `EAGAIN` and `EINTR`
`bytes` is still `-1`: what remains starts one byte early and is one byte longer. -/
def doWriteDirectly (data : List β) (callback : Option ℕ) (answer : Answer) (before : β)
    (epoll : Bool) (s : Session β) : Option (Session β) :=
  match answer with
  | .accepted bytes =>
    (s.emit (.accepted (data.take bytes))).finishWrite (data.drop bytes) callback epoll
  | .failed errNum =>
    if errNum = EAGAIN ∨ errNum = EINTR then s.finishWrite data callback epoll
    else
      some ({ s with stack := .finishWrite (before :: data) callback epoll :: s.stack
        }.handleWriteError errNum)

def doWrite (data : List β) (callback : Option ℕ) (answer : Answer) (before : β)
    (epoll : Bool) (s : Session β) : Option (Session β) :=
  if s.state = .inactive then some s
  else if data.isEmpty then some s
  else if s.writeBuffer.isEmpty then s.doWriteDirectly data callback answer before epoll
  else
    (s.appendBuffer data epoll).map (pushCallback callback)

/-- Run what the calls on the stack still have to do, down to application code. -/
def unwind : List (Frame β) → Session β → Option (Session β)
  | [], s => some { s with stack := [] }
  | .handler :: stack, s => some { s with stack := .handler :: stack }
  | .deregister :: stack, s => unwind stack (s.addTask .deregister)
  | .finishWrite remaining callback epoll :: stack, s =>
    (s.finishWrite remaining callback epoll).bind (unwind stack)

def resume (s : Session β) : Option (Session β) := unwind s.stack s

end

/-! ## Sending what is buffered -/

/-- `static_cast<Int32Type>(size)`; a negative count ends the loop at once. -/
def blockCount (size : ℕ) : ℕ := (BitVec.ofNat 32 size).toInt.toNat

/-- The variables of the loop in `writev`, the answers still to come, and the bytes taken so far. -/
structure WriteV (β : Type) where
  writtenBlocks : ℕ
  writtenBytes : ℕ
  answers : List Answer
  sent : List β

/-- The number of blocks of the next call. -/
def batchSize (leftBlocks : ℕ) : ℕ :=
  if leftBlocks < kMaxCountOfWriteVOnce then leftBlocks else kMaxCountOfWriteVOnce

/-- The bytes of the next call. -/
def WriteV.offered (iovecs : List (List β)) (blocks : ℕ) (w : WriteV β) : List β :=
  ((iovecs.drop w.writtenBlocks).take blocks).flatten

/-- The sum runs from `writtenBlocks` to the size of the batch, not to its end. -/
def WriteV.expectedWriteLen (iovecs : List (List β)) (blocks : ℕ) (w : WriteV β) : ℕ :=
  (((iovecs.take blocks).drop w.writtenBlocks).map List.length).sum

/-- After a call that took `taken`. -/
def WriteV.next (blocks : ℕ) (taken : List β) (w : WriteV β) : WriteV β where
  writtenBlocks := w.writtenBlocks + blocks
  writtenBytes := w.writtenBytes + taken.length
  answers := w.answers.tail
  sent := w.sent ++ taken

/-- One round of the loop. The kernel has nothing more to say than `EAGAIN` when the answers run
out. -/
def writevBatch (iovecs : List (List β)) (count : ℕ) (w : WriteV β) :
    WriteV β ⊕ (List β × Except ℕ ℕ) :=
  if w.writtenBlocks < count then
    let blocks := batchSize (count - w.writtenBlocks)
    match w.answers.headD (.failed EAGAIN) with
    | .failed errNum =>
      .inr (w.sent, if errNum = EAGAIN ∨ errNum = EINTR then .ok w.writtenBytes else .error errNum)
    | .accepted bytes =>
      let taken := (w.offered iovecs blocks).take bytes
      let w' := w.next blocks taken
      if taken.length < w.expectedWriteLen iovecs blocks then .inr (w'.sent, .ok w'.writtenBytes)
      else .inl w'
  else .inr (w.sent, .ok w.writtenBytes)

/-- The bytes the kernel took, and the result: `writtenBytes`, or `-1` with `errno`. -/
def writev (iovecs : List (List β)) (answers : List Answer) : Option (List β × Except ℕ ℕ) :=
  let count := blockCount iovecs.length
  Loop.run (writevBatch iovecs count) (count + 1)
    { writtenBlocks := 0, writtenBytes := 0, answers, sent := [] }

def removeSentBuffer : List (ByteBuffer β) → ℕ → List (ByteBuffer β)
  | [], _ => []
  | b :: writeBuffer, writtenBytes =>
    if 0 < writtenBytes then
      let bytes := b.readableBytes
      if bytes ≤ writtenBytes then removeSentBuffer writeBuffer (writtenBytes - bytes)
      else b.setReaderIndex (addSize b.readerIndex writtenBytes) :: writeBuffer
    else b :: writeBuffer

/-- `addTask` for every callback that is not `nullptr`, oldest first. -/
def queueCallbacks : List (Option ℕ) → Session β → Session β
  | [], s => s
  | none :: callbacks, s => queueCallbacks callbacks s
  | some callback :: callbacks, s => queueCallbacks callbacks (s.addTask (.writeComplete callback))

/-- `writeBuffer_.clear()`, and a task for every waiting callback. -/
def drain (s : Session β) : Session β :=
  queueCallbacks s.writeCompleteCallbacks { s with writeBuffer := [], writeCompleteCallbacks := [] }

/-- The end of `handleWriteEvent`, for the result of `writev`. -/
def finishWriteEvent (totalBytes : ℕ) (result : Except ℕ ℕ) (epoll : Bool) (s : Session β) :
    Session β :=
  match result with
  | .error errNum => s.handleWriteError errNum
  | .ok writtenBytes =>
    if totalBytes = writtenBytes then
      let s := s.drain
      if s.state = .halfClose then s.channelInActive else (s.setEvents kReadEvent).modify epoll
    else { s with writeBuffer := removeSentBuffer s.writeBuffer writtenBytes }

/-- An `IoVec`: the bytes from `data()` to `data() + readableBytes()`. -/
def iovec (b : ByteBuffer β) : Option (List β) :=
  ByteBuffer.loadBytes b.buffer b.readerIndex b.readableBytes

def handleWriteEvent (answers : List Answer) (epoll : Bool) (s : Session β) :
    Option (Session β) :=
  if s.state = .inactive then some s
  else
    let s := s.assertThat .handleWriteEvent (!s.writeBuffer.isEmpty)
    let totalBytes := (s.writeBuffer.map ByteBuffer.readableBytes).sum
    (s.writeBuffer.mapM iovec).bind fun iovecs =>
      (writev iovecs answers).map fun (sent, result) =>
        (s.emit (.accepted sent)).finishWriteEvent totalBytes result epoll

/-! ## Reading -/

section

variable [Inhabited β]

/-- `ByteBuffer::writeBytes(const SocketChannel&, SizeType)`. -/
def readInto (answer : ReadAnswer β) (length : ℕ) : BufferM β (Except ℕ ℕ) := do
  ByteBuffer.ensureWritable length
  match answer with
  | .failed errNum => return .error errNum
  | .data bytes =>
    let b ← get
    let bytes := bytes.take length
    let buffer ← ByteBuffer.orFault .badAccess
      (ByteBuffer.storeBytes b.buffer b.writerIndex bytes)
    set { b with buffer, writerIndex := addSize b.writerIndex bytes.length }
    return .ok bytes.length

/-- One call of `::read` for each answer; `EAGAIN` when the answers run out. -/
def doRead (expectedReadLen : ℕ) : List (ReadAnswer β) → BufferM β (Except ℕ ℕ)
  | [] => do
    let _ ← readInto (.failed EAGAIN) expectedReadLen
    return .ok (← get).readableBytes
  | answer :: answers => do
    match ← readInto answer expectedReadLen with
    | .error errNum =>
      if errNum ≠ EAGAIN ∧ errNum ≠ EINTR then return .error errNum
      else return .ok (← get).readableBytes
    | .ok 0 => return .ok (← get).readableBytes
    | .ok readBytes =>
      let adjustment := expectedReadLen - readBytes
      doRead (if 0 < adjustment then adjustment else expectedReadLen) answers

/-- Up to the call of the application's `channelRead`. -/
def fireRead (message : ByteBuffer β) (s : Session β) : Session β :=
  { s with log := s.log ++ [.read message], stack := .handler :: s.stack }

def handleReadEvent (answers : List (ReadAnswer β)) (epoll : Bool) (s : Session β) :
    Option (Session β) :=
  if s.state = .inactive then some s
  else
    match doRead kRecvBufferSize answers (ByteBuffer.ofCapacity kRecvBufferSize) with
    | .error _ _ => none
    | .ok (.error errNum) _ => some (s.handleReadError errNum)
    | .ok (.ok bytes) byteBuffer =>
      if 0 < bytes then some (s.fireRead byteBuffer)
      else if s.writeBuffer.isEmpty then some s.shutdown
      else some ((s.shutdownRead.setEvents kWriteEvent).modify epoll)

end

/-! ## The system -/

/-- A channel as constructed. -/
def fresh : Session β where
  writeBuffer := []
  state := .inactive
  writeCompleteCallbacks := []
  events := kNoneEvent
  isRegistered := false
  inLoop := false
  interest := none
  pendingTasks := []
  stack := []
  writes := 0
  log := []
  failedAssertions := []

/-- `channelActive` up to the call of the application's `channelConnect`, when the registration
succeeds. -/
def channelActive (s : Session β) : Session β :=
  let s := (s.addEvent kReadEvent).epollAdd true
  { s with
    inLoop := true
    state := .active
    log := s.log ++ [.connect]
    stack := .handler :: s.stack }

/-- What the application does while it has control, the return of a handler, and what the loop
does while no handler runs. -/
inductive Action (α β : Type) where
  | write (data : List α) (callback : Bool) (answer : Answer) (before : β) (epoll : Bool)
  | shutdown
  | shutdownRead
  | shutdownWrite
  | handlerReturns
  | handleReadEvent (answers : List (ReadAnswer β)) (epoll : Bool)
  | handleWriteEvent (answers : List Answer) (epoll : Bool)
  | handleErrorEvent
  | runTask (epoll : Bool)

section

variable {α : Type} [Inhabited β]

/-- The write call of the given data; `label` chooses how the bytes of the `n`-th call are
represented. -/
def write (label : ℕ → List α → List β) (data : List α) (callback : Bool) (answer : Answer)
    (before : β) (epoll : Bool) (s : Session β) : Option (Session β) :=
  let data := label s.writes data
  let callback := if callback then some s.writes else none
  doWrite data callback answer before epoll
    { s with writes := s.writes + 1, log := s.log ++ [.write data callback] }

/-- The oldest task of the loop; a callback is application code. -/
def runTask (epoll : Bool) (s : Session β) : Option (Session β) :=
  match s.pendingTasks with
  | [] => none
  | .writeComplete _ :: pendingTasks =>
    some { s with pendingTasks, stack := .handler :: s.stack }
  | .deregister :: pendingTasks => some ({ s with pendingTasks }.deregisterChannel epoll)

/-- The call an action stands for, where it is possible. -/
def act (label : ℕ → List α → List β) (s : Session β) : Action α β → Option (Session β)
  | .write data callback answer before epoll => s.write label data callback answer before epoll
  | .shutdown => some s.shutdown
  | .shutdownRead => some s.shutdownRead
  | .shutdownWrite => some s.shutdownWrite
  | .handlerReturns =>
    match s.stack with
    | .handler :: stack => some { s with stack }
    | _ => none
  | .handleReadEvent answers epoll =>
    if s.stack.isEmpty then s.handleReadEvent answers epoll else none
  | .handleWriteEvent answers epoll =>
    if s.stack.isEmpty then s.handleWriteEvent answers epoll else none
  | .handleErrorEvent => if s.stack.isEmpty then some s.handleErrorEvent else none
  | .runTask epoll => if s.stack.isEmpty then s.runTask epoll else none

/-- Runs of a channel from the moment it is registered and connected. -/
def system (label : ℕ → List α → List β) : System (Session β) (Action α β) where
  initial s := s = fresh.channelActive
  step s action := (s.act label action).bind resume

end

end Session

end Nets
