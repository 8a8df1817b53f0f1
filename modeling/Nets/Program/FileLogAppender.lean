import Nets.Library.System
import Nets.Program.LogBuffer
import Nets.Program.LogFile

/-! # The file appender

`base/log/LogAppender.cpp`: the callers of `append` fill buffers, the sync thread writes them. All
accesses to `cacheBuffer_`, `backupCacheBuffer_` and `buffers_` are in critical sections of `mutex_`,
and a step is one of these, or what the sync thread does with one buffer outside of them. -/

namespace Nets

open Library

def kMaximumOfLogBuffer : ℕ := 24

/-- A `unique_ptr`. -/
abbrev BufferPtr := Option BufferType

/-- Where the sync thread is: at the test of `running_`, in `wait_for`, before the test of
`buffers.size()`, before the `next` buffer of `syncFile`, after it. -/
inductive Syncing where
  | testing
  | waiting
  | dropping
  | writing (now : ℤ) (next : ℕ)
  | clearing
  | returned
  deriving DecidableEq

/-- The sync thread with its local variables. -/
structure Sync where
  syncing : Syncing
  buffers : List BufferPtr
  cacheBuffer : BufferPtr
  backupCacheBuffer : BufferPtr

/-- `appended` is what the calls of `append` were given, in the order of their critical sections. -/
structure FileLogAppender where
  running : Bool
  logFile : LogFile
  logFileRollingSize : ℕ
  logFileType : LogFileType
  cacheBuffer : BufferPtr
  backupCacheBuffer : BufferPtr
  buffers : List BufferPtr
  sync : Sync
  appended : List UInt8

namespace FileLogAppender

def kDefaultLogFileRollingSize : ℕ := 1024

def create (logFile : LogFile) (logFileType : LogFileType) : FileLogAppender where
  running := true
  logFile
  logFileRollingSize := kDefaultLogFileRollingSize
  logFileType
  cacheBuffer := some .empty
  backupCacheBuffer := some .empty
  buffers := []
  sync := {
    syncing := .testing
    buffers := []
    cacheBuffer := some .empty
    backupCacheBuffer := some .empty }
  appended := []

/-! ## `append` -/

/-- The buffer a record of the given length is finally written to, and what is left in
`backupCacheBuffer_` and in `buffers_`. No result where a null pointer is dereferenced. -/
def makeRoom (length : ℕ) (s : FileLogAppender) : Option (BufferType × BufferPtr × List BufferPtr) :=
  s.cacheBuffer.map fun cacheBuffer =>
    if length < cacheBuffer.writableBytes then (cacheBuffer, s.backupCacheBuffer, s.buffers)
    else
      let buffers := s.buffers ++ [some cacheBuffer]
      match s.backupCacheBuffer with
      | some backupCacheBuffer => (backupCacheBuffer, none, buffers)
      | none => (.empty, none, buffers)

def append (logBuffer : LogBuffer) (s : FileLogAppender) : Option FileLogAppender :=
  (s.makeRoom logBuffer.length).map fun (cacheBuffer, backupCacheBuffer, buffers) =>
    { s with
      cacheBuffer := some (cacheBuffer.writeBytes logBuffer.bytes)
      backupCacheBuffer
      buffers
      appended := s.appended ++ logBuffer.bytes }

/-! ## `sync` -/

/-- `!buffers_.empty() || cacheBuffer_->length() > 0` -/
def hasRecords (s : FileLogAppender) : Option Bool :=
  if s.buffers.isEmpty then s.cacheBuffer.map fun cacheBuffer => decide (0 < cacheBuffer.length)
  else some true

/-- The critical section of `sync`, when there is something to write. -/
def collect (s : FileLogAppender) : FileLogAppender :=
  { s with
    cacheBuffer := s.sync.cacheBuffer
    backupCacheBuffer :=
      if s.backupCacheBuffer.isSome then s.sync.backupCacheBuffer else s.backupCacheBuffer
    buffers := s.sync.buffers
    sync := {
      syncing := .dropping
      buffers := s.buffers ++ [s.cacheBuffer]
      cacheBuffer := none
      backupCacheBuffer :=
        if s.backupCacheBuffer.isSome then none else s.sync.backupCacheBuffer } }

def droppedWarning (count : ℕ) : List UInt8 :=
  ("Dropped " ++ toString count ++ " log buffers\n").toList.map Char.toUInt8

/-- The later half goes when there are too many, and a warning comes in its place. -/
def dropBuffers (buffers : List BufferPtr) : List BufferPtr :=
  if kMaximumOfLogBuffer < buffers.length then
    buffers.take (buffers.length / 2) ++
      [some (StackBuffer.empty.writeBytes (droppedWarning (buffers.length / 2)))]
  else buffers

/-- The buffer at `next` goes to the file. No result where a null pointer is dereferenced. -/
def syncNext (strftime : ℤ → String) (now : ℤ) (next : ℕ) (s : FileLogAppender) :
    Option FileLogAppender :=
  match s.sync.buffers[next]? with
  | none => some { s with sync := { s.sync with syncing := .clearing } }
  | some buffer =>
    buffer.map fun buffer =>
      { s with
        logFile :=
          s.logFile.syncBuffer strftime s.logFileType s.logFileRollingSize now buffer
        sync := { s.sync with syncing := .writing now (next + 1) } }

/-- `buffers.clear()` and two empty buffers for the next round. -/
def clear (s : Sync) : Sync where
  syncing := .testing
  buffers := []
  cacheBuffer := some .empty
  backupCacheBuffer := if s.backupCacheBuffer.isNone then some .empty else s.backupCacheBuffer

/-- The next step of `sync`; `now` is the time at it. To go on waiting is no step. -/
def stepSync (strftime : ℤ → String) (now : ℤ) (s : FileLogAppender) : Option FileLogAppender :=
  match s.sync.syncing with
  | .testing =>
    some { s with sync := { s.sync with syncing := if s.running then .waiting else .returned } }
  | .waiting =>
    s.hasRecords.map fun hasRecords =>
      if hasRecords then s.collect else { s with sync := { s.sync with syncing := .testing } }
  | .dropping =>
    some { s with
      sync := { s.sync with
        syncing := .writing now 0
        buffers := dropBuffers s.sync.buffers } }
  | .writing now next => s.syncNext strftime now next
  | .clearing => some { s with sync := clear s.sync }
  | .returned => none

/-! ## All threads together -/

inductive Action where
  | append (logBuffer : LogBuffer)
  | setLogFileRollingSize (rollingSize : ℕ)
  | destroy
  | sync (now : ℤ)

/-- `destroy` is the first step of the destructor. -/
def step (strftime : ℤ → String) (s : FileLogAppender) : Action → Option FileLogAppender
  | .append logBuffer => s.append logBuffer
  | .setLogFileRollingSize rollingSize => some { s with logFileRollingSize := rollingSize }
  | .destroy => some { s with running := false }
  | .sync now => s.stepSync strftime now

def system (strftime : ℤ → String) : System FileLogAppender Action where
  initial s := ∃ file createTime files logFile logFileType,
    LogFile.create file createTime files = some logFile ∧ s = create logFile logFileType
  step := step strftime

end FileLogAppender

end Nets
