import Nets.Library.Files
import Nets.Program.ByteBuffer
import Nets.Program.StackBuffer

/-! # Log files

`base/log/LogFile.cpp` and the three `sync…File` of `base/log/LogAppender.cpp`, where all calls of the
file system succeed: `fwrite_unlocked` takes everything, `fopen` opens. What the stream still buffers
counts as written. -/

namespace Nets

open Library

def kMaxFilePathLength : ℕ := 512

def kSecondsPerDay : ℤ := 86400

/-- Log buffer cache 2M. -/
def kLogBufferPieceSize : ℕ := 2097152

abbrev BufferType := StackBuffer kLogBufferPieceSize UInt8

instance : NeZero kLogBufferPieceSize := ⟨by decide⟩

inductive LogFileType where
  | singleFile
  | dailyFile
  | rollingFile
  deriving DecidableEq, Repr

/-- `fp_` is the file of the name `file` whenever no call is running. `written` is what `write` was
given so far, and `rolled` the names of the files that have been put aside, in order. -/
structure LogFile where
  dir : String
  file : String
  bytes : ℕ
  lastRollTime : ℤ
  files : Files String UInt8
  written : List UInt8
  rolled : List String

namespace LogFile

/-- Up to and with the last `/`; empty when there is none. -/
def dirOf (file : String) : String :=
  String.ofList (file.toList.reverse.dropWhile fun c => c ≠ '/').reverse

/-- No file where the constructor throws. `createTime` is what `fstat` answers. -/
def create (file : String) (createTime : ℤ) (files : Files String UInt8) : Option LogFile :=
  if file.utf8ByteSize > kMaxFilePathLength ∨ file.utf8ByteSize = 0 then none
  else
    some {
      dir := dirOf file
      file
      bytes := (files.contents file).length
      lastRollTime := createTime
      files := files.openAppend file
      written := []
      rolled := [] }

def write (data : List UInt8) (f : LogFile) : LogFile :=
  { f with
    bytes := addSize f.bytes data.length
    files := f.files.append f.file data
    written := f.written ++ data }

/-- The name a file gets that is put aside at `now`, for what `localtime_r` and `strftime` make of the
pattern `%Y-%m-%d_%H-%M-%S`. -/
def rolledName (strftime : ℤ → String) (now : ℤ) (f : LogFile) : String :=
  f.dir ++ (strftime now ++ ".log")

def renameByNowTime (strftime : ℤ → String) (now : ℤ) (f : LogFile) : LogFile :=
  let files := (f.files.rename f.file (f.rolledName strftime now)).openAppend f.file
  { f with
    bytes := (files.contents f.file).length
    lastRollTime := now
    files
    rolled := f.rolled ++ [f.rolledName strftime now] }

/-! ## The batches of the appender -/

/-- The file is put aside before the buffer is written. `logFileRollingSize` counts kilobytes. -/
def rolls (logFileType : LogFileType) (logFileRollingSize : ℕ) (now : ℤ) (buffer : BufferType)
    (f : LogFile) : Bool :=
  match logFileType with
  | .singleFile => false
  | .dailyFile => decide (kSecondsPerDay < now - f.lastRollTime)
  | .rollingFile => decide (logFileRollingSize ≤ addSize f.bytes buffer.length / 1024)

/-- The body of the loop in `syncSingleFile`, `syncDailyFile` and `syncRollingFile`. -/
def syncBuffer (strftime : ℤ → String) (logFileType : LogFileType) (logFileRollingSize : ℕ) (now : ℤ)
    (f : LogFile) (buffer : BufferType) : LogFile :=
  (if f.rolls logFileType logFileRollingSize now buffer then f.renameByNowTime strftime now
    else f).write buffer.bytes

/-- `syncFile`, with the time it reads once. -/
def syncFile (strftime : ℤ → String) (logFileType : LogFileType) (logFileRollingSize : ℕ) (now : ℤ)
    (buffers : List BufferType) (f : LogFile) : LogFile :=
  buffers.foldl (syncBuffer strftime logFileType logFileRollingSize now) f

def syncRollingFile (strftime : ℤ → String) (logFileRollingSize : ℕ) (now : ℤ)
    (buffers : List BufferType) (f : LogFile) : LogFile :=
  f.syncFile strftime .rollingFile logFileRollingSize now buffers

end LogFile

end Nets
