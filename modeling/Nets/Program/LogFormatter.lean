import Nets.Library.CStrings
import Nets.Program.LogBuffer

/-! # The text of a log record

`DefaultLogFormatter` of `base/log/LogFormatter.cpp`, and the constructor of `LogMessage` in
`base/log/Logger.cpp`. A file name is the text that is read through its pointer. -/

namespace Nets

open Library

inductive LogLevel where
  | trace
  | debug
  | info
  | warn
  | error
  | fatal
  deriving DecidableEq

def kLogLevelName : LogLevel → List Char
  | .trace => ['T', 'R', 'A', 'C', 'E']
  | .debug => ['D', 'E', 'B', 'U', 'G']
  | .info => ['I', 'N', 'F', 'O']
  | .warn => ['W', 'A', 'R', 'N']
  | .error => ['E', 'R', 'R', 'O', 'R']
  | .fatal => ['F', 'A', 'T', 'A', 'L']

def kMaxLengthOfLogTimePortion : ℕ := 52
def kLF : Char := '\n'
def kSpace : Char := ' '
def kColon : Char := ':'
def kOpenSquareBracket : List Char := [' ', '[']
def kCloseSquareBracket : List Char := [']', ' ']
def kDash : List Char := [' ', '-', ' ']

/-! ## Time -/

/-- The microseconds since the epoch. -/
structure Timestamp where
  microsecondsSinceEpoch : ℤ
  deriving DecidableEq

namespace Timestamp

def secondsSinceEpoch (time : Timestamp) : ℤ := time.microsecondsSinceEpoch.tdiv 1000000

def microsPartOfTimestamp (time : Timestamp) : ℤ := time.microsecondsSinceEpoch.tmod 1000000

end Timestamp

/-- `struct tm`. -/
structure Tm where
  year : ℤ
  mon : ℤ
  mday : ℤ
  hour : ℤ
  min : ℤ
  sec : ℤ
  deriving DecidableEq

def Tm.zero : Tm := ⟨0, 0, 0, 0, 0, 0⟩

/-- `tCacheSeconds` and `tCacheTms` of a thread. -/
structure TimeCache where
  seconds : ℤ
  tms : Tm
  deriving DecidableEq

/-- A thread that has formatted no time. -/
def TimeCache.initial : TimeCache := ⟨0, .zero⟩

/-- `localtime_r`, and zeros where it fails. -/
def brokenDown (localtime : ℤ → Option Tm) (seconds : ℤ) : Tm := (localtime seconds).getD .zero

/-- The cache after the time of the second was looked up, with what was found. -/
def TimeCache.lookup (localtime : ℤ → Option Tm) (seconds : ℤ) (cache : TimeCache) : TimeCache :=
  if seconds ≠ cache.seconds then ⟨seconds, brokenDown localtime seconds⟩ else cache

/-- `%04d-%02d-%02d %02d:%02d:%02d.%06ld` -/
def timeText (tms : Tm) (micros : ℤ) : List Char :=
  padded 4 (tms.year + 1900) ++ '-' :: padded 2 (tms.mon + 1) ++ '-' :: padded 2 tms.mday ++
    ' ' :: padded 2 tms.hour ++ ':' :: padded 2 tms.min ++ ':' :: padded 2 tms.sec ++
    '.' :: padded 6 micros

/-- `timeBuf`. -/
def timeBuf (tms : Tm) (time : Timestamp) : List Char :=
  snprintf kMaxLengthOfLogTimePortion (timeText tms time.microsPartOfTimestamp)

def formatLogTime (localtime : ℤ → Option Tm) (logTime : Timestamp) (cache : TimeCache)
    (logBuffer : LogTextBuffer) : TimeCache × LogTextBuffer :=
  let cache := cache.lookup localtime logTime.secondsSinceEpoch
  (cache, logBuffer.writeBytes (timeBuf cache.tms logTime))

/-! ## Messages -/

/-- `file` is `none` for a null pointer. -/
structure LogMessage where
  time : Timestamp
  file : Option (List Char)
  line : Int32
  stream : LogBufferStream

/-- The constructor, with the stream as it is when the message is logged. -/
def LogMessage.create (time : Timestamp) (file : List Char) (line : Int32)
    (stream : LogBufferStream) : LogMessage where
  time
  file := (strrchr file '/').map (List.drop 1)
  line
  stream

/-- There is no result where the length of a null pointer's text is asked for. -/
def formatLogMessage (localtime : ℤ → Option Tm) (currentTid : Int32) (logLevel : LogLevel)
    (logMessage : LogMessage) (cache : TimeCache) (logBuffer : LogTextBuffer) :
    Option (TimeCache × LogTextBuffer) := do
  let (cache, logBuffer) := formatLogTime localtime logMessage.time cache logBuffer
  let logBuffer := logBuffer.writeBytes kOpenSquareBracket
  let logBuffer ← logBuffer.writeInt32 currentTid
  let logBuffer := logBuffer.writeBytes kCloseSquareBracket
  let logBuffer := logBuffer.writeBytes (kLogLevelName logLevel)
  let logBuffer := logBuffer.writeBytes [kSpace]
  let file ← logMessage.file
  let logBuffer := logBuffer.writeBytes file
  let logBuffer := logBuffer.writeBytes [kColon]
  let logBuffer ← logBuffer.writeInt32 logMessage.line
  let logBuffer := logBuffer.writeBytes kDash
  let logBuffer := logBuffer.writeBytes logMessage.stream.buffer.bytes
  let logBuffer := logBuffer.writeBytes [kLF]
  return (cache, logBuffer)

end Nets
