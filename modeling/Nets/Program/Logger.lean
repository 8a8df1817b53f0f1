import Nets.Library.System
import Nets.Program.FileLogAppender
import Nets.Program.LogFormatter

/-! # Loggers

`base/log/Logger.h` and `base/log/Logger.cpp`: the manager, the macros and `Logger::log`, for any number of
threads. What is in a critical section of a mutex is one step, and so is what a thread does between two
accesses to what it shares with others; reading or writing a `shared_ptr` or a level is atomic. `ι` names the
file appenders. -/

namespace Nets

open Library

/-- The values of the enumeration. -/
def LogLevel.toNat : LogLevel → ℕ
  | .trace => 0
  | .debug => 1
  | .info => 2
  | .warn => 3
  | .error => 4
  | .fatal => 5

/-- What a `LogFormatterPtr` points to. -/
inductive LogFormatter where
  | defaultLogFormatter
  deriving DecidableEq

/-- What a `LogAppenderPtr` points to. -/
inductive LogAppender (ι : Type) where
  | stdoutLogAppender
  | fileLogAppender (i : ι)
  deriving DecidableEq

structure Logger (ι : Type) where
  name : String
  level : LogLevel
  logFormatter : Option LogFormatter
  logAppender : Option (LogAppender ι)

namespace Logger

variable {ι : Type}

def kDefaultLogLevel : LogLevel := .debug

def construct (name : String) : Logger ι := ⟨name, kDefaultLogLevel, none, none⟩

def setLevel (level : LogLevel) (logger : Logger ι) : Logger ι := { logger with level }

def setLogFormatter (logFormatter : Option LogFormatter) (logger : Logger ι) : Logger ι :=
  { logger with logFormatter }

def setLogAppender (logAppender : Option (LogAppender ι)) (logger : Logger ι) : Logger ι :=
  { logger with logAppender }

end Logger

/-! ## The manager -/

def kNetsRootLoggerName : String := "RootLogger"

/-- A pointer to a logger is its place in `objects`. -/
structure LoggerManager (ι : Type) where
  objects : List (Logger ι)
  loggers : String → Option ℕ
  netsRootLogger : Option ℕ

namespace LoggerManager

variable {ι : Type}

def construct : LoggerManager ι := ⟨[], fun _ => none, none⟩

def getLogger (loggerName : String) (m : LoggerManager ι) : ℕ × LoggerManager ι :=
  match m.loggers loggerName with
  | some logger => (logger, m)
  | none =>
    let logger := m.objects.length
    let object := ((Logger.construct loggerName).setLogFormatter (some .defaultLogFormatter)).setLogAppender
      (some .stdoutLogAppender)
    (logger, { m with
      objects := m.objects ++ [object]
      loggers := Function.update m.loggers loggerName (some logger) })

/-- A call of the logger that changes it. -/
def modify (f : Logger ι → Logger ι) (logger : ℕ) (m : LoggerManager ι) : LoggerManager ι :=
  { m with objects := m.objects.modify logger f }

end LoggerManager

/-! ## Statements -/

namespace Logging

/-- `NETS_LOG(LOGGER, LEVEL)` with `__FILE__`, `__LINE__` and what is put into the stream; without a logger
it is `NETS_SYSTEM_LOG(LEVEL)`. -/
structure Statement where
  logger : Option ℕ
  level : LogLevel
  file : List Char
  line : Int32
  stream : LogBufferStream

/-- Where a thread is: outside of any statement; before the test of `netsRootLogger_`, before `getLogger` or
before the assignment in `getRootLogger`, called for the second time when the level has `passed`; before the
test of the level; before the `LogMessageStream` is constructed; before `formatLogMessage`; before `append`;
or in `::sleep(1)`. -/
inductive Position where
  | idle
  | findRoot (passed : Bool) (statement : Statement)
  | getRoot (passed : Bool) (statement : Statement)
  | storeRoot (passed : Bool) (statement : Statement) (logger : ℕ)
  | testLevel (statement : Statement)
  | construct (statement : Statement)
  | format (statement : Statement) (logger : ℕ) (time : Timestamp)
  | append (statement : Statement) (logger : ℕ) (logBuffer : LogBuffer)
  | exiting

/-- `getRootLogger` has returned the reference. -/
def Position.foundRoot (passed : Bool) (statement : Statement) : Position :=
  if passed then .construct statement else .testLevel statement

/-- The level of a logger was compared with that of a statement. -/
structure Tested (τ : Type) where
  thread : τ
  statement : Statement
  logger : ℕ
  level : LogLevel

/-- A record was given to an appender. -/
structure Appended (τ ι : Type) where
  thread : τ
  statement : Statement
  logger : ℕ
  appender : LogAppender ι
  logBuffer : LogBuffer

end Logging

/-- `given`, `tested` and `appended` are records of the run: what `getLogger` has returned to the application
for each name, the comparisons of levels, and the calls of `append`. -/
structure Logging (τ ι : Type) where
  manager : LoggerManager ι
  appenders : ι → FileLogAppender
  stdout : List UInt8
  position : τ → Logging.Position
  caches : τ → TimeCache
  given : List (String × ℕ)
  tested : List (Logging.Tested τ)
  appended : List (Logging.Appended τ ι)

/-- What is the same in a run: the time zone, the `strftime` of file names, and the thread ids. -/
structure LogHost (τ : Type) where
  localtime : ℤ → Option Tm
  strftime : ℤ → String
  currentTid : τ → Int32

namespace Logging

variable {τ ι : Type} [DecidableEq τ] [DecidableEq ι] (host : LogHost τ)

def goTo (i : τ) (position : Position) (s : Logging τ ι) : Logging τ ι :=
  { s with position := Function.update s.position i position }

/-- What `LOGGER` evaluates to, where the reference to `netsRootLogger_` is read. -/
def pointer (statement : Statement) (s : Logging τ ι) : Option ℕ :=
  statement.logger <|> s.manager.netsRootLogger

/-- The characters of a record are bytes. -/
def toBytes (logBuffer : LogTextBuffer) : LogBuffer where
  bytes := logBuffer.bytes.map Char.toUInt8
  length_lt := by
    rw [List.length_map]
    exact logBuffer.length_lt

def stepFile (i : ι) (action : FileLogAppender.Action) (s : Logging τ ι) : Option (Logging τ ι) :=
  ((s.appenders i).step host.strftime action).map fun appender =>
    { s with appenders := Function.update s.appenders i appender }

def appendTo (appender : LogAppender ι) (logBuffer : LogBuffer) (s : Logging τ ι) :
    Option (Logging τ ι) :=
  match appender with
  | .stdoutLogAppender => some { s with stdout := s.stdout ++ logBuffer.bytes }
  | .fileLogAppender i => s.stepFile host i (.append logBuffer)

/-- The next step of the thread `i` in its statement, at the time `now`. No result where a null pointer is
dereferenced. -/
def advance (i : τ) (now : Timestamp) (s : Logging τ ι) : Option (Logging τ ι) :=
  match s.position i with
  | .idle => none
  | .exiting => none
  | .findRoot passed statement =>
    some (s.goTo i (if s.manager.netsRootLogger.isSome then .foundRoot passed statement
      else .getRoot passed statement))
  | .getRoot passed statement =>
    let (logger, manager) := s.manager.getLogger kNetsRootLoggerName
    some ({ s with manager }.goTo i (.storeRoot passed statement logger))
  | .storeRoot passed statement logger =>
    some ({ s with manager := { s.manager with netsRootLogger := some logger } }.goTo i
      (.foundRoot passed statement))
  | .testLevel statement => do
    let logger ← s.pointer statement
    let object ← s.manager.objects[logger]?
    let s : Logging τ ι := { s with tested := s.tested ++ [⟨i, statement, logger, object.level⟩] }
    return s.goTo i
      (if object.level.toNat ≤ statement.level.toNat then
        if statement.logger.isNone then .findRoot true statement else .construct statement
      else .idle)
  | .construct statement => do
    let logger ← s.pointer statement
    return s.goTo i (.format statement logger now)
  | .format statement logger time => do
    let object ← s.manager.objects[logger]?
    let _ ← object.logFormatter
    let (cache, logBuffer) ← formatLogMessage host.localtime (host.currentTid i) statement.level
      (LogMessage.create time statement.file statement.line statement.stream) (s.caches i) .empty
    return { s with caches := Function.update s.caches i cache }.goTo i
      (.append statement logger (toBytes logBuffer))
  | .append statement logger logBuffer => do
    let object ← s.manager.objects[logger]?
    let appender ← object.logAppender
    let s ← s.appendTo host appender logBuffer
    let s : Logging τ ι := { s with appended := s.appended ++ [⟨i, statement, logger, appender, logBuffer⟩] }
    return s.goTo i (if statement.level = .fatal then .exiting else .idle)

/-- `begin` is of a thread that has the logger of its statement from `getLogger`, or logs by the root
logger. -/
inductive Action (τ ι : Type) where
  | getLogger (loggerName : String)
  | begin (i : τ) (statement : Statement)
  | advance (i : τ) (now : Timestamp)
  | setLevel (logger : ℕ) (level : LogLevel)
  | setLogFormatter (logger : ℕ) (logFormatter : Option LogFormatter)
  | setLogAppender (logger : ℕ) (logAppender : Option (LogAppender ι))
  | setLogFileRollingSize (logger : ℕ) (rollingSize : ℕ)
  | sync (i : ι) (now : ℤ)
  | destroy (i : ι)

def begin (i : τ) (statement : Statement) (s : Logging τ ι) : Option (Logging τ ι) :=
  match s.position i, statement.logger with
  | .idle, none => some (s.goTo i (.findRoot false statement))
  | .idle, some logger =>
    if logger ∈ s.given.map Prod.snd then some (s.goTo i (.testLevel statement)) else none
  | _, _ => none

def setLogFileRollingSize (logger rollingSize : ℕ) (s : Logging τ ι) : Option (Logging τ ι) := do
  let object ← s.manager.objects[logger]?
  match ← object.logAppender with
  | .stdoutLogAppender => return s
  | .fileLogAppender i => s.stepFile host i (.setLogFileRollingSize rollingSize)

def step (s : Logging τ ι) : Action τ ι → Option (Logging τ ι)
  | .getLogger loggerName =>
    let (logger, manager) := s.manager.getLogger loggerName
    some { s with manager, given := s.given ++ [(loggerName, logger)] }
  | .begin i statement => s.begin i statement
  | .advance i now => s.advance host i now
  | .setLevel logger level => some { s with manager := s.manager.modify (Logger.setLevel level) logger }
  | .setLogFormatter logger logFormatter =>
    some { s with manager := s.manager.modify (Logger.setLogFormatter logFormatter) logger }
  | .setLogAppender logger logAppender =>
    some { s with manager := s.manager.modify (Logger.setLogAppender logAppender) logger }
  | .setLogFileRollingSize logger rollingSize => s.setLogFileRollingSize host logger rollingSize
  | .sync i now => s.stepFile host i (.sync now)
  | .destroy i => s.stepFile host i .destroy

def start (appenders : ι → FileLogAppender) : Logging τ ι where
  manager := .construct
  appenders
  stdout := []
  position _ := .idle
  caches _ := .initial
  given := []
  tested := []
  appended := []

/-- The files have been opened, in directories of their own. -/
def system (opened : ι → LogFile) : System (Logging τ ι) (Action τ ι) where
  initial s := ∃ logFileType : ι → LogFileType,
    s = start fun i => FileLogAppender.create (opened i) (logFileType i)
  step := step host

end Logging

end Nets
