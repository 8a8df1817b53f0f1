import Nets.Program.Logger
import Nets.Verification.FileLogAppender.Wholeness

/-! # The steps of a program that logs -/

namespace Nets.Logging

open Library

variable {τ ι : Type} [DecidableEq τ] [DecidableEq ι]

/-- The action changes a logger by `f`. -/
inductive Sets : Action τ ι → ℕ → (Logger ι → Logger ι) → Prop where
  | setLevel (logger : ℕ) (level : LogLevel) : Sets (.setLevel logger level) logger (Logger.setLevel level)
  | setLogFormatter (logger : ℕ) (logFormatter : Option LogFormatter) :
      Sets (.setLogFormatter logger logFormatter) logger (Logger.setLogFormatter logFormatter)
  | setLogAppender (logger : ℕ) (logAppender : Option (LogAppender ι)) :
      Sets (.setLogAppender logger logAppender) logger (Logger.setLogAppender logAppender)

/-- The action is one of the appender `j`. -/
inductive OnFile : Action τ ι → ι → FileLogAppender.Action → Prop where
  | setLogFileRollingSize (logger : ℕ) (j : ι) (rollingSize : ℕ) :
      OnFile (.setLogFileRollingSize logger rollingSize) j (.setLogFileRollingSize rollingSize)
  | sync (j : ι) (now : ℤ) : OnFile (.sync j now) j (.sync now)
  | destroy (j : ι) : OnFile (.destroy j) j .destroy

omit [DecidableEq τ] [DecidableEq ι] in
theorem Sets.name {action : Action τ ι} {logger : ℕ} {f : Logger ι → Logger ι} (hf : Sets action logger f)
    (object : Logger ι) : (f object).name = object.name := by
  cases hf <;> rfl

omit [DecidableEq τ] [DecidableEq ι] in
theorem OnFile.appendedBy {action : Action τ ι} {j : ι} {fileAction : FileLogAppender.Action}
    (h : OnFile action j fileAction) : FileLogAppender.appendedBy fileAction = [] := by
  cases h <;> rfl

omit [DecidableEq ι] in
@[simp] theorem goTo_position_self (i : τ) (position : Position) (s : Logging τ ι) :
    (s.goTo i position).position i = position :=
  Function.update_self ..

omit [DecidableEq ι] in
theorem goTo_position_of_ne {i j : τ} (h : j ≠ i) (position : Position) (s : Logging τ ι) :
    (s.goTo i position).position j = s.position j :=
  Function.update_of_ne h ..

/-- A step, by what it does. -/
inductive Moves (host : LogHost τ) (s : Logging τ ι) : Action τ ι → Logging τ ι → Prop where
  | getLogger (loggerName : String) :
      Moves host s (.getLogger loggerName) { s with
        manager := (s.manager.getLogger loggerName).2
        given := s.given ++ [(loggerName, (s.manager.getLogger loggerName).1)] }
  | beginRoot (i : τ) {statement : Statement} (hidle : s.position i = .idle)
      (hlogger : statement.logger = none) :
      Moves host s (.begin i statement) (s.goTo i (.findRoot false statement))
  | begin (i : τ) {statement : Statement} {logger : ℕ} (hidle : s.position i = .idle)
      (hlogger : statement.logger = some logger) (hgiven : logger ∈ s.given.map Prod.snd) :
      Moves host s (.begin i statement) (s.goTo i (.testLevel statement))
  | findRoot (i : τ) (now : Timestamp) {passed : Bool} {statement : Statement}
      (hposition : s.position i = .findRoot passed statement)
      (hroot : s.manager.netsRootLogger.isSome = true) :
      Moves host s (.advance i now) (s.goTo i (.foundRoot passed statement))
  | missRoot (i : τ) (now : Timestamp) {passed : Bool} {statement : Statement}
      (hposition : s.position i = .findRoot passed statement) :
      Moves host s (.advance i now) (s.goTo i (.getRoot passed statement))
  | getRoot (i : τ) (now : Timestamp) {passed : Bool} {statement : Statement}
      (hposition : s.position i = .getRoot passed statement) :
      Moves host s (.advance i now)
        (Logging.goTo i
          (.storeRoot passed statement (s.manager.getLogger kNetsRootLoggerName).1)
          { s with manager := (s.manager.getLogger kNetsRootLoggerName).2 })
  | storeRoot (i : τ) (now : Timestamp) {passed : Bool} {statement : Statement} {logger : ℕ}
      (hposition : s.position i = .storeRoot passed statement logger) :
      Moves host s (.advance i now)
        (Logging.goTo i (.foundRoot passed statement)
          { s with manager := { s.manager with netsRootLogger := some logger } })
  | testLevel (i : τ) (now : Timestamp) {statement : Statement} {logger : ℕ} {object : Logger ι}
      (hposition : s.position i = .testLevel statement) (hpointer : s.pointer statement = some logger)
      (hobject : s.manager.objects[logger]? = some object) :
      Moves host s (.advance i now)
        (Logging.goTo i
          (if object.level.toNat ≤ statement.level.toNat then
            if statement.logger.isNone then .findRoot true statement else .construct statement
          else .idle)
          { s with tested := s.tested ++ [⟨i, statement, logger, object.level⟩] })
  | construct (i : τ) (now : Timestamp) {statement : Statement} {logger : ℕ}
      (hposition : s.position i = .construct statement) (hpointer : s.pointer statement = some logger) :
      Moves host s (.advance i now) (s.goTo i (.format statement logger now))
  | format (i : τ) (now : Timestamp) {statement : Statement} {logger : ℕ} {time : Timestamp}
      {cache : TimeCache} {logBuffer : LogTextBuffer}
      (hposition : s.position i = .format statement logger time)
      (hformat : formatLogMessage host.localtime (host.currentTid i) statement.level
        (LogMessage.create time statement.file statement.line statement.stream) (s.caches i) .empty =
          some (cache, logBuffer)) :
      Moves host s (.advance i now)
        (Logging.goTo i (.append statement logger (toBytes logBuffer))
          { s with caches := Function.update s.caches i cache })
  | appendStdout (i : τ) (now : Timestamp) {statement : Statement} {logger : ℕ} {logBuffer : LogBuffer}
      (hposition : s.position i = .append statement logger logBuffer) :
      Moves host s (.advance i now)
        (Logging.goTo i (if statement.level = .fatal then .exiting else .idle)
          { s with
            stdout := s.stdout ++ logBuffer.bytes
            appended := s.appended ++ [⟨i, statement, logger, .stdoutLogAppender, logBuffer⟩] })
  | appendFile (i : τ) (now : Timestamp) {statement : Statement} {logger : ℕ} {logBuffer : LogBuffer}
      {j : ι} {appender : FileLogAppender} (hposition : s.position i = .append statement logger logBuffer)
      (happender : (s.appenders j).step host.strftime (.append logBuffer) = some appender) :
      Moves host s (.advance i now)
        (Logging.goTo i (if statement.level = .fatal then .exiting else .idle)
          { s with
            appenders := Function.update s.appenders j appender
            appended := s.appended ++ [⟨i, statement, logger, .fileLogAppender j, logBuffer⟩] })
  | modify {action : Action τ ι} {logger : ℕ} {f : Logger ι → Logger ι} (hf : Sets action logger f) :
      Moves host s action { s with manager := s.manager.modify f logger }
  | skip (logger rollingSize : ℕ) : Moves host s (.setLogFileRollingSize logger rollingSize) s
  | stepFile {action : Action τ ι} {j : ι} {fileAction : FileLogAppender.Action} {appender : FileLogAppender}
      (hfile : OnFile action j fileAction)
      (happender : (s.appenders j).step host.strftime fileAction = some appender) :
      Moves host s action { s with appenders := Function.update s.appenders j appender }

variable {host : LogHost τ} {s t : Logging τ ι}

theorem moves_of_advance {i : τ} {now : Timestamp} (h : s.advance host i now = some t) :
    Moves host s (.advance i now) t := by
  rw [advance] at h
  split at h
  case h_1 => cases h
  case h_2 => cases h
  case h_3 passed statement hposition =>
      obtain rfl := Option.some.inj h
      split
      · exact .findRoot i now hposition ‹_›
      · exact .missRoot i now hposition
  case h_4 passed statement hposition =>
      obtain rfl := Option.some.inj h
      exact .getRoot i now hposition
  case h_5 passed statement logger hposition =>
      obtain rfl := Option.some.inj h
      exact .storeRoot i now hposition
  case h_6 statement hposition =>
      obtain ⟨logger, hlogger, h⟩ := Option.bind_eq_some_iff.mp h
      obtain ⟨object, hobject, h⟩ := Option.bind_eq_some_iff.mp h
      obtain rfl := Option.some.inj h
      exact .testLevel i now hposition hlogger hobject
  case h_7 statement hposition =>
      obtain ⟨logger, hlogger, h⟩ := Option.bind_eq_some_iff.mp h
      obtain rfl := Option.some.inj h
      exact .construct i now hposition hlogger
  case h_8 statement logger time hposition =>
      obtain ⟨object, -, h⟩ := Option.bind_eq_some_iff.mp h
      obtain ⟨formatter, -, h⟩ := Option.bind_eq_some_iff.mp h
      obtain ⟨⟨cache, text⟩, hformat, h⟩ := Option.bind_eq_some_iff.mp h
      obtain rfl := Option.some.inj h
      exact .format i now hposition hformat
  case h_9 statement logger logBuffer hposition =>
      obtain ⟨object, -, h⟩ := Option.bind_eq_some_iff.mp h
      obtain ⟨appender, -, h⟩ := Option.bind_eq_some_iff.mp h
      obtain ⟨u, hu, h⟩ := Option.bind_eq_some_iff.mp h
      obtain rfl := Option.some.inj h
      cases appender with
      | stdoutLogAppender =>
          obtain rfl := Option.some.inj hu
          exact .appendStdout i now hposition
      | fileLogAppender j =>
          obtain ⟨appender, happender, rfl⟩ := Option.map_eq_some_iff.mp hu
          exact .appendFile i now hposition happender

theorem moves_of_stepFile {action : Action τ ι} {j : ι} {fileAction : FileLogAppender.Action}
    (hfile : OnFile action j fileAction) (h : s.stepFile host j fileAction = some t) :
    Moves host s action t := by
  obtain ⟨appender, happender, rfl⟩ := Option.map_eq_some_iff.mp h
  exact .stepFile hfile happender

theorem moves_of_step {action : Action τ ι} (h : s.step host action = some t) : Moves host s action t := by
  cases action with
  | getLogger loggerName =>
      obtain rfl := Option.some.inj h
      exact .getLogger loggerName
  | begin i statement =>
      simp only [step, begin] at h
      split at h
      case h_1 hidle hnone =>
          obtain rfl := Option.some.inj h
          exact .beginRoot i hidle hnone
      case h_2 logger hidle hlogger =>
          obtain ⟨hgiven, h⟩ := Option.ite_none_right_eq_some.mp h
          obtain rfl := Option.some.inj h
          exact .begin i hidle hlogger hgiven
      case h_3 => cases h
  | advance i now => exact moves_of_advance h
  | setLevel logger level =>
      obtain rfl := Option.some.inj h
      exact .modify (.setLevel logger level)
  | setLogFormatter logger logFormatter =>
      obtain rfl := Option.some.inj h
      exact .modify (.setLogFormatter logger logFormatter)
  | setLogAppender logger logAppender =>
      obtain rfl := Option.some.inj h
      exact .modify (.setLogAppender logger logAppender)
  | setLogFileRollingSize logger rollingSize =>
      obtain ⟨object, -, h⟩ := Option.bind_eq_some_iff.mp h
      obtain ⟨appender, -, h⟩ := Option.bind_eq_some_iff.mp h
      cases appender with
      | stdoutLogAppender => exact Option.some.inj h ▸ .skip logger rollingSize
      | fileLogAppender j => exact moves_of_stepFile (.setLogFileRollingSize logger j rollingSize) h
  | sync j now => exact moves_of_stepFile (.sync j now) h
  | destroy j => exact moves_of_stepFile (.destroy j) h

end Nets.Logging
