import Nets.Verification.LogFormatter.Records
import Nets.Verification.Logger.Steps

/-! # No record is lost on its way to the appender

What a thread has appended are its statements that passed the test of the level, each once and in their order,
but for the one it is at; and what it has appended is the text of the statement. -/

namespace Nets.Logging

open Library

variable {τ ι : Type} [DecidableEq τ] {host : LogHost τ} {s t : Logging τ ι} {i : τ}

/-! ## Statements that passed -/

def Tested.passes (x : Tested τ) : Bool := x.level.toNat ≤ x.statement.level.toNat

/-- The statements of a thread that passed the test of the level. -/
def passed (i : τ) (s : Logging τ ι) : List Statement :=
  (s.tested.filter fun x => decide (x.thread = i) && x.passes).map Tested.statement

/-- The statements of a thread whose record was appended. -/
def logged (i : τ) (s : Logging τ ι) : List Statement :=
  (s.appended.filter fun x => decide (x.thread = i)).map Appended.statement

/-- The statement that has passed and whose record is still to be appended. -/
def inFlight : Position → List Statement
  | .findRoot true statement | .getRoot true statement | .storeRoot true statement _
  | .construct statement | .format statement _ _ | .append statement _ _ => [statement]
  | _ => []

theorem inFlight_foundRoot (passed : Bool) (statement : Statement) :
    inFlight (.foundRoot passed statement) = if passed then [statement] else [] := by
  cases passed <;> rfl

/-- Each thread has appended what passed, but for what is in flight. -/
def Conserved (s : Logging τ ι) : Prop := ∀ i, passed i s = logged i s ++ inFlight (s.position i)

/-- A step of a thread that neither tests nor appends. -/
theorem Conserved.goTo (hs : Conserved s) {position : Position} (htested : t.tested = s.tested)
    (happended : t.appended = s.appended) (hposition : t.position = s.position)
    (hflight : inFlight position = inFlight (s.position i)) : Conserved (t.goTo i position) := by
  intro j
  have hj := hs j
  change (t.tested.filter _).map _ = (t.appended.filter _).map _ ++ _
  rw [htested, happended]
  obtain rfl | hne := eq_or_ne j i
  · rw [goTo_position_self, hflight]
    exact hj
  · rw [goTo_position_of_ne hne, hposition]
    exact hj

theorem Conserved.of_eq (hs : Conserved s) (htested : t.tested = s.tested)
    (happended : t.appended = s.appended) (hposition : t.position = s.position) : Conserved t := by
  intro j
  have hj := hs j
  rw [passed, logged, htested, happended, hposition]
  exact hj

/-- The test of a level. -/
theorem Conserved.test (hs : Conserved s) {statement : Statement} {logger : ℕ} {level : LogLevel}
    {position : Position} (htested : t.tested = s.tested ++ [⟨i, statement, logger, level⟩])
    (happended : t.appended = s.appended) (hposition : t.position = s.position)
    (hnone : inFlight (s.position i) = [])
    (hflight : inFlight position = if level.toNat ≤ statement.level.toNat then [statement] else []) :
    Conserved (t.goTo i position) := by
  intro j
  have hj := hs j
  change (t.tested.filter _).map _ = (t.appended.filter _).map _ ++ _
  rw [htested, happended, List.filter_append, List.map_append]
  change passed j s ++ _ = logged j s ++ _
  obtain rfl | hne := eq_or_ne j i
  · rw [goTo_position_self, hflight, hj, hnone, List.append_nil]
    congr 1
    by_cases hpasses : level.toNat ≤ statement.level.toNat
    · simp [Tested.passes, hpasses]
    · simp [Tested.passes, hpasses]
  · rw [goTo_position_of_ne hne, hposition, hj]
    simp [Ne.symm hne]

/-- The record of the statement in flight is appended. -/
theorem Conserved.append (hs : Conserved s) {statement : Statement} {logger : ℕ} {logBuffer : LogBuffer}
    {appender : LogAppender ι} (hposition : s.position i = .append statement logger logBuffer)
    (htested : t.tested = s.tested)
    (happended : t.appended = s.appended ++ [⟨i, statement, logger, appender, logBuffer⟩])
    (hposition' : t.position = s.position) :
    Conserved (t.goTo i (if statement.level = .fatal then .exiting else .idle)) := by
  intro j
  have hj := hs j
  change (t.tested.filter _).map _ = (t.appended.filter _).map _ ++ _
  rw [htested, happended, List.filter_append, List.map_append]
  change passed j s = logged j s ++ _ ++ _
  obtain rfl | hne := eq_or_ne j i
  · have hflight : inFlight (if statement.level = .fatal then .exiting else .idle) = [] := by
      split <;> rfl
    rw [goTo_position_self, hflight, hj, hposition, List.append_nil]
    simp [inFlight]
  · rw [goTo_position_of_ne hne, hposition', hj]
    simp [Ne.symm hne]

theorem Conserved.moves [DecidableEq ι] (hs : Conserved s) {action : Action τ ι}
    (h : Moves host s action t) : Conserved t := by
  cases h with
  | getLogger => exact hs.of_eq rfl rfl rfl
  | beginRoot i hidle => exact hs.goTo rfl rfl rfl (by rw [hidle]; rfl)
  | begin i hidle => exact hs.goTo rfl rfl rfl (by rw [hidle]; rfl)
  | @findRoot i now passed statement hposition hroot =>
      refine hs.goTo rfl rfl rfl ?_
      rw [inFlight_foundRoot, hposition]
      cases passed <;> rfl
  | @missRoot i now passed statement hposition =>
      refine hs.goTo rfl rfl rfl ?_
      rw [hposition]
      cases passed <;> rfl
  | @getRoot i now passed statement hposition =>
      refine hs.goTo rfl rfl rfl ?_
      rw [hposition]
      cases passed <;> rfl
  | @storeRoot i now passed statement logger hposition =>
      refine hs.goTo rfl rfl rfl ?_
      rw [inFlight_foundRoot, hposition]
      cases passed <;> rfl
  | @testLevel i now statement logger object hposition =>
      refine hs.test rfl rfl rfl (by rw [hposition]; rfl) ?_
      split
      · split <;> rfl
      · rfl
  | construct i now hposition => exact hs.goTo rfl rfl rfl (by rw [hposition]; rfl)
  | format i now hposition => exact hs.goTo rfl rfl rfl (by rw [hposition]; rfl)
  | appendStdout i now hposition => exact hs.append hposition rfl rfl rfl
  | appendFile i now hposition => exact hs.append hposition rfl rfl rfl
  | modify => exact hs.of_eq rfl rfl rfl
  | skip => exact hs
  | stepFile => exact hs.of_eq rfl rfl rfl

/-! ## The texts of records -/

/-- What `formatLogMessage` makes of a statement in the thread `i`. -/
def IsText (host : LogHost τ) (i : τ) (statement : Statement) (logBuffer : LogBuffer) : Prop :=
  ∃ time cache cache' text, TimeCache.Reachable host.localtime cache ∧
    formatLogMessage host.localtime (host.currentTid i) statement.level
      (LogMessage.create time statement.file statement.line statement.stream) cache .empty =
        some (cache', text) ∧ logBuffer = toBytes text

/-- The records that were given to an appender. -/
def recordsOf [DecidableEq ι] (appender : LogAppender ι) (s : Logging τ ι) : List LogBuffer :=
  (s.appended.filter fun x => decide (x.appender = appender)).map Appended.logBuffer

def Texted (host : LogHost τ) (i : τ) : Position → Prop
  | .append statement _ logBuffer => IsText host i statement logBuffer
  | _ => True

structure Formatted (host : LogHost τ) (s : Logging τ ι) : Prop where
  caches : ∀ i, (s.caches i).Reachable host.localtime
  texted : ∀ i, Texted host i (s.position i)
  appended : ∀ x ∈ s.appended, IsText host x.thread x.statement x.logBuffer

theorem cache_of_formatLogMessage {localtime : ℤ → Option Tm} {currentTid : Int32} {logLevel : LogLevel}
    {logMessage : LogMessage} {cache cache' : TimeCache} {logBuffer text : LogTextBuffer}
    (h : formatLogMessage localtime currentTid logLevel logMessage cache logBuffer = some (cache', text)) :
    cache' = cache.lookup localtime logMessage.time.secondsSinceEpoch := by
  simp only [formatLogMessage, formatLogTime] at h
  obtain ⟨_, -, h⟩ := Option.bind_eq_some_iff.mp h
  obtain ⟨_, -, h⟩ := Option.bind_eq_some_iff.mp h
  obtain ⟨_, -, h⟩ := Option.bind_eq_some_iff.mp h
  exact (congrArg Prod.fst (Option.some.inj h)).symm

theorem Formatted.goTo (hs : Formatted host s) {position : Position} (hcaches : t.caches = s.caches)
    (hposition : t.position = s.position) (happended : t.appended = s.appended)
    (htexted : Texted host i position) : Formatted host (t.goTo i position) where
  caches := hcaches ▸ hs.caches
  texted j := by
    obtain rfl | hne := eq_or_ne j i
    · rw [goTo_position_self]
      exact htexted
    · rw [goTo_position_of_ne hne, hposition]
      exact hs.texted j
  appended := happended ▸ hs.appended

theorem Formatted.append (hs : Formatted host s) {statement : Statement} {logger : ℕ}
    {logBuffer : LogBuffer} {appender : LogAppender ι} {position : Position}
    (hposition : s.position i = .append statement logger logBuffer) (hcaches : t.caches = s.caches)
    (happended : t.appended = s.appended ++ [⟨i, statement, logger, appender, logBuffer⟩])
    (hposition' : t.position = s.position) (htexted : Texted host i position) :
    Formatted host (t.goTo i position) := by
  have htext := hs.texted i
  rw [hposition] at htext
  have ht : Formatted host t := by
    refine ⟨hcaches ▸ hs.caches, hposition' ▸ hs.texted, fun x hx => ?_⟩
    rw [happended] at hx
    obtain hx | hx := List.mem_append.mp hx
    · exact hs.appended x hx
    · obtain rfl := List.mem_singleton.mp hx
      exact htext
  exact ht.goTo rfl rfl rfl htexted

omit [DecidableEq τ] in
theorem texted_foundRoot (host : LogHost τ) (i : τ) (passed : Bool) (statement : Statement) :
    Texted host i (.foundRoot passed statement) := by
  cases passed <;> trivial

omit [DecidableEq τ] in
theorem texted_afterAppend (host : LogHost τ) (i : τ) (statement : Statement) :
    Texted host i (if statement.level = .fatal then .exiting else .idle) := by
  split <;> trivial

variable [DecidableEq ι]

theorem Formatted.moves (hs : Formatted host s) {action : Action τ ι} (h : Moves host s action t) :
    Formatted host t := by
  cases h with
  | getLogger => exact ⟨hs.caches, hs.texted, hs.appended⟩
  | beginRoot => exact hs.goTo rfl rfl rfl trivial
  | begin => exact hs.goTo rfl rfl rfl trivial
  | findRoot => exact hs.goTo rfl rfl rfl (texted_foundRoot ..)
  | missRoot => exact hs.goTo rfl rfl rfl trivial
  | getRoot => exact hs.goTo rfl rfl rfl trivial
  | storeRoot => exact hs.goTo rfl rfl rfl (texted_foundRoot ..)
  | testLevel =>
      refine hs.goTo rfl rfl rfl ?_
      split
      · split <;> trivial
      · trivial
  | construct => exact hs.goTo rfl rfl rfl trivial
  | @format i now statement logger time cache text hposition hformat =>
      have hcache := cache_of_formatLogMessage hformat
      have ht : Formatted host { s with caches := Function.update s.caches i cache } := by
        refine ⟨fun j => ?_, hs.texted, hs.appended⟩
        change (Function.update s.caches i cache j).Reachable host.localtime
        obtain rfl | hne := eq_or_ne j i
        · rw [Function.update_self, hcache]
          exact (hs.caches j).lookup _
        · rw [Function.update_of_ne hne]
          exact hs.caches j
      exact ht.goTo rfl rfl rfl ⟨time, s.caches i, cache, text, hs.caches i, hformat, rfl⟩
  | appendStdout i now hposition => exact hs.append hposition rfl rfl rfl (texted_afterAppend ..)
  | appendFile i now hposition => exact hs.append hposition rfl rfl rfl (texted_afterAppend ..)
  | modify => exact ⟨hs.caches, hs.texted, hs.appended⟩
  | skip => exact hs
  | stepFile => exact ⟨hs.caches, hs.texted, hs.appended⟩

/-! ## Standard output -/

omit [DecidableEq τ] in
theorem recordsOf_concat_of_eq {x : Appended τ ι} (h : t.appended = s.appended ++ [x])
    {appender : LogAppender ι} (heq : x.appender = appender) :
    recordsOf appender t = recordsOf appender s ++ [x.logBuffer] := by
  rw [recordsOf, h, List.filter_append, List.map_append]
  simp [recordsOf, heq]

omit [DecidableEq τ] in
theorem recordsOf_concat_of_ne {x : Appended τ ι} (h : t.appended = s.appended ++ [x])
    {appender : LogAppender ι} (hne : x.appender ≠ appender) :
    recordsOf appender t = recordsOf appender s := by
  rw [recordsOf, h, List.filter_append, List.map_append]
  simp [recordsOf, hne]

/-- Standard output is what was given to its appender. -/
def Printed (s : Logging τ ι) : Prop :=
  s.stdout = (recordsOf .stdoutLogAppender s).flatMap StackBuffer.bytes

omit [DecidableEq τ] in
theorem Printed.append_stdout (hs : Printed s) {x : Appended τ ι}
    (happended : t.appended = s.appended ++ [x]) (hstdout : t.stdout = s.stdout ++ x.logBuffer.bytes)
    (heq : x.appender = .stdoutLogAppender) : Printed t := by
  rw [Printed, recordsOf_concat_of_eq happended heq, List.flatMap_append, ← hs, hstdout]
  simp

omit [DecidableEq τ] in
theorem Printed.append_file (hs : Printed s) {x : Appended τ ι}
    (happended : t.appended = s.appended ++ [x]) (hstdout : t.stdout = s.stdout)
    (hne : x.appender ≠ .stdoutLogAppender) : Printed t := by
  rw [Printed, recordsOf_concat_of_ne happended hne, hstdout]
  exact hs

theorem Printed.moves (hs : Printed s) {action : Action τ ι} (h : Moves host s action t) : Printed t := by
  cases h with
  | appendStdout => exact hs.append_stdout rfl rfl rfl
  | appendFile => exact hs.append_file rfl rfl fun h => LogAppender.noConfusion rfl (heq_of_eq h)
  | getLogger => exact hs
  | beginRoot => exact hs
  | begin => exact hs
  | findRoot => exact hs
  | missRoot => exact hs
  | getRoot => exact hs
  | storeRoot => exact hs
  | testLevel => exact hs
  | construct => exact hs
  | format => exact hs
  | modify => exact hs
  | skip => exact hs
  | stepFile => exact hs

/-! ## Runs -/

end Nets.Logging
