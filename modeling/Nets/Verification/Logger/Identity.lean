import Nets.Verification.Logger.Steps

/-! # One logger for each name

However the calls of `getLogger` and the two tests of `netsRootLogger_` interleave, a name has one logger, and
what is logged by the root logger is logged by the one of that name. -/

namespace Nets

open Library

/-! ## The manager -/

namespace LoggerManager

variable {ι : Type} {m m' : LoggerManager ι} {name name' : String} {logger p : ℕ}

/-- The map has every logger under its own name. -/
structure Registered (m : LoggerManager ι) : Prop where
  named : ∀ name p, m.loggers name = some p → ∃ object, m.objects[p]? = some object ∧ object.name = name
  root : ∀ p, m.netsRootLogger = some p → m.loggers kNetsRootLoggerName = some p

/-- What is in the map stays there. -/
def Extends (m m' : LoggerManager ι) : Prop := ∀ name p, m.loggers name = some p → m'.loggers name = some p

theorem registered_construct : Registered (construct : LoggerManager ι) := ⟨nofun, nofun⟩

theorem Registered.name_unique (hm : m.Registered) (h : m.loggers name = some p)
    (h' : m.loggers name' = some p) : name = name' := by
  obtain ⟨object, hobject, hname⟩ := hm.named name p h
  obtain ⟨object', hobject', hname'⟩ := hm.named name' p h'
  obtain rfl := Option.some.inj (hobject.symm.trans hobject')
  exact hname.symm.trans hname'

/-- The logger that `getLogger` makes. -/
def fresh (name : String) : Logger ι :=
  ((Logger.construct name).setLogFormatter (some .defaultLogFormatter)).setLogAppender
    (some .stdoutLogAppender)

theorem getLogger_of_none (h : m.loggers name = none) :
    m.getLogger name = (m.objects.length, { m with
      objects := m.objects ++ [fresh name]
      loggers := Function.update m.loggers name (some m.objects.length) }) := by
  simp only [getLogger, h]
  rfl

/-- `getLogger` finds the logger of the name, or makes it. -/
theorem Registered.getLogger (hm : m.Registered) (name : String) :
    (m.getLogger name).2.Registered ∧ m.Extends (m.getLogger name).2 ∧
      (m.getLogger name).2.loggers name = some (m.getLogger name).1 ∧
      (m.getLogger name).2.netsRootLogger = m.netsRootLogger := by
  cases hfound : m.loggers name with
  | some p =>
      have heq : m.getLogger name = (p, m) := by simp only [LoggerManager.getLogger, hfound]
      rw [heq]
      exact ⟨hm, fun _ _ h => h, hfound, rfl⟩
  | none =>
      rw [getLogger_of_none hfound]
      have hextends (other : String) (p : ℕ) (h : m.loggers other = some p) :
          Function.update m.loggers name (some m.objects.length) other = some p := by
        rw [Function.update_of_ne]
        · exact h
        · rintro rfl
          rw [hfound] at h
          cases h
      refine ⟨⟨fun other p h => ?_, fun p h => hextends _ p (hm.root p h)⟩, hextends,
        Function.update_self .., rfl⟩
      dsimp only at h
      obtain rfl | hne := eq_or_ne other name
      · rw [Function.update_self] at h
        obtain rfl := Option.some.inj h
        exact ⟨_, by rw [List.getElem?_concat_length], rfl⟩
      · rw [Function.update_of_ne hne] at h
        obtain ⟨object, hobject, hname⟩ := hm.named other p h
        refine ⟨object, ?_, hname⟩
        rw [List.getElem?_append_left (List.getElem?_eq_some_iff.mp hobject).1]
        exact hobject

/-- A setter leaves the name. -/
theorem Registered.modify (hm : m.Registered) {f : Logger ι → Logger ι}
    (hf : ∀ object, (f object).name = object.name) (logger : ℕ) : (m.modify f logger).Registered where
  named := by
    intro name p h
    obtain ⟨object, hobject, hname⟩ := hm.named name p h
    refine ⟨if logger = p then f object else object, ?_, ?_⟩
    · simp [LoggerManager.modify, List.getElem?_modify, hobject]
    · split
      · rw [hf, hname]
      · exact hname
  root := hm.root

end LoggerManager

/-! ## Statements -/

namespace Logging

open LoggerManager

variable {τ ι : Type} {s t : Logging τ ι} {m m' : LoggerManager ι} {i : τ} {statement : Statement}
  {logger : ℕ} {position : Position}

/-- The logger of a statement: its own, or the root logger. -/
def Denotes (m : LoggerManager ι) (statement : Statement) (logger : ℕ) : Prop :=
  statement.logger = some logger ∨
    statement.logger = none ∧ m.loggers kNetsRootLoggerName = some logger

/-- What holds at a position. -/
def Placed (m : LoggerManager ι) : Position → Prop
  | .idle | .exiting => True
  | .findRoot _ statement | .getRoot _ statement => statement.logger = none
  | .storeRoot _ statement logger =>
    statement.logger = none ∧ m.loggers kNetsRootLoggerName = some logger
  | .testLevel statement | .construct statement =>
    statement.logger = none → m.netsRootLogger.isSome = true
  | .format statement logger _ | .append statement logger _ => Denotes m statement logger

structure Known (s : Logging τ ι) : Prop where
  registered : s.manager.Registered
  placed : ∀ i, Placed s.manager (s.position i)
  given : ∀ x ∈ s.given, s.manager.loggers x.1 = some x.2
  tested : ∀ x ∈ s.tested, Denotes s.manager x.statement x.logger
  appended : ∀ x ∈ s.appended, Denotes s.manager x.statement x.logger

theorem Denotes.mono (h : Denotes m statement logger) (hextends : m.Extends m') :
    Denotes m' statement logger :=
  h.imp_right (And.imp_right (hextends _ _))

theorem Placed.mono (h : Placed m position) (hextends : m.Extends m')
    (hroot : m.netsRootLogger.isSome = true → m'.netsRootLogger.isSome = true) : Placed m' position := by
  cases position with
  | idle => trivial
  | exiting => trivial
  | findRoot => exact h
  | getRoot => exact h
  | storeRoot => exact h.imp_right (hextends _ _)
  | testLevel => exact fun hnone => hroot (h hnone)
  | construct => exact fun hnone => hroot (h hnone)
  | format => exact Denotes.mono h hextends
  | append => exact Denotes.mono h hextends

theorem placed_foundRoot (h : m.netsRootLogger.isSome = true) (passed : Bool) :
    Placed m (.foundRoot passed statement) := by
  rw [Position.foundRoot]
  split
  · exact fun _ => h
  · exact fun _ => h

theorem placed_afterAppend (m : LoggerManager ι) (statement : Statement) :
    Placed m (if statement.level = .fatal then .exiting else .idle) := by
  split <;> trivial

theorem Known.denotes_pointer (hs : s.Known) (h : s.pointer statement = some logger) :
    Denotes s.manager statement logger := by
  cases hlogger : statement.logger with
  | some p =>
      rw [pointer, hlogger] at h
      exact .inl (hlogger.trans h)
  | none =>
      rw [pointer, hlogger] at h
      exact .inr ⟨hlogger, hs.registered.root logger h⟩

theorem Known.withManager (hs : s.Known) (hm : m'.Registered) (hextends : s.manager.Extends m')
    (hroot : s.manager.netsRootLogger.isSome = true → m'.netsRootLogger.isSome = true) :
    Known { s with manager := m' } where
  registered := hm
  placed i := (hs.placed i).mono hextends hroot
  given x hx := hextends _ _ (hs.given x hx)
  tested x hx := (hs.tested x hx).mono hextends
  appended x hx := (hs.appended x hx).mono hextends

theorem Known.modify (hs : s.Known) (f : Logger ι → Logger ι)
    (hf : ∀ object, (f object).name = object.name) (logger : ℕ) :
    Known { s with manager := s.manager.modify f logger } :=
  hs.withManager (hs.registered.modify hf logger) (fun _ _ h => h) id

theorem known_start (appenders : ι → FileLogAppender) : (start appenders : Logging τ ι).Known :=
  ⟨registered_construct, fun _ => trivial, nofun, nofun, nofun⟩

variable [DecidableEq τ] {host : LogHost τ}

theorem Known.goTo (hs : s.Known) (i : τ) (position : Position) (h : Placed s.manager position) :
    (s.goTo i position).Known where
  registered := hs.registered
  placed j := by
    obtain rfl | hne := eq_or_ne j i
    · rw [goTo_position_self]
      exact h
    · rw [goTo_position_of_ne hne]
      exact hs.placed j
  given := hs.given
  tested := hs.tested
  appended := hs.appended

theorem Known.append (hs : s.Known) {logBuffer : LogBuffer} (appender : LogAppender ι)
    (hposition : s.position i = .append statement logger logBuffer) {position : Position}
    (hplaced : Placed s.manager position) (stdout : List UInt8) (appenders : ι → FileLogAppender) :
    Known (Logging.goTo i position { s with
      stdout
      appenders
      appended := s.appended ++ [⟨i, statement, logger, appender, logBuffer⟩] }) := by
  have hdenotes := hs.placed i
  rw [hposition] at hdenotes
  have ht : Known { s with
      stdout
      appenders
      appended := s.appended ++ [⟨i, statement, logger, appender, logBuffer⟩] } := by
    refine ⟨hs.registered, hs.placed, hs.given, hs.tested, fun x hx => ?_⟩
    obtain hx | hx := List.mem_append.mp hx
    · exact hs.appended x hx
    · obtain rfl := List.mem_singleton.mp hx
      exact hdenotes
  exact ht.goTo i position hplaced

variable [DecidableEq ι]

theorem Known.moves (hs : s.Known) {action : Action τ ι} (h : Moves host s action t) : t.Known := by
  cases h with
  | getLogger loggerName =>
      obtain ⟨hm, hextends, hlogger, hroot⟩ := hs.registered.getLogger loggerName
      have ht := hs.withManager hm hextends (by rw [hroot]; exact id)
      refine ⟨ht.registered, ht.placed, fun x hx => ?_, ht.tested, ht.appended⟩
      obtain hx | hx := List.mem_append.mp hx
      · exact ht.given x hx
      · obtain rfl := List.mem_singleton.mp hx
        exact hlogger
  | beginRoot i hidle hlogger => exact hs.goTo i (.findRoot ..) hlogger
  | @begin i statement logger hidle hlogger hgiven =>
      refine hs.goTo i (.testLevel statement) fun hnone => ?_
      rw [hnone] at hlogger
      cases hlogger
  | @findRoot i now passed statement hposition hroot => exact hs.goTo i _ (placed_foundRoot hroot passed)
  | missRoot i now hposition =>
      have hplaced := hs.placed i
      rw [hposition] at hplaced
      exact hs.goTo i (.getRoot ..) hplaced
  | getRoot i now hposition =>
      have hplaced := hs.placed i
      rw [hposition] at hplaced
      obtain ⟨hm, hextends, hlogger, hroot⟩ := hs.registered.getLogger kNetsRootLoggerName
      exact (hs.withManager hm hextends (by rw [hroot]; exact id)).goTo i (.storeRoot ..) ⟨hplaced, hlogger⟩
  | @storeRoot i now passed statement logger hposition =>
      have hplaced := hs.placed i
      rw [hposition] at hplaced
      have hm : Registered { s.manager with netsRootLogger := some logger } := by
        refine ⟨hs.registered.named, fun p hp => ?_⟩
        obtain rfl := Option.some.inj hp
        exact hplaced.2
      exact (hs.withManager hm (fun _ _ h => h) fun _ => rfl).goTo i _ (placed_foundRoot rfl passed)
  | @testLevel i now statement logger object hposition hpointer hobject =>
      have hplaced := hs.placed i
      rw [hposition] at hplaced
      have hdenotes := hs.denotes_pointer hpointer
      have ht : Known { s with tested := s.tested ++ [⟨i, statement, logger, object.level⟩] } := by
        refine ⟨hs.registered, hs.placed, hs.given, fun x hx => ?_, hs.appended⟩
        obtain hx | hx := List.mem_append.mp hx
        · exact hs.tested x hx
        · obtain rfl := List.mem_singleton.mp hx
          exact hdenotes
      refine ht.goTo i _ ?_
      split
      · split
        · exact Option.isNone_iff_eq_none.mp ‹_›
        · exact hplaced
      · trivial
  | construct i now hposition hpointer => exact hs.goTo i (.format ..) (hs.denotes_pointer hpointer)
  | @format i now statement logger time cache text hposition hformat =>
      have hplaced := hs.placed i
      rw [hposition] at hplaced
      have ht : Known { s with caches := Function.update s.caches i cache } :=
        ⟨hs.registered, hs.placed, hs.given, hs.tested, hs.appended⟩
      exact ht.goTo i (.append ..) hplaced
  | appendStdout i now hposition => exact hs.append _ hposition (placed_afterAppend ..) _ _
  | appendFile i now hposition => exact hs.append _ hposition (placed_afterAppend ..) _ _
  | modify hf => exact hs.modify _ hf.name _
  | skip => exact hs
  | stepFile => exact ⟨hs.registered, hs.placed, hs.given, hs.tested, hs.appended⟩

theorem known_of_reachable {opened : ι → LogFile} (hs : (system host opened).Reachable s) : s.Known := by
  refine hs.invariant (I := Known) ?_ fun _ _ _ h hstep => h.moves (moves_of_step hstep)
  rintro _ ⟨logFileType, rfl⟩
  exact known_start _

/-- In every run each name has one logger, which has that name, and no other name has it; and all that is
logged by the root logger, by whatever thread, is tested and appended by one logger, the one that
`getLogger` returns for its name. -/
theorem one_logger_per_name {opened : ι → LogFile} (hs : (system host opened).Reachable s) :
    (∀ name name' p p', (name, p) ∈ s.given → (name', p') ∈ s.given → (name = name' ↔ p = p')) ∧
    (∀ name p, (name, p) ∈ s.given → (s.manager.objects[p]?).map Logger.name = some name) ∧
    ∃ root, (∀ p, (kNetsRootLoggerName, p) ∈ s.given → p = root) ∧
      (∀ x ∈ s.tested, x.statement.logger = none → x.logger = root) ∧
      (∀ x ∈ s.appended, x.statement.logger = none → x.logger = root) ∧
      ∀ p, s.manager.netsRootLogger = some p → p = root := by
  have hknown := known_of_reachable hs
  have hgiven : ∀ name p, (name, p) ∈ s.given → s.manager.loggers name = some p :=
    fun name p h => hknown.given (name, p) h
  refine ⟨fun name name' p p' h h' => ⟨?_, ?_⟩, fun name p h => ?_, ?_⟩
  · rintro rfl
    exact Option.some.inj ((hgiven _ _ h).symm.trans (hgiven _ _ h'))
  · rintro rfl
    exact hknown.registered.name_unique (hgiven _ _ h) (hgiven _ _ h')
  · obtain ⟨object, hobject, hname⟩ := hknown.registered.named name p (hgiven _ _ h)
    rw [hobject, Option.map_some, hname]
  · have hroot {statement : Statement} {logger : ℕ} (h : Denotes s.manager statement logger)
        (hnone : statement.logger = none) : s.manager.loggers kNetsRootLoggerName = some logger := by
      obtain hown | ⟨-, hroot⟩ := h
      · rw [hnone] at hown
        cases hown
      · exact hroot
    cases hfound : s.manager.loggers kNetsRootLoggerName with
    | some root =>
        have heq {p : ℕ} (h : s.manager.loggers kNetsRootLoggerName = some p) : p = root :=
          Option.some.inj (h.symm.trans hfound)
        exact ⟨root, fun p h => heq (hgiven _ _ h), fun x hx h => heq (hroot (hknown.tested x hx) h),
          fun x hx h => heq (hroot (hknown.appended x hx) h), fun p h => heq (hknown.registered.root p h)⟩
    | none =>
        have hfalse {p : ℕ} (h : s.manager.loggers kNetsRootLoggerName = some p) : False := by
          rw [hfound] at h
          cases h
        exact ⟨0, fun p h => (hfalse (hgiven _ _ h)).elim,
          fun x hx h => (hfalse (hroot (hknown.tested x hx) h)).elim,
          fun x hx h => (hfalse (hroot (hknown.appended x hx) h)).elim,
          fun p h => (hfalse (hknown.registered.root p h)).elim⟩

/-- Two threads find no root logger, and both make it. -/
theorem one_logger_per_name_raced : ∃ s : Logging Bool Empty, s.tested.map Tested.thread = [true, false] ∧
    ∃ root, ∀ x ∈ s.tested, x.statement.logger = none → x.logger = root := by
  let host : LogHost Bool := ⟨fun _ => none, fun _ => "", fun _ => 7⟩
  let statement : Statement := ⟨none, .info, ['/', 'a'], 1, ⟨.empty⟩⟩
  let moves (threads : List Bool) : List (Action Bool Empty) := threads.map fun i => .advance i ⟨0⟩
  let actions := [.begin true statement, .begin false statement] ++
    moves [true, false, false, true, true, false, true, false]
  have hrun : ((system host nofun).run (start nofun) actions).any
      (fun s => decide (s.tested.map Tested.thread = [true, false])) = true := by
    decide +kernel
  obtain ⟨s, hs, htested⟩ := (Option.any_eq_true ..).mp hrun
  have hreached : (system host nofun).Reachable s :=
    System.Reachable.run _ (.initial ⟨nofun, congrArg start (funext nofun)⟩) hs
  obtain ⟨-, -, root, -, hroot, -⟩ := one_logger_per_name hreached
  exact ⟨s, of_decide_eq_true htested, root, hroot⟩

end Logging

end Nets
