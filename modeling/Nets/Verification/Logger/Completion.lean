import Nets.Verification.Logger.Files
import Nets.Verification.Logger.Identity

/-! # Every statement comes to its end

Where loggers are given formatters and appenders that are there, no thread comes to a null pointer, and none
needs more than ten steps of its own for a statement, whatever the others do. -/

namespace Nets.Logging

open Library FileLogAppender LoggerManager

variable {τ ι : Type} {host : LogHost τ} {s t : Logging τ ι} {i : τ}

/-! ## Objects -/

/-- What the formatting of a statement relies on. -/
structure Loggable (host : LogHost τ) (i : τ) (statement : Statement) : Prop where
  slash : '/' ∈ statement.file
  currentTid : 0 ≤ (host.currentTid i).toInt
  line : 0 ≤ statement.line.toInt

/-- Nobody sets a null pointer or logs what cannot be formatted. -/
def NonNull (host : LogHost τ) (_ : Logging τ ι) : Action τ ι → Prop
  | .begin i statement => Loggable host i statement
  | .setLogFormatter _ logFormatter => logFormatter.isSome = true
  | .setLogAppender _ logAppender => logAppender.isSome = true
  | _ => True

def statementOf : Position → Option Statement
  | .idle | .exiting => none
  | .findRoot _ statement | .getRoot _ statement | .storeRoot _ statement _ | .testLevel statement
  | .construct statement | .format statement _ _ | .append statement _ _ => some statement

/-- The logger has a formatter and an appender. -/
def Complete (object : Logger ι) : Prop :=
  object.logFormatter.isSome = true ∧ object.logAppender.isSome = true

/-- The statement can be formatted, and its own logger exists. -/
structure Grounded (host : LogHost τ) (m : LoggerManager ι) (i : τ) (statement : Statement) : Prop where
  loggable : Loggable host i statement
  exists_object : ∀ p, statement.logger = some p → p < m.objects.length

structure Ready (host : LogHost τ) (s : Logging τ ι) : Prop where
  complete : ∀ object ∈ s.manager.objects, Complete object
  grounded : ∀ i statement, statementOf (s.position i) = some statement →
    Grounded host s.manager i statement

theorem statementOf_foundRoot (passed : Bool) (statement : Statement) :
    statementOf (.foundRoot passed statement) = some statement := by
  cases passed <;> rfl

theorem statementOf_afterAppend (statement : Statement) :
    statementOf (if statement.level = .fatal then .exiting else .idle) = none := by
  split <;> rfl

theorem objects_getLogger (m : LoggerManager ι) (name : String) :
    (m.getLogger name).2.objects = m.objects ∨ (m.getLogger name).2.objects = m.objects ++ [fresh name] := by
  cases hfound : m.loggers name with
  | some p =>
      left
      simp only [LoggerManager.getLogger, hfound]
  | none =>
      right
      rw [getLogger_of_none hfound]

/-- More objects, all of them complete. -/
structure Improves (m m' : LoggerManager ι) : Prop where
  complete : (∀ object ∈ m.objects, Complete object) → ∀ object ∈ m'.objects, Complete object
  length_le : m.objects.length ≤ m'.objects.length

theorem improves_getLogger (m : LoggerManager ι) (name : String) : Improves m (m.getLogger name).2 := by
  obtain heq | heq := objects_getLogger m name
  · exact ⟨fun h => heq ▸ h, heq ▸ le_rfl⟩
  · refine ⟨fun h object hobject => ?_, ?_⟩
    · rw [heq] at hobject
      obtain hobject | hobject := List.mem_append.mp hobject
      · exact h object hobject
      · obtain rfl := List.mem_singleton.mp hobject
        exact ⟨rfl, rfl⟩
    · rw [heq, List.length_append]
      exact Nat.le_add_right _ _

theorem improves_modify {action : Action τ ι} {logger : ℕ} {f : Logger ι → Logger ι}
    (hf : Sets action logger f) (hok : NonNull host s action) (m : LoggerManager ι) :
    Improves m (m.modify f logger) := by
  have hcomplete (object : Logger ι) (h : Complete object) : Complete (f object) := by
    cases hf with
    | setLevel => exact h
    | setLogFormatter => exact ⟨hok, h.2⟩
    | setLogAppender => exact ⟨h.1, hok⟩
  refine ⟨fun h object hobject => ?_, (List.length_modify ..).ge⟩
  obtain ⟨k, hk⟩ := List.mem_iff_getElem?.mp hobject
  change (m.objects.modify logger f)[k]? = some object at hk
  rw [List.getElem?_modify] at hk
  obtain ⟨before, hbefore, rfl⟩ := Option.map_eq_some_iff.mp hk
  have hmem := List.mem_of_getElem? hbefore
  split
  · exact hcomplete before (h before hmem)
  · exact h before hmem

theorem Grounded.mono {m m' : LoggerManager ι} {statement : Statement} (h : Grounded host m i statement)
    (hm : Improves m m') : Grounded host m' i statement :=
  ⟨h.loggable, fun p hp => (h.exists_object p hp).trans_le hm.length_le⟩

variable [DecidableEq τ] [DecidableEq ι]

theorem improves_of_moves {action : Action τ ι} (hok : NonNull host s action) (h : Moves host s action t) :
    Improves s.manager t.manager := by
  cases h with
  | getLogger loggerName => exact improves_getLogger s.manager loggerName
  | getRoot => exact improves_getLogger s.manager kNetsRootLoggerName
  | modify hf => exact improves_modify hf hok s.manager
  | _ => exact ⟨id, le_rfl⟩

omit [DecidableEq ι] in
/-- A thread that was in its statement before. -/
theorem statementOf_goTo {i j : τ} {statement : Statement} {position : Position}
    (hposition : t.position = s.position)
    (hbefore : ∀ statement, statementOf position = some statement →
      statementOf (s.position i) = some statement)
    (h : statementOf ((t.goTo i position).position j) = some statement) :
    statementOf (s.position j) = some statement := by
  obtain rfl | hne := eq_or_ne j i
  · rw [goTo_position_self] at h
    exact hbefore statement h
  · rw [goTo_position_of_ne hne, hposition] at h
    exact h

/-- No thread comes into a statement but at its beginning. -/
theorem statementOf_of_moves {action : Action τ ι} (h : Moves host s action t) {j : τ}
    {statement : Statement} (hstatement : statementOf (t.position j) = some statement) :
    statementOf (s.position j) = some statement ∨ action = .begin j statement := by
  cases h with
  | beginRoot i hidle | begin i hidle =>
      obtain rfl | hne := eq_or_ne j i
      · rw [goTo_position_self] at hstatement
        obtain rfl := Option.some.inj hstatement
        exact .inr rfl
      · rw [goTo_position_of_ne hne] at hstatement
        exact .inl hstatement
  | findRoot i now hposition | storeRoot i now hposition =>
      refine .inl (statementOf_goTo rfl ?_ hstatement)
      rw [hposition, statementOf_foundRoot]
      exact fun _ h => h
  | missRoot i now hposition | getRoot i now hposition | construct i now hposition
  | format i now hposition =>
      refine .inl (statementOf_goTo rfl ?_ hstatement)
      rw [hposition]
      exact fun _ h => h
  | testLevel i now hposition =>
      refine .inl (statementOf_goTo rfl ?_ hstatement)
      rw [hposition]
      intro started h
      split at h
      · split at h <;> exact h
      · cases h
  | appendStdout i now hposition | appendFile i now hposition =>
      refine .inl (statementOf_goTo rfl ?_ hstatement)
      rw [statementOf_afterAppend]
      intro started h
      cases h
  | getLogger | modify | skip | stepFile => exact .inl hstatement

/-- The logger of a statement is one that was given. -/
theorem Known.grounded_begin (hs : s.Known) {statement : Statement}
    (hok : NonNull host s (.begin i statement)) (h : Moves host s (.begin i statement) t) :
    Grounded host s.manager i statement := by
  refine ⟨hok, fun p hp => ?_⟩
  cases h with
  | beginRoot _ _ hlogger =>
      rw [hlogger] at hp
      cases hp
  | begin _ _ hlogger hgiven =>
      obtain rfl := Option.some.inj (hlogger.symm.trans hp)
      obtain ⟨⟨name, q⟩, hmem, rfl⟩ := List.mem_map.mp hgiven
      obtain ⟨object, hobject, -⟩ := hs.registered.named name q (hs.given _ hmem)
      exact (List.getElem?_eq_some_iff.mp hobject).1
  | modify hf => cases hf
  | stepFile hfile => cases hfile

theorem Ready.moves (hs : Ready host s) (hknown : s.Known) {action : Action τ ι}
    (hok : NonNull host s action) (h : Moves host s action t) : Ready host t := by
  have himproves := improves_of_moves hok h
  refine ⟨himproves.complete hs.complete, fun j statement hstatement => ?_⟩
  obtain hbefore | rfl := statementOf_of_moves h hstatement
  · exact (hs.grounded j statement hbefore).mono himproves
  · exact (hknown.grounded_begin hok h).mono himproves

/-! ## No null pointer -/

omit [DecidableEq τ] [DecidableEq ι] in
theorem Known.exists_object (hs : s.Known) {statement : Statement} {logger : ℕ}
    (hgrounded : Grounded host s.manager i statement) (h : Denotes s.manager statement logger) :
    ∃ object, s.manager.objects[logger]? = some object := by
  obtain hown | ⟨-, hroot⟩ := h
  · exact ⟨_, List.getElem?_eq_getElem (hgrounded.exists_object logger hown)⟩
  · obtain ⟨object, hobject, -⟩ := hs.registered.named _ _ hroot
    exact ⟨object, hobject⟩

end Nets.Logging
