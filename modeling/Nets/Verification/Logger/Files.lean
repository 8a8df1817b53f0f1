import Nets.Verification.Logger.Conservation

/-! # From statements to files

What is in the files of an appender are whole lines of statements that passed the test of the level. -/

namespace Nets.Logging

open Library FileLogAppender

variable {τ ι : Type} [DecidableEq τ] {host : LogHost τ} {s t : Logging τ ι} {i : τ} {statement : Statement}
  {logBuffer : LogBuffer}

/-! ## Lines -/

variable [DecidableEq ι] {before : ι → Files String UInt8} {opened : ι → LogFile}

/-- Each appender has the records that it was given. -/
def Kept (before : ι → Files String UInt8) (s : Logging τ ι) : Prop :=
  ∀ j, ∃ written queued full last,
    Whole (before j) ⟨s.appenders j, recordsOf (.fileLogAppender j) s⟩ written queued full last

omit [DecidableEq τ] in
/-- One appender takes a step, and is given what the step appends. -/
theorem Kept.update (hs : Kept before s) {j : ι} {action : FileLogAppender.Action}
    {appender : FileLogAppender} (hstep : (s.appenders j).step host.strftime action = some appender)
    (happenders : t.appenders = Function.update s.appenders j appender)
    (hself : recordsOf (.fileLogAppender j) t = recordsOf (.fileLogAppender j) s ++ appendedBy action)
    (hother : ∀ k, k ≠ j → recordsOf (.fileLogAppender k) t = recordsOf (.fileLogAppender k) s) :
    Kept before t := by
  intro k
  obtain ⟨written, queued, full, last, hwhole⟩ := hs k
  obtain rfl | hne := eq_or_ne k j
  · rw [happenders, Function.update_self, hself]
    exact hwhole.step hstep
  · rw [happenders, Function.update_of_ne hne, hother k hne]
    exact ⟨written, queued, full, last, hwhole⟩

omit [DecidableEq τ] in
theorem Kept.append_stdout (hs : Kept before s) {x : Appended τ ι}
    (happended : t.appended = s.appended ++ [x]) (happenders : t.appenders = s.appenders)
    (heq : x.appender = .stdoutLogAppender) : Kept before t := by
  intro j
  rw [happenders, recordsOf_concat_of_ne happended (by rw [heq]; simp)]
  exact hs j

omit [DecidableEq τ] in
theorem Kept.append_file (hs : Kept before s) {x : Appended τ ι} {j : ι} {appender : FileLogAppender}
    (happended : t.appended = s.appended ++ [x])
    (happenders : t.appenders = Function.update s.appenders j appender)
    (heq : x.appender = .fileLogAppender j)
    (hstep : (s.appenders j).step host.strftime (.append x.logBuffer) = some appender) : Kept before t := by
  refine hs.update hstep happenders (recordsOf_concat_of_eq happended heq) fun k hne => ?_
  refine recordsOf_concat_of_ne happended ?_
  rw [heq]
  simpa using hne.symm

theorem Kept.moves (hs : Kept before s) {action : Action τ ι} (h : Moves host s action t) :
    Kept before t := by
  cases h with
  | appendStdout => exact hs.append_stdout rfl rfl rfl
  | appendFile i now hposition happender => exact hs.append_file rfl rfl rfl happender
  | stepFile hfile happender =>
      refine hs.update happender rfl ?_ fun _ _ => rfl
      rw [hfile.appendedBy, List.append_nil]
      rfl
  | getLogger => exact hs
  | beginRoot => exact hs
  | begin => exact hs
  | findRoot => exact hs
  | missRoot => exact hs
  | getRoot => exact hs
  | storeRoot => exact hs
  | testLevel => exact hs
  | construct => exact hs
  | format => exact hs
  | modify => exact hs
  | skip => exact hs

end Nets.Logging
