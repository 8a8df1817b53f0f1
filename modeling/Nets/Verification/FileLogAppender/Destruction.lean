import Nets.Verification.FileLogAppender.Records

/-! # Destruction of the file appender

`running_` is tested at the top of a cycle only. A sync thread that has passed the test when the
destructor resets it collects what is stored once more; any other one leaves it where it is. -/

namespace Nets.FileLogAppender

open Library

variable {s t u : FileLogAppender} {strftime : ℤ → String}

/-- The bytes in `buffers_` and `cacheBuffer_`. -/
def stored (s : FileLogAppender) : List UInt8 := contents (s.buffers ++ [s.cacheBuffer])

/-- No call of `append`, and no cycle that collects more buffers than are kept. -/
def AfterAppends (s : FileLogAppender) : Action → Prop
  | .append _ => False
  | action => CollectsFew s action

instance (action : Action) : Decidable (AfterAppends s action) := by
  unfold AfterAppends
  split <;> infer_instance

theorem AfterAppends.collectsFew {action : Action} (h : AfterAppends s action) :
    CollectsFew s action := by
  cases action with
  | append => trivial
  | setLogFileRollingSize | destroy | sync => exact h

/-- The destructor has run, and there is a cycle left for what is stored. -/
structure Flushing (s : FileLogAppender) : Prop where
  running : s.running = false
  slots : Slots s
  collects : s.sync.syncing = .waiting ∨ stored s = []

/-- The destructor has run, and no cycle follows for what is stored. -/
structure Abandoned (s : FileLogAppender) : Prop where
  running : s.running = false
  tested : s.sync.syncing ≠ .waiting
  stored : stored s ≠ []

theorem Slots.written_append_stored (hs : Slots s) (hreturned : s.sync.syncing = .returned) :
    s.logFile.written ++ stored s = s.appended := by
  have hnothing : inFlight s.sync = [] := by
    rw [inFlight, hreturned]
    apply hs.spare.collected
    rw [hreturned]
    rfl
  have hrecords := hs.records
  rw [hnothing] at hrecords
  simpa [FileLogAppender.stored] using hrecords

/-- After the critical section nothing is stored: the sync thread has put its empty buffers there. -/
theorem Slots.stored_collect (hs : Slots s) (hwaiting : s.sync.syncing = .waiting) :
    stored s.collect = [] := by
  have hbetween : isBetween s.sync.syncing = true := by
    rw [hwaiting]
    rfl
  obtain ⟨spare, hspare, hempty⟩ := hs.spare.cacheBuffer hbetween
  change contents (s.sync.buffers ++ [s.sync.cacheBuffer]) = []
  rw [hs.spare.collected hbetween, hspare]
  simpa using hempty

theorem stored_eq_nil_of_hasRecords (h : s.hasRecords = some false) : stored s = [] := by
  rw [FileLogAppender.hasRecords] at h
  split at h
  case isTrue hbuffers =>
      obtain ⟨cacheBuffer, hcache, hlength⟩ := Option.map_eq_some_iff.mp h
      have hempty : cacheBuffer.bytes = [] := by
        rw [decide_eq_false_iff_not] at hlength
        simpa [StackBuffer.length] using hlength
      rw [stored, List.isEmpty_iff.mp hbuffers, hcache]
      simpa using hempty
  case isFalse => cases h

/-- What the sync thread does when `running_` is false, as far as what is stored is concerned. -/
theorem stepSync_cases {now : ℤ} (hrunning : s.running = false)
    (h : s.stepSync strftime now = some t) :
    t.running = false ∧ t.sync.syncing ≠ .waiting ∧
      (s.sync.syncing ≠ .waiting ∧ stored t = stored s ∨
        s.sync.syncing = .waiting ∧
          (t = s.collect ∨ stored s = [] ∧ stored t = [])) := by
  rw [FileLogAppender.stepSync] at h
  split at h
  case h_1 hsyncing =>
      rw [← Option.some.inj h]
      exact ⟨hrunning, by simp [hrunning], .inl ⟨by simp [hsyncing], rfl⟩⟩
  case h_2 hsyncing =>
      obtain ⟨hasRecords, hhas, rfl⟩ := Option.map_eq_some_iff.mp h
      cases hasRecords with
      | true =>
          refine ⟨hrunning, ?_, .inr ⟨hsyncing, .inl rfl⟩⟩
          simp [FileLogAppender.collect]
      | false =>
          have hnothing : stored s = [] := stored_eq_nil_of_hasRecords hhas
          exact ⟨hrunning, by simp, .inr ⟨hsyncing, .inr ⟨hnothing, hnothing⟩⟩⟩
  case h_3 hsyncing =>
      rw [← Option.some.inj h]
      exact ⟨hrunning, by simp, .inl ⟨by simp [hsyncing], rfl⟩⟩
  case h_4 now' next hsyncing =>
      rw [FileLogAppender.syncNext] at h
      split at h
      · rw [← Option.some.inj h]
        exact ⟨hrunning, by simp, .inl ⟨by simp [hsyncing], rfl⟩⟩
      · obtain ⟨buffer, -, rfl⟩ := Option.map_eq_some_iff.mp h
        exact ⟨hrunning, by simp, .inl ⟨by simp [hsyncing], rfl⟩⟩
  case h_5 hsyncing =>
      rw [← Option.some.inj h]
      exact ⟨hrunning, by simp [FileLogAppender.clear], .inl ⟨by simp [hsyncing], rfl⟩⟩
  case h_6 => cases h

theorem Flushing.step (hs : Flushing s) {action : Action} (hok : AfterAppends s action)
    (h : s.step strftime action = some t) : Flushing t := by
  have hslots : Slots t := hs.slots.step hok.collectsFew h
  cases action with
  | append => cases hok
  | setLogFileRollingSize | destroy =>
      rw [← Option.some.inj h] at hslots ⊢
      exact ⟨by simp [hs.running], hslots, hs.collects⟩
  | sync now =>
      obtain ⟨hrunning, -, hstored⟩ := stepSync_cases hs.running h
      refine ⟨hrunning, hslots, .inr ?_⟩
      rcases hstored with ⟨htested, hsame⟩ | ⟨hwaiting, rfl | ⟨-, hnothing⟩⟩
      · rw [hsame]
        exact hs.collects.resolve_left htested
      · exact hs.slots.stored_collect hwaiting
      · exact hnothing

theorem Abandoned.step (hs : Abandoned s) {action : Action} (hok : AfterAppends s action)
    (h : s.step strftime action = some t) : Abandoned t := by
  cases action with
  | append => cases hok
  | setLogFileRollingSize | destroy =>
      rw [← Option.some.inj h]
      exact ⟨by simp [hs.running], hs.tested, hs.stored⟩
  | sync now =>
      obtain ⟨hrunning, htested, hstored⟩ := stepSync_cases hs.running h
      rcases hstored with ⟨-, hsame⟩ | ⟨hwaiting, -⟩
      · exact ⟨hrunning, htested, by simpa [hsame] using hs.stored⟩
      · exact absurd hwaiting hs.tested

/-- All records are in the file, and nothing is stored. -/
def LosesNothing (s : FileLogAppender) : Prop :=
  s.logFile.written = s.appended ∧ stored s = []

/-- When the destructor starts after all calls of `append` and has joined the sync thread, nothing is
lost if and only if the sync thread had passed the test of `running_` but not collected yet when the
destructor reset it, or there was nothing to collect. -/
theorem losesNothing_iff {actions : List Action}
    (hs : (system strftime).ReachableUnder CollectsFew s)
    (hdestroy : s.step strftime .destroy = some t)
    (hmeet : (system strftime).StepsMeet AfterAppends t actions)
    (hrun : (system strftime).run t actions = some u) (hjoined : u.sync.syncing = .returned) :
    LosesNothing u ↔ s.sync.syncing = .waiting ∨ stored s = [] := by
  have hslots : Slots s := slots_of_reachableUnder hs
  have hok : CollectsFew s .destroy := trivial
  have hslots' : Slots t := hslots.step hok hdestroy
  have hslots'' : Slots u :=
    hmeet.invariant hslots' hrun fun _ _ _ hs hok h => hs.step hok.collectsFew h
  have hwritten : u.logFile.written ++ stored u = u.appended :=
    hslots''.written_append_stored hjoined
  cases Option.some.inj hdestroy
  constructor
  · rintro ⟨-, hnothing⟩
    by_contra hlost
    rw [not_or] at hlost
    have habandoned : Abandoned u :=
      hmeet.invariant ⟨rfl, hlost.1, hlost.2⟩ hrun fun _ _ _ hs hok h => hs.step hok h
    exact habandoned.stored hnothing
  · intro hcollects
    have hflushing : Flushing u :=
      hmeet.invariant ⟨rfl, hslots', hcollects⟩ hrun fun _ _ _ hs hok h => hs.step hok h
    have hnothing : stored u = [] := by
      apply hflushing.collects.resolve_left
      simp [hjoined]
    exact ⟨by simpa [hnothing] using hwritten, hnothing⟩

/-- The sync thread waits with a record stored when the destructor starts, and writes it. -/
theorem losesNothing_iff_waiting : ∃ (s t u : FileLogAppender) (actions : List Action),
    s.step (fun _ => "1970-01-01_00-00-00") .destroy = some t ∧
      (system fun _ => "1970-01-01_00-00-00").run t actions = some u ∧ stored s = [97, 10] ∧
        u.sync.syncing = .returned ∧
          (LosesNothing u ↔ s.sync.syncing = .waiting ∨ stored s = []) := by
  obtain ⟨logFile, hfile⟩ :
      ∃ logFile, LogFile.create "/tmp/nets/nets.log" 0 (fun _ => none) = some logFile := ⟨_, rfl⟩
  have hinitial : (system fun _ => "1970-01-01_00-00-00").ReachableUnder CollectsFew
      (create logFile .singleFile) := .initial ⟨_, _, _, _, _, hfile, rfl⟩
  obtain ⟨s, hs, hstored, hany⟩ := hinitial.exists_of_runUnder _
    (P := fun s => stored s = [97, 10] ∧
      ((system fun _ => "1970-01-01_00-00-00").runUnder AfterAppends { s with running := false }
        (.replicate 6 (.sync 0))).any (fun u => u.sync.syncing = .returned) = true)
    [.append ⟨[97, 10], by decide⟩, .sync 0] rfl
  obtain ⟨u, hu, hjoined⟩ := (Option.any_eq_true ..).mp hany
  obtain ⟨hmeet, hrun⟩ := System.stepsMeet_of_runUnder hu
  have hreturned : u.sync.syncing = .returned := of_decide_eq_true hjoined
  exact ⟨s, _, u, _, rfl, hrun, hstored, hreturned,
    losesNothing_iff hs rfl hmeet hrun hreturned⟩

/-- The sync thread has not tested `running_` again since the record was appended: it never writes
it. -/
theorem not_losesNothing : ∃ (s t u : FileLogAppender) (actions : List Action),
    (system fun _ => "1970-01-01_00-00-00").ReachableUnder CollectsFew s ∧
      s.step (fun _ => "1970-01-01_00-00-00") .destroy = some t ∧
        (system fun _ => "1970-01-01_00-00-00").StepsMeet AfterAppends t actions ∧
          (system fun _ => "1970-01-01_00-00-00").run t actions = some u ∧
            u.sync.syncing = .returned ∧ ¬ LosesNothing u := by
  obtain ⟨logFile, hfile⟩ :
      ∃ logFile, LogFile.create "/tmp/nets/nets.log" 0 (fun _ => none) = some logFile := ⟨_, rfl⟩
  have hinitial : (system fun _ => "1970-01-01_00-00-00").ReachableUnder CollectsFew
      (create logFile .singleFile) := .initial ⟨_, _, _, _, _, hfile, rfl⟩
  obtain ⟨s, hs, hany⟩ := hinitial.exists_of_runUnder _
    (P := fun s =>
      ((system fun _ => "1970-01-01_00-00-00").runUnder AfterAppends { s with running := false }
        [.sync 0]).any (fun u => u.sync.syncing = .returned ∧ stored u ≠ []) = true)
    [.append ⟨[97, 10], by decide⟩] rfl
  obtain ⟨u, hu, hlost⟩ := (Option.any_eq_true ..).mp hany
  obtain ⟨hmeet, hrun⟩ := System.stepsMeet_of_runUnder hu
  obtain ⟨hreturned, hstored⟩ := of_decide_eq_true hlost
  exact ⟨s, _, u, _, hs, rfl, hmeet, hrun, hreturned, fun h => hstored h.2⟩

end Nets.FileLogAppender
