import Nets.Program.FileLogAppender
import Nets.Verification.LogFile.Rolling

/-! # The records of the file appender

Where the bytes of a record are from the critical section of `append` on, and which of the five
buffer slots are empty when. -/

namespace Nets.FileLogAppender

open Library

variable {s t : FileLogAppender} {strftime : ℤ → String}

/-- The bytes in the buffers, in order. -/
def contents (buffers : List BufferPtr) : List UInt8 :=
  buffers.flatMap fun buffer => buffer.elim [] StackBuffer.bytes

/-- The buffers the sync thread has collected and not given to the file yet. -/
def inFlight (s : Sync) : List BufferPtr :=
  match s.syncing with
  | .writing _ next => s.buffers.drop next
  | .clearing => []
  | .testing | .waiting | .dropping | .returned => s.buffers

/-- No cycle collects more buffers than are kept. -/
def CollectsFew (s : FileLogAppender) : Action → Prop
  | .sync _ => s.sync.syncing = .dropping → s.sync.buffers.length ≤ kMaximumOfLogBuffer
  | _ => True

instance (action : Action) : Decidable (CollectsFew s action) := by
  unfold CollectsFew
  split <;> infer_instance

/-- Every record is in its place, and the next one finds room. -/
structure KeepsRecords (s : FileLogAppender) : Prop where
  records : s.logFile.written ++ contents (inFlight s.sync) ++ contents s.buffers ++
    contents [s.cacheBuffer] = s.appended
  cacheBuffer : s.cacheBuffer ≠ none
  backupCacheBuffer : ∀ buffer, s.backupCacheBuffer = some buffer → buffer.bytes = []
  room : ∀ logBuffer : LogBuffer, ∃ buffer, (s.makeRoom logBuffer.length).map Prod.fst = some buffer ∧
    logBuffer.length < buffer.writableBytes

/-- The sync thread is at the beginning of its loop, or has left it. -/
def isBetween : Syncing → Bool
  | .testing | .waiting | .returned => true
  | .dropping | .writing .. | .clearing => false

/-- The slots of the sync thread: between two rounds both of its spare buffers are there, and empty. -/
structure Spare (s : Sync) : Prop where
  buffers : none ∉ s.buffers
  collected : isBetween s.syncing = true → s.buffers = []
  cacheBuffer : isBetween s.syncing = true → ∃ buffer, s.cacheBuffer = some buffer ∧ buffer.bytes = []
  backupCacheBuffer : ∀ buffer, s.backupCacheBuffer = some buffer → buffer.bytes = []

/-- The slots of the appender and what is in them. -/
structure Slots (s : FileLogAppender) : Prop where
  records : s.logFile.written ++ contents (inFlight s.sync) ++ contents s.buffers ++
    contents [s.cacheBuffer] = s.appended
  cacheBuffer : ∃ buffer, s.cacheBuffer = some buffer
  backupCacheBuffer : ∀ buffer, s.backupCacheBuffer = some buffer → buffer.bytes = []
  buffers : none ∉ s.buffers
  spare : Spare s.sync

@[simp] theorem contents_nil : contents [] = [] := rfl

@[simp] theorem contents_append (xs ys : List BufferPtr) :
    contents (xs ++ ys) = contents xs ++ contents ys := by
  simp [contents]

@[simp] theorem contents_some (buffer : BufferType) : contents [some buffer] = buffer.bytes := by
  simp [contents]

/-! ## `append` -/

/-- A buffer without bytes takes every record. -/
theorem lt_writableBytes {buffer : BufferType} (hempty : buffer.bytes = []) (logBuffer : LogBuffer) :
    logBuffer.length < buffer.writableBytes := by
  have hlength : logBuffer.length < kLogBufferSize := logBuffer.length_lt
  have hsize : kLogBufferSize < kLogBufferPieceSize := by decide
  have hunused : buffer.length = 0 := by
    rw [StackBuffer.length, hempty, List.length_nil]
  rw [StackBuffer.writableBytes, hunused, Nat.sub_zero]
  exact hlength.trans hsize

/-- `makeRoom` moves full buffers and copies nothing: what is stored before the new record stays the
same, and the buffer for it has room. -/
structure MakesRoom (logBuffer : LogBuffer) (s : FileLogAppender) (buffer : BufferType)
    (backupCacheBuffer : BufferPtr) (buffers : List BufferPtr) : Prop where
  result : s.makeRoom logBuffer.length = some (buffer, backupCacheBuffer, buffers)
  room : logBuffer.length < buffer.writableBytes
  stored : contents buffers ++ buffer.bytes = contents s.buffers ++ contents [s.cacheBuffer]
  empty : ∀ backup, backupCacheBuffer = some backup → backup.bytes = []
  loaded : none ∉ buffers

theorem Slots.makeRoom (hs : Slots s) (logBuffer : LogBuffer) :
    ∃ buffer backupCacheBuffer buffers, MakesRoom logBuffer s buffer backupCacheBuffer buffers := by
  obtain ⟨cacheBuffer, hcache⟩ := hs.cacheBuffer
  have hfull : none ∉ s.buffers ++ [some cacheBuffer] := by
    simpa using hs.buffers
  have hstored : contents (s.buffers ++ [some cacheBuffer]) =
      contents s.buffers ++ contents [s.cacheBuffer] := by
    rw [contents_append, hcache]
  by_cases hroom : logBuffer.length < cacheBuffer.writableBytes
  · refine ⟨cacheBuffer, s.backupCacheBuffer, s.buffers, ?_, hroom, ?_, hs.backupCacheBuffer,
      hs.buffers⟩
    · simp [FileLogAppender.makeRoom, hcache, hroom]
    · rw [hcache, contents_some]
  · cases hbackup : s.backupCacheBuffer with
    | none =>
        refine ⟨.empty, none, s.buffers ++ [some cacheBuffer], ?_, lt_writableBytes rfl logBuffer, ?_,
          nofun, hfull⟩
        · simp [FileLogAppender.makeRoom, hcache, hroom, hbackup]
        · rw [StackBuffer.bytes_empty, List.append_nil, hstored]
    | some backup =>
        have hempty : backup.bytes = [] := hs.backupCacheBuffer backup hbackup
        refine ⟨backup, none, s.buffers ++ [some cacheBuffer], ?_,
          lt_writableBytes hempty logBuffer, ?_, nofun, hfull⟩
        · simp [FileLogAppender.makeRoom, hcache, hroom, hbackup]
        · rw [hempty, List.append_nil, hstored]

theorem Slots.keepsRecords (hs : Slots s) : KeepsRecords s := by
  refine ⟨hs.records, ?_, hs.backupCacheBuffer, ?_⟩
  · obtain ⟨cacheBuffer, hcache⟩ := hs.cacheBuffer
    rw [hcache]
    exact Option.some_ne_none cacheBuffer
  · intro logBuffer
    obtain ⟨buffer, backupCacheBuffer, buffers, h⟩ := hs.makeRoom logBuffer
    exact ⟨buffer, by rw [h.result]; rfl, h.room⟩

theorem Slots.append (hs : Slots s) {logBuffer : LogBuffer} (h : s.append logBuffer = some t) :
    Slots t := by
  obtain ⟨buffer, backupCacheBuffer, buffers, hroom⟩ := hs.makeRoom logBuffer
  rw [FileLogAppender.append, hroom.result] at h
  rw [← Option.some.inj h]
  refine ⟨?_, ⟨_, rfl⟩, hroom.empty, hroom.loaded, hs.spare⟩
  have hwritten : contents [some (buffer.writeBytes logBuffer.bytes)] =
      buffer.bytes ++ logBuffer.bytes := by
    rw [contents_some, StackBuffer.bytes_writeBytes hroom.room]
  calc s.logFile.written ++ contents (inFlight s.sync) ++ contents buffers ++
        contents [some (buffer.writeBytes logBuffer.bytes)]
      = s.logFile.written ++ contents (inFlight s.sync) ++ (contents buffers ++ buffer.bytes) ++
          logBuffer.bytes := by
        rw [hwritten]
        simp only [List.append_assoc]
    _ = s.logFile.written ++ contents (inFlight s.sync) ++ contents s.buffers ++
          contents [s.cacheBuffer] ++ logBuffer.bytes := by
        rw [hroom.stored]
        simp only [List.append_assoc]
    _ = s.appended ++ logBuffer.bytes := by
        rw [hs.records]

/-! ## `sync` -/

/-- The critical section moves everything that is stored to the sync thread and leaves an empty buffer
in its place; the backup is replaced only by an empty one. -/
theorem Slots.collect (hs : Slots s) (hsyncing : s.sync.syncing = .waiting) : Slots s.collect := by
  have hbetween : isBetween s.sync.syncing = true := by rw [hsyncing]; rfl
  have hcollected : s.sync.buffers = [] := hs.spare.collected hbetween
  have hnothing : inFlight s.sync = [] := by
    rw [inFlight, hsyncing]
    exact hcollected
  obtain ⟨spare, hspare, hempty⟩ := hs.spare.cacheBuffer hbetween
  obtain ⟨cacheBuffer, hcache⟩ := hs.cacheBuffer
  refine ⟨?_, ⟨spare, hspare⟩, ?_, ?_, ?_, nofun, nofun, ?_⟩
  · change s.logFile.written ++ contents (s.buffers ++ [s.cacheBuffer]) ++ contents s.sync.buffers ++
      contents [s.sync.cacheBuffer] = s.appended
    rw [← hs.records, hnothing, hcollected, hspare, contents_some, hempty]
    simp
  · intro buffer hbuffer
    change (if s.backupCacheBuffer.isSome then s.sync.backupCacheBuffer
      else s.backupCacheBuffer) = some buffer at hbuffer
    split at hbuffer
    · exact hs.spare.backupCacheBuffer buffer hbuffer
    · exact hs.backupCacheBuffer buffer hbuffer
  · change none ∉ s.sync.buffers
    exact hs.spare.buffers
  · change none ∉ s.buffers ++ [s.cacheBuffer]
    rw [hcache]
    simpa using hs.buffers
  · intro buffer hbuffer
    change (if s.backupCacheBuffer.isSome then none else s.sync.backupCacheBuffer) =
      some buffer at hbuffer
    split at hbuffer
    · cases hbuffer
    · exact hs.spare.backupCacheBuffer buffer hbuffer

/-- The sync thread goes on without touching the slots. -/
theorem Slots.goOn (hs : Slots s) (syncing : Syncing)
    (hflight : inFlight { s.sync with syncing } = inFlight s.sync)
    (hbetween : isBetween syncing = true → isBetween s.sync.syncing = true) :
    Slots { s with sync := { s.sync with syncing } } := by
  refine ⟨?_, hs.cacheBuffer, hs.backupCacheBuffer, hs.buffers, hs.spare.buffers,
    fun h => hs.spare.collected (hbetween h), fun h => hs.spare.cacheBuffer (hbetween h),
    hs.spare.backupCacheBuffer⟩
  rw [hflight]
  exact hs.records

/-- One buffer goes from the sync thread to the file. -/
theorem Slots.syncNext (hs : Slots s) {now : ℤ} {next : ℕ}
    (hsyncing : s.sync.syncing = .writing now next) (h : s.syncNext strftime now next = some t) :
    Slots t := by
  have hflight : inFlight s.sync = s.sync.buffers.drop next := by
    rw [inFlight, hsyncing]
  rw [FileLogAppender.syncNext] at h
  split at h
  case h_1 hend =>
      rw [← Option.some.inj h]
      apply hs.goOn .clearing ?_ nofun
      rw [hflight]
      exact (List.drop_eq_nil_of_le (List.getElem?_eq_none_iff.mp hend)).symm
  case h_2 pointer hpointer =>
      obtain ⟨buffer, rfl, rfl⟩ := Option.map_eq_some_iff.mp h
      refine ⟨?_, hs.cacheBuffer, hs.backupCacheBuffer, hs.buffers, hs.spare.buffers, nofun, nofun,
        hs.spare.backupCacheBuffer⟩
      obtain ⟨hnext, hget⟩ := List.getElem?_eq_some_iff.mp hpointer
      have hdrop : contents (s.sync.buffers.drop next) =
          buffer.bytes ++ contents (s.sync.buffers.drop (next + 1)) := by
        rw [List.drop_eq_getElem_cons hnext, hget, ← List.singleton_append, contents_append,
          contents_some]
      change (s.logFile.syncBuffer strftime s.logFileType s.logFileRollingSize now buffer).written ++
        contents (s.sync.buffers.drop (next + 1)) ++ contents s.buffers ++ contents [s.cacheBuffer] =
          s.appended
      rw [LogFile.written_syncBuffer, ← hs.records, hflight, hdrop]
      simp only [List.append_assoc]

theorem Slots.clear (hs : Slots s) (hsyncing : s.sync.syncing = .clearing) :
    Slots { s with sync := FileLogAppender.clear s.sync } := by
  have hnothing : inFlight s.sync = [] := by
    rw [inFlight, hsyncing]
  refine ⟨?_, hs.cacheBuffer, hs.backupCacheBuffer, hs.buffers, nofun, fun _ => rfl,
    fun _ => ⟨.empty, rfl, rfl⟩, ?_⟩
  · change s.logFile.written ++ contents [] ++ contents s.buffers ++ contents [s.cacheBuffer] =
      s.appended
    rw [← hs.records, hnothing]
  · intro buffer hbuffer
    change (if s.sync.backupCacheBuffer.isNone then some StackBuffer.empty
      else s.sync.backupCacheBuffer) = some buffer at hbuffer
    split at hbuffer
    · rw [← Option.some.inj hbuffer]
      rfl
    · exact hs.spare.backupCacheBuffer buffer hbuffer

theorem dropBuffers_of_few {buffers : List BufferPtr} (h : buffers.length ≤ kMaximumOfLogBuffer) :
    dropBuffers buffers = buffers := by
  rw [dropBuffers, if_neg (Nat.not_lt.mpr h)]

theorem Slots.stepSync (hs : Slots s) {now : ℤ} (hok : CollectsFew s (.sync now))
    (h : s.stepSync strftime now = some t) : Slots t := by
  rw [FileLogAppender.stepSync] at h
  split at h
  case h_1 hsyncing =>
      rw [← Option.some.inj h]
      have hbetween : isBetween s.sync.syncing = true := by rw [hsyncing]; rfl
      apply hs.goOn _ _ fun _ => hbetween
      by_cases hrunning : s.running = true
      · rw [inFlight, inFlight, hsyncing, if_pos hrunning]
      · rw [inFlight, inFlight, hsyncing, if_neg hrunning]
  case h_2 hsyncing =>
      obtain ⟨hasRecords, -, rfl⟩ := Option.map_eq_some_iff.mp h
      split
      · exact hs.collect hsyncing
      · apply hs.goOn .testing
        · rw [inFlight, inFlight, hsyncing]
        · intro _
          rw [hsyncing]
          rfl
  case h_3 hsyncing =>
      rw [← Option.some.inj h, dropBuffers_of_few (hok hsyncing)]
      apply hs.goOn (.writing now 0) _ nofun
      rw [inFlight, inFlight, hsyncing]
      exact List.drop_zero
  case h_4 hsyncing => exact hs.syncNext hsyncing h
  case h_5 hsyncing =>
      rw [← Option.some.inj h]
      exact hs.clear hsyncing
  case h_6 => cases h

theorem Slots.step (hs : Slots s) {action : Action} (hok : CollectsFew s action)
    (h : s.step strftime action = some t) : Slots t := by
  cases action with
  | append logBuffer => exact hs.append h
  | setLogFileRollingSize | destroy =>
      rw [← Option.some.inj h]
      exact ⟨hs.records, hs.cacheBuffer, hs.backupCacheBuffer, hs.buffers, hs.spare⟩
  | sync now => exact hs.stepSync hok h

/-! ## Runs -/

theorem slots_create {file : String} {createTime : ℤ} {files : Files String UInt8}
    {logFile : LogFile} (hfile : LogFile.create file createTime files = some logFile)
    (logFileType : LogFileType) : Slots (create logFile logFileType) := by
  obtain ⟨-, hresult⟩ := Option.ite_none_left_eq_some.mp hfile
  have hwritten : logFile.written = [] := by rw [← Option.some.inj hresult]
  have hempty : ∀ buffer : BufferType, some .empty = some buffer → buffer.bytes = [] := by
    rintro _ ⟨⟩
    rfl
  refine ⟨?_, ⟨.empty, rfl⟩, hempty, nofun, nofun, fun _ => rfl, fun _ => ⟨.empty, rfl, rfl⟩, hempty⟩
  change logFile.written ++ contents [] ++ contents [] ++ contents [some .empty] = []
  rw [hwritten]
  rfl

theorem slots_of_reachableUnder (hs : (system strftime).ReachableUnder CollectsFew s) : Slots s := by
  induction hs with
  | initial hs =>
      obtain ⟨file, createTime, files, logFile, logFileType, hfile, rfl⟩ := hs
      exact slots_create hfile logFileType
  | @step s t action _ hok h ih => exact ih.step hok h

/-- Every record is written, in flight or stored, in the order of the calls of `append`. -/
theorem keeps_records (hs : (system strftime).ReachableUnder CollectsFew s) : KeepsRecords s :=
  (slots_of_reachableUnder hs).keepsRecords

/-- The first record is in flight and the second stored. -/
theorem keeps_records_two : ∃ s : FileLogAppender,
    (system fun _ => "1970-01-01_00-00-00").ReachableUnder CollectsFew s ∧
      s.sync.buffers.length = 1 ∧ s.appended = [97, 10, 98, 10] ∧ KeepsRecords s := by
  obtain ⟨logFile, hfile⟩ :
      ∃ logFile, LogFile.create "/tmp/nets/nets.log" 0 (fun _ => none) = some logFile := ⟨_, rfl⟩
  have hinitial : (system fun _ => "1970-01-01_00-00-00").ReachableUnder CollectsFew
      (create logFile .singleFile) := .initial ⟨_, _, _, _, _, hfile, rfl⟩
  obtain ⟨s, hs, hcollected, happended⟩ := hinitial.exists_of_runUnder _
    (P := fun s => s.sync.buffers.length = 1 ∧ s.appended = [97, 10, 98, 10])
    [.append ⟨[97, 10], by decide⟩, .sync 0, .sync 0, .append ⟨[98, 10], by decide⟩] rfl
  exact ⟨s, hs, hcollected, happended, keeps_records hs⟩

end Nets.FileLogAppender
