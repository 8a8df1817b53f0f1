import Mathlib.Data.List.Forall2
import Nets.Library.Segments
import Nets.Verification.FileLogAppender.Records

/-! # Whole records

Buffers may be dropped and files put aside, under a name that is taken already or not: a record is written
to a file as a whole or not at all. -/

namespace Nets.FileLogAppender

open Library

variable {strftime : ℤ → String}

/-! ## What the buffers consist of -/

inductive Piece where
  | record (logBuffer : LogBuffer)
  | warning (count : ℕ)

namespace Piece

def bytes : Piece → List UInt8
  | .record logBuffer => logBuffer.bytes
  | .warning count => droppedWarning count

def toRecord : Piece → Option LogBuffer
  | .record logBuffer => some logBuffer
  | .warning _ => none

end Piece

/-- The appender with the records that were appended so far. -/
structure Recorded where
  appender : FileLogAppender
  records : List LogBuffer

def appendedBy : Action → List LogBuffer
  | .append logBuffer => [logBuffer]
  | _ => []

/-- The runs of `system` on a file that has been opened. -/
def recorded (strftime : ℤ → String) (opened : LogFile) : System Recorded Action where
  initial s := ∃ logFileType, s = ⟨create opened logFileType, []⟩
  step s action :=
    (s.appender.step strftime action).map fun appender =>
      ⟨appender, s.records ++ appendedBy action⟩

/-- The buffer has exactly the given pieces. -/
def IsFilled (buffer : BufferPtr) (pieces : List Piece) : Prop :=
  ∃ b, buffer = some b ∧ b.bytes = pieces.flatMap Piece.bytes

abbrev Filled : List BufferPtr → List (List Piece) → Prop := List.Forall₂ IsFilled

theorem isFilled_empty : IsFilled (some .empty) [] := ⟨.empty, rfl, rfl⟩

theorem Filled.concat {buffers : List BufferPtr} {filled : List (List Piece)} {buffer : BufferPtr}
    {pieces : List Piece} (h : Filled buffers filled) (hbuffer : IsFilled buffer pieces) :
    Filled (buffers ++ [buffer]) (filled ++ [pieces]) :=
  List.rel_append h (.cons hbuffer .nil)

/-- The files have the pieces that were written. -/
def HasPieces (before : Files String UInt8) (f : LogFile) (pieces : List Piece) : Prop :=
  ∃ aside current, Segmented before Piece.bytes f.file pieces aside current f.files

/-- Where every piece is: written, collected by the sync thread, stored, or in `cacheBuffer_`. -/
structure Whole (before : Files String UInt8) (s : Recorded) (written : List Piece)
    (queued full : List (List Piece)) (last : List Piece) : Prop where
  files : HasPieces before s.appender.logFile written
  collected : Filled (inFlight s.appender.sync) queued
  stored : Filled s.appender.buffers full
  cached : IsFilled s.appender.cacheBuffer last
  order : ((written ++ queued.flatten ++ full.flatten ++ last).filterMap Piece.toRecord).Sublist
    s.records
  backup : ∀ buffer, s.appender.backupCacheBuffer = some buffer → buffer.bytes = []
  spare : Spare s.appender.sync

variable {before : Files String UInt8} {s : Recorded} {t : FileLogAppender} {written : List Piece}
  {queued full : List (List Piece)} {last : List Piece}

/-! ## `append` -/

theorem isFilled_writeBytes {buffer : BufferType} {pieces : List Piece} (logBuffer : LogBuffer)
    (hbuffer : buffer.bytes = pieces.flatMap Piece.bytes)
    (hroom : logBuffer.length < buffer.writableBytes) :
    IsFilled (some (buffer.writeBytes logBuffer.bytes)) (pieces ++ [.record logBuffer]) := by
  refine ⟨_, rfl, ?_⟩
  rw [StackBuffer.bytes_writeBytes hroom, hbuffer, List.flatMap_append]
  simp [Piece.bytes]

/-- The record is the last piece, in the buffer that was there or in one without any. -/
theorem Whole.makeRoom (hs : Whole before s written queued full last) (logBuffer : LogBuffer)
    {buffer : BufferType} {backup : BufferPtr} {buffers : List BufferPtr}
    (h : s.appender.makeRoom logBuffer.length = some (buffer, backup, buffers)) :
    ∃ full' last', Filled buffers full' ∧
      IsFilled (some (buffer.writeBytes logBuffer.bytes)) (last' ++ [.record logBuffer]) ∧
      full'.flatten ++ last' = full.flatten ++ last ∧
      ∀ b, backup = some b → b.bytes = [] := by
  obtain ⟨cacheBuffer, hcache, hbytes⟩ := hs.cached
  rw [FileLogAppender.makeRoom, hcache, Option.map_some] at h
  have hresult := Option.some.inj h
  by_cases hroom : logBuffer.length < cacheBuffer.writableBytes
  · rw [if_pos hroom] at hresult
    obtain ⟨rfl, rfl, rfl⟩ : cacheBuffer = buffer ∧ s.appender.backupCacheBuffer = backup ∧
        s.appender.buffers = buffers := by
      simpa using hresult
    exact ⟨full, last, hs.stored, isFilled_writeBytes logBuffer hbytes hroom, rfl, hs.backup⟩
  · rw [if_neg hroom] at hresult
    have hstored : Filled (s.appender.buffers ++ [some cacheBuffer]) (full ++ [last]) :=
      hs.stored.concat ⟨cacheBuffer, rfl, hbytes⟩
    cases hbackup : s.appender.backupCacheBuffer with
    | none =>
        rw [hbackup] at hresult
        obtain ⟨rfl, rfl, rfl⟩ : StackBuffer.empty = buffer ∧ none = backup ∧
            s.appender.buffers ++ [some cacheBuffer] = buffers := by
          simpa using hresult
        exact ⟨_, [], hstored, isFilled_writeBytes logBuffer rfl (lt_writableBytes rfl logBuffer),
          by simp, fun _ hnone => absurd hnone (Option.some_ne_none _).symm⟩
    | some spare =>
        rw [hbackup] at hresult
        obtain ⟨rfl, rfl, rfl⟩ : spare = buffer ∧ none = backup ∧
            s.appender.buffers ++ [some cacheBuffer] = buffers := by
          simpa using hresult
        have hempty := hs.backup spare hbackup
        exact ⟨_, [], hstored,
          isFilled_writeBytes logBuffer hempty (lt_writableBytes hempty logBuffer), by simp,
          fun _ hnone => absurd hnone (Option.some_ne_none _).symm⟩

theorem Whole.append (hs : Whole before s written queued full last) {logBuffer : LogBuffer}
    (h : s.appender.append logBuffer = some t) :
    ∃ full' last', Whole before ⟨t, s.records ++ [logBuffer]⟩ written queued full' last' := by
  obtain ⟨⟨buffer, backup, buffers⟩, hroom, rfl⟩ := Option.map_eq_some_iff.mp h
  obtain ⟨full', last', hstored, hcached, hflat, hbackup⟩ := hs.makeRoom logBuffer hroom
  refine ⟨full', last' ++ [.record logBuffer], hs.files, hs.collected, hstored, hcached, ?_, hbackup,
    hs.spare⟩
  have hpieces : written ++ queued.flatten ++ full'.flatten ++ (last' ++ [.record logBuffer]) =
      (written ++ queued.flatten ++ full.flatten ++ last) ++ [.record logBuffer] := by
    calc written ++ queued.flatten ++ full'.flatten ++ (last' ++ [.record logBuffer])
        = written ++ queued.flatten ++ (full'.flatten ++ last') ++ [.record logBuffer] := by
          simp only [List.append_assoc]
      _ = _ := by
          rw [hflat]
          simp only [List.append_assoc]
  rw [hpieces, List.filterMap_append]
  exact hs.order.append (.refl _)

/-! ## `sync` -/

theorem Filled.none_notMem {buffers : List BufferPtr} {filled : List (List Piece)}
    (h : Filled buffers filled) : none ∉ buffers := by
  induction h with
  | nil => exact List.not_mem_nil
  | cons hbuffer _ ih =>
      obtain ⟨b, rfl, -⟩ := hbuffer
      simpa using ih

/-- The sync thread goes on without touching the slots. -/
theorem Whole.goOn (hs : Whole before s written queued full last) (syncing : Syncing)
    (hflight : inFlight { s.appender.sync with syncing } = inFlight s.appender.sync)
    (hbetween : isBetween syncing = true → isBetween s.appender.sync.syncing = true) :
    Whole before ⟨{ s.appender with sync := { s.appender.sync with syncing } }, s.records⟩ written queued
      full last :=
  { hs with
    collected := hflight ▸ hs.collected
    spare := ⟨hs.spare.buffers, fun h => hs.spare.collected (hbetween h),
      fun h => hs.spare.cacheBuffer (hbetween h), hs.spare.backupCacheBuffer⟩ }

/-- Everything that is stored becomes the queue of the sync thread. -/
theorem Whole.collect (hs : Whole before s written queued full last)
    (hsyncing : s.appender.sync.syncing = .waiting) :
    Whole before ⟨s.appender.collect, s.records⟩ written (full ++ [last]) [] [] := by
  have hbetween : isBetween s.appender.sync.syncing = true := by rw [hsyncing]; rfl
  have hnothing : s.appender.sync.buffers = [] := hs.spare.collected hbetween
  obtain ⟨spare, hspare, hempty⟩ := hs.spare.cacheBuffer hbetween
  have hqueued : queued = [] := by
    have hcollected := hs.collected
    rw [inFlight, hsyncing] at hcollected
    simp only [hnothing] at hcollected
    exact List.forall₂_nil_left_iff.mp hcollected
  have hall := hs.stored.concat hs.cached
  refine ⟨hs.files, hall, ?_, ⟨spare, hspare, hempty⟩, ?_, ?_, hall.none_notMem,
    (absurd · Bool.false_ne_true), (absurd · Bool.false_ne_true), ?_⟩
  · change Filled s.appender.sync.buffers []
    rw [hnothing]
    exact .nil
  · have horder := hs.order
    rw [hqueued] at horder
    simpa using horder
  · intro buffer hbuffer
    change (if s.appender.backupCacheBuffer.isSome then s.appender.sync.backupCacheBuffer
      else s.appender.backupCacheBuffer) = some buffer at hbuffer
    split at hbuffer
    · exact hs.spare.backupCacheBuffer buffer hbuffer
    · exact hs.backup buffer hbuffer
  · intro buffer hbuffer
    change (if s.appender.backupCacheBuffer.isSome then none
      else s.appender.sync.backupCacheBuffer) = some buffer at hbuffer
    split at hbuffer
    · cases hbuffer
    · exact hs.spare.backupCacheBuffer buffer hbuffer

/-- The warning is a piece of its own. -/
theorem exists_isFilled_warning (count : ℕ) :
    ∃ pieces, IsFilled (some (StackBuffer.empty.writeBytes (droppedWarning count))) pieces ∧
      pieces.filterMap Piece.toRecord = [] := by
  by_cases hroom : (droppedWarning count).length < (StackBuffer.empty : BufferType).writableBytes
  · refine ⟨[.warning count], ⟨_, rfl, ?_⟩, rfl⟩
    rw [StackBuffer.bytes_writeBytes hroom]
    simp [Piece.bytes]
  · refine ⟨[], ⟨_, rfl, ?_⟩, rfl⟩
    rw [StackBuffer.writeBytes, dif_neg hroom]
    rfl

/-- What is dropped is dropped as whole buffers. -/
theorem Filled.dropBuffers {buffers : List BufferPtr} {filled : List (List Piece)}
    (h : Filled buffers filled) :
    ∃ filled', Filled (dropBuffers buffers) filled' ∧
      (filled'.flatten.filterMap Piece.toRecord).Sublist (filled.flatten.filterMap Piece.toRecord) := by
  rw [FileLogAppender.dropBuffers]
  split
  · obtain ⟨pieces, hpieces, hnone⟩ := exists_isFilled_warning (buffers.length / 2)
    refine ⟨filled.take (buffers.length / 2) ++ [pieces],
      Filled.concat (List.forall₂_take _ h) hpieces, ?_⟩
    have hflat : (filled.take (buffers.length / 2) ++ [pieces]).flatten.filterMap Piece.toRecord =
        (filled.take (buffers.length / 2)).flatten.filterMap Piece.toRecord := by
      simp [hnone]
    rw [hflat]
    have hsplit := congrArg List.flatten (List.take_append_drop (buffers.length / 2) filled)
    rw [List.flatten_append] at hsplit
    rw [← hsplit]
    exact (List.sublist_append_left _ _).filterMap _
  · exact ⟨filled, h, .refl _⟩

theorem Whole.drop (hs : Whole before s written queued full last)
    (hsyncing : s.appender.sync.syncing = .dropping) (now : ℤ) :
    ∃ queued', Whole before
      ⟨{ s.appender with
          sync := { s.appender.sync with
            syncing := .writing now 0
            buffers := dropBuffers s.appender.sync.buffers } }, s.records⟩ written queued' full last := by
  have hcollected := hs.collected
  rw [inFlight, hsyncing] at hcollected
  obtain ⟨queued', hqueued, hsublist⟩ := hcollected.dropBuffers
  refine ⟨queued', hs.files, hqueued, hs.stored, hs.cached, ?_, hs.backup, hqueued.none_notMem,
    (absurd · Bool.false_ne_true), (absurd · Bool.false_ne_true), hs.spare.backupCacheBuffer⟩
  refine List.Sublist.trans ?_ hs.order
  simp only [List.filterMap_append]
  exact (((List.Sublist.refl _).append hsublist).append (.refl _)).append (.refl _)

/-- The file is the same one, and what is put aside is put aside whole. -/
theorem hasPieces_syncBuffer {f : LogFile} {pieces more : List Piece} {buffer : BufferType}
    (h : HasPieces before f pieces) (hbuffer : buffer.bytes = more.flatMap Piece.bytes)
    (logFileType : LogFileType) (logFileRollingSize : ℕ) (now : ℤ) :
    HasPieces before (f.syncBuffer strftime logFileType logFileRollingSize now buffer)
      (pieces ++ more) := by
  obtain ⟨aside, current, hsegmented⟩ := h
  rw [LogFile.syncBuffer, hbuffer]
  split
  · obtain ⟨aside', current', hrotated⟩ := hsegmented.rotate (f.rolledName strftime now)
    exact ⟨_, _, hrotated.append more⟩
  · exact ⟨_, _, hsegmented.append more⟩

/-- One buffer goes from the sync thread to the file. -/
theorem Whole.syncNext (hs : Whole before s written queued full last) {now : ℤ} {next : ℕ}
    (hsyncing : s.appender.sync.syncing = .writing now next)
    (h : s.appender.syncNext strftime now next = some t) :
    ∃ written' queued', Whole before ⟨t, s.records⟩ written' queued' full last := by
  have hflight : inFlight s.appender.sync = s.appender.sync.buffers.drop next := by
    rw [inFlight, hsyncing]
  rw [FileLogAppender.syncNext] at h
  split at h
  case h_1 hend =>
      rw [← Option.some.inj h]
      refine ⟨written, queued, hs.goOn .clearing ?_ (absurd · Bool.false_ne_true)⟩
      rw [hflight]
      exact (List.drop_eq_nil_of_le (List.getElem?_eq_none_iff.mp hend)).symm
  case h_2 pointer hpointer =>
      obtain ⟨buffer, rfl, rfl⟩ := Option.map_eq_some_iff.mp h
      obtain ⟨hnext, hget⟩ := List.getElem?_eq_some_iff.mp hpointer
      have hcollected := hs.collected
      rw [hflight, List.drop_eq_getElem_cons hnext, hget] at hcollected
      obtain ⟨pieces, rest, ⟨b, hb, hbytes⟩, hrest, rfl⟩ := List.forall₂_cons_left_iff.mp hcollected
      obtain rfl := Option.some.inj hb
      refine ⟨written ++ pieces, rest, hasPieces_syncBuffer hs.files hbytes _ _ _, hrest, hs.stored,
        hs.cached, ?_, hs.backup, hs.spare.buffers,
        (absurd · Bool.false_ne_true), (absurd · Bool.false_ne_true), hs.spare.backupCacheBuffer⟩
      have horder := hs.order
      rwa [List.flatten_cons, ← List.append_assoc written] at horder

theorem Whole.clear (hs : Whole before s written queued full last)
    (hsyncing : s.appender.sync.syncing = .clearing) :
    Whole before ⟨{ s.appender with sync := FileLogAppender.clear s.appender.sync }, s.records⟩ written
      queued full last := by
  have hnothing : inFlight s.appender.sync = [] := by
    rw [inFlight, hsyncing]
  have hcollected := hs.collected
  rw [hnothing] at hcollected
  refine { hs with
    collected := hcollected
    spare := ⟨List.not_mem_nil, fun _ => rfl, fun _ => ⟨.empty, rfl, rfl⟩, ?_⟩ }
  intro buffer hbuffer
  change (if s.appender.sync.backupCacheBuffer.isNone then some StackBuffer.empty
    else s.appender.sync.backupCacheBuffer) = some buffer at hbuffer
  split at hbuffer
  · rw [← Option.some.inj hbuffer]
    rfl
  · exact hs.spare.backupCacheBuffer buffer hbuffer

theorem Whole.stepSync (hs : Whole before s written queued full last) {now : ℤ}
    (h : s.appender.stepSync strftime now = some t) :
    ∃ written' queued' full' last', Whole before ⟨t, s.records⟩ written' queued' full' last' := by
  rw [FileLogAppender.stepSync] at h
  split at h
  case h_1 hsyncing =>
      rw [← Option.some.inj h]
      refine ⟨_, _, _, _, hs.goOn _ ?_ fun _ => by rw [hsyncing]; rfl⟩
      by_cases hrunning : s.appender.running = true
      · rw [inFlight, inFlight, hsyncing, if_pos hrunning]
      · rw [inFlight, inFlight, hsyncing, if_neg hrunning]
  case h_2 hsyncing =>
      obtain ⟨hasRecords, -, rfl⟩ := Option.map_eq_some_iff.mp h
      split
      · exact ⟨_, _, _, _, hs.collect hsyncing⟩
      · refine ⟨_, _, _, _, hs.goOn .testing ?_ fun _ => by rw [hsyncing]; rfl⟩
        rw [inFlight, inFlight, hsyncing]
  case h_3 hsyncing =>
      rw [← Option.some.inj h]
      obtain ⟨queued', hqueued⟩ := hs.drop hsyncing now
      exact ⟨_, _, _, _, hqueued⟩
  case h_4 hsyncing =>
      obtain ⟨written', queued', hnext⟩ := hs.syncNext hsyncing h
      exact ⟨_, _, _, _, hnext⟩
  case h_5 hsyncing =>
      rw [← Option.some.inj h]
      exact ⟨_, _, _, _, hs.clear hsyncing⟩
  case h_6 => cases h

/-! ## Runs -/

theorem Whole.step (hs : Whole before s written queued full last) {action : Action}
    (h : s.appender.step strftime action = some t) :
    ∃ written' queued' full' last',
      Whole before ⟨t, s.records ++ appendedBy action⟩ written' queued' full' last' := by
  cases action with
  | append logBuffer =>
      obtain ⟨full', last', hnext⟩ := hs.append h
      exact ⟨_, _, full', last', hnext⟩
  | setLogFileRollingSize rollingSize =>
      rw [← Option.some.inj h, show appendedBy (.setLogFileRollingSize rollingSize) = [] from rfl,
        List.append_nil]
      exact ⟨_, _, _, _, hs.files, hs.collected, hs.stored, hs.cached, hs.order, hs.backup, hs.spare⟩
  | destroy =>
      rw [← Option.some.inj h, show appendedBy .destroy = [] from rfl, List.append_nil]
      exact ⟨_, _, _, _, hs.files, hs.collected, hs.stored, hs.cached, hs.order, hs.backup, hs.spare⟩
  | sync now =>
      rw [show appendedBy (.sync now) = [] from rfl, List.append_nil]
      exact hs.stepSync h

theorem whole_create {file : String} {createTime : ℤ} {opened : LogFile}
    (hopened : LogFile.create file createTime before = some opened) (logFileType : LogFileType) :
    Whole before ⟨create opened logFileType, []⟩ [] [] [] [] := by
  obtain ⟨-, hresult⟩ := Option.ite_none_left_eq_some.mp hopened
  have hempty : ∀ buffer : BufferType, some .empty = some buffer → buffer.bytes = [] := by
    rintro _ ⟨⟩
    rfl
  refine ⟨?_, .nil, .nil, isFilled_empty, .refl _, hempty, nofun, fun _ => rfl,
    fun _ => ⟨.empty, rfl, rfl⟩, hempty⟩
  rw [← Option.some.inj hresult]
  exact ⟨_, _, .openAppend before Piece.bytes file⟩

/-- What is written is among what was appended. -/
theorem Whole.written_sublist (hs : Whole before s written queued full last) :
    (written.filterMap Piece.toRecord).Sublist s.records := by
  refine List.Sublist.trans ?_ hs.order
  rw [List.append_assoc, List.append_assoc]
  exact (List.sublist_append_left _ _).filterMap _

/-- However many buffers are dropped, whatever names the files are put aside under, and wherever the
destructor comes in: at any time every file that was written consists of what the file had before the
appender was made, or of nothing, and then of whole records and warnings. The records, read from the file
that was put aside first to the one that is being written, are among those appended, in their order. -/
theorem files_have_whole_records {file : String} {createTime : ℤ} {opened : LogFile}
    (hopened : LogFile.create file createTime before = some opened)
    (hs : (recorded strftime opened).Reachable s) :
    ∃ (pieces : List Piece) (aside : List (Segment String UInt8 Piece)) (current : Segment _ _ _),
      Segmented before Piece.bytes s.appender.logFile.file pieces aside current
        s.appender.logFile.files ∧
      (((aside ++ [current]).flatMap Segment.pieces).filterMap Piece.toRecord).Sublist s.records := by
  obtain ⟨written, queued, full, last, hwhole⟩ :
      ∃ written queued full last, Whole before s written queued full last := by
    refine hs.invariant (I := fun s => ∃ written queued full last, Whole before s written queued full last)
      ?_ ?_
    · rintro _ ⟨logFileType, rfl⟩
      exact ⟨[], [], [], [], whole_create hopened logFileType⟩
    · rintro s action t ⟨written, queued, full, last, hwhole⟩ ht
      obtain ⟨appender, hstep, rfl⟩ := Option.map_eq_some_iff.mp ht
      exact hwhole.step hstep
  obtain ⟨aside, current, hsegmented⟩ := hwhole.files
  exact ⟨written, aside, current, hsegmented,
    (hsegmented.sublist.filterMap _).trans hwhole.written_sublist⟩

/-- The first record is written while the second is stored. -/
theorem files_have_whole_records_two : ∃ (opened : LogFile) (s : Recorded)
    (aside : List (Segment String UInt8 Piece)) (current : Segment _ _ _),
    (recorded (fun _ => "1970-01-01_00-00-00") opened).Reachable s ∧
      s.appender.logFile.files.contents "/tmp/nets/nets.log" = [97, 10] ∧
      [97, 10] = current.old ++ current.pieces.flatMap Piece.bytes ∧
      (((aside ++ [current]).flatMap Segment.pieces).filterMap Piece.toRecord).Sublist s.records := by
  obtain ⟨opened, hopened⟩ :
      ∃ opened, LogFile.create "/tmp/nets/nets.log" 0 (fun _ => none) = some opened := ⟨_, rfl⟩
  have hinitial : (recorded (fun _ => "1970-01-01_00-00-00") opened).ReachableUnder (fun _ _ => True)
      ⟨create opened .singleFile, []⟩ := .initial ⟨_, rfl⟩
  obtain ⟨-, hresult⟩ := Option.ite_none_left_eq_some.mp hopened
  obtain rfl := Option.some.inj hresult
  obtain ⟨s, hs, hfile, hcontents⟩ := hinitial.exists_of_runUnder _
    (P := fun s => s.appender.logFile.file = "/tmp/nets/nets.log" ∧
      s.appender.logFile.files.contents "/tmp/nets/nets.log" = [97, 10])
    [.append ⟨[97, 10], by decide⟩, .sync 0, .sync 0, .append ⟨[98, 10], by decide⟩, .sync 0, .sync 0]
    rfl
  obtain ⟨pieces, aside, current, hfiles, hrecords⟩ := files_have_whole_records hopened hs
  have heq := hfiles.contents current (List.mem_append_right _ (List.mem_singleton_self _))
  rw [hfiles.named, hfile, hcontents] at heq
  exact ⟨_, s, aside, current, hs, hcontents, heq, hrecords⟩

end Nets.FileLogAppender
