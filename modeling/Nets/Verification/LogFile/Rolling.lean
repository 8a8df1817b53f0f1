import Mathlib.Data.List.Nodup
import Nets.Library.System
import Nets.Program.LogFile

/-! # Rolling the log file

A file is put aside under the second in which its batch is written. Nothing is lost exactly where no
two rolls have the same name. -/

namespace Nets.LogFile

open Library

variable {strftime : ℤ → String} {f g : LogFile}

/-- One call of `syncRollingFile`: the time it reads, and the buffers. -/
structure Batch where
  now : ℤ
  logFileRollingSize : ℕ
  buffers : List BufferType

/-- The calls one after the other, on a log file that has been opened. -/
def rolling (strftime : ℤ → String) (opened : LogFile) : System LogFile Batch where
  initial f := f = opened
  step f batch :=
    some (f.syncRollingFile strftime batch.logFileRollingSize batch.now batch.buffers)

/-- What has been put aside, in order, and after it the file that is written, are what the file had
and all that was written since; and no file put aside is written or put aside again. -/
structure Intact (before : List UInt8) (f : LogFile) : Prop where
  contents : f.files.concat f.rolled ++ f.files.contents f.file = before ++ f.written
  nodup : f.rolled.Nodup
  active : f.file ∉ f.rolled

/-- The name the file gets if it is put aside now is neither its own nor that of an earlier roll. -/
def IsFresh (strftime : ℤ → String) (now : ℤ) (f : LogFile) : Prop :=
  f.rolledName strftime now ∉ f.rolled ∧ f.rolledName strftime now ≠ f.file

/-- Every roll of the batch takes a fresh name. -/
def TakesFreshNames (strftime : ℤ → String) (logFileRollingSize : ℕ) (now : ℤ) :
    List BufferType → LogFile → Prop
  | [], _ => True
  | buffer :: buffers, f =>
    (f.rolls .rollingFile logFileRollingSize now buffer = true → IsFresh strftime now f) ∧
      TakesFreshNames strftime logFileRollingSize now buffers
        (f.syncBuffer strftime .rollingFile logFileRollingSize now buffer)

def FreshNames (strftime : ℤ → String) (f : LogFile) (batch : Batch) : Prop :=
  TakesFreshNames strftime batch.logFileRollingSize batch.now batch.buffers f

/-- `Intact`, and the file is there. -/
structure Opened (before : List UInt8) (f : LogFile) : Prop extends Intact before f where
  isSome : (f.files f.file).isSome = true

variable {before : List UInt8}

/-! ## One buffer -/

theorem Opened.write (hf : Opened before f) (data : List UInt8) : Opened before (f.write data) where
  contents := by
    change (f.files.append f.file data).concat f.rolled ++
      (f.files.append f.file data).contents f.file = before ++ (f.written ++ data)
    rw [Files.concat_write hf.active, hf.contents, List.append_assoc]
  nodup := hf.nodup
  active := hf.active
  isSome := Files.append_isSome f.file data

theorem Opened.renameByNowTime (hf : Opened before f) {now : ℤ} (hfresh : IsFresh strftime now f) :
    Opened before (f.renameByNowTime strftime now) where
  contents :=
    (Files.concat_rotate hf.active hfresh.1 hfresh.2.symm hf.isSome).trans hf.contents
  nodup := by
    change (f.rolled ++ [f.rolledName strftime now]).Nodup
    rw [← List.concat_eq_append, List.nodup_concat]
    exact ⟨hfresh.1, hf.nodup⟩
  active := by
    change f.file ∉ f.rolled ++ [f.rolledName strftime now]
    rw [List.mem_append, List.mem_singleton, not_or]
    exact ⟨hf.active, hfresh.2.symm⟩
  isSome := Files.openAppend_isSome f.file

theorem Opened.syncBuffer (hf : Opened before f) {logFileType : LogFileType} {logFileRollingSize : ℕ}
    {now : ℤ} {buffer : BufferType}
    (hfresh : f.rolls logFileType logFileRollingSize now buffer = true → IsFresh strftime now f) :
    Opened before (f.syncBuffer strftime logFileType logFileRollingSize now buffer) := by
  rw [LogFile.syncBuffer]
  by_cases hrolls : f.rolls logFileType logFileRollingSize now buffer = true
  · rw [if_pos hrolls]
    exact (hf.renameByNowTime (hfresh hrolls)).write buffer.bytes
  · rw [if_neg hrolls]
    exact hf.write buffer.bytes

theorem written_syncBuffer (logFileType : LogFileType) (logFileRollingSize : ℕ) (now : ℤ)
    (f : LogFile) (buffer : BufferType) :
    (f.syncBuffer strftime logFileType logFileRollingSize now buffer).written =
      f.written ++ buffer.bytes := by
  rw [LogFile.syncBuffer]
  split <;> rfl

/-! ## Batches -/

theorem written_syncFile (logFileType : LogFileType) (logFileRollingSize : ℕ) (now : ℤ)
    (buffers : List BufferType) (f : LogFile) :
    (f.syncFile strftime logFileType logFileRollingSize now buffers).written =
      f.written ++ buffers.flatMap (·.bytes) := by
  induction buffers generalizing f with
  | nil => exact (List.append_nil _).symm
  | cons buffer buffers ih =>
      change (syncFile strftime logFileType logFileRollingSize now buffers
        (f.syncBuffer strftime logFileType logFileRollingSize now buffer)).written = _
      rw [ih, written_syncBuffer, List.append_assoc]
      rfl

theorem syncRollingFile_cons (logFileRollingSize : ℕ) (now : ℤ) (buffer : BufferType)
    (buffers : List BufferType) :
    f.syncRollingFile strftime logFileRollingSize now (buffer :: buffers) =
      (f.syncBuffer strftime .rollingFile logFileRollingSize now buffer).syncRollingFile strftime
        logFileRollingSize now buffers := rfl

theorem Opened.syncRollingFile (hf : Opened before f) {logFileRollingSize : ℕ} {now : ℤ}
    {buffers : List BufferType} (hfresh : TakesFreshNames strftime logFileRollingSize now buffers f) :
    Opened before (f.syncRollingFile strftime logFileRollingSize now buffers) := by
  induction buffers generalizing f with
  | nil => exact hf
  | cons buffer buffers ih =>
      rw [syncRollingFile_cons]
      exact ih (hf.syncBuffer hfresh.1) hfresh.2

/-- The names that are taken stay taken. -/
structure Extends (f g : LogFile) : Prop where
  file : g.file = f.file
  rolled : f.rolled <+: g.rolled

theorem Extends.trans {h : LogFile} (hfg : Extends f g) (hgh : Extends g h) : Extends f h :=
  ⟨hgh.file.trans hfg.file, hfg.rolled.trans hgh.rolled⟩

theorem extends_syncBuffer (logFileType : LogFileType) (logFileRollingSize : ℕ) (now : ℤ)
    (buffer : BufferType) :
    Extends f (f.syncBuffer strftime logFileType logFileRollingSize now buffer) := by
  rw [LogFile.syncBuffer]
  split
  · exact ⟨rfl, List.prefix_append _ _⟩
  · exact ⟨rfl, List.prefix_rfl⟩

theorem extends_syncRollingFile (logFileRollingSize : ℕ) (now : ℤ) (buffers : List BufferType) :
    Extends f (f.syncRollingFile strftime logFileRollingSize now buffers) := by
  induction buffers generalizing f with
  | nil => exact ⟨rfl, List.prefix_rfl⟩
  | cons buffer buffers ih =>
      rw [syncRollingFile_cons]
      exact (extends_syncBuffer _ _ _ _).trans ih

/-- What was not intact stays so: a name that was given twice has been given twice. -/
theorem Extends.intact_names (hfg : Extends f g) (hg : Intact before g) :
    f.rolled.Nodup ∧ f.file ∉ f.rolled := by
  refine ⟨hg.nodup.sublist hfg.rolled.sublist, fun hmem => hg.active ?_⟩
  rw [hfg.file]
  exact hfg.rolled.subset hmem

/-- A batch that leaves the files intact has taken fresh names only. -/
theorem takesFreshNames_of_intact {logFileRollingSize : ℕ} {now : ℤ} {buffers : List BufferType}
    (h : Intact before (f.syncRollingFile strftime logFileRollingSize now buffers)) :
    TakesFreshNames strftime logFileRollingSize now buffers f := by
  induction buffers generalizing f with
  | nil => trivial
  | cons buffer buffers ih =>
      rw [syncRollingFile_cons] at h
      refine ⟨fun hrolls => ?_, ih h⟩
      obtain ⟨hnodup, hactive⟩ := (extends_syncRollingFile _ _ _).intact_names h
      rw [LogFile.syncBuffer, if_pos hrolls] at hnodup hactive
      change (f.rolled ++ [f.rolledName strftime now]).Nodup at hnodup
      change f.file ∉ f.rolled ++ [f.rolledName strftime now] at hactive
      constructor
      · intro hmem
        rw [← List.concat_eq_append, List.nodup_concat] at hnodup
        exact hnodup.1 hmem
      · intro heq
        apply hactive
        rw [← heq]
        exact List.mem_append_right _ (List.mem_singleton.mpr rfl)

theorem opened_create {file : String} {createTime : ℤ} {files : Files String UInt8}
    (h : create file createTime files = some f) : Opened (files.contents file) f := by
  obtain ⟨-, h⟩ := Option.ite_none_left_eq_some.mp h
  rw [← Option.some.inj h]
  refine ⟨⟨?_, List.nodup_nil, List.not_mem_nil⟩, Files.openAppend_isSome file⟩
  change [] ++ (files.openAppend file).contents file = files.contents file ++ []
  rw [Files.contents_openAppend, List.append_nil, List.nil_append]

/-- What was written is what was in the buffers, batch after batch. -/
theorem written_of_run {opened : LogFile} {batches : List Batch}
    (h : (rolling strftime opened).run f batches = some g) :
    g.written = f.written ++ (batches.flatMap (·.buffers)).flatMap (·.bytes) := by
  induction batches generalizing f with
  | nil =>
      obtain rfl := Option.some.inj h
      exact (List.append_nil _).symm
  | cons batch batches ih =>
      have hrun : (rolling strftime opened).run
          (f.syncRollingFile strftime batch.logFileRollingSize batch.now batch.buffers) batches =
            some g := h
      rw [ih hrun, syncRollingFile, written_syncFile, List.append_assoc, List.flatMap_cons,
        List.flatMap_append]

/-- Rolling keeps everything, through all of a sequence of batches, exactly when every roll gives a name
that no roll has given before; what is written is all that the buffers hold, in either case. -/
theorem intact_iff_freshNames {file : String} {createTime : ℤ} {files : Files String UInt8}
    (hf : create file createTime files = some f) (batches : List Batch) :
    ((rolling strftime f).Along (Intact (files.contents file)) f batches ↔
      (rolling strftime f).StepsMeet (FreshNames strftime) f batches) ∧
      ∀ g, (rolling strftime f).run f batches = some g →
        g.written = (batches.flatMap (·.buffers)).flatMap (·.bytes) := by
  have hempty : f.written = [] := by
    obtain ⟨-, h⟩ := Option.ite_none_left_eq_some.mp hf
    rw [← Option.some.inj h]
  refine ⟨?_, fun g hg => by rw [written_of_run hg, hempty, List.nil_append]⟩
  refine System.along_iff_stepsMeet (I := Opened (files.contents file)) _
    (fun g hg => hg.toIntact) ?_ ?_ (opened_create hf) batches
  · intro g batch h hg hfresh hstep
    rw [← Option.some.inj hstep]
    exact hg.syncRollingFile hfresh
  · intro g batch h _ hfresh hstep hintact
    rw [← Option.some.inj hstep] at hintact
    exact hfresh (takesFreshNames_of_intact hintact)

/-- A kilobyte of one letter. -/
def kilobyte (letter : UInt8) : BufferType :=
  StackBuffer.empty.writeBytes (List.replicate 1024 letter)

/-- A batch of one kilobyte, with a rolling size of 1. -/
def kilobyteBatch (letter : UInt8) (now : ℤ) : Batch := ⟨now, 1, [kilobyte letter]⟩

/-- The name of the second 0, and of the second 1. -/
def firstSeconds (now : ℤ) : String :=
  if now = 0 then "1970-01-01_00-00-00" else "1970-01-01_00-00-01"

theorem intact_iff_freshNames_two : ∃ f, create "/tmp/nets/nets.log" 0 (fun _ => none) = some f ∧
    ((rolling firstSeconds f).Along (Intact []) f [kilobyteBatch 97 0, kilobyteBatch 98 1] ↔
      (rolling firstSeconds f).StepsMeet (FreshNames firstSeconds) f
        [kilobyteBatch 97 0, kilobyteBatch 98 1]) ∧
      ∀ g, (rolling firstSeconds f).run f [kilobyteBatch 97 0, kilobyteBatch 98 1] = some g →
        g.written = ([kilobyteBatch 97 0, kilobyteBatch 98 1].flatMap (·.buffers)).flatMap
          (·.bytes) := by
  obtain ⟨f, hf⟩ : ∃ f, create "/tmp/nets/nets.log" 0 (fun _ => none) = some f := ⟨_, rfl⟩
  exact ⟨f, hf, intact_iff_freshNames hf _⟩

/-- Three batches in one second: the third roll replaces what the second has put aside, and the letter
of the first batch is in no file any more. -/
theorem lost_in_one_second : ∃ f g, create "/tmp/nets/nets.log" 0 (fun _ => none) = some f ∧
    (rolling firstSeconds f).run f [kilobyteBatch 97 0, kilobyteBatch 98 0, kilobyteBatch 99 0] =
      some g ∧
    g.files.concat g.rolled ++ g.files.contents g.file ≠ g.written ∧
    97 ∈ g.written ∧ 97 ∉ g.files.concat g.rolled ++ g.files.contents g.file := by
  obtain ⟨f, hf⟩ : ∃ f, create "/tmp/nets/nets.log" 0 (fun _ => none) = some f := ⟨_, rfl⟩
  obtain ⟨g, hg⟩ : ∃ g, (rolling firstSeconds f).run f
      [kilobyteBatch 97 0, kilobyteBatch 98 0, kilobyteBatch 99 0] = some g := ⟨_, rfl⟩
  have hlost : ((create "/tmp/nets/nets.log" 0 fun _ => none).bind fun f =>
      (rolling firstSeconds f).run f
        [kilobyteBatch 97 0, kilobyteBatch 98 0, kilobyteBatch 99 0]).any (fun g =>
      decide (97 ∈ g.written ∧ 97 ∉ g.files.concat g.rolled ++ g.files.contents g.file)) = true := by
    decide +kernel
  rw [hf, Option.bind_some, hg] at hlost
  obtain ⟨hwritten, hgone⟩ := of_decide_eq_true hlost
  refine ⟨f, g, hf, hg, fun heq => ?_, hwritten, hgone⟩
  rw [heq] at hgone
  exact hgone hwritten

end Nets.LogFile
