import Nets.Program.LogFormatter
import Nets.Verification.StackBuffer.Integers

/-! # The shape of a record

The header always fits. The body is dropped as a whole where it does not, and the newline where there
is no more than one character of the buffer left. -/

namespace Nets

open Library StackBuffer

variable {localtime : ℤ → Option Tm} {cache : TimeCache} {time : Timestamp} {currentTid line : Int32}
  {logLevel : LogLevel} {file : List Char} {stream : LogBufferStream}

/-- What is behind the last slash, or everything. -/
def baseName (file : List Char) : List Char := (file.reverse.takeWhile (· ≠ '/')).reverse

def header (time : List Char) (currentTid : Int32) (logLevel : LogLevel) (base : List Char)
    (line : Int32) : List Char :=
  time ++ kOpenSquareBracket ++ decimalInt currentTid.toInt ++ kCloseSquareBracket ++
    kLogLevelName logLevel ++ [kSpace] ++ base ++ [kColon] ++ decimalInt line.toInt ++ kDash

/-- The header, the body, and a newline. Where they do not fit it is a part of the body, which is not
empty if there is room for any of it. -/
def IsRecord (header body text : List Char) : Prop :=
  ∃ part, part <+: body ∧ text = header ++ part ++ [kLF] ∧
    (header.length + body.length + 1 < kLogBufferSize → part = body) ∧
    (body ≠ [] → header.length + 2 < kLogBufferSize → part ≠ [])

/-- The header of a message, with its local time. -/
def headerOf (localtime : ℤ → Option Tm) (currentTid : Int32) (logLevel : LogLevel)
    (time : Timestamp) (file : List Char) (line : Int32) : List Char :=
  header (timeBuf (brokenDown localtime time.secondsSinceEpoch) time) currentTid logLevel
    (baseName file) line

/-- A message is formatted to a record. -/
def FormatsRecord (localtime : ℤ → Option Tm) (currentTid : Int32) (logLevel : LogLevel)
    (time : Timestamp) (file : List Char) (line : Int32) (stream : LogBufferStream)
    (cache : TimeCache) : Prop :=
  ∃ cache' logBuffer, formatLogMessage localtime currentTid logLevel
      (LogMessage.create time file line stream) cache empty = some (cache', logBuffer) ∧
    IsRecord (headerOf localtime currentTid logLevel time file line) stream.buffer.bytes
      logBuffer.bytes

/-! ## Times -/

/-- The caches of a thread. -/
inductive TimeCache.Reachable (localtime : ℤ → Option Tm) : TimeCache → Prop where
  | initial : Reachable localtime .initial
  | lookup {cache : TimeCache} (h : Reachable localtime cache) (seconds : ℤ) :
      Reachable localtime (cache.lookup localtime seconds)

theorem TimeCache.Reachable.initial_or (h : cache.Reachable localtime) :
    cache = .initial ∨ cache.tms = brokenDown localtime cache.seconds := by
  induction h with
  | initial => exact .inl rfl
  | lookup _ seconds ih =>
      rw [TimeCache.lookup]
      split
      · exact .inr rfl
      · exact ih

/-- A new cache has the second 0 already, but not its date. -/
def Dated (localtime : ℤ → Option Tm) (time : Timestamp) (cache : TimeCache) : Prop :=
  cache = .initial → time.secondsSinceEpoch = 0 →
    timeBuf .zero time = timeBuf (brokenDown localtime 0) time

theorem TimeCache.Reachable.timeBuf_eq_iff (h : cache.Reachable localtime) :
    timeBuf (cache.lookup localtime time.secondsSinceEpoch).tms time =
      timeBuf (brokenDown localtime time.secondsSinceEpoch) time ↔ Dated localtime time cache := by
  rw [TimeCache.lookup]
  split
  case isTrue hne =>
    refine ⟨fun _ hinitial hzero => ?_, fun _ => rfl⟩
    subst hinitial
    exact absurd hzero hne
  case isFalse heq =>
    rw [not_not] at heq
    obtain hinitial | htms := h.initial_or
    · subst hinitial
      have hzero : time.secondsSinceEpoch = 0 := heq
      rw [hzero]
      exact ⟨fun h _ _ => h, fun hdated => hdated rfl hzero⟩
    · rw [htms, heq]
      refine ⟨fun _ hinitial hzero => ?_, fun _ => rfl⟩
      subst hinitial
      change Tm.zero = brokenDown localtime 0 at htms
      rw [htms]

/-! ## The header -/

/-- No time has the bracket that follows it. -/
theorem notMem_timeBuf (tms : Tm) (time : Timestamp) : '[' ∉ timeBuf tms time := by
  intro h
  have htext := List.mem_of_mem_take h
  have hpadded := notMem_padded (c := '[') (by decide) (by decide)
  simp [timeText, hpadded] at htext

theorem length_timeBuf (tms : Tm) (time : Timestamp) : (timeBuf tms time).length ≤ 51 :=
  List.length_take_le _ _

theorem length_decimalInt {value : Int32} (h : 0 ≤ value.toInt) :
    (decimalInt value.toInt).length ≤ 20 := by
  have hlt := (Integer.int32 value).natAbs_lt
  rw [decimalInt, if_neg (by omega)]
  exact length_decimal_le (by norm_num) hlt

theorem length_kLogLevelName (logLevel : LogLevel) : (kLogLevelName logLevel).length ≤ 5 := by
  cases logLevel <;> decide

/-- What was written so far, and how much it is at most. -/
structure Written (b : LogTextBuffer) (text : List Char) (n : ℕ) : Prop where
  bytes : b.bytes = text
  length_le : text.length ≤ n

variable {b : LogTextBuffer} {text data : List Char} {n k : ℕ}

theorem Written.writeBytes (hb : Written b text n) (hdata : data.length ≤ k)
    (hroom : n + k < kLogBufferSize) : Written (b.writeBytes data) (text ++ data) (n + k) := by
  have hlength := hb.length_le
  have hfits : data.length < b.writableBytes := by
    rw [writableBytes, length, hb.bytes]
    omega
  refine ⟨by rw [bytes_writeBytes hfits, hb.bytes], ?_⟩
  rw [List.length_append]
  omega

theorem Written.writeInt32 (hb : Written b text n) {value : Int32} (hvalue : 0 ≤ value.toInt)
    (hroom : n + 20 < kLogBufferSize) :
    ∃ b', b.writeInt32 value = some b' ∧ Written b' (text ++ decimalInt value.toInt) (n + 20) := by
  have hlength := hb.length_le
  have hlimit : kMaximumNumberLimit < b.writableBytes := by
    rw [writableBytes, length, hb.bytes, kMaximumNumberLimit]
    omega
  obtain ⟨b', hwrite, hbytes⟩ :=
    writesDecimal_of_nonneg hlimit (show 0 ≤ (Integer.int32 value).value from hvalue)
  refine ⟨b', hwrite, by rw [hbytes, hb.bytes]; rfl, ?_⟩
  have hdecimal := length_decimalInt hvalue
  rw [List.length_append]
  omega

/-- The pieces behind the time. -/
theorem exists_written_header {base : List Char} (hb : Written b text 51) (hbase : base.length ≤ 255)
    (htid : 0 ≤ currentTid.toInt) (hline : 0 ≤ line.toInt) :
    ∃ b₁ b₂, (b.writeBytes kOpenSquareBracket).writeInt32 currentTid = some b₁ ∧
      ((((b₁.writeBytes kCloseSquareBracket).writeBytes (kLogLevelName logLevel)).writeBytes
        [kSpace]).writeBytes base |>.writeBytes [kColon]).writeInt32 line = some b₂ ∧
      Written (b₂.writeBytes kDash) (header text currentTid logLevel base line) 360 := by
  have hopen := hb.writeBytes (show kOpenSquareBracket.length ≤ 2 by decide) (by decide)
  obtain ⟨b₁, htidWritten, hwritten₁⟩ := hopen.writeInt32 htid (by decide)
  have hclose := hwritten₁.writeBytes (show kCloseSquareBracket.length ≤ 2 by decide) (by decide)
  have hname := hclose.writeBytes (length_kLogLevelName logLevel) (by decide)
  have hspace := hname.writeBytes (show [kSpace].length ≤ 1 by decide) (by decide)
  have hfile := hspace.writeBytes hbase (by decide)
  have hcolon := hfile.writeBytes (show [kColon].length ≤ 1 by decide) (by decide)
  obtain ⟨b₂, hlineWritten, hwritten₂⟩ := hcolon.writeInt32 hline (by decide)
  exact ⟨b₁, b₂, htidWritten, hlineWritten,
    hwritten₂.writeBytes (show kDash.length ≤ 3 by decide) (by decide)⟩

/-- The header is written, and then the body and the newline. -/
theorem formatLogMessage_of_file (localtime : ℤ → Option Tm) (cache : TimeCache)
    (logLevel : LogLevel) {logMessage : LogMessage} {base : List Char}
    (hfile : logMessage.file = some base) (hbase : base.length ≤ 255) (htid : 0 ≤ currentTid.toInt)
    (hline : 0 ≤ logMessage.line.toInt) :
    ∃ b, formatLogMessage localtime currentTid logLevel logMessage cache empty =
        some (cache.lookup localtime logMessage.time.secondsSinceEpoch,
          (b.writeBytes logMessage.stream.buffer.bytes).writeBytes [kLF]) ∧
      Written b (header (timeBuf (cache.lookup localtime logMessage.time.secondsSinceEpoch).tms
        logMessage.time) currentTid logLevel base logMessage.line) 360 := by
  have hempty : Written empty [] 0 := ⟨rfl, Nat.le_refl 0⟩
  let tms := (cache.lookup localtime logMessage.time.secondsSinceEpoch).tms
  have htime := hempty.writeBytes (length_timeBuf tms logMessage.time) (by decide)
  obtain ⟨b₁, b₂, htidWritten, hlineWritten, hwritten⟩ :=
    exists_written_header htime hbase htid hline
  refine ⟨_, ?_, hwritten⟩
  simp only [formatLogMessage, formatLogTime, hfile, Option.bind_eq_bind, Option.bind_some]
  rw [htidWritten, Option.bind_some, hlineWritten, Option.bind_some]
  rfl

theorem bytes_writeBytes_eq (b : LogTextBuffer) (data : List Char) :
    (b.writeBytes data).bytes =
      if b.bytes.length + data.length < kLogBufferSize then b.bytes ++ data else b.bytes := by
  by_cases hfits : data.length < b.writableBytes
  · rw [bytes_writeBytes hfits, if_pos]
    rw [writableBytes, length] at hfits
    omega
  · rw [StackBuffer.writeBytes, dif_neg hfits, if_neg]
    rw [writableBytes, length] at hfits
    omega

/-- What is behind the header. -/
def ending (header body : List Char) : List Char :=
  if header.length + body.length + 1 < kLogBufferSize then body ++ [kLF]
  else if header.length + body.length < kLogBufferSize then body
  else [kLF]

theorem Written.bytes_ending (hb : Written b text 360) (body : List Char) :
    ((b.writeBytes body).writeBytes [kLF]).bytes = text ++ ending text body := by
  have hlength := hb.length_le
  have hsize : kLogBufferSize = 4096 := rfl
  rw [bytes_writeBytes_eq, bytes_writeBytes_eq, hb.bytes, ending, List.length_singleton]
  by_cases hbody : text.length + body.length < kLogBufferSize
  · rw [if_pos hbody, if_pos hbody, List.length_append]
    split
    · rw [List.append_assoc]
    · rfl
  · rw [if_neg hbody, if_neg hbody, if_pos (by omega), if_neg (by omega)]

/-- The body and the newline fit, or the last character of the body is a newline and is taken for the
one of the record. -/
theorem isRecord_ending_iff (hlength : text.length ≤ 360) (body : List Char) :
    IsRecord text body (text ++ ending text body) ↔
      text.length + body.length + 1 < kLogBufferSize ∨
        text.length + body.length + 1 = kLogBufferSize ∧ body.getLast? = some kLF := by
  have hsize : kLogBufferSize = 4096 := rfl
  have hcancel {part : List Char} :
      text ++ ending text body = text ++ part ++ [kLF] ↔ ending text body = part ++ [kLF] := by
    rw [List.append_assoc, List.append_cancel_left_eq]
  simp only [IsRecord, hcancel]
  rw [ending]
  constructor
  · rintro ⟨part, hpart, hending, -, hnonempty⟩
    by_cases hfits : text.length + body.length + 1 < kLogBufferSize
    · exact .inl hfits
    · right
      rw [if_neg hfits] at hending
      by_cases hbody : text.length + body.length < kLogBufferSize
      · rw [if_pos hbody] at hending
        refine ⟨by omega, ?_⟩
        rw [hending, List.getLast?_concat]
      · rw [if_neg hbody] at hending
        have hpartNil : part = [] := by
          have hlength := congrArg List.length hending
          rw [List.length_append, List.length_singleton] at hlength
          exact List.length_eq_zero_iff.mp (by omega)
        refine absurd hpartNil (hnonempty ?_ (by omega))
        rintro rfl
        rw [List.length_nil] at hbody
        omega
  · rintro (hfits | ⟨hfull, hlast⟩)
    · rw [if_pos hfits]
      exact ⟨body, List.prefix_rfl, rfl, fun _ => rfl, fun hne _ => hne⟩
    · rw [if_neg (by omega), if_pos (by omega)]
      obtain ⟨part, rfl⟩ : ∃ part, body = part ++ [kLF] :=
        ⟨body.dropLast, (List.dropLast_append_getLast? _ hlast).symm⟩
      refine ⟨part, List.prefix_append _ _, rfl, fun h => by omega, fun _ _ => ?_⟩
      rintro rfl
      rw [List.nil_append, List.length_singleton] at hfull
      omega

/-! ## Two headers -/

/-- The time of a record ends before the first bracket. -/
theorem time_eq_of_header {time' base : List Char} (htext : '[' ∉ text)
    (htime' : '[' ∉ time') {rest rest' : List Char}
    (h : header text currentTid logLevel base line ++ rest =
      header time' currentTid logLevel base line ++ rest') : text = time' := by
  have hbefore {time : List Char} (htime : '[' ∉ time) (rest : List Char) :
      (header time currentTid logLevel base line ++ rest).takeWhile (· ≠ '[') = time ++ [' '] := by
    have hall : ∀ c ∈ time, decide (c ≠ '[') = true := by
      intro c hc
      rw [decide_eq_true_eq]
      rintro rfl
      exact htime hc
    simp only [header, kOpenSquareBracket, List.append_assoc, List.cons_append]
    rw [List.takeWhile_append_of_pos hall]
    rfl
  have htake := congrArg (List.takeWhile (· ≠ '[')) h
  rw [hbefore htext, hbefore htime'] at htake
  exact List.append_cancel_right htake

/-! ## Messages -/

theorem create_file (time : Timestamp) (file : List Char) (line : Int32) (stream : LogBufferStream) :
    (LogMessage.create time file line stream).file =
      if '/' ∈ file then some (baseName file) else none := by
  simp only [LogMessage.create, strrchr]
  split
  · rfl
  · rfl

theorem formatsRecord_iff_isRecord {cache' : TimeCache} {logBuffer : LogTextBuffer}
    (hformat : formatLogMessage localtime currentTid logLevel
      (LogMessage.create time file line stream) cache empty = some (cache', logBuffer))
    (hbytes : logBuffer.bytes = text) :
    FormatsRecord localtime currentTid logLevel time file line stream cache ↔
      IsRecord (headerOf localtime currentTid logLevel time file line) stream.buffer.bytes text := by
  subst hbytes
  constructor
  · rintro ⟨cache'', logBuffer', hsome, hrecord⟩
    cases hformat.symm.trans hsome
    exact hrecord
  · exact fun hrecord => ⟨_, _, hformat, hrecord⟩

/-- A message is formatted to a record exactly where the file has a slash, the time is not taken from a
new cache, and the header, the body and the newline fit, or the newline of the body is taken for that
of the record. -/
theorem formatsRecord_iff (hcache : cache.Reachable localtime) (htid : 0 ≤ currentTid.toInt)
    (hline : 0 ≤ line.toInt) (hbase : (baseName file).length ≤ 255) :
    FormatsRecord localtime currentTid logLevel time file line stream cache ↔
      '/' ∈ file ∧ Dated localtime time cache ∧
        ((headerOf localtime currentTid logLevel time file line).length +
            stream.buffer.bytes.length + 1 < kLogBufferSize ∨
          (headerOf localtime currentTid logLevel time file line).length +
              stream.buffer.bytes.length + 1 = kLogBufferSize ∧
            stream.buffer.bytes.getLast? = some kLF) := by
  have hcreate := create_file time file line stream
  by_cases hslash : '/' ∈ file
  · rw [if_pos hslash] at hcreate
    obtain ⟨b, hformat, hwritten⟩ :=
      formatLogMessage_of_file localtime cache logLevel hcreate hbase htid hline
    rw [formatsRecord_iff_isRecord hformat (hwritten.bytes_ending _), ← hcache.timeBuf_eq_iff]
    have hiff := isRecord_ending_iff hwritten.length_le stream.buffer.bytes
    constructor
    · intro hrecord
      obtain ⟨part, -, htext, -⟩ := id hrecord
      rw [List.append_assoc] at htext
      have htime := time_eq_of_header (notMem_timeBuf _ _) (notMem_timeBuf _ _) htext
      refine ⟨hslash, htime, ?_⟩
      rw [headerOf, ← htime] at hrecord ⊢
      exact hiff.mp hrecord
    · rintro ⟨-, htime, hfits⟩
      rw [headerOf, ← htime] at hfits ⊢
      exact hiff.mpr hfits
  · rw [if_neg hslash] at hcreate
    constructor
    · rintro ⟨cache', logBuffer, hsome, -⟩
      simp only [formatLogMessage, hcreate, Option.bind_eq_bind, Option.bind_none, Option.bind_fun_none,
        reduceCtorEq] at hsome
    · rintro ⟨hmem, -⟩
      exact absurd hmem hslash

/-- A message of two characters, logged at a second the thread has not formatted before. -/
def greeting : LogBufferStream := ⟨⟨['h', 'i'], by decide⟩⟩

theorem formatsRecord_iff_greeting : ∃ localtime : ℤ → Option Tm,
    FormatsRecord localtime 7 .info ⟨1700000000123456⟩ ['/', 'a', '.', 'c'] 42 greeting .initial := by
  let localtime : ℤ → Option Tm := fun seconds =>
    if seconds = 1700000000 then some ⟨123, 10, 14, 22, 13, 20⟩ else none
  refine ⟨localtime, (formatsRecord_iff .initial (by decide) (by decide) (by decide)).mpr
    ⟨by decide, ?_, .inl (by decide)⟩⟩
  intro _ hzero
  revert hzero
  decide

/-- The pointer to the file is null where the file has no slash. -/
theorem not_formatsRecord_relative :
    ¬FormatsRecord (fun _ => none) 7 .info ⟨1700000000123456⟩ ['a', '.', 'c'] 42 greeting .initial := by
  rintro ⟨cache', logBuffer, hsome, -⟩
  cases hsome

end Nets
