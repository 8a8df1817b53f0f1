import Nets.Verification.ByteBuffer.Equations

/-! # Contracts of the buffer's member functions

A valid buffer keeps `readerIndex ≤ writerIndex ≤ capacity` with `capacity` the length of the
allocated array. Every member function keeps a valid buffer valid and acts on its readable
bytes as a queue does; the functions that throw leave the buffer as it was. -/

namespace Nets.ByteBuffer

open Library

variable {β : Type}

structure Valid (b : ByteBuffer β) : Prop where
  reader_le : b.readerIndex ≤ b.writerIndex
  writer_le : b.writerIndex ≤ b.capacity
  allocated : (cells b.buffer).length = b.capacity
  capacity_lt : b.capacity < 2 ^ 64

/-- The readable bytes, oldest first. -/
def contents (b : ByteBuffer β) : List β :=
  ((cells b.buffer).drop b.readerIndex).take (b.writerIndex - b.readerIndex)

/-! ## Sizes of a valid buffer -/

theorem Valid.readableBytes_eq {b : ByteBuffer β} (hb : b.Valid) :
    b.readableBytes = b.writerIndex - b.readerIndex :=
  subSize_of_le hb.reader_le

theorem Valid.writableBytes_eq {b : ByteBuffer β} (hb : b.Valid) :
    b.writableBytes = b.capacity - b.writerIndex :=
  subSize_of_le hb.writer_le

theorem Valid.length_contents {b : ByteBuffer β} (hb : b.Valid) :
    b.contents.length = b.writerIndex - b.readerIndex := by
  have h₁ := hb.reader_le
  have h₂ := hb.writer_le
  simp only [contents, List.length_take, List.length_drop, hb.allocated]
  omega

theorem Valid.readableBytes_eq_length {b : ByteBuffer β} (hb : b.Valid) :
    b.readableBytes = b.contents.length :=
  hb.readableBytes_eq.trans hb.length_contents.symm

theorem Valid.load_contents {b : ByteBuffer β} (hb : b.Valid) {n : ℕ}
    (hn : n ≤ b.contents.length) :
    loadBytes b.buffer b.readerIndex n = some (b.contents.take n) := by
  have h₁ := hb.reader_le
  have h₂ := hb.writer_le
  rw [hb.length_contents] at hn
  rw [loadBytes_eq b.buffer (by rw [hb.allocated]; omega), contents, List.take_take,
    Nat.min_eq_left hn]

/-! ## Buffers as constructed -/

@[simp] theorem contents_null : (null : ByteBuffer β).contents = [] := rfl

theorem valid_null : (null : ByteBuffer β).Valid :=
  ⟨le_rfl, le_rfl, rfl, Nat.two_pow_pos 64⟩

/-! ## Making room -/

section

variable [Inhabited β]

@[simp] theorem length_makeArray (n : ℕ) : (makeArray n : List β).length = n := by
  simp [makeArray]

/-- Both branches of `adjustCapacity` leave the readable bytes at the front of an array of the
new capacity. -/
theorem adjustCapacity_spec {b : ByteBuffer β} (hb : b.Valid) (newCapacity : ℕ)
    (hfit : b.contents.length ≤ newCapacity) (hlt : newCapacity < 2 ^ 64) :
    ∃ b', adjustCapacity newCapacity b = .ok () b' ∧ b'.Valid ∧ b'.contents = b.contents ∧
      b'.capacity = newCapacity ∧ b'.writerIndex = b.contents.length := by
  have hload : loadBytes b.buffer b.readerIndex b.readableBytes = some b.contents := by
    rw [hb.readableBytes_eq_length, hb.load_contents le_rfl, List.take_length]
  have hbytes := hb.readableBytes_eq_length
  by_cases hnew : newCapacity = b.capacity
  · obtain ⟨moved, hstore, hcells⟩ := storeBytes_eq b.buffer 0 b.contents
      (by rw [hb.allocated]; omega)
    refine ⟨{ b with buffer := moved, readerIndex := 0, writerIndex := b.readableBytes },
      ?_, ⟨?_, ?_, ?_, ?_⟩, ?_, ?_, ?_⟩
    · simp [adjustCapacity, hload, hstore, hnew]
    · simp
    · simp only [hbytes]
      omega
    · simp only [hcells, List.take_zero, List.nil_append, List.length_append,
        List.length_drop, hb.allocated]
      omega
    · exact hb.capacity_lt
    · simp [contents, hcells, hbytes]
    · exact hnew.symm
    · exact hbytes
  · obtain ⟨newBuffer, hstore, hcells⟩ := storeBytes_eq
      (some (makeArray newCapacity : List β)) 0 b.contents (by simpa using hfit)
    refine ⟨{ b with
        buffer := newBuffer, capacity := newCapacity, readerIndex := 0,
        writerIndex := b.readableBytes }, ?_, ⟨?_, ?_, ?_, ?_⟩, ?_, rfl, hbytes⟩
    · simp [adjustCapacity, hload, hstore, hnew]
    · simp
    · simpa only [hbytes] using hfit
    · simp only [hcells, cells_some, List.take_zero, List.nil_append, List.length_append,
        List.length_drop, length_makeArray]
      omega
    · exact hlt
    · simp [contents, hcells, hbytes]

omit [Inhabited β] in
/-- The capacity chosen for a write holds the readable bytes and the new ones, unless the limit
is exceeded. -/
theorem targetCapacity_spec {b : ByteBuffer β} (hb : b.Valid) {writeLen : ℕ}
    (hroom : b.capacity - b.writerIndex < writeLen) (hlen : b.writerIndex + writeLen < 2 ^ 63) :
    (∃ c, targetCapacity writeLen b = .ok c b ∧ b.contents.length + writeLen ≤ c ∧
      c < 2 ^ 64) ∨
    ∃ c, targetCapacity writeLen b = .error (.outOfMemory c) b := by
  have h₁ := hb.reader_le
  have h₂ := hb.writer_le
  have h₃ := hb.capacity_lt
  have hcontents := hb.length_contents
  by_cases hzero : b.capacity = 0
  · have hpow : 2 ^ Nat.clog 2 writeLen ≤ 2 ^ 63 :=
      Nat.pow_le_pow_right (by omega) (Nat.clog_le_of_le_pow (by omega))
    refine .inl ⟨2 ^ Nat.clog 2 writeLen, ?_, ?_, ?_⟩
    · simp [targetCapacity, hzero, calculateNewCapacity_eq (show 0 < writeLen by omega)
        (by omega)]
    · have := Nat.le_pow_clog (b := 2) (by omega) writeLen
      omega
    · omega
  · have hwritable := hb.writableBytes_eq
    have hdiscard : addSize b.writableBytes b.discardReadBytes =
        b.capacity - b.writerIndex + b.readerIndex := by
      rw [hwritable, discardReadBytes, addSize_of_lt (by omega)]
    by_cases hcompact : b.capacity - b.writerIndex + b.readerIndex < writeLen
    · have htarget : addSize b.writerIndex writeLen = b.writerIndex + writeLen :=
        addSize_of_lt (by omega)
      have hnew := calculateNewCapacity_eq (show 0 < b.writerIndex + writeLen by omega)
        (by omega)
      by_cases hmax : kMaxCapacity < 2 ^ Nat.clog 2 (b.writerIndex + writeLen)
      · refine .inr ⟨2 ^ Nat.clog 2 (b.writerIndex + writeLen), ?_⟩
        simp [targetCapacity, checkMaxCapacity, hzero, hdiscard, hcompact, htarget, hnew, hmax]
      · refine .inl ⟨2 ^ Nat.clog 2 (b.writerIndex + writeLen), ?_, ?_, ?_⟩
        · simp [targetCapacity, checkMaxCapacity, hzero, hdiscard, hcompact, htarget, hnew, hmax]
        · have := Nat.le_pow_clog (b := 2) (by omega) (b.writerIndex + writeLen)
          omega
        · have : kMaxCapacity < 2 ^ 64 := by norm_num [kMaxCapacity]
          omega
    · by_cases hmax : kMaxCapacity < b.capacity
      · refine .inr ⟨b.capacity, ?_⟩
        simp [targetCapacity, checkMaxCapacity, hzero, hdiscard, hcompact, hmax]
      · refine .inl ⟨b.capacity, ?_, by omega, h₃⟩
        simp [targetCapacity, checkMaxCapacity, hzero, hdiscard, hcompact, hmax]

/-- After `ensureWritable` the requested bytes fit behind the unchanged readable bytes; when it
throws instead, the buffer is untouched. -/
theorem ensureWritable_spec {b : ByteBuffer β} (hb : b.Valid) {writeLen : ℕ}
    (hlen : b.writerIndex + writeLen < 2 ^ 63) :
    (∃ b', ensureWritable writeLen b = .ok () b' ∧ b'.Valid ∧ b'.contents = b.contents ∧
      b'.writerIndex ≤ b.writerIndex ∧ b'.writerIndex + writeLen ≤ b'.capacity) ∨
    ∃ c, ensureWritable writeLen b = .error (.outOfMemory c) b := by
  have h₁ := hb.reader_le
  have h₂ := hb.writer_le
  have hcontents := hb.length_contents
  by_cases hroom : b.capacity - b.writerIndex < writeLen
  · have hguard : b.writableBytes < writeLen := by rwa [hb.writableBytes_eq]
    rcases targetCapacity_spec hb hroom hlen with ⟨c, htarget, hfit, hlt⟩ | ⟨c, htarget⟩
    · obtain ⟨b', hadjust, hvalid, hsame, hcap, hwriter⟩ :=
        adjustCapacity_spec hb c (by omega) hlt
      exact .inl ⟨b', by simp [ensureWritable, hguard, bind_ok htarget, hadjust], hvalid, hsame,
        by omega, by omega⟩
    · exact .inr ⟨c, by simp [ensureWritable, hguard, bind_error htarget]⟩
  · have hguard : ¬ b.writableBytes < writeLen := by rwa [hb.writableBytes_eq]
    exact .inl ⟨b, by simp [ensureWritable, hguard], hb, rfl, le_rfl, by omega⟩

/-! ## Writing -/

omit [Inhabited β] in
/-- Storing behind the writer index appends to the readable bytes. -/
theorem append_spec {b : ByteBuffer β} (hb : b.Valid) (data : List β)
    (hroom : b.writerIndex + data.length ≤ b.capacity) :
    ∃ buffer, storeBytes b.buffer b.writerIndex data = some buffer ∧
      ({ b with buffer, writerIndex := addSize b.writerIndex data.length } :
        ByteBuffer β).Valid ∧
      ({ b with buffer, writerIndex := addSize b.writerIndex data.length } :
        ByteBuffer β).contents = b.contents ++ data := by
  have h₁ := hb.reader_le
  have h₂ := hb.writer_le
  have h₃ := hb.capacity_lt
  have halloc := hb.allocated
  obtain ⟨buffer, hstore, hcells⟩ := storeBytes_eq b.buffer b.writerIndex data
    (by omega)
  have hadd : addSize b.writerIndex data.length = b.writerIndex + data.length :=
    addSize_of_lt (by omega)
  refine ⟨buffer, hstore, ⟨?_, ?_, ?_, h₃⟩, ?_⟩
  · simp only [hadd]
    omega
  · simpa only [hadd] using hroom
  · simp only [hcells, List.length_append, List.length_take, List.length_drop]
    omega
  · have htake : ((cells b.buffer).take b.writerIndex).length = b.writerIndex := by
      simp only [List.length_take]
      omega
    have hdrop : ((cells b.buffer).take b.writerIndex).drop b.readerIndex = b.contents := by
      rw [List.drop_take, contents]
    have hlen : (b.contents ++ data).length = b.writerIndex + data.length - b.readerIndex := by
      rw [List.length_append, hb.length_contents]
      omega
    simp only [contents, hcells, hadd]
    rw [List.append_assoc, List.drop_append_of_le_length (by omega), hdrop,
      ← List.append_assoc, List.take_append_of_le_length (by omega), List.take_of_length_le
        (by omega)]
    rfl

/-- A write appends its bytes, or throws for lack of memory and changes nothing. -/
theorem writeBytes_spec {b : ByteBuffer β} (hb : b.Valid) {data : List β}
    (hlen : b.writerIndex + data.length < 2 ^ 63) :
    (∃ b', writeBytes data b = .ok () b' ∧ b'.Valid ∧ b'.contents = b.contents ++ data) ∨
    ∃ c, writeBytes data b = .error (.outOfMemory c) b := by
  rcases ensureWritable_spec hb hlen with ⟨b', hensure, hvalid, hsame, _, hroom⟩ | ⟨c, hensure⟩
  · obtain ⟨buffer, hstore, hvalid', hcontents⟩ := append_spec hvalid data hroom
    exact .inl ⟨_, by simp [writeBytes, bind_ok hensure, hstore], hvalid', by rw [hcontents, hsame]⟩
  · exact .inr ⟨c, by simp [writeBytes, bind_error hensure]⟩

/-- A write into free space neither moves nor grows the buffer, and cannot throw. -/
theorem writeBytes_of_writable {b : ByteBuffer β} (hb : b.Valid) (data : List β)
    (hroom : data.length ≤ b.writableBytes) :
    ∃ b', writeBytes data b = .ok () b' ∧ b'.Valid ∧ b'.contents = b.contents ++ data := by
  have hguard : ¬ b.writableBytes < data.length := Nat.not_lt.mpr hroom
  have h₂ := hb.writer_le
  rw [hb.writableBytes_eq] at hroom
  obtain ⟨buffer, hstore, hvalid, hcontents⟩ := append_spec hb data (by omega)
  have hensure : ensureWritable data.length b = .ok () b := by simp [ensureWritable, hguard]
  exact ⟨_, by simp [writeBytes, bind_ok hensure, hstore], hvalid, hcontents⟩

/-- A buffer built from data holds exactly that data; the memory limit is not consulted. -/
theorem ofData_ok {data : List β} (hsize : data.length ≤ 2 ^ 63) :
    ∃ b, ofData data = .ok b ∧ b.Valid ∧ b.contents = data := by
  by_cases hnil : data.length = 0
  · obtain rfl : data = [] := List.length_eq_zero_iff.mp hnil
    obtain ⟨b, hwrite, hvalid, hcontents⟩ :=
      writeBytes_of_writable (valid_null (β := β)) [] (Nat.zero_le _)
    exact ⟨b, by rw [ofData, hwrite], hvalid, by simpa using hcontents⟩
  · have hpow : 2 ^ Nat.clog 2 data.length ≤ 2 ^ 63 :=
      Nat.pow_le_pow_right (by omega) (Nat.clog_le_of_le_pow hsize)
    have hle := Nat.le_pow_clog (b := 2) (by omega) data.length
    obtain ⟨b₁, hadjust, hvalid₁, hsame, hcap, hwriter⟩ :=
      adjustCapacity_spec (valid_null (β := β)) (2 ^ Nat.clog 2 data.length) (by simp) (by omega)
    obtain ⟨buffer, hstore, hvalid, hcontents⟩ :=
      append_spec hvalid₁ data (by rw [hwriter, hcap]; simpa using hle)
    have htarget : targetCapacity data.length (null : ByteBuffer β) =
        .ok (2 ^ Nat.clog 2 data.length) null := by
      simp [targetCapacity, null, calculateNewCapacity_eq (Nat.pos_of_ne_zero hnil) hsize]
    have hguard : (null : ByteBuffer β).writableBytes < data.length := by
      rw [valid_null.writableBytes_eq]
      exact Nat.pos_of_ne_zero hnil
    have hensure : ensureWritable data.length (null : ByteBuffer β) = .ok () b₁ := by
      simp [ensureWritable, hguard, bind_ok htarget, hadjust]
    have hwrite : writeBytes data (null : ByteBuffer β) =
        .ok () { b₁ with buffer, writerIndex := addSize b₁.writerIndex data.length } := by
      simp [writeBytes, bind_ok hensure, hstore]
    exact ⟨_, by rw [ofData, hwrite], hvalid, by rw [hcontents, hsame]; simp⟩

/-- From `2 ^ 63` bytes on the constructor does not return. -/
theorem ofData_error {data : List β} (hsize : 2 ^ 63 < data.length) :
    ofData data = .error .endless := by
  have hnone : calculateNewCapacity data.length = none := calculateNewCapacity_eq_none hsize
  have hguard : (null : ByteBuffer β).writableBytes < data.length := by
    rw [valid_null.writableBytes_eq]
    simp only [null]
    omega
  have htarget : targetCapacity data.length (null : ByteBuffer β) = .error .endless null := by
    simp [targetCapacity, null, hnone]
  have hensure : ensureWritable data.length (null : ByteBuffer β) = .error .endless null := by
    simp [ensureWritable, hguard, bind_error htarget]
  rw [ofData, writeBytes, bind_error hensure]

theorem ofData_spec {data : List β} {b : ByteBuffer β} (h : ofData data = .ok b) :
    b.Valid ∧ b.contents = data := by
  by_cases hsize : data.length ≤ 2 ^ 63
  · obtain ⟨b', hb', hvalid, hcontents⟩ := ofData_ok hsize
    obtain rfl : b' = b := Except.ok.inj (hb'.symm.trans h)
    exact ⟨hvalid, hcontents⟩
  · rw [ofData_error (Nat.lt_of_not_le hsize)] at h
    exact absurd h (by simp)

end

/-! ## Reading -/

theorem clear_spec {b : ByteBuffer β} (hb : b.Valid) :
    ∃ b', clear b = .ok () b' ∧ b'.Valid ∧ b'.contents = [] ∧ b'.capacity = b.capacity :=
  ⟨{ b with readerIndex := 0, writerIndex := 0 }, rfl,
    ⟨le_rfl, Nat.zero_le _, hb.allocated, hb.capacity_lt⟩, by simp [contents], rfl⟩

theorem adjustReaderIndex_spec {b : ByteBuffer β} (hb : b.Valid) {n : ℕ}
    (hn : n ≤ b.contents.length) :
    ∃ b', adjustReaderIndex n b = .ok () b' ∧ b'.Valid ∧ b'.contents = b.contents.drop n := by
  have h₁ := hb.reader_le
  have h₂ := hb.writer_le
  have h₃ := hb.capacity_lt
  have hcontents := hb.length_contents
  by_cases hlast : n < b.contents.length
  · have hguard : n < b.readableBytes := by rwa [hb.readableBytes_eq_length]
    have hadd : addSize b.readerIndex n = b.readerIndex + n := addSize_of_lt (by omega)
    refine ⟨{ b with readerIndex := b.readerIndex + n }, ?_, ⟨?_, h₂, hb.allocated, h₃⟩, ?_⟩
    · simp [adjustReaderIndex, hguard, hadd]
    · simp only
      omega
    · simp only [contents, List.drop_take, List.drop_drop]
      congr 1
      omega
  · have hguard : ¬ n < b.readableBytes := by rwa [hb.readableBytes_eq_length]
    obtain ⟨b', hclear, hvalid, hempty, _⟩ := clear_spec hb
    refine ⟨b', ?_, hvalid, ?_⟩
    · simp only [clear_apply] at hclear
      simpa [adjustReaderIndex, hguard] using hclear
    · rw [hempty, List.drop_of_length_le (by omega)]

/-- A read of `n` available bytes returns and removes the `n` oldest. -/
theorem readBytes_spec {b : ByteBuffer β} (hb : b.Valid) {n : ℕ}
    (hn : n ≤ b.contents.length) :
    ∃ b', readBytes n b = .ok (b.contents.take n) b' ∧ b'.Valid ∧
      b'.contents = b.contents.drop n := by
  have hguard : ¬ b.readableBytes < n := by
    rw [hb.readableBytes_eq_length]
    omega
  obtain ⟨b', hadjust, hvalid, hcontents⟩ := adjustReaderIndex_spec hb hn
  have hcheck : checkReadableBytes n b = .ok () b := by simp [checkReadableBytes, hguard]
  refine ⟨b', ?_, hvalid, hcontents⟩
  simp [readBytes, bind_ok hcheck, hb.load_contents hn, map_ok hadjust]

/-- A read of more than is available throws before it touches the buffer. -/
theorem readBytes_throws {b : ByteBuffer β} (hb : b.Valid) {n : ℕ}
    (hn : b.contents.length < n) :
    readBytes n b = .error (.indexOutOfBounds n) b := by
  have hguard : b.readableBytes < n := by rwa [hb.readableBytes_eq_length]
  have hcheck : checkReadableBytes n b = .error (.indexOutOfBounds n) b := by
    simp [checkReadableBytes, hguard]
  rw [readBytes, bind_error hcheck]

/-! ## Construction and copying -/

section

variable [Inhabited β]

theorem ofCapacity_spec {capacity : ℕ} (h : capacity < 2 ^ 64) :
    (ofCapacity capacity : ByteBuffer β).Valid ∧
      (ofCapacity capacity : ByteBuffer β).contents = [] :=
  ⟨⟨le_rfl, Nat.zero_le _, by simp [ofCapacity], h⟩, by simp [contents, ofCapacity]⟩

theorem copy_spec {b : ByteBuffer β} (hb : b.Valid) :
    ∃ b', copy b = .ok b' ∧ b'.Valid ∧ b'.contents = b.contents := by
  have hload : loadBytes b.buffer 0 b.capacity = some (cells b.buffer) := by
    rw [loadBytes_eq b.buffer (by rw [hb.allocated]; omega), ← hb.allocated]
    simp
  obtain ⟨buffer, hstore, hcells⟩ := storeBytes_eq (some (makeArray b.capacity : List β))
    0 (cells b.buffer) (by simp [hb.allocated])
  have hsame : cells buffer = cells b.buffer := by
    rw [hcells, cells_some, List.take_zero, List.nil_append, Nat.zero_add,
      List.drop_of_length_le (by simp [hb.allocated]), List.append_nil]
  refine ⟨{ b with buffer }, by simp [copy, hload, hstore],
    ⟨hb.reader_le, hb.writer_le, ?_, hb.capacity_lt⟩, by simp only [contents, hsame]⟩
  simpa only [hsame] using hb.allocated

end

end Nets.ByteBuffer
