import Nets.Verification.ByteBuffer.Correctness

/-! # The limit of the capacity

What `ensureWritable` does with any length at all, and where that is what the limit asks for. The sum
that is rounded up counts the bytes that were read already, and may wrap. A buffer without an array
is not held to the limit. -/

namespace Nets.ByteBuffer

open Library

variable {β : Type} [Inhabited β] {b b' : ByteBuffer β} {n newCapacity : ℕ}

/-- The buffers that constructors, copies, reads and writes give. A moved-from buffer is `null`. -/
inductive Reachable : ByteBuffer β → Prop where
  | null : Reachable null
  | ofCapacity {capacity : ℕ} (h : capacity < 2 ^ 64) : Reachable (ofCapacity capacity)
  | ofData {data : List β} {b : ByteBuffer β} (h : ofData data = .ok b) : Reachable b
  | copy {b b' : ByteBuffer β} (hb : Reachable b) (h : copy b = .ok b') : Reachable b'
  | ensureWritable {b b' : ByteBuffer β} {n : ℕ} (hb : Reachable b) (hn : n < 2 ^ 64)
      (h : ensureWritable n b = .ok () b') : Reachable b'
  | writeBytes {b b' : ByteBuffer β} {data : List β} (hb : Reachable b)
      (hlength : data.length < 2 ^ 64) (h : writeBytes data b = .ok () b') : Reachable b'
  | writeByteBuffer {b b' byteBuffer : ByteBuffer β} (hb : Reachable b)
      (hbyteBuffer : Reachable byteBuffer) (h : writeByteBuffer byteBuffer b = .ok () b') :
      Reachable b'
  | readBytes {b b' : ByteBuffer β} {n : ℕ} {data : List β} (hb : Reachable b)
      (h : readBytes n b = .ok data b') : Reachable b'
  | clear {b b' : ByteBuffer β} (hb : Reachable b) (h : clear b = .ok () b') : Reachable b'

/-! ## The rounded capacity -/

/-- What `calculateNewCapacity` gives where it ends. -/
def roundUp (target : ℕ) : ℕ := if target = 0 then 0 else 2 ^ Nat.clog 2 target

theorem calculateNewCapacity_eq_roundUp {target : ℕ} (h : target ≤ 2 ^ 63) :
    calculateNewCapacity target = some (roundUp target) := by
  by_cases hzero : target = 0
  · simp [calculateNewCapacity, roundUp, hzero]
  · rw [calculateNewCapacity_eq (Nat.pos_of_ne_zero hzero) h, roundUp, if_neg hzero]

theorem le_roundUp (target : ℕ) : target ≤ roundUp target := by
  by_cases hzero : target = 0
  · omega
  · rw [roundUp, if_neg hzero]
    exact Nat.le_pow_clog (by omega) target

theorem roundUp_lt {target : ℕ} (h : target ≤ 2 ^ 63) : roundUp target < 2 ^ 64 := by
  by_cases hzero : target = 0
  · simp [roundUp, hzero]
  · rw [roundUp, if_neg hzero]
    exact Nat.pow_lt_pow_right (by omega) (Nat.lt_succ_of_le (Nat.clog_le_of_le_pow h))

/-- The powers of two within the limit are those up to `2 ^ 30`. -/
theorem roundUp_le_kMaxCapacity {target : ℕ} : roundUp target ≤ kMaxCapacity ↔ target ≤ 2 ^ 30 := by
  by_cases hzero : target = 0
  · simp [roundUp, hzero]
  · rw [roundUp, if_neg hzero]
    constructor
    · intro hle
      by_contra hgt
      have hlog : 30 < Nat.clog 2 target := by
        by_contra hlog
        exact hgt (le_trans (Nat.le_pow_clog (by omega) target)
          (Nat.pow_le_pow_right (by omega) (Nat.le_of_not_lt hlog)))
      have hpow : 2 ^ 31 ≤ 2 ^ Nat.clog 2 target := Nat.pow_le_pow_right (by omega) hlog
      norm_num [kMaxCapacity] at hle
      omega
    · intro hle
      have hpow : 2 ^ Nat.clog 2 target ≤ 2 ^ 30 :=
        Nat.pow_le_pow_right (by omega) (Nat.clog_le_of_le_pow hle)
      norm_num [kMaxCapacity] at hpow ⊢
      omega

/-! ## Making room -/

omit [Inhabited β] in
theorem checkMaxCapacity_of_le (h : newCapacity ≤ kMaxCapacity) (b : ByteBuffer β) :
    checkMaxCapacity newCapacity b = .ok newCapacity b := by
  simp [checkMaxCapacity, Nat.not_lt.mpr h]

omit [Inhabited β] in
theorem checkMaxCapacity_of_lt (h : kMaxCapacity < newCapacity) (b : ByteBuffer β) :
    checkMaxCapacity newCapacity b = .error (.outOfMemory newCapacity) b := by
  simp [checkMaxCapacity, h]

omit [Inhabited β] in
theorem targetCapacity_of_zero (hzero : b.capacity = 0) :
    targetCapacity n b = orFault .endless (calculateNewCapacity n) b := by
  simp [targetCapacity, hzero]

omit [Inhabited β] in
theorem Valid.addSize_discard (hb : b.Valid) :
    addSize b.writableBytes b.discardReadBytes = b.writableBytes + b.readerIndex := by
  have h₁ := hb.reader_le
  have h₂ := hb.writer_le
  have h₃ := hb.capacity_lt
  rw [discardReadBytes, addSize_of_lt]
  rw [hb.writableBytes_eq]
  omega

omit [Inhabited β] in
/-- The bytes that were read are room enough. -/
theorem Valid.targetCapacity_of_discard (hb : b.Valid) (hzero : b.capacity ≠ 0)
    (hroom : n ≤ b.writableBytes + b.readerIndex) :
    targetCapacity n b = checkMaxCapacity b.capacity b := by
  simp [targetCapacity, hzero, hb.addSize_discard, Nat.not_lt.mpr hroom]

omit [Inhabited β] in
theorem Valid.targetCapacity_of_grow (hb : b.Valid) (hzero : b.capacity ≠ 0)
    (hroom : b.writableBytes + b.readerIndex < n) :
    targetCapacity n b =
      (orFault .endless (calculateNewCapacity (addSize b.writerIndex n)) >>= checkMaxCapacity) b := by
  simp [targetCapacity, hzero, hb.addSize_discard, hroom]

theorem ensureWritable_of_room (hroom : n ≤ b.writableBytes) : ensureWritable n b = .ok () b := by
  simp [ensureWritable, Nat.not_lt.mpr hroom]

theorem ensureWritable_of_ok (hroom : b.writableBytes < n)
    (htarget : targetCapacity n b = .ok newCapacity b) :
    ensureWritable n b = adjustCapacity newCapacity b := by
  simp [ensureWritable, hroom, bind_ok htarget]

theorem ensureWritable_of_error {fault : Fault} (hroom : b.writableBytes < n)
    (htarget : targetCapacity n b = .error fault b) : ensureWritable n b = .error fault b := by
  simp [ensureWritable, hroom, bind_error htarget]

/-- Readable bytes that do not fit into the new array are copied past its end. -/
theorem Valid.adjustCapacity_unfit (hb : b.Valid) (hunfit : newCapacity < b.contents.length) :
    adjustCapacity newCapacity b = .error .badAccess b := by
  have h₂ := hb.writer_le
  have hlength := hb.length_contents
  have hload : loadBytes b.buffer b.readerIndex b.readableBytes = some b.contents := by
    rw [hb.readableBytes_eq_length, hb.load_contents le_rfl, List.take_length]
  have hne : newCapacity ≠ b.capacity := by omega
  have hnil : b.contents ≠ [] := by
    intro hnil
    rw [hnil] at hunfit
    simp at hunfit
  have hstore : storeBytes (some (makeArray newCapacity : List β)) 0 b.contents = none := by
    simp [storeBytes, hnil, hunfit]
  simp [adjustCapacity, hload, hne, hstore]

/-- What a return of `adjustCapacity` tells. -/
theorem Valid.of_adjustCapacity (hb : b.Valid) (hlt : newCapacity < 2 ^ 64)
    (h : adjustCapacity newCapacity b = .ok () b') :
    b'.Valid ∧ b'.contents = b.contents ∧ b'.capacity = newCapacity ∧
      b'.writerIndex = b.contents.length := by
  by_cases hfit : b.contents.length ≤ newCapacity
  · obtain ⟨b'', hadjust, hvalid, hcontents, hcapacity, hwriter⟩ :=
      adjustCapacity_spec hb newCapacity hfit hlt
    cases hadjust.symm.trans h
    exact ⟨hvalid, hcontents, hcapacity, hwriter⟩
  · cases (hb.adjustCapacity_unfit (Nat.lt_of_not_le hfit)).symm.trans h

omit [Inhabited β] in
theorem of_orFault_calculateNewCapacity {target : ℕ}
    (h : (orFault .endless (calculateNewCapacity target) : BufferM β ℕ) b = .ok newCapacity b') :
    target ≤ 2 ^ 63 ∧ newCapacity = roundUp target ∧ b' = b := by
  obtain ⟨hcapacity, rfl⟩ := of_orFault_ok h
  by_cases hle : target ≤ 2 ^ 63
  · rw [calculateNewCapacity_eq_roundUp hle] at hcapacity
    exact ⟨hle, (Option.some.inj hcapacity).symm, rfl⟩
  · rw [calculateNewCapacity_eq_none (Nat.lt_of_not_le hle)] at hcapacity
    cases hcapacity

/-- The four ways in which `ensureWritable` returns. -/
inductive MakesRoom (n : ℕ) (b b' : ByteBuffer β) : Prop where
  | already (hroom : n ≤ b.writableBytes) (hb' : b' = b)
  | fresh (hroom : b.writableBytes < n) (hzero : b.capacity = 0) (htarget : n ≤ 2 ^ 63)
      (hadjust : adjustCapacity (roundUp n) b = .ok () b')
  | discard (hroom : b.writableBytes < n) (hzero : b.capacity ≠ 0)
      (hdiscard : n ≤ b.writableBytes + b.readerIndex) (hmax : b.capacity ≤ kMaxCapacity)
      (hadjust : adjustCapacity b.capacity b = .ok () b')
  | grow (hzero : b.capacity ≠ 0) (hroom : b.writableBytes + b.readerIndex < n)
      (hmax : roundUp (addSize b.writerIndex n) ≤ kMaxCapacity)
      (hadjust : adjustCapacity (roundUp (addSize b.writerIndex n)) b = .ok () b')

theorem Valid.makesRoom (hb : b.Valid) (h : ensureWritable n b = .ok () b') : MakesRoom n b b' := by
  by_cases hroom : n ≤ b.writableBytes
  · cases (ensureWritable_of_room hroom).symm.trans h
    exact .already hroom rfl
  · have hroom := Nat.lt_of_not_le hroom
    have hbind : (targetCapacity n >>= adjustCapacity) b = .ok () b' := by
      simpa [ensureWritable, hroom] using h
    obtain ⟨newCapacity, b₁, htarget, hadjust⟩ := exists_of_bind_ok hbind
    by_cases hzero : b.capacity = 0
    · rw [targetCapacity_of_zero hzero] at htarget
      obtain ⟨hle, rfl, rfl⟩ := of_orFault_calculateNewCapacity htarget
      exact .fresh hroom hzero hle hadjust
    · by_cases hdiscard : n ≤ b.writableBytes + b.readerIndex
      · rw [hb.targetCapacity_of_discard hzero hdiscard] at htarget
        by_cases hmax : b.capacity ≤ kMaxCapacity
        · cases (checkMaxCapacity_of_le hmax b).symm.trans htarget
          exact .discard hroom hzero hdiscard hmax hadjust
        · cases (checkMaxCapacity_of_lt (Nat.lt_of_not_le hmax) b).symm.trans htarget
      · have hgrow := Nat.lt_of_not_le hdiscard
        rw [hb.targetCapacity_of_grow hzero hgrow] at htarget
        obtain ⟨rounded, b₂, hround, hcheck⟩ := exists_of_bind_ok htarget
        obtain ⟨-, rfl, rfl⟩ := of_orFault_calculateNewCapacity hround
        by_cases hmax : roundUp (addSize b₂.writerIndex n) ≤ kMaxCapacity
        · cases (checkMaxCapacity_of_le hmax b₂).symm.trans hcheck
          exact .grow hzero hgrow hmax hadjust
        · cases (checkMaxCapacity_of_lt (Nat.lt_of_not_le hmax) b₂).symm.trans hcheck

/-! ## Reachable buffers are valid -/

theorem Valid.of_ensureWritable (hb : b.Valid) (h : ensureWritable n b = .ok () b') :
    b'.Valid ∧ b'.contents = b.contents := by
  cases hb.makesRoom h with
  | already hroom hb' =>
      subst hb'
      exact ⟨hb, rfl⟩
  | fresh hroom hzero htarget hadjust =>
      obtain ⟨hvalid, hcontents, -⟩ := hb.of_adjustCapacity (roundUp_lt htarget) hadjust
      exact ⟨hvalid, hcontents⟩
  | discard hroom hzero hdiscard hmax hadjust =>
      obtain ⟨hvalid, hcontents, -⟩ := hb.of_adjustCapacity hb.capacity_lt hadjust
      exact ⟨hvalid, hcontents⟩
  | grow hzero hroom hmax hadjust =>
      have hlt : roundUp (addSize b.writerIndex n) < 2 ^ 64 := by
        norm_num [kMaxCapacity] at hmax
        omega
      obtain ⟨hvalid, hcontents, -⟩ := hb.of_adjustCapacity hlt hadjust
      exact ⟨hvalid, hcontents⟩

omit [Inhabited β] in
/-- What a return of the copy behind the writer index tells. -/
theorem Valid.of_store (hb : b.Valid) {data : List β} {buffer : Option (List β)}
    (h : storeBytes b.buffer b.writerIndex data = some buffer) :
    b.writerIndex + data.length ≤ b.capacity := by
  have h₂ := hb.writer_le
  by_cases hnil : data = []
  · rw [hnil]
    exact h₂
  · have hlength := List.length_pos_iff.mpr hnil
    have halloc := hb.allocated
    cases hbuffer : b.buffer with
    | none => simp [storeBytes, hnil, hbuffer] at h
    | some cells =>
        rw [hbuffer, ByteBuffer.cells_some] at halloc
        by_cases hfit : b.writerIndex + data.length ≤ cells.length
        · exact halloc ▸ hfit
        · simp [storeBytes, hnil, hbuffer, hfit] at h

omit [Inhabited β] in
/-- Bytes that could be stored behind the writer index are appended. -/
theorem Valid.append_of_store (hb : b.Valid) {data : List β} {buffer : Option (List β)}
    (h : storeBytes b.buffer b.writerIndex data = some buffer) :
    ({ b with buffer, writerIndex := addSize b.writerIndex data.length } : ByteBuffer β).Valid ∧
      ({ b with buffer, writerIndex := addSize b.writerIndex data.length } :
        ByteBuffer β).contents = b.contents ++ data := by
  obtain ⟨buffer', hstore, hvalid, hcontents⟩ := append_spec hb data (hb.of_store h)
  obtain rfl := Option.some.inj (hstore.symm.trans h)
  exact ⟨hvalid, hcontents⟩

theorem Valid.of_writeBytes (hb : b.Valid) {data : List β} (h : writeBytes data b = .ok () b') :
    b'.Valid ∧ b'.contents = b.contents ++ data := by
  obtain ⟨_, b₁, hensure, hrest⟩ := exists_of_bind_ok h
  obtain ⟨hvalid, hcontents⟩ := hb.of_ensureWritable hensure
  rw [get_bind_apply] at hrest
  obtain ⟨buffer, b₂, hstore, hset⟩ := exists_of_bind_ok hrest
  obtain ⟨hstore, rfl⟩ := of_orFault_ok hstore
  obtain ⟨hvalid', hcontents'⟩ := hvalid.append_of_store hstore
  cases hset
  exact ⟨hvalid', by rw [hcontents', hcontents]⟩

omit [Inhabited β] in
theorem of_loadBytes {memory : Option (List β)} {offset length : ℕ} {data : List β}
    (h : loadBytes memory offset length = some data) :
    data.length = length ∧ data = ((cells memory).drop offset).take length := by
  by_cases hlength : length = 0
  · simp only [loadBytes, hlength, if_true, Option.some.injEq] at h
    rw [← h, hlength, List.take_zero]
    exact ⟨List.length_nil, rfl⟩
  · cases memory with
    | none => simp [loadBytes, hlength] at h
    | some cells =>
        by_cases hfit : offset + length ≤ cells.length
        · simp only [loadBytes, hlength, if_false, hfit, if_true, Option.some.injEq] at h
          refine ⟨?_, h.symm⟩
          rw [← h, List.length_take, List.length_drop]
          omega
        · simp [loadBytes, hlength, hfit] at h

theorem Valid.of_writeByteBuffer (hb : b.Valid) {byteBuffer : ByteBuffer β}
    (h : writeByteBuffer byteBuffer b = .ok () b') :
    ∃ data, loadBytes byteBuffer.buffer b.readerIndex byteBuffer.readableBytes = some data ∧
      b'.Valid ∧ b'.contents = b.contents ++ data ∧
      ∃ b₁, ensureWritable byteBuffer.readableBytes b = .ok () b₁ ∧
        b₁.writerIndex + byteBuffer.readableBytes ≤ b₁.capacity := by
  rw [writeByteBuffer, get_bind_apply] at h
  obtain ⟨_, b₁, hensure, hrest⟩ := exists_of_bind_ok h
  obtain ⟨hvalid, hcontents⟩ := hb.of_ensureWritable hensure
  obtain ⟨data, b₂, hload, hcopy⟩ := exists_of_bind_ok hrest
  obtain ⟨hloaded, rfl⟩ := of_orFault_ok hload
  rw [get_bind_apply] at hcopy
  obtain ⟨buffer, b₃, hstore, hset⟩ := exists_of_bind_ok hcopy
  obtain ⟨hstored, rfl⟩ := of_orFault_ok hstore
  have hroom := hvalid.of_store hstored
  obtain ⟨buffer', hstore', hvalid', hcontents'⟩ := append_spec hvalid data hroom
  obtain rfl := Option.some.inj (hstore'.symm.trans hstored)
  rw [(of_loadBytes hloaded).1] at hroom hvalid' hcontents'
  cases hset
  exact ⟨data, hloaded, hvalid', by rw [hcontents', hcontents], b₃, hensure, hroom⟩

omit [Inhabited β] in
theorem Valid.of_readBytes (hb : b.Valid) {data : List β} (h : readBytes n b = .ok data b') :
    b'.Valid := by
  by_cases hn : n ≤ b.contents.length
  · obtain ⟨b'', hread, hvalid, -⟩ := readBytes_spec hb hn
    cases hread.symm.trans h
    exact hvalid
  · cases (readBytes_throws hb (Nat.lt_of_not_le hn)).symm.trans h

theorem Reachable.valid (h : Reachable b) : b.Valid := by
  induction h with
  | null => exact valid_null
  | ofCapacity h => exact (ofCapacity_spec h).1
  | ofData h => exact (ofData_spec h).1
  | copy _ h ih =>
      obtain ⟨b'', hcopy, hvalid, -⟩ := copy_spec ih
      cases hcopy.symm.trans h
      exact hvalid
  | ensureWritable _ _ h ih => exact (ih.of_ensureWritable h).1
  | writeBytes _ _ h ih => exact (ih.of_writeBytes h).1
  | writeByteBuffer _ _ h ih =>
      obtain ⟨-, -, hvalid, -⟩ := ih.of_writeByteBuffer h
      exact hvalid
  | readBytes _ h ih => exact ih.of_readBytes h
  | clear _ h ih =>
      obtain ⟨b'', hclear, hvalid, -⟩ := clear_spec ih
      cases hclear.symm.trans h
      exact hvalid

/-! ## The limit -/

/-- `ensureWritable` throws, and changes nothing, where the readable bytes and the new ones exceed the
limit, and makes room for the new ones within the limit otherwise. -/
def Enforces (n : ℕ) (b : ByteBuffer β) : Prop :=
  if kMaxCapacity < b.readableBytes + n then
    ∃ newCapacity, ensureWritable n b = .error (.outOfMemory newCapacity) b
  else
    ∃ b', ensureWritable n b = .ok () b' ∧ n ≤ b'.writableBytes ∧ b'.capacity ≤ kMaxCapacity ∧
      b'.contents = b.contents

/-- Where the limit is enforced. The last line is about the sum that is rounded up. -/
def WithinLimits (n : ℕ) (b : ByteBuffer β) : Prop :=
  if n ≤ b.writableBytes then b.capacity ≤ kMaxCapacity
  else if b.capacity = 0 then n ≤ 2 ^ 30
  else if n ≤ b.writableBytes + b.readerIndex then
    b.capacity ≤ kMaxCapacity ∨ kMaxCapacity < b.readableBytes + n
  else
    b.writerIndex + n ≤ 2 ^ 30 ∨
      (2 ^ 30 < addSize b.writerIndex n ∧ addSize b.writerIndex n ≤ 2 ^ 63 ∧
        kMaxCapacity < b.readableBytes + n)

/-- Where the length is within the limit, `ensureWritable` has to return. -/
theorem enforces_of_le (h : b.readableBytes + n ≤ kMaxCapacity) : Enforces n b ↔
    ∃ b', ensureWritable n b = .ok () b' ∧ n ≤ b'.writableBytes ∧ b'.capacity ≤ kMaxCapacity ∧
      b'.contents = b.contents := by
  rw [Enforces, if_neg (Nat.not_lt.mpr h)]

theorem enforces_of_lt (h : kMaxCapacity < b.readableBytes + n) : Enforces n b ↔
    ∃ newCapacity, ensureWritable n b = .error (.outOfMemory newCapacity) b := by
  rw [Enforces, if_pos h]

/-- A new capacity that holds the readable bytes and the new ones, within the limit. -/
theorem Valid.enforces_of_adjust (hb : b.Valid) (hfit : b.readableBytes + n ≤ newCapacity)
    (hmax : newCapacity ≤ kMaxCapacity)
    (hensure : ensureWritable n b = adjustCapacity newCapacity b) : Enforces n b := by
  rw [enforces_of_le (le_trans hfit hmax)]
  rw [hb.readableBytes_eq_length] at hfit
  have hlt : newCapacity < 2 ^ 64 := by
    norm_num [kMaxCapacity] at hmax
    omega
  obtain ⟨b', hadjust, hvalid, hcontents, hcapacity, hwriter⟩ :=
    adjustCapacity_spec hb newCapacity (by omega) hlt
  refine ⟨b', hensure.trans hadjust, ?_, hcapacity ▸ hmax, hcontents⟩
  rw [hvalid.writableBytes_eq, hcapacity, hwriter]
  omega

/-- No exception: where the limit is exceeded it is not enforced, and a new capacity beyond it breaks
it elsewhere. -/
theorem Valid.not_enforces_of_adjust (hb : b.Valid) (hlt : newCapacity < 2 ^ 64)
    (h : kMaxCapacity < b.readableBytes + n ∨ kMaxCapacity < newCapacity)
    (hensure : ensureWritable n b = adjustCapacity newCapacity b) : ¬ Enforces n b := by
  intro henforces
  by_cases hmax : kMaxCapacity < b.readableBytes + n
  · obtain ⟨c, hthrows⟩ := (enforces_of_lt hmax).mp henforces
    rw [hensure] at hthrows
    by_cases hfit : b.contents.length ≤ newCapacity
    · obtain ⟨b', hadjust, -⟩ := adjustCapacity_spec hb newCapacity hfit hlt
      cases hadjust.symm.trans hthrows
    · cases (hb.adjustCapacity_unfit (Nat.lt_of_not_le hfit)).symm.trans hthrows
  · obtain ⟨b', hreturns, -, hcapacity, -⟩ :=
      (enforces_of_le (Nat.le_of_not_lt hmax)).mp henforces
    rw [hensure] at hreturns
    obtain ⟨-, -, hnew, -⟩ := hb.of_adjustCapacity hlt hreturns
    have hbeyond := h.resolve_left hmax
    omega

theorem enforces_iff_of_throws (hensure : ensureWritable n b = .error (.outOfMemory newCapacity) b) :
    Enforces n b ↔ kMaxCapacity < b.readableBytes + n := by
  constructor
  · intro henforces
    by_contra hmax
    obtain ⟨b', hreturns, -⟩ := (enforces_of_le (Nat.le_of_not_lt hmax)).mp henforces
    cases hensure.symm.trans hreturns
  · exact fun hmax => (enforces_of_lt hmax).mpr ⟨newCapacity, hensure⟩

theorem not_enforces_of_endless (hensure : ensureWritable n b = .error .endless b) :
    ¬ Enforces n b := by
  intro henforces
  by_cases hmax : kMaxCapacity < b.readableBytes + n
  · obtain ⟨c, hthrows⟩ := (enforces_of_lt hmax).mp henforces
    cases hensure.symm.trans hthrows
  · obtain ⟨b', hreturns, -⟩ := (enforces_of_le (Nat.le_of_not_lt hmax)).mp henforces
    cases hensure.symm.trans hreturns

/-! ### The four branches -/

theorem Valid.enforces_of_room (hb : b.Valid) (hroom : n ≤ b.writableBytes) :
    Enforces n b ↔ b.capacity ≤ kMaxCapacity := by
  have h₁ := hb.reader_le
  have h₂ := hb.writer_le
  have hreadable := hb.readableBytes_eq
  have hwritable := hb.writableBytes_eq
  have hensure := ensureWritable_of_room hroom
  constructor
  · intro henforces
    by_contra hmax
    by_cases hlt : kMaxCapacity < b.readableBytes + n
    · obtain ⟨c, hthrows⟩ := (enforces_of_lt hlt).mp henforces
      cases hensure.symm.trans hthrows
    · obtain ⟨b', hreturns, -, hcapacity, -⟩ :=
        (enforces_of_le (Nat.le_of_not_lt hlt)).mp henforces
      cases hensure.symm.trans hreturns
      exact hmax hcapacity
  · intro hmax
    exact (enforces_of_le (by omega)).mpr ⟨b, hensure, hroom, hmax, rfl⟩

theorem Valid.enforces_of_zero (hb : b.Valid) (hroom : b.writableBytes < n)
    (hzero : b.capacity = 0) : Enforces n b ↔ n ≤ 2 ^ 30 := by
  have h₁ := hb.reader_le
  have h₂ := hb.writer_le
  have hreadable := hb.readableBytes_eq
  by_cases hle : n ≤ 2 ^ 63
  · have htarget : targetCapacity n b = .ok (roundUp n) b := by
      rw [targetCapacity_of_zero hzero, calculateNewCapacity_eq_roundUp hle]
      rfl
    have hensure := ensureWritable_of_ok hroom htarget
    constructor
    · intro henforces
      by_contra hmax
      rw [← roundUp_le_kMaxCapacity] at hmax
      exact hb.not_enforces_of_adjust (roundUp_lt hle) (.inr (Nat.lt_of_not_le hmax)) hensure
        henforces
    · intro hmax
      have hfit := le_roundUp n
      exact hb.enforces_of_adjust (by omega) (roundUp_le_kMaxCapacity.mpr hmax) hensure
  · have htarget : targetCapacity n b = .error .endless b := by
      rw [targetCapacity_of_zero hzero, calculateNewCapacity_eq_none (Nat.lt_of_not_le hle)]
      rfl
    exact iff_of_false (not_enforces_of_endless (ensureWritable_of_error hroom htarget)) (by omega)

theorem Valid.enforces_of_discard (hb : b.Valid) (hroom : b.writableBytes < n)
    (hzero : b.capacity ≠ 0) (hdiscard : n ≤ b.writableBytes + b.readerIndex) :
    Enforces n b ↔ b.capacity ≤ kMaxCapacity ∨ kMaxCapacity < b.readableBytes + n := by
  have h₁ := hb.reader_le
  have h₂ := hb.writer_le
  have hreadable := hb.readableBytes_eq
  have hwritable := hb.writableBytes_eq
  have htarget := hb.targetCapacity_of_discard hzero hdiscard
  by_cases hmax : b.capacity ≤ kMaxCapacity
  · rw [checkMaxCapacity_of_le hmax] at htarget
    exact iff_of_true
      (hb.enforces_of_adjust (by omega) hmax (ensureWritable_of_ok hroom htarget)) (.inl hmax)
  · rw [checkMaxCapacity_of_lt (Nat.lt_of_not_le hmax)] at htarget
    rw [enforces_iff_of_throws (ensureWritable_of_error hroom htarget)]
    exact ⟨.inr, fun h => h.resolve_left hmax⟩

omit [Inhabited β] in
/-- Where the sum wraps, the length alone exceeds the limit. -/
theorem Valid.limit_lt_of_wrap (hb : b.Valid) (hroom : b.writableBytes + b.readerIndex < n) (hwrap : 2 ^ 64 ≤ b.writerIndex + n) :
    kMaxCapacity < b.readableBytes + n := by
  have h₁ := hb.reader_le
  have h₂ := hb.writer_le
  have hreadable := hb.readableBytes_eq
  have hwritable := hb.writableBytes_eq
  norm_num [kMaxCapacity]
  omega

theorem Valid.enforces_of_grow (hb : b.Valid) (hzero : b.capacity ≠ 0)
    (hroom : b.writableBytes + b.readerIndex < n) :
    Enforces n b ↔ b.writerIndex + n ≤ 2 ^ 30 ∨
      (2 ^ 30 < addSize b.writerIndex n ∧ addSize b.writerIndex n ≤ 2 ^ 63 ∧
        kMaxCapacity < b.readableBytes + n) := by
  have h₁ := hb.reader_le
  have hreadable := hb.readableBytes_eq
  have htarget := hb.targetCapacity_of_grow hzero hroom
  have hroom' : b.writableBytes < n := Nat.lt_of_le_of_lt (Nat.le_add_right _ _) hroom
  by_cases hle : addSize b.writerIndex n ≤ 2 ^ 63
  · rw [calculateNewCapacity_eq_roundUp hle, orFault_some, pure_bind_apply] at htarget
    by_cases hmax : addSize b.writerIndex n ≤ 2 ^ 30
    · rw [checkMaxCapacity_of_le (roundUp_le_kMaxCapacity.mpr hmax)] at htarget
      have hensure := ensureWritable_of_ok hroom' htarget
      by_cases hwrap : 2 ^ 64 ≤ b.writerIndex + n
      · -- the rounded sum is too small, and nothing is thrown
        have hlimit := hb.limit_lt_of_wrap hroom hwrap
        exact iff_of_false (hb.not_enforces_of_adjust (roundUp_lt hle) (.inl hlimit) hensure)
          (by omega)
      · have hadd := addSize_of_lt (Nat.lt_of_not_le hwrap)
        have hfit := le_roundUp (addSize b.writerIndex n)
        rw [hadd] at hmax
        exact iff_of_true
          (hb.enforces_of_adjust (by omega) (roundUp_le_kMaxCapacity.mpr (hadd ▸ hmax)) hensure)
          (.inl hmax)
    · have hover := Nat.lt_of_not_le hmax
      have hmax' : kMaxCapacity < roundUp (addSize b.writerIndex n) := by
        rw [← Nat.not_le, roundUp_le_kMaxCapacity]
        exact hmax
      rw [checkMaxCapacity_of_lt hmax'] at htarget
      rw [enforces_iff_of_throws (ensureWritable_of_error hroom' htarget)]
      refine ⟨fun hlimit => .inr ⟨hover, hle, hlimit⟩, ?_⟩
      rintro (hsmall | ⟨-, -, hlimit⟩)
      · rw [addSize_of_lt (by omega)] at hmax
        exact absurd hsmall hmax
      · exact hlimit
  · rw [calculateNewCapacity_eq_none (Nat.lt_of_not_le hle), orFault_none,
      throw_bind_apply] at htarget
    refine iff_of_false (not_enforces_of_endless (ensureWritable_of_error hroom' htarget)) ?_
    rintro (hsmall | ⟨-, hle', -⟩)
    · rw [addSize_of_lt (by omega)] at hle
      omega
    · exact hle hle'

/-- The limit is enforced exactly there. -/
theorem enforces_iff (hb : Reachable b) : Enforces n b ↔ WithinLimits n b := by
  have hvalid := hb.valid
  rw [WithinLimits]
  split
  case isTrue hroom => exact hvalid.enforces_of_room hroom
  case isFalse hroom =>
    have hroom := Nat.lt_of_not_le hroom
    split
    case isTrue hzero => exact hvalid.enforces_of_zero hroom hzero
    case isFalse hzero =>
      split
      case isTrue hdiscard => exact hvalid.enforces_of_discard hroom hzero hdiscard
      case isFalse hdiscard => exact hvalid.enforces_of_grow hzero (Nat.lt_of_not_le hdiscard)

/-- A new buffer and a length it has room for. -/
theorem enforces_iff_new : Enforces 1000 (ofCapacity 1024 : ByteBuffer UInt8) ↔
    WithinLimits 1000 (ofCapacity 1024 : ByteBuffer UInt8) :=
  enforces_iff (.ofCapacity (by norm_num))

/-- A buffer without an array takes more than the limit. -/
theorem not_enforces_null : Reachable (null : ByteBuffer UInt8) ∧
    ¬ Enforces 2147483647 (null : ByteBuffer UInt8) := by
  refine ⟨.null, fun henforces => ?_⟩
  have hlarge := (valid_null.enforces_of_zero (by rw [valid_null.writableBytes_eq]; decide) rfl).mp
    henforces
  omega

end Nets.ByteBuffer
