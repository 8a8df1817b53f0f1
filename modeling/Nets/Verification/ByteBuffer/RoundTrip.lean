import Nets.Verification.ByteBuffer.Capacity
import Nets.Verification.ByteBuffer.Encoding

/-! # Round trip of typed values

Whatever the alignment of the writes to the growth and the compaction of the buffer, a write that
returns has appended its encoding; so a list of values is read back from its concatenated encodings. -/

namespace Nets.ByteBuffer

open Library

/-- One typed write after the other. -/
def writeAll : List Value → BufferM UInt8 Unit
  | [] => pure ()
  | value :: values => do
    write value
    writeAll values

/-- One typed read after the other. -/
def readAll : List Kind → BufferM UInt8 (List Value)
  | [] => pure []
  | kind :: kinds => do
    let value ← read kind
    let values ← readAll kinds
    return value :: values

/-- A write moves the writer index by the length of its data at most. -/
theorem writerIndex_of_writeBytes_ok {β : Type} [Inhabited β] {b b' : ByteBuffer β} (hb : b.Valid) {data : List β}
    (hlen : b.writerIndex + data.length < 2 ^ 63) (h : writeBytes data b = .ok () b') :
    b'.writerIndex ≤ b.writerIndex + data.length := by
  obtain ⟨⟨⟩, b₁, hensure, hstore⟩ := exists_of_bind_ok h
  have hle : b₁.writerIndex ≤ b.writerIndex := by
    rcases ensureWritable_spec hb hlen with ⟨b₂, hensure', -, -, hle, -⟩ | ⟨c, hensure'⟩
    · rw [hensure] at hensure'
      cases hensure'
      exact hle
    · rw [hensure] at hensure'
      cases hensure'
  rw [get_bind_apply] at hstore
  obtain ⟨buffer, b₂, hbuffer, hset⟩ := exists_of_bind_ok hstore
  obtain ⟨-, rfl⟩ := of_orFault_ok hbuffer
  cases hset
  change addSize b₂.writerIndex data.length ≤ _
  rw [addSize_of_lt (by omega)]
  omega

/-! ## Lists of values -/

variable {b b' start : ByteBuffer UInt8}

theorem writeAll_cons_ok {value : Value} {values : List Value}
    (h : writeAll (value :: values) b = .ok () b') :
    ∃ b₁, writeBytes value.encode b = .ok () b₁ ∧ writeAll values b₁ = .ok () b' := by
  obtain ⟨⟨⟩, b₁, hwrite, hrest⟩ := exists_of_bind_ok h
  rw [write_eq] at hwrite
  exact ⟨b₁, hwrite, hrest⟩

/-- Each write appends behind what the writes before it have left. -/
theorem of_writeAll_ok {values : List Value} (hb : b.Valid) (h : writeAll values b = .ok () b') :
    b'.Valid ∧ b'.contents = b.contents ++ values.flatMap Value.encode := by
  induction values generalizing b with
  | nil =>
      cases h
      exact ⟨hb, by simp⟩
  | cons value values ih =>
      obtain ⟨b₁, hwrite, hrest⟩ := writeAll_cons_ok h
      obtain ⟨hvalid₁, hcontents₁⟩ := hb.of_writeBytes hwrite
      obtain ⟨hvalid, hcontents⟩ := ih hvalid₁ hrest
      exact ⟨hvalid, by simp [hcontents, hcontents₁]⟩

/-- As long as no `size_t` overflows, the only thing that keeps the writes from returning is the limit
of the capacity. -/
theorem of_writeAll_error {values : List Value} {fault : Fault} (hb : b.Valid)
    (hlen : b.writerIndex + (values.flatMap Value.encode).length < 2 ^ 63)
    (h : writeAll values b = .error fault b') : ∃ c, fault = .outOfMemory c := by
  induction values generalizing b with
  | nil => cases h
  | cons value values ih =>
      rw [List.flatMap_cons, List.length_append] at hlen
      have hwrite_len : b.writerIndex + value.encode.length < 2 ^ 63 := by omega
      rw [writeAll, write_eq] at h
      rcases writeBytes_spec hb hwrite_len with ⟨b₁, hwrite, hvalid, -⟩ | ⟨c, hwrite⟩
      · have hle := writerIndex_of_writeBytes_ok hb hwrite_len hwrite
        rw [bind_ok hwrite] at h
        exact ih hvalid (by omega) h
      · rw [bind_error hwrite] at h
        cases h
        exact ⟨c, rfl⟩

/-- Reading everything moves both indices back to the front. -/
theorem readBytes_all (hb : b.Valid) :
    readBytes b.contents.length b =
      .ok b.contents { b with readerIndex := 0, writerIndex := 0 } := by
  have hreadable := hb.readableBytes_eq_length
  have hcheck : checkReadableBytes b.contents.length b = .ok () b := by
    simp [checkReadableBytes, hreadable]
  have hadjust : adjustReaderIndex b.contents.length b =
      .ok () { b with readerIndex := 0, writerIndex := 0 } := by
    simp [adjustReaderIndex, hreadable]
  simp [readBytes, bind_ok hcheck, hb.load_contents le_rfl, map_ok hadjust]

/-- The value at the front is read, and what was behind it is left. -/
theorem read_encode {value : Value} {rest : List UInt8} (hb : b.Valid)
    (hcontents : b.contents = value.encode ++ rest) :
    ∃ b₁, read value.kind b = .ok value b₁ ∧ b₁.Valid ∧ b₁.contents = rest ∧
      (rest = [] → b₁.readerIndex = 0 ∧ b₁.writerIndex = 0) := by
  have hsize : value.kind.size ≤ b.contents.length := by
    simp [hcontents, value.length_encode]
  have htake : b.contents.take value.kind.size = value.encode := by
    rw [hcontents, ← value.length_encode, List.take_left]
  have hdrop : b.contents.drop value.kind.size = rest := by
    rw [hcontents, ← value.length_encode, List.drop_left]
  obtain ⟨b₁, hread, hvalid, hrest⟩ := readBytes_spec hb hsize
  rw [htake] at hread
  rw [hdrop] at hrest
  refine ⟨b₁, ?_, hvalid, hrest, ?_⟩
  · rw [read_ok hread value.length_encode, decode_encode]
  · rintro rfl
    rw [← value.length_encode] at hread
    rw [List.append_nil] at hcontents
    rw [← hcontents, readBytes_all hb] at hread
    cases hread
    exact ⟨rfl, rfl⟩

theorem readAll_encode {values : List Value} (hb : b.Valid)
    (hcontents : b.contents = values.flatMap Value.encode) :
    ∃ b', readAll (values.map Value.kind) b = .ok values b' ∧ b'.Valid ∧ b'.contents = [] ∧
      (values ≠ [] → b'.readerIndex = 0 ∧ b'.writerIndex = 0) ∧ (values = [] → b' = b) := by
  induction values generalizing b with
  | nil => exact ⟨b, rfl, hb, by simpa using hcontents, by simp, fun _ => rfl⟩
  | cons value values ih =>
      obtain ⟨b₁, hread, hvalid₁, hcontents₁, hfront⟩ := read_encode hb hcontents
      obtain ⟨b', hrest, hvalid, hempty, hindices, hsame⟩ := ih hvalid₁ hcontents₁
      refine ⟨b', ?_, hvalid, hempty, fun _ => ?_, by simp⟩
      · rw [List.map_cons, readAll, bind_ok hread, bind_ok hrest, pure_apply]
      · cases values with
        | nil =>
            rw [hsame rfl]
            exact hfront rfl
        | cons => exact hindices (by simp)

/-- What holds when the writes have led from `start` to `b`. -/
structure RoundTrips (values : List Value) (start b : ByteBuffer UInt8) : Prop where
  contents : b.contents = values.flatMap Value.encode
  readableBytes : b.readableBytes = (values.flatMap Value.encode).length
  readAll : ∃ b', readAll (values.map Value.kind) b = .ok values b' ∧ b'.readableBytes = 0 ∧
    (values ≠ [] → b'.readerIndex = 0 ∧ b'.writerIndex = 0) ∧ (values = [] → b' = start)

/-- Values written to a buffer without readable bytes are read back, unless a write throws for lack of
memory; where the lengths stay below `2 ^ 63` the writes either return or throw so. -/
theorem values_round_trip (hstart : start.Valid) (hempty : start.readableBytes = 0)
    (values : List Value) :
    (∀ b, writeAll values start = .ok () b → RoundTrips values start b) ∧
      (start.writerIndex + (values.flatMap Value.encode).length < 2 ^ 63 →
        ∀ fault b, writeAll values start = .error fault b → ∃ c, fault = .outOfMemory c) := by
  have hnothing : start.contents = [] := by
    rwa [hstart.readableBytes_eq_length, List.length_eq_zero_iff] at hempty
  refine ⟨fun b hwrite => ?_, fun hlen fault b h => of_writeAll_error hstart hlen h⟩
  obtain ⟨hvalid, hcontents⟩ := of_writeAll_ok hstart hwrite
  rw [hnothing, List.nil_append] at hcontents
  obtain ⟨b', hread, hvalid', hempty', hindices, hsame⟩ := readAll_encode hvalid hcontents
  refine ⟨hcontents, ?_, b', hread, ?_, hindices, ?_⟩
  · rw [hvalid.readableBytes_eq_length, hcontents]
  · rw [hvalid'.readableBytes_eq_length, hempty', List.length_nil]
  · rintro rfl
    rw [hsame rfl]
    cases hwrite
    rfl

/-- A buffer of three bytes grows at the second value. -/
theorem values_round_trip_growing :
    RoundTrips [.int16 (-2), .uint32 772, .bytes [7]] (ofCapacity 3)
      ⟨some [255, 254, 0, 0, 3, 4, 7, 0], 0, 7, 8⟩ :=
  (values_round_trip (ofCapacity_spec (by decide)).1 rfl _).1 _ rfl

/-- Without a value nothing is read, and the indices stay where `setReaderIndex` has left them. -/
theorem indices_not_zero : ∃ b start : ByteBuffer UInt8,
    writeAll [.byte 1] (ofCapacity 1) = .ok () b ∧ start = b.setReaderIndex 1 ∧ start.Valid ∧
      start.readableBytes = 0 ∧ writeAll [] start = .ok () start ∧
        readAll [] start = .ok [] start ∧ ¬ (start.readerIndex = 0 ∧ start.writerIndex = 0) :=
  ⟨⟨some [1], 0, 1, 1⟩, ⟨some [1], 1, 1, 1⟩, rfl, rfl, ⟨by decide, by decide, rfl, by decide⟩, rfl, rfl,
    rfl, by decide⟩

end Nets.ByteBuffer
