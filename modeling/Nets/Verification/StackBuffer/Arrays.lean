import Nets.Program.StackArray
import Nets.Verification.ByteBuffer.Equations
import Nets.Verification.StackBuffer.Integers

/-! # The array of a buffer

An object represents a buffer when its array holds the text and zeros behind it. Every member function
then stays inside the array and does what it does to the buffer. -/

namespace Nets.StackArray

open Library
open StackBuffer (kMaximumNumberLimit kDigits getElem?_kDigits run_digitRound)

variable {SIZE : ℕ} {r r' : StackArray SIZE} {b b' : StackBuffer SIZE Char}

/-- The array holds the text of the buffer, and zeros behind it. -/
structure Represents (r : StackArray SIZE) (b : StackBuffer SIZE Char) : Prop where
  filled : r.buffer.FilledWith nul b.bytes
  writerIndex_eq : r.writerIndex = b.bytes.length

/-- What a write may come to: nothing, or the whole output behind the text. -/
structure Outcome (output : List Char) (r : StackArray SIZE) (b : StackBuffer SIZE Char)
    (r' : StackArray SIZE) (b' : StackBuffer SIZE Char) : Prop where
  represents : r'.Represents b'
  kept_or_appended : (r' = r ∧ b' = b) ∨ b'.bytes = b.bytes ++ output

theorem Represents.writableBytes_eq (h : r.Represents b) : r.writableBytes = b.writableBytes := by
  rw [writableBytes, h.writerIndex_eq, subSize_of_le (Nat.le_of_lt b.length_lt)]
  rfl

/-! ## Construction, copy, move, swap -/

theorem represents_construct [NeZero SIZE] : (construct : StackArray SIZE).Represents .empty where
  filled := FixedArray.filledWith_replicate SIZE nul
  writerIndex_eq := rfl

theorem Represents.load (h : r.Represents b) : r.buffer.load 0 r.writerIndex = some b.bytes := by
  rw [h.writerIndex_eq]
  exact h.filled.load

/-- A copy has the text, and zeros behind it whatever the array held before. -/
theorem Represents.copy (h : r.Represents b) : ∃ r', r.copy = some r' ∧ r'.Represents b := by
  have hempty := FixedArray.filledWith_replicate SIZE nul
  have hroom : ([] : List Char).length + b.bytes.length ≤ SIZE := by
    rw [List.length_nil, Nat.zero_add]
    exact Nat.le_of_lt b.length_lt
  obtain ⟨buffer, hstore, hfilled⟩ := hempty.store hroom
  refine ⟨⟨buffer, r.writerIndex⟩, ?_, hfilled, h.writerIndex_eq⟩
  have hstore' : (FixedArray.replicate SIZE nul).store 0 b.bytes = some buffer := hstore
  simp [StackArray.copy, h.load, hstore']

/-- A move leaves the other object as it is when constructed. -/
theorem Represents.move (h : r.Represents b) :
    ∃ r', r.move = some (r', construct) ∧ r'.Represents b := by
  obtain ⟨r', hcopy, hr'⟩ := h.copy
  have hclear : r.buffer.store 0 (List.replicate r.writerIndex nul) = some (.replicate SIZE nul) := by
    rw [h.writerIndex_eq]
    exact h.filled.clear
  refine ⟨r', ?_, hr'⟩
  simp [StackArray.move, hcopy, hclear, construct]

/-- What is not exchanged is zero in both. -/
theorem Represents.swap (h : r.Represents b) (h' : r'.Represents b') :
    r.swap r' = some (r', r) := by
  have hlt := b.length_lt
  have hlt' := b'.length_lt
  have hindex := h.writerIndex_eq
  have hindex' := h'.writerIndex_eq
  obtain ⟨n, hn⟩ : ∃ n, n = if r.writerIndex < r'.writerIndex then r'.writerIndex else r.writerIndex :=
    ⟨_, rfl⟩
  have hbounds : b.bytes.length ≤ n ∧ b'.bytes.length ≤ n ∧ n ≤ SIZE := by
    split at hn <;> omega
  have hdrop : r.buffer.cells.drop n = r'.buffer.cells.drop n :=
    (h.filled.drop_eq hbounds.1).trans (h'.filled.drop_eq hbounds.2.1).symm
  have hswap := FixedArray.swapElements_eq hbounds.2.2 hdrop
  simp [StackArray.swap, ← hn, hswap]

/-! ## Bytes -/

/-- There is room for `data` and one more character, or nothing is written. -/
theorem Represents.writeLength (h : r.Represents b) (data : List Char) :
    ∃ r', r.writeLength (some data) data.length = some r' ∧
      Outcome data r b r' (b.writeBytes data) := by
  by_cases hroom : data.length < b.writableBytes
  · have hfits := StackBuffer.length_add_lt hroom
    obtain ⟨buffer, hstore, hfilled⟩ := h.filled.store (Nat.le_of_lt hfits)
    have hbytes := StackBuffer.bytes_writeBytes hroom
    have hindex := h.writerIndex_eq
    rw [← hindex] at hstore
    rw [← hbytes] at hfilled
    refine ⟨⟨buffer, r.writerIndex + data.length⟩, ?_, ⟨hfilled, ?_⟩, .inr hbytes⟩
    · rw [StackArray.writeLength, h.writableBytes_eq, if_pos hroom]
      simp [hstore]
    · rw [hbytes, List.length_append, hindex]
  · refine ⟨r, ?_, ?_⟩
    · rw [StackArray.writeLength, h.writableBytes_eq, if_neg hroom]
    · rw [StackBuffer.writeBytes, dif_neg hroom]
      exact ⟨h, .inl ⟨rfl, rfl⟩⟩

/-- The other buffer may be the same object. -/
theorem Represents.writeBuffer (h : r.Represents b) (h' : r'.Represents b') :
    ∃ r'', r.writeBuffer r' = some r'' ∧ Outcome b'.bytes r b r'' (b.writeBytes b'.bytes) := by
  rw [StackArray.writeBuffer, h'.load, h'.writerIndex_eq]
  exact h.writeLength b'.bytes

/-! ## Digits -/

theorem getElem?_kHexDigits {d : ℕ} (h : d < 16) : kHexDigits[d]? = some (Nat.digitChar d) := by
  revert d
  decide

/-- The digits come behind the text. -/
theorem exists_putDigits {xs : FixedArray SIZE Char} {text data : List Char}
    (hfilled : xs.FilledWith nul text) (hroom : text.length + data.length ≤ SIZE) :
    ∃ ys, data.foldlM (fun loop digit => putDigit digit loop) ⟨xs, text.length⟩ =
        some ⟨ys, (text ++ data).length⟩ ∧ ys.FilledWith nul (text ++ data) := by
  induction data generalizing xs text with
  | nil =>
      rw [List.append_nil]
      exact ⟨xs, rfl, hfilled⟩
  | cons digit data ih =>
      rw [List.length_cons] at hroom
      obtain ⟨ys, hstore, hys⟩ := hfilled.store
        (show text.length + [digit].length ≤ SIZE by
          rw [List.length_singleton]
          omega)
      obtain ⟨zs, hrest, hzs⟩ := ih hys (by
        rw [List.length_append, List.length_singleton]
        omega)
      rw [List.append_assoc, List.singleton_append] at hrest hzs
      rw [List.length_append, List.length_singleton] at hrest
      refine ⟨zs, ?_, hzs⟩
      rw [List.foldlM_cons, putDigit, hstore]
      exact hrest

/-- The digits, and their reversal in place. -/
theorem exists_writeDigits {base : ℕ} {digits : List Char}
    (hdigits : ∀ d < base, digits[d]? = some (Nat.digitChar d)) (hbase : 1 < base) {k : ℕ}
    (hpos : 0 < k) (hk : k ≤ kMaximumNumberLimit) {n : ℕ} (hlt : n < base ^ k)
    {xs : FixedArray SIZE Char} {text : List Char} (hfilled : xs.FilledWith nul text)
    (hroom : text.length + k ≤ SIZE) :
    ∃ ys zs, writeDigits base digits n ⟨xs, text.length⟩ =
        some (0, ⟨ys, text.length + (Nat.toDigits base n).length⟩) ∧
      ys.reverse text.length (text.length + (Nat.toDigits base n).length) = some zs ∧
      zs.FilledWith nul (text ++ Nat.toDigits base n) := by
  have hlength := Nat.toDigits_length base n k hpos hlt
  obtain ⟨ys, hputs, hys⟩ := exists_putDigits hfilled
    (show text.length + (Nat.toDigits base n).reverse.length ≤ SIZE by
      rw [List.length_reverse]
      omega)
  obtain ⟨zs, hreverse, hzs⟩ := hys.reverse
  have hmore := Loop.run_add (run_digitRound hdigits hbase hpos hlt hputs) (kMaximumNumberLimit - k)
  rw [Nat.add_sub_cancel' hk] at hmore
  rw [List.length_append, List.length_reverse] at hmore hreverse
  rw [List.reverse_reverse] at hzs
  exact ⟨ys, zs, by rw [writeDigits, hmore, Option.join_some], hreverse, hzs⟩

/-! ## Numbers -/

theorem Represents.writeInteger (h : r.Represents b) {n : ℕ} (hlt : n < 10 ^ kMaximumNumberLimit) :
    ∃ r' b', r.writeInteger n = some r' ∧ b.writeInteger n = some b' ∧
      Outcome (decimal n) r b r' b' := by
  by_cases hroom : kMaximumNumberLimit < b.writableBytes
  · have hfits := StackBuffer.length_add_lt hroom
    obtain ⟨b', hwrite, hbytes⟩ := StackBuffer.writeInteger_natCast hroom hlt
    obtain ⟨xs, ys, hloop, hreverse, hys⟩ := exists_writeDigits (fun _ => getElem?_kDigits)
      (by norm_num) (by decide) le_rfl hlt h.filled (Nat.le_of_lt hfits)
    have hindex := h.writerIndex_eq
    rw [← hindex] at hloop hreverse
    refine ⟨⟨ys, r.writerIndex + (decimal n).length⟩, b', ?_, hwrite, ⟨?_, ?_⟩, .inr hbytes⟩
    · rw [StackArray.writeInteger, h.writableBytes_eq, if_pos hroom]
      simp [hloop, writeSign, hreverse, decimal]
    · rw [hbytes]
      exact hys
    · rw [hbytes, List.length_append, hindex]
  · refine ⟨r, b, ?_, ?_, h, .inl ⟨rfl, rfl⟩⟩
    · rw [StackArray.writeInteger, h.writableBytes_eq, if_neg hroom]
    · rw [StackBuffer.writeInteger, if_neg hroom]

/-- `0x` and the hexadecimal digits. -/
def pointerText (ptr : UInt64) : List Char := ['0', 'x'] ++ Nat.toDigits 16 ptr.toNat

theorem length_pointerText_le (ptr : UInt64) : (pointerText ptr).length ≤ kMaximumNumberLimit := by
  have hlength := Nat.toDigits_length 16 ptr.toNat 16 (by norm_num) ptr.toNat_lt
  rw [pointerText, List.length_append, kMaximumNumberLimit]
  simp only [List.length_cons, List.length_nil]
  omega

/-- A pointer has at most 16 digits, so that the 20 characters are more than are written. -/
theorem Represents.writePointer (h : r.Represents b) (ptr : UInt64) :
    ∃ r' b', r.writePointer ptr = some r' ∧ Outcome (pointerText ptr) r b r' b' := by
  by_cases hroom : kMaximumNumberLimit < b.writableBytes
  · obtain ⟨b', -, hbytes⟩ := StackBuffer.append_of_le hroom (length_pointerText_le ptr)
    have hfits := StackBuffer.length_add_lt hroom
    rw [kMaximumNumberLimit] at hfits
    obtain ⟨xs₁, hzero, hxs₁⟩ := h.filled.store
      (show b.bytes.length + ['0'].length ≤ SIZE by simp only [List.length_singleton]; omega)
    obtain ⟨xs₂, hx, hxs₂⟩ := hxs₁.store
      (show (b.bytes ++ ['0']).length + ['x'].length ≤ SIZE by
        simp only [List.length_append, List.length_singleton]
        omega)
    obtain ⟨xs₃, ys, hloop, hreverse, hys⟩ := exists_writeDigits (fun _ => getElem?_kHexDigits)
      (by norm_num) (show 0 < 16 by norm_num) (by decide) ptr.toNat_lt hxs₂ (by
        simp only [List.length_append, List.length_singleton]
        omega)
    have hindex := h.writerIndex_eq
    simp only [List.length_append, List.length_singleton, ← hindex] at hzero hx hloop hreverse
    refine ⟨⟨ys, r.writerIndex + (pointerText ptr).length⟩, b', ?_, ⟨?_, ?_⟩, .inr hbytes⟩
    · rw [StackArray.writePointer, h.writableBytes_eq, if_pos hroom]
      simp [hzero, hx, hloop, hreverse, pointerText]
      omega
    · rw [hbytes]
      simpa [pointerText] using hys
    · rw [hbytes, List.length_append, hindex]
  · refine ⟨r, b, ?_, h, .inl ⟨rfl, rfl⟩⟩
    rw [StackArray.writePointer, h.writableBytes_eq, if_neg hroom]

end Nets.StackArray
