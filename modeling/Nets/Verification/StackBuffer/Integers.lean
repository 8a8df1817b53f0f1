import Nets.Library.CStrings
import Nets.Program.LogBuffer

/-! # Integers in a buffer

The loop takes the last digit of what is left, and ends as soon as that is not positive. A negative
value is not positive after its first digit. -/

namespace Nets.StackBuffer

open Library

variable {SIZE : ℕ} {b : StackBuffer SIZE Char}

namespace Integer

/-- The value as a number. -/
def value : Integer → ℤ
  | int8 value => value.toInt
  | uint8 value => value.toNat
  | int16 value => value.toInt
  | uint16 value => value.toNat
  | int32 value => value.toInt
  | uint32 value => value.toNat
  | int64 value => value.toInt
  | uint64 value => value.toNat

end Integer

/-- The value comes behind what was written, as a decimal. -/
def WritesDecimal (i : Integer) (b : StackBuffer SIZE Char) : Prop :=
  ∃ b', b.write i = some b' ∧ b'.bytes = b.bytes ++ decimalInt i.value

/-- `operator<<` writes the decimal. -/
def StreamWritesDecimal (i : Integer) (stream : LogBufferStream) : Prop :=
  ∃ stream', stream.putInteger i = some stream' ∧
    stream'.buffer.bytes = stream.buffer.bytes ++ decimalInt i.value

/-! ## One function for all types -/

theorem write_eq_writeInteger (i : Integer) (b : StackBuffer SIZE Char) :
    b.write i = b.writeInteger i.value := by
  cases i with
  | int8 value =>
      rw [write, writeInt8, writeInt32, Int32.toInt32_toUInt32, Int8.toInt_toInt32]
      rfl
  | uint8 value =>
      rw [write, writeUint8, writeUint32, UInt8.toNat_toUInt32]
      rfl
  | int16 value =>
      rw [write, writeInt16, writeInt32, Int16.toInt_toInt32]
      rfl
  | uint16 value =>
      rw [write, writeUint16, writeUint32, UInt16.toNat_toUInt32]
      rfl
  | int32 | uint32 | int64 | uint64 => rfl

theorem Integer.natAbs_lt (i : Integer) : i.value.natAbs < 10 ^ kMaximumNumberLimit := by
  have hlimit : (2 ^ 64 : ℕ) < 10 ^ kMaximumNumberLimit := by decide
  cases i with
  | int8 value | int16 value | int32 value | int64 value =>
      have hlt := value.toInt_lt
      have hle := value.le_toInt
      rw [Integer.value]
      omega
  | uint8 value | uint16 value | uint32 value | uint64 value =>
      have hlt := value.toNat_lt
      rw [Integer.value]
      omega

/-! ## The loop -/

theorem getElem?_kDigits {n : ℕ} (h : n < 10) : kDigits[n]? = some (Nat.digitChar n) := by
  revert n
  decide

section Digits

variable {ω : Type} {base : ℕ} {digits : List Char} {put : Char → ω → Option ω} {written written' : ω}

/-- One digit of a number that is not negative. -/
theorem digitRound_natCast (hdigits : ∀ d < base, digits[d]? = some (Nat.digitChar d))
    (hbase : 1 < base) {n : ℕ} (hput : put (Nat.digitChar (n % base)) written = some written') :
    digitRound base digits put ((n : ℤ), written) =
      if 0 < n / base then .inl ((n / base : ℕ), written') else .inr (some (0, written')) := by
  have hmod : (n : ℤ).tmod base = (n % base : ℕ) := (Int.ofNat_tmod n base).symm
  have hdiv : (n : ℤ).tdiv base = (n / base : ℕ) := (Int.ofNat_tdiv n base).symm
  have hdigit := hdigits (n % base) (Nat.mod_lt n (Nat.zero_lt_of_lt hbase))
  have hindex : ¬((n % base : ℕ) : ℤ) < 0 := Int.not_lt.mpr (Int.natCast_nonneg _)
  simp only [digitRound, hmod, hdiv, if_neg hindex, Int.toNat_natCast, hdigit, Option.bind_some, hput]
  by_cases hrest : 0 < n / base
  · rw [if_pos hrest, if_pos (Int.natCast_pos.mpr hrest)]
  · have hzero : n / base = 0 := Nat.eq_zero_of_not_pos hrest
    rw [if_neg hrest, if_neg (mt Int.natCast_pos.mp hrest), hzero]
    rfl

/-- The loop writes the digits of a number that is not negative, the last one first. -/
theorem run_digitRound (hdigits : ∀ d < base, digits[d]? = some (Nat.digitChar d)) (hbase : 1 < base)
    {k : ℕ} (hpos : 0 < k) {n : ℕ} (hlt : n < base ^ k)
    (hputs : (Nat.toDigits base n).reverse.foldlM (fun written digit => put digit written) written =
      some written') :
    Loop.run (digitRound base digits put) k ((n : ℤ), written) = some (some (0, written')) := by
  induction k generalizing n written with
  | zero => omega
  | succ k ih =>
      rw [Nat.toDigits_eq_if hbase] at hputs
      by_cases hlast : n < base
      · rw [if_pos hlast, List.reverse_singleton, List.foldlM_cons] at hputs
        obtain ⟨first, hput, hrest⟩ := Option.bind_eq_some_iff.mp hputs
        obtain rfl := Option.some.inj hrest
        rw [← Nat.mod_eq_of_lt hlast] at hput
        have hround := digitRound_natCast hdigits hbase hput
        rw [Nat.div_eq_of_lt hlast, if_neg (Nat.lt_irrefl 0)] at hround
        exact Loop.run_succ_of_leave hround k
      · rw [if_neg hlast, List.reverse_append, List.reverse_singleton, List.singleton_append,
          List.foldlM_cons] at hputs
        obtain ⟨first, hput, hrest⟩ := Option.bind_eq_some_iff.mp hputs
        have hround := digitRound_natCast hdigits hbase hput
        rw [if_pos (Nat.div_pos (Nat.not_lt.mp hlast) (Nat.zero_lt_of_lt hbase))] at hround
        have hk : 0 < k := by
          by_contra hzero
          obtain rfl : k = 0 := by omega
          rw [Nat.zero_add, pow_one] at hlt
          exact hlast hlt
        have hlt' : n / base < base ^ k := by
          rw [pow_succ] at hlt
          exact Nat.div_lt_of_lt_mul (Nat.mul_comm _ _ ▸ hlt)
        rw [Loop.run_succ_of_continue hround]
        exact ih hk hlt' hrest

end Digits

theorem foldlM_putDigit (digits written : List Char) :
    digits.foldlM (fun written digit => putDigit digit written) written = some (written ++ digits) := by
  induction digits generalizing written with
  | nil => exact congrArg some (List.append_nil written).symm
  | cons digit digits ih =>
      have hrest := ih (written ++ [digit])
      rw [List.append_assoc, List.singleton_append] at hrest
      exact hrest

/-- The last digit of a negative value is not in the table, or it is a zero and the only one. -/
theorem digitRound_neg (n : ℕ) :
    digitRound 10 kDigits putDigit (-(n : ℤ), []) =
      if 0 < n % 10 then .inr none else .inr (some (-(n / 10 : ℕ), ['0'])) := by
  have hmod : (-(n : ℤ)).tmod (10 : ℕ) = -(n % 10 : ℕ) := by
    rw [Int.neg_tmod]
    exact congrArg Neg.neg (Int.ofNat_tmod n 10).symm
  have hdiv : (-(n : ℤ)).tdiv (10 : ℕ) = -(n / 10 : ℕ) := by
    rw [Int.neg_tdiv]
    exact congrArg Neg.neg (Int.ofNat_tdiv n 10).symm
  simp only [digitRound, hmod, hdiv]
  by_cases hdigit : 0 < n % 10
  · rw [if_pos hdigit, if_pos (by omega)]
  · have hzero : n % 10 = 0 := by omega
    rw [if_neg hdigit, if_neg (by omega), hzero]
    simp only [Nat.cast_zero, neg_zero, Int.toNat_zero, getElem?_kDigits (by norm_num : 0 < 10),
      Option.bind_some, putDigit]
    rw [if_neg (by omega)]
    rfl

theorem writeInteger_eq (value : ℤ) (hroom : kMaximumNumberLimit < b.writableBytes) :
    b.writeInteger value = (Loop.run (digitRound 10 kDigits putDigit) kMaximumNumberLimit (value, [])).join.bind
      fun (value, written) =>
        b.append (if value < 0 then written ++ ['-'] else written).reverse := by
  rw [writeInteger, if_pos hroom]

/-- More room than is needed leaves one character of the array. -/
theorem length_add_lt {n : ℕ} (h : n < b.writableBytes) : b.bytes.length + n < SIZE := by
  rw [writableBytes, length] at h
  omega

theorem append_of_le {data : List Char} (hroom : kMaximumNumberLimit < b.writableBytes)
    (hlength : data.length ≤ kMaximumNumberLimit) :
    ∃ b', b.append data = some b' ∧ b'.bytes = b.bytes ++ data := by
  have hfits : b.bytes.length + data.length < SIZE := length_add_lt (hlength.trans_lt hroom)
  exact ⟨_, dif_pos hfits, rfl⟩

/-- A number that is not negative is written as its decimal. -/
theorem writeInteger_natCast {n : ℕ} (hroom : kMaximumNumberLimit < b.writableBytes)
    (hlt : n < 10 ^ kMaximumNumberLimit) :
    ∃ b', b.writeInteger n = some b' ∧ b'.bytes = b.bytes ++ decimal n := by
  have hlength : (decimal n).length ≤ kMaximumNumberLimit := length_decimal_le (by decide) hlt
  obtain ⟨b', happend, hbytes⟩ := append_of_le hroom hlength
  refine ⟨b', ?_, hbytes⟩
  have hrun := run_digitRound (fun _ => getElem?_kDigits) (by norm_num) (by decide) hlt
    (foldlM_putDigit (Nat.toDigits 10 n).reverse [])
  rw [writeInteger_eq _ hroom, hrun]
  simpa [decimal] using happend

theorem writesDecimal_of_nonneg {i : Integer} (hroom : kMaximumNumberLimit < b.writableBytes)
    (h : 0 ≤ i.value) : WritesDecimal i b := by
  obtain ⟨n, hn⟩ := Int.eq_ofNat_of_zero_le h
  have hlt := i.natAbs_lt
  rw [hn, Int.natAbs_natCast] at hlt
  obtain ⟨b', hwrite, hbytes⟩ := writeInteger_natCast hroom hlt
  refine ⟨b', ?_, ?_⟩
  · rw [write_eq_writeInteger, hn, hwrite]
  · rw [hbytes, hn, decimalInt, if_neg (by omega), Int.natAbs_natCast]

theorem nonneg_of_writesDecimal {i : Integer} (hroom : kMaximumNumberLimit < b.writableBytes)
    (h : WritesDecimal i b) : 0 ≤ i.value := by
  by_contra hneg
  obtain ⟨b', hwrite, hbytes⟩ := h
  obtain ⟨n, hn⟩ : ∃ n : ℕ, i.value = -(n : ℤ) := ⟨i.value.natAbs, by omega⟩
  have hround := digitRound_neg n
  rw [write_eq_writeInteger, writeInteger_eq _ hroom, hn] at hwrite
  by_cases hdigit : 0 < n % 10
  · rw [if_pos hdigit] at hround
    rw [kMaximumNumberLimit, Loop.run_succ_of_leave hround] at hwrite
    cases hwrite
  · rw [if_neg hdigit] at hround
    rw [kMaximumNumberLimit, Loop.run_succ_of_leave hround] at hwrite
    have hrest : -((n / 10 : ℕ) : ℤ) < 0 := by omega
    obtain ⟨b'', happend, hbytes'⟩ :=
      append_of_le hroom (show ['-', '0'].length ≤ _ by decide)
    have hb' : b.append ['-', '0'] = some b' := by
      simp only [Option.join_some, Option.bind_some, hrest, if_true] at hwrite
      exact hwrite
    obtain rfl := Option.some.inj (happend.symm.trans hb')
    -- the digits before the zero are missing
    have hdecimal : ['0'] = decimal n := by
      have htext := List.append_cancel_left (hbytes'.symm.trans hbytes)
      rw [hn, decimalInt, if_pos (by omega), Int.natAbs_neg, Int.natAbs_natCast] at htext
      exact List.tail_eq_of_cons_eq htext
    have hlength := congrArg List.length hdecimal
    rw [decimal_eq_ite, if_neg (by omega), List.length_append] at hlength
    have hpos := List.length_pos_iff.mpr (decimal_ne_nil (n / 10))
    simp only [List.length_singleton] at hlength
    omega

theorem streamWritesDecimal_iff (i : Integer) (stream : LogBufferStream) :
    StreamWritesDecimal i stream ↔ WritesDecimal i stream.buffer := by
  constructor
  · rintro ⟨stream', hput, hbytes⟩
    obtain ⟨buffer, hwrite, rfl⟩ := Option.map_eq_some_iff.mp hput
    exact ⟨buffer, hwrite, hbytes⟩
  · rintro ⟨buffer, hwrite, hbytes⟩
    exact ⟨⟨buffer⟩, Option.map_eq_some_iff.mpr ⟨buffer, hwrite, rfl⟩, hbytes⟩

/-- With room for more than the longest integer, an integer of any of the eight types is written as its
decimal, by the buffer and by the operator of a stream, exactly where it is not negative. No digit is
then read outside the table. -/
theorem writesDecimal_iff (i : Integer) (hroom : kMaximumNumberLimit < b.writableBytes)
    {stream : LogBufferStream} (hstream : kMaximumNumberLimit < stream.buffer.writableBytes) :
    (WritesDecimal i b ↔ 0 ≤ i.value) ∧ (StreamWritesDecimal i stream ↔ 0 ≤ i.value) := by
  rw [streamWritesDecimal_iff]
  exact ⟨⟨nonneg_of_writesDecimal hroom, writesDecimal_of_nonneg hroom⟩,
    nonneg_of_writesDecimal hstream, writesDecimal_of_nonneg hstream⟩

/-- The least value of a signed type, and the largest of an unsigned one. -/
theorem writesDecimal_iff_extreme :
    ¬WritesDecimal (.int64 (-9223372036854775808)) (empty : LogTextBuffer) ∧
      StreamWritesDecimal (.uint64 18446744073709551615) ⟨empty⟩ := by
  have hroom : kMaximumNumberLimit < (empty : LogTextBuffer).writableBytes := by decide
  have hstream : kMaximumNumberLimit < (⟨empty⟩ : LogBufferStream).buffer.writableBytes := hroom
  constructor
  · rw [(writesDecimal_iff _ hroom hstream).1]
    decide
  · rw [(writesDecimal_iff _ hroom hstream).2]
    decide

/-- The digits before the zero are lost. -/
theorem not_writesDecimal_ten :
    ((empty : LogTextBuffer).writeInt32 (-10)).map StackBuffer.bytes = some ['-', '0'] ∧
      ¬WritesDecimal (.int32 (-10)) (empty : LogTextBuffer) := by
  have hwrite : ((empty : LogTextBuffer).writeInt32 (-10)).map StackBuffer.bytes = some ['-', '0'] := by
    decide
  refine ⟨hwrite, ?_⟩
  rintro ⟨b', hb', hbytes⟩
  change (empty : LogTextBuffer).writeInt32 (-10) = some b' at hb'
  rw [hb', Option.map_some, Option.some_inj, hbytes] at hwrite
  revert hwrite
  decide

end Nets.StackBuffer
