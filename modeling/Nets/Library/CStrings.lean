import Mathlib.Data.List.TakeWhile
import Mathlib.Data.Nat.Digits.Defs
import Mathlib.Tactic.Common

/-! # C strings

A `char` is a `Char`, and an array of them is a list, whose length an operation keeps. What would be
outside the array has no result. -/

namespace Nets.Library

def nul : Char := '\x00'

/-- What a pointer to the characters is read as: everything up to the NUL. -/
def cString (memory : List Char) : List Char := memory.takeWhile (· ≠ nul)

abbrev NulFree (text : List Char) : Prop := nul ∉ text

theorem cString_of_nulFree {text : List Char} (h : NulFree text) : cString text = text := by
  rw [cString, List.takeWhile_eq_self_iff]
  intro c hc
  rw [decide_eq_true_eq]
  rintro rfl
  exact h hc

/-- A text is read up to the NUL behind it. -/
theorem cString_append_nul {text : List Char} (h : NulFree text) (rest : List Char) :
    cString (text ++ nul :: rest) = text := by
  have hall : ∀ c ∈ text, decide (c ≠ nul) = true := by
    intro c hc
    rw [decide_eq_true_eq]
    rintro rfl
    exact h hc
  rw [cString, List.takeWhile_append_of_pos hall]
  simp

/-- `strrchr`: the text from the last place on where the character is. -/
def strrchr (text : List Char) (c : Char) : Option (List Char) :=
  if c ∈ text then some (c :: (text.reverse.takeWhile (· ≠ c)).reverse) else none

/-! ## Arrays -/

/-- The text in an array with a NUL. -/
def readString (memory : List Char) : Option (List Char) :=
  if nul ∈ memory then some (cString memory) else none

/-- The first characters of an array are overwritten. -/
def memcpy (memory source : List Char) : Option (List Char) :=
  if source.length ≤ memory.length then some (source ++ memory.drop source.length) else none

/-- A text with its NUL, at the beginning of an array. -/
def strcpy (memory text : List Char) : Option (List Char) :=
  if text.length < memory.length then some (text ++ nul :: memory.drop (text.length + 1)) else none

def strcat (memory source : List Char) : Option (List Char) :=
  let length := (cString memory).length
  if length + source.length < memory.length then
    some (memory.take length ++ source ++ nul :: memory.drop (length + source.length + 1))
  else none

/-- `strsep` at the position `start`, for one delimiter: the array, the token, and where the next one
begins. -/
def strsep (memory : List Char) (start : ℕ) (delimiter : Char) :
    Option (List Char × List Char × Option ℕ) := do
  let token := (memory.drop start).takeWhile fun c => c ≠ delimiter ∧ c ≠ nul
  let c ← memory[start + token.length]?
  if c = nul then some (memory, token, none)
  else some (memory.set (start + token.length) nul, token, some (start + token.length + 1))

/-- An array of the given size that is read as the text. -/
structure Holds (size : ℕ) (memory text : List Char) : Prop where
  length_eq : memory.length = size
  nulFree : NulFree text
  split : ∃ rest, memory = text ++ nul :: rest

section Arrays

variable {size start : ℕ} {memory text source token after : List Char} {delimiter : Char}

theorem holds_replicate (h : 0 < size) : Holds size (List.replicate size nul) [] where
  length_eq := List.length_replicate
  nulFree := List.not_mem_nil
  split := ⟨List.replicate (size - 1) nul, by
    rw [List.nil_append, ← List.replicate_succ, Nat.sub_add_cancel h]⟩

theorem Holds.cString_eq (h : Holds size memory text) : cString memory = text := by
  obtain ⟨rest, rfl⟩ := h.split
  exact cString_append_nul h.nulFree rest

theorem Holds.readString (h : Holds size memory text) : readString memory = some text := by
  have hmem : nul ∈ memory := by
    obtain ⟨rest, rfl⟩ := h.split
    simp
  rw [Library.readString, if_pos hmem, h.cString_eq]

theorem holds_strcpy (hlength : memory.length = size) (htext : NulFree text)
    (hfits : text.length < size) :
    ∃ memory', strcpy memory text = some memory' ∧ Holds size memory' text := by
  refine ⟨text ++ nul :: memory.drop (text.length + 1), ?_, ?_, htext, ⟨_, rfl⟩⟩
  · rw [strcpy, if_pos (hlength ▸ hfits)]
  · simp only [List.length_append, List.length_cons, List.length_drop]
    omega

/-- A text is appended where there is room for its NUL. -/
theorem Holds.strcat (h : Holds size memory text) (hsource : NulFree source)
    (hfits : text.length + source.length < size) :
    ∃ memory', strcat memory source = some memory' ∧ Holds size memory' (text ++ source) := by
  have hroom : text.length + source.length < memory.length := h.length_eq ▸ hfits
  obtain ⟨rest, hrest⟩ := h.split
  refine ⟨text ++ source ++ nul :: memory.drop (text.length + source.length + 1), ?_, ?_, ?_, ?_⟩
  · rw [Library.strcat, h.cString_eq, if_pos hroom]
    simp [hrest]
  · have hlength := h.length_eq
    simp only [List.length_append, List.length_cons, List.length_drop]
    omega
  · rw [NulFree, List.mem_append, not_or]
    exact ⟨h.nulFree, hsource⟩
  · exact ⟨_, rfl⟩

theorem Holds.strcat_eq_none (h : Holds size memory text)
    (hfull : size ≤ text.length + source.length) : Library.strcat memory source = none := by
  rw [Library.strcat, h.cString_eq, h.length_eq, if_neg (Nat.not_lt.mpr hfull)]

/-- Two texts are put together where both fit. -/
theorem Holds.strcat_strcat {back : List Char} (h : Holds size memory text) (hsource : NulFree source)
    (hback : NulFree back) :
    (do
      let memory ← Library.strcat memory source
      let memory ← Library.strcat memory back
      Library.readString memory) =
    if text.length + source.length + back.length < size then some (text ++ source ++ back)
    else none := by
  by_cases hfirst : text.length + source.length < size
  · obtain ⟨memory₁, hstrcat, hholds⟩ := h.strcat hsource hfirst
    rw [hstrcat, Option.bind_eq_bind, Option.bind_some]
    by_cases hboth : text.length + source.length + back.length < size
    · obtain ⟨memory₂, hstrcat', hholds'⟩ := hholds.strcat hback (by
        rw [List.length_append]
        exact hboth)
      rw [hstrcat', Option.bind_some, hholds'.readString, if_pos hboth]
    · have hfull : size ≤ (text ++ source).length + back.length := by
        rw [List.length_append]
        exact Nat.not_lt.mp hboth
      rw [hholds.strcat_eq_none hfull, if_neg hboth]
      rfl
  · rw [h.strcat_eq_none (Nat.not_lt.mp hfirst), if_neg (by omega)]
    rfl

theorem takeWhile_token (htoken : NulFree token) (hdelimiter : delimiter ∉ token) {c : Char}
    (hc : c = delimiter ∨ c = nul) :
    (token ++ c :: after).takeWhile (fun c => decide (c ≠ delimiter ∧ c ≠ nul)) = token := by
  have hall : ∀ c ∈ token, decide (c ≠ delimiter ∧ c ≠ nul) = true := by
    intro c hmem
    rw [decide_eq_true_eq]
    exact ⟨fun heq => hdelimiter (heq ▸ hmem), fun heq => htoken (heq ▸ hmem)⟩
  rw [List.takeWhile_append_of_pos hall]
  obtain rfl | rfl := hc
  all_goals simp

/-- The delimiter behind a token is overwritten. -/
theorem strsep_of_delimiter (h : memory.drop start = token ++ delimiter :: after)
    (htoken : NulFree token) (hdelimiter : delimiter ∉ token) (hne : delimiter ≠ nul) :
    ∃ memory', strsep memory start delimiter =
        some (memory', token, some (start + token.length + 1)) ∧
      memory'.drop (start + token.length + 1) = after := by
  refine ⟨memory.set (start + token.length) nul, ?_, ?_⟩
  · have hget : memory[start + token.length]? = some delimiter := by
      rw [← List.getElem?_drop, h]
      simp
    rw [strsep, h, takeWhile_token htoken hdelimiter (.inl rfl), hget]
    simp [hne]
  · rw [List.drop_set_of_lt (Nat.lt_add_one _), Nat.add_assoc, ← List.drop_drop, h]
    simp

theorem strsep_of_nul (h : memory.drop start = token ++ nul :: after)
    (htoken : NulFree token) (hdelimiter : delimiter ∉ token) :
    strsep memory start delimiter = some (memory, token, none) := by
  have hget : memory[start + token.length]? = some nul := by
    rw [← List.getElem?_drop, h]
    simp
  rw [strsep, h, takeWhile_token htoken hdelimiter (.inr rfl), hget]
  simp

end Arrays

/-! ## Formatted numbers -/

/-- `%u`. -/
def decimal (n : ℕ) : List Char := Nat.toDigits 10 n

/-- `%d`. -/
def decimalInt (value : ℤ) : List Char :=
  if value < 0 then '-' :: decimal value.natAbs else decimal value.natAbs

/-- `%0wd` for the width `w`: a sign comes before the zeros and counts. -/
def padded (width : ℕ) (value : ℤ) : List Char :=
  let digits := decimal value.natAbs
  if value < 0 then '-' :: (List.replicate (width - 1 - digits.length) '0' ++ digits)
  else List.replicate (width - digits.length) '0' ++ digits

/-- What `snprintf` leaves in a buffer of the given size. -/
def snprintf (size : ℕ) (text : List Char) : List Char := text.take (size - 1)

/-- The last digit comes off the end. -/
theorem decimal_eq_ite (n : ℕ) :
    decimal n = if n < 10 then [Nat.digitChar n]
      else decimal (n / 10) ++ [Nat.digitChar (n % 10)] :=
  Nat.toDigits_eq_if (by norm_num)

theorem decimal_ne_nil (n : ℕ) : decimal n ≠ [] := by
  rw [decimal_eq_ite]
  split
  · exact List.cons_ne_nil _ _
  · exact List.append_ne_nil_of_right_ne_nil _ (List.cons_ne_nil _ _)

theorem length_decimal_le {n width : ℕ} (hpos : 0 < width) (h : n < 10 ^ width) :
    (decimal n).length ≤ width :=
  Nat.toDigits_length 10 n width hpos h

/-- Only digits. -/
theorem notMem_decimal {c : Char} (hc : c.isDigit = false) (n : ℕ) : c ∉ decimal n := by
  intro h
  have hdigit := Nat.isDigit_of_mem_toDigits (by norm_num) (by norm_num) h
  exact Bool.false_ne_true (hc.symm.trans hdigit)

theorem notMem_decimalInt {c : Char} (hc : c.isDigit = false) (hsign : c ≠ '-') (value : ℤ) :
    c ∉ decimalInt value := by
  rw [decimalInt]
  split
  · simp [notMem_decimal hc, hsign]
  · exact notMem_decimal hc _

theorem notMem_padded {c : Char} (hc : c.isDigit = false) (hsign : c ≠ '-') (width : ℕ) (value : ℤ) :
    c ∉ padded width value := by
  have hzero : c ≠ '0' := by
    rintro rfl
    cases hc
  rw [padded]
  split
  · simp [notMem_decimal hc, hsign, hzero]
  · simp [notMem_decimal hc, hzero]

/-- A number of no more digits than the field has fills the field. -/
theorem length_padded {width : ℕ} {value : ℤ} (hpos : 0 < width) (hvalue : 0 ≤ value)
    (h : value.natAbs < 10 ^ width) : (padded width value).length = width := by
  have hdigits := length_decimal_le hpos h
  rw [padded, if_neg (by omega), List.length_append, List.length_replicate]
  omega

end Nets.Library
