import Nets.Program.StringUtils

/-! # Where splitting ends

A round looks for the next delimiter behind the one it has found. An empty delimiter is found where
it was found before. -/

namespace Nets.StringUtils

open Library

variable {α : Type} [DecidableEq α] {s str : List α} {pos i : ℕ}

/-! ## Finding -/

/-- What is found is the first occurrence from the position on. -/
theorem find_eq_some_iff :
    find s str pos = some i ↔ str <+: s.drop i ∧ pos ≤ i ∧ i ≤ s.length ∧
      ∀ j, pos ≤ j → j < i → ¬str <+: s.drop j := by
  rw [find, List.find?_range'_eq_some]
  simp only [List.isPrefixOf_iff_prefix, List.mem_range'_1, Bool.not_eq_true',
    ← Bool.not_eq_true]
  constructor
  · rintro ⟨hoccurs, ⟨hle, hlt⟩, hfirst⟩
    exact ⟨hoccurs, hle, by omega, hfirst⟩
  · rintro ⟨hoccurs, hle, hlength, hfirst⟩
    exact ⟨hoccurs, ⟨hle, by omega⟩, hfirst⟩

/-- Nothing is found where there is no occurrence. -/
theorem find_eq_none_iff :
    find s str pos = none ↔ ∀ j, pos ≤ j → j ≤ s.length → ¬str <+: s.drop j := by
  rw [find, List.find?_range'_eq_none]
  simp only [Bool.not_eq_true', ← Bool.not_eq_true, List.isPrefixOf_iff_prefix]
  constructor
  · intro h j hle hlength
    exact h j hle (by omega)
  · intro h j hle hlt
    exact h j hle (by omega)

/-- What is found begins at the position or behind it, and ends in the string. -/
theorem of_find (h : find s str pos = some i) : pos ≤ i ∧ i + str.length ≤ s.length := by
  obtain ⟨hoccurs, hle, hin, -⟩ := find_eq_some_iff.mp h
  have hlength := hoccurs.length_le
  rw [List.length_drop] at hlength
  omega

/-- A character is found where the string of this character is found. -/
theorem findChar_eq (s : List α) (c : α) (pos : ℕ) : findChar s c pos = find s [c] pos := by
  have hoccurs (j : ℕ) : [c] <+: s.drop j ↔ s[j]? = some c := by
    rw [List.singleton_prefix_iff_head?_eq_some, List.head?_drop]
  ext i
  rw [findChar, List.find?_range'_eq_some, find_eq_some_iff]
  simp only [hoccurs, List.mem_range'_1, decide_eq_true_eq, Bool.not_eq_true',
    decide_eq_false_iff_not]
  constructor
  · rintro ⟨hchar, ⟨hle, hlt⟩, hfirst⟩
    exact ⟨hchar, hle, by omega, hfirst⟩
  · rintro ⟨hchar, hle, -, hfirst⟩
    have hlt := (List.getElem?_eq_some_iff.mp hchar).1
    exact ⟨hchar, ⟨hle, by omega⟩, hfirst⟩

/-- The empty string is found at once. -/
theorem find_nil (h : pos ≤ s.length) : find s [] pos = some pos := by
  obtain ⟨n, hn⟩ : ∃ n, s.length + 1 - pos = n + 1 := ⟨s.length - pos, by omega⟩
  rw [find, hn, List.range'_succ]
  exact List.find?_cons_of_pos List.isPrefixOf_nil_left

/-! ## The loop -/

/-- The characters from the delimiter on that was found. -/
def Scan.remaining (s : List α) (scan : Scan α) : ℕ :=
  match scan.pos2 with
  | some pos2 => s.length + 1 - pos2
  | none => 0

/-- With a delimiter of at least one character the scan moves on. -/
theorem terminates_of_ne_nil (hstr : str ≠ []) (tokens : List (List α)) :
    Loop.Terminates (splitRound s str.length (find s str)) ⟨tokens, 0, find s str 0⟩ := by
  have hpos := List.length_pos_iff.mpr hstr
  apply Loop.terminates_of_variant (I := fun scan => ∀ i, scan.pos2 = some i → i ≤ s.length)
    (Scan.remaining s)
  · rintro ⟨tokens, pos1, pos2⟩ scan hin hround
    cases pos2 with
    | none => cases hround
    | some pos2 =>
        have hle := hin pos2 rfl
        obtain rfl := Sum.inl.inj hround
        constructor
        · intro i hi
          have hfind := of_find hi
          omega
        · cases hnext : find s str (pos2 + str.length) with
          | none =>
              simp only [Scan.remaining]
              omega
          | some i =>
              have hfind := of_find hnext
              simp only [Scan.remaining]
              omega
  · intro i hi
    have hfind := of_find hi
    omega

/-- An empty delimiter is found at the same position again and again. -/
theorem not_terminates_nil (tokens : List (List α)) :
    ¬Loop.Terminates (splitRound s 0 (find s [])) ⟨tokens, 0, find s [] 0⟩ := by
  apply Loop.not_terminates_of_invariant (I := fun scan => scan.pos2 = some 0)
  · rintro ⟨tokens, pos1, pos2⟩ rfl
    exact ⟨_, rfl, find_nil (Nat.zero_le _)⟩
  · exact find_nil (Nat.zero_le _)

/-- `split` returns exactly where the string is empty or the delimiter is not. -/
theorem split_returns_iff (s delimiter : List α) (tokens : List (List α)) :
    (∃ fuel result, split fuel s tokens delimiter = some result) ↔ s = [] ∨ delimiter ≠ [] := by
  by_cases hs : s = []
  · subst hs
    exact ⟨fun _ => .inl rfl, fun _ => ⟨0, tokens, rfl⟩⟩
  · have hloop : (∃ fuel result, split fuel s tokens delimiter = some result) ↔
        Loop.Terminates (splitRound s delimiter.length (find s delimiter))
          ⟨tokens, 0, find s delimiter 0⟩ := by
      simp only [split, List.length_eq_zero_iff, hs, if_false]
      exact exists_comm
    rw [hloop]
    constructor
    · intro hterminates
      right
      rintro rfl
      exact not_terminates_nil tokens hterminates
    · intro hdelimiter
      exact terminates_of_ne_nil (hdelimiter.resolve_left hs) tokens

/-- The overload for a character splits at the string of this character. -/
theorem splitChar_eq_split (fuel : ℕ) (s : List α) (tokens : List (List α)) (delimiter : α) :
    splitChar fuel s tokens delimiter = split fuel s tokens [delimiter] := by
  have hfind : findChar s delimiter = find s [delimiter] := funext (findChar_eq s delimiter)
  rw [splitChar, split, hfind, List.length_singleton]

/-- The overload for a character always returns. -/
theorem splitChar_returns (s : List α) (delimiter : α) (tokens : List (List α)) :
    ∃ fuel result, splitChar fuel s tokens delimiter = some result := by
  by_cases hs : s = []
  · subst hs
    exact ⟨0, tokens, rfl⟩
  · simp only [splitChar_eq_split, split, List.length_eq_zero_iff, hs, if_false]
    rw [exists_comm]
    exact terminates_of_ne_nil (List.cons_ne_nil delimiter []) tokens

/-- One character, and nothing to split it at. -/
theorem split_nil_not_returns : ¬∃ fuel result, split fuel ['a'] [] [] = some result := by
  rintro ⟨fuel, result, hsplit⟩
  exact not_terminates_nil (s := ['a']) [] ⟨result, fuel, hsplit⟩

end Nets.StringUtils
