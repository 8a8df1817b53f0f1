import Nets.Verification.StringUtils.Termination

/-! # Joining what was split

The scan keeps that the tokens, each followed by the delimiter, are the string up to its position. -/

namespace Nets.StringUtils

open Library

/-! ## Pieces and separators -/

section Pieces

variable {α : Type*}

/-- A separator behind the last piece makes the join uniform. -/
theorem intercalate_append (sep : List α) {pieces : List (List α)} (h : pieces ≠ []) :
    List.intercalate sep pieces ++ sep = pieces.flatMap (· ++ sep) := by
  induction pieces with
  | nil => contradiction
  | cons piece pieces ih =>
      cases pieces with
      | nil => simp
      | cons next pieces =>
          rw [List.intercalate_cons_cons, List.flatMap_cons, ← ih (List.cons_ne_nil next pieces)]
          simp only [List.append_assoc]

/-- A last piece has no separator behind it. -/
theorem intercalate_concat (sep : List α) (pieces : List (List α)) (last : List α) :
    List.intercalate sep (pieces ++ [last]) = pieces.flatMap (· ++ sep) ++ last := by
  induction pieces with
  | nil => simp
  | cons piece pieces ih =>
      have hne : pieces ++ [last] ≠ [] := by simp
      rw [List.cons_append, List.intercalate_cons_of_ne_nil hne, ih, List.flatMap_cons]
      simp only [List.append_assoc]

/-- An infix begins at a position at which it fits. -/
theorem exists_prefix_drop {sep l : List α} (h : sep <:+: l) :
    ∃ k, k + sep.length ≤ l.length ∧ sep <+: l.drop k := by
  obtain ⟨front, back, rfl⟩ := h
  refine ⟨front.length, by simp, ?_⟩
  rw [List.append_assoc, List.drop_left]
  exact List.prefix_append sep back

end Pieces

/-! ## The scan -/

variable {α : Type} [DecidableEq α] {s delimiter : List α}

/-- What the loop keeps. -/
structure Scanned (s delimiter : List α) (scan : Scan α) : Prop where
  le_length : scan.pos1 ≤ s.length
  pos2_eq : scan.pos2 = find s delimiter scan.pos1
  read : scan.tokens.flatMap (· ++ delimiter) = s.take scan.pos1
  notIn : ∀ token ∈ scan.tokens, ¬delimiter <:+: token

theorem scanned_start (s delimiter : List α) :
    Scanned s delimiter ⟨[], 0, find s delimiter 0⟩ where
  le_length := Nat.zero_le _
  pos2_eq := rfl
  read := by simp
  notIn := by simp

/-- Up to the occurrence that was found there is none. -/
theorem not_infix_substr {pos1 pos2 : ℕ} (hne : delimiter ≠ [])
    (hfind : find s delimiter pos1 = some pos2) :
    ¬delimiter <:+: substr s pos1 (pos2 - pos1) := by
  intro hinfix
  obtain ⟨k, hend, hoccurs⟩ := exists_prefix_drop hinfix
  have hpos := List.length_pos_iff.mpr hne
  have hlength : (substr s pos1 (pos2 - pos1)).length ≤ pos2 - pos1 := List.length_take_le _ _
  obtain ⟨-, -, -, hfirst⟩ := find_eq_some_iff.mp hfind
  apply hfirst (pos1 + k) (by omega) (by omega)
  rw [substr, List.drop_take, List.drop_drop] at hoccurs
  exact hoccurs.trans (List.take_prefix _ _)

/-- Where nothing is found the rest has no occurrence. -/
theorem not_infix_drop {pos1 : ℕ} (hne : delimiter ≠ []) (hfind : find s delimiter pos1 = none) :
    ¬delimiter <:+: s.drop pos1 := by
  intro hinfix
  obtain ⟨k, hend, hoccurs⟩ := exists_prefix_drop hinfix
  have hpos := List.length_pos_iff.mpr hne
  rw [List.length_drop] at hend
  rw [List.drop_drop] at hoccurs
  exact find_eq_none_iff.mp hfind (pos1 + k) (by omega) (by omega) hoccurs

/-- The string up to the end of the occurrence that was found. -/
theorem take_of_find {pos1 pos2 : ℕ} (hfind : find s delimiter pos1 = some pos2) :
    s.take (pos2 + delimiter.length) =
      s.take pos1 ++ (substr s pos1 (pos2 - pos1) ++ delimiter) := by
  obtain ⟨hoccurs, hle, -, -⟩ := find_eq_some_iff.mp hfind
  calc s.take (pos2 + delimiter.length)
      = s.take pos2 ++ (s.drop pos2).take delimiter.length := List.take_add
    _ = s.take pos2 ++ delimiter := by rw [← List.prefix_iff_eq_take.mp hoccurs]
    _ = s.take (pos1 + (pos2 - pos1)) ++ delimiter := by rw [Nat.add_sub_cancel' hle]
    _ = s.take pos1 ++ (substr s pos1 (pos2 - pos1) ++ delimiter) := by
      rw [List.take_add, substr, List.append_assoc]

/-- A round adds the token before the delimiter, and the delimiter. -/
theorem Scanned.round {scan next : Scan α} (hne : delimiter ≠ []) (h : Scanned s delimiter scan)
    (hround : splitRound s delimiter.length (find s delimiter) scan = .inl next) :
    Scanned s delimiter next := by
  obtain ⟨tokens, pos1, pos2⟩ := scan
  cases pos2 with
  | none => cases hround
  | some pos2 =>
      obtain rfl := Sum.inl.inj hround
      have hfind : find s delimiter pos1 = some pos2 := h.pos2_eq.symm
      constructor
      case le_length => exact (of_find hfind).2
      case pos2_eq => rfl
      case read =>
        have hread : tokens.flatMap (· ++ delimiter) = s.take pos1 := h.read
        rw [take_of_find hfind, ← hread]
        simp
      case notIn =>
        have hlast := not_infix_substr hne hfind
        exact List.forall_mem_append.mpr ⟨h.notIn, List.forall_mem_singleton.mpr hlast⟩

/-! ## The end of the scan -/

/-- The loop ends at the end of the string, and the delimiter was found before. -/
def EndsAfterMatch (s delimiter : List α) : Prop :=
  s ≠ [] ∧ ∃ scan, Loop.Reaches (splitRound s delimiter.length (find s delimiter))
    ⟨[], 0, find s delimiter 0⟩ scan ∧
      scan.pos2 = none ∧ scan.tokens ≠ [] ∧ scan.pos1 = s.length

/-- Where the loop leaves, a rest that is not empty is the last token. -/
theorem Scanned.leave {scan : Scan α} {tokens : List (List α)} (hne : delimiter ≠ [])
    (h : Scanned s delimiter scan)
    (hleave : splitRound s delimiter.length (find s delimiter) scan = .inr tokens) :
    scan.pos2 = none ∧ (∀ token ∈ tokens, ¬delimiter <:+: token) ∧
      (scan.pos1 ≠ s.length → List.intercalate delimiter tokens = s) ∧
      (scan.pos1 = s.length → tokens = scan.tokens ∧ tokens.flatMap (· ++ delimiter) = s) := by
  obtain ⟨scanned, pos1, pos2⟩ := scan
  cases pos2 with
  | some pos2 => cases hleave
  | none =>
      have htokens := Sum.inr.inj hleave
      have hread : scanned.flatMap (· ++ delimiter) = s.take pos1 := h.read
      by_cases hend : pos1 = s.length
      · rw [if_neg (not_not.mpr hend)] at htokens
        subst htokens
        refine ⟨rfl, h.notIn, fun hne => absurd hend hne, fun _ => ⟨rfl, ?_⟩⟩
        rw [hread, hend, List.take_length]
      · rw [if_pos hend] at htokens
        subst htokens
        refine ⟨rfl, ?_, fun _ => ?_, fun heq => absurd heq hend⟩
        · have hlast := not_infix_drop hne h.pos2_eq.symm
          exact List.forall_mem_append.mpr ⟨h.notIn, List.forall_mem_singleton.mpr hlast⟩
        · rw [intercalate_concat, hread, List.take_append_drop]

/-- Splitting a string that is not empty. -/
theorem returns_joins {tokens : List (List α)} (hs : s ≠ []) (hne : delimiter ≠ [])
    (h : Loop.Returns (splitRound s delimiter.length (find s delimiter))
      ⟨[], 0, find s delimiter 0⟩ tokens) :
    (EndsAfterMatch s delimiter → List.intercalate delimiter tokens ++ delimiter = s) ∧
      (¬EndsAfterMatch s delimiter → List.intercalate delimiter tokens = s) ∧
      ∀ token ∈ tokens, ¬delimiter <:+: token := by
  obtain ⟨scan, hreaches, hleave, hunique⟩ := h.exists_leave
  have hscanned : Scanned s delimiter scan :=
    hreaches.invariant (fun _ _ hi hround => hi.round hne hround) (scanned_start s delimiter)
  obtain ⟨hnone, hnotIn, hrest, hall⟩ := hscanned.leave hne hleave
  have htokens (hend : scan.pos1 = s.length) : tokens ≠ [] := by
    rintro rfl
    exact hs (hall hend).2.symm
  refine ⟨?_, ?_, hnotIn⟩
  · rintro ⟨-, last, hlast, hlastNone, -, hend⟩
    obtain rfl : last = scan := by
      obtain ⟨last, pos1, pos2⟩ := last
      obtain rfl : pos2 = none := hlastNone
      exact hunique _ _ hlast rfl
    rw [intercalate_append delimiter (htokens hend)]
    exact (hall hend).2
  · intro hnot
    by_cases hend : scan.pos1 = s.length
    · refine absurd ⟨hs, scan, hreaches, hnone, ?_, hend⟩ hnot
      rw [← (hall hend).1]
      exact htokens hend
    · exact hrest hend

/-- Splitting is invertible, and the overloads agree. -/
theorem split_joins :
    (∀ (s delimiter : List α) (fuel : ℕ) (tokens : List (List α)),
      split fuel s [] delimiter = some tokens →
        (EndsAfterMatch s delimiter →
          List.intercalate delimiter tokens ++ delimiter = s ∧
            List.intercalate delimiter tokens ≠ s) ∧
        (¬EndsAfterMatch s delimiter → List.intercalate delimiter tokens = s) ∧
        ∀ token ∈ tokens, ¬delimiter <:+: token) ∧
    ∀ (s : List α) (c : α),
      (∃ fuel tokens, splitChar fuel s [] c = some tokens) ∧
        ∀ fuel, splitChar fuel s [] c = split fuel s [] [c] := by
  constructor
  · intro s delimiter fuel tokens hsplit
    by_cases hs : s = []
    · subst hs
      obtain rfl := Option.some.inj hsplit
      exact ⟨fun hends => absurd rfl hends.1, fun _ => List.intercalate_nil, by simp⟩
    · rw [split, if_neg (mt List.length_eq_zero_iff.mp hs)] at hsplit
      have hne : delimiter ≠ [] := by
        rintro rfl
        exact not_terminates_nil [] ⟨tokens, fuel, hsplit⟩
      obtain ⟨hends, hrest, hnotIn⟩ := returns_joins hs hne ⟨fuel, hsplit⟩
      refine ⟨fun h => ⟨hends h, fun heq => ?_⟩, hrest, hnotIn⟩
      have hjoin := hends h
      rw [heq] at hjoin
      exact hne (List.append_right_eq_self.mp hjoin)
  · intro s c
    exact ⟨splitChar_returns s c [], fun fuel => splitChar_eq_split fuel s [] c⟩

/-- A comma in the middle and one at the end. -/
theorem split_joins_commas :
    EndsAfterMatch ['a', ',', 'b', ','] [','] ∧
      List.intercalate [','] [['a'], ['b']] ++ [','] = ['a', ',', 'b', ','] ∧
      ∀ token ∈ [['a'], ['b']], ¬[','] <:+: token := by
  have hends : EndsAfterMatch ['a', ',', 'b', ','] [','] :=
    ⟨by decide, ⟨[['a'], ['b']], 4, none⟩, .round (.round .start rfl) rfl, rfl, by decide, rfl⟩
  have hsplit : split 3 ['a', ',', 'b', ','] [] [','] = some [['a'], ['b']] := by decide
  obtain ⟨hjoin, -, hnotIn⟩ := split_joins.1 _ _ _ _ hsplit
  exact ⟨hends, (hjoin hends).1, hnotIn⟩

/-- Matches do not overlap. -/
example : split 2 ['a', 'a', 'a'] [] ['a', 'a'] = some [[], ['a']] := by decide

end Nets.StringUtils
