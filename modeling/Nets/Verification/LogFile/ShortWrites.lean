import Mathlib.Algebra.Order.BigOperators.Group.Finset
import Mathlib.Data.List.Forall2
import Nets.Program.ShortWrite

/-! # Short writes

A stream that takes nothing and reports no error keeps the loop going for ever. Otherwise the stream takes a
prefix of the data of every call of `write`, and `bytes_` counts no byte that it has not taken. -/

namespace Nets

open Library Finset

namespace WriteLoop

variable {data : List UInt8} {answers : ℕ → FwriteAnswer} {w t : WriteLoop}

/-! ## One round -/

/-- What `calls` calls take, when nothing stops them. -/
def offered (data : List UInt8) (answers : ℕ → FwriteAnswer) (calls : ℕ) : ℕ :=
  min data.length (∑ i ∈ range calls, (answers i).count)

/-- Before each round, everything the stream took is counted. -/
structure Counts (data : List UInt8) (answers : ℕ → FwriteAnswer) (w : WriteLoop) : Prop where
  written : w.writtenBytes = offered data answers w.calls
  taken : w.taken = data.take w.writtenBytes
  silent : ∀ k < w.calls, offered data answers (k + 1) < data.length → (answers k).error = false

theorem counts_start : Counts data answers start where
  written := by simp [start, offered]
  taken := by simp [start]
  silent := by simp [start]

theorem Counts.add_amount (hw : Counts data answers w) :
    w.writtenBytes + w.amount data answers = offered data answers (w.calls + 1) := by
  have hwritten := hw.written
  rw [offered] at hwritten
  rw [amount, offered, sum_range_succ]
  omega

/-- The next call of a loop that goes on. -/
def next (data : List UInt8) (answers : ℕ → FwriteAnswer) (w : WriteLoop) : WriteLoop where
  writtenBytes := w.writtenBytes + w.amount data answers
  taken := w.taken ++ (data.drop w.writtenBytes).take (w.amount data answers)
  calls := w.calls + 1

@[simp] theorem next_writtenBytes :
    (next data answers w).writtenBytes = w.writtenBytes + w.amount data answers := rfl

@[simp] theorem next_calls : (next data answers w).calls = w.calls + 1 := rfl

/-- The call takes less than it is offered and ends with an error. -/
def Fails (data : List UInt8) (answers : ℕ → FwriteAnswer) (w : WriteLoop) : Prop :=
  w.amount data answers ≠ data.length - w.writtenBytes ∧ (answers w.calls).error = true

instance : Decidable (Fails data answers w) :=
  inferInstanceAs (Decidable (_ ∧ _))

theorem round_eq (data : List UInt8) (answers : ℕ → FwriteAnswer) (w : WriteLoop) :
    round data answers w =
      if w.writtenBytes < data.length then
        if Fails data answers w then .inr { next data answers w with writtenBytes := w.writtenBytes }
        else .inl (next data answers w)
      else .inr w := rfl

theorem round_continue (h : round data answers w = .inl t) :
    w.writtenBytes < data.length ∧ ¬ Fails data answers w ∧ t = next data answers w := by
  rw [round_eq] at h
  by_cases hremains : w.writtenBytes < data.length
  · by_cases hfails : Fails data answers w
    · rw [if_pos hremains, if_pos hfails] at h
      cases h
    · rw [if_pos hremains, if_neg hfails] at h
      exact ⟨hremains, hfails, (Sum.inl.inj h).symm⟩
  · rw [if_neg hremains] at h
    cases h

theorem round_leave (h : round data answers w = .inr t) :
    (w.writtenBytes < data.length ∧ Fails data answers w ∧
      t = { next data answers w with writtenBytes := w.writtenBytes }) ∨
    (data.length ≤ w.writtenBytes ∧ t = w) := by
  rw [round_eq] at h
  by_cases hremains : w.writtenBytes < data.length
  · by_cases hfails : Fails data answers w
    · rw [if_pos hremains, if_pos hfails] at h
      exact .inl ⟨hremains, hfails, (Sum.inr.inj h).symm⟩
    · rw [if_pos hremains, if_neg hfails] at h
      cases h
  · rw [if_neg hremains] at h
    exact .inr ⟨Nat.le_of_not_lt hremains, (Sum.inr.inj h).symm⟩

theorem Counts.taken_next (hw : Counts data answers w) :
    (next data answers w).taken = data.take (next data answers w).writtenBytes := by
  rw [next, hw.taken]
  exact List.take_add.symm

theorem Counts.round (hw : Counts data answers w) (h : round data answers w = .inl t) :
    Counts data answers t := by
  obtain ⟨-, hfails, rfl⟩ := round_continue h
  refine ⟨hw.add_amount, hw.taken_next, ?_⟩
  intro k hk hshort
  obtain hearlier | rfl : k < w.calls ∨ k = w.calls := Nat.lt_succ_iff_lt_or_eq.mp hk
  · exact hw.silent k hearlier hshort
  · rw [← hw.add_amount] at hshort
    by_contra herror
    exact hfails ⟨by omega, by simpa using herror⟩

/-! ## Leaving the loop -/

/-- The loop leaves because nothing remains, or because of an error before the end. -/
structure Left (data : List UInt8) (answers : ℕ → FwriteAnswer) (w : WriteLoop) : Prop where
  written : w.writtenBytes ≤ w.taken.length
  prefixed : w.taken <+: data
  full : w.taken = data → w.writtenBytes = data.length
  answered : data.length ≤ ∑ i ∈ range w.calls, (answers i).count ∨
    ∃ k, (answers k).error = true

theorem Counts.left (hw : Counts data answers w) (h : WriteLoop.round data answers w = .inr t) :
    Left data answers t := by
  obtain ⟨hremains, hfails, rfl⟩ | ⟨hdone, rfl⟩ := round_leave h
  · have hamount : w.amount data answers ≤ data.length - w.writtenBytes := min_le_right _ _
    have hadd : (next data answers w).writtenBytes < data.length := by
      have hne := hfails.1
      rw [next_writtenBytes]
      omega
    have hlength : (next data answers w).taken.length = (next data answers w).writtenBytes := by
      rw [hw.taken_next, List.length_take, min_eq_left hadd.le]
    refine ⟨hlength ▸ Nat.le_add_right _ _, hw.taken_next ▸ List.take_prefix _ _, ?_,
      .inr ⟨_, hfails.2⟩⟩
    intro hall
    exact absurd ((congrArg List.length hall).symm.trans hlength) hadd.ne'
  · have hwritten := hw.written
    rw [offered] at hwritten
    have hlength : t.writtenBytes = data.length := by omega
    refine ⟨?_, hw.taken ▸ List.take_prefix _ _, fun _ => hlength, .inl (by omega)⟩
    rw [hw.taken, List.length_take, hlength, min_self]

theorem left_of_run {fuel : ℕ} (h : Loop.run (WriteLoop.round data answers) fuel start = some w) :
    Left data answers w :=
  Loop.Returns.of_invariant (fun _ _ hs hround => hs.round hround) (fun _ _ hs => hs.left)
    counts_start ⟨fuel, h⟩

/-! ## When the loop ends -/

/-- A round that goes on leaves something to write, or it is the last but one. -/
theorem Counts.calls_le (hw : Counts data answers w) {k : ℕ}
    (hk : data.length ≤ ∑ i ∈ range k, (answers i).count ∨ (answers k).error = true)
    (h : WriteLoop.round data answers w = .inl t) : w.calls ≤ k + 1 := by
  by_contra hcalls
  obtain ⟨hremains, -, -⟩ := round_continue h
  have hmono : offered data answers (k + 1) ≤ offered data answers w.calls := by
    refine min_le_min_left _ (sum_le_sum_of_subset ?_)
    exact range_subset_range.mpr (by omega)
  have hshort : offered data answers (k + 1) < data.length := by
    rw [← hw.written] at hmono
    omega
  obtain hsum | herror := hk
  · rw [offered, sum_range_succ] at hshort
    omega
  · have hsilent := hw.silent k (by omega) hshort
    rw [herror] at hsilent
    cases hsilent

/-- The loop ends exactly when the stream takes everything in some number of calls, or one of its calls
ends with an error. -/
theorem write_returns_iff (data : List UInt8) (answers : ℕ → FwriteAnswer) :
    Loop.Terminates (WriteLoop.round data answers) start ↔
      ∃ k, data.length ≤ ∑ i ∈ range k, (answers i).count ∨ (answers k).error = true := by
  constructor
  · rintro ⟨w, fuel, hrun⟩
    obtain hsum | ⟨k, herror⟩ := (left_of_run hrun).answered
    · exact ⟨w.calls, .inl hsum⟩
    · exact ⟨k, .inr herror⟩
  · rintro ⟨k, hk⟩
    refine Loop.terminates_of_variant (I := Counts data answers) (fun w => k + 2 - w.calls) ?_
      counts_start
    intro w t hw hround
    have hcalls := hw.calls_le hk hround
    refine ⟨hw.round hround, ?_⟩
    obtain ⟨-, -, rfl⟩ := round_continue hround
    rw [next_calls]
    omega

end WriteLoop

namespace CountedFile

variable {f t : CountedFile}

/-! ## The file -/

/-- The stream took a prefix of what each call was given, and has put that in the file, in its buffer or
nowhere; no byte is counted that it did not take. -/
structure Consistent (f : CountedFile) : Prop where
  prefixes : List.Forall₂ (· <+: ·) f.taken f.given
  order : (f.stored ++ f.buffered).Sublist f.taken.flatten
  amount : f.stored.length + f.buffered.length + f.dropped = f.taken.flatten.length
  counted : f.sized = true → f.bytes ≤ f.found.length + f.taken.flatten.length
  exact : f.sized = true → f.taken = f.given →
    f.found.length + f.taken.flatten.length < 18446744073709551616 →
      f.bytes = f.found.length + f.taken.flatten.length

theorem consistent_openFile (bytes : ℕ) (opening : Opening) : Consistent (openFile bytes opening) where
  prefixes := .nil
  order := .refl _
  amount := rfl
  counted hsized := by
    have hbytes : (openFile bytes opening).bytes = opening.found.length := if_pos hsized
    exact hbytes.le
  exact hsized _ _ := if_pos hsized

theorem addSize_le (a b : ℕ) : addSize a b ≤ a + b := Nat.mod_le _ _

theorem Consistent.write (hf : Consistent f) {data : List UInt8} {answers : ℕ → FwriteAnswer}
    {fuel : ℕ} (h : f.write data answers fuel = some t) : Consistent t := by
  obtain ⟨w, hrun, rfl⟩ := Option.map_eq_some_iff.mp h
  have hleft := WriteLoop.left_of_run hrun
  have hflatten : (f.taken ++ [w.taken]).flatten = f.taken.flatten ++ w.taken := by
    rw [List.flatten_append, List.flatten_singleton]
  have hlength : (f.taken ++ [w.taken]).flatten.length = f.taken.flatten.length + w.taken.length := by
    rw [hflatten, List.length_append]
  refine ⟨List.rel_append hf.prefixes (.cons hleft.prefixed .nil), ?_, ?_, fun hsized => ?_,
    fun hsized hall hbound => ?_⟩
  · change (f.stored ++ (f.buffered ++ w.taken)).Sublist (f.taken ++ [w.taken]).flatten
    rw [hflatten, ← List.append_assoc]
    exact hf.order.append (.refl _)
  · change f.stored.length + (f.buffered ++ w.taken).length + f.dropped =
      (f.taken ++ [w.taken]).flatten.length
    have hamount := hf.amount
    rw [hlength, List.length_append]
    omega
  · change addSize f.bytes w.writtenBytes ≤ f.found.length + (f.taken ++ [w.taken]).flatten.length
    have hle := addSize_le f.bytes w.writtenBytes
    have hcounted := hf.counted hsized
    have hwritten := hleft.written
    rw [hlength]
    omega
  · change f.found.length + (f.taken ++ [w.taken]).flatten.length < _ at hbound
    change addSize f.bytes w.writtenBytes = f.found.length + (f.taken ++ [w.taken]).flatten.length
    rw [hlength] at hbound ⊢
    obtain ⟨hbefore, hlast⟩ := List.append_inj' hall rfl
    have hbytes := hf.exact hsized hbefore (by omega)
    have htaken : w.taken = data := by simpa using hlast
    have hwritten : w.writtenBytes = w.taken.length := htaken ▸ hleft.full htaken
    rw [addSize, hbytes, hwritten, Nat.mod_eq_of_lt (by omega), Nat.add_assoc]

theorem Consistent.store (hf : Consistent f) (n : ℕ) : Consistent (f.store n) where
  prefixes := hf.prefixes
  order := by
    change (f.stored ++ f.buffered.take n ++ f.buffered.drop n).Sublist f.taken.flatten
    rw [List.append_assoc, List.take_append_drop]
    exact hf.order
  amount := by
    change (f.stored ++ f.buffered.take n).length + (f.buffered.drop n).length + f.dropped =
      f.taken.flatten.length
    have hsplit := congrArg List.length (List.take_append_drop n f.buffered)
    rw [List.length_append] at hsplit ⊢
    have hamount := hf.amount
    omega
  counted := hf.counted
  exact := hf.exact

theorem Consistent.drop (hf : Consistent f) (n : ℕ) : Consistent (f.drop n) where
  prefixes := hf.prefixes
  order := (List.Sublist.append_left (List.drop_sublist n f.buffered) f.stored).trans hf.order
  amount := by
    change f.stored.length + (f.buffered.drop n).length + (f.dropped + (f.buffered.take n).length) =
      f.taken.flatten.length
    have hsplit := congrArg List.length (List.take_append_drop n f.buffered)
    rw [List.length_append] at hsplit
    have hamount := hf.amount
    omega
  counted := hf.counted
  exact := hf.exact

theorem Consistent.step (hf : Consistent f) {action : Action} (h : f.step action = some t) :
    Consistent t := by
  cases action with
  | write data answers fuel => exact hf.write (Option.ite_none_right_eq_some.mp h).2
  | store n =>
      obtain rfl := Option.some.inj h
      exact hf.store n
  | drop n =>
      obtain rfl := Option.some.inj h
      exact hf.drop n
  | renameByNowTime opening =>
      cases opening with
      | some opening =>
          obtain rfl := Option.some.inj h
          exact consistent_openFile f.bytes opening
      | none =>
          obtain rfl := Option.some.inj h
          exact ⟨hf.prefixes, hf.order, hf.amount, hf.counted, hf.exact⟩

/-- Whatever the stream takes, stores and drops and whichever calls fail: the stream took a prefix of each
of the data it was given, and the file has what was found in it and then bytes of these, in their order.
Where the file was sized when it was opened, `bytes_` is never more than its length with what is buffered and
what was dropped, and once all was taken and stored, it is the length, as far as that is a number of 64
bits. -/
theorem contents_are_prefixes (hf : system.Reachable f) :
    List.Forall₂ (· <+: ·) f.taken f.given ∧ f.stored.Sublist f.taken.flatten ∧
      (f.sized = true → f.bytes ≤ f.contents.length + f.buffered.length + f.dropped) ∧
      (f.taken = f.given → f.buffered = [] → f.dropped = 0 →
        f.contents = f.found ++ f.given.flatten ∧
          (f.sized = true → f.contents.length < 18446744073709551616 →
            f.bytes = f.contents.length)) := by
  have hconsistent : Consistent f := by
    refine hf.invariant ?_ fun s action t hs hstep => hs.step hstep
    rintro s ⟨opening, rfl⟩
    exact consistent_openFile 0 opening
  have hamount := hconsistent.amount
  have hlength : f.contents.length = f.found.length + f.stored.length := List.length_append
  refine ⟨hconsistent.prefixes, (List.sublist_append_left _ _).trans hconsistent.order,
    fun hsized => ?_, fun hall hbuffered hdropped => ?_⟩
  · have hcounted := hconsistent.counted hsized
    omega
  · rw [hbuffered, List.length_nil, hdropped] at hamount
    have hstored : f.stored = f.taken.flatten := by
      have horder := hconsistent.order
      rw [hbuffered, List.append_nil] at horder
      exact horder.eq_of_length hamount
    refine ⟨by rw [contents, hstored, hall], fun hsized hbound => ?_⟩
    have hexact := hconsistent.exact hsized hall (by omega)
    omega

/-- A call takes two bytes of three and then fails, so that they are not counted; they come to the file all
the same, and a byte of the next call is dropped. -/
theorem contents_are_prefixes_failing :
    ∃ f : CountedFile, (f.bytes = 2 ∧ f.contents = [7, 1, 2] ∧ f.dropped = 1) ∧
      List.Forall₂ (· <+: ·) f.taken f.given ∧ f.stored.Sublist f.taken.flatten := by
  have hinitial : system.ReachableUnder (fun _ _ => True) (openFile 0 ⟨[7], true⟩) := .initial ⟨_, rfl⟩
  obtain ⟨f, hf, hresult⟩ := hinitial.exists_of_runUnder _
    (P := fun f => f.bytes = 2 ∧ f.contents = [7, 1, 2] ∧ f.dropped = 1)
    [.write [1, 2, 3] (fun _ => ⟨2, true⟩) 2, .store 2, .write [5] (fun _ => ⟨1, false⟩) 2, .drop 1]
    (by decide)
  obtain ⟨hprefixes, hstored, -⟩ := contents_are_prefixes hf
  exact ⟨f, hresult, hprefixes, hstored⟩

end CountedFile

end Nets
