import Mathlib.Data.List.Basic
import Mathlib.Tactic.Common

/-! # Arrays of a fixed length

Every access is checked and has no result where it is outside the array. A position is described by
what stands before it. -/

namespace Nets.Library

structure FixedArray (size : ℕ) (α : Type*) where
  cells : List α
  length_eq : cells.length = size

namespace FixedArray

variable {size : ℕ} {α : Type*} {filler : α} {xs ys : FixedArray size α}
  {text front back source : List α}

@[ext] theorem ext (h : xs.cells = ys.cells) : xs = ys := by
  cases xs
  cases ys
  congr

def replicate (size : ℕ) (filler : α) : FixedArray size α where
  cells := List.replicate size filler
  length_eq := List.length_replicate

/-- `length` elements from `offset` on. -/
def load (offset length : ℕ) (xs : FixedArray size α) : Option (List α) :=
  if offset + length ≤ size then some ((xs.cells.drop offset).take length) else none

/-- The elements from `offset` on are overwritten. -/
def store (offset : ℕ) (source : List α) (xs : FixedArray size α) : Option (FixedArray size α) :=
  if h : offset + source.length ≤ size then
    some {
      cells := xs.cells.take offset ++ source ++ xs.cells.drop (offset + source.length)
      length_eq := by
        have hlength := xs.length_eq
        simp only [List.length_append, List.length_take, List.length_drop]
        omega }
  else none

/-- The elements from `first` up to `last` in the opposite order. -/
def reverse (first last : ℕ) (xs : FixedArray size α) : Option (FixedArray size α) :=
  (xs.load first (last - first)).bind fun elements => xs.store first elements.reverse

/-- `std::swap(xs[i], ys[i])`. -/
def swapElement (i : ℕ) (xs ys : FixedArray size α) :
    Option (FixedArray size α × FixedArray size α) := do
  let x ← xs.load i 1
  let y ← ys.load i 1
  return (← xs.store i y, ← ys.store i x)

/-- The elements from `i` on, as many as are given. -/
def swapElements : ℕ → ℕ → FixedArray size α → FixedArray size α →
    Option (FixedArray size α × FixedArray size α)
  | 0, _, xs, ys => some (xs, ys)
  | n + 1, i, xs, ys => (swapElement i xs ys).bind fun (xs, ys) => swapElements n (i + 1) xs ys

/-! ## One access -/

theorem load_eq (h : xs.cells = front ++ source ++ back) :
    xs.load front.length source.length = some source := by
  have hlength := xs.length_eq
  rw [h, List.length_append, List.length_append] at hlength
  rw [load, if_pos (by omega), h, List.append_assoc, List.drop_left, List.take_left]

theorem store_eq {target : List α} (source : List α) (h : xs.cells = front ++ target ++ back)
    (htarget : target.length = source.length) :
    ∃ ys, xs.store front.length source = some ys ∧ ys.cells = front ++ source ++ back := by
  have hlength := xs.length_eq
  rw [h, List.length_append, List.length_append] at hlength
  refine ⟨_, dif_pos (by omega), ?_⟩
  have htake : xs.cells.take front.length = front := by
    rw [h, List.append_assoc, List.take_left]
  have hdrop : xs.cells.drop (front.length + source.length) = back := by
    rw [h, ← htarget, ← List.length_append, List.drop_left]
  simp only [htake, hdrop]

/-! ## Exchanging elements -/

/-- The elements behind two prefixes of one length change places. -/
theorem swapElements_length {back' : List α} (text text' front front' : List α)
    (hfront : front.length = front'.length) (htext : text.length = text'.length)
    (hxs : xs.cells = front ++ text ++ back) (hys : ys.cells = front' ++ text' ++ back') :
    ∃ xs' ys', swapElements text.length front.length xs ys = some (xs', ys') ∧
      xs'.cells = front ++ text' ++ back ∧ ys'.cells = front' ++ text ++ back' := by
  induction text generalizing text' front front' xs ys with
  | nil =>
      obtain rfl : text' = [] := List.length_eq_zero_iff.mp htext.symm
      exact ⟨xs, ys, rfl, hxs, hys⟩
  | cons x text ih =>
      cases text' with
      | nil => cases htext
      | cons y text' =>
          have hx : xs.cells = front ++ [x] ++ (text ++ back) := by simp [hxs]
          have hy : ys.cells = front' ++ [y] ++ (text' ++ back') := by simp [hys]
          obtain ⟨xs₁, hstore, hxs₁⟩ := store_eq [y] hx rfl
          obtain ⟨ys₁, hstore', hys₁⟩ := store_eq [x] hy rfl
          have hswap : swapElement front.length xs ys = some (xs₁, ys₁) := by
            have hload : xs.load front.length 1 = some [x] := load_eq hx
            have hload' : ys.load front.length 1 = some [y] := hfront ▸ load_eq hy
            rw [← hfront] at hstore'
            simp [swapElement, hload, hload', hstore, hstore']
          have hnext : xs₁.cells = (front ++ [y]) ++ text ++ back := by simp [hxs₁]
          have hnext' : ys₁.cells = (front' ++ [x]) ++ text' ++ back' := by simp [hys₁]
          obtain ⟨xs', ys', hrest, hxs', hys'⟩ :=
            ih text' _ _ (by simp [hfront]) (Nat.succ.inj htext) hnext hnext'
          refine ⟨xs', ys', ?_, by simpa using hxs', by simpa using hys'⟩
          rw [List.length_cons, swapElements, hswap, Option.bind_some]
          simpa using hrest

/-- Arrays that agree from a position on are exchanged by exchanging what is before it. -/
theorem swapElements_eq {n : ℕ} (hn : n ≤ size) (h : xs.cells.drop n = ys.cells.drop n) :
    swapElements n 0 xs ys = some (ys, xs) := by
  have hlength : (xs.cells.take n).length = n :=
    List.length_take_of_le (xs.length_eq.symm ▸ hn)
  have hlength' : (ys.cells.take n).length = n :=
    List.length_take_of_le (ys.length_eq.symm ▸ hn)
  have hxs : xs.cells = [] ++ xs.cells.take n ++ xs.cells.drop n := by simp
  have hys : ys.cells = [] ++ ys.cells.take n ++ ys.cells.drop n := by simp
  obtain ⟨xs', ys', hswap, hxs', hys'⟩ :=
    swapElements_length _ _ _ _ rfl (hlength.trans hlength'.symm) hxs hys
  have hx : xs' = ys := ext (by simp [hxs', h])
  have hy : ys' = xs := ext (by simp [hys', ← h])
  rw [hlength, hx, hy] at hswap
  exact hswap

/-! ## Arrays with a filled tail -/

/-- Behind the text there is nothing but the filler. -/
def FilledWith (filler : α) (text : List α) (xs : FixedArray size α) : Prop :=
  xs.cells = text ++ List.replicate (size - text.length) filler

theorem filledWith_replicate (size : ℕ) (filler : α) : (replicate size filler).FilledWith filler [] := by
  rw [FilledWith, replicate, List.length_nil, Nat.sub_zero, List.nil_append]

theorem FilledWith.length_le (h : xs.FilledWith filler text) : text.length ≤ size := by
  have hlength := xs.length_eq
  rw [h, List.length_append] at hlength
  omega

theorem FilledWith.load (h : xs.FilledWith filler text) : xs.load 0 text.length = some text := by
  have hcells : xs.cells = [] ++ text ++ List.replicate (size - text.length) filler := h
  exact load_eq hcells

theorem FilledWith.getElem?_eq (h : xs.FilledWith filler text) {i : ℕ} (hle : text.length ≤ i)
    (hlt : i < size) : xs.cells[i]? = some filler := by
  rw [h, List.getElem?_append_right hle, List.getElem?_replicate, if_pos (by omega)]

theorem FilledWith.drop_eq (h : xs.FilledWith filler text) {n : ℕ} (hle : text.length ≤ n) :
    xs.cells.drop n = List.replicate (size - n) filler := by
  rw [h, List.drop_append, List.drop_of_length_le hle, List.nil_append, List.drop_replicate]
  congr 1
  omega

/-- What is stored behind the text becomes part of it. -/
theorem FilledWith.store (h : xs.FilledWith filler text) (hroom : text.length + source.length ≤ size) :
    ∃ ys, xs.store text.length source = some ys ∧ ys.FilledWith filler (text ++ source) := by
  have hcells : xs.cells = text ++ List.replicate source.length filler ++
      List.replicate (size - (text ++ source).length) filler := by
    rw [h, List.append_assoc, ← List.replicate_add, List.length_append]
    congr 2
    omega
  exact store_eq source hcells List.length_replicate

theorem FilledWith.reverse (h : xs.FilledWith filler (front ++ back)) :
    ∃ ys, xs.reverse front.length (front ++ back).length = some ys ∧
      ys.FilledWith filler (front ++ back.reverse) := by
  have hload : xs.load front.length ((front ++ back).length - front.length) = some back := by
    rw [List.length_append, Nat.add_sub_cancel_left]
    exact load_eq h
  obtain ⟨ys, hstore, hys⟩ := store_eq back.reverse h List.length_reverse.symm
  refine ⟨ys, ?_, ?_⟩
  · rw [FixedArray.reverse, hload, Option.bind_some, hstore]
  · rw [FilledWith, hys, List.length_append, List.length_append, List.length_reverse]

/-- Overwriting the text with the filler leaves nothing else. -/
theorem FilledWith.clear (h : xs.FilledWith filler text) :
    xs.store 0 (List.replicate text.length filler) = some (replicate size filler) := by
  have hcells : xs.cells = [] ++ text ++ List.replicate (size - text.length) filler := h
  obtain ⟨ys, hstore, hys⟩ :=
    store_eq (List.replicate text.length filler) hcells List.length_replicate.symm
  have hle := h.length_le
  have heq : ys = replicate size filler := by
    apply ext
    rw [hys, List.nil_append, ← List.replicate_add, replicate]
    congr 1
    omega
  rw [← heq]
  exact hstore

end FixedArray

end Nets.Library
