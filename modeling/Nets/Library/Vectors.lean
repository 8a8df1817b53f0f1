import Mathlib.Data.List.Basic

/-! # Erasing from a vector

The elements are objects that are moved: `move` gives the object that an assignment leaves in the
target and what it leaves of the source. -/

namespace Nets.Library.Vectors

variable {α : Type*}

/-- `xs[i] = std::move(xs[i + 1])`. -/
def moveDown (move : α → α × α) (i : ℕ) (xs : List α) : List α :=
  match xs[i + 1]? with
  | some source => (xs.set i (move source).1).set (i + 1) (move source).2
  | none => xs

/-- The elements behind position `i`, as many as are given, each moved one position to the front. -/
def shiftDown (move : α → α × α) : ℕ → ℕ → List α → List α
  | 0, _, xs => xs
  | n + 1, i, xs => shiftDown move n (i + 1) (moveDown move i xs)

/-- `xs.erase(xs.begin() + i)`: the last element, moved from, is destroyed. -/
def erase (move : α → α × α) (i : ℕ) (xs : List α) : List α :=
  (shiftDown move (xs.length - (i + 1)) i xs).dropLast

variable {move : α → α × α}

theorem moveDown_length (hmove : ∀ a, (move a).1 = a) (front : List α) (target source : α)
    (back : List α) :
    moveDown move front.length (front ++ target :: source :: back) =
      front ++ source :: (move source).2 :: back := by
  have hsource : (front ++ target :: source :: back)[front.length + 1]? = some source := by
    rw [List.getElem?_append_right (Nat.le_succ _)]
    simp
  rw [moveDown, hsource]
  simp [hmove]

/-- What is behind the position comes to stand on it, and one object is left over. -/
theorem shiftDown_length (hmove : ∀ a, (move a).1 = a) (front : List α) (target : α)
    (back : List α) :
    ∃ rest, shiftDown move back.length front.length (front ++ target :: back) =
      front ++ back ++ [rest] := by
  induction back generalizing front target with
  | nil => exact ⟨target, by simp [shiftDown]⟩
  | cons source back ih =>
      obtain ⟨rest, hrest⟩ := ih (front ++ [source]) (move source).2
      refine ⟨rest, ?_⟩
      rw [List.length_cons, shiftDown, moveDown_length hmove]
      simpa using hrest

/-- Where a move leaves the whole object in the target, only the element at the position is gone. -/
theorem erase_eq_eraseIdx (hmove : ∀ a, (move a).1 = a) {i : ℕ} {xs : List α} (hi : i < xs.length) :
    erase move i xs = xs.eraseIdx i := by
  obtain ⟨front, target, back, rfl, rfl⟩ : ∃ front target back,
      xs = front ++ target :: back ∧ front.length = i :=
    ⟨xs.take i, xs.get ⟨i, hi⟩, xs.drop (i + 1), by simp, List.length_take_of_le (Nat.le_of_lt hi)⟩
  obtain ⟨rest, hrest⟩ := shiftDown_length hmove front target back
  have hlength : (front ++ target :: back).length - (front.length + 1) = back.length := by
    simp
    omega
  rw [erase, hlength, hrest, List.dropLast_concat,
    List.eraseIdx_append_of_length_le (Nat.le_refl _), Nat.sub_self, List.eraseIdx_cons_zero]

end Nets.Library.Vectors
