import Mathlib.Data.List.Basic

/-! # Histories

A property of the entries of a list that depends on what comes before them, for lists that grow at
their end. -/

namespace Nets.Library

variable {α : Type*} {P : List α → α → Prop} {xs : List α} {x : α}

def EachAfter (P : List α → α → Prop) (xs : List α) : Prop :=
  ∀ before x after, xs = before ++ x :: after → P before x

namespace EachAfter

theorem nil : EachAfter P [] := by
  intro before x after h
  cases before <;> cases h

theorem concat (h : EachAfter P xs) (hx : P xs x) : EachAfter P (xs ++ [x]) := by
  intro before y after hsplit
  rcases List.eq_nil_or_concat after with rfl | ⟨after, last, rfl⟩
  · obtain ⟨rfl, hlast⟩ := List.append_inj' hsplit rfl
    obtain rfl := (List.cons.inj hlast).1
    exact hx
  · rw [List.concat_eq_append, ← List.cons_append, ← List.append_assoc] at hsplit
    exact h before y after (List.append_inj' hsplit rfl).1

end EachAfter

end Nets.Library
