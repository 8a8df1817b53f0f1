import Mathlib.Data.List.Nodup
import Mathlib.Logic.Function.Basic
import Nets.Library.Loop

/-! # Lists held in links

Each element holds the one after it. Whether the elements form a list is a property of all links
together; where links lead back, a walk along them does not end. -/

namespace Nets.Library

variable {η : Type*}

/-- Following `next` from `p` visits the elements of the list, in order, and ends. -/
inductive Linked (next : η → Option η) : Option η → List η → Prop where
  | nil : Linked next none []
  | cons {a : η} {xs : List η} (h : Linked next (next a) xs) : Linked next (some a) (a :: xs)

namespace Linked

variable {next next' : η → Option η} {p : Option η} {a b : η} {xs ys : List η}

theorem eq_some_of_cons (h : Linked next p (a :: xs)) : p = some a ∧ Linked next (next a) xs := by
  cases h with
  | cons h => exact ⟨rfl, h⟩

theorem eq_none_of_nil (h : Linked next p []) : p = none := by
  cases h
  rfl

theorem exists_eq_some (h : Linked next p (xs ++ [a])) : ∃ b, p = some b := by
  cases xs with
  | nil => exact ⟨a, h.eq_some_of_cons.1⟩
  | cons b xs => exact ⟨b, h.eq_some_of_cons.1⟩

/-- Links of other elements do not count. -/
theorem congr (h : Linked next p xs) (hnext : ∀ a ∈ xs, next' a = next a) : Linked next' p xs := by
  induction h with
  | nil => exact .nil
  | @cons a xs h ih =>
      obtain ⟨ha, hxs⟩ := List.forall_mem_cons.mp hnext
      refine .cons ?_
      rw [ha]
      exact ih hxs

/-- The last element is linked to nothing. -/
theorem next_last (h : Linked next p (xs ++ [a])) : next a = none := by
  induction xs generalizing p with
  | nil =>
      obtain ⟨-, h⟩ := h.eq_some_of_cons
      exact h.eq_none_of_nil
  | cons b xs ih => exact ih h.eq_some_of_cons.2

/-- Every other element is linked to one of the list. -/
theorem next_mem (h : Linked next p (xs ++ [a])) (hb : b ∈ xs) :
    ∃ c ∈ xs ++ [a], next b = some c := by
  induction xs generalizing p with
  | nil => cases hb
  | cons d xs ih =>
      obtain ⟨-, htail⟩ := h.eq_some_of_cons
      rcases List.mem_cons.mp hb with rfl | hb
      · obtain ⟨c, rest, hrest⟩ := List.exists_cons_of_ne_nil
          (List.append_ne_nil_of_right_ne_nil xs (List.cons_ne_nil a []))
        have hc : c ∈ xs ++ [a] := by
          rw [hrest]
          exact List.mem_cons_self
        replace htail : Linked next (next b) (c :: rest) := hrest ▸ htail
        exact ⟨c, List.mem_cons_of_mem _ hc, htail.eq_some_of_cons.1⟩
      · obtain ⟨c, hc, hnext⟩ := ih htail hb
        exact ⟨c, List.mem_cons_of_mem _ hc, hnext⟩

/-- Linking a new element to the last one appends it. -/
theorem concat [DecidableEq η] (h : Linked next p (xs ++ [a])) (hnodup : (xs ++ [a]).Nodup)
    (hb : b ∉ xs ++ [a]) (hnext : next b = none) :
    Linked (Function.update next a (some b)) p (xs ++ [a] ++ [b]) := by
  induction xs generalizing p with
  | nil =>
      obtain ⟨rfl, -⟩ := h.eq_some_of_cons
      have hne : b ≠ a := fun heq => hb (List.mem_singleton.mpr heq)
      apply Linked.cons
      rw [Function.update_self]
      apply Linked.cons
      rw [Function.update_of_ne hne, hnext]
      exact .nil
  | cons c xs ih =>
      obtain ⟨rfl, htail⟩ := h.eq_some_of_cons
      obtain ⟨hc, hnodup⟩ := List.nodup_cons.mp hnodup
      have hne : c ≠ a := fun heq => hc (List.mem_append_right _ (List.mem_singleton.mpr heq))
      refine .cons ?_
      rw [Function.update_of_ne hne]
      exact ih htail hnodup fun hmem => hb (List.mem_cons_of_mem _ hmem)

/-- From any element on, the rest of the list is linked. -/
theorem of_append (h : Linked next p (xs ++ a :: ys)) : Linked next (some a) (a :: ys) := by
  induction xs generalizing p with
  | nil =>
      rw [List.nil_append] at h
      exact h.eq_some_of_cons.1 ▸ h
  | cons b xs ih => exact ih h.eq_some_of_cons.2

theorem next_of_append (h : Linked next p (xs ++ a :: b :: ys)) : next a = some b :=
  h.of_append.eq_some_of_cons.2.eq_some_of_cons.1

/-- Linking the element before one to the element after it takes it out of the list. -/
theorem remove (h : Linked next p (xs ++ a :: b :: ys)) (ha : next' a = next b)
    (hsame : ∀ c ∈ xs ++ ys, next' c = next c) : Linked next' p (xs ++ a :: ys) := by
  induction xs generalizing p with
  | nil =>
      rw [List.nil_append] at h
      obtain ⟨rfl, htail⟩ := h.eq_some_of_cons
      refine .cons ?_
      rw [ha]
      exact htail.eq_some_of_cons.2.congr hsame
  | cons c xs ih =>
      obtain ⟨rfl, htail⟩ := h.eq_some_of_cons
      obtain ⟨hc, hsame⟩ := List.forall_mem_cons.mp hsame
      refine .cons ?_
      rw [hc]
      exact ih htail hsame

end Linked

/-! ## Walks -/

variable {next : η → Option η} {a : η}

/-- One round of the walk to the last element. -/
def seekLast (next : η → Option η) (a : η) : η ⊕ η :=
  match next a with
  | none => .inr a
  | some b => .inl b

/-- One round of the walk to the element before the last one; the first of the pair is one behind. -/
def seekLastPrev (next : η → Option η) : η × η → η × η ⊕ η
  | (prev, a) =>
    match next a with
    | none => .inr prev
    | some b => .inl (a, b)

/-- One round of the walk to the element before the first one that satisfies `p`. -/
def seekPrev (next : η → Option η) (p : η → Bool) : η × Option η → η × Option η ⊕ Option η
  | (_, none) => .inr none
  | (prev, some a) => if p a then .inr (some prev) else .inl (a, next a)

/-- One round of the walk through all elements, with those visited. -/
def visit (next : η → Option η) : Option η × List η → Option η × List η ⊕ List η
  | (none, visited) => .inr visited
  | (some a, visited) => .inl (next a, visited ++ [a])

theorem seekLast_of_none (h : next a = none) : seekLast next a = .inr a := by
  rw [seekLast, h]

theorem seekLast_of_some {b : η} (h : next a = some b) : seekLast next a = .inl b := by
  rw [seekLast, h]

/-- The walk takes as many rounds as there are elements. -/
theorem Linked.run_seekLast {xs : List η} {b : η} (h : Linked next (some a) (xs ++ [b]))
    {fuel : ℕ} (hfuel : xs.length < fuel) : Loop.run (seekLast next) fuel a = some b := by
  induction xs generalizing a fuel with
  | nil =>
      obtain ⟨heq, -⟩ := h.eq_some_of_cons
      obtain rfl := Option.some.inj heq
      obtain ⟨fuel, rfl⟩ := Nat.exists_eq_succ_of_ne_zero (Nat.ne_of_gt hfuel)
      have hlast : next a = none := by
        rw [List.nil_append] at h
        exact h.eq_some_of_cons.2.eq_none_of_nil
      exact Loop.run_succ_of_leave (seekLast_of_none hlast) fuel
  | cons c xs ih =>
      obtain ⟨heq, htail⟩ := h.eq_some_of_cons
      obtain rfl := Option.some.inj heq
      obtain ⟨fuel, rfl⟩ := Nat.exists_eq_succ_of_ne_zero (Nat.ne_of_gt (Nat.zero_lt_of_lt hfuel))
      obtain ⟨d, -, hd⟩ := h.next_mem (List.mem_cons_self (a := a) (l := xs))
      rw [Loop.run_succ_of_continue (seekLast_of_some hd)]
      apply ih
      · change Linked next (next a) (xs ++ [b]) at htail
        rwa [hd] at htail
      · exact Nat.lt_of_succ_lt_succ hfuel

theorem Linked.run_seekLastPrev {xs : List η} {prev b c : η}
    (h : Linked next (some prev) (xs ++ [b, c])) (ha : next prev = some a)
    {fuel : ℕ} (hfuel : xs.length < fuel) :
    Loop.run (seekLastPrev next) fuel (prev, a) = some b := by
  induction xs generalizing prev a fuel with
  | nil =>
      obtain ⟨heq, htail⟩ := h.eq_some_of_cons
      obtain rfl := Option.some.inj heq
      obtain ⟨fuel, rfl⟩ := Nat.exists_eq_succ_of_ne_zero (Nat.ne_of_gt hfuel)
      obtain ⟨hc, hlast⟩ := htail.eq_some_of_cons
      obtain rfl : a = c := Option.some.inj (ha.symm.trans hc)
      have hleave : seekLastPrev next (prev, a) = .inr prev := by
        simp [seekLastPrev, hlast.eq_none_of_nil]
      exact Loop.run_succ_of_leave hleave fuel
  | cons d xs ih =>
      obtain ⟨heq, htail⟩ := h.eq_some_of_cons
      obtain rfl := Option.some.inj heq
      obtain ⟨fuel, rfl⟩ := Nat.exists_eq_succ_of_ne_zero (Nat.ne_of_gt (Nat.zero_lt_of_lt hfuel))
      change Linked next (next prev) (xs ++ [b, c]) at htail
      rw [ha] at htail
      -- the element after the first one, which is not the last
      obtain ⟨e, he⟩ : ∃ e, next a = some e := by
        have hsplit : xs ++ [b, c] = xs ++ [b] ++ [c] := by simp
        rw [hsplit] at htail
        have hmem : a ∈ xs ++ [b] := by
          cases xs with
          | nil => simp [Option.some.inj htail.eq_some_of_cons.1]
          | cons => simp [Option.some.inj htail.eq_some_of_cons.1]
        obtain ⟨e, -, he⟩ := htail.next_mem hmem
        exact ⟨e, he⟩
      have hround : seekLastPrev next (prev, a) = .inl (a, e) := by
        simp [seekLastPrev, he]
      rw [Loop.run_succ_of_continue hround]
      exact ih htail he (Nat.lt_of_succ_lt_succ hfuel)

/-- Nothing that satisfies `p` is there. -/
theorem Linked.run_seekPrev_none {p : η → Bool} {prev : η} {q : Option η} {xs : List η}
    (h : Linked next q xs) (hp : ∀ c ∈ xs, p c = false) {fuel : ℕ} (hfuel : xs.length < fuel) :
    Loop.run (seekPrev next p) fuel (prev, q) = some none := by
  induction h generalizing prev fuel with
  | nil =>
      obtain ⟨fuel, rfl⟩ := Nat.exists_eq_succ_of_ne_zero (Nat.ne_of_gt hfuel)
      exact Loop.run_succ_of_leave rfl fuel
  | @cons a xs _ ih =>
      obtain ⟨fuel, rfl⟩ := Nat.exists_eq_succ_of_ne_zero (Nat.ne_of_gt (Nat.zero_lt_of_lt hfuel))
      obtain ⟨ha, hp⟩ := List.forall_mem_cons.mp hp
      have hround : seekPrev next p (prev, some a) = .inl (a, next a) := by
        simp [seekPrev, ha]
      rw [Loop.run_succ_of_continue hround]
      exact ih hp (Nat.lt_of_succ_lt_succ hfuel)

/-- The first element that satisfies `p` is behind `b`. -/
theorem Linked.run_seekPrev {p : η → Bool} {prev b c : η} {xs ys : List η}
    (h : Linked next (some prev) (xs ++ b :: c :: ys)) (hp : ∀ d ∈ (xs ++ [b]).tail, p d = false)
    (hc : p c = true) {fuel : ℕ} (hfuel : xs.length < fuel) :
    Loop.run (seekPrev next p) fuel (prev, next prev) = some (some b) := by
  induction xs generalizing prev fuel with
  | nil =>
      obtain ⟨heq, htail⟩ := h.eq_some_of_cons
      obtain rfl := Option.some.inj heq
      obtain ⟨fuel, rfl⟩ := Nat.exists_eq_succ_of_ne_zero (Nat.ne_of_gt hfuel)
      have hleave : seekPrev next p (prev, next prev) = .inr (some prev) := by
        rw [htail.eq_some_of_cons.1]
        simp [seekPrev, hc]
      exact Loop.run_succ_of_leave hleave fuel
  | cons d xs ih =>
      obtain ⟨heq, htail⟩ := h.eq_some_of_cons
      obtain rfl := Option.some.inj heq
      obtain ⟨fuel, rfl⟩ := Nat.exists_eq_succ_of_ne_zero (Nat.ne_of_gt (Nat.zero_lt_of_lt hfuel))
      change Linked next (next prev) (xs ++ b :: c :: ys) at htail
      change ∀ d ∈ xs ++ [b], p d = false at hp
      obtain ⟨e, rest, hrest⟩ := List.exists_cons_of_ne_nil
        (List.append_ne_nil_of_right_ne_nil xs (List.cons_ne_nil b []))
      have he : next prev = some e := by
        rw [List.append_cons, hrest] at htail
        exact htail.eq_some_of_cons.1
      rw [he] at htail ⊢
      rw [hrest] at hp
      have hround : seekPrev next p (prev, some e) = .inl (e, next e) := by
        simp [seekPrev, hp e List.mem_cons_self]
      rw [Loop.run_succ_of_continue hround]
      apply ih htail _ (Nat.lt_of_succ_lt_succ hfuel)
      rw [hrest]
      exact fun d hd => hp d (List.mem_cons_of_mem _ hd)

theorem Linked.returns_visit {p : Option η} {xs : List η} (h : Linked next p xs)
    (visited : List η) : Loop.Returns (visit next) (p, visited) (visited ++ xs) := by
  induction h generalizing visited with
  | nil =>
      rw [List.append_nil]
      exact Loop.returns_of_leave rfl
  | @cons a xs _ ih =>
      have hround : visit next (some a, visited) = .inl (next a, visited ++ [a]) := rfl
      have hvisited : visited ++ a :: xs = visited ++ [a] ++ xs := List.append_cons visited a xs
      rw [Loop.returns_iff_of_continue hround, hvisited]
      exact ih (visited ++ [a])

/-- No element of the set is linked to nothing or to an element outside. -/
def NeverEnds (next : η → Option η) (S : η → Prop) : Prop := ∀ a, S a → ∃ b, S b ∧ next a = some b

variable {S : η → Prop}

theorem NeverEnds.not_seekLast (h : NeverEnds next S) (ha : S a) :
    ¬ Loop.Terminates (seekLast next) a := by
  apply Loop.not_terminates_of_invariant _ ha
  intro a ha
  obtain ⟨b, hb, hnext⟩ := h a ha
  exact ⟨b, seekLast_of_some hnext, hb⟩

theorem NeverEnds.not_visit (h : NeverEnds next S) (ha : S a) (visited : List η) :
    ¬ Loop.Terminates (visit next) (some a, visited) := by
  apply Loop.not_terminates_of_invariant (I := fun s => ∃ a, s.1 = some a ∧ S a) _ ⟨a, rfl, ha⟩
  rintro ⟨_, visited⟩ ⟨a, rfl, ha⟩
  obtain ⟨b, hb, hnext⟩ := h a ha
  exact ⟨(next a, visited ++ [a]), rfl, b, hnext, hb⟩

end Nets.Library
