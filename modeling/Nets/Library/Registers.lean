import Mathlib.Data.List.Basic
import Mathlib.Data.List.Perm.Basic
import Mathlib.Tactic.Common

/-! # Lists of registers

A family of threads of one kind is the list of their registers: a step of the `i`-th thread sets
the `i`-th register, a new thread is appended. -/

namespace Nets.Library

variable {α β : Type*} {l : List α} {i : ℕ} {a b : α}

/-- Setting a register moves the count by what the register counted before and counts now. -/
theorem countP_set (p : α → Bool) (h : l[i]? = some a) :
    (l.set i b).countP p + (if p a then 1 else 0) = l.countP p + if p b then 1 else 0 := by
  induction l generalizing i with
  | nil => simp at h
  | cons x l ih =>
      cases i with
      | zero =>
          obtain rfl : x = a := by simpa using h
          rw [List.set_cons_zero, List.countP_cons, List.countP_cons]
          omega
      | succ i =>
          have ih := ih (i := i) (by simpa using h)
          rw [List.set_cons_succ, List.countP_cons, List.countP_cons]
          omega

theorem countP_set_same {p : α → Bool} (h : l[i]? = some a) (hp : p b = p a) :
    (l.set i b).countP p = l.countP p := by
  have hset := countP_set (b := b) p h
  rw [hp] at hset
  omega

/-- What holds of every register before a step, and of the register set, holds after the step. -/
theorem forall_mem_set {P : α → Prop} (h : ∀ x ∈ l, P x) (hb : P b) : ∀ x ∈ l.set i b, P x := by
  intro x hx
  obtain hx | rfl := List.mem_or_eq_of_mem_set hx
  · exact h x hx
  · exact hb

theorem forall_mem_append {P : α → Prop} (h : ∀ x ∈ l, P x) (hb : P b) :
    ∀ x ∈ l ++ [b], P x := by
  intro x hx
  obtain hx | hx := List.mem_append.mp hx
  · exact h x hx
  · rwa [List.mem_singleton.mp hx]

/-- The other registers keep their values, and the register set has the new one. -/
theorem getElem?_set_cases {j : ℕ} {x : α} (h : (l.set i b)[j]? = some x) :
    j = i ∧ x = b ∨ j ≠ i ∧ l[j]? = some x := by
  by_cases hj : j = i
  · subst hj
    left
    rw [List.getElem?_set_self'] at h
    obtain ⟨_, _, rfl⟩ := Option.map_eq_some_iff.mp h
    exact ⟨rfl, rfl⟩
  · right
    rw [List.getElem?_set_ne (Ne.symm hj)] at h
    exact ⟨hj, h⟩

theorem getElem?_append_cases {j : ℕ} {x : α} (h : (l ++ [b])[j]? = some x) :
    l[j]? = some x ∨ j = l.length ∧ x = b := by
  obtain hj | hj := Nat.lt_or_ge j l.length
  · left
    rwa [List.getElem?_append_left hj] at h
  · right
    rw [List.getElem?_append_right hj] at h
    obtain ⟨hj', rfl⟩ : j - l.length = 0 ∧ b = x := by
      cases hsub : j - l.length with
      | zero => simpa [hsub] using h
      | succ n => simp [hsub] at h
    exact ⟨by omega, rfl⟩

/-- A part of the registers that the step of one thread leaves alone. -/
theorem map_getElem?_set {f : α → β} (h : l[i]? = some a) (hf : f b = f a) (j : ℕ) :
    (l.set i b)[j]?.map f = l[j]?.map f := by
  by_cases hj : j = i
  · subst hj
    rw [List.getElem?_set_self', h]
    simp [hf]
  · rw [List.getElem?_set_ne (Ne.symm hj)]

/-- A new register that `f` does not see. -/
theorem bind_getElem?_append {f : α → Option β} (hb : f b = none) (j : ℕ) :
    (l ++ [b])[j]?.bind f = l[j]?.bind f := by
  obtain hj | hj := Nat.lt_or_ge j l.length
  · rw [List.getElem?_append_left hj]
  · rw [List.getElem?_append_right hj, List.getElem?_eq_none hj]
    cases hsub : j - l.length with
    | zero => simpa using hb
    | succ n => rfl

/-! ## What the threads hold -/

theorem filterMap_singleton (f : α → Option β) (a : α) : [a].filterMap f = (f a).toList := by
  cases h : f a with
  | none => rw [List.filterMap_cons_none h]; rfl
  | some b => rw [List.filterMap_cons_some h]; rfl

/-- What a family of threads holds, with what one of them holds taken out. -/
theorem filterMap_range_split {n w : ℕ} (hw : w < n) (f : ℕ → Option β) :
    ∃ before after, ∀ g : ℕ → Option β, (∀ v ≠ w, g v = f v) →
      (List.range n).filterMap g = before ++ (g w).toList ++ after := by
  obtain ⟨before, after, hrange⟩ := List.append_of_mem (List.mem_range.mpr hw)
  have hnodup : (before ++ w :: after).Nodup := hrange ▸ List.nodup_range
  have hbefore : ∀ v ∈ before, v ≠ w := by
    rintro v hv rfl
    exact (List.nodup_append.mp hnodup).2.2 v hv v List.mem_cons_self rfl
  have hafter : ∀ v ∈ after, v ≠ w := by
    rintro v hv rfl
    exact (List.nodup_cons.mp (List.nodup_append.mp hnodup).2.1).1 hv
  refine ⟨before.filterMap f, after.filterMap f, fun g hg => ?_⟩
  rw [hrange, List.filterMap_append, List.filterMap_congr fun v hv => hg v (hbefore v hv)]
  rw [← List.singleton_append, List.filterMap_append, filterMap_singleton,
    List.filterMap_congr fun v hv => hg v (hafter v hv), List.append_assoc]

/-- One thread comes to hold something. -/
theorem filterMap_range_insert {n w : ℕ} (hw : w < n) {f g : ℕ → Option β} {b : β}
    (hf : f w = none) (hg : g w = some b) (h : ∀ v ≠ w, g v = f v) :
    ((List.range n).filterMap g).Perm (b :: (List.range n).filterMap f) := by
  obtain ⟨before, after, hsplit⟩ := filterMap_range_split hw f
  rw [hsplit g h, hsplit f fun _ _ => rfl, hf, hg, Option.toList_none, List.append_nil,
    List.append_assoc]
  exact List.perm_middle

theorem filterMap_range_congr {n : ℕ} {f g : ℕ → Option β} (h : ∀ v < n, g v = f v) :
    (List.range n).filterMap g = (List.range n).filterMap f :=
  List.filterMap_congr fun v hv => h v (List.mem_range.mp hv)

theorem filterMap_sublist {f g : α → Option β} (h : ∀ a b, f a = some b → g a = some b) :
    (l.filterMap f).Sublist (l.filterMap g) := by
  induction l with
  | nil => exact List.Sublist.refl _
  | cons a l ih =>
      cases hf : f a with
      | none =>
          rw [List.filterMap_cons_none hf]
          cases hg : g a with
          | none => rwa [List.filterMap_cons_none hg]
          | some b =>
              rw [List.filterMap_cons_some hg]
              exact ih.cons b
      | some b =>
          rw [List.filterMap_cons_some hf, List.filterMap_cons_some (h a b hf)]
          exact ih.cons_cons b

end Nets.Library
