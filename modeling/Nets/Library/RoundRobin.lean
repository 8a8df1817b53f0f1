import Mathlib.Data.List.Basic
import Mathlib.Data.List.Nodup
import Mathlib.Tactic.Common

/-! # Round robin

A queue of which some elements are ready. A turn serves the first of these, as many as there is room for, and
puts them behind the others; those that it comes to and that are not ready leave the queue. -/

namespace Nets.Library.RoundRobin

variable {α : Type*}

/-- What a turn with room for `n` serves, and what it does not come to. -/
def scan (ready : α → Bool) : ℕ → List α → List α × List α
  | 0, queue => ([], queue)
  | _ + 1, [] => ([], [])
  | n + 1, a :: queue =>
    if ready a then (a :: (scan ready n queue).1, (scan ready n queue).2) else scan ready (n + 1) queue

def served (ready : α → Bool) (n : ℕ) (queue : List α) : List α := (scan ready n queue).1

def next (ready : α → Bool) (n : ℕ) (queue : List α) : List α :=
  (scan ready n queue).2 ++ (scan ready n queue).1

def join [DecidableEq α] (a : α) (queue : List α) : List α :=
  if a ∈ queue then queue else queue ++ [a]

variable {ready : α → Bool} {n : ℕ} {queue : List α} {a b : α}

/-! ## A turn -/

theorem scan_zero (ready : α → Bool) (queue : List α) : scan ready 0 queue = ([], queue) := by
  rw [scan]

theorem length_served_le : (served ready n queue).length ≤ n := by
  unfold served
  induction n, queue using scan.induct ready with
  | case1 queue =>
      rw [scan_zero]
      exact Nat.zero_le _
  | case2 n => exact Nat.zero_le _
  | case3 n a queue ha ih =>
      rw [scan, if_pos ha]
      exact Nat.succ_le_succ ih
  | case4 n a queue ha ih =>
      rw [scan, if_neg ha]
      exact ih

theorem ready_of_mem_served (h : a ∈ served ready n queue) : ready a = true := by
  unfold served at h
  induction n, queue using scan.induct ready with
  | case1 queue =>
      rw [scan_zero] at h
      cases h
  | case2 n => cases h
  | case3 n b queue hb ih =>
      rw [scan, if_pos hb] at h
      obtain rfl | h := List.mem_cons.mp h
      · exact hb
      · exact ih h
  | case4 n b queue hb ih =>
      rw [scan, if_neg hb] at h
      exact ih h

theorem scan_sublist (ready : α → Bool) (n : ℕ) (queue : List α) :
    ((scan ready n queue).1 ++ (scan ready n queue).2).Sublist queue := by
  induction n, queue using scan.induct ready with
  | case1 queue =>
      rw [scan_zero]
      exact .refl _
  | case2 n => exact .refl _
  | case3 n a queue ha ih =>
      rw [scan, if_pos ha]
      exact ih.cons_cons a
  | case4 n a queue ha ih =>
      rw [scan, if_neg ha]
      exact ih.cons a

theorem nodup_served (h : queue.Nodup) : (served ready n queue).Nodup :=
  h.sublist ((List.sublist_append_left _ _).trans (scan_sublist ready n queue))

theorem nodup_next (h : queue.Nodup) : (next ready n queue).Nodup :=
  List.perm_append_comm.nodup_iff.mp (h.sublist (scan_sublist ready n queue))

/-- A turn that has room left has come to the end of the queue. -/
theorem full_or_done : (served ready n queue).length = n ∨ (scan ready n queue).2 = [] := by
  unfold served
  induction n, queue using scan.induct ready with
  | case1 queue =>
      rw [scan_zero]
      exact .inl rfl
  | case2 n => exact .inr rfl
  | case3 n a queue ha ih =>
      rw [scan, if_pos ha]
      exact ih.imp_left (congrArg (· + 1))
  | case4 n a queue ha ih =>
      rw [scan, if_neg ha]
      exact ih

variable [DecidableEq α]

theorem mem_scan (ha : a ∈ queue) (hready : ready a = true) :
    a ∈ (scan ready n queue).1 ∨
      a ∈ (scan ready n queue).2 ∧ (scan ready n queue).2.idxOf a + n ≤ queue.idxOf a := by
  induction n, queue using scan.induct ready with
  | case1 queue =>
      rw [scan_zero]
      exact .inr ⟨ha, Nat.le_refl _⟩
  | case2 n => cases ha
  | case3 n b queue hb ih =>
      rw [scan, if_pos hb]
      obtain rfl | hne := eq_or_ne b a
      · exact .inl List.mem_cons_self
      · obtain hserved | ⟨hmem, hcloser⟩ := ih ((List.mem_cons.mp ha).resolve_left hne.symm)
        · exact .inl (List.mem_cons_of_mem b hserved)
        · refine .inr ⟨hmem, ?_⟩
          rw [List.idxOf_cons_ne _ hne]
          exact Nat.succ_le_succ hcloser
  | case4 n b queue hb ih =>
      rw [scan, if_neg hb]
      have hne : b ≠ a := fun heq => hb (heq ▸ hready)
      obtain hserved | ⟨hmem, hcloser⟩ := ih ((List.mem_cons.mp ha).resolve_left hne.symm)
      · exact .inl hserved
      · refine .inr ⟨hmem, ?_⟩
        rw [List.idxOf_cons_ne _ hne]
        exact Nat.le_succ_of_le hcloser

/-- A ready element is served, or comes as much closer to the front as there was room. -/
theorem served_or_closer (ha : a ∈ queue) (hready : ready a = true) :
    a ∈ served ready n queue ∨
      a ∈ next ready n queue ∧ (next ready n queue).idxOf a + n ≤ queue.idxOf a := by
  obtain hserved | ⟨hmem, hcloser⟩ := mem_scan (n := n) ha hready
  · exact .inl hserved
  · refine .inr ⟨List.mem_append_left _ hmem, ?_⟩
    rwa [next, List.idxOf_append_of_mem hmem]

theorem mem_served_of_room (ha : a ∈ queue) (hready : ready a = true)
    (hroom : (served ready n queue).length < n) : a ∈ served ready n queue := by
  obtain hserved | ⟨hmem, -⟩ := mem_scan (n := n) ha hready
  · exact hserved
  · have hrest : (scan ready n queue).2 = [] := full_or_done.resolve_left (Nat.ne_of_lt hroom)
    rw [hrest] at hmem
    cases hmem

/-! ## Between two turns -/

theorem mem_join : a ∈ join b queue ↔ a = b ∨ a ∈ queue := by
  rw [join]
  split
  · exact ⟨.inr, fun h => h.elim (fun heq => heq ▸ ‹b ∈ queue›) id⟩
  · simp [or_comm]

theorem nodup_join (h : queue.Nodup) : (join b queue).Nodup := by
  rw [join]
  split
  · exact h
  case isFalse hb =>
      exact List.nodup_append_comm.mp (List.nodup_cons.mpr ⟨hb, h⟩)

theorem idxOf_join (ha : a ∈ queue) : (join b queue).idxOf a = queue.idxOf a := by
  rw [join]
  split
  · rfl
  · exact List.idxOf_append_of_mem ha

theorem idxOf_erase_le (hne : b ≠ a) : (queue.erase b).idxOf a ≤ queue.idxOf a := by
  induction queue with
  | nil => exact Nat.le_refl _
  | cons c queue ih =>
      obtain rfl | hc := eq_or_ne c b
      · rw [List.erase_cons_head, List.idxOf_cons_ne _ hne]
        exact Nat.le_succ _
      · rw [List.erase_cons_tail (by simpa using hc)]
        obtain rfl | hca := eq_or_ne c a
        · simp
        · rw [List.idxOf_cons_ne _ hca, List.idxOf_cons_ne _ hca]
          exact Nat.succ_le_succ ih

end Nets.Library.RoundRobin
