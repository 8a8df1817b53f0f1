import Mathlib.Data.List.Nodup
import Mathlib.Data.List.TakeWhile
import Mathlib.Order.Lattice
import Mathlib.Tactic.Common

/-! # Ordered multimaps

The entries in the order of an iterator. Of entries with the same key the one that was inserted first
comes first. -/

namespace Nets.Library

abbrev Multimap (κ ν : Type*) := List (κ × ν)

namespace Multimap

variable {κ ν : Type*} [LinearOrder κ]

def Sorted (m : Multimap κ ν) : Prop := m.Pairwise fun x y => x.1 ≤ y.1

/-- The entries before `upper_bound(k)`. -/
def upTo (k : κ) (m : Multimap κ ν) : Multimap κ ν := m.takeWhile fun e => decide (e.1 ≤ k)

/-- The entries from `upper_bound(k)` on. -/
def beyond (k : κ) (m : Multimap κ ν) : Multimap κ ν := m.dropWhile fun e => decide (e.1 ≤ k)

/-- A new entry comes after all with its key. -/
def insert (k : κ) (v : ν) (m : Multimap κ ν) : Multimap κ ν := upTo k m ++ (k, v) :: beyond k m

variable {k : κ} {v : ν} {m xs ys : Multimap κ ν}

@[simp] theorem upTo_append_beyond (k : κ) (m : Multimap κ ν) : upTo k m ++ beyond k m = m :=
  List.takeWhile_append_dropWhile

theorem insert_perm (k : κ) (v : ν) (m : Multimap κ ν) : (insert k v m).Perm ((k, v) :: m) := by
  have h : (upTo k m ++ (k, v) :: beyond k m).Perm ((k, v) :: (upTo k m ++ beyond k m)) :=
    List.perm_middle
  rwa [upTo_append_beyond] at h

theorem le_of_mem_upTo {e : κ × ν} (h : e ∈ upTo k m) : e.1 ≤ k := by
  have hle := List.mem_takeWhile_imp h
  exact of_decide_eq_true hle

theorem Sorted.lt_of_mem_beyond (hm : Sorted m) {e : κ × ν} (h : e ∈ beyond k m) : k < e.1 := by
  induction m with
  | nil => cases h
  | cons x m ih =>
      obtain ⟨hx, hm⟩ := List.pairwise_cons.mp hm
      rw [beyond, List.dropWhile_cons] at h
      split at h
      · exact ih hm h
      · rename_i hlt
        have hlt : k < x.1 := by simpa using hlt
        rcases List.mem_cons.mp h with rfl | h
        · exact hlt
        · exact hlt.trans_le (hx e h)

theorem Sorted.insert (hm : Sorted m) : Sorted (insert k v m) := by
  have hsplit : Sorted (upTo k m ++ beyond k m) := by rwa [upTo_append_beyond]
  obtain ⟨hup, hbeyond, hle⟩ := List.pairwise_append.mp hsplit
  refine List.pairwise_append.mpr ⟨hup, List.pairwise_cons.mpr ⟨fun e he => ?_, hbeyond⟩, ?_⟩
  · exact (hm.lt_of_mem_beyond he).le
  · intro x hx y hy
    rcases List.mem_cons.mp hy with rfl | hy
    · exact le_of_mem_upTo hx
    · exact hle x hx y hy

/-- Entries that are not behind the new one stay in front of it. -/
theorem upTo_append_of_le (h : ∀ e ∈ xs, e.1 ≤ k) : upTo k (xs ++ ys) = xs ++ upTo k ys :=
  List.takeWhile_append_of_pos fun e he => decide_eq_true (h e he)

theorem beyond_append_of_le (h : ∀ e ∈ xs, e.1 ≤ k) : beyond k (xs ++ ys) = beyond k ys :=
  List.dropWhile_append_of_pos fun e he => decide_eq_true (h e he)

/-- Behind the new entry everything moves by one place. -/
theorem drop_insert_of_le {it : ℕ} (h : (upTo k m).length ≤ it) :
    (insert k v m).drop (it + 1) = m.drop it := by
  have hsplit : m.drop it = (upTo k m ++ beyond k m).drop it := by
    rw [upTo_append_beyond]
  have hplace : it + 1 - (upTo k m).length = it - (upTo k m).length + 1 := by
    omega
  rw [hsplit, insert, List.drop_append, List.drop_append, hplace, List.drop_succ_cons,
    List.drop_eq_nil_of_le h, List.drop_eq_nil_of_le (Nat.le_succ_of_le h)]

/-- An entry in front of the new one keeps its place. -/
theorem exists_drop_insert {it : ℕ} {e : κ × ν} (h : it < (upTo k m).length)
    (he : m.drop it = e :: xs) : ∃ ys, (insert k v m).drop it = e :: ys := by
  obtain ⟨x, rest, hrest⟩ : ∃ x rest, (upTo k m).drop it = x :: rest := by
    apply List.exists_cons_of_ne_nil
    simpa using h
  have hsplit : m.drop it = (upTo k m).drop it ++ beyond k m := by
    rw [← List.drop_append_of_le_length h.le, upTo_append_beyond]
  obtain ⟨rfl, -⟩ : x = e ∧ rest ++ beyond k m = xs := by
    rw [hsplit, hrest] at he
    exact List.cons.inj he
  refine ⟨rest ++ (k, v) :: beyond k m, ?_⟩
  rw [insert, List.drop_append_of_le_length h.le, hrest]
  rfl

/-- Where no key is smaller, those that are not larger are equal. -/
theorem upTo_eq_takeWhile (h : ∀ e ∈ m, k ≤ e.1) :
    upTo k m = m.takeWhile fun e => decide (e.1 = k) := by
  induction m with
  | nil => rfl
  | cons e m ih =>
      obtain ⟨he, hm⟩ := List.forall_mem_cons.mp h
      have hiff : (e.1 ≤ k) ↔ e.1 = k := ⟨fun hle => hle.antisymm he, fun heq => heq.le⟩
      rw [upTo, List.takeWhile_cons, List.takeWhile_cons, ← upTo, ih hm]
      simp only [hiff]

theorem Sorted.head_le (h : Sorted (xs ++ ys)) {e : κ × ν} (he : e ∈ ys.head?) :
    ∀ x ∈ ys, e.1 ≤ x.1 := by
  intro x hx
  obtain ⟨-, hys, -⟩ := List.pairwise_append.mp h
  cases ys with
  | nil => cases hx
  | cons y ys =>
      obtain rfl := Option.some.inj he
      rcases List.mem_cons.mp hx with rfl | hx
      · exact le_rfl
      · exact (List.pairwise_cons.mp hys).1 x hx

/-- A change of the values only. -/
theorem Sorted.map {f : κ × ν → κ × ν} (hm : Sorted m) (hf : ∀ e, (f e).1 = e.1) :
    Sorted (m.map f) := by
  refine List.pairwise_map.mpr (hm.imp fun h => ?_)
  rwa [hf, hf]

end Multimap

end Nets.Library
