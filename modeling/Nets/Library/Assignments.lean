import Mathlib.Data.List.Basic
import Mathlib.Data.List.Perm.Subperm
import Mathlib.Logic.Function.Basic
import Mathlib.Tactic.Common

/-! # Maps that are gone through in an unknown order

A map from keys to values is a partial function. Who goes through it meets every key once, in an order
that nobody promises; and what he does with an entry is to write some cell of a store. -/

namespace Nets.Library

variable {κ ν γ δ : Type*}

/-- `order` has every key of the map once. -/
structure Traverses (order : List κ) (m : κ → Option ν) : Prop where
  nodup : order.Nodup
  mem_iff : ∀ k, k ∈ order ↔ (m k).isSome = true

namespace Traverses

variable {order order' : List κ} {m : κ → Option ν}

theorem perm (h : Traverses order m) (h' : Traverses order' m) : order.Perm order' :=
  (List.perm_ext_iff_of_nodup h.nodup h'.nodup).mpr fun k => (h.mem_iff k).trans (h'.mem_iff k).symm

theorem of_perm (h : Traverses order m) (hperm : order.Perm order') : Traverses order' m where
  nodup := hperm.nodup_iff.mp h.nodup
  mem_iff k := hperm.mem_iff.symm.trans (h.mem_iff k)

/-- Any two keys may be the last ones, in this order. -/
theorem exists_last [DecidableEq κ] (h : Traverses order m) {k k' : κ} (hne : k ≠ k')
    (hk : (m k).isSome = true) (hk' : (m k').isSome = true) :
    ∃ rest, Traverses (rest ++ [k, k']) m := by
  have hmem : k ∈ order := (h.mem_iff k).mpr hk
  have hmem' : k' ∈ order.erase k :=
    (List.mem_erase_of_ne hne.symm).mpr ((h.mem_iff k').mpr hk')
  refine ⟨(order.erase k).erase k', h.of_perm ?_⟩
  calc order.Perm (k :: order.erase k) := List.perm_cons_erase hmem
    _ |>.Perm (k :: k' :: (order.erase k).erase k') := (List.perm_cons_erase hmem').cons k
    _ |>.Perm ((order.erase k).erase k' ++ [k, k']) := (@List.perm_append_comm _ [k, k'] _)

end Traverses

/-! ## The entries -/

def entries (order : List κ) (m : κ → Option ν) : List (κ × ν) :=
  order.filterMap fun k => (m k).map (Prod.mk k)

variable {order order' : List κ} {m : κ → Option ν}

theorem mem_entries {k : κ} {x : ν} :
    (k, x) ∈ entries order m ↔ k ∈ order ∧ m k = some x := by
  rw [entries, List.mem_filterMap]
  constructor
  · rintro ⟨k', hk', hentry⟩
    obtain ⟨y, hy, heq⟩ := Option.map_eq_some_iff.mp hentry
    obtain ⟨rfl, rfl⟩ := Prod.mk.inj heq
    exact ⟨hk', hy⟩
  · rintro ⟨hk, hx⟩
    exact ⟨k, hk, by rw [hx, Option.map_some]⟩

theorem Traverses.mem_entries {k : κ} {x : ν} (h : Traverses order m) :
    (k, x) ∈ entries order m ↔ m k = some x := by
  rw [Library.mem_entries, and_iff_right_of_imp]
  exact fun hx => (h.mem_iff k).mpr (by rw [hx, Option.isSome_some])

theorem entries_append_pair {rest : List κ} {k k' : κ} {x x' : ν} (hx : m k = some x)
    (hx' : m k' = some x') :
    entries (rest ++ [k, k']) m = entries rest m ++ [(k, x), (k', x')] := by
  simp [entries, hx, hx']

/-- `new`, and `old` where `new` says nothing. -/
def overlay (new old : κ → Option ν) : κ → Option ν := fun k => (new k).or (old k)

/-! ## Writing cells -/

section

variable [DecidableEq γ]

def writeAll (writes : List (γ × δ)) (store : γ → Option δ) : γ → Option δ :=
  writes.foldl (fun store w => Function.update store w.1 (some w.2)) store

@[simp] theorem writeAll_nil (store : γ → Option δ) : writeAll [] store = store := rfl

@[simp] theorem writeAll_cons (w : γ × δ) (writes : List (γ × δ)) (store : γ → Option δ) :
    writeAll (w :: writes) store = writeAll writes (Function.update store w.1 (some w.2)) := rfl

theorem writeAll_append (writes writes' : List (γ × δ)) (store : γ → Option δ) :
    writeAll (writes ++ writes') store = writeAll writes' (writeAll writes store) :=
  List.foldl_append

/-- The last write counts. -/
theorem writeAll_concat_self (writes : List (γ × δ)) (w : γ × δ) (store : γ → Option δ) :
    writeAll (writes ++ [w]) store w.1 = some w.2 := by
  rw [writeAll_append, writeAll_cons, writeAll_nil, Function.update_self]

theorem writeAll_perm {writes writes' : List (γ × δ)}
    (h : ∀ w ∈ writes, ∀ w' ∈ writes, w.1 = w'.1 → w.2 = w'.2) (hperm : writes.Perm writes')
    (store : γ → Option δ) : writeAll writes store = writeAll writes' store := by
  refine hperm.foldl_eq' ?_ store
  intro w hw w' hw' s
  by_cases hcell : w.1 = w'.1
  · rw [hcell, h w hw w' hw' hcell]
  · exact Function.update_comm hcell _ _ s

theorem writeAll_of_forall_ne {writes : List (γ × δ)} {c : γ} (h : ∀ w ∈ writes, w.1 ≠ c)
    (store : γ → Option δ) : writeAll writes store c = store c := by
  induction writes generalizing store with
  | nil => rfl
  | cons w writes ih =>
      obtain ⟨hw, hrest⟩ := List.forall_mem_cons.mp h
      rw [writeAll_cons, ih hrest, Function.update_of_ne hw.symm]

theorem writeAll_of_mem {writes : List (γ × δ)} {c : γ} {y : δ} (hmem : (c, y) ∈ writes)
    (hsame : ∀ w ∈ writes, w.1 = c → w.2 = y) (store : γ → Option δ) :
    writeAll writes store c = some y := by
  induction writes generalizing store with
  | nil => cases hmem
  | cons w writes ih =>
      obtain ⟨hw, hrest⟩ := List.forall_mem_cons.mp hsame
      rw [writeAll_cons]
      by_cases hlater : (c, y) ∈ writes
      · exact ih hlater hrest _
      · obtain rfl : (c, y) = w := (List.mem_cons.mp hmem).resolve_right hlater
        have habsent : ∀ w ∈ writes, w.1 ≠ c := by
          rintro ⟨c', y'⟩ hw' rfl
          obtain rfl : y' = y := hrest _ hw' rfl
          exact hlater hw'
        rw [writeAll_of_forall_ne habsent, Function.update_self]

end

/-- What writing an entry does, if it does anything. -/
def writesOf (write : κ × ν → Option (γ × δ)) (order : List κ) (m : κ → Option ν) :
    List (γ × δ) :=
  (entries order m).filterMap write

/-- Two entries write the same cell with different values. -/
def Collide (write : κ × ν → Option (γ × δ)) (m : κ → Option ν) : Prop :=
  ∃ k x k' x' c y y', m k = some x ∧ m k' = some x' ∧ write (k, x) = some (c, y) ∧
    write (k', x') = some (c, y') ∧ y ≠ y'

/-- The order does not matter exactly where no two entries collide. -/
theorem writeAll_order_iff [DecidableEq κ] [DecidableEq γ] (write : κ × ν → Option (γ × δ))
    (h : Traverses order m) (store : γ → Option δ) :
    (∀ order₁ order₂, Traverses order₁ m → Traverses order₂ m →
      writeAll (writesOf write order₁ m) store = writeAll (writesOf write order₂ m) store) ↔
      ¬ Collide write m := by
  constructor
  · rintro hsame ⟨k, x, k', x', c, y, y', hx, hx', hy, hy', hne⟩
    have hkeys : k ≠ k' := by
      rintro rfl
      obtain rfl := Option.some.inj (hx.symm.trans hx')
      obtain rfl := (Prod.mk.inj (Option.some.inj (hy.symm.trans hy'))).2
      exact hne rfl
    obtain ⟨rest, hrest⟩ := h.exists_last hkeys (by rw [hx]; rfl) (by rw [hx']; rfl)
    have hswap : Traverses (rest ++ [k', k]) m :=
      hrest.of_perm ((List.Perm.swap k' k []).append_left rest)
    have heq := congrFun (hsame _ _ hrest hswap) c
    have hlast : ∀ {k k' x x' y y'}, m k = some x → m k' = some x' →
        write (k, x) = some (c, y) → write (k', x') = some (c, y') →
        writeAll (writesOf write (rest ++ [k, k']) m) store c = some y' := by
      intro k k' x x' y y' hx hx' hy hy'
      have hwrites : writesOf write (rest ++ [k, k']) m =
          (writesOf write rest m ++ [(c, y)]) ++ [(c, y')] := by
        simp [writesOf, entries_append_pair hx hx', hy, hy']
      rw [hwrites]
      exact writeAll_concat_self _ (c, y') store
    rw [hlast hx hx' hy hy', hlast hx' hx hy' hy] at heq
    exact hne (Option.some.inj heq).symm
  · intro hfree order₁ order₂ h₁ h₂
    refine writeAll_perm ?_ (((h₁.perm h₂).filterMap _).filterMap write) store
    rintro ⟨c, y⟩ hw ⟨c', y'⟩ hw' hcell
    obtain ⟨⟨k, x⟩, hx, hy⟩ := List.mem_filterMap.mp hw
    obtain ⟨⟨k', x'⟩, hx', hy'⟩ := List.mem_filterMap.mp hw'
    obtain rfl : c = c' := hcell
    by_contra hne
    exact hfree ⟨k, x, k', x', c, y, y', h₁.mem_entries.mp hx, h₁.mem_entries.mp hx', hy, hy', hne⟩

/-- Writing every entry in the cell of its key lays the map over the store. -/
theorem writeAll_entries [DecidableEq κ] (h : Traverses order m) (store : κ → Option ν) :
    writeAll (entries order m) store = overlay m store := by
  funext k
  cases hk : m k with
  | none =>
      have habsent : ∀ w ∈ entries order m, w.1 ≠ k := by
        rintro ⟨k', x⟩ hw rfl
        cases hk.symm.trans (h.mem_entries.mp hw)
      rw [writeAll_of_forall_ne habsent, overlay, hk, Option.none_or]
  | some x =>
      have hsame : ∀ w ∈ entries order m, w.1 = k → w.2 = x := by
        rintro ⟨k', x'⟩ hw rfl
        exact Option.some.inj ((h.mem_entries.mp hw).symm.trans hk)
      rw [writeAll_of_mem (h.mem_entries.mpr hk) hsame, overlay, hk, Option.some_or]

end Nets.Library
