import Mathlib.Data.Int.Basic
import Mathlib.Data.List.Nodup
import Mathlib.Data.List.Perm.Basic
import Mathlib.Logic.Function.Basic
import Mathlib.Tactic.Common

/-! # Descriptor tables

The open files of a process. A file that is opened gets the lowest number that is free, and there are
no more numbers than a limit allows. -/

namespace Nets.Library

structure Descriptors (κ : Type*) where
  limit : ℕ
  files : ℤ → Option κ

namespace Descriptors

variable {κ : Type*} {t u : Descriptors κ} {fd fd' : ℤ} {file file' : κ}

def empty (limit : ℕ) : Descriptors κ where
  limit
  files _ := none

/-- The lowest number that is not in use. -/
def lowestFree (t : Descriptors κ) : Option ℤ :=
  ((List.range t.limit).find? fun n : ℕ => (t.files n).isNone).map Int.ofNat

def put (fd : ℤ) (file : κ) (t : Descriptors κ) : Descriptors κ :=
  { t with files := Function.update t.files fd (some file) }

def openFile (file : κ) (t : Descriptors κ) : Option (ℤ × Descriptors κ) :=
  t.lowestFree.map fun fd => (fd, t.put fd file)

def closeFile (fd : ℤ) (t : Descriptors κ) : Descriptors κ :=
  { t with files := Function.update t.files fd none }

@[simp] theorem put_limit : (t.put fd file).limit = t.limit := rfl

@[simp] theorem closeFile_limit : (t.closeFile fd).limit = t.limit := rfl

@[simp] theorem put_self : (t.put fd file).files fd = some file := Function.update_self ..

theorem put_of_ne (h : fd' ≠ fd) : (t.put fd file).files fd' = t.files fd' :=
  Function.update_of_ne h ..

@[simp] theorem closeFile_self : (t.closeFile fd).files fd = none := Function.update_self ..

theorem closeFile_of_ne (h : fd' ≠ fd) : (t.closeFile fd).files fd' = t.files fd' :=
  Function.update_of_ne h ..

/-! ## The number of a new file -/

theorem lowestFree_eq_none_iff :
    t.lowestFree = none ↔ ∀ n : ℕ, n < t.limit → (t.files n).isSome = true := by
  simp [lowestFree, Option.isSome_iff_ne_none]

theorem lowestFree_eq_some (h : t.lowestFree = some fd) :
    t.files fd = none ∧ 0 ≤ fd ∧ fd < t.limit := by
  obtain ⟨n, hfind, rfl⟩ := Option.map_eq_some_iff.mp h
  have hfree : (t.files n).isNone = true := by simpa using List.find?_some hfind
  have hmem : n < t.limit := List.mem_range.mp (List.mem_of_find?_eq_some hfind)
  exact ⟨Option.isNone_iff_eq_none.mp hfree, Int.natCast_nonneg n, Int.ofNat_lt.mpr hmem⟩

/-- A number below the limit that is not in use keeps the table from being full. -/
theorem lowestFree_isSome (hfree : t.files fd = none) (hnonneg : 0 ≤ fd) (hlimit : fd < t.limit) :
    ∃ fd', t.lowestFree = some fd' := by
  obtain ⟨n, rfl⟩ := Int.eq_ofNat_of_zero_le hnonneg
  refine Option.ne_none_iff_exists'.mp fun hnone => ?_
  have hsome := lowestFree_eq_none_iff.mp hnone n (Int.ofNat_lt.mp hlimit)
  rw [hfree] at hsome
  cases hsome

/-- Where the table is full, the number of a file that is closed is the next one given out. -/
theorem lowestFree_closeFile (hfull : t.lowestFree = none) (hnonneg : 0 ≤ fd) (hlimit : fd < t.limit) :
    (t.closeFile fd).lowestFree = some fd := by
  obtain ⟨fd', hfd'⟩ := lowestFree_isSome (t := t.closeFile fd) closeFile_self hnonneg hlimit
  obtain ⟨hfree, hnonneg', hlimit'⟩ := lowestFree_eq_some hfd'
  by_cases heq : fd' = fd
  · rw [hfd', heq]
  · obtain ⟨n, rfl⟩ := Int.eq_ofNat_of_zero_le hnonneg'
    have hsome := lowestFree_eq_none_iff.mp hfull n (Int.ofNat_lt.mp hlimit')
    rw [closeFile_of_ne heq] at hfree
    rw [hfree] at hsome
    cases hsome

theorem closeFile_put : (t.put fd file).closeFile fd = t.closeFile fd := by
  simp [put, closeFile]

theorem closeFile_closeFile : (t.closeFile fd).closeFile fd = t.closeFile fd := by
  simp [closeFile]

theorem put_closeFile : (t.closeFile fd).put fd file = t.put fd file := by
  simp [put, closeFile]

theorem put_eq_self (h : t.files fd = some file) : t.put fd file = t := by
  simp [put, ← h]

/-! ## Accounts

A list of who holds which descriptor, for what. -/

/-- The table has exactly the files of the list, and every number stands there once. -/
structure Holds (t : Descriptors κ) (held : List (ℤ × κ)) : Prop where
  mem_iff : ∀ fd file, t.files fd = some file ↔ (fd, file) ∈ held
  nodup : (held.map Prod.fst).Nodup
  valid : ∀ fd file, (fd, file) ∈ held → 0 ≤ fd ∧ fd < t.limit

variable {held rest : List (ℤ × κ)}

theorem holds_empty (limit : ℕ) : (empty limit : Descriptors κ).Holds [] :=
  ⟨fun _ _ => by simp [empty], List.nodup_nil, fun _ _ h => by cases h⟩

theorem Holds.perm (h : t.Holds held) (hperm : held.Perm rest) : t.Holds rest :=
  ⟨fun fd file => (h.mem_iff fd file).trans hperm.mem_iff, (hperm.map _).nodup_iff.mp h.nodup,
    fun fd file hmem => h.valid fd file (hperm.mem_iff.mpr hmem)⟩

theorem Holds.files_eq (h : t.Holds held) (hmem : (fd, file) ∈ held) : t.files fd = some file :=
  (h.mem_iff fd file).mpr hmem

/-- Where no file is listed under a number, none is open under it. -/
theorem Holds.notMem_of_none (h : t.Holds held) (hnone : t.files fd = none) :
    fd ∉ held.map Prod.fst := by
  intro hmem
  obtain ⟨⟨_, file⟩, hentry, rfl⟩ := List.mem_map.mp hmem
  rw [h.files_eq hentry] at hnone
  cases hnone

/-- A new file goes to whoever opened it. -/
theorem Holds.put (h : t.Holds held) (hfree : t.lowestFree = some fd) :
    (t.put fd file).Holds ((fd, file) :: held) := by
  obtain ⟨hnone, hnonneg, hlimit⟩ := lowestFree_eq_some hfree
  have hnew := h.notMem_of_none hnone
  refine ⟨fun fd' file' => ?_, ?_, ?_⟩
  · by_cases heq : fd' = fd
    · subst heq
      have hnot : (fd', file') ∉ held := fun hmem => hnew (List.mem_map_of_mem hmem)
      rw [put_self, List.mem_cons, or_iff_left hnot, Option.some.injEq, Prod.mk.injEq]
      exact ⟨fun heq => ⟨rfl, heq.symm⟩, fun heq => heq.2.symm⟩
    · rw [put_of_ne heq, h.mem_iff, List.mem_cons, or_iff_right]
      exact fun hpair => heq (Prod.mk.inj hpair).1
  · rw [List.map_cons, List.nodup_cons]
    exact ⟨hnew, h.nodup⟩
  · intro fd' file' hmem
    rcases List.mem_cons.mp hmem with hpair | hmem
    · obtain ⟨rfl, rfl⟩ := Prod.mk.inj hpair
      exact ⟨hnonneg, hlimit⟩
    · exact h.valid fd' file' hmem

/-- A file is closed by who holds it. -/
theorem Holds.closeFile (h : t.Holds ((fd, file) :: rest)) : (t.closeFile fd).Holds rest := by
  obtain ⟨hnew, hnodup⟩ := List.nodup_cons.mp h.nodup
  refine ⟨fun fd' file' => ?_, hnodup, fun fd' file' hmem =>
    h.valid fd' file' (List.mem_cons_of_mem _ hmem)⟩
  by_cases heq : fd' = fd
  · subst heq
    have hnot : (fd', file') ∉ rest := fun hmem =>
      hnew (List.mem_map.mpr ⟨(fd', file'), hmem, rfl⟩)
    simp [hnot]
  · rw [closeFile_of_ne heq, h.mem_iff, List.mem_cons, or_iff_right]
    exact fun hpair => heq (Prod.mk.inj hpair).1

/-- Whoever holds a file makes room by closing it. -/
theorem Holds.exists_free (h : t.Holds ((fd, file) :: rest)) :
    ∃ fd', (t.closeFile fd).lowestFree = some fd' := by
  obtain ⟨hnonneg, hlimit⟩ := h.valid fd file List.mem_cons_self
  exact lowestFree_isSome closeFile_self hnonneg hlimit

end Descriptors

end Nets.Library
