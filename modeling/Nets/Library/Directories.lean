import Mathlib.Data.List.Basic
import Mathlib.Tactic.Common

/-! # Directories

A directory is the names on the way to it from the root, the last one first. A path is resolved name by
name, and every directory on the way has to exist. -/

namespace Nets.Library

abbrev Name := List Char

abbrev Directory := List Name

/-- The names in a path. Slashes in a row are one. -/
def names (path : List Char) : List Name := (path.splitOn '/').filter (· ≠ [])

/-- Where a path begins. -/
def origin (cwd : Directory) (path : List Char) : Directory :=
  if path.head? = some '/' then [] else cwd

/-- The root is above itself. -/
def descend (d : Directory) (n : Name) : Directory :=
  if n = ['.'] then d else if n = ['.', '.'] then d.tail else n :: d

def walk (d : Directory) (ns : List Name) : Directory := ns.foldl descend d

/-- The way along the names comes through the directory. -/
def Visits (d : Directory) (ns : List Name) (e : Directory) : Prop := ∃ ms, ms <+: ns ∧ walk d ms = e

/-! ## Paths -/

variable {permits : Directory → Bool} {d e cwd : Directory} {n : Name} {ns : List Name}
  {path : List Char}

theorem names_of_notMem (h : '/' ∉ n) (hn : n ≠ []) : names n = [n] := by
  rw [names, List.splitOn_eq_singleton h]
  simp [hn]

theorem names_append_slash (front back : List Char) :
    names (front ++ '/' :: back) = names front ++ names back := by
  rw [names, List.splitOn_append_cons_self, List.filter_append]
  rfl

theorem walk_cons (d : Directory) (n : Name) (ns : List Name) :
    walk d (n :: ns) = walk (descend d n) ns := rfl

theorem visits_start (d : Directory) (ns : List Name) : Visits d ns d := ⟨[], List.nil_prefix, rfl⟩

theorem visits_cons : Visits d (n :: ns) e ↔ d = e ∨ Visits (descend d n) ns e := by
  constructor
  · rintro ⟨ms, hms, hwalk⟩
    cases ms with
    | nil => exact .inl hwalk
    | cons m ms =>
        obtain ⟨rfl, hrest⟩ := List.cons_prefix_cons.mp hms
        exact .inr ⟨ms, hrest, hwalk⟩
  · rintro (rfl | ⟨ms, hms, hwalk⟩)
    · exact visits_start d (n :: ns)
    · exact ⟨n :: ms, List.cons_prefix_cons.mpr ⟨rfl, hms⟩, hwalk⟩

theorem visits_nil : Visits d [] e ↔ d = e := by
  constructor
  · rintro ⟨ms, hms, hwalk⟩
    rw [List.prefix_nil.mp hms] at hwalk
    exact hwalk
  · rintro rfl
    exact visits_start d []

/-! ## Trees -/

/-- With a directory there is the one above it. -/
structure DirectoryTree where
  dirs : List Directory
  root_mem : [] ∈ dirs
  tail_mem : ∀ d ∈ dirs, d.tail ∈ dirs

namespace DirectoryTree

variable {t u : DirectoryTree}

def resolve (t : DirectoryTree) (d : Directory) : List Name → Option Directory
  | [] => if d ∈ t.dirs then some d else none
  | n :: ns => if d ∈ t.dirs then t.resolve (descend d n) ns else none

/-- `access(path, F_OK) == 0`. -/
def access (t : DirectoryTree) (cwd : Directory) (path : List Char) : Bool :=
  path ≠ [] ∧ (t.resolve (origin cwd path) (names path)).isSome

def insert (t : DirectoryTree) (d : Directory) (h : d ∈ t.dirs) (n : Name) : DirectoryTree where
  dirs := (n :: d) :: t.dirs
  root_mem := List.mem_cons_of_mem _ t.root_mem
  tail_mem e he := by
    obtain rfl | he := List.mem_cons.mp he
    · exact List.mem_cons_of_mem _ h
    · exact List.mem_cons_of_mem _ (t.tail_mem e he)

/-- `mkdir`, which fails where `permits` says so. -/
def mkdir (permits : Directory → Bool) (t : DirectoryTree) (cwd : Directory) (path : List Char) :
    Option DirectoryTree := do
  let n ← (names path).getLast?
  let d ← t.resolve (origin cwd path) (names path).dropLast
  if h : d ∈ t.dirs then
    if descend d n ∉ t.dirs ∧ permits (n :: d) then some (t.insert d h n) else none
  else none

/-- What the name is of in `d` exists or is made. -/
def ensure (permits : Directory → Bool) (t : DirectoryTree) (d : Directory) (n : Name) :
    Option DirectoryTree :=
  if descend d n ∈ t.dirs then some t
  else if h : d ∈ t.dirs then if permits (n :: d) then some (t.insert d h n) else none
  else none

/-- All directories on the way. -/
def ensureAll (permits : Directory → Bool) (t : DirectoryTree) (d : Directory) :
    List Name → Option DirectoryTree
  | [] => some t
  | n :: ns => (t.ensure permits d n).bind fun u => u.ensureAll permits (descend d n) ns

/-! ## Resolution -/

theorem resolve_eq_some_iff :
    t.resolve d ns = some e ↔ (∀ c, Visits d ns c → c ∈ t.dirs) ∧ walk d ns = e := by
  induction ns generalizing d with
  | nil => simp [resolve, visits_nil, walk]
  | cons n ns ih =>
      rw [resolve, walk_cons]
      by_cases hd : d ∈ t.dirs
      · rw [if_pos hd, ih]
        refine and_congr_left fun _ => ⟨fun h c hc => ?_, fun h c hc => h c (visits_cons.mpr (.inr hc))⟩
        obtain rfl | hc := visits_cons.mp hc
        · exact hd
        · exact h c hc
      · rw [if_neg hd]
        constructor
        · intro h
          cases h
        · rintro ⟨h, -⟩
          exact absurd (h d (visits_start d _)) hd

theorem isSome_resolve_iff :
    (t.resolve d ns).isSome ↔ ∀ c, Visits d ns c → c ∈ t.dirs := by
  rw [Option.isSome_iff_exists]
  simp only [resolve_eq_some_iff]
  exact ⟨fun ⟨_, h, _⟩ => h, fun h => ⟨_, h, rfl⟩⟩

theorem access_iff (hpath : path ≠ []) :
    t.access cwd path ↔ ∀ c, Visits (origin cwd path) (names path) c → c ∈ t.dirs := by
  rw [access, decide_eq_true_eq, isSome_resolve_iff]
  exact and_iff_right hpath

theorem resolve_concat (h : t.resolve d ns = some e) (n : Name) :
    t.resolve d (ns ++ [n]) = if descend e n ∈ t.dirs then some (descend e n) else none := by
  induction ns generalizing d with
  | nil =>
      obtain ⟨hd, heq⟩ := Option.ite_none_right_eq_some.mp h
      rw [List.nil_append, resolve, if_pos hd, resolve, Option.some.inj heq]
  | cons m ns ih =>
      obtain ⟨hd, h⟩ := Option.ite_none_right_eq_some.mp h
      rw [List.cons_append, resolve, if_pos hd, ih h]

theorem mem_of_resolve (h : t.resolve d ns = some e) : e ∈ t.dirs := by
  obtain ⟨hvisits, rfl⟩ := resolve_eq_some_iff.mp h
  exact hvisits _ ⟨ns, List.prefix_refl ns, rfl⟩

theorem resolve_mono (hsub : t.dirs ⊆ u.dirs) (h : t.resolve d ns = some e) :
    u.resolve d ns = some e := by
  rw [resolve_eq_some_iff] at h ⊢
  exact ⟨fun c hc => hsub (h.1 c hc), h.2⟩

/-! ## Making directories -/

/-- Testing for a directory and making it where it is missing. -/
theorem ensure_eq_mkdir (permits : Directory → Bool) (t : DirectoryTree) (hpath : path ≠ [])
    (hnames : names path = ns ++ [n]) (h : t.resolve (origin cwd path) ns = some d) :
    t.ensure permits d n = if t.access cwd path then some t else t.mkdir permits cwd path := by
  have hd := mem_of_resolve h
  have haccess : t.access cwd path ↔ descend d n ∈ t.dirs := by
    rw [access, decide_eq_true_eq, hnames, resolve_concat h]
    simp [hpath]
  by_cases hn : descend d n ∈ t.dirs
  · rw [ensure, if_pos hn, if_pos (haccess.mpr hn)]
  · rw [ensure, if_neg hn, if_neg (mt haccess.mp hn), mkdir, hnames]
    simp [h, hd, hn]

/-- A name that leads to no directory is not one of the two special ones. -/
theorem descend_of_notMem (hd : d ∈ t.dirs) (hn : descend d n ∉ t.dirs) : descend d n = n :: d := by
  rw [descend] at hn ⊢
  split_ifs at hn ⊢
  · exact absurd hd hn
  · exact absurd (t.tail_mem d hd) hn
  · rfl

theorem mem_of_ensure (hd : d ∈ t.dirs) (h : t.ensure permits d n = some u) :
    e ∈ u.dirs ↔ e ∈ t.dirs ∨ e = descend d n := by
  rw [ensure] at h
  split_ifs at h with hn hpermits
  · obtain rfl := Option.some.inj h
    exact ⟨.inl, Or.rec id fun heq => heq ▸ hn⟩
  · obtain rfl := Option.some.inj h
    rw [descend_of_notMem hd hn, insert, List.mem_cons, or_comm]

theorem resolve_of_ensure (h : t.resolve d ns = some e) (hensure : t.ensure permits e n = some u) :
    u.resolve d (ns ++ [n]) = some (descend e n) := by
  have hmem := fun c => mem_of_ensure (e := c) (mem_of_resolve h) hensure
  rw [resolve_concat (resolve_mono (fun c hc => (hmem c).mpr (.inl hc)) h),
    if_pos ((hmem _).mpr (.inr rfl))]

theorem mem_of_ensureAll (hd : d ∈ t.dirs) (h : t.ensureAll permits d ns = some u) :
    e ∈ u.dirs ↔ e ∈ t.dirs ∨ Visits d ns e := by
  induction ns generalizing t d with
  | nil =>
      obtain rfl := Option.some.inj h
      rw [visits_nil]
      exact ⟨.inl, Or.rec id fun heq => heq ▸ hd⟩
  | cons n ns ih =>
      obtain ⟨t', hensure, h⟩ := Option.bind_eq_some_iff.mp h
      have hmem := fun c => mem_of_ensure (e := c) hd hensure
      rw [ih ((hmem _).mpr (.inr rfl)) h, hmem, visits_cons]
      constructor
      · rintro ((he | rfl) | he)
        · exact .inl he
        · exact .inr (.inr (visits_start _ _))
        · exact .inr (.inr he)
      · rintro (he | rfl | he)
        · exact .inl (.inl he)
        · exact .inl (.inl hd)
        · exact .inr he

theorem exists_ensure (hd : d ∈ t.dirs) (hpermits : permits (descend d n) = true) :
    ∃ u, t.ensure permits d n = some u := by
  rw [ensure]
  split_ifs with hn hp
  · exact ⟨t, rfl⟩
  · exact ⟨_, rfl⟩
  · rw [descend_of_notMem hd hn] at hpermits
    exact absurd hpermits hp

theorem exists_ensureAll (hd : d ∈ t.dirs) (hpermits : ∀ e, Visits d ns e → permits e = true) :
    ∃ u, t.ensureAll permits d ns = some u := by
  induction ns generalizing t d with
  | nil => exact ⟨t, rfl⟩
  | cons n ns ih =>
      have hvisits := fun e he => hpermits e (visits_cons.mpr (.inr he))
      obtain ⟨t', hensure⟩ := exists_ensure hd (hvisits _ (visits_start _ _))
      obtain ⟨u, hu⟩ := ih ((mem_of_ensure hd hensure).mpr (.inr rfl)) hvisits
      exact ⟨u, Option.bind_eq_some_iff.mpr ⟨t', hensure, hu⟩⟩

end DirectoryTree

end Nets.Library
