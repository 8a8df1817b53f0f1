import Nets.Verification.LogFilePath.Tokens

/-! # Which directories are made

`mkdirR` reads its argument from the root. The operating system reads a relative path from the working
directory. -/

namespace Nets.LogFilePath

open Library

variable {permits : Directory → Bool} {cwd : Directory} {tree made : DirectoryTree}
  {file dir : List Char}

/-- Every directory on the way to `dir` exists then, and no other one is new. -/
def MakesPrefixes (permits : Directory → Bool) (cwd : Directory) (dir : List Char)
    (tree : DirectoryTree) : Prop :=
  ∃ fuel made, mkdirR fuel permits cwd dir tree = some (.ok made) ∧
    (∀ ns, ns <+: names dir → (made.resolve (origin cwd dir) ns).isSome) ∧
    ∀ d ∈ made.dirs, d ∈ tree.dirs ∨
      ∃ ns, ns <+: names dir ∧ made.resolve (origin cwd dir) ns = some d

/-- The directories that are missing on the way from the root are those that are missing on the way from
where the path begins. -/
def MissesSame (cwd : Directory) (dir : List Char) (tree : DirectoryTree) : Prop :=
  ∀ d, d ∉ tree.dirs → (Visits (origin cwd dir) (names dir) d ↔ Visits [] (names dir) d)

theorem prefixes_iff :
    ((∀ ns, ns <+: names dir → (made.resolve (origin cwd dir) ns).isSome) ∧
      ∀ d ∈ made.dirs, d ∈ tree.dirs ∨
        ∃ ns, ns <+: names dir ∧ made.resolve (origin cwd dir) ns = some d) ↔
    (∀ d, Visits (origin cwd dir) (names dir) d → d ∈ made.dirs) ∧
      ∀ d ∈ made.dirs, d ∈ tree.dirs ∨ Visits (origin cwd dir) (names dir) d := by
  have hall : (∀ ns, ns <+: names dir → (made.resolve (origin cwd dir) ns).isSome) ↔
      ∀ d, Visits (origin cwd dir) (names dir) d → d ∈ made.dirs := by
    constructor
    · intro h
      exact DirectoryTree.isSome_resolve_iff.mp (h _ (List.prefix_refl _))
    · rintro h ns hns
      rw [DirectoryTree.isSome_resolve_iff]
      rintro d ⟨ms, hms, hwalk⟩
      exact h d ⟨ms, hms.trans hns, hwalk⟩
  rw [hall]
  refine and_congr_right fun h => forall₂_congr fun d _ => or_congr_right ?_
  constructor
  · rintro ⟨ns, hns, hresolve⟩
    exact ⟨ns, hns, (DirectoryTree.resolve_eq_some_iff.mp hresolve).2⟩
  · rintro ⟨ns, hns, hwalk⟩
    refine ⟨ns, hns, DirectoryTree.resolve_eq_some_iff.mpr ⟨?_, hwalk⟩⟩
    rintro c ⟨ms, hms, hc⟩
    exact h c ⟨ms, hms.trans hns, hc⟩

/-- For any argument that ends with a slash. -/
theorem makesPrefixes_dir_iff (hnul : NulFree dir) (hne : dir ≠ [])
    (hslash : ∀ c ∈ dir.getLast?, c = '/') (hfits : dir.length < kMaxFilePathLength)
    (hpermits : ∀ d, Visits [] (names dir) d → permits d = true) :
    MakesPrefixes permits cwd dir tree ↔
      tree.access cwd dir = true ∨ MissesSame cwd dir tree := by
  obtain ⟨made, hmade⟩ := DirectoryTree.exists_ensureAll tree.root_mem hpermits
  have hmem := fun d => DirectoryTree.mem_of_ensureAll (e := d) tree.root_mem hmade
  obtain ⟨fuel, hreturns⟩ := mkdirR_returns permits cwd tree hnul hslash hfits
  rw [hmade] at hreturns
  by_cases haccess : tree.access cwd dir = true
  · rw [if_pos haccess] at hreturns
    refine iff_of_true ⟨fuel, tree, hreturns, prefixes_iff.mpr ⟨?_, fun d hd => .inl hd⟩⟩
      (.inl haccess)
    exact (DirectoryTree.access_iff hne).mp haccess
  · rw [if_neg haccess] at hreturns
    have hmakes : MakesPrefixes permits cwd dir tree ↔
        (∀ d, Visits (origin cwd dir) (names dir) d → d ∈ made.dirs) ∧
          ∀ d ∈ made.dirs, d ∈ tree.dirs ∨ Visits (origin cwd dir) (names dir) d := by
      constructor
      · rintro ⟨fuel', made', hreturns', h⟩
        obtain rfl := Except.ok.inj (mkdirR_unique hreturns hreturns')
        exact prefixes_iff.mp h
      · intro h
        exact ⟨fuel, made, hreturns, prefixes_iff.mpr h⟩
    rw [hmakes, or_iff_right haccess]
    simp only [hmem]
    constructor
    · rintro ⟨hall, honly⟩ d hd
      exact ⟨fun h => (hall d h).resolve_left hd, fun h => (honly d (.inr h)).resolve_left hd⟩
    · intro hsame
      refine ⟨fun d h => ?_, fun d h => ?_⟩
      · by_cases hd : d ∈ tree.dirs
        · exact .inl hd
        · exact .inr ((hsame d hd).mp h)
      · by_cases hd : d ∈ tree.dirs
        · exact .inl hd
        · exact .inr ((hsame d hd).mpr (h.resolve_left hd))

/-- `mkdirR` makes the directories of a file that can be found without it, or whose missing directories
are the same from the root as from where the path begins, as they are for an absolute path. -/
theorem makesPrefixes_iff (hfile : Accepted file) (hmem : '/' ∈ file)
    (hfits : (dirOf file).length < kMaxFilePathLength)
    (hpermits : ∀ d, Visits [] (names (dirOf file)) d → permits d = true) :
    MakesPrefixes permits cwd (dirOf file) tree ↔
      tree.access cwd (dirOf file) = true ∨ MissesSame cwd (dirOf file) tree :=
  makesPrefixes_dir_iff (nulFree_dirOf hfile.nulFree) (dirOf_ne_nil hmem) (getLast_dirOf file) hfits
    hpermits

/-- A tree with nothing but the directory `/p`. -/
def home : DirectoryTree where
  dirs := [[], [['p']]]
  root_mem := by decide
  tail_mem := by decide

/-- The file `/l//a`, with `/p` as working directory. -/
theorem makesPrefixes_iff_absolute :
    MakesPrefixes (fun _ => true) [['p']] (dirOf ['/', 'l', '/', '/', 'a']) home :=
  (makesPrefixes_iff ⟨by decide, by decide, by decide⟩ (by decide) (by decide) fun _ _ => rfl).mpr
    (.inr fun _ _ => Iff.rfl)

/-- The file `l/a`, with `/p` as working directory: `/l` is made and `/p/l` is not. -/
theorem not_makesPrefixes_relative :
    ¬MakesPrefixes (fun _ => true) [['p']] (dirOf ['l', '/', 'a']) home := by
  intro h
  rw [makesPrefixes_dir_iff (nulFree_dirOf (by decide)) (dirOf_ne_nil (by decide)) (getLast_dirOf _)
    (by decide) fun _ _ => rfl] at h
  obtain haccess | hsame := h
  · exact absurd haccess (by decide)
  · have hnames : names (dirOf ['l', '/', 'a']) = [['l']] := by decide
    rw [MissesSame, hnames] at hsame
    have hroot : Visits [] [['l']] [['l']] := ⟨[['l']], List.prefix_refl _, rfl⟩
    have hhome := (hsame [['l']] (by decide)).mpr hroot
    rw [visits_cons, visits_nil] at hhome
    revert hhome
    decide

end Nets.LogFilePath
