import Nets.Program.LogFilePath

/-! # The tokens of a directory

`mkdirR` goes through the names of its argument and ensures the directories on the way along them, from
the root. Its arrays are large enough where the argument and a NUL are no longer than they are. -/

namespace Nets.LogFilePath

open Library

variable {permits : Directory → Bool} {cwd d : Directory} {tree : DirectoryTree} {scan : Scan}
  {start : ℕ} {file dir base path text spStr rest : List Char}

/-! ## The directory of a file -/

/-- A C string the constructor does not throw at. -/
structure Accepted (file : List Char) : Prop where
  nulFree : NulFree file
  ne_nil : file ≠ []
  length_le : file.length ≤ kMaxFilePathLength

theorem dirOf_append_slash (dir : List Char) (hbase : '/' ∉ base) :
    dirOf (dir ++ '/' :: base) = dir ++ ['/'] := by
  have hall : ∀ c ∈ base.reverse, decide (c ≠ '/') = true := by
    intro c hc
    rw [decide_eq_true_eq]
    rintro rfl
    exact hbase (List.mem_reverse.mp hc)
  rw [dirOf, List.reverse_append, List.reverse_cons, List.append_assoc,
    List.dropWhile_append_of_pos hall]
  simp

theorem dirOf_of_notMem (h : '/' ∉ file) : dirOf file = [] := by
  rw [dirOf, List.reverse_eq_nil_iff, List.dropWhile_eq_nil_iff]
  intro c hc
  rw [decide_eq_true_eq]
  rintro rfl
  exact h (List.mem_reverse.mp hc)

/-- The slash is the last character, and what is behind it has none. -/
theorem exists_dirOf (h : '/' ∈ file) :
    ∃ dir base, '/' ∉ base ∧ file = dir ++ '/' :: base ∧ dirOf file = dir ++ ['/'] := by
  obtain ⟨base, dir, heq, hbase⟩ := List.eq_append_cons_of_mem (List.mem_reverse.mpr h)
  have hfile : file = dir.reverse ++ '/' :: base.reverse := by
    rw [← List.reverse_reverse file, heq]
    simp
  have hbase' : '/' ∉ base.reverse := mt List.mem_reverse.mp hbase
  exact ⟨dir.reverse, base.reverse, hbase', hfile, hfile ▸ dirOf_append_slash _ hbase'⟩

theorem getLast_dirOf (file : List Char) : ∀ c ∈ (dirOf file).getLast?, c = '/' := by
  intro c hc
  by_cases hmem : '/' ∈ file
  · obtain ⟨dir, base, -, -, heq⟩ := exists_dirOf hmem
    rw [heq, List.getLast?_concat, Option.mem_some_iff] at hc
    exact hc.symm
  · rw [dirOf_of_notMem hmem] at hc
    cases hc

theorem dirOf_ne_nil (h : '/' ∈ file) : dirOf file ≠ [] := by
  obtain ⟨dir, base, -, -, heq⟩ := exists_dirOf h
  rw [heq]
  exact List.append_ne_nil_of_right_ne_nil dir (List.cons_ne_nil _ _)

theorem nulFree_dirOf (h : NulFree file) : NulFree (dirOf file) := fun hmem =>
  h (List.mem_reverse.mp (List.dropWhile_subset _ (List.mem_reverse.mp hmem)))

/-! ## One token -/

/-- What the outcome of a library call is reported as. -/
def reported {α : Type} : Option α → Except Failure α
  | some a => .ok a
  | none => .error .fileCreate

/-- A token is put behind a slash in `path`, and its directory is ensured. -/
theorem mkdirNext_eq (permits : Directory → Bool) (cwd : Directory)
    (hpath : Holds kMaxFilePathLength path text) (hnul : NulFree spStr) (hslash : '/' ∉ spStr)
    (hne : spStr ≠ [])
    (hfits : text.length + spStr.length + 1 < kMaxFilePathLength)
    (habsolute : text = [] ∨ text.head? = some '/')
    (hresolve : tree.resolve [] (names text) = some d) :
    ∃ path', Holds kMaxFilePathLength path' (text ++ '/' :: spStr) ∧
      mkdirNext permits cwd path spStr tree =
        reported ((tree.ensure permits d spStr).map fun tree => (path', tree)) := by
  obtain ⟨path₁, hpath₁, hholds₁⟩ := hpath.strcat (show NulFree ['/'] by decide) (by
    rw [List.length_singleton]
    omega)
  obtain ⟨path₂, hpath₂, hholds₂⟩ := hholds₁.strcat hnul (by
    rw [List.length_append, List.length_singleton]
    omega)
  rw [List.append_assoc, List.singleton_append] at hholds₂
  have horigin : origin cwd (text ++ '/' :: spStr) = [] := by
    obtain rfl | hhead := habsolute
    · rfl
    · rw [origin, List.head?_append, hhead]
      rfl
  have hnames : names (text ++ '/' :: spStr) = names text ++ [spStr] := by
    rw [names_append_slash, names_of_notMem hslash hne]
  have hensure := tree.ensure_eq_mkdir permits
    (List.append_ne_nil_of_right_ne_nil text (List.cons_ne_nil '/' spStr)) hnames
    (horigin.symm ▸ hresolve)
  refine ⟨path₂, hholds₂, ?_⟩
  rw [hensure, mkdirNext, hpath₁]
  simp only [within, bind, Except.bind, hpath₂, hholds₂.readString]
  split
  · rfl
  · cases tree.mkdir permits cwd (text ++ '/' :: spStr) with
    | none => rfl
    | some tree => rfl

/-! ## The loop -/

/-- A round begins: `text` has been put together, and `rest` is still to be read. -/
structure Scanning (rest text : List Char) (d : Directory) (start : ℕ) (scan : Scan) : Prop where
  dirPtr : scan.dirPtr = some start
  tmpDir : ∃ after, scan.tmpDir.drop start = rest ++ nul :: after
  nulFree : NulFree rest
  slash : ∀ c ∈ rest.getLast?, c = '/'
  path : Holds kMaxFilePathLength scan.path text
  fits : text.length + rest.length < kMaxFilePathLength
  absolute : text = [] ∨ text.head? = some '/'
  resolved : scan.tree.resolve [] (names text) = some d

namespace Scanning

theorem rest_nulFree (h : Scanning (spStr ++ '/' :: rest) text d start scan) : NulFree rest := by
  intro hmem
  exact h.nulFree (List.mem_append_right _ (List.mem_cons_of_mem _ hmem))

theorem rest_slash (h : Scanning (spStr ++ '/' :: rest) text d start scan) :
    ∀ c ∈ rest.getLast?, c = '/' := by
  intro c hc
  apply h.slash
  rw [List.getLast?_append, List.getLast?_cons, Option.mem_def.mp hc]
  rfl

/-- The token of the next round. -/
theorem strsep_eq (h : Scanning (spStr ++ '/' :: rest) text d start scan) (hslash : '/' ∉ spStr) :
    ∃ tmpDir, strsep scan.tmpDir start '/' =
        some (tmpDir, spStr, some (start + spStr.length + 1)) ∧
      ∃ after, tmpDir.drop (start + spStr.length + 1) = rest ++ nul :: after := by
  obtain ⟨after, hdrop⟩ := h.tmpDir
  rw [List.append_assoc, List.cons_append] at hdrop
  obtain ⟨tmpDir, hstrsep, hafter⟩ :=
    strsep_of_delimiter hdrop (fun hmem => h.nulFree (List.mem_append_left _ hmem)) hslash (by decide)
  exact ⟨tmpDir, hstrsep, after, hafter⟩

/-- Slashes in a row. -/
theorem round_empty (permits : Directory → Bool) (cwd : Directory)
    (h : Scanning ([] ++ '/' :: rest) text d start scan) :
    ∃ scan', mkdirRound permits cwd scan = .inl scan' ∧ scan'.tree = scan.tree ∧
      Scanning rest text d (start + 1) scan' := by
  obtain ⟨tmpDir, hstrsep, hafter⟩ := h.strsep_eq List.not_mem_nil
  refine ⟨{ scan with tmpDir, dirPtr := some (start + 1) }, ?_, rfl, rfl, hafter,
    h.rest_nulFree, h.rest_slash, h.path, ?_, h.absolute, h.resolved⟩
  · rw [mkdirRound, h.dirPtr]
    simp only [hstrsep]
    rfl
  · have hfits := h.fits
    rw [List.length_append, List.length_cons] at hfits
    omega

/-- The round for a name. -/
theorem round_name (permits : Directory → Bool) (cwd : Directory)
    (h : Scanning (spStr ++ '/' :: rest) text d start scan) (hslash : '/' ∉ spStr)
    (hne : spStr ≠ []) :
    (∃ scan', mkdirRound permits cwd scan = .inl scan' ∧
        scan.tree.ensure permits d spStr = some scan'.tree ∧
        Scanning rest (text ++ '/' :: spStr) (descend d spStr) (start + spStr.length + 1) scan') ∨
      mkdirRound permits cwd scan = .inr (.error .fileCreate) ∧
        scan.tree.ensure permits d spStr = none := by
  obtain ⟨tmpDir, hstrsep, hafter⟩ := h.strsep_eq hslash
  have hfits := h.fits
  rw [List.length_append, List.length_cons] at hfits
  obtain ⟨path, hpath, hnext⟩ := mkdirNext_eq permits cwd h.path
    (fun hmem => h.nulFree (List.mem_append_left _ hmem)) hslash hne (by omega) h.absolute h.resolved
  have hpos := List.length_pos_iff.mpr hne
  cases hensure : scan.tree.ensure permits d spStr with
  | none =>
      rw [hensure] at hnext
      refine .inr ⟨?_, rfl⟩
      rw [mkdirRound, h.dirPtr]
      simp only [hstrsep, if_pos hpos, hnext, Option.map_none, reported]
  | some tree =>
      rw [hensure] at hnext
      have hround : mkdirRound permits cwd scan =
          .inl ⟨tmpDir, some (start + spStr.length + 1), path, tree⟩ := by
        rw [mkdirRound, h.dirPtr]
        simp only [hstrsep, if_pos hpos, hnext, Option.map_some, reported]
      refine .inl ⟨_, hround, rfl, rfl, hafter, h.rest_nulFree, h.rest_slash, hpath, ?_, .inr ?_, ?_⟩
      · rw [List.length_append, List.length_cons]
        omega
      · obtain htext | hhead := h.absolute
        · rw [htext]
          rfl
        · rw [List.head?_append, hhead]
          rfl
      · rw [names_append_slash, names_of_notMem hslash hne]
        exact DirectoryTree.resolve_of_ensure h.resolved hensure

/-- The last character of what is left would be a slash. -/
theorem eq_nil (h : Scanning rest text d start scan) (hmem : '/' ∉ rest) : rest = [] := by
  cases hlast : rest.getLast? with
  | none => exact List.getLast?_eq_none_iff.mp hlast
  | some c => exact absurd (h.slash c hlast ▸ List.mem_of_getLast? hlast) hmem

/-- The loop ends after the empty token behind the last slash. -/
theorem round_last (permits : Directory → Bool) (cwd : Directory)
    (h : Scanning [] text d start scan) :
    Loop.Returns (mkdirRound permits cwd) scan (.ok scan.tree) := by
  obtain ⟨after, hdrop⟩ := h.tmpDir
  have hstrsep := strsep_of_nul hdrop List.not_mem_nil (show '/' ∉ [] from List.not_mem_nil)
  have hround : mkdirRound permits cwd scan = .inl { scan with dirPtr := none } := by
    rw [mkdirRound, h.dirPtr]
    simp only [hstrsep]
    rfl
  rw [Loop.returns_iff_of_continue hround]
  exact Loop.returns_of_leave rfl

/-- The directories of all remaining names are ensured. -/
theorem returns (permits : Directory → Bool) (cwd : Directory)
    (h : Scanning rest text d start scan) :
    Loop.Returns (mkdirRound permits cwd) scan
      (reported (scan.tree.ensureAll permits d (names rest))) := by
  induction hlength : rest.length using Nat.strongRecOn generalizing rest text d start scan with
  | ind n ih =>
      by_cases hmem : '/' ∈ rest
      · obtain ⟨spStr, rest, rfl, hslash⟩ := List.eq_append_cons_of_mem hmem
        have hlt : rest.length < n := by
          rw [← hlength, List.length_append, List.length_cons]
          omega
        rw [names_append_slash]
        by_cases hne : spStr = []
        · subst hne
          obtain ⟨scan', hround, htree, hnext⟩ := h.round_empty permits cwd
          rw [Loop.returns_iff_of_continue hround, ← htree]
          exact ih rest.length hlt hnext rfl
        · rw [names_of_notMem hslash hne, List.singleton_append, DirectoryTree.ensureAll]
          obtain ⟨scan', hround, hensure, hnext⟩ | ⟨hround, hensure⟩ :=
            h.round_name permits cwd hslash hne
          · rw [Loop.returns_iff_of_continue hround, hensure]
            exact ih rest.length hlt hnext rfl
          · rw [hensure]
            exact Loop.returns_of_leave hround
      · obtain rfl := h.eq_nil hmem
        exact h.round_last permits cwd

end Scanning

/-! ## The function -/

/-- The first round. -/
theorem scanning_initial (tree : DirectoryTree) (hnul : NulFree dir)
    (hslash : ∀ c ∈ dir.getLast?, c = '/') (hfits : dir.length < kMaxFilePathLength) :
    ∃ tmpDir, memcpy (List.replicate kMaxFilePathLength nul) dir = some tmpDir ∧
      Scanning dir [] [] 0
        ⟨tmpDir, some 0, List.replicate kMaxFilePathLength nul, tree⟩ := by
  have hzeros : (List.replicate kMaxFilePathLength nul).drop dir.length =
      nul :: List.replicate (kMaxFilePathLength - dir.length - 1) nul := by
    rw [List.drop_replicate, ← List.replicate_succ]
    congr 1
    omega
  refine ⟨dir ++ nul :: List.replicate (kMaxFilePathLength - dir.length - 1) nul, ?_, rfl, ⟨_, rfl⟩,
    hnul, hslash, holds_replicate (by decide), ?_, .inl rfl, if_pos tree.root_mem⟩
  · rw [memcpy, if_pos (by rw [List.length_replicate]; exact hfits.le), hzeros]
  · rw [List.length_nil, Nat.zero_add]
    exact hfits

/-- The tree that is left: it is as it was where the directory could be found. -/
theorem mkdirR_returns (permits : Directory → Bool) (cwd : Directory) (tree : DirectoryTree)
    (hnul : NulFree dir) (hslash : ∀ c ∈ dir.getLast?, c = '/')
    (hfits : dir.length < kMaxFilePathLength) :
    ∃ fuel, mkdirR fuel permits cwd dir tree =
      some (if tree.access cwd dir then .ok tree
        else reported (tree.ensureAll permits [] (names dir))) := by
  by_cases haccess : tree.access cwd dir
  · refine ⟨0, ?_⟩
    rw [mkdirR, if_pos haccess, if_pos haccess]
  · obtain ⟨tmpDir, hmemcpy, hscanning⟩ := scanning_initial tree hnul hslash hfits
    obtain ⟨fuel, hrun⟩ := hscanning.returns permits cwd
    refine ⟨fuel, ?_⟩
    rw [mkdirR, if_neg haccess, hmemcpy, if_neg haccess]
    exact hrun

/-- More rounds never change an outcome. -/
theorem mkdirR_unique {fuel fuel' : ℕ} {outcome outcome' : Except Failure DirectoryTree}
    (h : mkdirR fuel permits cwd dir tree = some outcome)
    (h' : mkdirR fuel' permits cwd dir tree = some outcome') : outcome = outcome' := by
  rw [mkdirR] at h h'
  split_ifs at h h'
  · exact Option.some.inj (h.symm.trans h')
  · cases hmemcpy : memcpy (List.replicate kMaxFilePathLength nul) dir with
    | none =>
        rw [hmemcpy] at h h'
        exact Option.some.inj (h.symm.trans h')
    | some tmpDir =>
        rw [hmemcpy] at h h'
        exact Loop.Returns.unique ⟨fuel, h⟩ ⟨fuel', h'⟩

end Nets.LogFilePath
