import Nets.Verification.LogFilePath.Tokens

/-! # The arrays for paths

The name of a rolled file is put together in an array of the length that a file name may have, although
it is longer than the directory by 23 characters. -/

namespace Nets.LogFilePath

open Library

variable {localtime : ℤ → Option Tm} {now : ℤ} {tms : Tm} {file dir : List Char}

/-- A calendar time of a year with four digits. -/
structure FourDigitYear (tms : Tm) : Prop where
  year : 1000 ≤ tms.year + 1900 ∧ tms.year + 1900 < 10000
  mon : 0 ≤ tms.mon ∧ tms.mon < 12
  mday : 0 ≤ tms.mday ∧ tms.mday ≤ 31
  hour : 0 ≤ tms.hour ∧ tms.hour < 24
  min : 0 ≤ tms.min ∧ tms.min < 60
  sec : 0 ≤ tms.sec ∧ tms.sec ≤ 60

/-- No access of the constructor, whatever directories exist and can be made, or of a rename is outside
of an array. -/
def InBounds (file : List Char) : Prop :=
  (∀ permits cwd tree, ∃ fuel outcome,
    construct fuel permits cwd file tree = some outcome ∧ outcome ≠ .error .outside) ∧
  ∀ localtime now, FourDigitYear (brokenDown localtime now) →
    (renamed localtime now (dirOf file)).isSome

/-! ## Rolled files -/

theorem length_decimal_four {n : ℕ} (hlow : 1000 ≤ n) (hhigh : n < 10000) : (decimal n).length = 4 := by
  rw [decimal_eq_ite, if_neg (by omega), decimal_eq_ite, if_neg (by omega), decimal_eq_ite,
    if_neg (by omega), decimal_eq_ite, if_pos (by omega)]
  rfl

theorem FourDigitYear.length_stamp (h : FourDigitYear tms) : (stamp tms).length = 19 := by
  obtain ⟨⟨hlow, hhigh⟩, hmon, hmday, hhour, hmin, hsec⟩ := h
  have hyear : (decimalInt (tms.year + 1900)).length = 4 := by
    rw [decimalInt, if_neg (by omega)]
    exact length_decimal_four (by omega) (by omega)
  have htwo : ∀ value : ℤ, 0 ≤ value → value < 100 → (padded 2 value).length = 2 :=
    fun value hpos hlt => length_padded (by norm_num) hpos (by omega)
  simp only [stamp, List.length_append, List.length_cons, hyear]
  rw [htwo _ (by omega) (by omega), htwo _ (by omega) (by omega), htwo _ (by omega) (by omega),
    htwo _ (by omega) (by omega), htwo _ (by omega) (by omega)]

theorem nulFree_stamp (tms : Tm) : NulFree (stamp tms) := by
  have hyear := notMem_decimalInt (c := nul) (by decide) (by decide)
  have hpadded := notMem_padded (c := nul) (by decide) (by decide)
  simp only [NulFree, stamp, List.mem_append, List.mem_cons, hyear, hpadded, or_false, false_or]
  decide

/-- The new name is the directory with the time and the suffix, unless that leaves no room for the
NUL. -/
theorem renamed_eq_ite (h : FourDigitYear (brokenDown localtime now)) (hdir : NulFree dir) :
    renamed localtime now dir =
      if dir.length + 23 < kMaxFilePathLength then
        some (dir ++ (stamp (brokenDown localtime now) ++ kLogFileSuffix))
      else none := by
  have hstamp := h.length_stamp
  have hsuffix : kLogFileSuffix.length = 4 := rfl
  obtain ⟨first, hfirst, hholds⟩ := holds_strcpy
    (List.length_replicate : (List.replicate 32 nul).length = 32)
    (nulFree_stamp (brokenDown localtime now)) (by omega)
  obtain ⟨newFilename, hname, hholds⟩ := hholds.strcat (show NulFree kLogFileSuffix by decide)
    (by omega)
  have hlength : (stamp (brokenDown localtime now) ++ kLogFileSuffix).length = 23 := by
    rw [List.length_append]
    omega
  have hdo : renamed localtime now dir = (if dir ≠ [] then do
      let tmpFile ← strcat (List.replicate kMaxFilePathLength nul) dir
      let tmpFile ← strcat tmpFile (stamp (brokenDown localtime now) ++ kLogFileSuffix)
      readString tmpFile
    else some (stamp (brokenDown localtime now) ++ kLogFileSuffix)) := by
    simp only [renamed, hfirst, hname, hholds.readString, Option.bind_eq_bind, Option.bind_some]
    rfl
  rw [hdo]
  by_cases hempty : dir = []
  · subst hempty
    rfl
  · rw [if_pos hempty, (holds_replicate (by decide)).strcat_strcat hdir hholds.nulFree, hlength,
      List.length_nil, Nat.zero_add]
    rfl

/-- Where there is room it is the name under which the file is put aside. -/
theorem renamed_eq_rolledName {f : LogFile} (h : FourDigitYear (brokenDown localtime now))
    (hdir : NulFree f.dir.toList) (hroom : f.dir.toList.length + 23 < kMaxFilePathLength) :
    renamed localtime now f.dir.toList =
      some (f.rolledName (fun now => String.ofList (stamp (brokenDown localtime now))) now).toList := by
  rw [renamed_eq_ite h hdir, if_pos hroom, LogFile.rolledName, String.toList_append,
    String.toList_append, String.toList_ofList]
  rfl

/-! ## The condition -/

/-- Directories are made within the arrays where the directory of the file is shorter than they are. -/
theorem construct_ne_outside (hfile : Accepted file)
    (hfits : (dirOf file).length < kMaxFilePathLength) (permits : Directory → Bool) (cwd : Directory)
    (tree : DirectoryTree) :
    ∃ fuel outcome, construct fuel permits cwd file tree = some outcome ∧
      outcome ≠ .error .outside := by
  have haccepted : ¬(file.length > kMaxFilePathLength ∨ file.length = 0) := by
    rw [not_or, List.length_eq_zero_iff]
    exact ⟨Nat.not_lt.mpr hfile.length_le, hfile.ne_nil⟩
  by_cases hmem : '/' ∈ file
  · obtain ⟨fuel, hreturns⟩ := mkdirR_returns permits cwd tree (nulFree_dirOf hfile.nulFree) (getLast_dirOf file) hfits
    refine ⟨fuel, _, by rw [construct, if_neg haccepted, if_pos hmem, hreturns], ?_⟩
    split
    · exact nofun
    · cases tree.ensureAll permits [] (names (dirOf file)) with
      | none => exact nofun
      | some made => exact nofun
  · exact ⟨0, .ok tree, by rw [construct, if_neg haccepted, if_neg hmem], nofun⟩

/-- A time in the year 2024. -/
def someTime : Tm := ⟨124, 0, 15, 10, 30, 0⟩

theorem fourDigitYear_someTime : FourDigitYear someTime := by
  constructor <;> decide

/-- A directory that leaves too little room. -/
theorem not_inBounds_of_long (hnul : NulFree file)
    (h : kMaxFilePathLength ≤ (dirOf file).length + 23) : ¬InBounds file := by
  rintro ⟨-, hrenamed⟩
  have hyear : FourDigitYear (brokenDown (fun _ => some someTime) 0) := fourDigitYear_someTime
  have hsome := hrenamed (fun _ => some someTime) 0 hyear
  rw [renamed_eq_ite hyear (nulFree_dirOf hnul), if_neg (Nat.not_lt.mpr h)] at hsome
  cases hsome

/-- All accesses are in the arrays exactly where the name of a rolled file and its NUL fit into one. -/
theorem inBounds_iff (hfile : Accepted file) :
    InBounds file ↔ (dirOf file).length + 23 < kMaxFilePathLength := by
  constructor
  · intro h
    by_contra hlong
    exact not_inBounds_of_long hfile.nulFree (Nat.not_lt.mp hlong) h
  · intro hshort
    refine ⟨construct_ne_outside hfile (by omega), fun localtime now hyear => ?_⟩
    rw [renamed_eq_ite hyear (nulFree_dirOf hfile.nulFree), if_pos hshort]
    rfl

theorem inBounds_iff_short : InBounds ['/', 't', '/', 'l'] :=
  (inBounds_iff ⟨by decide, by decide, by decide⟩).mpr (by decide)

/-- Two directories with names of 243 characters, and a file. -/
def longFile : List Char :=
  '/' :: List.replicate 243 'd' ++ '/' :: List.replicate 243 'd' ++ ['/', 'l']

theorem not_inBounds_longFile : ¬(Accepted longFile → InBounds longFile) := by
  have hdir : dirOf longFile = '/' :: List.replicate 243 'd' ++ '/' :: List.replicate 243 'd' ++ ['/'] :=
    dirOf_append_slash _ (by decide)
  have hnul : NulFree longFile := by
    simp only [NulFree, longFile, List.mem_append, List.mem_cons, List.mem_replicate]
    decide
  intro h
  refine not_inBounds_of_long hnul ?_ (h ⟨hnul, List.cons_ne_nil _ _, ?_⟩)
  · rw [hdir]
    simp only [List.length_append, List.length_cons, List.length_replicate]
    decide
  · simp only [longFile, List.length_append, List.length_cons, List.length_replicate]
    decide

end Nets.LogFilePath
