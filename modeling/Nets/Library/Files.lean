import Mathlib.Data.List.Basic
import Mathlib.Logic.Function.Basic
import Mathlib.Tactic.Common

/-! # Named files

What the files of a directory hold, by name, under appending and renaming. Renaming replaces a file
that has the new name already. -/

namespace Nets.Library

/-- `none` where there is no file of the name. -/
abbrev Files (ν β : Type*) := ν → Option (List β)

namespace Files

variable {ν β : Type*} (files : Files ν β)

def contents (name : ν) : List β := (files name).getD []

variable [DecidableEq ν]

/-- Open for appending: the file is there afterwards. -/
def openAppend (name : ν) : Files ν β := Function.update files name (some (files.contents name))

def append (name : ν) (data : List β) : Files ν β :=
  Function.update files name (some (files.contents name ++ data))

def rename (old new : ν) : Files ν β :=
  match files old with
  | none => files
  | some data => Function.update (Function.update files old none) new (some data)

variable {files} {name other old new : ν}

@[simp] theorem contents_openAppend (name other : ν) :
    (files.openAppend name).contents other = files.contents other := by
  by_cases h : other = name
  · subst h
    simp [contents, openAppend]
  · simp [contents, openAppend, h]

theorem openAppend_isSome (name : ν) : (files.openAppend name name).isSome = true := by
  simp [openAppend]

@[simp] theorem contents_append_self (data : List β) :
    (files.append name data).contents name = files.contents name ++ data := by
  simp [contents, append]

theorem contents_append_of_ne (h : other ≠ name) (data : List β) :
    (files.append name data).contents other = files.contents other := by
  simp [contents, append, h]

theorem append_isSome (name : ν) (data : List β) :
    (files.append name data name).isSome = true := by
  simp [append]

theorem contents_rename_new (h : (files old).isSome = true) :
    (files.rename old new).contents new = files.contents old := by
  obtain ⟨data, hdata⟩ := Option.isSome_iff_exists.mp h
  simp [contents, rename, hdata]

theorem contents_rename_old (h : old ≠ new) (hold : (files old).isSome = true) :
    (files.rename old new).contents old = [] := by
  obtain ⟨data, hdata⟩ := Option.isSome_iff_exists.mp hold
  simp [contents, rename, hdata, h]

theorem contents_rename_of_ne (hold : other ≠ old) (hnew : other ≠ new) :
    (files.rename old new).contents other = files.contents other := by
  cases hdata : files old with
  | none => simp [rename, hdata]
  | some data => simp [contents, rename, hdata, hold, hnew]

/-! ## Rotation

A file that is written is renamed from time to time, and a new one of its name is begun. -/

variable (files) in
/-- What the files of the given names hold, in their order. -/
def concat (names : List ν) : List β := names.flatMap files.contents

theorem concat_append_of_notMem {names : List ν} (h : name ∉ names) (data : List β) :
    (files.append name data).concat names = files.concat names := by
  apply List.flatMap_congr
  intro other hother
  exact contents_append_of_ne (ne_of_mem_of_not_mem hother h) data

/-- Appending to the active file adds to the end of the whole. -/
theorem concat_write {names : List ν} (h : name ∉ names) (data : List β) :
    (files.append name data).concat names ++ (files.append name data).contents name =
      files.concat names ++ files.contents name ++ data := by
  rw [concat_append_of_notMem h, contents_append_self, List.append_assoc]

theorem concat_rename_of_notMem {names : List ν} (hold : old ∉ names) (hnew : new ∉ names) :
    (files.rename old new).concat names = files.concat names := by
  apply List.flatMap_congr
  intro other hother
  exact contents_rename_of_ne (ne_of_mem_of_not_mem hother hold) (ne_of_mem_of_not_mem hother hnew)

/-- To rename the active file to a name that is not taken moves its contents to the end of what has
been rotated, and nothing is lost. -/
theorem concat_rotate {names : List ν} (hname : name ∉ names) (hnew : new ∉ names)
    (hne : name ≠ new) (hactive : (files name).isSome = true) :
    ((files.rename name new).openAppend name).concat (names ++ [new]) ++
        ((files.rename name new).openAppend name).contents name =
      files.concat names ++ files.contents name := by
  have hopen : ((files.rename name new).openAppend name).concat (names ++ [new]) =
      (files.rename name new).concat (names ++ [new]) := by
    apply List.flatMap_congr
    intro other _
    exact contents_openAppend name other
  have hlast : (files.rename name new).concat (names ++ [new]) =
      (files.rename name new).concat names ++ (files.rename name new).contents new := by
    simp [concat]
  rw [hopen, hlast, contents_openAppend, contents_rename_old hne hactive, List.append_nil,
    concat_rename_of_notMem hname hnew, contents_rename_new hactive]

end Files

end Nets.Library
