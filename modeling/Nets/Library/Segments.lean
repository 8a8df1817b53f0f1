import Mathlib.Data.List.Flatten
import Mathlib.Data.List.Nodup
import Nets.Library.Files

/-! # Files written in pieces

One file is written at a time, and put aside under another name from time to time. Whatever names are
used, no piece is cut in two, and the files that are left have the pieces in their order. -/

namespace Nets.Library

variable {ν β π : Type*}

/-- A file that was written, with what it had before and the pieces behind that. -/
structure Segment (ν β π : Type*) where
  name : ν
  old : List β
  pieces : List π

/-- The files that were put aside, the first of them in front, and the file that is being written: each
has pieces that were written one after the other, the ones of a file before those of the next. A file that
was put aside may be gone, with its pieces. The other files are as they were. -/
structure Segmented (before : Files ν β) (text : π → List β) (active : ν) (pieces : List π)
    (aside : List (Segment ν β π)) (current : Segment ν β π) (files : Files ν β) : Prop where
  named : current.name = active
  names : ((aside ++ [current]).map Segment.name).Nodup
  order : ∃ chunks : List (List π), (aside.map Segment.pieces).Sublist chunks ∧
    chunks.flatten ++ current.pieces = pieces
  old : ∀ segment ∈ aside ++ [current], segment.old = [] ∨ segment.old = before.contents active
  contents : ∀ segment ∈ aside ++ [current],
    files.contents segment.name = segment.old ++ segment.pieces.flatMap text
  others : ∀ name ∉ (aside ++ [current]).map Segment.name, files.contents name = before.contents name

namespace Segmented

variable {before files : Files ν β} {text : π → List β} {active : ν} {pieces : List π}
  {aside : List (Segment ν β π)} {current : Segment ν β π}

/-- Read from the first file to the last, the pieces come in their order. -/
theorem sublist (h : Segmented before text active pieces aside current files) :
    ((aside ++ [current]).flatMap Segment.pieces).Sublist pieces := by
  obtain ⟨chunks, hchunks, rfl⟩ := h.order
  rw [List.flatMap_append, List.flatMap_singleton]
  exact hchunks.flatten.append (.refl _)

/-- Only the names of the files count, and what they have. -/
theorem congr (h : Segmented before text active pieces aside current files) {files' : Files ν β}
    (hsame : ∀ name, files'.contents name = files.contents name) :
    Segmented before text active pieces aside current files' where
  named := h.named
  names := h.names
  order := h.order
  old := h.old
  contents segment hsegment := (hsame segment.name).trans (h.contents segment hsegment)
  others name hname := (hsame name).trans (h.others name hname)

/-- The name of the active file is not that of one that was put aside. -/
theorem names_split (h : Segmented before text active pieces aside current files) :
    (aside.map Segment.name).Nodup ∧ active ∉ aside.map Segment.name := by
  have hnames := h.names
  rw [List.map_append, List.map_singleton, h.named, ← List.concat_eq_append, List.nodup_concat] at hnames
  exact hnames.symm

variable [DecidableEq ν]

theorem openAppend (before : Files ν β) (text : π → List β) (active : ν) :
    Segmented before text active [] [] ⟨active, before.contents active, []⟩
      (before.openAppend active) where
  named := rfl
  names := List.nodup_singleton _
  order := ⟨[], .refl _, rfl⟩
  old segment hsegment := by
    rw [List.mem_singleton.mp hsegment]
    exact .inr rfl
  contents segment hsegment := by
    rw [List.mem_singleton.mp hsegment]
    simp
  others name _ := Files.contents_openAppend active name

/-- More pieces for the active file. -/
theorem append (h : Segmented before text active pieces aside current files) (more : List π) :
    Segmented before text active (pieces ++ more) aside
      { current with pieces := current.pieces ++ more }
      (files.append active (more.flatMap text)) := by
  have hmap : (aside ++ [{ current with pieces := current.pieces ++ more }]).map Segment.name =
      (aside ++ [current]).map Segment.name := by
    rw [List.map_append, List.map_append]
    rfl
  refine ⟨h.named, ?_, ?_, fun segment hsegment => ?_, fun segment hsegment => ?_, fun name hname => ?_⟩
  · rw [hmap]
    exact h.names
  · obtain ⟨chunks, hchunks, hflat⟩ := h.order
    refine ⟨chunks, hchunks, ?_⟩
    rw [← hflat, List.append_assoc]
  · rcases List.mem_append.mp hsegment with haside | hcurrent
    · exact h.old segment (List.mem_append_left _ haside)
    · rw [List.mem_singleton.mp hcurrent]
      exact h.old current (List.mem_append_right _ (List.mem_singleton_self _))
  · rcases List.mem_append.mp hsegment with haside | hcurrent
    · have hne : segment.name ≠ active := by
        rintro rfl
        exact h.names_split.2 (List.mem_map_of_mem haside)
      rw [Files.contents_append_of_ne hne]
      exact h.contents segment (List.mem_append_left _ haside)
    · have hcontents := h.contents current (List.mem_append_right _ (List.mem_singleton_self _))
      rw [h.named] at hcontents
      rw [List.mem_singleton.mp hcurrent]
      change (files.append active (more.flatMap text)).contents current.name = _
      rw [h.named, Files.contents_append_self, hcontents, List.flatMap_append, List.append_assoc]
  · rw [hmap] at hname
    have hne : name ≠ active := by
      rintro rfl
      apply hname
      rw [List.map_append, List.map_singleton, h.named]
      exact List.mem_append_right _ (List.mem_singleton_self _)
    rw [Files.contents_append_of_ne hne]
    exact h.others name hname

/-- The active file is put aside, and a new one of its name is begun. A file that had the new name is
gone. -/
theorem rotate_of_ne (h : Segmented before text active pieces aside current files) {new : ν}
    (hne : new ≠ active) (hsome : (files active).isSome = true) :
    Segmented before text active pieces
      (aside.filter (fun segment => segment.name ≠ new) ++ [{ current with name := new }])
      ⟨active, [], []⟩ ((files.rename active new).openAppend active) := by
  obtain ⟨hnames, hactive⟩ := h.names_split
  have hkept : ∀ segment ∈ aside.filter (fun segment => segment.name ≠ new),
      segment ∈ aside ∧ segment.name ≠ new := by
    intro segment hsegment
    obtain ⟨hmem, hname⟩ := List.mem_filter.mp hsegment
    exact ⟨hmem, of_decide_eq_true hname⟩
  have hfiltered := hnames.sublist
    ((List.filter_sublist (p := fun segment => decide (segment.name ≠ new)) (l := aside)).map Segment.name)
  refine ⟨rfl, ?_, ?_, fun segment hsegment => ?_, fun segment hsegment => ?_, fun name hname => ?_⟩
  · rw [List.map_append, List.map_append, List.map_singleton, List.map_singleton,
      ← List.concat_eq_append, ← List.concat_eq_append, List.nodup_concat, List.nodup_concat,
      List.concat_eq_append, List.mem_append, List.mem_singleton]
    refine ⟨?_, ?_, hfiltered⟩
    · rintro (hmem | rfl)
      · obtain ⟨segment, hsegment, hname⟩ := List.mem_map.mp hmem
        exact hactive (List.mem_map.mpr ⟨segment, (hkept segment hsegment).1, hname⟩)
      · exact hne rfl
    · intro hmem
      obtain ⟨segment, hsegment, hname⟩ := List.mem_map.mp hmem
      exact (hkept segment hsegment).2 hname
  · obtain ⟨chunks, hchunks, hflat⟩ := h.order
    refine ⟨chunks ++ [current.pieces], ?_, ?_⟩
    · rw [List.map_append]
      exact ((List.filter_sublist.map _).trans hchunks).append (.refl _)
    · rw [List.flatten_append, List.flatten_singleton, List.append_nil]
      exact hflat
  · rcases List.mem_append.mp hsegment with hmem | hlast
    · rcases List.mem_append.mp hmem with haside | hmoved
      · exact h.old segment (List.mem_append_left _ (hkept segment haside).1)
      · rw [List.mem_singleton.mp hmoved]
        exact h.old current (List.mem_append_right _ (List.mem_singleton_self _))
    · rw [List.mem_singleton.mp hlast]
      exact .inl rfl
  · rw [Files.contents_openAppend]
    rcases List.mem_append.mp hsegment with hmem | hlast
    · rcases List.mem_append.mp hmem with haside | hmoved
      · obtain ⟨hmem, hname⟩ := hkept segment haside
        have hother : segment.name ≠ active := by
          rintro rfl
          exact hactive (List.mem_map_of_mem hmem)
        rw [Files.contents_rename_of_ne hother hname]
        exact h.contents segment (List.mem_append_left _ hmem)
      · rw [List.mem_singleton.mp hmoved]
        change (files.rename active new).contents new = _
        rw [Files.contents_rename_new hsome, ← h.named]
        exact h.contents current (List.mem_append_right _ (List.mem_singleton_self _))
    · rw [List.mem_singleton.mp hlast]
      exact Files.contents_rename_old hne.symm hsome
  · rw [Files.contents_openAppend]
    rw [List.map_append, List.map_append, List.mem_append, List.mem_append, not_or, not_or,
      List.map_singleton, List.map_singleton, List.mem_singleton, List.mem_singleton] at hname
    obtain ⟨⟨hmem, hnew⟩, hother⟩ := hname
    rw [Files.contents_rename_of_ne hother hnew]
    apply h.others
    rw [List.map_append, List.map_singleton, h.named, List.mem_append, List.mem_singleton]
    rintro (haside | rfl)
    · obtain ⟨segment, hsegment, rfl⟩ := List.mem_map.mp haside
      exact hmem (List.mem_map_of_mem (List.mem_filter.mpr ⟨hsegment, decide_eq_true hnew⟩))
    · exact hother rfl

/-- A file that takes its own name goes on as it is. -/
theorem contents_rename_self (files : Files ν β) (active name : ν) :
    (files.rename active active).contents name = files.contents name := by
  cases hdata : files active with
  | none => rw [Files.rename, hdata]
  | some data =>
      rw [Files.rename, hdata]
      by_cases hname : name = active
      · simp [Files.contents, hname, hdata]
      · simp [Files.contents, hname]

/-- The active file is put aside, whatever the new name is, and goes on empty, or with what it has. -/
theorem rotate (h : Segmented before text active pieces aside current files) (new : ν) :
    ∃ aside' current', Segmented before text active pieces aside' current'
      ((files.rename active new).openAppend active) := by
  by_cases hnew : new = active
  · refine ⟨aside, current, h.congr fun name => ?_⟩
    rw [Files.contents_openAppend, hnew, contents_rename_self]
  · cases hdata : files active with
    | none =>
        refine ⟨aside, current, h.congr fun name => ?_⟩
        rw [Files.contents_openAppend, Files.rename, hdata]
    | some data => exact ⟨_, _, h.rotate_of_ne hnew (by rw [hdata]; rfl)⟩

end Segmented

end Nets.Library
