import Nets.Library.Directories
import Nets.Library.Loop
import Nets.Program.LogFile
import Nets.Program.LogFormatter

/-! # Paths of log files

The constructor, `mkdirR` and `renameByNowTime` of `base/log/LogFile.cpp`, with the arrays in which they
put paths together. -/

namespace Nets.LogFilePath

open Library

def kLogFileSuffix : List Char := ['.', 'l', 'o', 'g']

/-- `outside` is an access outside of an array. -/
inductive Failure where
  | outside
  | invalidArgument
  | fileCreate
  deriving DecidableEq

def within {α : Type} : Option α → Except Failure α
  | some a => .ok a
  | none => .error .outside

/-! ## Directories -/

/-- Up to and with the last `/`; empty when there is none. -/
def dirOf (file : List Char) : List Char := (file.reverse.dropWhile (· ≠ '/')).reverse

/-- The variables of the loop in `mkdirR`. -/
structure Scan where
  tmpDir : List Char
  dirPtr : Option ℕ
  path : List Char
  tree : DirectoryTree

/-- What is done for a token that is not empty. -/
def mkdirNext (permits : Directory → Bool) (cwd : Directory) (path spStr : List Char)
    (tree : DirectoryTree) : Except Failure (List Char × DirectoryTree) := do
  let path ← within (strcat path ['/'])
  let path ← within (strcat path spStr)
  let text ← within (readString path)
  if tree.access cwd text then return (path, tree)
  else
    match tree.mkdir permits cwd text with
    | some tree => return (path, tree)
    | none => throw .fileCreate

def mkdirRound (permits : Directory → Bool) (cwd : Directory) (scan : Scan) :
    Scan ⊕ Except Failure DirectoryTree :=
  match scan.dirPtr with
  | none => .inr (.ok scan.tree)
  | some dirPtr =>
    match strsep scan.tmpDir dirPtr '/' with
    | none => .inr (.error .outside)
    | some (tmpDir, spStr, dirPtr) =>
      if spStr.length > 0 then
        match mkdirNext permits cwd scan.path spStr scan.tree with
        | .ok (path, tree) => .inl ⟨tmpDir, dirPtr, path, tree⟩
        | .error failure => .inr (.error failure)
      else .inl { scan with tmpDir, dirPtr }

/-- With the number of rounds the loop may take. -/
def mkdirR (fuel : ℕ) (permits : Directory → Bool) (cwd : Directory) (multiLevelDir : List Char)
    (tree : DirectoryTree) : Option (Except Failure DirectoryTree) :=
  if tree.access cwd multiLevelDir then some (.ok tree)
  else
    match memcpy (List.replicate kMaxFilePathLength nul) multiLevelDir with
    | none => some (.error .outside)
    | some tmpDir =>
      Loop.run (mkdirRound permits cwd) fuel
        ⟨tmpDir, some 0, List.replicate kMaxFilePathLength nul, tree⟩

/-- The constructor until it opens the file. -/
def construct (fuel : ℕ) (permits : Directory → Bool) (cwd : Directory) (file : List Char)
    (tree : DirectoryTree) : Option (Except Failure DirectoryTree) :=
  if file.length > kMaxFilePathLength ∨ file.length = 0 then some (.error .invalidArgument)
  else if '/' ∈ file then mkdirR fuel permits cwd (dirOf file) tree
  else some (.ok tree)

/-! ## Rolled files -/

/-- `%Y-%m-%d_%H-%M-%S` -/
def stamp (tms : Tm) : List Char :=
  decimalInt (tms.year + 1900) ++ '-' :: padded 2 (tms.mon + 1) ++ '-' :: padded 2 tms.mday ++
    '_' :: padded 2 tms.hour ++ '-' :: padded 2 tms.min ++ '-' :: padded 2 tms.sec

/-- The name that `renameByNowTime` gives the file. What `strftime` leaves of a time that does not fit
is not known. -/
def renamed (localtime : ℤ → Option Tm) (now : ℤ) (dir : List Char) : Option (List Char) := do
  let newFilename ← strcpy (List.replicate 32 nul) (stamp (brokenDown localtime now))
  let newFilename ← strcat newFilename kLogFileSuffix
  let name ← readString newFilename
  if dir ≠ [] then
    let tmpFile ← strcat (List.replicate kMaxFilePathLength nul) dir
    let tmpFile ← strcat tmpFile name
    readString tmpFile
  else return name

end Nets.LogFilePath
