import Nets.Library.Loop
import Nets.Library.System
import Nets.Program.LogFile

/-! # Log files on a stream that may fail

The loop of `LogFile::write` in `base/log/LogFile.cpp`, where `fwrite_unlocked` takes as much as it likes
of what it is offered, and the size the file believes to have. The stream has a buffer, and brings to the
file what it has taken when it likes, or fails to. -/

namespace Nets

open Library

/-- How much one call of `fwrite_unlocked` takes, if it is offered that much, and what `ferror` says after
it. -/
structure FwriteAnswer where
  count : ℕ
  error : Bool
  deriving DecidableEq, Repr

/-- The variable of the loop, what the stream took, and how often it was called. -/
structure WriteLoop where
  writtenBytes : ℕ
  taken : List UInt8
  calls : ℕ
  deriving DecidableEq, Repr

namespace WriteLoop

def start : WriteLoop where
  writtenBytes := 0
  taken := []
  calls := 0

/-- `n` of one round: no more than what remains. -/
def amount (data : List UInt8) (answers : ℕ → FwriteAnswer) (w : WriteLoop) : ℕ :=
  min (answers w.calls).count (data.length - w.writtenBytes)

/-- One round. The bytes of a call that fails are not counted. -/
def round (data : List UInt8) (answers : ℕ → FwriteAnswer) (w : WriteLoop) : WriteLoop ⊕ WriteLoop :=
  if w.writtenBytes < data.length then
    let n := w.amount data answers
    let taken := w.taken ++ (data.drop w.writtenBytes).take n
    if n ≠ data.length - w.writtenBytes ∧ (answers w.calls).error = true then
      .inr { w with taken, calls := w.calls + 1 }
    else .inl { writtenBytes := w.writtenBytes + n, taken, calls := w.calls + 1 }
  else .inr w

end WriteLoop

/-- What `fopen` finds, and whether `fstat` succeeds. -/
structure Opening where
  found : List UInt8
  sized : Bool

/-- `bytes` is `bytes_`, and `opened` says that `fp_` is not null. The file held `found` when it was opened;
since then the calls of `write` were `given` data, of which the stream took `taken`: the file has got
`stored`, the buffer holds `buffered`, and a number of bytes was `dropped` after errors. -/
structure CountedFile where
  bytes : ℕ
  opened : Bool
  sized : Bool
  found : List UInt8
  given : List (List UInt8)
  taken : List (List UInt8)
  stored : List UInt8
  buffered : List UInt8
  dropped : ℕ

namespace CountedFile

def contents (f : CountedFile) : List UInt8 := f.found ++ f.stored

/-- `fopen`, and `getFileInfo` for a `bytes_`. -/
def openFile (bytes : ℕ) (opening : Opening) : CountedFile where
  bytes := if opening.sized then opening.found.length else bytes
  opened := true
  sized := opening.sized
  found := opening.found
  given := []
  taken := []
  stored := []
  buffered := []
  dropped := 0

/-- No result where the loop does not end within `fuel` rounds. -/
def write (data : List UInt8) (answers : ℕ → FwriteAnswer) (fuel : ℕ) (f : CountedFile) :
    Option CountedFile :=
  (Loop.run (WriteLoop.round data answers) fuel .start).map fun w =>
    { f with
      bytes := addSize f.bytes w.writtenBytes
      given := f.given ++ [data]
      taken := f.taken ++ [w.taken]
      buffered := f.buffered ++ w.taken }

/-- The first bytes of the buffer come to the file. -/
def store (n : ℕ) (f : CountedFile) : CountedFile :=
  { f with stored := f.stored ++ f.buffered.take n, buffered := f.buffered.drop n }

/-- The first bytes of the buffer are given up. -/
def drop (n : ℕ) (f : CountedFile) : CountedFile :=
  { f with buffered := f.buffered.drop n, dropped := f.dropped + (f.buffered.take n).length }

/-- The stream may store and drop what it has at any time, in `write`, `fflush` and `fclose` too. Where
`fopen` fails in `renameByNowTime` there is no opening, and `fp_` stays null. -/
inductive Action where
  | write (data : List UInt8) (answers : ℕ → FwriteAnswer) (fuel : ℕ)
  | store (n : ℕ)
  | drop (n : ℕ)
  | renameByNowTime (opening : Option Opening)

def step (f : CountedFile) : Action → Option CountedFile
  | .write data answers fuel => if f.opened then f.write data answers fuel else none
  | .store n => some (f.store n)
  | .drop n => some (f.drop n)
  | .renameByNowTime (some opening) => some (openFile f.bytes opening)
  | .renameByNowTime none => some { f with opened := false }

def system : System CountedFile Action where
  initial f := ∃ opening, f = openFile 0 opening
  step := step

end CountedFile

end Nets
