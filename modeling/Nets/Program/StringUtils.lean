import Mathlib.Data.List.Basic
import Nets.Library.Loop

/-! # Splitting a string

`base/StringUtils.cpp`. Characters are compared and never inspected otherwise, so that a string is a
list over any type of characters. `none` is `npos`. -/

namespace Nets.StringUtils

open Library

variable {α : Type} [DecidableEq α]

/-- `s.find(str, pos)`, the first position from `pos` on at which `str` occurs. The empty string occurs
at every position, the end included. -/
def find (s str : List α) (pos : ℕ) : Option ℕ :=
  (List.range' pos (s.length + 1 - pos)).find? fun i => str.isPrefixOf (s.drop i)

/-- `s.find(c, pos)`, the first position from `pos` on that holds the character. -/
def findChar (s : List α) (c : α) (pos : ℕ) : Option ℕ :=
  (List.range' pos (s.length - pos)).find? fun i => s[i]? = some c

/-- `s.substr(pos, n)`. -/
def substr (s : List α) (pos n : ℕ) : List α := (s.drop pos).take n

/-- The variables of the loop. -/
structure Scan (α : Type) where
  tokens : List (List α)
  pos1 : ℕ
  pos2 : Option ℕ
  deriving DecidableEq

/-- The loop of both overloads, for a delimiter of the given length that is found by `find`. What is
behind the last delimiter is a token if there is anything. -/
def splitRound (s : List α) (length : ℕ) (find : ℕ → Option ℕ) (scan : Scan α) :
    Scan α ⊕ List (List α) :=
  match scan.pos2 with
  | some pos2 =>
    let pos1 := pos2 + length
    .inl ⟨scan.tokens ++ [substr s scan.pos1 (pos2 - scan.pos1)], pos1, find pos1⟩
  | none =>
    .inr (if scan.pos1 ≠ s.length then scan.tokens ++ [s.drop scan.pos1] else scan.tokens)

/-- `split(s, tokens, delimiter)` for a string, with the number of rounds it may take. -/
def split (fuel : ℕ) (s : List α) (tokens : List (List α)) (delimiter : List α) :
    Option (List (List α)) :=
  if s.length = 0 then some tokens
  else Loop.run (splitRound s delimiter.length (find s delimiter)) fuel ⟨tokens, 0, find s delimiter 0⟩

/-- `split(s, tokens, delimiter)` for a character. -/
def splitChar (fuel : ℕ) (s : List α) (tokens : List (List α)) (delimiter : α) :
    Option (List (List α)) :=
  if s.length = 0 then some tokens
  else Loop.run (splitRound s 1 (findChar s delimiter)) fuel ⟨tokens, 0, findChar s delimiter 0⟩

end Nets.StringUtils
