import Mathlib.Data.List.Basic
import Mathlib.Tactic.Common

/-! # Wires

A reliable stream in one direction: what is put in comes out in order, and nothing else does. A wire that is
cut keeps some of what was on it and takes no more. -/

namespace Nets.Library

structure Wire (β : Type*) where
  inFlight : List β
  cut : Bool

namespace Wire

variable {β : Type*} {w w' : Wire β} {sent received : List β}

def empty : Wire β where
  inFlight := []
  cut := false

def put (bytes : List β) (w : Wire β) : Wire β :=
  if w.cut then w else { w with inFlight := w.inFlight ++ bytes }

/-- The bytes have to be the first ones. -/
def get [DecidableEq β] (bytes : List β) (w : Wire β) : Option (Wire β) :=
  if bytes <+: w.inFlight then some { w with inFlight := w.inFlight.drop bytes.length } else none

/-- The first `n` bytes may still come out. -/
def sever (n : ℕ) (w : Wire β) : Wire β where
  inFlight := w.inFlight.take n
  cut := true

/-- What was put in has come out or is on the wire, up to where it was cut. -/
def Carries (w : Wire β) (sent received : List β) : Prop :=
  ∃ vanished, received ++ w.inFlight ++ vanished = sent ∧ (w.cut = false → vanished = [])

theorem carries_empty : Carries (empty : Wire β) [] [] := ⟨[], rfl, fun _ => rfl⟩

namespace Carries

theorem received_prefix (h : w.Carries sent received) : received <+: sent := by
  obtain ⟨vanished, rfl, -⟩ := h
  rw [List.append_assoc]
  exact List.prefix_append _ _

theorem eq_of_not_cut (h : w.Carries sent received) (hcut : w.cut = false) :
    received ++ w.inFlight = sent := by
  obtain ⟨vanished, rfl, hvanished⟩ := h
  rw [hvanished hcut, List.append_nil]

theorem put (h : w.Carries sent received) (bytes : List β) :
    (w.put bytes).Carries (sent ++ bytes) received := by
  obtain ⟨vanished, rfl, hvanished⟩ := h
  by_cases hcut : w.cut = true
  · rw [Wire.put, if_pos hcut]
    exact ⟨vanished ++ bytes, by simp only [List.append_assoc], fun hnot => absurd hcut (by simp [hnot])⟩
  · rw [Wire.put, if_neg hcut]
    obtain rfl := hvanished (by simpa using hcut)
    exact ⟨[], by simp only [List.append_assoc, List.append_nil], fun _ => rfl⟩

theorem get [DecidableEq β] (h : w.Carries sent received) {bytes : List β}
    (hget : w.get bytes = some w') : w'.Carries sent (received ++ bytes) := by
  rw [Wire.get, Option.ite_none_right_eq_some] at hget
  obtain ⟨⟨rest, hrest⟩, hw'⟩ := hget
  obtain rfl := Option.some.inj hw'
  obtain ⟨vanished, rfl, hvanished⟩ := h
  refine ⟨vanished, ?_, hvanished⟩
  rw [← hrest, List.drop_left]
  simp only [List.append_assoc]

theorem sever (h : w.Carries sent received) (n : ℕ) : (w.sever n).Carries sent received := by
  obtain ⟨vanished, rfl, -⟩ := h
  refine ⟨w.inFlight.drop n ++ vanished, ?_, nofun⟩
  rw [Wire.sever, List.append_assoc received, ← List.append_assoc (w.inFlight.take n),
    List.take_append_drop, List.append_assoc]

end Carries

end Wire

end Nets.Library
