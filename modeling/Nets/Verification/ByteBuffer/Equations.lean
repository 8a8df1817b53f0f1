import Nets.Program.ByteBuffer
import Mathlib.Data.Nat.Log
import Mathlib.Tactic.NormNum

/-! Computation rules for the buffer's memory, its monad and its capacity loop. -/

namespace Nets

open Library

theorem addSize_of_lt {a b : ℕ} (h : a + b < 2 ^ 64) : addSize a b = a + b := Nat.mod_eq_of_lt h

theorem subSize_of_le {a b : ℕ} (hle : b ≤ a) : subSize a b = a - b := if_pos hle

namespace ByteBuffer

variable {β α γ : Type}

/-! ## Running a member function

A call that returned or threw is stepped over by `bind_ok` and `bind_error`, so that a caller's
proof never looks into the callee. -/

theorem bind_ok {m : BufferM β α} {a : α} {b b' : ByteBuffer β} (h : m b = .ok a b')
    (f : α → BufferM β γ) : (m >>= f) b = f a b' := by
  change EStateM.bind m f b = _
  rw [EStateM.bind, h]

theorem bind_error {m : BufferM β α} {fault : Fault} {b b' : ByteBuffer β}
    (h : m b = .error fault b') (f : α → BufferM β γ) : (m >>= f) b = .error fault b' := by
  change EStateM.bind m f b = _
  rw [EStateM.bind, h]

/-- A sequence that returned went through a call that returned. -/
theorem exists_of_bind_ok {m : BufferM β α} {f : α → BufferM β γ} {c : γ} {b b'' : ByteBuffer β}
    (h : (m >>= f) b = .ok c b'') : ∃ a b', m b = .ok a b' ∧ f a b' = .ok c b'' := by
  cases hm : m b with
  | ok a b' => exact ⟨a, b', rfl, by rwa [bind_ok hm] at h⟩
  | error fault b' =>
      rw [bind_error hm] at h
      cases h

theorem map_ok {m : BufferM β α} {a : α} {b b' : ByteBuffer β} (h : m b = .ok a b')
    (f : α → γ) : (f <$> m) b = .ok (f a) b' := by
  change EStateM.map f m b = _
  rw [EStateM.map, h]

theorem map_error {m : BufferM β α} {fault : Fault} {b b' : ByteBuffer β}
    (h : m b = .error fault b') (f : α → γ) : (f <$> m) b = .error fault b' := by
  change EStateM.map f m b = _
  rw [EStateM.map, h]

@[simp] theorem pure_apply (a : α) (b : ByteBuffer β) : (pure a : BufferM β α) b = .ok a b := rfl

@[simp] theorem pure_bind_apply (a : α) (f : α → BufferM β γ) (b : ByteBuffer β) :
    (pure a >>= f) b = f a b := rfl

@[simp] theorem get_bind_apply (f : ByteBuffer β → BufferM β γ) (b : ByteBuffer β) :
    (get >>= f) b = f b b := rfl

@[simp] theorem set_apply (b b' : ByteBuffer β) : (set b' : BufferM β PUnit) b = .ok ⟨⟩ b' := rfl

@[simp] theorem throw_apply (fault : Fault) (b : ByteBuffer β) :
    (throw fault : BufferM β α) b = .error fault b := rfl

@[simp] theorem throw_bind_apply (fault : Fault) (f : α → BufferM β γ) (b : ByteBuffer β) :
    (throw fault >>= f) b = .error fault b := rfl

@[simp] theorem orFault_some (fault : Fault) (a : α) :
    (orFault fault (some a) : BufferM β α) = pure a := rfl

@[simp] theorem orFault_none (fault : Fault) :
    (orFault fault none : BufferM β α) = throw fault := rfl

theorem of_orFault_ok {fault : Fault} {x : Option α} {a : α} {b b' : ByteBuffer β}
    (h : (orFault fault x : BufferM β α) b = .ok a b') : x = some a ∧ b' = b := by
  cases x with
  | none => cases h
  | some a => cases h; exact ⟨rfl, rfl⟩

@[simp] theorem clear_apply (b : ByteBuffer β) :
    (clear : BufferM β Unit) b = .ok () { b with readerIndex := 0, writerIndex := 0 } := rfl

/-! ## Memory -/

/-- The cells of an array, none for `nullptr`. -/
def cells (memory : Option (List β)) : List β := memory.getD []

@[simp] theorem cells_some (xs : List β) : cells (some xs) = xs := rfl

@[simp] theorem cells_none : cells (none : Option (List β)) = [] := rfl

theorem loadBytes_eq (memory : Option (List β)) {offset length : ℕ}
    (h : offset + length ≤ (cells memory).length) :
    loadBytes memory offset length = some (((cells memory).drop offset).take length) := by
  unfold loadBytes
  by_cases hlen : length = 0
  · simp [hlen]
  · cases memory with
    | none =>
        simp only [cells_none, List.length_nil] at h
        omega
    | some xs => simpa [hlen] using h

theorem storeBytes_eq (memory : Option (List β)) (offset : ℕ) (source : List β)
    (h : offset + source.length ≤ (cells memory).length) :
    ∃ memory', storeBytes memory offset source = some memory' ∧
      cells memory' =
        (cells memory).take offset ++ source ++ (cells memory).drop (offset + source.length) := by
  unfold storeBytes
  by_cases hsource : source = []
  · subst hsource
    exact ⟨memory, by simp, by simp⟩
  · cases memory with
    | none =>
        have hpos := List.length_pos_iff.mpr hsource
        simp only [cells_none, List.length_nil] at h
        omega
    | some xs =>
        rw [cells_some] at h
        exact ⟨some (xs.take offset ++ source ++ xs.drop (offset + source.length)),
          by simp [hsource, h], rfl⟩

/-! ## The capacity loop -/

theorem doubleCapacity_of_lt {target c : ℕ} (h : c < target) :
    doubleCapacity target c = .inl (c * 2 % 18446744073709551616) := by
  simp [doubleCapacity, h]

theorem doubleCapacity_of_ge {target c : ℕ} (h : target ≤ c) :
    doubleCapacity target c = .inr c := by
  simp [doubleCapacity, Nat.not_lt.mpr h]

/-- From `2 ^ j` the loop climbs to the first power of two that is large enough. -/
theorem run_doubleCapacity {target k : ℕ} (hk : k ≤ 63) (htarget : target ≤ 2 ^ k)
    (hmin : ∀ j < k, 2 ^ j < target) (distance : ℕ) :
    ∀ j, j + distance = k →
      Loop.run (doubleCapacity target) (distance + 1) (2 ^ j) = some (2 ^ k) := by
  induction distance with
  | zero =>
      intro j hj
      obtain rfl : j = k := hj
      exact Loop.run_succ_of_leave (doubleCapacity_of_ge htarget) 0
  | succ distance ih =>
      intro j hj
      have hpow : 2 ^ j * 2 % 18446744073709551616 = 2 ^ (j + 1) := by
        rw [← pow_succ, show 18446744073709551616 = 2 ^ 64 from rfl]
        exact Nat.mod_eq_of_lt (Nat.pow_lt_pow_right (by omega) (by omega))
      have hround := doubleCapacity_of_lt (hmin j (by omega))
      rw [hpow] at hround
      rw [Loop.run_succ_of_continue hround]
      exact ih (j + 1) (by omega)

/-- The new capacity is the least power of two that holds the target. -/
theorem calculateNewCapacity_eq {target : ℕ} (hpos : 0 < target) (hle : target ≤ 2 ^ 63) :
    calculateNewCapacity target = some (2 ^ Nat.clog 2 target) := by
  have hk : Nat.clog 2 target ≤ 63 := Nat.clog_le_of_le_pow hle
  have hrun := run_doubleCapacity (k := Nat.clog 2 target) hk
    (Nat.le_pow_clog (by omega) target)
    (fun j hj => Nat.lt_of_not_ge fun hge => by
      have := Nat.clog_le_of_le_pow hge
      omega)
    (Nat.clog 2 target) 0 (by omega)
  have hfuel := Loop.run_add hrun (64 - Nat.clog 2 target)
  rw [show Nat.clog 2 target + 1 + (64 - Nat.clog 2 target) = 65 by omega] at hfuel
  simpa [calculateNewCapacity, Nat.pos_iff_ne_zero.mp hpos] using hfuel

/-- Above `2 ^ 63` no `size_t` power of two is large enough: the bit is shifted out and the loop
runs forever, which the fuel of `calculateNewCapacity` reports. -/
theorem doubleCapacity_endless {target : ℕ} (hgt : 2 ^ 63 < target) :
    ¬ Loop.Terminates (doubleCapacity target) 1 := by
  refine Loop.not_terminates_of_invariant (I := fun c => c = 0 ∨ ∃ j ≤ 63, c = 2 ^ j) ?_
    (Or.inr ⟨0, by omega, rfl⟩)
  rintro c (rfl | ⟨j, hj, rfl⟩)
  · exact ⟨0, by simpa using doubleCapacity_of_lt (show 0 < target by omega), .inl rfl⟩
  · have hlt : 2 ^ j < target := (Nat.pow_le_pow_right (by omega) hj).trans_lt hgt
    refine ⟨_, doubleCapacity_of_lt hlt, ?_⟩
    rcases Nat.lt_or_eq_of_le hj with hj | rfl
    · refine .inr ⟨j + 1, hj, ?_⟩
      rw [← pow_succ, show 18446744073709551616 = 2 ^ 64 from rfl]
      exact Nat.mod_eq_of_lt (Nat.pow_lt_pow_right (by omega) (by omega))
    · exact .inl (by norm_num)

theorem calculateNewCapacity_eq_none {target : ℕ} (hgt : 2 ^ 63 < target) :
    calculateNewCapacity target = none := by
  cases h : calculateNewCapacity target with
  | none => rfl
  | some c =>
      have hne : target ≠ 0 := by omega
      rw [calculateNewCapacity, if_neg hne] at h
      exact absurd ⟨c, 65, h⟩ (doubleCapacity_endless hgt)

end ByteBuffer

end Nets
