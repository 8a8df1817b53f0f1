import Nets.Program.ThreadPool

/-! # The two halves of `ctl_`

Every value `ctl_` takes is a state and a count below `2 ^ kCountBits`, and the operations of the
pool work on one half only. -/

namespace Nets.ThreadPool

/-! ## Masks -/

theorem kCountMask_getLsbD (i : Fin 32) : kCountMask.getLsbD i = decide (i.val < kCountBits) := by
  revert i
  decide

theorem toNat_kCountMask : kCountMask.toNat = 2 ^ kCountBits - 1 := by decide

theorem toNat_and_kCountMask (ctl : BitVec 32) :
    (ctl &&& kCountMask).toNat = ctl.toNat % 2 ^ kCountBits := by
  rw [BitVec.toNat_and, toNat_kCountMask]
  exact Nat.and_two_pow_sub_one_eq_mod _ kCountBits

theorem and_not_kCountMask (ctl : BitVec 32) :
    ctl &&& ~~~kCountMask = (ctl >>> kCountBits) <<< kCountBits := by
  ext i hi
  have hmask := kCountMask_getLsbD ⟨i, hi⟩
  simp only [BitVec.getLsbD_eq_getElem hi] at hmask
  simp only [BitVec.getElem_and, BitVec.getElem_not, BitVec.getElem_shiftLeft, hmask,
    BitVec.getElem_ushiftRight]
  by_cases h : i < kCountBits
  · simp [h]
  · simp [h, BitVec.getLsbD_eq_getElem hi, Nat.add_sub_cancel' (Nat.le_of_not_lt h)]

theorem toNat_and_not_kCountMask (ctl : BitVec 32) :
    (ctl &&& ~~~kCountMask).toNat = ctl.toNat / 2 ^ kCountBits * 2 ^ kCountBits := by
  rw [and_not_kCountMask, BitVec.toNat_shiftLeft, BitVec.toNat_ushiftRight, Nat.shiftLeft_eq,
    Nat.shiftRight_eq_div_pow]
  apply Nat.mod_eq_of_lt
  exact Nat.lt_of_le_of_lt (Nat.div_mul_le_self ..) ctl.isLt

/-! ## States and counts -/

def encode (running : Bool) (count : ℕ) : BitVec 32 :=
  BitVec.ofNat 32 ((if running then 2 ^ kCountBits else 0) + count)

variable {running : Bool} {count : ℕ}

theorem kRunning_eq_encode : kRunning = encode true 0 := by decide

theorem toNat_encode (h : count < 2 ^ kCountBits) :
    (encode running count).toNat = (if running then 2 ^ kCountBits else 0) + count := by
  rw [encode, BitVec.toNat_ofNat]
  apply Nat.mod_eq_of_lt
  rw [kCountBits] at *
  cases running with
  | true =>
      simp only [if_true]
      omega
  | false =>
      simp only [Bool.false_eq_true, if_false]
      omega

theorem toNat_encode_div (h : count < 2 ^ kCountBits) :
    (encode running count).toNat / 2 ^ kCountBits = if running then 1 else 0 := by
  rw [toNat_encode h]
  cases running with
  | true =>
      simp only [if_true]
      rw [Nat.add_div_left _ (Nat.two_pow_pos _), Nat.div_eq_of_lt h]
  | false =>
      simp only [Bool.false_eq_true, if_false, Nat.zero_add]
      exact Nat.div_eq_of_lt h

theorem encode_and_not_kCountMask (h : count < 2 ^ kCountBits) :
    encode running count &&& ~~~kCountMask = if running then kRunning else kShutdown := by
  apply BitVec.eq_of_toNat_eq
  rw [toNat_and_not_kCountMask, toNat_encode_div h]
  cases running with
  | true | false => decide

theorem isRunning_encode (h : count < 2 ^ kCountBits) :
    isRunning (encode running count) = running := by
  simp only [isRunning, encode_and_not_kCountMask h]
  cases running with
  | true | false => decide

theorem isShutdown_encode (h : count < 2 ^ kCountBits) :
    isShutdown (encode running count) = !running := by
  simp only [isShutdown, encode_and_not_kCountMask h]
  cases running with
  | true | false => decide

theorem numOfActiveThreads_encode (h : count < 2 ^ kCountBits) :
    numOfActiveThreads (encode running count) = count := by
  rw [numOfActiveThreads, toNat_and_kCountMask, toNat_encode h]
  cases running with
  | true =>
      simp only [if_true]
      rw [Nat.add_mod_left, Nat.mod_eq_of_lt h]
  | false =>
      simp only [Bool.false_eq_true, if_false, Nat.zero_add]
      exact Nat.mod_eq_of_lt h

theorem encode_add_one (running : Bool) (count : ℕ) :
    encode running count + 1 = encode running (count + 1) := by
  rw [encode, encode, ← Nat.add_assoc]
  exact (BitVec.ofNat_add _ 1).symm

theorem encode_sub_one (running : Bool) (count : ℕ) :
    encode running (count + 1) - 1 = encode running count := by
  rw [← encode_add_one]
  exact BitVec.add_sub_cancel ..

/-- What `shutdown` makes of `ctl_`. -/
theorem kShutdown_or_encode (h : count < 2 ^ kCountBits) :
    kShutdown ||| (encode running count &&& kCountMask) = encode false count := by
  have hzero : kShutdown = 0#32 := by decide
  have hcount : (encode running count &&& kCountMask).toNat = count :=
    numOfActiveThreads_encode h
  rw [hzero, BitVec.zero_or, ← BitVec.toNat_inj, hcount, toNat_encode h]
  simp

end Nets.ThreadPool
