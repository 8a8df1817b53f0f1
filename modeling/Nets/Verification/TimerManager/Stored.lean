import Mathlib.Data.List.Perm.Basic
import Nets.Program.TimerManager

/-! # The timers that are stored

What holds of the container whatever is added, cancelled and fired: the timers are in the order of
their keys, no two have the same id, and the key of a timer is the time it expires, unless it is
cancelled. -/

namespace Nets.TimerManager

open Library

variable {timers : Timers} {calls : List Call} {e : ℤ × Timer}

/-- The timer has been cancelled. -/
def Timer.IsCancelled (timer : Timer) : Prop := timer.expiredTime = 0 ∧ timer.repeatTimes = 0

structure Stored (timers : Timers) : Prop where
  sorted : timers.Sorted
  ids : (timers.map fun e => e.2.id.key).Nodup
  keys : ∀ e ∈ timers, e.2.expiredTime = e.1 ∨ Timer.IsCancelled e.2

/-- The timer is in the container to be fired. -/
def IsLive (e : ℤ × Timer) : Prop := e.2.isRepeatable = true

instance : DecidablePred IsLive := fun _ => inferInstanceAs (Decidable (_ = true))

theorem not_isRepeatable_of_isCancelled {timer : Timer} (h : Timer.IsCancelled timer) :
    timer.isRepeatable = false := by
  simp [Timer.isRepeatable, h.2, kRepeatForever]

theorem isCancelled_cancel (timer : Timer) : Timer.IsCancelled timer.cancel := ⟨rfl, rfl⟩

theorem Stored.expiredTime_eq (h : Stored timers) (he : e ∈ timers) (hlive : IsLive e) :
    e.2.expiredTime = e.1 := by
  rcases h.keys e he with heq | hcancelled
  · exact heq
  · rw [IsLive, not_isRepeatable_of_isCancelled hcancelled] at hlive
    cases hlive

/-! ## Cancelling -/

/-- The call is one of `removeTimer` that finds the timer: the search begins at the time of the id. -/
def cancels (call : Call) (e : ℤ × Timer) : Bool :=
  match call with
  | .removeTimer timerId => decide (timerId.value ≤ e.1) && decide (timerId.key = e.2.id.key)
  | .addTimer .. => false

/-- What the calls of a callback make of a timer, when they add none. -/
def cancelBy (calls : List Call) (e : ℤ × Timer) : ℤ × Timer :=
  if calls.any (cancels · e) then (e.1, e.2.cancel) else e

@[simp] theorem cancelBy_key (calls : List Call) (e : ℤ × Timer) : (cancelBy calls e).1 = e.1 := by
  rw [cancelBy]
  split <;> rfl

@[simp] theorem cancelBy_id (calls : List Call) (e : ℤ × Timer) :
    (cancelBy calls e).2.id.key = e.2.id.key := by
  rw [cancelBy]
  split <;> rfl

@[simp] theorem cancelBy_interval (calls : List Call) (e : ℤ × Timer) :
    (cancelBy calls e).2.interval = e.2.interval := by
  rw [cancelBy]
  split <;> rfl

@[simp] theorem cancelBy_nil (e : ℤ × Timer) : cancelBy [] e = e := rfl

theorem cancels_cancelBy (call : Call) (calls : List Call) (e : ℤ × Timer) :
    cancels call (cancelBy calls e) = cancels call e := by
  cases call with
  | removeTimer timerId => simp [cancels]
  | addTimer => rfl

theorem cancelBy_of_not (h : calls.any (cancels · e) = false) : cancelBy calls e = e := by
  rw [cancelBy, h]
  rfl

theorem isCancelled_cancelBy (h : calls.any (cancels · e) = true) :
    Timer.IsCancelled (cancelBy calls e).2 := by
  rw [cancelBy, if_pos h]
  exact isCancelled_cancel e.2

theorem cancelBy_cons (call : Call) (calls : List Call) (e : ℤ × Timer) :
    cancelBy (call :: calls) e = cancelBy calls (cancelBy [call] e) := by
  have hrest : calls.any (cancels · (cancelBy [call] e)) = calls.any (cancels · e) := by
    congr 1
    funext other
    exact cancels_cancelBy other [call] e
  rw [cancelBy, cancelBy, hrest, List.any_cons]
  cases hcall : cancels call e with
  | false => simp [cancelBy, hcall]
  | true => simp [cancelBy, hcall, Timer.cancel, Timer.setExpiredTime, Timer.setRepeatTimes]

/-- A live timer stays live unless it is cancelled. -/
theorem isLive_cancelBy : IsLive (cancelBy calls e) ↔ IsLive e ∧ calls.any (cancels · e) = false := by
  cases h : calls.any (cancels · e) with
  | false => simp [cancelBy_of_not h]
  | true =>
      have hcancelled := not_isRepeatable_of_isCancelled (isCancelled_cancelBy h)
      simp [IsLive, hcancelled]

/-- Cancelling keeps the container as it is otherwise. -/
theorem Stored.cancelBy (h : Stored timers) (calls : List Call) :
    Stored (timers.map (cancelBy calls)) where
  sorted := h.sorted.map (cancelBy_key calls)
  ids := by
    rw [List.map_map]
    simpa [Function.comp_def] using h.ids
  keys := by
    intro e he
    obtain ⟨e, hmem, rfl⟩ := List.mem_map.mp he
    cases hcancels : calls.any (cancels · e) with
    | false =>
        rw [cancelBy_of_not hcancels]
        exact h.keys e hmem
    | true => exact .inr (isCancelled_cancelBy hcancels)

/-- The first timer of the key is the only one. -/
theorem cancelFirst_eq (hids : (timers.map fun e => e.2.id.key).Nodup) (key : ℕ) :
    cancelFirst key timers =
      timers.map fun e => if key = e.2.id.key then (e.1, e.2.cancel) else e := by
  induction timers with
  | nil => rfl
  | cons e timers ih =>
      obtain ⟨hnot, hids⟩ := List.nodup_cons.mp hids
      rw [cancelFirst, List.map_cons]
      by_cases hkey : key = e.2.id.key
      · have hrest : ∀ other ∈ timers,
            (if key = other.2.id.key then (other.1, other.2.cancel) else other) = id other := by
          intro other hother
          rw [if_neg]
          · rfl
          · rintro rfl
            exact hnot (List.mem_map.mpr ⟨other, hother, hkey⟩)
        rw [if_pos hkey, if_pos hkey, List.map_congr_left hrest, List.map_id]
      · rw [if_neg hkey, if_neg hkey, ih hids]

theorem Stored.sublist (h : Stored timers) {part : Timers} (hpart : part.Sublist timers) :
    Stored part where
  sorted := h.sorted.sublist hpart
  ids := h.ids.sublist (hpart.map _)
  keys := fun e he => h.keys e (hpart.subset he)

theorem Stored.tail {e : ℤ × Timer} (h : Stored (e :: timers)) : Stored timers :=
  h.sublist (List.sublist_cons_self e timers)

/-- `removeTimer` cancels the timer of the id if its search reaches it. -/
theorem Stored.removeTimer (h : Stored timers) (timerId : TimerId) :
    removeTimer timerId timers = timers.map (TimerManager.cancelBy [.removeTimer timerId]) := by
  induction timers with
  | nil => rfl
  | cons e timers ih =>
      by_cases hlt : e.1 < timerId.value
      · have hskip : TimerManager.removeTimer timerId (e :: timers) =
            e :: TimerManager.removeTimer timerId timers := by
          simp [TimerManager.removeTimer, hlt]
        rw [hskip, ih h.tail, List.map_cons, cancelBy_of_not]
        simp [cancels, not_le.mpr hlt]
      · have hsearch : TimerManager.removeTimer timerId (e :: timers) =
            cancelFirst timerId.key (e :: timers) := by
          simp [TimerManager.removeTimer, hlt]
        rw [hsearch, cancelFirst_eq h.ids]
        apply List.map_congr_left
        intro other hother
        have hle : e.1 ≤ other.1 := by
          rcases List.mem_cons.mp hother with rfl | hother
          · exact le_rfl
          · exact (List.pairwise_cons.mp h.sorted).1 other hother
        have hreach : timerId.value ≤ other.1 := (not_lt.mp hlt).trans hle
        simp [TimerManager.cancelBy, cancels, hreach]

/-! ## Adding -/

/-- The keys the generator has given are below it. -/
structure Managed (m : TimerManager) : Prop where
  stored : Stored m.timers
  issued : ∀ e ∈ m.timers, e.2.id.key < m.timerIdGenerator

theorem managed_empty : Managed empty := ⟨⟨.nil, .nil, nofun⟩, nofun⟩

theorem Stored.insert (h : Stored timers) (timer : Timer)
    (hid : timer.id.key ∉ timers.map fun e => e.2.id.key) :
    Stored (timers.insert timer.expiredTime timer) := by
  have hperm := Multimap.insert_perm timer.expiredTime timer timers
  refine ⟨h.sorted.insert, ?_, fun e he => ?_⟩
  · rw [(hperm.map _).nodup_iff, List.map_cons]
    exact List.nodup_cons.mpr ⟨hid, h.ids⟩
  · rcases List.mem_cons.mp (hperm.mem_iff.mp he) with rfl | he
    · exact .inl rfl
    · exact h.keys e he

theorem Managed.addTimer {m : TimerManager} (h : Managed m) (expiredTime repeatTimes interval : ℤ)
    (fixedDelay : Bool) : Managed (m.addTimer expiredTime repeatTimes interval fixedDelay) := by
  have hid : m.timerIdGenerator ∉ m.timers.map fun e => e.2.id.key := by
    intro hmem
    obtain ⟨e, he, hkey⟩ := List.mem_map.mp hmem
    exact absurd (h.issued e he) (by omega)
  refine ⟨h.stored.insert (m.newTimer expiredTime repeatTimes interval fixedDelay) hid,
    fun e he => ?_⟩
  have hperm := Multimap.insert_perm expiredTime
    (m.newTimer expiredTime repeatTimes interval fixedDelay) m.timers
  rcases List.mem_cons.mp (hperm.mem_iff.mp he) with rfl | he
  · exact Nat.lt_succ_self _
  · exact (h.issued e he).trans (Nat.lt_succ_self _)

theorem Managed.removeTimer {m : TimerManager} (h : Managed m) (timerId : TimerId) :
    Managed { m with timers := TimerManager.removeTimer timerId m.timers } := by
  have heq := h.stored.removeTimer timerId
  refine ⟨?_, fun e he => ?_⟩
  · rw [heq]
    exact h.stored.cancelBy _
  · change e ∈ TimerManager.removeTimer timerId m.timers at he
    rw [heq] at he
    obtain ⟨e, hmem, rfl⟩ := List.mem_map.mp he
    rw [cancelBy_id]
    exact h.issued e hmem

end Nets.TimerManager
