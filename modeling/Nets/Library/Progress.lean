import Mathlib.Algebra.GroupWithZero.Nat
import Nets.Library.System

/-! # Progress

A run whose steps lower a rank by what they gain comes to its goal before it has gained more than the rank. -/

namespace Nets.Library.System

variable {σ α : Type*} {S : System σ α}

theorem run_reaches (ok : α → Prop) (I Goal : σ → Prop) (rank : σ → ℕ) (gain : α → ℕ)
    (hgoal : ∀ s a t, Goal s → S.step s a = some t → Goal t)
    (hstep : ∀ s a t, I s → ok a → S.step s a = some t → Goal t ∨ I t ∧ rank t + gain a ≤ rank s)
    {s t : σ} {actions : List α} (hs : I s) (hok : ∀ a ∈ actions, ok a)
    (h : S.run s actions = some t) (hgain : rank s < (actions.map gain).sum) : Goal t := by
  induction actions generalizing s with
  | nil =>
      rw [List.map_nil, List.sum_nil] at hgain
      exact absurd hgain (Nat.not_lt_zero _)
  | cons a rest ih =>
      obtain ⟨u, hu, hrest⟩ := Option.bind_eq_some_iff.mp h
      obtain ⟨ha, hok⟩ := List.forall_mem_cons.mp hok
      obtain hreached | ⟨hu', hrank⟩ := hstep s a u hs ha hu
      · exact run_invariant hgoal hreached hrest
      · rw [List.map_cons, List.sum_cons] at hgain
        exact ih hu' hok hrest (by omega)

end Nets.Library.System
