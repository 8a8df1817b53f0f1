import Mathlib.Logic.Basic
import Mathlib.Tactic.Common

/-! # Loops that may not end

A loop is its body: from a state it either continues with a next state or leaves with a result.
`run` executes at most `fuel` rounds; `Returns` is the existence of enough fuel. -/

namespace Nets.Library.Loop

variable {σ ρ : Type*}

def run (body : σ → σ ⊕ ρ) : ℕ → σ → Option ρ
  | 0, _ => none
  | fuel + 1, s =>
    match body s with
    | .inl t => run body fuel t
    | .inr r => some r

/-- The loop started in `s` leaves with the result `r`. -/
def Returns (body : σ → σ ⊕ ρ) (s : σ) (r : ρ) : Prop := ∃ fuel, run body fuel s = some r

/-- The loop started in `s` leaves after finitely many rounds. -/
def Terminates (body : σ → σ ⊕ ρ) (s : σ) : Prop := ∃ r, Returns body s r

variable {body : σ → σ ⊕ ρ}

@[simp] theorem run_zero (s : σ) : run body 0 s = none := rfl

theorem run_succ_of_continue {s t : σ} (h : body s = .inl t) (fuel : ℕ) :
    run body (fuel + 1) s = run body fuel t := by
  rw [run, h]

theorem run_succ_of_leave {s : σ} {r : ρ} (h : body s = .inr r) (fuel : ℕ) :
    run body (fuel + 1) s = some r := by
  rw [run, h]

theorem returns_of_leave {s : σ} {r : ρ} (h : body s = .inr r) : Returns body s r :=
  ⟨1, run_succ_of_leave h 0⟩

theorem returns_iff_of_continue {s t : σ} {r : ρ} (h : body s = .inl t) :
    Returns body s r ↔ Returns body t r := by
  constructor
  · rintro ⟨fuel, hrun⟩
    cases fuel with
    | zero => simp at hrun
    | succ fuel => exact ⟨fuel, by rwa [run_succ_of_continue h] at hrun⟩
  · rintro ⟨fuel, hrun⟩
    exact ⟨fuel + 1, by rwa [run_succ_of_continue h]⟩

theorem run_add {fuel : ℕ} {s : σ} {r : ρ} (h : run body fuel s = some r) (extra : ℕ) :
    run body (fuel + extra) s = some r := by
  induction fuel generalizing s with
  | zero => simp at h
  | succ fuel ih =>
      rw [Nat.succ_add]
      cases hb : body s with
      | inl t =>
          rw [run_succ_of_continue hb] at h ⊢
          exact ih h
      | inr r' =>
          rw [run_succ_of_leave hb] at h ⊢
          exact h

/-- More fuel never changes a result. -/
theorem Returns.unique {s : σ} {r r' : ρ} (h : Returns body s r) (h' : Returns body s r') :
    r = r' := by
  obtain ⟨n, hn⟩ := h
  obtain ⟨m, hm⟩ := h'
  have hnm := run_add hn m
  have hmn := run_add hm n
  rw [Nat.add_comm m n, hnm] at hmn
  exact Option.some.inj hmn

/-- Invariant rule: what every round preserves, and every leaving round turns into `Q`. -/
theorem Returns.of_invariant {I : σ → Prop} {Q : ρ → Prop}
    (hcontinue : ∀ s t, I s → body s = .inl t → I t)
    (hleave : ∀ s r, I s → body s = .inr r → Q r)
    {s : σ} {r : ρ} (hs : I s) (h : Returns body s r) : Q r := by
  obtain ⟨fuel, hrun⟩ := h
  induction fuel generalizing s with
  | zero => simp at hrun
  | succ fuel ih =>
      cases hb : body s with
      | inl t =>
          rw [run_succ_of_continue hb] at hrun
          exact ih (hcontinue s t hs hb) hrun
      | inr r' =>
          rw [run_succ_of_leave hb] at hrun
          obtain rfl : r' = r := Option.some.inj hrun
          exact hleave s r' hs hb

/-- Variant rule: a loop whose rounds lower a measure under an invariant leaves. -/
theorem terminates_of_variant {I : σ → Prop} (measure : σ → ℕ)
    (hcontinue : ∀ s t, I s → body s = .inl t → I t ∧ measure t < measure s)
    {s : σ} (hs : I s) : Terminates body s := by
  induction hm : measure s using Nat.strongRecOn generalizing s with
  | ind n ih =>
      cases hb : body s with
      | inl t =>
          obtain ⟨ht, hlt⟩ := hcontinue s t hs hb
          obtain ⟨r, hr⟩ := ih (measure t) (hm ▸ hlt) ht rfl
          exact ⟨r, (returns_iff_of_continue hb).mpr hr⟩
      | inr r => exact ⟨r, returns_of_leave hb⟩

/-- A loop that keeps an invariant under which no round leaves never returns. -/
theorem not_terminates_of_invariant {I : σ → Prop}
    (hround : ∀ s, I s → ∃ t, body s = .inl t ∧ I t) {s : σ} (hs : I s) :
    ¬ Terminates body s := by
  rintro ⟨r, fuel, hrun⟩
  induction fuel generalizing s with
  | zero => simp at hrun
  | succ fuel ih =>
      obtain ⟨t, hb, ht⟩ := hround s hs
      rw [run_succ_of_continue hb] at hrun
      exact ih ht hrun

/-- A round begins in `t`, or the loop leaves there. -/
inductive Reaches (body : σ → σ ⊕ ρ) (s : σ) : σ → Prop where
  | start : Reaches body s s
  | round {t u : σ} (ht : Reaches body s t) (h : body t = .inl u) : Reaches body s u

theorem Reaches.invariant {I : σ → Prop} (hcontinue : ∀ s t, I s → body s = .inl t → I t)
    {s t : σ} (hs : I s) (h : Reaches body s t) : I t := by
  induction h with
  | start => exact hs
  | round _ hround ih => exact hcontinue _ _ ih hround

theorem Terminates.of_reaches {s t : σ} (hs : Terminates body s) (h : Reaches body s t) :
    Terminates body t := by
  induction h with
  | start => exact hs
  | round _ hround ih =>
      obtain ⟨r, hr⟩ := ih
      exact ⟨r, (returns_iff_of_continue hround).mp hr⟩

/-- The first round of those that come to `t`. -/
theorem Reaches.start_or_round {s t : σ} (h : Reaches body s t) :
    s = t ∨ ∃ u, body s = .inl u ∧ Reaches body u t := by
  induction h with
  | start => exact .inl rfl
  | round _ hround ih =>
      obtain rfl | ⟨u, hu, hreaches⟩ := ih
      · exact .inr ⟨_, hround, .start⟩
      · exact .inr ⟨u, hu, hreaches.round hround⟩

theorem Reaches.of_leave {s t : σ} {r : ρ} (h : Reaches body s t) (hs : body s = .inr r) : s = t := by
  obtain heq | ⟨u, hu, -⟩ := h.start_or_round
  · exact heq
  · cases hs.symm.trans hu

theorem Reaches.cons {s t u : σ} (hround : body s = .inl t) (h : Reaches body t u) :
    Reaches body s u := by
  induction h with
  | start => exact .round .start hround
  | round _ hnext ih => exact .round ih hnext

/-- A loop that leaves does so in one state. -/
theorem Returns.exists_leave {s : σ} {r : ρ} (h : Returns body s r) :
    ∃ t, Reaches body s t ∧ body t = .inr r ∧
      ∀ u r', Reaches body s u → body u = .inr r' → u = t := by
  obtain ⟨fuel, hrun⟩ := h
  induction fuel generalizing s with
  | zero => simp at hrun
  | succ fuel ih =>
      cases hb : body s with
      | inl v =>
          rw [run_succ_of_continue hb] at hrun
          obtain ⟨t, hreaches, hleave, hunique⟩ := ih hrun
          refine ⟨t, .cons hb hreaches, hleave, fun u r' hu hr' => ?_⟩
          obtain rfl | ⟨w, hw, hreaches'⟩ := hu.start_or_round
          · cases hb.symm.trans hr'
          · obtain rfl := Sum.inl.inj (hb.symm.trans hw)
            exact hunique u r' hreaches' hr'
      | inr r' =>
          rw [run_succ_of_leave hb] at hrun
          obtain rfl := Option.some.inj hrun
          exact ⟨s, .start, hb, fun u _ hu _ => (hu.of_leave hb).symm⟩

/-- When a round lowers a measure unless it begins in a state from which the loop cannot leave, the
loop leaves exactly when it reaches no such state. -/
theorem terminates_iff_of_variant {I stuck : σ → Prop} (measure : σ → ℕ)
    (hcontinue : ∀ s t, I s → body s = .inl t → I t)
    (hlower : ∀ s t, I s → ¬ stuck s → body s = .inl t → measure t < measure s)
    (hstuck : ∀ s, I s → stuck s → ¬ Terminates body s) {s : σ} (hs : I s) :
    Terminates body s ↔ ∀ t, Reaches body s t → ¬ stuck t := by
  constructor
  · intro hterminates t ht hstuckt
    exact hstuck t (ht.invariant hcontinue hs) hstuckt (hterminates.of_reaches ht)
  · intro hfree
    refine terminates_of_variant (I := fun t => I t ∧ Reaches body s t) measure ?_ ⟨hs, .start⟩
    rintro t u ⟨ht, hreached⟩ hround
    exact ⟨⟨hcontinue t u ht hround, hreached.round hround⟩,
      hlower t u ht (hfree t hreached) hround⟩

/-- The loop started in `s` begins its rounds in the states of the list and leaves with `r`. -/
inductive Rounds (body : σ → σ ⊕ ρ) : σ → List σ → ρ → Prop where
  | leave {s : σ} {r : ρ} (h : body s = .inr r) : Rounds body s [] r
  | round {s t : σ} {trace : List σ} {r : ρ} (h : body s = .inl t) (ht : Rounds body t trace r) :
      Rounds body s (s :: trace) r

theorem Rounds.returns {s : σ} {trace : List σ} {r : ρ} (h : Rounds body s trace r) :
    Returns body s r := by
  induction h with
  | leave h => exact returns_of_leave h
  | round h _ ih => exact (returns_iff_of_continue h).mpr ih

theorem Returns.exists_rounds {s : σ} {r : ρ} (h : Returns body s r) :
    ∃ trace, Rounds body s trace r := by
  obtain ⟨fuel, hrun⟩ := h
  induction fuel generalizing s with
  | zero => simp at hrun
  | succ fuel ih =>
      cases hb : body s with
      | inl t =>
          rw [run_succ_of_continue hb] at hrun
          obtain ⟨trace, htrace⟩ := ih hrun
          exact ⟨s :: trace, .round hb htrace⟩
      | inr r' =>
          rw [run_succ_of_leave hb] at hrun
          obtain rfl := Option.some.inj hrun
          exact ⟨[], .leave hb⟩

end Nets.Library.Loop
