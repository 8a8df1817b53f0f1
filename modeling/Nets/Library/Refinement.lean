import Mathlib.Logic.Basic
import Mathlib.Tactic.Common

/-! # Refinement of a specification by a machine with outputs

The machine is a function from states and inputs to states and outputs, undefined where an input
makes no sense. The specification is a relation between states, inputs and outputs, so it may
leave a choice that the machine resolves. -/

namespace Nets.Library

structure Machine (σ ι ο : Type*) where
  exec : σ → ι → Option (σ × ο)

/-- `spec` admits the outputs `os` for the inputs `is`, from `t` to `u`. -/
inductive Admits {τ ι ο : Type*} (spec : τ → ι → ο → τ → Prop) :
    τ → List ι → List ο → τ → Prop where
  | nil (t : τ) : Admits spec t [] [] t
  | cons {t u v : τ} {i : ι} {o : ο} {is : List ι} {os : List ο} :
      spec t i o u → Admits spec u is os v → Admits spec t (i :: is) (o :: os) v

namespace Machine

variable {σ τ ι ο : Type*} (M : Machine σ ι ο)

/-- Execute the inputs in order, collecting the outputs. -/
def run : σ → List ι → Option (σ × List ο)
  | s, [] => some (s, [])
  | s, i :: is =>
    (M.exec s i).bind fun (t, o) => (run t is).map fun (u, os) => (u, o :: os)

/-- Every input satisfies `ok` in the state it is given to. -/
def Guarded (ok : σ → ι → Prop) : σ → List ι → Prop
  | _, [] => True
  | s, i :: is => ok s i ∧ ∀ t o, M.exec s i = some (t, o) → Guarded ok t is

/-- A step simulation lifts to runs: the outputs of the machine are admitted by the
specification, and related states stay related. -/
theorem run_refines {spec : τ → ι → ο → τ → Prop} {R : σ → τ → Prop} {ok : σ → ι → Prop}
    (hstep : ∀ s t i s' o, R s t → ok s i → M.exec s i = some (s', o) →
      ∃ t', spec t i o t' ∧ R s' t')
    {inputs : List ι} {s s' : σ} {t : τ} {os : List ο} (hR : R s t)
    (hok : M.Guarded ok s inputs) (hrun : M.run s inputs = some (s', os)) :
    ∃ t', Admits spec t inputs os t' ∧ R s' t' := by
  induction inputs generalizing s t os with
  | nil =>
      obtain ⟨rfl, rfl⟩ : s = s' ∧ [] = os := by simpa [run] using hrun
      exact ⟨t, .nil t, hR⟩
  | cons i is ih =>
      obtain ⟨⟨u, o⟩, hexec, hrest⟩ := Option.bind_eq_some_iff.mp hrun
      obtain ⟨⟨v, os'⟩, htail, hpair⟩ := Option.map_eq_some_iff.mp hrest
      obtain ⟨rfl, rfl⟩ := Prod.mk.inj hpair
      obtain ⟨t₁, hspec, hR₁⟩ := hstep s t i u o hR hok.1 hexec
      obtain ⟨t', hadmits, hR'⟩ := ih hR₁ (hok.2 u o hexec) htail
      exact ⟨t', .cons hspec hadmits, hR'⟩

/-- Two machines that step by step give the same outputs, where `N` is given inputs that satisfy `ok`.
`R` may depend on how many inputs are still to come. -/
theorem run_simulates {N : Machine τ ι ο} {R : ℕ → σ → τ → Prop} {ok : τ → ι → Prop}
    (hstep : ∀ n s t i, R (n + 1) s t → ok t i →
      ∃ s' t' o, M.exec s i = some (s', o) ∧ N.exec t i = some (t', o) ∧ R n s' t')
    {inputs : List ι} {s : σ} {t : τ} (hR : R inputs.length s t) (hok : N.Guarded ok t inputs) :
    ∃ s' t' os, M.run s inputs = some (s', os) ∧ N.run t inputs = some (t', os) ∧ R 0 s' t' := by
  induction inputs generalizing s t with
  | nil => exact ⟨s, t, [], rfl, rfl, hR⟩
  | cons i is ih =>
      obtain ⟨s₁, t₁, o, hM, hN, hR₁⟩ := hstep is.length s t i hR hok.1
      obtain ⟨s', t', os, hM', hN', hR'⟩ := ih hR₁ (hok.2 t₁ o hN)
      exact ⟨s', t', o :: os, by simp [run, hM, hM'], by simp [run, hN, hN'], hR'⟩

end Machine

end Nets.Library
