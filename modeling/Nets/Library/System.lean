import Mathlib.Algebra.Group.Basic
import Mathlib.Logic.Basic
import Mathlib.Tactic.Common

/-! # Labelled transition systems

States, actions and a partial step function: `step s a = none` when the action `a` is not
enabled in `s`. Reachability is relative to a condition on the steps a run takes, so that one
induction rule serves unrestricted and restricted runs. -/

namespace Nets.Library

structure System (σ α : Type*) where
  initial : σ → Prop
  step : σ → α → Option σ

namespace System

variable {σ α : Type*} (S : System σ α)

/-- The states reached by runs whose every step `s, a` satisfies `ok s a`. -/
inductive ReachableUnder (ok : σ → α → Prop) : σ → Prop where
  | initial {s : σ} (hs : S.initial s) : ReachableUnder ok s
  | step {s t : σ} {a : α} (hs : ReachableUnder ok s) (ha : ok s a)
      (ht : S.step s a = some t) : ReachableUnder ok t

/-- The states reached by arbitrary runs. -/
def Reachable (s : σ) : Prop := S.ReachableUnder (fun _ _ => True) s

variable {S}

/-- What holds initially and is preserved by every permitted step holds in every state reached. -/
theorem ReachableUnder.invariant {ok : σ → α → Prop} {I : σ → Prop}
    (hinit : ∀ s, S.initial s → I s)
    (hstep : ∀ s a t, I s → ok s a → S.step s a = some t → I t)
    {s : σ} (hs : S.ReachableUnder ok s) : I s := by
  induction hs with
  | initial hs => exact hinit _ hs
  | step _ ha ht ih => exact hstep _ _ _ ih ha ht

theorem ReachableUnder.mono {ok ok' : σ → α → Prop} (h : ∀ s a, ok s a → ok' s a)
    {s : σ} (hs : S.ReachableUnder ok s) : S.ReachableUnder ok' s := by
  induction hs with
  | initial hs => exact .initial hs
  | step _ ha ht ih => exact .step ih (h _ _ ha) ht

theorem ReachableUnder.reachable {ok : σ → α → Prop} {s : σ} (hs : S.ReachableUnder ok s) :
    S.Reachable s :=
  hs.mono fun _ _ _ => trivial

theorem Reachable.invariant {I : σ → Prop} (hinit : ∀ s, S.initial s → I s)
    (hstep : ∀ s a t, I s → S.step s a = some t → I t)
    {s : σ} (hs : S.Reachable s) : I s :=
  ReachableUnder.invariant hinit (fun s a t h _ ht => hstep s a t h ht) hs

variable (S)

/-- `s` is reached by a run whose every step satisfies `ok`, through the states `past`, of which the
first is the last one before `s`. -/
inductive ReachedThrough (ok : σ → α → Prop) : List σ → σ → Prop where
  | initial {s : σ} (hs : S.initial s) : ReachedThrough ok [] s
  | step {past : List σ} {s t : σ} {a : α} (hs : ReachedThrough ok past s) (ha : ok s a)
      (ht : S.step s a = some t) : ReachedThrough ok (s :: past) t

variable {S}

theorem ReachedThrough.reachableUnder {ok : σ → α → Prop} {past : List σ} {s : σ}
    (hs : S.ReachedThrough ok past s) : S.ReachableUnder ok s := by
  induction hs with
  | initial hs => exact .initial hs
  | step _ ha ht ih => exact .step ih ha ht

theorem ReachedThrough.mono {ok ok' : σ → α → Prop} (h : ∀ s a, ok s a → ok' s a)
    {past : List σ} {s : σ} (hs : S.ReachedThrough ok past s) : S.ReachedThrough ok' past s := by
  induction hs with
  | initial hs => exact .initial hs
  | step _ ha ht ih => exact .step ih (h _ _ ha) ht

/-- A run passes through states in which its steps satisfy `ok`. -/
theorem ReachableUnder.exists_reachedThrough {ok : σ → α → Prop} {s : σ}
    (hs : S.ReachableUnder ok s) :
    ∃ past, S.ReachedThrough ok past s ∧ ∀ u ∈ past, ∃ a, ok u a := by
  induction hs with
  | initial hs => exact ⟨[], .initial hs, nofun⟩
  | @step s t a _ ha ht ih =>
      obtain ⟨past, hpast, hok⟩ := ih
      exact ⟨s :: past, .step hpast ha ht, List.forall_mem_cons.mpr ⟨⟨a, ha⟩, hok⟩⟩

variable (S)

/-- Take the given actions one after the other. -/
def run : σ → List α → Option σ
  | s, [] => some s
  | s, a :: rest => (S.step s a).bind fun t => run t rest

@[simp] theorem run_nil (s : σ) : S.run s [] = some s := rfl

theorem run_cons (s : σ) (a : α) (rest : List α) :
    S.run s (a :: rest) = (S.step s a).bind fun t => S.run t rest := rfl

theorem run_append (s : σ) (xs ys : List α) :
    S.run s (xs ++ ys) = (S.run s xs).bind fun t => S.run t ys := by
  induction xs generalizing s with
  | nil => rfl
  | cons a xs ih =>
      rw [List.cons_append, run_cons, run_cons, Option.bind_assoc]
      exact congrArg _ (funext fun t => ih t)

variable {S} in
/-- What every step preserves holds at the end of a run from any state. -/
theorem run_invariant {I : σ → Prop} (hstep : ∀ s a t, I s → S.step s a = some t → I t) {s t : σ}
    {actions : List α} (hs : I s) (h : S.run s actions = some t) : I t := by
  induction actions generalizing s with
  | nil =>
      obtain rfl : s = t := by simpa using h
      exact hs
  | cons a rest ih =>
      obtain ⟨u, hu, hrest⟩ := Option.bind_eq_some_iff.mp h
      exact ih (hstep s a u hs hu) hrest

theorem ReachableUnder.run {ok : σ → α → Prop} {s t : σ} {actions : List α}
    (hs : S.ReachableUnder ok s) (hok : ∀ a ∈ actions, ∀ u, ok u a)
    (h : S.run s actions = some t) : S.ReachableUnder ok t := by
  induction actions generalizing s with
  | nil =>
      obtain rfl : s = t := by simpa using h
      exact hs
  | cons a rest ih =>
      obtain ⟨u, hu, hrest⟩ := Option.bind_eq_some_iff.mp h
      obtain ⟨ha, hok⟩ := List.forall_mem_cons.mp hok
      exact ih (.step hs (ha s) hu) hok hrest

theorem Reachable.run {s t : σ} {actions : List α} (hs : S.Reachable s)
    (h : S.run s actions = some t) : S.Reachable t :=
  ReachableUnder.run S hs (fun _ _ _ => trivial) h

/-- Take the given actions one after the other, as far as the steps satisfy `ok`. -/
def runUnder (ok : σ → α → Prop) [∀ s a, Decidable (ok s a)] : σ → List α → Option σ
  | s, [] => some s
  | s, a :: rest => if ok s a then (S.step s a).bind fun t => runUnder ok t rest else none

theorem ReachableUnder.runUnder {ok : σ → α → Prop} [∀ s a, Decidable (ok s a)] {s t : σ}
    {actions : List α} (hs : S.ReachableUnder ok s) (h : S.runUnder ok s actions = some t) :
    S.ReachableUnder ok t := by
  induction actions generalizing s with
  | nil =>
      obtain rfl := Option.some.inj h
      exact hs
  | cons a rest ih =>
      rw [System.runUnder] at h
      split at h
      case isTrue ha =>
          obtain ⟨u, hu, hrest⟩ := Option.bind_eq_some_iff.mp h
          exact ih (.step hs ha hu) hrest
      · cases h

/-- What can be computed of the end of a run holds in a state that is reached. -/
theorem ReachableUnder.exists_of_runUnder {ok : σ → α → Prop} [∀ s a, Decidable (ok s a)]
    {P : σ → Prop} [DecidablePred P] {s : σ} (actions : List α) (hs : S.ReachableUnder ok s)
    (h : (S.runUnder ok s actions).any (fun t => decide (P t)) = true) :
    ∃ t, S.ReachableUnder ok t ∧ P t := by
  obtain ⟨t, ht, hP⟩ := (Option.any_eq_true ..).mp h
  exact ⟨t, hs.runUnder S ht, of_decide_eq_true hP⟩

/-- `P` holds in the state `s` and in every state the run of `actions` from `s` passes through. -/
def Along (P : σ → Prop) : σ → List α → Prop
  | s, [] => P s
  | s, a :: rest => P s ∧ ∀ t, S.step s a = some t → Along P t rest

/-- Every step the run of `actions` from `s` takes satisfies `ok`. -/
def StepsMeet (ok : σ → α → Prop) : σ → List α → Prop
  | _, [] => True
  | s, a :: rest => ∀ t, S.step s a = some t → ok s a ∧ StepsMeet ok t rest

/-- When `I` gives `P` and is preserved by the steps that satisfy `ok`, and every other step
from `I` breaks `P` at once, the runs along which `P` holds are those whose steps satisfy `ok`. -/
theorem along_iff_stepsMeet {P I : σ → Prop} {ok : σ → α → Prop}
    (hP : ∀ s, I s → P s)
    (hstep : ∀ s a t, I s → ok s a → S.step s a = some t → I t)
    (hbreak : ∀ s a t, I s → ¬ ok s a → S.step s a = some t → ¬ P t)
    {s : σ} (hs : I s) (actions : List α) :
    S.Along P s actions ↔ S.StepsMeet ok s actions := by
  induction actions generalizing s with
  | nil => exact ⟨fun _ => trivial, fun _ => hP s hs⟩
  | cons a rest ih =>
      constructor
      · rintro ⟨_, hrest⟩ t ht
        have halong := hrest t ht
        by_cases hok : ok s a
        · exact ⟨hok, (ih (hstep s a t hs hok ht)).mp halong⟩
        · have hPt : P t := by
            cases rest with
            | nil => exact halong
            | cons _ _ => exact halong.1
          exact absurd hPt (hbreak s a t hs hok ht)
      · intro hmeet
        refine ⟨hP s hs, fun t ht => ?_⟩
        obtain ⟨hok, hrest⟩ := hmeet t ht
        exact (ih (hstep s a t hs hok ht)).mpr hrest

/-- Two conditions that agree on the steps of a run agree on the run, when one of them keeps what
the agreement needs. -/
theorem stepsMeet_congr {I : σ → Prop} {base ok ok' : σ → α → Prop}
    (hstep : ∀ s a t, I s → base s a → S.step s a = some t →
      (ok s a ↔ ok' s a) ∧ (ok' s a → I t))
    {s : σ} (hs : I s) {actions : List α} (hbase : S.StepsMeet base s actions) :
    S.StepsMeet ok s actions ↔ S.StepsMeet ok' s actions := by
  induction actions generalizing s with
  | nil => exact Iff.rfl
  | cons a rest ih =>
      refine forall_congr' fun t => ?_
      refine forall_congr' fun ht => ?_
      obtain ⟨ha, hrest⟩ := hbase t ht
      obtain ⟨hiff, hkeep⟩ := hstep s a t hs ha ht
      rw [hiff]
      exact and_congr_right fun hok => ih (hkeep hok) hrest

variable {S}

theorem stepsMeet_of_runUnder {ok : σ → α → Prop} [∀ s a, Decidable (ok s a)] {s t : σ}
    {actions : List α} (h : S.runUnder ok s actions = some t) :
    S.StepsMeet ok s actions ∧ S.run s actions = some t := by
  induction actions generalizing s with
  | nil => exact ⟨trivial, h⟩
  | cons a rest ih =>
      rw [runUnder] at h
      split at h
      case isTrue ha =>
          obtain ⟨u, hu, hrest⟩ := Option.bind_eq_some_iff.mp h
          obtain ⟨hmeet, hrun⟩ := ih hrest
          refine ⟨fun t ht => ⟨ha, ?_⟩, by simp [run_cons, hu, hrun]⟩
          rw [hu] at ht
          exact Option.some.inj ht ▸ hmeet
      · cases h

theorem stepsMeet_cons {ok : σ → α → Prop} {s t : σ} {a : α} {rest : List α}
    (h : S.step s a = some t) : S.StepsMeet ok s (a :: rest) ↔ ok s a ∧ S.StepsMeet ok t rest := by
  constructor
  · exact fun hmeet => hmeet t h
  · rintro hmeet u hu
    obtain rfl : t = u := Option.some.inj (h.symm.trans hu)
    exact hmeet

theorem StepsMeet.cons {ok : σ → α → Prop} {s t : σ} {a : α} {rest : List α}
    (h : S.step s a = some t) (hok : ok s a) (hrest : S.StepsMeet ok t rest) :
    S.StepsMeet ok s (a :: rest) := (stepsMeet_cons h).mpr ⟨hok, hrest⟩

/-- What is preserved by the steps that satisfy `ok` holds at the end of a run of such steps. -/
theorem StepsMeet.invariant {I : σ → Prop} {ok : σ → α → Prop}
    {s t : σ} {actions : List α} (hmeet : S.StepsMeet ok s actions) (hs : I s)
    (h : S.run s actions = some t)
    (hstep : ∀ s a t, I s → ok s a → S.step s a = some t → I t) : I t := by
  induction actions generalizing s with
  | nil =>
      obtain rfl : s = t := by simpa using h
      exact hs
  | cons a rest ih =>
      obtain ⟨u, hu, hrest⟩ := Option.bind_eq_some_iff.mp h
      obtain ⟨hok, hmeet⟩ := hmeet u hu
      exact ih hmeet (hstep s a u hs hok hu) hrest

/-! ## The part of some steps in a run -/

variable {G : Type*} [AddCommGroup G] (S)

/-- What the steps whose actions satisfy `p` change `f` by, in the run of `actions` from `s`. -/
def changeBy (p : α → Bool) (f : σ → G) : σ → List α → G
  | _, [] => 0
  | s, a :: rest =>
    match S.step s a with
    | none => 0
    | some t => (if p a then f t - f s else 0) + changeBy p f t rest

variable {S}

/-- What a step keeps with its change, a run keeps with the sum of the changes. -/
theorem run_changeBy {p : α → Bool} {f : σ → G} {I : σ → G → Prop}
    (hstep : ∀ s a t g, I s g → S.step s a = some t → I t (g + if p a then f t - f s else 0))
    {s t : σ} {g : G} {actions : List α} (hs : I s g) (h : S.run s actions = some t) :
    I t (g + S.changeBy p f s actions) := by
  induction actions generalizing s g with
  | nil =>
      obtain rfl : s = t := by simpa using h
      rwa [changeBy, add_zero]
  | cons a rest ih =>
      obtain ⟨u, hu, hrest⟩ := Option.bind_eq_some_iff.mp h
      have hnext := ih (hstep s a u g hs hu) hrest
      simp only [changeBy, hu]
      rwa [add_assoc] at hnext

/-- Where no other step is taken, the difference is what these steps have changed. -/
theorem add_changeBy {p : α → Bool} {f : σ → G} {s t : σ} {actions : List α}
    (hall : ∀ a ∈ actions, p a = true) (h : S.run s actions = some t) :
    f s + S.changeBy p f s actions = f t := by
  induction actions generalizing s with
  | nil =>
      obtain rfl : s = t := by simpa using h
      exact add_zero _
  | cons a rest ih =>
      obtain ⟨u, hu, hrest⟩ := Option.bind_eq_some_iff.mp h
      obtain ⟨ha, hall⟩ := List.forall_mem_cons.mp hall
      have hnext := ih hall hrest
      simp only [changeBy, hu, ha, if_true]
      rw [← add_assoc, add_sub_cancel]
      exact hnext

end System

end Nets.Library
