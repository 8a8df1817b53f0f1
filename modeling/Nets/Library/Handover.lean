import Nets.Library.System

/-! # Handing over

Something is collected until it is taken, and collecting begins anew: what is taken each time is what was
given since the time before. -/

namespace Nets.Library

variable {σ α β π ρ : Type*}

/-- `gives` is what an action adds to what `pending` has collected, and `takes` tells the actions after
which `handed` has made `finish` of it. -/
structure Handover (S : System σ α) (gives : α → Option β) (takes : α → Bool) (add : π → β → π)
    (fresh : π) (finish : π → ρ) (pending : σ → π) (handed : σ → List ρ) : Prop where
  give : ∀ s a t, S.step s a = some t → takes a = false →
    pending t = (gives a).elim (pending s) (add (pending s)) ∧ handed t = handed s
  take : ∀ s a t, S.step s a = some t → takes a = true →
    pending t = fresh ∧ handed t = handed s ++ [finish (pending s)]

namespace Handover

variable {S : System σ α} {gives : α → Option β} {takes : α → Bool} {add : π → β → π} {fresh : π}
  {finish : π → ρ} {pending : σ → π} {handed : σ → List ρ}

/-- What the actions between two others give. -/
def collect (gives : α → Option β) (add : π → β → π) (start : π) (actions : List α) : π :=
  (actions.filterMap gives).foldl add start

@[simp] theorem collect_nil (start : π) : collect gives add start [] = start := rfl

theorem collect_cons (start : π) (a : α) (rest : List α) :
    collect gives add start (a :: rest) =
      collect gives add ((gives a).elim start (add start)) rest := by
  cases hgives : gives a with
  | none => simp [collect, List.filterMap_cons_none hgives]
  | some b => simp [collect, List.filterMap_cons_some hgives]

/-- The first of the stretches adds to what was there, and every other begins anew. -/
def collectAll (gives : α → Option β) (add : π → β → π) (fresh start : π) : List (List α) → List π
  | [] => []
  | stretch :: rest => collect gives add start stretch :: rest.map (collect gives add fresh)

theorem collectAll_fresh (stretches : List (List α)) :
    collectAll gives add fresh fresh stretches = stretches.map (collect gives add fresh) := by
  cases stretches with
  | nil => rfl
  | cons stretch rest => rfl

theorem run (h : Handover S gives takes add fresh finish pending handed) {s t : σ} {actions : List α}
    (hrun : S.run s actions = some t) :
    ∃ before last,
      collectAll gives add fresh (pending s) (actions.splitOnP takes) = before ++ [last] ∧
        handed t = handed s ++ before.map finish ∧ pending t = last := by
  induction actions generalizing s with
  | nil =>
      obtain rfl : s = t := by simpa using hrun
      exact ⟨[], pending s, rfl, (List.append_nil _).symm, rfl⟩
  | cons a rest ih =>
      obtain ⟨u, hu, hrest⟩ := Option.bind_eq_some_iff.mp hrun
      obtain ⟨before, last, hcollect, hhanded, hpending⟩ := ih hrest
      rw [List.splitOnP_cons_eq_if_modifyHead]
      cases htakes : takes a with
      | false =>
          obtain ⟨hgive, hkept⟩ := h.give s a u hu htakes
          obtain ⟨first, others, hsplit⟩ := List.exists_cons_of_ne_nil (List.splitOnP_ne_nil takes rest)
          refine ⟨before, last, ?_, by rw [hhanded, hkept], hpending⟩
          rw [hgive, hsplit] at hcollect
          simpa only [Bool.false_eq_true, if_false, hsplit, List.modifyHead_cons, collectAll,
            collect_cons] using hcollect
      | true =>
          obtain ⟨htake, hmore⟩ := h.take s a u hu htakes
          rw [htake, collectAll_fresh] at hcollect
          refine ⟨pending s :: before, last, ?_, ?_, hpending⟩
          · simp [collectAll, hcollect]
          · rw [hhanded, hmore, List.append_assoc]
            rfl

/-- Every taker has what was given since the one before, and what is left is what was given since the
last. -/
theorem run_initial (h : Handover S gives takes add fresh finish pending handed) {s t : σ}
    {actions : List α} (hpending : pending s = fresh) (hhanded : handed s = [])
    (hrun : S.run s actions = some t) :
    ∃ before last, actions.splitOnP takes = before ++ [last] ∧
      handed t = before.map (fun stretch => finish (collect gives add fresh stretch)) ∧
        pending t = collect gives add fresh last := by
  obtain ⟨collected, _, hcollect, hfinished, rfl⟩ := h.run hrun
  rw [hpending, collectAll_fresh] at hcollect
  obtain ⟨before, rest, hsplit, rfl, hrest⟩ := List.map_eq_append_iff.mp hcollect
  obtain ⟨last, rfl, hlast⟩ := List.map_eq_singleton_iff.mp hrest
  exact ⟨before, last, hsplit, by rw [hfinished, hhanded, List.nil_append, List.map_map]; rfl,
    hlast.symm⟩

end Handover

end Nets.Library
