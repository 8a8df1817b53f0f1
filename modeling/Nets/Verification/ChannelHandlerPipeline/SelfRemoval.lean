import Nets.Verification.ChannelHandlerPipeline.Lists

/-! # Handlers that remove themselves

However a handler is taken out, its own `next_` is reset, so that it can be added again as it was
constructed. An event therefore ends at the first handler that takes itself out before it forwards the
event. -/

namespace Nets.ChannelHandlerPipeline

open Library

variable {η : Type} [DecidableEq η] {fuel : ℕ} {selfRemoval : η → Option SelfRemoval}
  {next : Links η} {pipeline : ChannelHandlerPipeline η} {xs ys zs received : List η} {a : η}

/-- A handler uses `removeFirst` only at the head, where all those before it have taken themselves out,
and `removeLast` only at the tail. -/
structure Fits (selfRemoval : η → Option SelfRemoval) (handlers : List η) : Prop where
  removeFirst : ∀ ys a zs, handlers = ys ++ a :: zs → selfRemoval a = some .removeFirst →
    ∀ b ∈ ys, selfRemoval b ≠ none
  removeLast : ∀ ys a zs, handlers = ys ++ a :: zs → selfRemoval a = some .removeLast → zs = []

/-- Every handler receives the event, once and in order, and afterwards the pipeline holds the handlers
that have not taken themselves out. -/
def Delivers (fuel : ℕ) (selfRemoval : η → Option SelfRemoval) (next : Links η)
    (pipeline : ChannelHandlerPipeline η) (handlers : List η) : Prop :=
  ∃ s, Loop.Returns (channelRead fuel selfRemoval) (fireSocketChannelRead next pipeline) (some s) ∧
    s.received = handlers ∧
      Linked s.next s.pipeline.headChannelHandler
        (handlers.filter fun handler => (selfRemoval handler).isNone)

/-- The handlers up to the first one that takes itself out. -/
def reached (selfRemoval : η → Option SelfRemoval) : List η → List η
  | [] => []
  | handler :: handlers =>
    if (selfRemoval handler).isNone then handler :: reached selfRemoval handlers else [handler]

/-! ## One handler -/

theorem takesOut_removeSelf {way : SelfRemoval}
    (h : Linked next pipeline.headChannelHandler (ys ++ a :: zs)) (hnodup : (ys ++ a :: zs).Nodup)
    (hfuel : ys.length ≤ fuel) (hfirst : way = .removeFirst → ys = [])
    (hlast : way = .removeLast → zs = []) :
    ∃ next' pipeline', removeSelf fuel (some way) a next pipeline = some (next', pipeline') ∧
      TakesOut next next' pipeline' a (ys ++ zs) := by
  cases way with
  | remove =>
      have hys : ∀ c ∈ ys, decide (c = a) = false := by
        intro c hc
        have hne : c ≠ a := by
          rintro rfl
          exact List.disjoint_of_nodup_append hnodup hc List.mem_cons_self
        exact decide_eq_false hne
      obtain ⟨next', pipeline', hremove, htaken⟩ :=
        takesOut_removeThe (fun handler => handler = a) h hnodup hfuel hys (decide_eq_true rfl)
      refine ⟨next', pipeline', ?_, htaken⟩
      simp [removeSelf, removeHandler, hremove]
  | removeFirst =>
      obtain rfl := hfirst rfl
      exact ⟨_, _, rfl, (takesOut_removeFirst h hnodup).2⟩
  | removeLast =>
      obtain rfl := hlast rfl
      obtain ⟨next', pipeline', hremove, htaken⟩ := takesOut_removeLast h hnodup hfuel
      refine ⟨next', pipeline', ?_, (List.append_nil ys).symm ▸ htaken⟩
      simp [removeSelf, hremove]

theorem channelRead_of_keep (hkeep : selfRemoval a = none) :
    channelRead fuel selfRemoval ⟨some a, next, pipeline, received⟩ =
      .inl ⟨next a, next, pipeline, received ++ [a]⟩ := by
  simp [channelRead, hkeep, removeSelf]

/-! ## The way of an event -/

/-- Handlers that stay pass the event on. -/
theorem returns_iff_of_keep {p : Option η} (h : Linked next p (ys ++ zs))
    (hkeep : ∀ b ∈ ys, selfRemoval b = none) (received : List η) :
    ∃ q, Linked next q zs ∧ ∀ r,
      Loop.Returns (channelRead fuel selfRemoval) ⟨p, next, pipeline, received⟩ r ↔
        Loop.Returns (channelRead fuel selfRemoval) ⟨q, next, pipeline, received ++ ys⟩ r := by
  induction ys generalizing p received with
  | nil =>
      rw [List.append_nil]
      exact ⟨p, h, fun _ => Iff.rfl⟩
  | cons b ys ih =>
      obtain ⟨rfl, htail⟩ := h.eq_some_of_cons
      obtain ⟨hb, hkeep⟩ := List.forall_mem_cons.mp hkeep
      obtain ⟨q, hq, hreturns⟩ := ih htail hkeep (received ++ [b])
      refine ⟨q, hq, fun r => ?_⟩
      rw [Loop.returns_iff_of_continue (channelRead_of_keep hb), hreturns, ← List.append_cons]

theorem returns_of_keep (h : Linked next pipeline.headChannelHandler xs)
    (hkeep : ∀ b ∈ xs, selfRemoval b = none) :
    Loop.Returns (channelRead fuel selfRemoval) (fireSocketChannelRead next pipeline)
      (some ⟨none, next, pipeline, xs⟩) := by
  rw [← List.append_nil xs] at h
  obtain ⟨q, hq, hreturns⟩ := returns_iff_of_keep h hkeep []
  obtain rfl := hq.eq_none_of_nil
  exact (hreturns _).mpr (Loop.returns_of_leave rfl)

/-- The event ends at the first handler that takes itself out, and no other is taken out. -/
theorem returns_of_first {way : SelfRemoval}
    (h : Linked next pipeline.headChannelHandler (ys ++ a :: zs)) (hnodup : (ys ++ a :: zs).Nodup)
    (hfuel : ys.length ≤ fuel) (hkeep : ∀ b ∈ ys, selfRemoval b = none)
    (hway : selfRemoval a = some way) (hfirst : way = .removeFirst → ys = [])
    (hlast : way = .removeLast → zs = []) :
    ∃ next' pipeline',
      Loop.Returns (channelRead fuel selfRemoval) (fireSocketChannelRead next pipeline)
        (some ⟨none, next', pipeline', ys ++ [a]⟩) ∧
      Linked next' pipeline'.headChannelHandler (ys ++ zs) := by
  obtain ⟨next', pipeline', hremove, htaken⟩ :=
    takesOut_removeSelf h hnodup hfuel hfirst hlast
  refine ⟨next', pipeline', ?_, htaken.linked⟩
  obtain ⟨q, hq, hreturns⟩ := returns_iff_of_keep h hkeep []
  obtain ⟨rfl, -⟩ := hq.eq_some_of_cons
  have hround : channelRead fuel selfRemoval ⟨some a, next, pipeline, [] ++ ys⟩ =
      .inl ⟨none, next', pipeline', ys ++ [a]⟩ := by
    simp [channelRead, hway, hremove, htaken.unlinked]
  refine (hreturns _).mpr ?_
  rw [Loop.returns_iff_of_continue hround]
  exact Loop.returns_of_leave rfl

/-! ## The handlers it reaches -/

omit [DecidableEq η] in
theorem reached_append (hkeep : ∀ b ∈ ys, selfRemoval b = none) :
    reached selfRemoval (ys ++ zs) = ys ++ reached selfRemoval zs := by
  induction ys with
  | nil => rfl
  | cons b ys ih =>
      obtain ⟨hb, hkeep⟩ := List.forall_mem_cons.mp hkeep
      rw [List.cons_append, List.cons_append, reached, hb, ih hkeep]
      rfl

omit [DecidableEq η] in
theorem reached_eq_self_iff :
    reached selfRemoval xs = xs ↔ ∀ a ∈ xs.dropLast, selfRemoval a = none := by
  induction xs with
  | nil => simp [reached]
  | cons a xs ih =>
      cases ha : selfRemoval a with
      | none =>
          cases xs with
          | nil => simp [reached]
          | cons b xs => simpa [reached, ha] using ih
      | some way =>
          cases xs with
          | nil => simp [reached]
          | cons b xs => simp [reached, ha]

omit [DecidableEq η] in
/-- Where only the last handler may take itself out, the others are those that do not. -/
theorem eraseP_eq_filter (hkeep : ∀ a ∈ xs.dropLast, selfRemoval a = none) :
    (xs.eraseP fun handler => (selfRemoval handler).isSome) =
      xs.filter fun handler => (selfRemoval handler).isNone := by
  rcases List.eq_nil_or_concat' xs with rfl | ⟨ys, b, rfl⟩
  · rfl
  · rw [List.dropLast_concat] at hkeep
    have hys : (ys.filter fun handler => (selfRemoval handler).isNone) = ys := by
      rw [List.filter_eq_self]
      intro c hc
      rw [hkeep c hc]
      rfl
    rw [List.eraseP_append_right _ fun c hc => by simp [hkeep c hc], List.filter_append, hys]
    cases hb : selfRemoval b <;> simp [hb]

theorem returns_reached (h : Linked next pipeline.headChannelHandler xs) (hnodup : xs.Nodup)
    (hfits : Fits selfRemoval xs) (hfuel : xs.length ≤ fuel) :
    ∃ s, Loop.Returns (channelRead fuel selfRemoval) (fireSocketChannelRead next pipeline)
        (some s) ∧
      s.received = reached selfRemoval xs ∧
      Linked s.next s.pipeline.headChannelHandler
        (xs.eraseP fun handler => (selfRemoval handler).isSome) := by
  cases hfind : xs.find? fun handler => (selfRemoval handler).isSome with
  | none =>
      have hkeep : ∀ b ∈ xs, selfRemoval b = none := by simpa using hfind
      refine ⟨_, returns_of_keep h hkeep, ?_, ?_⟩
      · exact (reached_eq_self_iff.mpr fun b hb => hkeep b (List.dropLast_subset xs hb)).symm
      · rw [List.eraseP_of_forall_not fun b hb => by simp [hkeep b hb]]
        exact h
  | some a =>
      obtain ⟨ha, ys, zs, rfl, hys⟩ := List.find?_eq_some_iff_append.mp hfind
      obtain ⟨way, hway⟩ := Option.isSome_iff_exists.mp ha
      have hkeep : ∀ b ∈ ys, selfRemoval b = none := fun b hb => by simpa using hys b hb
      have hfirst : way = .removeFirst → ys = [] := by
        rintro rfl
        apply List.eq_nil_iff_forall_not_mem.mpr
        exact fun b hb => hfits.removeFirst ys a zs rfl hway b hb (hkeep b hb)
      have hlast : way = .removeLast → zs = [] := by
        rintro rfl
        exact hfits.removeLast ys a zs rfl hway
      rw [List.length_append] at hfuel
      obtain ⟨next', pipeline', hreturns, hlinked⟩ :=
        returns_of_first h hnodup (Nat.le_of_add_right_le hfuel) hkeep hway hfirst hlast
      have hothers : ((ys ++ a :: zs).eraseP fun handler => (selfRemoval handler).isSome) =
          ys ++ zs := by
        rw [List.eraseP_append_right _ fun b hb => by simp [hkeep b hb]]
        simp [ha]
      refine ⟨_, hreturns, ?_, ?_⟩
      · simp [reached_append hkeep, reached, hway]
      · rw [hothers]
        exact hlinked

/-- The handlers up to the first one that takes itself out receive the event, once and in order, and
no others; only that one is taken out. So all receive it exactly when no handler but the last takes
itself out. -/
theorem event_ends_at_first_removal (h : Linked next pipeline.headChannelHandler xs)
    (hnodup : xs.Nodup) (hfits : Fits selfRemoval xs) (hfuel : xs.length ≤ fuel) :
    (∃ s, Loop.Returns (channelRead fuel selfRemoval) (fireSocketChannelRead next pipeline)
        (some s) ∧
      s.received = reached selfRemoval xs ∧
      Linked s.next s.pipeline.headChannelHandler
        (xs.eraseP fun handler => (selfRemoval handler).isSome)) ∧
    (Delivers fuel selfRemoval next pipeline xs ↔ ∀ a ∈ xs.dropLast, selfRemoval a = none) := by
  obtain ⟨s, hreturns, hreceived, hlinked⟩ := returns_reached h hnodup hfits hfuel
  refine ⟨⟨s, hreturns, hreceived, hlinked⟩, ?_, fun hkeep => ?_⟩
  · rintro ⟨t, ht, hall, -⟩
    obtain rfl := Option.some.inj (hreturns.unique ht)
    exact reached_eq_self_iff.mp (hreceived.symm.trans hall)
  · refine ⟨s, hreturns, hreceived.trans (reached_eq_self_iff.mpr hkeep), ?_⟩
    rw [← eraseP_eq_filter hkeep]
    exact hlinked

/-- One handler takes itself out. -/
def removing (a handler : ℕ) : Option SelfRemoval := if handler = a then some .remove else none

theorem fits_removing (a : ℕ) (handlers : List ℕ) : Fits (removing a) handlers where
  removeFirst _ b _ _ hb := by
    rw [removing] at hb
    split at hb <;> cases hb
  removeLast _ b _ _ hb := by
    rw [removing] at hb
    split at hb <;> cases hb

theorem linked_two : Linked (Function.update unlinked 0 (some 1)) (some 0) [0, 1] :=
  .cons (.cons .nil)

/-- The last of two handlers takes itself out. -/
theorem event_ends_at_first_removal_two :
    (∃ s, Loop.Returns (channelRead 2 (removing 1))
        (fireSocketChannelRead (Function.update unlinked 0 (some 1)) ⟨some 0⟩) (some s) ∧
      s.received = reached (removing 1) [0, 1] ∧
      Linked s.next s.pipeline.headChannelHandler
        ([0, 1].eraseP fun handler => (removing 1 handler).isSome)) ∧
    (Delivers 2 (removing 1) (Function.update unlinked 0 (some 1)) ⟨some 0⟩ [0, 1] ↔
      ∀ a ∈ [0, 1].dropLast, removing 1 a = none) :=
  event_ends_at_first_removal linked_two (by decide) (fits_removing _ [0, 1]) (by decide)

/-- The first of two handlers takes itself out. -/
theorem not_delivers_two :
    Fits (removing 0) [0, 1] ∧
      ¬ Delivers 2 (removing 0) (Function.update unlinked 0 (some 1)) ⟨some 0⟩ [0, 1] := by
  refine ⟨fits_removing _ [0, 1], ?_⟩
  rintro ⟨s, hs, hreceived, -⟩
  have hreturns : Loop.Returns (channelRead 2 (removing 0))
      (fireSocketChannelRead (Function.update unlinked 0 (some 1)) ⟨some 0⟩)
      (some ⟨none, Function.update (Function.update unlinked 0 (some 1)) 0 none, ⟨some 1⟩, [0]⟩) :=
    ⟨2, rfl⟩
  obtain rfl := Option.some.inj (hreturns.unique hs)
  cases hreceived

end Nets.ChannelHandlerPipeline
