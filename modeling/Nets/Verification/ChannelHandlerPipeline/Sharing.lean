import Nets.Program.ChannelHandlerPipeline

/-! # Handlers shared by several channels

The second pipeline that is built of the same handlers finds the links of the first. With one handler
there are none; with more, the second handler is linked behind the last one and the links lead back. -/

namespace Nets.ChannelHandlerPipeline

open Library

variable {η : Type} {fuel : ℕ} {next : Links η} {pipeline : ChannelHandlerPipeline η}
  {handlers done : List η} {a b c : η}

/-- Building ends, and afterwards every one of the pipelines delivers an event to the configured
handlers, each once and in order, and to nothing else. -/
def Isolated [DecidableEq η] (childHandlers : List η) (connections : ℕ) : Prop :=
  ∃ fuel next pipelines, accept fuel childHandlers connections = some (next, pipelines) ∧
    pipelines.length = connections ∧ ∀ pipeline ∈ pipelines, Reaches next pipeline childHandlers

/-! ## The walk of `addLast` -/

theorem findLast_eq : findLast fuel next a = Loop.run (seekLast next) (fuel + 1) a := by
  cases h : next a with
  | none => rw [findLast, h, Loop.run_succ_of_leave (seekLast_of_none h)]
  | some b => rw [findLast, h, Loop.run_succ_of_continue (seekLast_of_some h)]

theorem findLast_of_linked (h : Linked next (some a) (done ++ [b])) (hfuel : done.length ≤ fuel) :
    findLast fuel next a = some b := by
  rw [findLast_eq]
  exact h.run_seekLast (Nat.lt_succ_of_le hfuel)

/-- However much fuel the walk had. -/
theorem eq_of_findLast (h : Linked next (some a) (done ++ [b])) (hlast : findLast fuel next a = some c) :
    c = b := by
  rw [findLast_eq] at hlast
  have hwalk : Loop.Returns (seekLast next) a b :=
    ⟨done.length + 1, h.run_seekLast (Nat.lt_succ_self _)⟩
  exact Loop.Returns.unique ⟨fuel + 1, hlast⟩ hwalk

theorem findLast_of_neverEnds {S : η → Prop} (h : NeverEnds next S) (ha : S a) :
    findLast fuel next a = none := by
  cases hlast : findLast fuel next a with
  | none => rfl
  | some b =>
      rw [findLast_eq] at hlast
      exact absurd ⟨b, fuel + 1, hlast⟩ (h.not_seekLast ha)

/-! ## The first pipeline -/

/-- The pipeline holds the handlers, and all others are as constructed. -/
structure Holds (next : Links η) (pipeline : ChannelHandlerPipeline η) (handlers : List η) : Prop where
  linked : Linked next pipeline.headChannelHandler handlers
  free : ∀ a, a ∉ handlers → next a = none

theorem holds_empty : Holds (unlinked : Links η) empty [] := ⟨.nil, fun _ _ => rfl⟩

theorem Holds.single (h : Holds next pipeline []) :
    Holds next { headChannelHandler := some b } [b] := by
  have hfree : ∀ a, next a = none := fun a => h.free a List.not_mem_nil
  refine ⟨.cons ?_, fun a _ => hfree a⟩
  rw [hfree b]
  exact .nil

variable [DecidableEq η]

theorem addLast_of_none (hhead : pipeline.headChannelHandler = none) :
    addLast fuel (some b) next pipeline = some (next, { headChannelHandler := some b }) := by
  simp only [addLast, hhead]

theorem addLast_of_some (hhead : pipeline.headChannelHandler = some a) :
    addLast fuel (some b) next pipeline =
      (findLast fuel next a).map fun last => (Function.update next last (some b), pipeline) := by
  simp only [addLast, hhead]

theorem Holds.concat (h : Holds next pipeline (done ++ [a])) (hnodup : (done ++ [a]).Nodup)
    (hb : b ∉ done ++ [a]) :
    Holds (Function.update next a (some b)) pipeline (done ++ [a] ++ [b]) := by
  refine ⟨h.linked.concat hnodup hb (h.free b hb), fun c hc => ?_⟩
  have hmem : c ∉ done ++ [a] := fun hmem => hc (List.mem_append_left _ hmem)
  have hne : c ≠ a := by
    rintro rfl
    exact hmem (List.mem_append_right _ (List.mem_singleton.mpr rfl))
  rw [Function.update_of_ne hne]
  exact h.free c hmem

/-- What `addLast` gives, if it ends, and when it does. -/
theorem Holds.of_addLast (h : Holds next pipeline done) (fuel : ℕ) (hnodup : done.Nodup) (hb : b ∉ done) :
    (∀ next' pipeline', addLast fuel (some b) next pipeline = some (next', pipeline') →
      Holds next' pipeline' (done ++ [b])) ∧
    (done.length ≤ fuel → (addLast fuel (some b) next pipeline).isSome = true) := by
  rcases List.eq_nil_or_concat' done with rfl | ⟨done, last, rfl⟩
  · rw [addLast_of_none h.linked.eq_none_of_nil]
    refine ⟨?_, fun _ => rfl⟩
    rintro _ _ ⟨⟩
    exact h.single
  · obtain ⟨a, hhead⟩ := h.linked.exists_eq_some
    rw [addLast_of_some hhead]
    have hlinked : Linked next (some a) (done ++ [last]) := hhead ▸ h.linked
    constructor
    · intro next' pipeline' hadd
      obtain ⟨last', hlast, hresult⟩ := Option.map_eq_some_iff.mp hadd
      obtain rfl := eq_of_findLast hlinked hlast
      obtain ⟨rfl, rfl⟩ := Prod.mk.inj hresult
      exact h.concat hnodup hb
    · intro hfuel
      rw [List.length_append] at hfuel
      rw [findLast_of_linked hlinked (Nat.le_of_add_right_le hfuel)]
      rfl

/-- `initSocketChannel` from any point of its loop. -/
def addAll (fuel : ℕ) (handlers : List η) (next : Links η) (pipeline : ChannelHandlerPipeline η) :
    Option (Links η × ChannelHandlerPipeline η) :=
  handlers.foldlM
    (fun (next, pipeline) handler =>
      addLast fuel (some handler) next pipeline)
    (next, pipeline)

theorem addAll_cons : addAll fuel (b :: handlers) next pipeline =
    (addLast fuel (some b) next pipeline).bind fun (next, pipeline) =>
      addAll fuel handlers next pipeline := rfl

theorem Holds.of_addAll (h : Holds next pipeline done) (fuel : ℕ) (hnodup : (done ++ handlers).Nodup) :
    (∀ next' pipeline', addAll fuel handlers next pipeline = some (next', pipeline') →
      Holds next' pipeline' (done ++ handlers)) ∧
    ((done ++ handlers).length ≤ fuel → (addAll fuel handlers next pipeline).isSome = true) := by
  induction handlers generalizing next pipeline done with
  | nil =>
      rw [List.append_nil]
      refine ⟨?_, fun _ => rfl⟩
      rintro _ _ ⟨⟩
      exact h
  | cons b handlers ih =>
      have hb : b ∉ done := by
        intro hmem
        exact List.disjoint_of_nodup_append hnodup hmem List.mem_cons_self
      obtain ⟨hadd, hends⟩ := h.of_addLast fuel (List.Nodup.of_append_left hnodup) hb
      rw [List.append_cons] at hnodup ⊢
      rw [addAll_cons]
      constructor
      · intro next' pipeline' hall
        obtain ⟨⟨next₁, pipeline₁⟩, hfirst, hrest⟩ := Option.bind_eq_some_iff.mp hall
        exact (ih (hadd next₁ pipeline₁ hfirst) hnodup).1 next' pipeline' hrest
      · intro hfuel
        have hfirst := hends (by simp only [List.length_append] at hfuel; omega)
        obtain ⟨⟨next₁, pipeline₁⟩, hfirst⟩ := Option.isSome_iff_exists.mp hfirst
        rw [hfirst]
        exact (ih (hadd next₁ pipeline₁ hfirst) hnodup).2 hfuel

theorem accept_one : accept fuel handlers 1 =
    (addAll fuel handlers unlinked empty).map fun (next, pipeline) => (next, [pipeline]) := rfl

theorem accept_succ_of_some {connections : ℕ} {pipelines : List (ChannelHandlerPipeline η)}
    (h : accept fuel handlers connections = some (next, pipelines)) :
    accept fuel handlers (connections + 1) =
      (addAll fuel handlers next empty).map fun (next, pipeline) =>
        (next, pipelines ++ [pipeline]) := by
  rw [accept, h]
  rfl

theorem accept_add_of_none {connections : ℕ} (h : accept fuel handlers connections = none)
    (more : ℕ) : accept fuel handlers (connections + more) = none := by
  induction more with
  | zero => exact h
  | succ more ih =>
      rw [← Nat.add_assoc, accept, ih]
      rfl

omit [DecidableEq η] in
theorem Holds.reaches (h : Holds next pipeline handlers) : Reaches next pipeline handlers :=
  h.linked.returns_visit []

/-- The first connection. -/
theorem isolated_one (hnodup : handlers.Nodup) : Isolated handlers 1 := by
  obtain ⟨hholds, hends⟩ := holds_empty.of_addAll handlers.length hnodup
  obtain ⟨⟨next, pipeline⟩, hall⟩ := Option.isSome_iff_exists.mp (hends (Nat.le_refl _))
  refine ⟨handlers.length, next, [pipeline], ?_, rfl, ?_⟩
  · rw [accept_one, hall]
    rfl
  · intro pipeline' hmem
    rw [List.mem_singleton.mp hmem]
    exact (hholds next pipeline hall).reaches

/-- With at most one handler there are no links, whatever the number of connections. -/
theorem accept_of_length_le_one (fuel : ℕ) (hlength : handlers.length ≤ 1) (connections : ℕ) :
    ∃ pipelines, accept fuel handlers connections = some (unlinked, pipelines) ∧
      pipelines.length = connections ∧
      ∀ pipeline ∈ pipelines, Linked unlinked pipeline.headChannelHandler handlers := by
  obtain ⟨pipeline, hall, hlinked⟩ : ∃ pipeline,
      addAll fuel handlers unlinked empty = some (unlinked, pipeline) ∧
        Linked unlinked pipeline.headChannelHandler handlers := by
    match handlers, hlength with
    | [], _ => exact ⟨empty, rfl, .nil⟩
    | [b], _ => exact ⟨{ headChannelHandler := some b }, rfl, .cons .nil⟩
  induction connections with
  | zero => exact ⟨[], rfl, rfl, nofun⟩
  | succ connections ih =>
      obtain ⟨pipelines, haccept, hcount, hpipelines⟩ := ih
      refine ⟨pipelines ++ [pipeline], ?_, ?_, ?_⟩
      · rw [accept_succ_of_some haccept, hall]
        rfl
      · rw [List.length_append, hcount]
        rfl
      · intro pipeline' hmem
        rcases List.mem_append.mp hmem with hmem | hmem
        · exact hpipelines pipeline' hmem
        · rw [List.mem_singleton.mp hmem]
          exact hlinked

/-! ## The second pipeline -/

/-- The first handler is in a set that the links do not leave. -/
def LeadsBack (next : Links η) (a : η) : Prop := ∃ S : η → Prop, NeverEnds next S ∧ S a

omit [DecidableEq η] in
theorem LeadsBack.not_reaches (h : LeadsBack next a) (hhead : pipeline.headChannelHandler = some a) :
    ¬ Reaches next pipeline handlers := by
  obtain ⟨S, hS, ha⟩ := h
  intro hreaches
  rw [Reaches, hhead] at hreaches
  exact hS.not_visit ha [] ⟨handlers, hreaches⟩

/-- Where the links lead back, no handler can be added behind the first. -/
theorem LeadsBack.addAll_eq_none (h : LeadsBack next a) :
    addAll fuel (b :: handlers) next { headChannelHandler := some a } = none := by
  obtain ⟨S, hS, ha⟩ := h
  rw [addAll_cons, addLast_of_some rfl, findLast_of_neverEnds hS ha]
  rfl

theorem addAll_empty_cons :
    addAll fuel (a :: handlers) next empty =
      addAll fuel handlers next { headChannelHandler := some a } := rfl

/-- The second pipeline links its second handler behind the last one of the first. -/
theorem Holds.leadsBack (h : Holds next pipeline (a :: b :: handlers))
    {next' : Links η} {pipeline' : ChannelHandlerPipeline η}
    (hall : addAll fuel (a :: b :: handlers) next empty = some (next', pipeline')) :
    LeadsBack next' a := by
  rw [addAll_empty_cons, addAll_cons, addLast_of_some rfl] at hall
  obtain ⟨⟨next₁, pipeline₁⟩, hadd, hrest⟩ := Option.bind_eq_some_iff.mp hall
  obtain ⟨last, hlast, hresult⟩ := Option.map_eq_some_iff.mp hadd
  obtain ⟨rfl, rfl⟩ := Prod.mk.inj hresult
  obtain ⟨done, last', hdone⟩ : ∃ done last', a :: b :: handlers = done ++ [last'] := by
    rcases List.eq_nil_or_concat' (a :: b :: handlers) with hnil | hconcat
    · cases hnil
    · exact hconcat
  have hlinked : Linked next (some a) (done ++ [last']) := by
    have hlinked := h.linked
    rwa [hlinked.eq_some_of_cons.1, hdone] at hlinked
  obtain rfl := eq_of_findLast hlinked hlast
  have hleads : LeadsBack (Function.update next last (some b)) a := by
    refine ⟨fun c => c ∈ done ++ [last], fun c hc => ?_, ?_⟩
    · by_cases hlast : c = last
      · refine ⟨b, ?_, ?_⟩
        · rw [← hdone]
          exact List.mem_cons_of_mem _ List.mem_cons_self
        · rw [hlast, Function.update_self]
      · have hmem : c ∈ done := by
          rcases List.mem_append.mp hc with hmem | hmem
          · exact hmem
          · exact absurd (List.mem_singleton.mp hmem) hlast
        rw [Function.update_of_ne hlast]
        exact hlinked.next_mem hmem
    · change a ∈ done ++ [last]
      rw [← hdone]
      exact List.mem_cons_self
  cases handlers with
  | nil =>
      obtain ⟨rfl, -⟩ := Prod.mk.inj (Option.some.inj hrest)
      exact hleads
  | cons c handlers =>
      have hnone : addAll fuel (c :: handlers) (Function.update next last (some b))
          { headChannelHandler := some a } = none := hleads.addAll_eq_none
      cases hnone.symm.trans hrest

/-- What two connections leave, if building their pipelines ends. -/
theorem accept_two (hnodup : (a :: b :: handlers).Nodup) {pipelines : List (ChannelHandlerPipeline η)}
    (h : accept fuel (a :: b :: handlers) 2 = some (next, pipelines)) :
    LeadsBack next a ∧ ∃ pipeline ∈ pipelines, pipeline.headChannelHandler = some a := by
  obtain ⟨⟨next₁, pipelines₁⟩, hfirst, hrest⟩ := Option.bind_eq_some_iff.mp h
  obtain ⟨⟨next₂, pipeline₂⟩, hsecond, hresult⟩ := Option.map_eq_some_iff.mp hrest
  obtain ⟨rfl, rfl⟩ := Prod.mk.inj hresult
  rw [accept_one] at hfirst
  obtain ⟨⟨next₁, pipeline₁⟩, hall, hresult⟩ := Option.map_eq_some_iff.mp hfirst
  obtain ⟨rfl, rfl⟩ := Prod.mk.inj hresult
  have hholds : Holds next₁ pipeline₁ (a :: b :: handlers) :=
    (holds_empty.of_addAll fuel hnodup).1 next₁ pipeline₁ hall
  exact ⟨hholds.leadsBack hsecond, pipeline₁, List.mem_append_left _ (List.mem_singleton.mpr rfl),
    hholds.linked.eq_some_of_cons.1⟩

/-- From the third connection on, building does not end. -/
theorem accept_three (hnodup : (a :: b :: handlers).Nodup) :
    accept fuel (a :: b :: handlers) 3 = none := by
  cases haccept : accept fuel (a :: b :: handlers) 2 with
  | none => exact accept_add_of_none haccept 1
  | some result =>
      obtain ⟨next, pipelines⟩ := result
      obtain ⟨hleads, -⟩ := accept_two hnodup haccept
      rw [accept_succ_of_some haccept, addAll_empty_cons, hleads.addAll_eq_none]
      rfl

theorem not_isolated (hnodup : (a :: b :: handlers).Nodup) (more : ℕ) :
    ¬ Isolated (a :: b :: handlers) (2 + more) := by
  rintro ⟨fuel, next, pipelines, haccept, -, hreaches⟩
  cases more with
  | zero =>
      obtain ⟨hleads, pipeline, hmem, hhead⟩ := accept_two hnodup haccept
      exact hleads.not_reaches hhead (hreaches pipeline hmem)
  | succ more =>
      have hnone : accept fuel (a :: b :: handlers) (3 + more) = none :=
        accept_add_of_none (accept_three hnodup) more
      rw [show 2 + (more + 1) = 3 + more by omega, hnone] at haccept
      cases haccept

/-- Shared handlers are isolated exactly when there is one of them or one connection. -/
theorem isolated_iff (hnodup : handlers.Nodup) (connections : ℕ) :
    Isolated handlers connections ↔ handlers.length ≤ 1 ∨ connections ≤ 1 := by
  constructor
  · intro h
    by_contra hmore
    obtain ⟨hlength, hconnections⟩ := not_or.mp hmore
    obtain ⟨more, rfl⟩ := Nat.exists_eq_add_of_le (Nat.lt_of_not_le hconnections)
    rcases handlers with _ | ⟨a, _ | ⟨b, handlers⟩⟩
    · exact hlength (Nat.zero_le 1)
    · exact hlength (Nat.le_refl 1)
    · exact not_isolated hnodup more h
  · rintro (hlength | hconnections)
    · obtain ⟨pipelines, haccept, hcount, hpipelines⟩ :=
        accept_of_length_le_one 0 hlength connections
      exact ⟨0, unlinked, pipelines, haccept, hcount,
        fun pipeline hmem => (hpipelines pipeline hmem).returns_visit []⟩
    · match connections, hconnections with
      | 0, _ => exact ⟨0, unlinked, [], rfl, rfl, nofun⟩
      | 1, _ => exact isolated_one hnodup

theorem isolated_iff_two : Isolated [0, 1] 1 ↔ [0, 1].length ≤ 1 ∨ 1 ≤ 1 :=
  isolated_iff (by decide) 1

/-- Two handlers and two connections. -/
theorem not_isolated_two : ¬ Isolated [0, 1] 2 := not_isolated (by decide) 0

end Nets.ChannelHandlerPipeline
