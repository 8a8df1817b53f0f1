import Nets.Program.ServerBootstrap
import Nets.Verification.EventLoopGroup.Gathering

/-! # The loop of a new connection

`bind` accepts connections before `sync` creates the loops they are given to. The index of `next` is
in range exactly where some child loop has been stored before the first connection is accepted. -/

namespace Nets.ServerBootstrap

open Library EventLoopGroup

variable {s t : ServerBootstrap}

/-- Every call of `next` for a connection has found a loop at its index. -/
def InRange (s : ServerBootstrap) : Prop := ∀ call ∈ s.chosen, call.1 < call.2

/-- A connection is accepted when some thread of the child group has stored its loop. -/
def AcceptsStored (s : ServerBootstrap) : Action → Prop
  | .accept => ∃ worker ∈ s.childLoopGroup.workers, worker.hasPushed = true
  | _ => True

/-! ## The index of the child group -/

/-- Where `nextLoop_` is, between the two accesses of `next` and outside. -/
structure Indexed (s : ServerBootstrap) : Prop where
  gathered : Gathered s.childLoopGroup
  inRange : InRange s
  bound : s.childLoopGroup.nextLoop ≤ s.childLoopGroup.eventLoops.length
  index : s.acceptor ≠ .choosing → s.childLoopGroup.nextLoop = 0 ∨
    s.childLoopGroup.nextLoop < s.childLoopGroup.eventLoops.length

/-- A step of a group stores loops and leaves the index alone. -/
theorem index_of_step {group group' : EventLoopGroup Task} {action : EventLoopGroup.Action Task}
    (h : group.step action = some group') :
    group'.nextLoop = group.nextLoop ∧ group.eventLoops.length ≤ group'.eventLoops.length := by
  cases action with
  | loopEach | shutdown =>
      obtain ⟨-, h⟩ := Option.ite_none_right_eq_some.mp h
      obtain rfl := Option.some.inj h
      exact ⟨rfl, Nat.le_refl _⟩
  | submit =>
      simp only [EventLoopGroup.step, EventLoopGroup.stepLoopEach] at h
      split at h
      · split at h
        · obtain rfl := Option.some.inj h
          exact ⟨rfl, Nat.le_refl _⟩
        · obtain rfl := Option.some.inj h
          exact ⟨rfl, Nat.le_refl _⟩
      · obtain ⟨-, h⟩ := Option.ite_none_right_eq_some.mp h
        obtain rfl := Option.some.inj h
        exact ⟨rfl, Nat.le_refl _⟩
      · cases h
      · cases h
  | worker w =>
      obtain ⟨worker, -, hstep⟩ := Option.bind_eq_some_iff.mp h
      cases hphase : worker.phase with
      | running | returned => simp [stepWorker, hphase] at hstep
      | constructing =>
          simp only [stepWorker, hphase, Option.some.injEq] at hstep
          subst hstep
          exact ⟨rfl, Nat.le_refl _⟩
      | pushing =>
          simp only [stepWorker, hphase, Option.some.injEq] at hstep
          subst hstep
          refine ⟨rfl, ?_⟩
          change group.eventLoops.length ≤ (group.eventLoops ++ [w]).length
          rw [List.length_append]
          exact Nat.le_add_right _ _
  | loop w action =>
      obtain ⟨-, h⟩ := Option.ite_none_left_eq_some.mp h
      obtain ⟨worker, -, hstep⟩ := Option.bind_eq_some_iff.mp h
      obtain ⟨worker', rfl, -⟩ := advances_of_stepLoop hstep
      exact ⟨rfl, Nat.le_refl _⟩
  | stop i =>
      obtain ⟨stop, -, hstep⟩ := Option.bind_eq_some_iff.mp h
      cases stop with
      | examining k =>
          simp only [stepStop] at hstep
          split at hstep
          · obtain rfl := Option.some.inj hstep
            exact ⟨rfl, Nat.le_refl _⟩
          · obtain rfl := Option.some.inj hstep
            exact ⟨rfl, Nat.le_refl _⟩
      | stopping k | notifying k =>
          obtain ⟨_, _, _, -, -, -, rfl⟩ := advances_of_callLoop rfl hstep
          exact ⟨rfl, Nat.le_refl _⟩
      | returned => cases hstep

/-- A step of the child group. -/
theorem Indexed.child (hs : Indexed s) {action : EventLoopGroup.Action Task}
    (hstep : s.childLoopGroup.step action = some t.childLoopGroup)
    (hacceptor : t.acceptor = s.acceptor) (hchosen : t.chosen = s.chosen) : Indexed t := by
  obtain ⟨hnext, hlength⟩ := index_of_step hstep
  refine ⟨hs.gathered.step hstep, ?_, ?_, ?_⟩
  · rw [InRange, hchosen]
    exact hs.inRange
  · rw [hnext]
    exact Nat.le_trans hs.bound hlength
  · rw [hacceptor, hnext]
    intro hne
    exact (hs.index hne).imp id fun hlt => Nat.lt_of_lt_of_le hlt hlength

/-- A step that leaves the child group alone. -/
theorem Indexed.of_same (hs : Indexed s) (hgroup : t.childLoopGroup = s.childLoopGroup)
    (hacceptor : s.acceptor = .choosing → t.acceptor = .choosing) (hchosen : t.chosen = s.chosen) :
    Indexed t := by
  refine ⟨?_, ?_, ?_, ?_⟩
  · rw [hgroup]
    exact hs.gathered
  · rw [InRange, hchosen]
    exact hs.inRange
  · rw [hgroup]
    exact hs.bound
  · rw [hgroup]
    intro hne
    exact hs.index fun hchoosing => hne (hacceptor hchoosing)

theorem Indexed.user (hs : Indexed s) (h : s.stepUser = some t) : Indexed t := by
  rw [stepUser] at h
  split at h
  · split at h
    · obtain rfl := Option.some.inj h
      exact hs.of_same rfl id rfl
    · obtain ⟨group, -, rfl⟩ := Option.map_eq_some_iff.mp h
      exact hs.of_same rfl id rfl
  · obtain ⟨w, -, h⟩ := Option.bind_eq_some_iff.mp h
    obtain ⟨worker, -, h⟩ := Option.bind_eq_some_iff.mp h
    obtain ⟨loop, -, rfl⟩ := Option.map_eq_some_iff.mp h
    exact hs.of_same rfl id rfl
  · obtain ⟨worker, -, h⟩ := Option.bind_eq_some_iff.mp h
    obtain ⟨loop, -, rfl⟩ := Option.map_eq_some_iff.mp h
    exact hs.of_same rfl id rfl
  · obtain ⟨-, h⟩ := Option.ite_none_left_eq_some.mp h
    obtain rfl := Option.some.inj h
    exact hs.of_same rfl id rfl
  · obtain rfl := Option.some.inj h
    exact hs.of_same rfl id rfl
  · split at h
    · obtain rfl := Option.some.inj h
      exact hs.of_same rfl id rfl
    · obtain ⟨group, hgroup, rfl⟩ := Option.map_eq_some_iff.mp h
      rw [stepLoopEach] at hgroup
      split at hgroup
      · exact hs.child hgroup rfl rfl
      · exact hs.child hgroup rfl rfl
  · cases h

theorem length_pos_of_hasPushed {group : EventLoopGroup Task} (hs : Gathered group)
    {worker : Worker Task} (hworker : worker ∈ group.workers) (hpushed : worker.hasPushed = true) :
    0 < group.eventLoops.length := by
  obtain ⟨w, hw⟩ := List.mem_iff_getElem?.mp hworker
  apply List.length_pos_of_mem (a := w)
  rw [hs.stored, hw]
  exact hpushed

theorem Indexed.accept (hs : Indexed s) (hok : AcceptsStored s .accept) (h : s.accept = some t) :
    Indexed t := by
  obtain ⟨⟨hlistening, -⟩, h⟩ := Option.ite_none_right_eq_some.mp h
  obtain rfl := Option.some.inj h
  obtain ⟨worker, hworker, hpushed⟩ := hok
  have hpos := length_pos_of_hasPushed hs.gathered hworker hpushed
  have hlt : s.childLoopGroup.nextLoop < s.childLoopGroup.eventLoops.length := by
    have hindex := hs.index (by rw [hlistening]; exact nofun)
    omega
  refine ⟨hs.gathered.of_same rfl rfl rfl rfl hs.gathered.stops, ?_, hlt,
    fun hne => absurd rfl hne⟩
  exact forall_mem_append hs.inRange hlt

theorem Indexed.wrap (hs : Indexed s) (h : s.wrap = some t) : Indexed t := by
  obtain ⟨-, h⟩ := Option.ite_none_right_eq_some.mp h
  obtain rfl := Option.some.inj h
  have hgathered := hs.gathered
  have hbound := hs.bound
  by_cases hend : s.childLoopGroup.eventLoops.length ≤ s.childLoopGroup.nextLoop
  · have hwrap : s.childLoopGroup.wrap = { s.childLoopGroup with nextLoop := 0 } := if_pos hend
    refine ⟨?_, hs.inRange, ?_, fun _ => Or.inl ?_⟩
    · change Gathered s.childLoopGroup.wrap
      rw [hwrap]
      exact hgathered.of_same rfl rfl rfl rfl hgathered.stops
    · change s.childLoopGroup.wrap.nextLoop ≤ s.childLoopGroup.wrap.eventLoops.length
      rw [hwrap]
      exact Nat.zero_le _
    · change s.childLoopGroup.wrap.nextLoop = 0
      rw [hwrap]
  · have hwrap : s.childLoopGroup.wrap = s.childLoopGroup := if_neg hend
    refine ⟨?_, hs.inRange, ?_, fun _ => Or.inr ?_⟩
    · change Gathered s.childLoopGroup.wrap
      rwa [hwrap]
    · change s.childLoopGroup.wrap.nextLoop ≤ s.childLoopGroup.wrap.eventLoops.length
      rwa [hwrap]
    · change s.childLoopGroup.wrap.nextLoop < s.childLoopGroup.wrap.eventLoops.length
      rw [hwrap]
      omega

theorem Indexed.step (hs : Indexed s) {action : Action} (hok : AcceptsStored s action)
    (h : s.step action = some t) : Indexed t := by
  cases action with
  | user => exact hs.user h
  | main action =>
      obtain ⟨group, -, rfl⟩ := Option.map_eq_some_iff.mp h
      exact hs.of_same rfl id rfl
  | child action =>
      obtain ⟨group, hgroup, rfl⟩ := Option.map_eq_some_iff.mp h
      exact hs.child hgroup rfl rfl
  | doBind registered =>
      obtain ⟨⟨hunbound, -⟩, h⟩ := Option.ite_none_right_eq_some.mp h
      obtain rfl := Option.some.inj h
      refine hs.of_same rfl (fun hchoosing => ?_) rfl
      rw [hunbound] at hchoosing
      cases hchoosing
  | accept => exact hs.accept hok h
  | wrap => exact hs.wrap h

/-- With no loop stored, the index of an accepted connection is out of range. -/
theorem not_inRange_of_accept (hs : Indexed s) {action : Action} (hok : ¬ AcceptsStored s action)
    (h : s.step action = some t) : ¬ InRange t := by
  cases action with
  | accept =>
      obtain ⟨-, h⟩ := Option.ite_none_right_eq_some.mp h
      obtain rfl := Option.some.inj h
      have hempty : s.childLoopGroup.eventLoops.length = 0 := by
        rw [List.length_eq_zero_iff, List.eq_nil_iff_forall_not_mem]
        intro w hw
        obtain ⟨worker, hworker, hpushed⟩ :=
          (Option.any_eq_true ..).mp ((hs.gathered.stored w).mp hw)
        exact hok ⟨worker, List.mem_of_getElem? hworker, hpushed⟩
      intro hrange
      have hlast := hrange (s.childLoopGroup.nextLoop, s.childLoopGroup.eventLoops.length)
        (List.mem_append_right _ (List.mem_singleton.mpr rfl))
      omega
  | user | main | child | doBind | wrap => exact absurd trivial hok

theorem indexed_of_initial (hs : system.initial s) : Indexed s := by
  obtain ⟨kDefaultNumbOfChildEventLoops, numOfChildEventLoops, hs⟩ := hs
  obtain ⟨mainLoopGroup, -, hs⟩ := Option.bind_eq_some_iff.mp hs
  obtain ⟨childLoopGroup, hchild, rfl⟩ := Option.map_eq_some_iff.mp hs
  obtain ⟨-, hnext, heventLoops, -⟩ := create_eq hchild
  refine ⟨gathered_of_create hchild, nofun, ?_, fun _ => Or.inl hnext⟩
  change childLoopGroup.nextLoop ≤ childLoopGroup.eventLoops.length
  rw [hnext]
  exact Nat.zero_le _

/-- `next` finds a loop for every connection, in every state a run passes through, exactly in the
runs that accept connections only when a child loop has been stored. -/
theorem inRange_iff_acceptsStored (hs : system.initial s) (actions : List Action) :
    system.Along InRange s actions ↔ system.StepsMeet AcceptsStored s actions := by
  refine System.along_iff_stepsMeet (I := Indexed) _ (fun s hs => hs.inRange) ?_ ?_
    (indexed_of_initial hs) actions
  · intro s action t hs hok h
    exact hs.step hok h
  · intro s action t hs hok h
    exact not_inRange_of_accept hs hok h

/-- A client connects between `bind` and `sync`. -/
def earlyRun : List Action :=
  [.user, .user, .user, .main (.worker 0), .main (.worker 0), .user, .user, .user, .user,
    .main (.loop 0 (.advance [])), .main (.loop 0 (.advance [])), .main (.loop 0 (.advance [])),
    .main (.loop 0 (.advance [])), .main (.loop 0 (.advance [])), .doBind true, .user,
    .main (.loop 0 (.advance [])), .main (.loop 0 (.advance [.channel])), .accept]

theorem inRange_iff_acceptsStored_early : ∃ s, create 8 1 = some s ∧
    (system.Along InRange s earlyRun ↔ system.StepsMeet AcceptsStored s earlyRun) := by
  obtain ⟨s, hs⟩ : ∃ s, create 8 1 = some s := ⟨_, rfl⟩
  exact ⟨s, hs, inRange_iff_acceptsStored ⟨8, 1, hs⟩ earlyRun⟩

/-- The index is 0, and there is no loop. -/
theorem next_without_loop : ∃ s, system.Reachable s ∧ s.user = .bound ∧ s.chosen = [(0, 0)] := by
  obtain ⟨s, hs⟩ : ∃ s, create 8 1 = some s := ⟨_, rfl⟩
  have hinitial : system.Reachable s := .initial ⟨8, 1, hs⟩
  apply hinitial.exists_of_runUnder _ earlyRun
  have hrun : (create 8 1).all (fun s => (system.runUnder (fun _ _ => True) s earlyRun).any
      fun t => decide (t.user = .bound ∧ t.chosen = [(0, 0)])) = true := by
    decide +kernel
  rwa [hs] at hrun

end Nets.ServerBootstrap
