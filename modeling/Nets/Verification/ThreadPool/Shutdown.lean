import Nets.Verification.ThreadPool.Core

/-! # The count and the state through a shutdown

A call of `shutdown` that has switched the state finds it switched from then on, and after it has
observed the count 0 there is nothing left to count. -/

namespace Nets.ThreadPool

open Library

variable {α : Type} {s t : ThreadPool α}

/-- The call has switched `ctl_`. -/
def Stop.hasSwitched : Stop → Bool
  | .notifyingFull | .notifyingEmpty | .waiting | .draining | .popping | .returned => true
  | .checking | .alreadyShutdown | .loading | .comparing _ => false

/-- `notifyBlockingThread` has returned to the call. -/
def Stop.hasNotified : Stop → Bool
  | .waiting | .draining | .popping | .returned => true
  | _ => false

/-- The call has observed that no thread is left. -/
def Stop.hasObserved : Stop → Bool
  | .draining | .popping | .returned => true
  | _ => false

structure Stopping (s : ThreadPool α) : Prop where
  switched : ∀ stop ∈ s.stops, stop.hasSwitched = true → isShutdown s.ctl = true
  observed : ∀ stop ∈ s.stops, stop.hasObserved = true → s.count = 0

theorem Stop.hasSwitched_of_hasNotified {stop : Stop} (h : stop.hasNotified = true) :
    stop.hasSwitched = true := by
  cases stop with
  | waiting | draining | popping | returned => rfl
  | checking | alreadyShutdown | loading | comparing | notifyingFull | notifyingEmpty => cases h

theorem Stop.hasNotified_of_hasObserved {stop : Stop} (h : stop.hasObserved = true) :
    stop.hasNotified = true := by
  cases stop with
  | draining | popping | returned => rfl
  | checking | alreadyShutdown | loading | comparing | notifyingFull | notifyingEmpty | waiting =>
      cases h

/-- A step that leaves the calls of `shutdown` alone. -/
theorem Stopping.change (hs : Stopping s) (hcounted : Counted s) (hfits : Fits s)
    (h : CountChange s t) (hstops : ∀ stop ∈ t.stops, stop ∈ s.stops ∨ stop = .checking) :
    Stopping t := by
  constructor
  · intro stop hstop hswitched
    obtain hold | rfl := hstops stop hstop
    · exact hcounted.isShutdown_change hfits h (hs.switched stop hold hswitched)
    · cases hswitched
  · intro stop hstop hobserved
    obtain hold | rfl := hstops stop hstop
    · have hshutdown := hs.switched stop hold
        (Stop.hasSwitched_of_hasNotified (Stop.hasNotified_of_hasObserved hobserved))
      have hle := hcounted.count_change hfits h hshutdown
      have hzero := hs.observed stop hold hobserved
      omega
    · cases hobserved

theorem Stopping.setStop (hs : Stopping s) {i : ℕ} {stop' : Stop} (hcount : t.count = s.count)
    (hstops : t.stops = s.stops.set i stop')
    (hshutdown : isShutdown s.ctl = true → isShutdown t.ctl = true)
    (hswitched : stop'.hasSwitched = true → isShutdown t.ctl = true)
    (hobserved : stop'.hasObserved = true → s.count = 0) : Stopping t := by
  constructor
  · rw [hstops]
    apply forall_mem_set
    · intro stop hstop h
      exact hshutdown (hs.switched stop hstop h)
    · exact hswitched
  · rw [hstops, hcount]
    exact forall_mem_set hs.observed hobserved

theorem Stopping.stopStep (hs : Stopping s) (hcounted : Counted s) (hfits : Fits s) {i : ℕ}
    {stop : Stop} (hi : s.stops[i]? = some stop) (h : StopStep i s stop t) : Stopping t := by
  have hmem := List.mem_of_getElem? hi
  have hswitched := hs.switched stop hmem
  have hobserved := hs.observed stop hmem
  cases h with
  | refuse | check | load | retry => exact hs.setStop rfl rfl id nofun nofun
  | switch =>
      have hshutdown := hcounted.isShutdown_switch hfits
      exact hs.setStop rfl rfl (fun _ => hshutdown) (fun _ => hshutdown) nofun
  | notifyFull | notifyEmpty => exact hs.setStop rfl rfl id (fun _ => hswitched rfl) nofun
  | awake hmutex hcount =>
      rw [hcounted.numOfActiveThreads hfits] at hcount
      exact hs.setStop rfl rfl id (fun _ => hswitched rfl) (fun _ => hcount)
  | drained | pop | leave =>
      exact hs.setStop rfl rfl id (fun _ => hswitched rfl) (fun _ => hobserved rfl)

theorem Stopping.step (hs : Stopping s) (hcounted : Counted s) (hfits : Fits s)
    {action : Action α} (h : s.step action = some t) : Stopping t := by
  have hchange := (step_count h).1
  cases action with
  | execute task =>
      obtain rfl := Option.some.inj h
      exact hs.change hcounted hfits hchange fun stop hstop => Or.inl hstop
  | shutdown =>
      obtain rfl := Option.some.inj h
      apply hs.change hcounted hfits hchange
      intro stop hstop
      exact (List.mem_append.mp hstop).imp id List.mem_singleton.mp
  | worker w =>
      obtain ⟨worker, -, hstep⟩ := Option.bind_eq_some_iff.mp h
      have hstops : t.stops = s.stops := by cases workerStep_of_stepWorker hstep <;> rfl
      exact hs.change hcounted hfits hchange fun stop hstop => Or.inl (hstops ▸ hstop)
  | call i created =>
      obtain ⟨call, -, hstep⟩ := Option.bind_eq_some_iff.mp h
      have hstops : t.stops = s.stops := by cases callStep_of_stepCall hstep <;> rfl
      exact hs.change hcounted hfits hchange fun stop hstop => Or.inl (hstops ▸ hstop)
  | stop i =>
      obtain ⟨stop, hi, hstep⟩ := Option.bind_eq_some_iff.mp h
      exact hs.stopStep hcounted hfits hi (stopStep_of_stepStop hstep)
  | queue | wakeUp | expire =>
      obtain ⟨q, -, rfl⟩ := Option.map_eq_some_iff.mp h
      exact hs.change hcounted hfits hchange fun stop hstop => Or.inl hstop

theorem stopping_of_reachable {ok : ThreadPool α → Action α → Prop}
    (hs : (system α).ReachableUnder ok s) (hfits : Fits s) : Counted s ∧ Stopping s := by
  apply counted_induction _ _ hs hfits
  · intro s hs
    constructor
    · rw [hs.stops]
      exact nofun
    · rw [hs.stops]
      exact nofun
  · intro s action t hfits hcounted hs _ ht
    exact hs.step hcounted hfits ht

/-! ## Runs in which threads are created -/

/-- Constructing a thread does not fail. -/
def CreatesThreads (s : ThreadPool α) (action : Action α) : Prop :=
  ∀ i task isCore, action = .call i false → s.calls[i]? ≠ some (.constructing task isCore)

def Unthrown (s : ThreadPool α) : Prop := ∀ call ∈ s.calls, call.isThrown = false

theorem isThrown_notAdded (task : α) (isCore : Bool) : (notAdded task isCore).isThrown = false := by
  cases isCore with
  | true => rfl
  | false => rfl

theorem unthrown_preserved : Preserved (α := α) CreatesThreads Unthrown where
  execute s task hs _ := forall_mem_append hs rfl
  shutdown s hs _ := hs
  worker s w worker t hs _ hw h := by
    cases h <;> exact hs
  call s i created call t hs hok hi h := by
    cases h with
    | refuse | addCore | push | addOther | compare | increment | retry | lockRunning | lockStopped
    | construct | emplace | finish => exact forall_mem_set hs rfl
    | fail task isCore hfail => exact forall_mem_set hs (isThrown_notAdded task isCore)
    | retreat task isCore => exact forall_mem_set hs (isThrown_notAdded task isCore)
    | leave task r result hposition =>
        cases result with
        | true | false => exact forall_mem_set hs rfl
    | throwOut task isCore hcreated =>
        subst hcreated
        exact absurd hi (hok i task isCore rfl)
  stop s i stop t hs _ _ h := by
    cases h <;> exact hs
  queue s thread woken q hs _ _ := hs
  wakeUp s thread q hs _ := hs
  expire s thread q hs _ := hs

theorem unthrown_of_reachable (hs : (system α).ReachableUnder CreatesThreads s) : Unthrown s := by
  apply unthrown_preserved.reachable _ hs
  intro _ _ _ s hs
  rw [Unthrown, (created_of_create hs).calls]
  exact nofun

/-- The failure of a constructor is an action of its own. -/
def Action.isCreating : Action α → Bool
  | .call _ created => created
  | _ => true

theorem createsThreads_of_isCreating {action : Action α} (h : action.isCreating = true) :
    CreatesThreads s action := by
  rintro i task isCore rfl
  cases h

theorem next_creatingThreads (hs : (system α).ReachableUnder CreatesThreads s) {action : Action α}
    (h : s.step action = some t) (hcreating : action.isCreating = true) :
    (system α).ReachableUnder CreatesThreads t :=
  .step hs (createsThreads_of_isCreating hcreating) h

theorem exists_creatingThreads {P : ThreadPool α → Prop} [DecidablePred P]
    (corePoolSize maximumPoolSize maxQueueSize : ℕ) (actions : List (Action α))
    (h : ((create corePoolSize maximumPoolSize maxQueueSize).any fun s =>
      ((system α).runUnder (fun _ action => action.isCreating = true) s actions).any
        (fun t => decide (P t))) = true) :
    ∃ s, (system α).ReachableUnder CreatesThreads s ∧ P s := by
  obtain ⟨s, hs, hP⟩ := exists_reachableUnder corePoolSize maximumPoolSize maxQueueSize actions h
  refine ⟨s, hs.mono ?_, hP⟩
  intro s action hcreating
  exact createsThreads_of_isCreating hcreating

theorem Unthrown.countP_isCounted (hs : Unthrown s) :
    s.calls.countP Call.isCounted = s.calls.countP Call.isAdding := by
  apply List.countP_congr
  intro call hcall
  rw [Call.isCounted, hs call hcall, Bool.or_false]

def CoreBounded (s : ThreadPool α) : Prop := s.coreCount ≤ s.corePoolSize

theorem CoreBounded.step (hs : CoreBounded s) (hrostered : Rostered s) (hcounted : Counted s)
    (hfits : Fits s) {action : Action α} (h : s.step action = some t) : CoreBounded t := by
  rw [CoreBounded, (step_count h).2.1]
  rw [CoreBounded] at hs
  cases step_core hrostered h with
  | same hcount | decrement hcount => omega
  | increment task hcomparing hcount =>
      have hallowed : s.count < s.corePoolSize := (hcounted.increment_allowed hfits hcomparing).2
      have hle := coreCount_le_count s
      omega

theorem rostered_of_reachable {ok : ThreadPool α → Action α → Prop}
    (hs : (system α).ReachableUnder ok s) : Rostered s :=
  (rostered_preserved ok).reachable (fun _ _ _ _ h => (created_of_create h).rostered) hs

theorem coreBounded_of_reachable {ok : ThreadPool α → Action α → Prop}
    (hs : (system α).ReachableUnder ok s) (hfits : Fits s) : CoreBounded s := by
  have hinvariant : Counted s ∧ Rostered s ∧ CoreBounded s := by
    apply counted_induction _ _ hs hfits
    · intro s hs
      refine ⟨hs.rostered, ?_⟩
      rw [CoreBounded, coreCount, hs.threadPool, hs.calls]
      exact Nat.zero_le _
    · intro s action t hfits hcounted hs _ ht
      exact ⟨(rostered_preserved (fun _ _ => True)).step hs.1 trivial ht,
        hs.2.step hs.1 hcounted hfits ht⟩
  exact hinvariant.2.2

/-- The low bits of `ctl_` count the threads and stay apart from the state, there are at most
`corePoolSize` core threads, the state only goes from running to shut down, and where `shutdown`
has observed the count 0 no thread is left or comes back. -/
theorem ctl_counts_threads (hs : (system α).ReachableUnder CreatesThreads s) (hfits : Fits s) :
    numOfActiveThreads s.ctl = s.threadPool.length + s.calls.countP Call.isAdding +
        s.workers.countP Worker.isErased ∧
      numOfActiveThreads s.ctl ≤ s.maximumPoolSize ∧
      s.ctl.toNat = (if isRunning s.ctl then 2 ^ kCountBits else 0) + numOfActiveThreads s.ctl ∧
      isRunning s.ctl = !isShutdown s.ctl ∧
      s.threadPool.countP s.isCoreThread ≤ s.corePoolSize ∧
      (∀ stop ∈ s.stops, stop.hasObserved = true → s.threadPool = []) ∧
      ∀ action t, s.step action = some t → isShutdown s.ctl = true → isShutdown t.ctl = true := by
  obtain ⟨hcounted, hstopping⟩ := stopping_of_reachable hs hfits
  have hunthrown := unthrown_of_reachable hs
  have hcount := hcounted.numOfActiveThreads hfits
  refine ⟨?_, ?_, ?_, hcounted.isRunning hfits, ?_, ?_, ?_⟩
  · rw [hcount, count, hunthrown.countP_isCounted]
  · rw [hcount]
    exact hcounted.bound
  · obtain ⟨running, hctl⟩ := hcounted.ctl
    have hlt := hfits.lt hcounted.bound
    rw [hcount, hctl, isRunning_encode hlt, toNat_encode hlt]
  · have hcore := coreBounded_of_reachable hs hfits
    rw [CoreBounded, coreCount] at hcore
    omega
  · intro stop hstop hobserved
    have hzero := hstopping.observed stop hstop hobserved
    rw [count] at hzero
    exact List.length_eq_zero_iff.mp (by omega)
  · intro action t ht hshutdown
    exact hcounted.isShutdown_change hfits (step_count ht).1 hshutdown

/-- One call of `execute` has created the only core thread. -/
theorem ctl_counts_threads_one :
    ∃ s : ThreadPool ℕ, s.threadPool = [0] ∧
      numOfActiveThreads s.ctl = s.threadPool.length + s.calls.countP Call.isAdding +
        s.workers.countP Worker.isErased := by
  obtain ⟨s, hs, hfits, hpool⟩ : ∃ s : ThreadPool ℕ,
      (system ℕ).ReachableUnder CreatesThreads s ∧ s.maximumPoolSize ≤ kCountMask.toNat ∧
        s.threadPool = [0] := by
    apply exists_creatingThreads 1 1 1
      [.execute 7, .call 0 true, .call 0 true, .call 0 true, .call 0 true, .call 0 true,
        .call 0 true]
    decide +kernel
  exact ⟨s, hpool, (ctl_counts_threads hs hfits).1⟩

end Nets.ThreadPool
