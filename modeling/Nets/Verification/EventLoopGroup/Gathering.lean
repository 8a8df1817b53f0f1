import Nets.Library.Registers
import Nets.Program.EventLoopGroup
import Nets.Verification.EventLoop.Equations

/-! # The loops of a group

A loop that has been stored stays stored, `run` is entered once, and where `loopEach` has returned
all loops are stored. -/

namespace Nets.EventLoopGroup

open Library

variable {α : Type} {s t : EventLoopGroup α} {worker worker' : Worker α} {w : ℕ}

/-- The loop of the thread is in `eventLoops_`. -/
def Worker.hasPushed (worker : Worker α) : Bool :=
  match worker.phase with
  | .running | .returned => true
  | .constructing | .pushing => false

/-- The thread has executed `running_ = true`. -/
def Worker.hasEntered (worker : Worker α) : Bool :=
  match worker.phase with
  | .returned => true
  | .running => !isOutside worker.loop.phase
  | .constructing | .pushing => false

def Worker.isStopped (worker : Worker α) : Bool := worker.hasEntered && !worker.loop.running

/-! ## Steps of one loop -/

/-- Only the entry of `run` sets `running_`. -/
theorem running_of_step {loop loop' : EventLoop Thread α} {action : EventLoop.Action Thread α}
    (h : loop.step action = some loop') (hrunning : loop.running = false)
    (hentered : isRun action = true → isOutside loop.phase = false) : loop'.running = false := by
  cases action with
  | addTask thread task =>
      obtain ⟨-, hresult⟩ := Option.ite_none_right_eq_some.mp h
      rw [← Option.some.inj hresult]
      exact hrunning
  | execute thread task =>
      obtain ⟨-, hresult⟩ := Option.ite_none_right_eq_some.mp h
      rw [← Option.some.inj hresult]
      obtain heq | heq := EventLoop.execute_eq thread task loop
      · rwa [heq]
      · rw [heq]
        exact hrunning
  | shutdown thread =>
      obtain ⟨-, hresult⟩ := Option.ite_none_right_eq_some.mp h
      rw [← Option.some.inj hresult]
      rfl
  | finishCall thread =>
      obtain ⟨eventFd, rfl, -⟩ := EventLoop.finishCall_spec h
      exact hrunning
  | advance polled =>
      obtain ⟨-, hadvanced⟩ := Option.ite_none_right_eq_some.mp h
      have hinside := hentered rfl
      rw [EventLoop.advance] at hadvanced
      split at hadvanced
      case h_1 hphase =>
          rw [hphase] at hinside
          cases hinside
      case h_7 =>
          obtain ⟨-, hresult⟩ := Option.ite_none_right_eq_some.mp hadvanced
          rw [← Option.some.inj hresult]
          exact hrunning
      case h_11 => cases hadvanced
      all_goals
        rw [← Option.some.inj hadvanced]
        exact hrunning
  | throwOut =>
      obtain ⟨-, hthrown⟩ := Option.ite_none_right_eq_some.mp h
      rw [EventLoop.throwOut_eq hthrown]
      exact hrunning

/-- Calls leave `run` where it is. -/
theorem phase_of_call {loop loop' : EventLoop Thread α} {action : EventLoop.Action Thread α}
    (h : loop.step action = some loop') (hcall : isRun action = false) :
    loop'.phase = loop.phase := by
  cases action with
  | addTask thread task | shutdown thread =>
      obtain ⟨-, hresult⟩ := Option.ite_none_right_eq_some.mp h
      rw [← Option.some.inj hresult]
      rfl
  | execute thread task =>
      obtain ⟨-, hresult⟩ := Option.ite_none_right_eq_some.mp h
      rw [← Option.some.inj hresult]
      obtain heq | heq := EventLoop.execute_eq thread task loop
      · rw [heq]
      · rw [heq]
        rfl
  | finishCall thread =>
      obtain ⟨eventFd, rfl, -⟩ := EventLoop.finishCall_spec h
      rfl
  | advance | throwOut => cases hcall

/-- What a thread of the group, and a call to its loop, never take back. -/
structure Advances (worker worker' : Worker α) : Prop where
  pushed : worker'.hasPushed = worker.hasPushed
  entered : worker.hasEntered = true → worker'.hasEntered = true
  stopped : worker.isStopped = true → worker'.isStopped = true

theorem Advances.refl (worker : Worker α) : Advances worker worker := ⟨rfl, id, id⟩

theorem isStopped_iff :
    worker.isStopped = true ↔ worker.hasEntered = true ∧ worker.loop.running = false := by
  rw [Worker.isStopped, Bool.and_eq_true, Bool.not_eq_true']

theorem advances_of_call {loop : EventLoop Thread α} {action : EventLoop.Action Thread α}
    (h : worker.loop.step action = some loop) (hcall : isRun action = false) :
    Advances worker { worker with loop } := by
  have hphase := phase_of_call h hcall
  have hentered : ({ worker with loop } : Worker α).hasEntered = worker.hasEntered := by
    rw [Worker.hasEntered, Worker.hasEntered, hphase]
  refine ⟨rfl, fun h => hentered.trans h, fun hstopped => ?_⟩
  rw [isStopped_iff] at hstopped ⊢
  refine ⟨hentered.trans hstopped.1, running_of_step h hstopped.2 ?_⟩
  rw [hcall]
  exact nofun

theorem advances_of_stepLoop {action : EventLoop.Action Thread α}
    (h : s.stepLoop w worker action = some t) :
    ∃ worker', t = s.setWorker w worker' ∧ Advances worker worker' := by
  cases hphase : worker.phase with
  | constructing | pushing => simp [stepLoop, hphase] at h
  | returned =>
      simp only [stepLoop, hphase, Option.ite_none_left_eq_some, Bool.not_eq_true] at h
      obtain ⟨hcall, h⟩ := h
      obtain ⟨loop, hloop, rfl⟩ := Option.map_eq_some_iff.mp h
      have hadvances := advances_of_call hloop hcall
      rw [hphase] at hadvances
      exact ⟨_, rfl, hadvances⟩
  | running =>
      simp only [stepLoop, hphase] at h
      obtain ⟨loop, hloop, rfl⟩ := Option.map_eq_some_iff.mp h
      cases hrun : isRun action with
      | false =>
          have hadvances := advances_of_call hloop hrun
          rw [hphase] at hadvances
          exact ⟨_, rfl, hadvances⟩
      | true =>
          refine ⟨_, rfl, ?_, fun _ => ?_, fun hstopped => ?_⟩
          · rw [Worker.hasPushed, Worker.hasPushed, hphase]
            cases isOutside loop.phase with
            | true | false => rfl
          · rw [Worker.hasEntered]
            cases hout : isOutside loop.phase with
            | true => rfl
            | false => simp
          · rw [isStopped_iff] at hstopped ⊢
            have hinside : isOutside worker.loop.phase = false := by
              have hentered := hstopped.1
              rw [Worker.hasEntered, hphase] at hentered
              simpa using hentered
            refine ⟨?_, running_of_step hloop hstopped.2 fun _ => hinside⟩
            rw [Worker.hasEntered]
            cases hout : isOutside loop.phase with
            | true => rfl
            | false => simp

theorem advances_of_callLoop {i k : ℕ} {action : EventLoop.Action Thread α} {stop : Stop}
    (hcall : isRun action = false) (h : s.callLoop i k action stop = some t) :
    ∃ w worker worker', s.loopAt k = some (w, worker) ∧ Advances worker worker' ∧
      worker.loop.step action = some worker'.loop ∧
      t = (s.setWorker w worker').setStop i stop := by
  obtain ⟨⟨w, worker⟩, hw, h⟩ := Option.bind_eq_some_iff.mp h
  obtain ⟨loop, hloop, rfl⟩ := Option.map_eq_some_iff.mp h
  exact ⟨w, worker, _, hw, advances_of_call hloop hcall, hloop, rfl⟩

/-! ## Where the loops are stored -/

theorem loopAt_eq_some {k : ℕ} : s.loopAt k = some (w, worker) ↔
    s.eventLoops[k]? = some w ∧ s.workers[w]? = some worker := by
  simp only [loopAt, Option.bind_eq_some_iff, Option.map_eq_some_iff, Prod.mk.injEq]
  constructor
  · rintro ⟨_, hk, _, hw, rfl, rfl⟩
    exact ⟨hk, hw⟩
  · rintro ⟨hk, hw⟩
    exact ⟨w, hk, worker, hw, rfl, rfl⟩

/-- How many threads `loopEach` has created. -/
def Submitted (s : EventLoopGroup α) : Prop :=
  match s.loopEach with
  | .outside => s.workers.length = 0
  | .submitting i => s.workers.length = i ∧ i ≤ s.numOfEventLoops
  | .waiting | .returned => s.workers.length = s.numOfEventLoops

theorem Submitted.of_eq (hs : Submitted s) (hlength : t.workers.length = s.workers.length)
    (hloopEach : t.loopEach = s.loopEach) (hnumber : t.numOfEventLoops = s.numOfEventLoops) :
    Submitted t := by
  rw [Submitted, hlength, hloopEach, hnumber]
  exact hs

structure Gathered (s : EventLoopGroup α) : Prop where
  submitted : Submitted s
  nodup : s.eventLoops.Nodup
  stored : ∀ w, w ∈ s.eventLoops ↔ s.workers[w]?.any Worker.hasPushed = true
  complete : s.loopEach = .returned → s.eventLoops.length = s.numOfEventLoops
  stops : s.stops ≠ [] → s.loopEach = .returned

theorem Gathered.lt (hs : Gathered s) (hw : w ∈ s.eventLoops) : w < s.workers.length := by
  obtain ⟨worker, hworker, -⟩ := (Option.any_eq_true ..).mp ((hs.stored w).mp hw)
  exact (List.getElem?_eq_some_iff.mp hworker).1

/-- Where `loopEach` has returned, every loop is stored. -/
theorem Gathered.hasPushed (hs : Gathered s) (hreturned : s.loopEach = .returned)
    (hw : s.workers[w]? = some worker) : worker.hasPushed = true := by
  have hlength : s.workers.length = s.numOfEventLoops := by
    have hsubmitted := hs.submitted
    rwa [Submitted, hreturned] at hsubmitted
  have hsubset : s.eventLoops ⊆ List.range s.workers.length := by
    intro v hv
    exact List.mem_range.mpr (hs.lt hv)
  have hperm : s.eventLoops.Perm (List.range s.workers.length) := by
    apply (List.subperm_of_subset hs.nodup hsubset).perm_of_length_le
    apply Nat.le_of_eq
    rw [List.length_range, hs.complete hreturned, hlength]
  have hmem : w ∈ s.eventLoops := by
    rw [hperm.mem_iff, List.mem_range]
    exact (List.getElem?_eq_some_iff.mp hw).1
  have hpushed := (hs.stored w).mp hmem
  rwa [hw] at hpushed

/-- A step of a thread of the group after the storing of its loop, or a call to its loop. -/
theorem Gathered.setWorker (hs : Gathered s) (hw : s.workers[w]? = some worker)
    (hpushed : worker'.hasPushed = worker.hasPushed) : Gathered (s.setWorker w worker') := by
  have hlength : (s.workers.set w worker').length = s.workers.length := List.length_set ..
  refine ⟨?_, hs.nodup, fun v => ?_, hs.complete, hs.stops⟩
  · exact hs.submitted.of_eq hlength rfl rfl
  · rw [EventLoopGroup.setWorker, hs.stored v]
    by_cases hne : v = w
    · rw [hne, List.getElem?_set_self (List.getElem?_eq_some_iff.mp hw).1, hw, Option.any_some,
        Option.any_some, hpushed]
    · rw [List.getElem?_set_ne (Ne.symm hne)]

/-- A step that leaves the loops alone. -/
theorem Gathered.of_same (hs : Gathered s) (hworkers : t.workers = s.workers)
    (heventLoops : t.eventLoops = s.eventLoops) (hloopEach : t.loopEach = s.loopEach)
    (hnumber : t.numOfEventLoops = s.numOfEventLoops)
    (hstops : t.stops ≠ [] → s.loopEach = .returned) : Gathered t := by
  refine ⟨hs.submitted.of_eq (by rw [hworkers]) hloopEach hnumber, ?_, ?_, ?_, ?_⟩
  · rw [heventLoops]
    exact hs.nodup
  · rw [heventLoops, hworkers]
    exact hs.stored
  · rw [heventLoops, hloopEach, hnumber]
    exact hs.complete
  · rw [hloopEach]
    exact hstops

/-- `loopEach` creates a thread, which has stored nothing yet. -/
theorem Gathered.submit (hs : Gathered s) (h : s.stepLoopEach = some t) : Gathered t := by
  have hsubmitted := hs.submitted
  rw [Submitted] at hsubmitted
  have hfree : s.loopEach ≠ .returned → s.stops = [] := by
    intro hne
    by_contra hstops
    exact hne (hs.stops hstops)
  cases hloopEach : s.loopEach with
  | outside | returned => simp [stepLoopEach, hloopEach] at h
  | submitting i =>
      rw [hloopEach] at hsubmitted
      obtain ⟨hlength, hle⟩ := hsubmitted
      have hstops : s.stops = [] := hfree (by rw [hloopEach]; exact nofun)
      simp only [stepLoopEach, hloopEach] at h
      split at h
      case isTrue hlt =>
          obtain rfl := Option.some.inj h
          refine ⟨⟨?_, hlt⟩, hs.nodup, fun w => ?_, nofun, fun hne => absurd hstops hne⟩
          · rw [List.length_append, hlength]
            rfl
          · rw [hs.stored w]
            by_cases hw : w < s.workers.length
            · rw [List.getElem?_append_left hw]
            · rw [List.getElem?_eq_none (Nat.le_of_not_lt hw)]
              constructor
              · exact nofun
              · intro hpushed
                obtain ⟨worker, hworker, hpushed⟩ := (Option.any_eq_true ..).mp hpushed
                obtain hworker | ⟨-, rfl⟩ := getElem?_append_cases hworker
                · rw [List.getElem?_eq_none (Nat.le_of_not_lt hw)] at hworker
                  cases hworker
                · cases hpushed
      case isFalse hlt =>
          obtain rfl := Option.some.inj h
          refine ⟨?_, hs.nodup, hs.stored, nofun, fun hne => absurd hstops hne⟩
          change s.workers.length = s.numOfEventLoops
          omega
  | waiting =>
      rw [hloopEach] at hsubmitted
      have hstops : s.stops = [] := hfree (by rw [hloopEach]; exact nofun)
      simp only [stepLoopEach, hloopEach, Option.ite_none_right_eq_some] at h
      obtain ⟨hcomplete, h⟩ := h
      obtain rfl := Option.some.inj h
      exact ⟨hsubmitted, hs.nodup, hs.stored, fun _ => hcomplete, fun _ => rfl⟩

/-- A thread of the group stores its loop. -/
theorem Gathered.workerStep (hs : Gathered s) (hw : s.workers[w]? = some worker)
    (h : s.stepWorker w worker = some t) : Gathered t := by
  have hlength := (List.getElem?_eq_some_iff.mp hw).1
  cases hphase : worker.phase with
  | running | returned => simp [stepWorker, hphase] at h
  | constructing =>
      simp only [stepWorker, hphase, Option.some.injEq] at h
      subst h
      apply hs.setWorker hw
      rw [Worker.hasPushed, Worker.hasPushed, hphase]
  | pushing =>
      simp only [stepWorker, hphase, Option.some.injEq] at h
      subst h
      have hnew : w ∉ s.eventLoops := by
        intro hmem
        have hpushed := (hs.stored w).mp hmem
        rw [hw, Option.any_some, Worker.hasPushed, hphase] at hpushed
        cases hpushed
      have hwaiting : s.loopEach ≠ .returned := by
        intro hreturned
        have hpushed := hs.hasPushed hreturned hw
        rw [Worker.hasPushed, hphase] at hpushed
        cases hpushed
      refine ⟨hs.submitted.of_eq (List.length_set ..) rfl rfl, ?_, fun v => ?_,
        fun hreturned => absurd hreturned hwaiting, hs.stops⟩
      · apply (List.perm_append_singleton w s.eventLoops).nodup_iff.mpr
        exact List.nodup_cons.mpr ⟨hnew, hs.nodup⟩
      · change v ∈ s.eventLoops ++ [w] ↔ (s.workers.set w _)[v]?.any Worker.hasPushed = true
        rw [List.mem_append, List.mem_singleton, hs.stored v]
        by_cases hne : v = w
        · rw [hne, List.getElem?_set_self hlength, Option.any_some]
          exact ⟨fun _ => rfl, fun _ => Or.inr rfl⟩
        · rw [List.getElem?_set_ne (Ne.symm hne)]
          exact ⟨fun hv => hv.resolve_right hne, Or.inl⟩

/-- A call to the loop at a place. -/
theorem Gathered.callLoop (hs : Gathered s) {i k : ℕ} {action : EventLoop.Action Thread α}
    {stop : Stop} (hcall : isRun action = false) (hstops : s.stops ≠ [])
    (h : s.callLoop i k action stop = some t) : Gathered t := by
  obtain ⟨w, worker, worker', hloop, hadvances, -, rfl⟩ := advances_of_callLoop hcall h
  have hw := (loopAt_eq_some.mp hloop).2
  have hset := hs.setWorker hw hadvances.pushed
  exact hset.of_same rfl rfl rfl rfl fun _ => hs.stops hstops

theorem Gathered.step (hs : Gathered s) {action : Action α} (h : s.step action = some t) :
    Gathered t := by
  cases action with
  | loopEach =>
      obtain ⟨houtside, h⟩ := Option.ite_none_right_eq_some.mp h
      obtain rfl := Option.some.inj h
      have hlength : s.workers.length = 0 := by
        have hsubmitted := hs.submitted
        rwa [Submitted, houtside] at hsubmitted
      refine ⟨⟨hlength, Nat.zero_le _⟩, hs.nodup, hs.stored, nofun, fun hne => ?_⟩
      have hreturned := hs.stops hne
      rw [houtside] at hreturned
      cases hreturned
  | submit => exact hs.submit h
  | shutdown =>
      obtain ⟨hreturned, h⟩ := Option.ite_none_right_eq_some.mp h
      obtain rfl := Option.some.inj h
      exact hs.of_same rfl rfl rfl rfl fun _ => hreturned
  | worker w =>
      obtain ⟨worker, hw, hstep⟩ := Option.bind_eq_some_iff.mp h
      exact hs.workerStep hw hstep
  | loop w action =>
      obtain ⟨-, h⟩ := Option.ite_none_left_eq_some.mp h
      obtain ⟨worker, hw, hstep⟩ := Option.bind_eq_some_iff.mp h
      obtain ⟨worker', rfl, hadvances⟩ := advances_of_stepLoop hstep
      exact hs.setWorker hw hadvances.pushed
  | stop i =>
      obtain ⟨stop, hi, hstep⟩ := Option.bind_eq_some_iff.mp h
      have hstops : s.stops ≠ [] := List.ne_nil_of_mem (List.mem_of_getElem? hi)
      cases stop with
      | examining k =>
          simp only [stepStop] at hstep
          split at hstep
          · obtain rfl := Option.some.inj hstep
            exact hs.of_same rfl rfl rfl rfl fun _ => hs.stops hstops
          · obtain rfl := Option.some.inj hstep
            exact hs.of_same rfl rfl rfl rfl fun _ => hs.stops hstops
      | stopping k => exact hs.callLoop rfl hstops hstep
      | notifying k => exact hs.callLoop rfl hstops hstep
      | returned => cases hstep

theorem create_eq {numOfEventLoops : ℕ} (h : create numOfEventLoops = some s) :
    0 < s.numOfEventLoops ∧ s.nextLoop = 0 ∧ s.eventLoops = [] ∧ s.workers = [] ∧
      s.loopEach = .outside ∧ s.stops = [] := by
  rw [create] at h
  split at h
  · cases h
  case isFalse hne =>
      obtain rfl := Option.some.inj h
      exact ⟨Nat.pos_of_ne_zero hne, rfl, rfl, rfl, rfl, rfl⟩

theorem gathered_of_create {numOfEventLoops : ℕ} (h : create numOfEventLoops = some s) :
    Gathered s := by
  obtain ⟨-, -, heventLoops, hworkers, hloopEach, hstops⟩ := create_eq h
  refine ⟨?_, ?_, fun w => ?_, ?_, fun hne => absurd hstops hne⟩
  · rw [Submitted, hloopEach, hworkers]
    rfl
  · rw [heventLoops]
    exact List.nodup_nil
  · rw [heventLoops, hworkers]
    constructor
    · exact nofun
    · exact nofun
  · rw [hloopEach]
    exact nofun

theorem gathered_of_reachable {ok : EventLoopGroup α → Action α → Prop}
    (hs : (system α).ReachableUnder ok s) : Gathered s := by
  apply hs.invariant
  · rintro s ⟨numOfEventLoops, hs⟩
    exact gathered_of_create hs
  · intro s action t hs _ ht
    exact hs.step ht

/-- What can be computed of the end of a run of a new group holds in a state that is reached. -/
theorem exists_reachableUnder {ok : EventLoopGroup α → Action α → Prop} [∀ s a, Decidable (ok s a)]
    {P : EventLoopGroup α → Prop} [DecidablePred P] (numOfEventLoops : ℕ)
    (actions : List (Action α))
    (h : ((create numOfEventLoops).any fun s =>
      ((system α).runUnder ok s actions).any (fun t => decide (P t))) = true) :
    ∃ s, (system α).ReachableUnder ok s ∧ P s := by
  obtain ⟨s, hs, hrun⟩ := (Option.any_eq_true ..).mp h
  have hinitial : (system α).ReachableUnder ok s := .initial ⟨numOfEventLoops, hs⟩
  exact hinitial.exists_of_runUnder _ actions hrun

end Nets.EventLoopGroup
