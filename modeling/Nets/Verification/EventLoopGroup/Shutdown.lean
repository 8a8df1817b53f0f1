import Nets.Verification.EventLoopGroup.Gathering

/-! # The shutdown of a group

`shutdown` skips a loop that does not report running, and `run` sets the flag without looking at
it. A loop is reached for good where its thread has entered `run` before it is examined. -/

namespace Nets.EventLoopGroup

open Library

variable {α : Type} {s t : EventLoopGroup α} {worker worker' : Worker α} {w : ℕ}

/-- The loop that is examined next. -/
def examined (s : EventLoopGroup α) : Stop → Option (Worker α)
  | .examining k => (s.loopAt k).map Prod.snd
  | .stopping _ | .notifying _ | .returned => none

/-- A loop is examined when its thread has executed `running_ = true`. -/
def ExaminesEntered (s : EventLoopGroup α) : Action α → Prop
  | .stop i => (s.stops[i]?.bind s.examined).all Worker.hasEntered = true
  | _ => True

instance (s : EventLoopGroup α) (action : Action α) : Decidable (ExaminesEntered s action) :=
  match action with
  | .stop i => inferInstanceAs (Decidable ((s.stops[i]?.bind s.examined).all Worker.hasEntered = true))
  | .loopEach | .submit | .shutdown | .worker _ | .loop _ _ => .isTrue trivial

/-! ## What a step leaves of the loops -/

/-- Every loop is where it was, and its thread has taken nothing back. -/
structure Moves (s t : EventLoopGroup α) : Prop where
  eventLoops : t.eventLoops = s.eventLoops
  loopEach : t.loopEach = s.loopEach
  workers : ∀ (w : ℕ) (worker' : Worker α), t.workers[w]? = some worker' →
    ∃ worker : Worker α, s.workers[w]? = some worker ∧ Advances worker worker'

theorem moves_of_same (heventLoops : t.eventLoops = s.eventLoops)
    (hloopEach : t.loopEach = s.loopEach) (hworkers : t.workers = s.workers) : Moves s t := by
  refine ⟨heventLoops, hloopEach, fun w worker hw => ⟨worker, ?_, .refl worker⟩⟩
  rwa [hworkers] at hw

theorem moves_setWorker (hw : s.workers[w]? = some worker) (h : Advances worker worker') :
    Moves s (s.setWorker w worker') := by
  refine ⟨rfl, rfl, fun v vorker hv => ?_⟩
  obtain ⟨rfl, rfl⟩ | ⟨-, hv⟩ := getElem?_set_cases hv
  · exact ⟨worker, hw, h⟩
  · exact ⟨vorker, hv, .refl vorker⟩

theorem moves_callLoop {i k : ℕ} {action : EventLoop.Action Thread α} {stop : Stop}
    (hcall : isRun action = false) (h : s.callLoop i k action stop = some t) : Moves s t := by
  obtain ⟨w, worker, worker', hloop, hadvances, -, rfl⟩ := advances_of_callLoop hcall h
  have hmoves := moves_setWorker (loopAt_eq_some.mp hloop).2 hadvances
  exact ⟨hmoves.eventLoops, hmoves.loopEach, hmoves.workers⟩

theorem moves_stepStop {i : ℕ} {stop : Stop} (h : s.stepStop i stop = some t) : Moves s t := by
  cases stop with
  | examining k =>
      simp only [stepStop] at h
      split at h
      · obtain rfl := Option.some.inj h
        exact moves_of_same rfl rfl rfl
      · obtain rfl := Option.some.inj h
        exact moves_of_same rfl rfl rfl
  | stopping k => exact moves_callLoop rfl h
  | notifying k => exact moves_callLoop rfl h
  | returned => cases h

/-- Once `loopEach` has returned, no step creates a loop or stores one. -/
theorem moves_of_step (hs : Gathered s) (hreturned : s.loopEach = .returned) {action : Action α}
    (h : s.step action = some t) : Moves s t := by
  cases action with
  | loopEach =>
      obtain ⟨houtside, -⟩ := Option.ite_none_right_eq_some.mp h
      rw [hreturned] at houtside
      cases houtside
  | submit => simp [step, stepLoopEach, hreturned] at h
  | shutdown =>
      obtain ⟨-, h⟩ := Option.ite_none_right_eq_some.mp h
      obtain rfl := Option.some.inj h
      exact moves_of_same rfl rfl rfl
  | worker w =>
      obtain ⟨worker, hw, hstep⟩ := Option.bind_eq_some_iff.mp h
      have hpushed := hs.hasPushed hreturned hw
      cases hphase : worker.phase with
      | running | returned => simp [stepWorker, hphase] at hstep
      | constructing | pushing =>
          rw [Worker.hasPushed, hphase] at hpushed
          cases hpushed
  | loop w action =>
      obtain ⟨-, h⟩ := Option.ite_none_left_eq_some.mp h
      obtain ⟨worker, hw, hstep⟩ := Option.bind_eq_some_iff.mp h
      obtain ⟨worker', rfl, hadvances⟩ := advances_of_stepLoop hstep
      exact moves_setWorker hw hadvances
  | stop i =>
      obtain ⟨stop, -, hstep⟩ := Option.bind_eq_some_iff.mp h
      exact moves_stepStop hstep

theorem Moves.loopAt (h : Moves s t) {k : ℕ} (hk : t.loopAt k = some (w, worker')) :
    ∃ worker, s.loopAt k = some (w, worker) ∧ Advances worker worker' := by
  obtain ⟨hk, hw⟩ := loopAt_eq_some.mp hk
  obtain ⟨worker, hworker, hadvances⟩ := h.workers w worker' hw
  rw [h.eventLoops] at hk
  exact ⟨worker, loopAt_eq_some.mpr ⟨hk, hworker⟩, hadvances⟩

/-! ## How far a shutdown has come -/

/-- How many loops the call is done with, out of `length`. -/
def Stop.done (length : ℕ) : Stop → ℕ
  | .examining k | .stopping k => k
  | .notifying k => k + 1
  | .returned => length

structure Halts (s : EventLoopGroup α) (stop : Stop) : Prop where
  done : ∀ j < stop.done s.eventLoops.length, ∀ w worker, s.loopAt j = some (w, worker) →
    worker.isStopped = true
  stopping : ∀ k, stop = .stopping k → ∀ w worker, s.loopAt k = some (w, worker) →
    worker.hasEntered = true

theorem Halts.moves {stop : Stop} (hs : Halts s stop) (h : Moves s t) : Halts t stop := by
  constructor
  · rw [h.eventLoops]
    intro j hj w worker' hloop
    obtain ⟨worker, hold, hadvances⟩ := h.loopAt hloop
    exact hadvances.stopped (hs.done j hj w worker hold)
  · intro k hk w worker' hloop
    obtain ⟨worker, hold, hadvances⟩ := h.loopAt hloop
    exact hadvances.entered (hs.stopping k hk w worker hold)

theorem length_le_of_loopAt (hs : Gathered s) {k : ℕ} (h : s.loopAt k = none) :
    s.eventLoops.length ≤ k := by
  by_contra hk
  have hlt : k < s.eventLoops.length := Nat.lt_of_not_le hk
  have hw := hs.lt (List.getElem_mem hlt)
  have hloop : s.loopAt k = some (s.eventLoops[k], s.workers[s.eventLoops[k]]) :=
    loopAt_eq_some.mpr ⟨List.getElem?_eq_getElem hlt, List.getElem?_eq_getElem hw⟩
  rw [h] at hloop
  cases hloop

/-- The stop flag of the loop at the place `k` is written, by a thread that saw it running. -/
theorem halts_of_shutdown {i k : ℕ} (hs : Halts s (.stopping k))
    (h : s.callLoop i k (.shutdown (.stop i)) (.notifying k) = some t) : Halts t (.notifying k) := by
  have hmoves := moves_callLoop rfl h
  have hold := hs.moves hmoves
  obtain ⟨w, worker, worker', hloop, hadvances, hstep, rfl⟩ := advances_of_callLoop rfl h
  refine ⟨fun j hj v vorker hv => ?_, nofun⟩
  by_cases hjk : j = k
  · subst hjk
    obtain ⟨hj, hw⟩ := loopAt_eq_some.mp hloop
    obtain ⟨hj', hv⟩ := loopAt_eq_some.mp hv
    obtain rfl : w = v := Option.some.inj (hj.symm.trans hj')
    have hset : (s.workers.set w worker')[w]? = some vorker := hv
    rw [List.getElem?_set_self (List.getElem?_eq_some_iff.mp hw).1] at hset
    obtain rfl := Option.some.inj hset
    rw [isStopped_iff]
    refine ⟨hadvances.entered (hs.stopping j rfl w worker hloop), ?_⟩
    obtain ⟨-, hresult⟩ := Option.ite_none_right_eq_some.mp hstep
    rw [← Option.some.inj hresult]
    rfl
  · refine hold.done j ?_ v vorker hv
    have hle : j < k + 1 := hj
    change j < k
    omega

/-- The next step of a shutdown that examines entered loops. -/
theorem halts_of_stepStop (hs : Gathered s) {i : ℕ} {stop : Stop} (hstop : Halts s stop)
    (hentered : (s.examined stop).all Worker.hasEntered = true) (h : s.stepStop i stop = some t) :
    ∃ stop', t.stops = s.stops.set i stop' ∧ Halts t stop' := by
  cases stop with
  | examining k =>
      have hdone := hstop.done
      simp only [stepStop] at h
      split at h
      case h_1 hloop =>
          obtain rfl := Option.some.inj h
          refine ⟨.returned, rfl, fun j hj w worker hw => ?_, ?_⟩
          · have hlength := length_le_of_loopAt hs hloop
            exact hdone j (Nat.lt_of_lt_of_le hj hlength) w worker hw
          · rintro _ ⟨⟩
      case h_2 w worker hloop =>
          obtain rfl := Option.some.inj h
          have hself : worker.hasEntered = true := by
            rwa [examined, hloop] at hentered
          refine ⟨_, rfl, ?_⟩
          cases hrunning : worker.loop.running with
          | true =>
              refine ⟨hdone, ?_⟩
              rintro _ ⟨⟩ v vorker hv
              rw [show s.loopAt k = some (v, vorker) from hv] at hloop
              cases hloop
              exact hself
          | false =>
              refine ⟨fun j hj v vorker hv => ?_, ?_⟩
              · by_cases hjk : j = k
                · subst hjk
                  rw [show s.loopAt j = some (v, vorker) from hv] at hloop
                  cases hloop
                  exact isStopped_iff.mpr ⟨hself, hrunning⟩
                · refine hdone j ?_ v vorker hv
                  have hle : j < k + 1 := hj
                  change j < k
                  omega
              · rintro _ ⟨⟩
  | stopping k =>
      have hhalts := halts_of_shutdown hstop h
      obtain ⟨_, _, _, -, -, -, rfl⟩ := advances_of_callLoop rfl h
      exact ⟨_, rfl, hhalts⟩
  | notifying k =>
      have hold := hstop.moves (moves_callLoop rfl h)
      obtain ⟨_, _, _, -, -, -, rfl⟩ := advances_of_callLoop rfl h
      refine ⟨_, rfl, hold.done, ?_⟩
      rintro _ ⟨⟩
  | returned => cases h

/-! ## Runs -/

theorem stops_of_step {action : Action α} (h : s.step action = some t) {stop : Stop}
    (hstop : stop ∈ t.stops) :
    stop ∈ s.stops ∨ stop = .examining 0 ∨ ∃ i old, action = .stop i ∧ s.stops[i]? = some old := by
  cases action with
  | loopEach =>
      obtain ⟨-, h⟩ := Option.ite_none_right_eq_some.mp h
      obtain rfl := Option.some.inj h
      exact Or.inl hstop
  | submit =>
      left
      have hstops : t.stops = s.stops := by
        simp only [step, stepLoopEach] at h
        split at h
        · split at h
          · rw [← Option.some.inj h]
          · rw [← Option.some.inj h]
        · obtain ⟨-, h⟩ := Option.ite_none_right_eq_some.mp h
          rw [← Option.some.inj h]
        · cases h
        · cases h
      rwa [hstops] at hstop
  | shutdown =>
      obtain ⟨-, h⟩ := Option.ite_none_right_eq_some.mp h
      obtain rfl := Option.some.inj h
      obtain hold | hnew := List.mem_append.mp hstop
      · exact Or.inl hold
      · exact Or.inr (Or.inl (List.mem_singleton.mp hnew))
  | worker w =>
      obtain ⟨worker, hw, hstep⟩ := Option.bind_eq_some_iff.mp h
      left
      cases hphase : worker.phase with
      | running | returned => simp [stepWorker, hphase] at hstep
      | constructing | pushing =>
          simp only [stepWorker, hphase, Option.some.injEq] at hstep
          subst hstep
          exact hstop
  | loop w action =>
      obtain ⟨-, h⟩ := Option.ite_none_left_eq_some.mp h
      obtain ⟨worker, hw, hstep⟩ := Option.bind_eq_some_iff.mp h
      obtain ⟨worker', rfl, -⟩ := advances_of_stepLoop hstep
      exact Or.inl hstop
  | stop i =>
      obtain ⟨old, hi, -⟩ := Option.bind_eq_some_iff.mp h
      exact Or.inr (Or.inr ⟨i, old, rfl, hi⟩)

theorem halts_of_reachable (hs : (system α).ReachableUnder ExaminesEntered s) :
    ∀ stop ∈ s.stops, Halts s stop := by
  induction hs with
  | initial hs =>
      obtain ⟨numOfEventLoops, hs⟩ := hs
      rw [(create_eq hs).2.2.2.2.2]
      exact nofun
  | @step s t action hs hok ht ih =>
      have hgathered := gathered_of_reachable hs
      have hkeep : ∀ old ∈ s.stops, Halts t old := by
        intro old hold
        have hreturned := hgathered.stops (List.ne_nil_of_mem hold)
        exact (ih old hold).moves (moves_of_step hgathered hreturned ht)
      intro stop hstop
      obtain hold | rfl | ⟨i, old, rfl, hi⟩ := stops_of_step ht hstop
      · exact hkeep stop hold
      · exact ⟨nofun, nofun⟩
      · have hstep : s.stepStop i old = some t := by
          have hbind : (s.stops[i]?).bind (fun stop => s.stepStop i stop) = some t := ht
          rwa [hi] at hbind
        have hentered : (s.examined old).all Worker.hasEntered = true := by
          have hall : (s.stops[i]?.bind s.examined).all Worker.hasEntered = true := hok
          rwa [hi] at hall
        obtain ⟨stop', hstops, hhalts⟩ :=
          halts_of_stepStop hgathered (ih old (List.mem_of_getElem? hi)) hentered hstep
        rw [hstops] at hstop
        obtain hold | rfl := List.mem_or_eq_of_mem_set hstop
        · exact hkeep stop hold
        · exact hhalts

/-- A shutdown that has returned has stopped every loop. -/
theorem isStopped_of_halts (hs : Gathered s) (hstop : .returned ∈ s.stops)
    (hhalts : Halts s .returned) : ∀ worker ∈ s.workers, worker.isStopped = true := by
  intro worker hworker
  obtain ⟨w, hw⟩ := List.mem_iff_getElem?.mp hworker
  have hreturned := hs.stops (List.ne_nil_of_mem hstop)
  have hmem : w ∈ s.eventLoops := by
    rw [hs.stored, hw]
    exact hs.hasPushed hreturned hw
  obtain ⟨k, hk⟩ := List.mem_iff_getElem?.mp hmem
  have hlength := (List.getElem?_eq_some_iff.mp hk).1
  exact hhalts.done k hlength w worker (loopAt_eq_some.mpr ⟨hk, hw⟩)

/-- Loops that have stopped stay stopped, whatever happens. -/
theorem isStopped_of_run (hs : Gathered s) (hreturned : s.loopEach = .returned)
    (hstopped : ∀ worker ∈ s.workers, worker.isStopped = true) {actions : List (Action α)}
    (ht : (system α).run s actions = some t) : ∀ worker ∈ t.workers, worker.isStopped = true := by
  let Stopped (s : EventLoopGroup α) : Prop :=
    Gathered s ∧ s.loopEach = .returned ∧ ∀ worker ∈ s.workers, worker.isStopped = true
  have hrun : Stopped t := by
    apply System.run_invariant _ (show Stopped s from ⟨hs, hreturned, hstopped⟩) ht
    rintro s action u ⟨hs, hreturned, hstopped⟩ hu
    have hmoves := moves_of_step hs hreturned hu
    refine ⟨hs.step hu, hmoves.loopEach.trans hreturned, fun worker' hworker' => ?_⟩
    obtain ⟨w, hw⟩ := List.mem_iff_getElem?.mp hworker'
    obtain ⟨worker, hold, hadvances⟩ := hmoves.workers w worker' hw
    exact hadvances.stopped (hstopped worker (List.mem_of_getElem? hold))
  exact hrun.2.2

/-- At its test a loop that is not running leaves `run`. -/
theorem returned_of_testing (hw : s.workers[w]? = some worker) (hphase : worker.loop.phase = .testing)
    (hrunning : worker.loop.running = false) {polled : List EventLoop.Ready}
    (h : s.step (.loop w (.advance polled)) = some t) :
    ∃ worker', t.workers[w]? = some worker' ∧ worker'.phase = .returned := by
  have h : s.workers[w]?.bind (fun worker => s.stepLoop w worker (.advance polled)) = some t := h
  rw [hw, Option.bind_some] at h
  cases hworker : worker.phase with
  | constructing | pushing => simp [stepLoop, hworker] at h
  | returned => simp [stepLoop, hworker, isRun] at h
  | running =>
      simp only [stepLoop, hworker] at h
      obtain ⟨loop, hloop, rfl⟩ := Option.map_eq_some_iff.mp h
      refine ⟨_, List.getElem?_set_self (List.getElem?_eq_some_iff.mp hw).1, ?_⟩
      obtain ⟨-, hadvanced⟩ := Option.ite_none_right_eq_some.mp hloop
      simp only [EventLoop.advance, hphase, hrunning, Bool.false_eq_true, if_false,
        Option.some.injEq] at hadvanced
      rw [← hadvanced]
      rfl

/-- Where every loop is examined with its thread in `run`, no loop is running after the shutdown has
returned, nor set running by any steps that follow, and each one leaves `run` at its next test. -/
theorem shutdown_reaches_every_loop (hs : (system α).ReachableUnder ExaminesEntered s)
    (hstop : .returned ∈ s.stops) {actions : List (Action α)}
    (ht : (system α).run s actions = some t) :
    (∀ worker ∈ t.workers, worker.loop.running = false) ∧
      ∀ w worker, t.workers[w]? = some worker → worker.loop.phase = .testing →
        ∀ polled u, t.step (.loop w (.advance polled)) = some u →
          ∃ worker', u.workers[w]? = some worker' ∧ worker'.phase = .returned := by
  have hgathered := gathered_of_reachable hs
  have hreturned := hgathered.stops (List.ne_nil_of_mem hstop)
  have hstopped := isStopped_of_halts hgathered hstop (halts_of_reachable hs _ hstop)
  have hrunning : ∀ worker ∈ t.workers, worker.loop.running = false := by
    intro worker hworker
    exact (isStopped_iff.mp (isStopped_of_run hgathered hreturned hstopped ht worker hworker)).2
  refine ⟨hrunning, fun w worker hw hphase polled u hu => ?_⟩
  exact returned_of_testing hw hphase (hrunning worker (List.mem_of_getElem? hw)) hu

/-- The first of two loops leaves `run` before the second is examined. -/
theorem shutdown_reaches_every_loop_two : ∃ s : EventLoopGroup ℕ, s.workers.length = 2 ∧
    .returned ∈ s.stops ∧ ∀ worker ∈ s.workers, worker.loop.running = false := by
  obtain ⟨s, hs, hlength, hstop⟩ : ∃ s : EventLoopGroup ℕ,
      (system ℕ).ReachableUnder ExaminesEntered s ∧ s.workers.length = 2 ∧
        .returned ∈ s.stops := by
    apply exists_reachableUnder 2
      [.loopEach, .submit, .submit, .submit, .worker 1, .worker 1, .worker 0, .worker 0, .submit,
        .loop 0 (.advance []), .loop 1 (.advance []), .shutdown, .stop 0, .stop 0,
        .loop 1 (.advance []), .stop 0, .stop 0, .stop 0, .stop 0, .stop 0]
    decide +kernel
  have hrun : (system ℕ).run s [] = some s := rfl
  exact ⟨s, hlength, hstop, (shutdown_reaches_every_loop hs hstop hrun).1⟩

/-- The only loop is stored and `run` not entered when it is examined. -/
theorem running_after_shutdown : ∃ s : EventLoopGroup ℕ, (system ℕ).Reachable s ∧
    .returned ∈ s.stops ∧ ∃ worker ∈ s.workers, worker.loop.running = true := by
  apply exists_reachableUnder 1
    [.loopEach, .submit, .submit, .worker 0, .worker 0, .submit, .shutdown, .stop 0, .stop 0,
      .loop 0 (.advance [])]
  decide +kernel

end Nets.EventLoopGroup
