import Nets.Verification.ThreadPool.Custody
import Nets.Verification.ThreadPool.Shutdown

/-! # The pool after a shutdown

A call of `execute` that has loaded a running `ctl_` can push its task long after the state was
switched. Where a shutdown finds the queue empty with no such call left, the pool is closed. -/

namespace Nets

/-- A `tryPush` in this position returns false, where the queue `hasRoom` for an element or not. -/
def Position.isFailing {α : Type} (hasRoom : Bool) : Position α → Bool
  | .returned _ result => !result
  | .locking _ | .lastTesting _ => !hasRoom
  | _ => false

namespace ThreadPool

open Library BoundedBlockingQueue

variable {α : Type} {s t : ThreadPool α}

/-- The call may hand its task to the queue, or has handed it over and not yet returned. -/
def Call.isAccepting (hasRoom : Bool) (position : Position (Submission α)) : Call α → Bool
  | .pushing _ => !position.isFailing hasRoom
  | .accepted _ => true
  | _ => false

def hasRoom (s : ThreadPool α) : Bool := 0 < s.taskQueue.maxQueueSize

def accepts (s : ThreadPool α) (i : ℕ) : Bool :=
  s.calls[i]?.any (Call.isAccepting s.hasRoom (s.taskQueue.positions (.call i)))

/-- A shutdown finds the queue empty when no call of `execute` is about to accept its task. -/
def DrainsLast (s : ThreadPool α) : Action α → Prop
  | .stop i => s.stops[i]? = some .draining → s.taskQueue.queue = [] →
    ∀ j < s.calls.length, s.accepts j = false
  | _ => True

instance [DecidableEq α] (s : ThreadPool α) (action : Action α) : Decidable (DrainsLast s action) :=
  match action with
  | .stop i => inferInstanceAs (Decidable (s.stops[i]? = some .draining →
      s.taskQueue.queue = [] → ∀ j < s.calls.length, s.accepts j = false))
  | .execute _ | .shutdown | .worker _ | .call _ _ | .queue _ _ | .wakeUp _ | .expire _ =>
      .isTrue trivial

/-! ## Where no thread is counted -/

theorem exited_of_count (hs : Employed s) (hzero : s.count = 0) {w : ℕ} {worker : Worker}
    (hw : s.workers[w]? = some worker) : worker.phase = .exited := by
  rw [count] at hzero
  by_contra hexited
  obtain hpool | ⟨call, hcall, task, isCore, rfl⟩ | herased := hs w worker hw hexited
  · have hpos := List.length_pos_of_mem hpool
    omega
  · have hnone : s.calls.countP Call.isCounted = 0 := by omega
    exact List.countP_eq_zero.mp hnone _ hcall rfl
  · have hnone : s.workers.countP Worker.isErased = 0 := by omega
    rw [hw] at herased
    apply List.countP_eq_zero.mp hnone worker (List.mem_of_getElem? hw)
    exact decide_eq_true (Option.some.inj herased)

theorem isCounted_of_count (hzero : s.count = 0) {i : ℕ} {call : Call α}
    (hi : s.calls[i]? = some call) : call.isCounted = false := by
  have hnone : s.calls.countP Call.isCounted = 0 := by
    rw [count] at hzero
    omega
  exact Bool.not_eq_true _ ▸ List.countP_eq_zero.mp hnone call (List.mem_of_getElem? hi)

/-! ## Steps of a closed pool -/

theorem accepts_of_getElem? {i : ℕ} {call : Call α} (hi : s.calls[i]? = some call) :
    s.accepts i = call.isAccepting s.hasRoom (s.taskQueue.positions (.call i)) := by
  rw [accepts, hi]
  rfl

theorem accepts_of_same (hcalls : t.calls = s.calls)
    (hpositions : ∀ i, t.taskQueue.positions (.call i) = s.taskQueue.positions (.call i))
    (hsize : t.taskQueue.maxQueueSize = s.taskQueue.maxQueueSize) (i : ℕ) :
    t.accepts i = s.accepts i := by
  rw [accepts, accepts, hasRoom, hasRoom, hcalls, hpositions, hsize]

/-- A step of one call. -/
theorem accepts_setCall (hs : ∀ j, s.accepts j = false) {i : ℕ} {call' : Call α}
    (hcalls : t.calls = s.calls.set i call')
    (hpositions : ∀ j ≠ i, t.taskQueue.positions (.call j) = s.taskQueue.positions (.call j))
    (hsize : t.taskQueue.maxQueueSize = s.taskQueue.maxQueueSize)
    (hself : ∀ position, call'.isAccepting t.hasRoom position = false) (j : ℕ) :
    t.accepts j = false := by
  rw [accepts, hcalls]
  by_cases hne : j = i
  · rw [hne, List.getElem?_set_self']
    cases s.calls[i]? with
    | none => rfl
    | some call => exact hself _
  · rw [List.getElem?_set_ne (Ne.symm hne), hpositions j hne, hasRoom, hsize]
    exact hs j

theorem isAccepting_notAdded (room : Bool) (position : Position (Submission α)) (task : α)
    (isCore : Bool) : (notAdded task isCore).isAccepting room position = false := by
  cases isCore with
  | true => rfl
  | false => rfl

/-- A call of a pool that is shut down and has no thread. -/
theorem accepts_of_callStep (hs : ∀ j, s.accepts j = false) (hshutdown : isShutdown s.ctl = true)
    (hrunning : isRunning s.ctl = false) (hzero : s.count = 0) {i : ℕ} {created : Bool}
    {call : Call α} (hcompared : Compared s call) (hi : s.calls[i]? = some call)
    (h : CallStep i created s call t) : ∀ j, t.accepts j = false := by
  have hcounted := isCounted_of_count hzero hi
  cases h with
  | refuse | addCore | addOther | retry => exact accepts_setCall hs rfl (fun _ _ => rfl) rfl fun _ => rfl
  | fail task isCore hfail =>
      exact accepts_setCall hs rfl (fun _ _ => rfl) rfl fun _ => isAccepting_notAdded ..
  | push task call hloads hloaded =>
      rw [hrunning] at hloaded
      cases hloaded
  | compare task isCore hloaded =>
      rw [hshutdown] at hloaded
      cases hloaded
  | increment task isCore =>
      have hloaded := (hcompared task isCore s.ctl rfl).1
      rw [hshutdown] at hloaded
      cases hloaded
  | lockRunning | lockStopped | construct | throwOut | emplace | retreat => cases hcounted
  | leave task r result hposition =>
      have hself := hs i
      rw [accepts_of_getElem? hi, Call.isAccepting, hposition, Position.isFailing, Bool.not_not] at hself
      subst hself
      refine accepts_setCall hs rfl (fun j hne => ?_) rfl fun _ => rfl
      exact setPosition_of_ne (fun heq => hne (Thread.call.inj heq)) ..
  | finish task =>
      have hself := hs i
      rw [accepts_of_getElem? hi] at hself
      cases hself

/-- A `tryPush` that fails goes on failing. -/
theorem isFailing_of_step {thread : Thread} {p : Bool} {q q' : BoundedBlockingQueue Thread (Submission α)}
    (h : Step thread p q q') {r : Request (Submission α)} (hput : r.el.isSome = true)
    (hmode : r.mode = .tryLock) (hrequest : (q.positions thread).Serves r)
    (hfailing : (q.positions thread).isFailing (0 < q.maxQueueSize) = true) :
    (q'.positions thread).isFailing (0 < q.maxQueueSize) = true := by
  cases h with
  | lock r' hposition hlock =>
      rw [hposition] at hrequest
      obtain rfl : r' = r := hrequest
      exact absurd hmode hlock
  | tryLock r' hposition =>
      rw [hposition] at hfailing
      rw [setPosition_self]
      exact hfailing
  | contended r' hposition =>
      rw [setPosition_self]
      rfl
  | passLast r' hposition hready =>
      rw [hposition] at hrequest hfailing
      obtain rfl : r' = r := hrequest
      have hpos := Nat.zero_lt_of_lt (lt_of_isReady hput hmode hready)
      simp only [Position.isFailing, hpos, decide_true] at hfailing
      cases hfailing
  | failLast r' hposition =>
      rw [unlock, setPosition_self]
      rfl
  | pass r' hposition | fail r' hposition | sleep r' hposition | relock r' hposition
  | relockLast r' hposition | giveUp r' hposition | transfer r' hposition | notify r' hposition =>
      rw [hposition] at hfailing
      cases hfailing

/-- A pool that has been shut down, with no call left that may accept its task. -/
structure Closed (s : ThreadPool α) : Prop where
  queue : s.taskQueue.queue = []
  accepts : ∀ i, s.accepts i = false

theorem Closed.isFailing (hs : Closed s) {i : ℕ} {task : α}
    (hi : s.calls[i]? = some (.pushing task)) :
    (s.taskQueue.positions (.call i)).isFailing s.hasRoom = true := by
  have hself := hs.accepts i
  rw [accepts_of_getElem? hi] at hself
  simpa [Call.isAccepting] using hself

/-- The queue stays empty as long as the calls that are in `tryPush` go on failing. -/
theorem Closed.effect (hs : Closed s) (hattended : Attended s) {thread : Thread}
    {q : BoundedBlockingQueue Thread (Submission α)} (h : Effect thread s.taskQueue q)
    (hself : ∀ i task, thread = .call i → s.calls[i]? = some (.pushing task) →
      (q.positions (.call i)).isFailing s.hasRoom = true) : Closed (s.setTaskQueue q) := by
  constructor
  · cases h with
    | same position helements | empty r hposition hel hqueue helements =>
        exact helements.queue.trans hs.queue
    | push r el hposition hel =>
        have hrequest : s.inFlight thread = some r := by
          apply hattended.inFlight_eq
          rw [hposition]
          rfl
        obtain ⟨i, rfl, hi, -⟩ := inFlight_put hrequest hel
        have hpassed := hs.isFailing hi
        rw [hposition] at hpassed
        cases hpassed
    | pop r el hposition hel hpositions hqueue =>
        rw [hs.queue] at hqueue
        cases hqueue
  · intro i
    cases hi : s.calls[i]? with
    | none =>
        rw [ThreadPool.accepts, show (s.setTaskQueue q).calls[i]? = none from hi]
        rfl
    | some call =>
        have hroom : (s.setTaskQueue q).hasRoom = s.hasRoom := by
          rw [hasRoom, hasRoom, ← h.maxQueueSize_eq]
          rfl
        have hold := hs.accepts i
        rw [accepts_of_getElem? hi] at hold
        rw [accepts_of_getElem? (s := s.setTaskQueue q) hi, hroom]
        cases call with
        | pushing task =>
            by_cases hne : Thread.call i = thread
            · exact congrArg not (hself i task hne.symm hi)
            · change (!(q.positions (.call i)).isFailing s.hasRoom) = false
              rw [(h.frame hne).1]
              exact hold
        | accepted task => cases hold
        | loading | adding | comparing | creating | constructing | emplacing | retreating
        | reloading | returned | thrown => rfl

theorem Closed.queueStep (hs : Closed s) (hattended : Attended s) {thread : Thread}
    {q : BoundedBlockingQueue Thread (Submission α)}
    (h : Step thread (isShutdown s.ctl) s.taskQueue q) : Closed (s.setTaskQueue q) := by
  apply hs.effect hattended h.effect
  rintro i task rfl hi
  have hmatches := hattended (.call i)
  rw [inFlight, hi] at hmatches
  have hfailing := isFailing_of_step h rfl rfl hmatches (hs.isFailing hi)
  exact hfailing

theorem Closed.expire (hs : Closed s) (hattended : Attended s) {thread : Thread}
    {q : BoundedBlockingQueue Thread (Submission α)} (h : s.taskQueue.expire thread = some q) :
    Closed (s.setTaskQueue q) := by
  apply hs.effect hattended (effect_expire h)
  rintro i task rfl hi
  obtain ⟨-, -, r, hposition, -⟩ := expire_same h
  have hfailing := hs.isFailing hi
  rw [hposition] at hfailing
  cases hfailing

theorem Closed.callStep (hs : Closed s) (hshutdown : isShutdown s.ctl = true)
    (hrunning : isRunning s.ctl = false) (hzero : s.count = 0) {i : ℕ} {created : Bool}
    {call : Call α} (hcompared : Compared s call) (hi : s.calls[i]? = some call)
    (h : CallStep i created s call t) : Closed t := by
  constructor
  · rw [← hs.queue]
    cases h <;> rfl
  · exact accepts_of_callStep hs.accepts hshutdown hrunning hzero hcompared hi h

theorem Closed.stopStep (hs : Closed s) {i : ℕ} {stop : Stop} (h : StopStep i s stop t) :
    Closed t := by
  have hne : ∀ j, Thread.call j ≠ .stop i := nofun
  constructor
  · rw [← hs.queue]
    cases h <;> rfl
  · intro j
    rw [← hs.accepts j]
    cases h with
    | refuse | check | load | switch | retry | notifyFull | notifyEmpty | awake | drained => rfl
    | pop => exact accepts_of_same rfl (fun k => setPosition_of_ne (hne k) (.locking tryPop) _) rfl j
    | leave => exact accepts_of_same rfl (fun k => setPosition_of_ne (hne k) .outside _) rfl j

theorem Closed.step (hs : Closed s) (hattended : Attended s) (hemployed : Employed s)
    (hcounted : Counted s) (hfits : Fits s) (hshutdown : isShutdown s.ctl = true)
    (hzero : s.count = 0) {action : Action α} (h : s.step action = some t) : Closed t := by
  cases action with
  | execute task =>
      obtain rfl := Option.some.inj h
      refine ⟨hs.queue, fun i => ?_⟩
      have hold := hs.accepts i
      rw [ThreadPool.accepts] at hold ⊢
      cases hi : (s.calls ++ [.loading task])[i]? with
      | none => rfl
      | some call =>
          obtain hi | ⟨-, rfl⟩ := getElem?_append_cases hi
          · rw [hi] at hold
            exact hold
          · rfl
  | shutdown =>
      obtain rfl := Option.some.inj h
      exact ⟨hs.queue, hs.accepts⟩
  | worker w =>
      obtain ⟨worker, hw, hstep⟩ := Option.bind_eq_some_iff.mp h
      rw [stepWorker, exited_of_count hemployed hzero hw] at hstep
      cases hstep
  | call i created =>
      obtain ⟨call, hi, hstep⟩ := Option.bind_eq_some_iff.mp h
      have hrunning : isRunning s.ctl = false := by
        rw [hcounted.isRunning hfits, hshutdown]
        rfl
      exact hs.callStep hshutdown hrunning hzero (hcounted.compared call (List.mem_of_getElem? hi)) hi
        (callStep_of_stepCall hstep)
  | stop i =>
      obtain ⟨stop, -, hstep⟩ := Option.bind_eq_some_iff.mp h
      exact hs.stopStep (stopStep_of_stepStop hstep)
  | queue thread woken =>
      obtain ⟨q, hq, rfl⟩ := Option.map_eq_some_iff.mp h
      exact hs.queueStep hattended (step_of_advance hq)
  | wakeUp thread =>
      obtain ⟨q, hq, rfl⟩ := Option.map_eq_some_iff.mp h
      obtain ⟨hsame, hpositions, -⟩ := wakeUp_same hq
      constructor
      · exact hsame.queue.trans hs.queue
      · intro i
        rw [← hs.accepts i]
        exact accepts_of_same (s := s) (t := s.setTaskQueue q) rfl (fun j => congrFun hpositions _)
          hsame.maxQueueSize i
  | expire thread =>
      obtain ⟨q, hq, rfl⟩ := Option.map_eq_some_iff.mp h
      exact hs.expire hattended hq

/-! ## After the shutdown -/

/-- A shutdown returns from its drain only. -/
theorem returned_of_step {action : Action α} (hreturned : .returned ∈ t.stops)
    (h : s.step action = some t) : .returned ∈ s.stops ∨
      ∃ i, action = .stop i ∧ s.stops[i]? = some .draining ∧ s.taskQueue.queue = [] ∧
        t = (s.setMutex none).setStop i .returned := by
  cases action with
  | execute task =>
      obtain rfl := Option.some.inj h
      exact Or.inl hreturned
  | shutdown =>
      obtain rfl := Option.some.inj h
      refine Or.inl ((List.mem_append.mp hreturned).resolve_right ?_)
      rw [List.mem_singleton]
      exact nofun
  | worker w =>
      obtain ⟨worker, -, hstep⟩ := Option.bind_eq_some_iff.mp h
      cases workerStep_of_stepWorker hstep <;> exact Or.inl hreturned
  | call i created =>
      obtain ⟨call, -, hstep⟩ := Option.bind_eq_some_iff.mp h
      cases callStep_of_stepCall hstep <;> exact Or.inl hreturned
  | stop i =>
      obtain ⟨stop, hi, hstep⟩ := Option.bind_eq_some_iff.mp h
      cases stopStep_of_stepStop hstep with
      | drained hqueue => exact Or.inr ⟨i, rfl, hi, hqueue, rfl⟩
      | refuse | check | load | switch | retry | notifyFull | notifyEmpty | awake | pop | leave =>
          exact Or.inl ((List.mem_or_eq_of_mem_set hreturned).resolve_right nofun)
  | queue | wakeUp | expire =>
      obtain ⟨q, -, rfl⟩ := Option.map_eq_some_iff.mp h
      exact Or.inl hreturned

theorem closed_of_reachable (hs : (system α).ReachableUnder DrainsLast s) (hfits : Fits s) :
    .returned ∈ s.stops → Closed s := by
  apply fitting_induction _ _ hs hfits
  · intro s hs hreturned
    rw [hs.stops] at hreturned
    cases hreturned
  · intro s action t hs hfits ih hok ht hreturned
    obtain ⟨hcounted, hstopping⟩ := stopping_of_reachable hs hfits
    obtain hold | ⟨i, rfl, hi, hqueue, rfl⟩ := returned_of_step hreturned ht
    · exact (ih hold).step (attended_of_reachable hs) (employed_of_reachable hs) hcounted hfits
        (hstopping.switched _ hold rfl) (hstopping.observed _ hold rfl) ht
    · refine ⟨hqueue, fun j => ?_⟩
      by_cases hj : j < s.calls.length
      · exact hok hi hqueue j hj
      · change (s.calls[j]?).any _ = false
        rw [List.getElem?_eq_none (Nat.le_of_not_lt hj)]
        rfl

/-- Nothing starts in a closed pool, and nothing is accepted. -/
theorem Closed.refuses (hs : Closed s) (hemployed : Employed s) (hzero : s.count = 0)
    {action : Action α} (h : s.step action = some t) :
    t.started = s.started ∧ ∀ (i : ℕ) (task : α), t.calls[i]? = some (.returned task true) →
      s.calls[i]? = some (.returned task true) := by
  cases action with
  | execute task =>
      obtain rfl := Option.some.inj h
      refine ⟨rfl, fun i task hi => ?_⟩
      obtain hi | ⟨-, hnew⟩ := getElem?_append_cases hi
      · exact hi
      · cases hnew
  | shutdown =>
      obtain rfl := Option.some.inj h
      exact ⟨rfl, fun i task hi => hi⟩
  | worker w =>
      obtain ⟨worker, hw, hstep⟩ := Option.bind_eq_some_iff.mp h
      rw [stepWorker, exited_of_count hemployed hzero hw] at hstep
      cases hstep
  | call i created =>
      obtain ⟨call, hi, hstep⟩ := Option.bind_eq_some_iff.mp h
      have hcounted := isCounted_of_count hzero hi
      have hold := hs.accepts i
      rw [accepts_of_getElem? hi] at hold
      have hkeep : ∀ {call' : Call α}, (∀ task, call' ≠ .returned task true) →
          ∀ (j : ℕ) (task : α), (s.calls.set i call')[j]? = some (.returned task true) →
            s.calls[j]? = some (.returned task true) := by
        intro call' hcall' j task hj
        obtain ⟨rfl, hself⟩ | ⟨-, hj⟩ := getElem?_set_cases hj
        · exact absurd hself.symm (hcall' task)
        · exact hj
      cases callStep_of_stepCall hstep with
      | finish task => cases hold
      | refuse | addCore | push | addOther | compare | increment | retry =>
          exact ⟨rfl, hkeep fun task h => by cases h⟩
      | fail task isCore hfail =>
          refine ⟨rfl, hkeep ?_⟩
          cases isCore with
          | true | false =>
              intro task h
              cases h
      | leave task r result =>
          refine ⟨rfl, hkeep ?_⟩
          cases result with
          | true | false =>
              intro task h
              cases h
      | lockRunning | lockStopped | construct | throwOut | emplace | retreat => cases hcounted
  | stop i =>
      obtain ⟨stop, -, hstep⟩ := Option.bind_eq_some_iff.mp h
      cases stopStep_of_stepStop hstep <;> exact ⟨rfl, fun i task hi => hi⟩
  | queue | wakeUp | expire =>
      obtain ⟨q, -, rfl⟩ := Option.map_eq_some_iff.mp h
      exact ⟨rfl, fun i task hi => hi⟩

/-- The workers have left without a task. -/
theorem slots_of_count (hemployed : Employed s) (hvacant : Vacant s) (hzero : s.count = 0) :
    s.slots = [] := by
  rw [slots, List.filterMap_eq_nil_iff]
  intro w hw
  have hlength : w < s.workers.length := List.mem_range.mp hw
  have hworker : s.workers[w]? = some s.workers[w] := List.getElem?_eq_getElem hlength
  apply hvacant w _ hworker
  rw [Worker.isIdle, exited_of_count hemployed hzero hworker]

/-- Where the drain has ended with no call of `execute` about to accept its task, the queue stays
empty after the shutdown, nothing is started or accepted, and every task that was accepted has been
run or removed. -/
theorem nothing_accepted_after_shutdown (hs : (system α).ReachableUnder DrainsLast s) (hfits : Fits s)
    (hreturned : .returned ∈ s.stops) :
    s.taskQueue.queue = [] ∧
      (∀ action t, s.step action = some t → t.started = s.started ∧
        ∀ (i : ℕ) (task : α), t.calls[i]? = some (.returned task true) →
          s.calls[i]? = some (.returned task true)) ∧
      ∀ (i : ℕ) (task : α), s.calls[i]? = some (.returned task true) →
        ⟨i, task⟩ ∈ s.finished ++ s.removed := by
  have hclosed := closed_of_reachable hs hfits hreturned
  have hemployed := employed_of_reachable hs
  have hzero := (stopping_of_reachable hs hfits).2.observed _ hreturned rfl
  refine ⟨hclosed.queue, fun action t ht => hclosed.refuses hemployed hzero ht, fun i task hi => ?_⟩
  have hheld : ⟨i, task⟩ ∈ s.held := by
    rw [(custody_of_reachable hs.reachable).placed, placed_of_getElem? hi]
    rfl
  rw [held, slots_of_count hemployed (vacant_of_reachable hs) hzero, hclosed.queue] at hheld
  exact hheld

/-- The task has run, the pool is shut down, and a later call is refused. -/
theorem nothing_accepted_after_shutdown_refused : ∃ s : ThreadPool ℕ, .returned ∈ s.stops ∧
    s.finished = [⟨0, 7⟩] ∧ s.calls[1]? = some (.returned 8 false) ∧ s.taskQueue.queue = [] := by
  obtain ⟨s, hs, hfits, hreturned, hfinished, hcall⟩ : ∃ s : ThreadPool ℕ,
      (system ℕ).ReachableUnder DrainsLast s ∧ s.maximumPoolSize ≤ kCountMask.toNat ∧
        .returned ∈ s.stops ∧ s.finished = [⟨0, 7⟩] ∧ s.calls[1]? = some (.returned 8 false) := by
    apply exists_reachableUnder 1 1 1
      [.execute 7, .call 0 true, .call 0 true, .call 0 true, .call 0 true, .call 0 true,
        .call 0 true, .call 0 true, .worker 0, .shutdown, .stop 0, .stop 0, .stop 0, .worker 0,
        .worker 0, .worker 0, .worker 0, .stop 0, .stop 0, .stop 0, .stop 0, .execute 8,
        .call 1 true]
    decide +kernel
  exact ⟨s, hreturned, hfinished, hcall, (nothing_accepted_after_shutdown hs hfits hreturned).1⟩

/-- The second call loads a running `ctl_` and pushes when the shutdown has returned. -/
theorem accepted_after_shutdown : ∃ s : ThreadPool ℕ, (system ℕ).Reachable s ∧
    s.maximumPoolSize ≤ kCountMask.toNat ∧ .returned ∈ s.stops ∧ s.taskQueue.queue = [⟨1, 8⟩] ∧
    s.calls[1]? = some (.returned 8 true) := by
  apply exists_reachableUnder 1 1 1
    [.execute 7, .call 0 true, .call 0 true, .call 0 true, .call 0 true, .call 0 true,
      .call 0 true, .call 0 true, .worker 0, .execute 8, .call 1 true, .shutdown, .stop 0, .stop 0,
      .stop 0, .worker 0, .worker 0, .worker 0, .worker 0, .stop 0, .stop 0, .stop 0, .stop 0,
      .queue (.call 1) (.call 1), .queue (.call 1) (.call 1), .queue (.call 1) (.call 1),
      .queue (.call 1) (.call 1), .call 1 true, .call 1 true]
  decide +kernel

end ThreadPool

end Nets
