import Nets.Verification.BoundedBlockingQueue.Elements
import Nets.Verification.ThreadPool.Positions
import Nets.Verification.ThreadPool.Shutdown

/-! # Core threads where there is work

A task is queued, and a thread that is not a core thread is created, only by a call that has seen
`corePoolSize` threads counted when none of them was of another kind. Core threads do not leave
while the pool is running, so that from then on all of them are there. -/

namespace Nets.ThreadPool

open Library BoundedBlockingQueue

variable {α : Type} {s t : ThreadPool α}

/-! ## What needs the core threads -/

/-- The call goes on without a core thread of its own. -/
def Call.isLate : Call α → Bool
  | .adding _ isCore | .comparing _ isCore _ | .creating _ isCore | .constructing _ isCore
  | .emplacing _ isCore _ | .retreating _ isCore => !isCore
  | .reloading _ | .pushing _ => true
  | .loading _ | .accepted _ | .returned _ _ | .thrown _ => false

inductive NeedsCore (s : ThreadPool α) : Prop where
  | queue (hqueue : s.taskQueue.queue ≠ [])
  | thread (w : ℕ) (hw : w ∈ s.threadPool) (hcore : s.isCoreThread w = false)
  | erased (worker : Worker) (hworker : worker ∈ s.workers) (herased : worker.isErased = true)
  | call (call : Call α) (hcall : call ∈ s.calls) (hlate : call.isLate = true)

def Worker.isLeaving (worker : Worker) : Bool :=
  worker.phase = .releasing || worker.phase = .erased || worker.phase = .exited

def Call.isRetreating : Call α → Bool
  | .retreating _ _ => true
  | _ => false

/-- No core thread is leaving, and no call gives its place in the count back. -/
structure Steady (s : ThreadPool α) : Prop where
  workers : ∀ worker ∈ s.workers, worker.isCoreThread = true → worker.isLeaving = false
  calls : ∀ call ∈ s.calls, call.isRetreating = false

/-- Where nothing needs the core threads, there are no others. -/
theorem count_eq_coreCount (hneeds : ¬ NeedsCore s) (hsteady : Steady s) (hunthrown : Unthrown s) :
    s.count = s.coreCount := by
  have hpool : s.threadPool.countP s.isCoreThread = s.threadPool.length := by
    rw [List.countP_eq_length]
    intro w hw
    by_contra hcore
    exact hneeds (.thread w hw (Bool.not_eq_true _ ▸ hcore))
  have hcalls : s.calls.countP Call.isCounted = s.calls.countP Call.isAddingCore := by
    apply List.countP_congr
    intro call hcall
    have hlate : call.isLate = false := by
      by_contra hlate
      exact hneeds (.call call hcall (Bool.not_eq_false _ ▸ hlate))
    have hthrown := hunthrown call hcall
    have hretreating := hsteady.calls call hcall
    cases call with
    | creating task isCore | constructing task isCore | emplacing task isCore w =>
        cases isCore with
        | true => exact Iff.rfl
        | false => cases hlate
    | retreating => cases hretreating
    | thrown => cases hthrown
    | loading | adding | comparing | reloading | pushing | accepted | returned => exact Iff.rfl
  have herased : s.workers.countP Worker.isErased = 0 := by
    rw [List.countP_eq_zero]
    intro worker hworker herased
    exact hneeds (.erased worker hworker herased)
  rw [count, coreCount, hpool, hcalls, herased, Nat.add_zero]

/-! ## Steady pools -/

theorem isRetreating_notAdded (task : α) (isCore : Bool) :
    (notAdded task isCore).isRetreating = false := by
  cases isCore with
  | true => rfl
  | false => rfl

theorem Steady.workerStep (hs : Steady s) (hrunning : isRunning s.ctl = true) {w : ℕ}
    {worker : Worker} (hw : s.workers[w]? = some worker) (h : WorkerStep w worker s t) :
    Steady t := by
  have hself := hs.workers worker (List.mem_of_getElem? hw)
  cases h with
  | start | skip | finish | enter => exact ⟨forall_mem_set hs.workers fun _ => rfl, hs.calls⟩
  | quit hphase hstopped =>
      rw [hrunning] at hstopped
      cases hstopped
  | leave r result hphase hposition =>
      refine ⟨forall_mem_set hs.workers fun hcore => ?_, hs.calls⟩
      have hkind : worker.isCoreThread = true := hcore
      rw [Worker.isLeaving, hkind]
      rfl
  | erase hphase | vanish hphase | decrement hphase =>
      refine ⟨forall_mem_set hs.workers fun hcore => ?_, hs.calls⟩
      have hleaving := hself hcore
      rw [Worker.isLeaving, hphase] at hleaving
      cases hleaving

theorem Steady.callStep (hs : Steady s) (hrunning : isRunning s.ctl = true) {i : ℕ}
    {created : Bool} {call : Call α} (h : CallStep i created s call t) : Steady t := by
  cases h with
  | refuse | addCore | push | addOther | compare | increment | retry | lockRunning | throwOut
  | emplace | finish => exact ⟨hs.workers, forall_mem_set hs.calls rfl⟩
  | fail task isCore hfail =>
      exact ⟨hs.workers, forall_mem_set hs.calls (isRetreating_notAdded task isCore)⟩
  | retreat task isCore =>
      exact ⟨hs.workers, forall_mem_set hs.calls (isRetreating_notAdded task isCore)⟩
  | construct task isCore hcreated =>
      exact ⟨forall_mem_append hs.workers fun _ => rfl, forall_mem_set hs.calls rfl⟩
  | lockStopped task isCore hmutex hstopped =>
      rw [hrunning] at hstopped
      cases hstopped
  | leave task r result hposition =>
      cases result with
      | true | false => exact ⟨hs.workers, forall_mem_set hs.calls rfl⟩

theorem Steady.step (hs : Steady s) (hrunning : isRunning s.ctl = true) {action : Action α}
    (h : s.step action = some t) : Steady t := by
  cases action with
  | execute task =>
      obtain rfl := Option.some.inj h
      exact ⟨hs.workers, forall_mem_append hs.calls rfl⟩
  | shutdown =>
      obtain rfl := Option.some.inj h
      exact ⟨hs.workers, hs.calls⟩
  | worker w =>
      obtain ⟨worker, hw, hstep⟩ := Option.bind_eq_some_iff.mp h
      exact hs.workerStep hrunning hw (workerStep_of_stepWorker hstep)
  | call i created =>
      obtain ⟨call, hi, hstep⟩ := Option.bind_eq_some_iff.mp h
      exact hs.callStep hrunning (callStep_of_stepCall hstep)
  | stop i =>
      obtain ⟨stop, -, hstep⟩ := Option.bind_eq_some_iff.mp h
      cases stopStep_of_stepStop hstep <;> exact ⟨hs.workers, hs.calls⟩
  | queue | wakeUp | expire =>
      obtain ⟨q, -, rfl⟩ := Option.map_eq_some_iff.mp h
      exact ⟨hs.workers, hs.calls⟩

/-! ## Steps that come to need the core threads -/

/-- The core threads are needed already, or as many threads are counted. -/
def Excused (s : ThreadPool α) : Prop := NeedsCore s ∨ s.corePoolSize ≤ s.count

theorem excused_of_needsCore (hqueue : t.taskQueue.queue ≠ [] → Excused s)
    (hpool : ∀ w ∈ t.threadPool, t.isCoreThread w = false → Excused s)
    (hworkers : ∀ worker ∈ t.workers, worker.isErased = true → Excused s)
    (hcalls : ∀ call ∈ t.calls, call.isLate = true → Excused s) (h : NeedsCore t) :
    Excused s := by
  cases h with
  | queue hne => exact hqueue hne
  | thread w hw hcore => exact hpool w hw hcore
  | erased worker hworker herased => exact hworkers worker hworker herased
  | call call hcall hlate => exact hcalls call hcall hlate

theorem excused_of_thread (hrostered : Rostered s) (hgrows : Grows s t) :
    ∀ w ∈ s.threadPool, t.isCoreThread w = false → Excused s := by
  intro w hw hcore
  rw [isCoreThread, hgrows.kinds w (hrostered.threadPool w hw)] at hcore
  exact Or.inl (.thread w hw hcore)

theorem excused_of_erased (s : ThreadPool α) : ∀ worker ∈ s.workers, worker.isErased = true → Excused s :=
  fun worker hworker herased => Or.inl (.erased worker hworker herased)

theorem excused_of_call (s : ThreadPool α) : ∀ call ∈ s.calls, call.isLate = true → Excused s :=
  fun call hcall hlate => Or.inl (.call call hcall hlate)

theorem excused_of_workerStep (hrostered : Rostered s) (hsteady : Steady s) {w : ℕ}
    {worker : Worker} (hw : s.workers[w]? = some worker) (h : WorkerStep w worker s t) :
    NeedsCore t → Excused s := by
  have hpool := excused_of_thread hrostered (grows_workerStep hw h)
  have hqueue : s.taskQueue.queue ≠ [] → Excused s := fun hne => Or.inl (.queue hne)
  have hmem := List.mem_of_getElem? hw
  cases h with
  | start | skip | finish | enter | quit | vanish | decrement =>
      exact excused_of_needsCore hqueue hpool (forall_mem_set (excused_of_erased s) nofun)
        (excused_of_call s)
  | leave r result hphase hposition =>
      refine excused_of_needsCore hqueue hpool (forall_mem_set (excused_of_erased s) ?_)
        (excused_of_call s)
      cases worker.isCoreThread || result with
      | true | false => exact nofun
  | erase hphase hmutex hw' =>
      refine excused_of_needsCore hqueue (fun v hv => hpool v (List.mem_of_mem_erase hv))
        (forall_mem_set (excused_of_erased s) fun _ => ?_) (excused_of_call s)
      have hkind : s.isCoreThread w = worker.isCoreThread := by
        rw [isCoreThread, hw]
        rfl
      cases hcore : worker.isCoreThread with
      | false => exact Or.inl (.thread w hw' (hkind.trans hcore))
      | true =>
          have hleaving := hsteady.workers worker hmem hcore
          rw [Worker.isLeaving, hphase] at hleaving
          cases hleaving

theorem excused_of_callStep (hcounted : Counted s) (hfits : Fits s) (hrostered : Rostered s)
    (hsteady : Steady s) (hrunning : isRunning s.ctl = true) {i : ℕ} {created : Bool}
    {call : Call α} (hi : s.calls[i]? = some call) (h : CallStep i created s call t) :
    NeedsCore t → Excused s := by
  have hpool := excused_of_thread hrostered (grows_callStep h)
  have hqueue : s.taskQueue.queue ≠ [] → Excused s := fun hne => Or.inl (.queue hne)
  have hmem := List.mem_of_getElem? hi
  have hself := excused_of_call s call hmem
  have hnumber := hcounted.numOfActiveThreads hfits
  have hset : ∀ {call'}, (call'.isLate = true → Excused s) →
      ∀ call ∈ s.calls.set i call', call.isLate = true → Excused s :=
    fun hlate => forall_mem_set (excused_of_call s) hlate
  cases h with
  | refuse | addCore | throwOut | finish =>
      exact excused_of_needsCore hqueue hpool (excused_of_erased s) (hset nofun)
  | compare | increment | retry | lockRunning =>
      exact excused_of_needsCore hqueue hpool (excused_of_erased s) (hset hself)
  | construct task isCore hcreated =>
      exact excused_of_needsCore hqueue hpool (forall_mem_append (excused_of_erased s) nofun)
        (hset hself)
  | push task call hloads | addOther task call hloads =>
      refine excused_of_needsCore hqueue hpool (excused_of_erased s) (hset fun _ => ?_)
      cases hloads with
      | first hshutdown hcore => exact Or.inr (hnumber ▸ hcore)
      | again => exact hself rfl
  | leave task r result hposition =>
      exact excused_of_needsCore hqueue hpool (excused_of_erased s) (hset fun _ => hself rfl)
  | fail task isCore hfail =>
      refine excused_of_needsCore hqueue hpool (excused_of_erased s) (hset fun hlate => ?_)
      cases isCore with
      | false => cases hlate
      | true =>
          rw [hcounted.isRunning hfits] at hrunning
          have hlimit := hfail.resolve_left fun hshutdown => by
            rw [hshutdown] at hrunning
            cases hrunning
          exact Or.inr (hnumber ▸ hlimit)
  | retreat task isCore => cases hsteady.calls _ hmem
  | lockStopped task isCore hmutex hstopped =>
      rw [hrunning] at hstopped
      cases hstopped
  | emplace task isCore w =>
      refine excused_of_needsCore hqueue (forall_mem_append hpool fun hcore => ?_)
        (excused_of_erased s) (hset nofun)
      have hkind : s.isCoreThread w = isCore := by
        rw [isCoreThread, hrostered.calls _ hmem task isCore w rfl]
        rfl
      obtain rfl : isCore = false := hkind.symm.trans hcore
      exact hself rfl

/-- A task comes into the queue by a call that is late. -/
theorem excused_of_effect (hattended : Attended s) {thread : Thread}
    {q : BoundedBlockingQueue Thread (Submission α)} (h : Effect thread s.taskQueue q) :
    NeedsCore (s.setTaskQueue q) → Excused s := by
  refine excused_of_needsCore ?_ (fun w hw hcore => Or.inl (.thread w hw hcore)) (excused_of_erased s)
    (excused_of_call s)
  intro hne
  cases h with
  | same position helements | empty r hposition hel hqueue helements =>
      exact Or.inl (.queue (helements.queue ▸ hne))
  | push r el hposition hel =>
      have hrequest : s.inFlight thread = some r := by
        apply hattended.inFlight_eq
        rw [hposition]
        rfl
      obtain ⟨i, -, hi, -⟩ := inFlight_put hrequest hel
      exact Or.inl (.call _ (List.mem_of_getElem? hi) rfl)
  | pop r el hposition hel hpositions hqueue =>
      refine Or.inl (.queue ?_)
      rw [hqueue]
      exact nofun

theorem excused_of_step (hattended : Attended s) (hcounted : Counted s) (hfits : Fits s)
    (hrostered : Rostered s) (hsteady : Steady s) (hrunning : isRunning s.ctl = true)
    {action : Action α} (h : s.step action = some t) : NeedsCore t → Excused s := by
  have hqueue : s.taskQueue.queue ≠ [] → Excused s := fun hne => Or.inl (.queue hne)
  have hpool : ∀ w ∈ s.threadPool, s.isCoreThread w = false → Excused s :=
    fun w hw hcore => Or.inl (.thread w hw hcore)
  cases action with
  | execute task =>
      obtain rfl := Option.some.inj h
      exact excused_of_needsCore hqueue hpool (excused_of_erased s)
        (forall_mem_append (excused_of_call s) nofun)
  | shutdown =>
      obtain rfl := Option.some.inj h
      exact excused_of_needsCore hqueue hpool (excused_of_erased s) (excused_of_call s)
  | worker w =>
      obtain ⟨worker, hw, hstep⟩ := Option.bind_eq_some_iff.mp h
      exact excused_of_workerStep hrostered hsteady hw (workerStep_of_stepWorker hstep)
  | call i created =>
      obtain ⟨call, hi, hstep⟩ := Option.bind_eq_some_iff.mp h
      exact excused_of_callStep hcounted hfits hrostered hsteady hrunning hi
        (callStep_of_stepCall hstep)
  | stop i =>
      obtain ⟨stop, -, hstep⟩ := Option.bind_eq_some_iff.mp h
      cases stopStep_of_stepStop hstep <;>
        exact excused_of_needsCore hqueue hpool (excused_of_erased s) (excused_of_call s)
  | queue thread woken =>
      obtain ⟨q, hq, rfl⟩ := Option.map_eq_some_iff.mp h
      exact excused_of_effect hattended (step_of_advance hq).effect
  | wakeUp thread =>
      obtain ⟨q, hq, rfl⟩ := Option.map_eq_some_iff.mp h
      refine excused_of_needsCore (fun hne => hqueue ?_) hpool (excused_of_erased s) (excused_of_call s)
      exact (wakeUp_same hq).1.queue ▸ hne
  | expire thread =>
      obtain ⟨q, hq, rfl⟩ := Option.map_eq_some_iff.mp h
      exact excused_of_effect hattended (effect_expire hq)

/-! ## The invariant -/

/-- While the pool is running, its core threads stay, and where they are needed all of them are
there or on the way. -/
def Staffed (s : ThreadPool α) : Prop :=
  isRunning s.ctl = true → Steady s ∧ (NeedsCore s → s.corePoolSize ≤ s.coreCount)

/-- While the pool is running no step takes a core thread away. -/
theorem coreCount_le_of_step (hrostered : Rostered s) (hsteady : Steady s) (hunthrown : Unthrown t)
    {action : Action α} (h : s.step action = some t) : s.coreCount ≤ t.coreCount := by
  cases step_core hrostered h with
  | same hcount | increment task hcomparing hcount => omega
  | decrement hcount hleaving =>
      obtain ⟨worker, hworker, hcore, hphase⟩ | ⟨call, hcall, hcall'⟩ := hleaving
      · have hstays := hsteady.workers worker hworker hcore
        rw [Worker.isLeaving, hphase] at hstays
        cases hstays
      · obtain ⟨task, rfl⟩ | ⟨task, rfl, task', hthrown⟩ := hcall'
        · cases hsteady.calls _ hcall
        · cases hunthrown _ hthrown

theorem Staffed.step (hs : Staffed s) (hreachable : (system α).ReachableUnder CreatesThreads s)
    (hfits : Fits s) {action : Action α} (hok : CreatesThreads s action)
    (h : s.step action = some t) : Staffed t := by
  intro hrunning
  have hcounted := (stopping_of_reachable hreachable hfits).1
  have hrostered := rostered_of_reachable hreachable
  have hunthrown := unthrown_of_reachable hreachable
  have hunthrown' := unthrown_of_reachable (.step hreachable hok h)
  have hbefore : isRunning s.ctl = true := by
    have hfits' := (Fits.of_step h).mpr hfits
    rw [(hcounted.step hfits h).isRunning hfits'] at hrunning
    rw [hcounted.isRunning hfits]
    by_contra hshutdown
    rw [Bool.not_eq_true, Bool.not_eq_false'] at hshutdown
    rw [hcounted.isShutdown_change hfits (step_count h).1 hshutdown] at hrunning
    cases hrunning
  obtain ⟨hsteady, hneeds⟩ := hs hbefore
  refine ⟨hsteady.step hbefore h, fun hneeds' => ?_⟩
  have hle : s.corePoolSize ≤ s.coreCount := by
    by_cases hold : NeedsCore s
    · exact hneeds hold
    · have hexcused := excused_of_step (attended_of_reachable hreachable) hcounted hfits hrostered
        hsteady hbefore h hneeds'
      rw [← count_eq_coreCount hold hsteady hunthrown]
      exact hexcused.resolve_left hold
  rw [(step_count h).2.1]
  exact Nat.le_trans hle (coreCount_le_of_step hrostered hsteady hunthrown' h)

theorem staffed_of_reachable (hs : (system α).ReachableUnder CreatesThreads s) (hfits : Fits s) :
    Staffed s := by
  apply fitting_induction _ _ hs hfits
  · intro s hs _
    refine ⟨⟨?_, ?_⟩, ?_⟩
    · rw [hs.workers]
      exact nofun
    · rw [hs.calls]
      exact nofun
    · rintro (hqueue | ⟨w, hw, -⟩ | ⟨worker, hworker, -⟩ | ⟨call, hcall, -⟩)
      · rw [hs.taskQueue] at hqueue
        exact absurd rfl hqueue
      · rw [hs.threadPool] at hw
        cases hw
      · rw [hs.workers] at hworker
        cases hworker
      · rw [hs.calls] at hcall
        cases hcall
  · intro s action t hs hfits hstaffed hok ht
    exact hstaffed.step hs hfits hok ht

/-- A thread that is not a core thread needs the core threads as long as it lives. -/
theorem needsCore_of_worker (hemployed : Employed s) (hrostered : Rostered s) {w : ℕ}
    {worker : Worker} (hw : s.workers[w]? = some worker) (hcore : worker.isCoreThread = false)
    (hphase : worker.phase ≠ .exited) : NeedsCore s := by
  have hkind : s.isCoreThread w = false := by
    rw [isCoreThread, hw]
    exact hcore
  obtain hpool | ⟨call, hcall, task, isCore, rfl⟩ | herased := hemployed w worker hw hphase
  · exact .thread w hpool hkind
  · have hhired := hrostered.calls _ hcall task isCore w rfl
    rw [hw] at hhired
    obtain rfl : worker.isCoreThread = isCore := Option.some.inj hhired
    refine .call _ hcall ?_
    rw [Call.isLate, hcore]
    rfl
  · rw [hw] at herased
    refine .erased worker (List.mem_of_getElem? hw) ?_
    rw [Worker.isErased, Option.some.inj herased]
    rfl

/-- While the pool is running and a task is queued, or a thread is there that is not a core thread,
all core threads are there or on the way. -/
theorem core_threads_complete (hs : (system α).ReachableUnder CreatesThreads s) (hfits : Fits s)
    (hrunning : isRunning s.ctl = true)
    (hneeds : s.taskQueue.queue ≠ [] ∨
      ∃ worker ∈ s.workers, worker.isCoreThread = false ∧ worker.phase ≠ .exited) :
    s.threadPool.countP s.isCoreThread + s.calls.countP Call.isAddingCore = s.corePoolSize := by
  have hbound : s.coreCount ≤ s.corePoolSize := coreBounded_of_reachable hs hfits
  have hstaffed := (staffed_of_reachable hs hfits hrunning).2
  apply Nat.le_antisymm hbound
  apply hstaffed
  obtain hqueue | ⟨worker, hworker, hcore, hphase⟩ := hneeds
  · exact .queue hqueue
  · obtain ⟨w, hw⟩ := List.mem_iff_getElem?.mp hworker
    exact needsCore_of_worker (employed_of_reachable hs) (rostered_of_reachable hs) hw hcore hphase

/-- The only core thread is created for the first call, and the second call queues its task. -/
theorem core_threads_complete_one : ∃ s : ThreadPool ℕ, s.taskQueue.queue = [⟨1, 8⟩] ∧
    s.threadPool.countP s.isCoreThread + s.calls.countP Call.isAddingCore = s.corePoolSize := by
  obtain ⟨s, hs, hfits, hrunning, hqueue⟩ : ∃ s : ThreadPool ℕ,
      (system ℕ).ReachableUnder CreatesThreads s ∧
        s.maximumPoolSize ≤ kCountMask.toNat ∧ isRunning s.ctl = true ∧
        s.taskQueue.queue = [⟨1, 8⟩] := by
    apply exists_creatingThreads 1 1 1
      [.execute 7, .call 0 true, .call 0 true, .call 0 true, .call 0 true, .call 0 true,
        .call 0 true, .execute 8, .call 1 true, .queue (.call 1) (.call 1),
        .queue (.call 1) (.call 1), .queue (.call 1) (.call 1)]
    decide +kernel
  refine ⟨s, hqueue, core_threads_complete hs hfits hrunning (Or.inl ?_)⟩
  rw [hqueue]
  exact nofun

/-! ## More threads than the count can hold -/

/-- The pool with one more call of `execute`. -/
def withCall (call : Call α) (s : ThreadPool α) : ThreadPool α :=
  { s with calls := s.calls ++ [call] }

theorem step_withCall (call : Call α) (created : Bool) (s : ThreadPool α) :
    (s.withCall call).step (.call s.calls.length created) =
      (s.withCall call).stepCall s.calls.length created call := by
  change (s.calls ++ [call])[s.calls.length]?.bind _ = _
  rw [List.getElem?_concat_length, Option.bind_some]

theorem setCall_withCall (call call' : Call α) (s : ThreadPool α) :
    (s.withCall call).setCall s.calls.length call' = s.withCall call' := by
  change { s with calls := (s.calls ++ [call]).set s.calls.length call' } = _
  rw [List.set_append_right _ _ (Nat.le_refl _), Nat.sub_self]
  rfl

/-- A core thread that works, and `n` calls that have incremented the count for other threads. -/
structure Crowded (n : ℕ) (s : ThreadPool ℕ) : Prop where
  reachable : (system ℕ).ReachableUnder CreatesThreads s
  corePoolSize : s.corePoolSize = 1
  maximumPoolSize : s.maximumPoolSize = 2 ^ kCountBits
  maxQueueSize : s.taskQueue.maxQueueSize = 0
  queueMutex : s.taskQueue.mutex = none
  ctl : s.ctl = encode true (n + 1)
  mutex : s.mutex = none
  threadPool : s.threadPool = [0]
  workers : s.workers = [⟨true, .looping⟩]
  addingCore : s.calls.countP Call.isAddingCore = 0

theorem crowded_zero : ∃ s, Crowded 0 s := by
  obtain ⟨s, hs, hcore, hmax, hsize, hqueue, hctl, hmutex, hpool, hworkers, hcalls⟩ :
      ∃ s : ThreadPool ℕ,
        (system ℕ).ReachableUnder CreatesThreads s ∧
          s.corePoolSize = 1 ∧ s.maximumPoolSize = 2 ^ kCountBits ∧ s.taskQueue.maxQueueSize = 0 ∧
          s.taskQueue.mutex = none ∧ s.ctl = encode true 1 ∧ s.mutex = none ∧
          s.threadPool = [0] ∧ s.workers = [⟨true, .looping⟩] ∧
          s.calls.countP Call.isAddingCore = 0 := by
    apply exists_creatingThreads 1 (2 ^ kCountBits) 0
      [.execute 7, .call 0 true, .call 0 true, .call 0 true, .call 0 true, .call 0 true,
        .call 0 true, .worker 0, .worker 0]
    decide +kernel
  exact ⟨s, hs, hcore, hmax, hsize, hqueue, hctl, hmutex, hpool, hworkers, hcalls⟩

/-- A `tryPush` into a queue without room. -/
theorem advance_tryLock {q : BoundedBlockingQueue Thread (Submission α)} {thread : Thread}
    {r : Request (Submission α)} (hposition : q.positions thread = .locking r)
    (hmode : r.mode = .tryLock) (hmutex : q.mutex = none) (p : Bool) :
    q.advance thread thread p =
      some ({ q with mutex := some thread }.setPosition thread (.lastTesting r)) := by
  simp [advance, hposition, hmode, lock, hmutex]

theorem advance_lastTesting {q : BoundedBlockingQueue Thread (Submission α)} {thread : Thread}
    {r : Request (Submission α)} (hposition : q.positions thread = .lastTesting r) {p : Bool}
    (hready : q.isReady r p = false) :
    q.advance thread thread p = some (q.unlock thread (.returned r false)) := by
  simp [advance, hposition, hready]

theorem stepCall_pushing {i : ℕ} {created : Bool} {task : α} {r : Request (Submission α)}
    {result : Bool} (hposition : s.taskQueue.positions (.call i) = .returned r result) :
    s.stepCall i created (.pushing task) =
      some ((s.setTaskQueue (s.taskQueue.leave (.call i))).setCall i
        (if result then .accepted task else .adding task false)) := by
  simp [stepCall, hposition]

theorem step_worker {w : ℕ} {worker : Worker} (hw : s.workers[w]? = some worker) :
    s.step (.worker w) = s.stepWorker w worker := by
  rw [step, hw, Option.bind_some]

theorem step_call {i : ℕ} {call : Call α} (hi : s.calls[i]? = some call) (created : Bool) :
    s.step (.call i created) = s.stepCall i created call := by
  rw [step, hi, Option.bind_some]

/-- Another call finds the core threads created and no room in the queue. -/
theorem Crowded.refused {n : ℕ} {s : ThreadPool ℕ} (hs : Crowded n s)
    (hn : n + 1 < 2 ^ kCountBits) :
    ∃ q : BoundedBlockingQueue Thread (Submission ℕ), q.maxQueueSize = 0 ∧ q.mutex = none ∧
      (system ℕ).ReachableUnder CreatesThreads
        ((s.setTaskQueue q).withCall (.adding 7 false)) := by
  have hrunning : isRunning s.ctl = true := by
    rw [hs.ctl]
    exact isRunning_encode hn
  have hshutdown : isShutdown s.ctl = false := by
    rw [hs.ctl]
    exact isShutdown_encode hn
  let thread : Thread := .call s.calls.length
  let r : Request (Submission ℕ) := BoundedBlockingQueue.tryPush ⟨s.calls.length, 7⟩
  let q₁ := s.taskQueue.enter r thread
  let q₂ := { q₁ with mutex := some thread }.setPosition thread (.lastTesting r)
  let q₃ := q₂.unlock thread (.returned r false)
  have hbegin : s.step (.execute 7) = some (s.withCall (.loading 7)) := rfl
  have hload : (s.withCall (.loading 7)).step (.call s.calls.length true) =
      some ((s.setTaskQueue q₁).withCall (.pushing 7)) := by
    rw [step_withCall, stepCall, if_neg (by rw [Bool.not_eq_true]; exact hshutdown), if_neg, tryPush,
      if_pos]
    · exact congrArg some (setCall_withCall (.loading 7) (.pushing 7) (s.setTaskQueue q₁))
    · exact hrunning
    · change ¬ numOfActiveThreads s.ctl < s.corePoolSize
      rw [hs.ctl, numOfActiveThreads_encode hn, hs.corePoolSize]
      omega
  have hlock : ((s.setTaskQueue q₁).withCall (.pushing 7)).step (.queue thread thread) =
      some ((s.setTaskQueue q₂).withCall (.pushing 7)) :=
    congrArg (Option.map _) (advance_tryLock (setPosition_self ..) rfl hs.queueMutex _)
  have hfull : ((s.setTaskQueue q₂).withCall (.pushing 7)).step (.queue thread thread) =
      some ((s.setTaskQueue q₃).withCall (.pushing 7)) := by
    refine congrArg (Option.map _) (advance_lastTesting (setPosition_self ..) ?_)
    rw [isReady]
    change (!(decide (s.taskQueue.maxQueueSize ≤ s.taskQueue.queue.length)) || false) = false
    rw [hs.maxQueueSize]
    rfl
  have hleave : ((s.setTaskQueue q₃).withCall (.pushing 7)).step (.call s.calls.length true) =
      some ((s.setTaskQueue (q₃.leave thread)).withCall (.adding 7 false)) := by
    have hreturned : q₃.positions thread = .returned r false := setPosition_self ..
    refine (step_withCall (.pushing 7) true (s.setTaskQueue q₃)).trans ?_
    refine (stepCall_pushing hreturned).trans ?_
    exact congrArg some
      (setCall_withCall (.pushing 7) (.adding 7 false) (s.setTaskQueue (q₃.leave thread)))
  have h₁ := next_creatingThreads hs.reachable hbegin rfl
  have h₂ := next_creatingThreads h₁ hload rfl
  have h₃ := next_creatingThreads h₂ hlock rfl
  have h₄ := next_creatingThreads h₃ hfull rfl
  exact ⟨q₃.leave thread, hs.maxQueueSize, rfl, next_creatingThreads h₄ hleave rfl⟩

/-- It increments the count for a thread of another kind. -/
theorem Crowded.succ {n : ℕ} {s : ThreadPool ℕ} (hs : Crowded n s) (hn : n + 1 < 2 ^ kCountBits) :
    ∃ t, Crowded (n + 1) t ∧ t.calls = s.calls ++ [.creating 7 false] := by
  obtain ⟨q, hsize, hmutex, hadding⟩ := hs.refused hn
  have hshutdown : isShutdown s.ctl = false := by
    rw [hs.ctl]
    exact isShutdown_encode hn
  let u := s.setTaskQueue q
  have hcompare : (u.withCall (.adding 7 false)).step (.call s.calls.length true) =
      some (u.withCall (.comparing 7 false s.ctl)) := by
    refine (step_withCall (.adding 7 false) true u).trans ?_
    rw [stepCall, if_neg]
    · exact congrArg some (setCall_withCall (.adding 7 false) (.comparing 7 false s.ctl) u)
    · change ¬ (isShutdown s.ctl = true ∨ s.maximumPoolSize ≤ numOfActiveThreads s.ctl)
      rw [hshutdown, hs.ctl, numOfActiveThreads_encode hn, hs.maximumPoolSize]
      simpa using hn
  obtain ⟨ctl, hctl⟩ : ∃ ctl, ctl = s.ctl + 1 := ⟨_, rfl⟩
  let t := (u.setCtl ctl).withCall (.creating 7 false)
  have hincrement : (u.withCall (.comparing 7 false s.ctl)).step (.call s.calls.length true) =
      some t := by
    have hsame : (u.withCall (.comparing 7 false s.ctl)).ctl = s.ctl := rfl
    refine (step_withCall (.comparing 7 false s.ctl) true u).trans ?_
    rw [stepCall, if_pos hsame, ← hctl]
    exact congrArg some
      (setCall_withCall (.comparing 7 false s.ctl) (.creating 7 false) (u.setCtl ctl))
  have hcompared := next_creatingThreads hadding hcompare rfl
  refine ⟨t, ⟨next_creatingThreads hcompared hincrement rfl, hs.corePoolSize, hs.maximumPoolSize,
    hsize, hmutex, ?_, hs.mutex, hs.threadPool, hs.workers, ?_⟩, rfl⟩
  · change ctl = _
    rw [hctl, hs.ctl, encode_add_one]
  · change (s.calls ++ [_]).countP Call.isAddingCore = 0
    rw [List.countP_append, hs.addingCore]
    rfl

theorem exists_crowded (n : ℕ) (hn : n < 2 ^ kCountBits) : ∃ s, Crowded n s := by
  induction n with
  | zero => exact crowded_zero
  | succ n ih =>
      obtain ⟨s, hs⟩ := ih (by omega)
      obtain ⟨t, ht, -⟩ := hs.succ hn
      exact ⟨t, ht⟩

/-- With `2 ^ kCountBits` threads counted no state is left in `ctl_`. The core thread quits, and
gives the state back with its place in the count. -/
theorem Crowded.quits {s : ThreadPool ℕ} (hs : Crowded (2 ^ kCountBits - 1) s) :
    ∃ t : ThreadPool ℕ, (system ℕ).ReachableUnder CreatesThreads t ∧ isRunning t.ctl = true ∧
      t.corePoolSize = 1 ∧ t.mutex = none ∧ t.threadPool = [] ∧ t.calls = s.calls := by
  have hworker : s.workers[0]? = some ⟨true, .looping⟩ := by
    rw [hs.workers]
    rfl
  obtain ⟨s₁, hquit, hctl, hmutex, hpool, hworkers, hcalls⟩ : ∃ s₁ : ThreadPool ℕ,
      s.step (.worker 0) = some s₁ ∧ s₁.ctl = s.ctl ∧ s₁.mutex = none ∧ s₁.threadPool = [0] ∧
        s₁.workers[0]? = some ⟨true, .releasing⟩ ∧ s₁.calls = s.calls := by
    have hstopped : isRunning s.ctl = false := by
      rw [hs.ctl]
      decide
    refine ⟨s.setWorker 0 ⟨true, .releasing⟩, ?_, rfl, hs.mutex, hs.threadPool, ?_, rfl⟩
    · rw [step_worker hworker, stepWorker, hstopped]
      rfl
    · exact List.getElem?_set_self (List.getElem?_eq_some_iff.mp hworker).1
  obtain ⟨s₂, herase, hctl₂, hpool₂, hworkers₂, hcalls₂⟩ : ∃ s₂ : ThreadPool ℕ,
      s₁.step (.worker 0) = some s₂ ∧ s₂.ctl = s₁.ctl ∧ s₂.threadPool = [] ∧
        s₂.workers[0]? = some ⟨true, .erased⟩ ∧ s₂.calls = s₁.calls := by
    refine ⟨((s₁.setThreadPool []).setMutex (some (.worker 0))).setWorker 0 ⟨true, .erased⟩, ?_,
      rfl, rfl, ?_, rfl⟩
    · rw [step_worker hworkers, stepWorker, hmutex, hpool]
      rfl
    · exact List.getElem?_set_self (List.getElem?_eq_some_iff.mp hworkers).1
  have hdecrement : s₂.step (.worker 0) =
      some (((s₂.setCtl (s₂.ctl - 1)).setMutex none).setWorker 0 ⟨true, .exited⟩) := by
    rw [step_worker hworkers₂]
    rfl
  have h₁ := next_creatingThreads hs.reachable hquit rfl
  have h₂ := next_creatingThreads h₁ herase rfl
  refine ⟨_, next_creatingThreads h₂ hdecrement rfl, ?_, ?_, rfl, hpool₂, hcalls₂.trans hcalls⟩
  · change isRunning (s₂.ctl - 1) = true
    rw [hctl₂, hctl, hs.ctl]
    decide
  · rw [(step_count hdecrement).2.1, (step_count herase).2.1, (step_count hquit).2.1,
      hs.corePoolSize]

/-- A pool with more threads than the count can hold is running without its core thread. -/
theorem core_threads_incomplete : ∃ s : ThreadPool ℕ,
    (system ℕ).ReachableUnder CreatesThreads s ∧ isRunning s.ctl = true ∧
      (∃ worker ∈ s.workers, worker.isCoreThread = false ∧ worker.phase ≠ .exited) ∧
      s.threadPool.countP s.isCoreThread + s.calls.countP Call.isAddingCore ≠ s.corePoolSize := by
  obtain ⟨s₀, hs₀⟩ := exists_crowded (2 ^ kCountBits - 2) (by decide)
  obtain ⟨s, hs, hlast⟩ := hs₀.succ (by decide)
  obtain ⟨t, hreachable, hrunning, hcore, hmutex, hpool, hcalls⟩ := hs.quits
  have hcall : t.calls[s₀.calls.length]? = some (.creating 7 false) := by
    rw [hcalls, hlast]
    exact List.getElem?_concat_length
  have hlength := (List.getElem?_eq_some_iff.mp hcall).1
  have hadding : t.calls.countP Call.isAddingCore = 0 := by rw [hcalls, hs.addingCore]
  obtain ⟨u, hlock, hrunning', hcall', hadding', hpool'⟩ : ∃ u : ThreadPool ℕ,
      t.step (.call s₀.calls.length true) = some u ∧ isRunning u.ctl = true ∧
        u.calls[s₀.calls.length]? = some (.constructing 7 false) ∧
        u.calls.countP Call.isAddingCore = 0 ∧ u.threadPool = [] := by
    refine ⟨(t.setMutex (some (.call s₀.calls.length))).setCall s₀.calls.length
      (.constructing 7 false), ?_, hrunning, List.getElem?_set_self hlength, ?_, hpool⟩
    · rw [step_call hcall, stepCall, hmutex, hrunning]
      rfl
    · rw [← hadding]
      exact countP_set_same hcall rfl
  have hcreate : u.step (.call s₀.calls.length true) =
      some ((u.startWorker false ⟨s₀.calls.length, 7⟩).setCall s₀.calls.length
        (.emplacing 7 false u.workers.length)) := by
    rw [step_call hcall', stepCall, if_pos rfl]
  have h₁ := next_creatingThreads hreachable hlock rfl
  refine ⟨_, next_creatingThreads h₁ hcreate rfl, hrunning', ⟨⟨false, .ready⟩, ?_, rfl, ?_⟩, ?_⟩
  · exact List.mem_append_right _ (List.mem_singleton.mpr rfl)
  · intro h
    cases h
  · rw [(step_count hcreate).2.1, (step_count hlock).2.1, hcore]
    change u.threadPool.countP _ + (u.calls.set _ _).countP Call.isAddingCore ≠ 1
    have hset := countP_set_same (b := .emplacing 7 false u.workers.length)
      (p := Call.isAddingCore) hcall' rfl
    rw [hset, hadding', hpool']
    exact Nat.zero_ne_one

end Nets.ThreadPool
