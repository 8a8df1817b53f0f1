import Nets.Program.ThreadPool

/-! # The steps of the pool

One inversion for each kind of thread. The relations list what the next step of a worker, of
`execute` and of `shutdown` can be, with the state it leads to; the invariants of the pool are
derived from them by cases. -/

namespace Nets.ThreadPool

open Library

variable {α : Type} {s t : ThreadPool α}

/-! ## Workers -/

inductive WorkerStep (w : ℕ) (worker : Worker) (s : ThreadPool α) : ThreadPool α → Prop where
  | start (sub : Submission α) (hphase : worker.phase = .ready)
      (houtput : s.taskQueue.outputs (.worker w) = some sub) :
      WorkerStep w worker s ((s.startTask sub).setWorker w { worker with phase := .executing })
  | skip (hphase : worker.phase = .ready) (houtput : s.taskQueue.outputs (.worker w) = none) :
      WorkerStep w worker s (s.setWorker w { worker with phase := .looping })
  | finish (hphase : worker.phase = .executing) :
      WorkerStep w worker s ((s.finishTask w).setWorker w { worker with phase := .looping })
  | enter (hphase : worker.phase = .looping) (hrunning : isRunning s.ctl = true) :
      WorkerStep w worker s
        ((s.setTaskQueue (s.taskQueue.enter (takeRequest worker.isCoreThread)
          (.worker w))).setWorker w { worker with phase := .taking })
  | quit (hphase : worker.phase = .looping) (hrunning : isRunning s.ctl = false) :
      WorkerStep w worker s (s.setWorker w { worker with phase := .releasing })
  | leave (r : Request (Submission α)) (result : Bool) (hphase : worker.phase = .taking)
      (hposition : s.taskQueue.positions (.worker w) = .returned r result) :
      WorkerStep w worker s
        ((s.setTaskQueue (s.taskQueue.leave (.worker w))).setWorker w
          { worker with phase := if worker.isCoreThread || result then .ready else .releasing })
  | erase (hphase : worker.phase = .releasing) (hmutex : s.mutex = none) (hw : w ∈ s.threadPool) :
      WorkerStep w worker s
        (((s.setThreadPool (s.threadPool.erase w)).setMutex (some (.worker w))).setWorker w
          { worker with phase := .erased })
  | vanish (hphase : worker.phase = .releasing) (hmutex : s.mutex = none) (hw : w ∉ s.threadPool) :
      WorkerStep w worker s (s.setWorker w { worker with phase := .exited })
  | decrement (hphase : worker.phase = .erased) :
      WorkerStep w worker s
        (((s.setCtl (s.ctl - 1)).setMutex none).setWorker w { worker with phase := .exited })

theorem workerStep_of_stepWorker {w : ℕ} {worker : Worker} (h : s.stepWorker w worker = some t) :
    WorkerStep w worker s t := by
  cases hphase : worker.phase with
  | ready =>
      simp only [stepWorker, hphase] at h
      split at h
      case h_1 sub houtput =>
          obtain rfl := Option.some.inj h
          exact .start sub hphase houtput
      case h_2 houtput =>
          obtain rfl := Option.some.inj h
          exact .skip hphase houtput
  | executing =>
      simp only [stepWorker, hphase, Option.some.injEq] at h
      subst h
      exact .finish hphase
  | looping =>
      simp only [stepWorker, hphase] at h
      split at h
      case isTrue hrunning =>
          obtain rfl := Option.some.inj h
          exact .enter hphase hrunning
      case isFalse hrunning =>
          obtain rfl := Option.some.inj h
          exact .quit hphase (Bool.not_eq_true _ ▸ hrunning)
  | taking =>
      simp only [stepWorker, hphase] at h
      split at h
      case h_1 r result hposition =>
          obtain rfl := Option.some.inj h
          exact .leave r result hphase hposition
      · cases h
  | releasing =>
      simp only [stepWorker, hphase] at h
      split at h
      · cases h
      case isFalse hmutex =>
          have hmutex : s.mutex = none := by simpa using hmutex
          split at h
          case isTrue hw =>
              obtain rfl := Option.some.inj h
              exact .erase hphase hmutex hw
          case isFalse hw =>
              obtain rfl := Option.some.inj h
              exact .vanish hphase hmutex hw
  | erased =>
      simp only [stepWorker, hphase, Option.some.injEq] at h
      subst h
      exact .decrement hphase
  | exited => simp [stepWorker, hphase] at h

/-! ## Calls of `execute` -/

/-- The call has found that a core thread is not what it needs: it has just loaded `ctl_`. -/
inductive Call.Loads (s : ThreadPool α) (task : α) : Call α → Prop where
  | first (hshutdown : isShutdown s.ctl = false)
      (hcore : s.corePoolSize ≤ numOfActiveThreads s.ctl) : Call.Loads s task (.loading task)
  | again : Call.Loads s task (.reloading task)

inductive CallStep (i : ℕ) (created : Bool) (s : ThreadPool α) :
    Call α → ThreadPool α → Prop where
  | refuse (task : α) (hshutdown : isShutdown s.ctl = true) :
      CallStep i created s (.loading task) (s.setCall i (.returned task false))
  | addCore (task : α) (hshutdown : isShutdown s.ctl = false)
      (hcore : numOfActiveThreads s.ctl < s.corePoolSize) :
      CallStep i created s (.loading task) (s.setCall i (.adding task true))
  | push (task : α) (call : Call α) (hloads : Call.Loads s task call)
      (hrunning : isRunning s.ctl = true) :
      CallStep i created s call
        ((s.setTaskQueue (s.taskQueue.enter (BoundedBlockingQueue.tryPush ⟨i, task⟩)
          (.call i))).setCall i (.pushing task))
  | addOther (task : α) (call : Call α) (hloads : Call.Loads s task call)
      (hrunning : isRunning s.ctl = false) :
      CallStep i created s call (s.setCall i (.adding task false))
  | fail (task : α) (isCore : Bool)
      (hfail : isShutdown s.ctl = true ∨ s.limit isCore ≤ numOfActiveThreads s.ctl) :
      CallStep i created s (.adding task isCore) (s.setCall i (notAdded task isCore))
  | compare (task : α) (isCore : Bool) (hshutdown : isShutdown s.ctl = false)
      (hlimit : numOfActiveThreads s.ctl < s.limit isCore) :
      CallStep i created s (.adding task isCore) (s.setCall i (.comparing task isCore s.ctl))
  | increment (task : α) (isCore : Bool) :
      CallStep i created s (.comparing task isCore s.ctl)
        ((s.setCtl (s.ctl + 1)).setCall i (.creating task isCore))
  | retry (task : α) (isCore : Bool) (ctl : BitVec 32) (hctl : s.ctl ≠ ctl) :
      CallStep i created s (.comparing task isCore ctl) (s.setCall i (.adding task isCore))
  | lockRunning (task : α) (isCore : Bool) (hmutex : s.mutex = none)
      (hrunning : isRunning s.ctl = true) :
      CallStep i created s (.creating task isCore)
        ((s.setMutex (some (.call i))).setCall i (.constructing task isCore))
  | lockStopped (task : α) (isCore : Bool) (hmutex : s.mutex = none)
      (hrunning : isRunning s.ctl = false) :
      CallStep i created s (.creating task isCore)
        ((s.setMutex (some (.call i))).setCall i (.retreating task isCore))
  | construct (task : α) (isCore : Bool) (hcreated : created = true) :
      CallStep i created s (.constructing task isCore)
        ((s.startWorker isCore ⟨i, task⟩).setCall i (.emplacing task isCore s.workers.length))
  | throwOut (task : α) (isCore : Bool) (hcreated : created = false) :
      CallStep i created s (.constructing task isCore) ((s.setMutex none).setCall i (.thrown task))
  | emplace (task : α) (isCore : Bool) (w : ℕ) :
      CallStep i created s (.emplacing task isCore w)
        (((s.setThreadPool (s.threadPool ++ [w])).setMutex none).setCall i (.accepted task))
  | retreat (task : α) (isCore : Bool) :
      CallStep i created s (.retreating task isCore)
        (((s.setCtl (s.ctl - 1)).setMutex none).setCall i (notAdded task isCore))
  | leave (task : α) (r : Request (Submission α)) (result : Bool)
      (hposition : s.taskQueue.positions (.call i) = .returned r result) :
      CallStep i created s (.pushing task)
        ((s.setTaskQueue (s.taskQueue.leave (.call i))).setCall i
          (if result then .accepted task else .adding task false))
  | finish (task : α) :
      CallStep i created s (.accepted task) (s.setCall i (.returned task true))

theorem callStep_of_tryPush {i : ℕ} {created : Bool} {task : α} {call : Call α}
    (hloads : Call.Loads s task call) :
    CallStep i created s call (s.tryPush i task s.ctl) := by
  rw [tryPush]
  split
  case isTrue hrunning => exact .push task call hloads hrunning
  case isFalse hrunning => exact .addOther task call hloads (Bool.not_eq_true _ ▸ hrunning)

theorem callStep_of_stepCall {i : ℕ} {created : Bool} {call : Call α}
    (h : s.stepCall i created call = some t) : CallStep i created s call t := by
  cases call with
  | loading task =>
      simp only [stepCall] at h
      split at h
      case isTrue hshutdown =>
          obtain rfl := Option.some.inj h
          exact .refuse task hshutdown
      case isFalse hshutdown =>
          have hshutdown : isShutdown s.ctl = false := Bool.not_eq_true _ ▸ hshutdown
          split at h
          case isTrue hcore =>
              obtain rfl := Option.some.inj h
              exact .addCore task hshutdown hcore
          case isFalse hcore =>
              obtain rfl := Option.some.inj h
              apply callStep_of_tryPush
              exact .first hshutdown (Nat.le_of_not_lt hcore)
  | adding task isCore =>
      simp only [stepCall] at h
      split at h
      case isTrue hfail =>
          obtain rfl := Option.some.inj h
          exact .fail task isCore hfail
      case isFalse hallowed =>
          obtain rfl := Option.some.inj h
          rw [not_or, Bool.not_eq_true, Nat.not_le] at hallowed
          exact .compare task isCore hallowed.1 hallowed.2
  | comparing task isCore ctl =>
      simp only [stepCall] at h
      split at h
      case isTrue hctl =>
          obtain rfl := Option.some.inj h
          subst hctl
          exact .increment task isCore
      case isFalse hctl =>
          obtain rfl := Option.some.inj h
          exact .retry task isCore ctl hctl
  | creating task isCore =>
      simp only [stepCall] at h
      split at h
      · cases h
      case isFalse hmutex =>
          have hmutex : s.mutex = none := by simpa using hmutex
          obtain rfl := Option.some.inj h
          split
          case isTrue hrunning => exact .lockRunning task isCore hmutex hrunning
          case isFalse hrunning =>
              exact .lockStopped task isCore hmutex (Bool.not_eq_true _ ▸ hrunning)
  | constructing task isCore =>
      simp only [stepCall] at h
      split at h
      case isTrue hcreated =>
          obtain rfl := Option.some.inj h
          exact .construct task isCore hcreated
      case isFalse hcreated =>
          obtain rfl := Option.some.inj h
          exact .throwOut task isCore (Bool.not_eq_true _ ▸ hcreated)
  | emplacing task isCore w =>
      simp only [stepCall, Option.some.injEq] at h
      subst h
      exact .emplace task isCore w
  | retreating task isCore =>
      simp only [stepCall, Option.some.injEq] at h
      subst h
      exact .retreat task isCore
  | reloading task =>
      simp only [stepCall, Option.some.injEq] at h
      subst h
      exact callStep_of_tryPush .again
  | pushing task =>
      simp only [stepCall] at h
      split at h
      case h_1 r result hposition =>
          obtain rfl := Option.some.inj h
          exact .leave task r result hposition
      · cases h
  | accepted task =>
      simp only [stepCall, Option.some.injEq] at h
      subst h
      exact .finish task
  | returned task result => simp [stepCall] at h
  | thrown task => simp [stepCall] at h

/-! ## Calls of `shutdown` -/

inductive StopStep (i : ℕ) (s : ThreadPool α) : Stop → ThreadPool α → Prop where
  | refuse (hshutdown : isShutdown s.ctl = true) :
      StopStep i s .checking (s.setStop i .alreadyShutdown)
  | check (hshutdown : isShutdown s.ctl = false) : StopStep i s .checking (s.setStop i .loading)
  | load : StopStep i s .loading (s.setStop i (.comparing s.ctl))
  | switch : StopStep i s (.comparing s.ctl)
      ((s.setCtl (kShutdown ||| (s.ctl &&& kCountMask))).setStop i .notifyingFull)
  | retry (ctl : BitVec 32) (hctl : s.ctl ≠ ctl) :
      StopStep i s (.comparing ctl) (s.setStop i .loading)
  | notifyFull : StopStep i s .notifyingFull
      ((s.setTaskQueue s.taskQueue.notifyAllFull).setStop i .notifyingEmpty)
  | notifyEmpty : StopStep i s .notifyingEmpty
      ((s.setTaskQueue s.taskQueue.notifyAllEmpty).setStop i .waiting)
  | awake (hmutex : s.mutex = none) (hcount : numOfActiveThreads s.ctl = 0) :
      StopStep i s .waiting ((s.setMutex (some (.stop i))).setStop i .draining)
  | drained (hqueue : s.taskQueue.queue = []) :
      StopStep i s .draining ((s.setMutex none).setStop i .returned)
  | pop (hqueue : s.taskQueue.queue ≠ []) : StopStep i s .draining
      ((s.setTaskQueue (s.taskQueue.enter BoundedBlockingQueue.tryPop (.stop i))).setStop i .popping)
  | leave (r : Request (Submission α)) (result : Bool)
      (hposition : s.taskQueue.positions (.stop i) = .returned r result) :
      StopStep i s .popping
        ((s.setTaskQueue (s.taskQueue.leave (.stop i))).setStop i .draining)

theorem stopStep_of_stepStop {i : ℕ} {stop : Stop} (h : s.stepStop i stop = some t) :
    StopStep i s stop t := by
  cases stop with
  | checking =>
      simp only [stepStop, Option.some.injEq] at h
      subst h
      split
      case isTrue hshutdown => exact .refuse hshutdown
      case isFalse hshutdown => exact .check (Bool.not_eq_true _ ▸ hshutdown)
  | loading =>
      simp only [stepStop, Option.some.injEq] at h
      subst h
      exact .load
  | comparing ctl =>
      simp only [stepStop] at h
      split at h
      case isTrue hctl =>
          obtain rfl := Option.some.inj h
          subst hctl
          exact .switch
      case isFalse hctl =>
          obtain rfl := Option.some.inj h
          exact .retry ctl hctl
  | notifyingFull =>
      simp only [stepStop, Option.some.injEq] at h
      subst h
      exact .notifyFull
  | notifyingEmpty =>
      simp only [stepStop, Option.some.injEq] at h
      subst h
      exact .notifyEmpty
  | waiting =>
      simp only [stepStop] at h
      split at h
      case isTrue hawake =>
          obtain rfl := Option.some.inj h
          exact .awake (Option.isNone_iff_eq_none.mp hawake.1) hawake.2
      · cases h
  | draining =>
      simp only [stepStop, BoundedBlockingQueue.isEmpty] at h
      split at h
      · simp only [Option.map_some, Option.some.injEq] at h
        split at h
        case isTrue hempty =>
            subst h
            exact .drained (List.isEmpty_iff.mp hempty)
        case isFalse hempty =>
            subst h
            exact .pop fun hqueue => hempty (List.isEmpty_iff.mpr hqueue)
      · cases h
  | popping =>
      simp only [stepStop] at h
      split at h
      case h_1 r result hposition =>
          obtain rfl := Option.some.inj h
          exact .leave r result hposition
      · cases h
  | alreadyShutdown | returned => simp [stepStop] at h

/-! ## All threads together -/

/-- The cases of an invariant of the runs whose steps satisfy `ok`. -/
structure Preserved (ok : ThreadPool α → Action α → Prop) (I : ThreadPool α → Prop) : Prop where
  execute : ∀ s task, I s → ok s (.execute task) → I { s with calls := s.calls ++ [.loading task] }
  shutdown : ∀ s, I s → ok s .shutdown → I { s with stops := s.stops ++ [.checking] }
  worker : ∀ s w worker t, I s → ok s (.worker w) → s.workers[w]? = some worker →
    WorkerStep w worker s t → I t
  call : ∀ s i created call t, I s → ok s (.call i created) → s.calls[i]? = some call →
    CallStep i created s call t → I t
  stop : ∀ s i stop t, I s → ok s (.stop i) → s.stops[i]? = some stop → StopStep i s stop t → I t
  queue : ∀ s thread woken q, I s → ok s (.queue thread woken) →
    s.taskQueue.advance thread woken (isShutdown s.ctl) = some q → I (s.setTaskQueue q)
  wakeUp : ∀ s thread q, I s → s.taskQueue.wakeUp thread = some q → I (s.setTaskQueue q)
  expire : ∀ s thread q, I s → s.taskQueue.expire thread = some q → I (s.setTaskQueue q)

variable {ok : ThreadPool α → Action α → Prop} {I : ThreadPool α → Prop}

theorem Preserved.step (h : Preserved ok I) {action : Action α} (hs : I s) (hok : ok s action)
    (ht : s.step action = some t) : I t := by
  cases action with
  | execute task =>
      obtain rfl := Option.some.inj ht
      exact h.execute s task hs hok
  | shutdown =>
      obtain rfl := Option.some.inj ht
      exact h.shutdown s hs hok
  | worker w =>
      obtain ⟨worker, hworker, hstep⟩ := Option.bind_eq_some_iff.mp ht
      exact h.worker s w worker t hs hok hworker (workerStep_of_stepWorker hstep)
  | call i created =>
      obtain ⟨call, hcall, hstep⟩ := Option.bind_eq_some_iff.mp ht
      exact h.call s i created call t hs hok hcall (callStep_of_stepCall hstep)
  | stop i =>
      obtain ⟨stop, hstop, hstep⟩ := Option.bind_eq_some_iff.mp ht
      exact h.stop s i stop t hs hok hstop (stopStep_of_stepStop hstep)
  | queue thread woken =>
      obtain ⟨q, hq, rfl⟩ := Option.map_eq_some_iff.mp ht
      exact h.queue s thread woken q hs hok hq
  | wakeUp thread =>
      obtain ⟨q, hq, rfl⟩ := Option.map_eq_some_iff.mp ht
      exact h.wakeUp s thread q hs hq
  | expire thread =>
      obtain ⟨q, hq, rfl⟩ := Option.map_eq_some_iff.mp ht
      exact h.expire s thread q hs hq

theorem Preserved.reachable (h : Preserved ok I)
    (hcreate : ∀ corePoolSize maximumPoolSize maxQueueSize s,
      create corePoolSize maximumPoolSize maxQueueSize = some s → I s)
    (hs : (system α).ReachableUnder ok s) : I s := by
  apply hs.invariant
  · rintro s ⟨corePoolSize, maximumPoolSize, maxQueueSize, hs⟩
    exact hcreate corePoolSize maximumPoolSize maxQueueSize s hs
  · intro s action t hs hok ht
    exact h.step hs hok ht

/-- A new pool. -/
structure Created (s : ThreadPool α) : Prop where
  corePoolSize : 0 < s.corePoolSize
  maximumPoolSize : s.corePoolSize ≤ s.maximumPoolSize
  taskQueue : s.taskQueue = .create s.taskQueue.maxQueueSize
  threadPool : s.threadPool = []
  ctl : s.ctl = kRunning
  mutex : s.mutex = none
  workers : s.workers = []
  calls : s.calls = []
  stops : s.stops = []
  started : s.started = []
  finished : s.finished = []

theorem created_of_create {corePoolSize maximumPoolSize maxQueueSize : ℕ}
    (h : create corePoolSize maximumPoolSize maxQueueSize = some s) : Created s := by
  rw [create] at h
  split at h
  · cases h
  case isFalse hsizes =>
      obtain rfl := Option.some.inj h
      rw [not_or, Nat.not_lt] at hsizes
      exact ⟨Nat.pos_of_ne_zero hsizes.1, hsizes.2, rfl, rfl, rfl, rfl, rfl, rfl, rfl, rfl, rfl⟩

/-- What can be computed of the end of a run of a new pool holds in a state that is reached. -/
theorem exists_reachableUnder {ok : ThreadPool α → Action α → Prop} [∀ s a, Decidable (ok s a)]
    {P : ThreadPool α → Prop} [DecidablePred P]
    (corePoolSize maximumPoolSize maxQueueSize : ℕ) (actions : List (Action α))
    (h : ((create corePoolSize maximumPoolSize maxQueueSize).any fun s =>
      ((system α).runUnder ok s actions).any (fun t => decide (P t))) = true) :
    ∃ s, (system α).ReachableUnder ok s ∧ P s := by
  obtain ⟨s, hs, hrun⟩ := (Option.any_eq_true ..).mp h
  have hinitial : (system α).ReachableUnder ok s :=
    .initial ⟨corePoolSize, maximumPoolSize, maxQueueSize, hs⟩
  exact hinitial.exists_of_runUnder _ actions hrun

end Nets.ThreadPool
