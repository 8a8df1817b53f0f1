import Nets.Verification.ThreadPool.Count

/-! # Core threads

A core thread is counted from the increment of its call on, first with the call and then with its
wrapper. -/

namespace Nets.ThreadPool

open Library

variable {α : Type} {s t : ThreadPool α}

def isCoreThread (s : ThreadPool α) (w : ℕ) : Bool :=
  (s.workers[w]?.map Worker.isCoreThread).getD false

/-- The call is between the increment for a core thread and its `emplace_back` or decrement. -/
def Call.isAddingCore : Call α → Bool
  | .creating _ isCore | .constructing _ isCore | .emplacing _ isCore _ | .retreating _ isCore =>
    isCore
  | _ => false

def coreCount (s : ThreadPool α) : ℕ :=
  s.threadPool.countP s.isCoreThread + s.calls.countP Call.isAddingCore

/-- The thread of a wrapper is what its call asked for. -/
def Hired (s : ThreadPool α) (call : Call α) : Prop :=
  ∀ task isCore w, call = .emplacing task isCore w →
    s.workers[w]?.map Worker.isCoreThread = some isCore

structure Rostered (s : ThreadPool α) : Prop where
  threadPool : ∀ w ∈ s.threadPool, w < s.workers.length
  calls : ∀ call ∈ s.calls, Hired s call

theorem Call.isCounted_of_isAddingCore {call : Call α} (h : call.isAddingCore = true) :
    call.isCounted = true := by
  cases call with
  | creating | constructing | emplacing | retreating => rfl
  | loading | adding | comparing | reloading | pushing | accepted | returned | thrown => cases h

theorem coreCount_le_count (s : ThreadPool α) : s.coreCount ≤ s.count := by
  have hpool : s.threadPool.countP s.isCoreThread ≤ s.threadPool.length := List.countP_le_length
  have hcalls : s.calls.countP Call.isAddingCore ≤ s.calls.countP Call.isCounted :=
    List.countP_mono_left fun _ _ => Call.isCounted_of_isAddingCore
  rw [coreCount, count]
  omega

theorem isAddingCore_notAdded (task : α) (isCore : Bool) :
    (notAdded task isCore).isAddingCore = false := by
  cases isCore with
  | true => rfl
  | false => rfl

theorem hired_notAdded (s : ThreadPool α) (task : α) (isCore : Bool) :
    Hired s (notAdded task isCore) := by
  cases isCore with
  | true => exact nofun
  | false => exact nofun

/-! ## Workers keep their kind -/

/-- A step that adds threads at most. -/
structure Grows (s t : ThreadPool α) : Prop where
  length : s.workers.length ≤ t.workers.length
  kinds : ∀ w < s.workers.length,
    t.workers[w]?.map Worker.isCoreThread = s.workers[w]?.map Worker.isCoreThread

theorem Grows.of_eq (h : t.workers = s.workers) : Grows s t := by
  constructor
  · rw [h]
  · intro w _
    rw [h]

theorem Grows.of_set {w : ℕ} {worker worker' : Worker} (hw : s.workers[w]? = some worker)
    (h : t.workers = s.workers.set w worker')
    (hcore : worker'.isCoreThread = worker.isCoreThread) : Grows s t := by
  constructor
  · rw [h, List.length_set]
  · intro v _
    rw [h]
    exact map_getElem?_set hw hcore v

theorem Grows.of_append {worker : Worker} (h : t.workers = s.workers ++ [worker]) :
    Grows s t := by
  constructor
  · rw [h, List.length_append]
    exact Nat.le_add_right ..
  · intro w hw
    rw [h, List.getElem?_append_left hw]

theorem Hired.of_grows {call : Call α} (hgrows : Grows s t) (h : Hired s call) : Hired t call := by
  intro task isCore w hcall
  have hw := h task isCore w hcall
  rw [hgrows.kinds w _, hw]
  by_contra hlength
  rw [List.getElem?_eq_none (Nat.le_of_not_lt hlength)] at hw
  cases hw

theorem Grows.countP_of_forall (hgrows : Grows s t) {l : List ℕ}
    (hl : ∀ w ∈ l, w < s.workers.length) : l.countP t.isCoreThread = l.countP s.isCoreThread := by
  apply List.countP_congr
  intro w hw
  rw [isCoreThread, isCoreThread, hgrows.kinds w (hl w hw)]

theorem Grows.countP (hgrows : Grows s t) (hs : Rostered s) :
    s.threadPool.countP t.isCoreThread = s.threadPool.countP s.isCoreThread :=
  hgrows.countP_of_forall hs.threadPool

/-- A step that leaves the wrappers, and a call that keeps its place in the count. -/
theorem coreCount_eq (hs : Rostered s) (hgrows : Grows s t) (hpool : t.threadPool = s.threadPool)
    (hcalls : t.calls.countP Call.isAddingCore = s.calls.countP Call.isAddingCore) :
    t.coreCount = s.coreCount := by
  rw [coreCount, coreCount, hpool, hcalls, hgrows.countP hs]

theorem coreCount_erase (hs : Rostered s) (hgrows : Grows s t) {w : ℕ} (hw : w ∈ s.threadPool)
    (hpool : t.threadPool = s.threadPool.erase w) (hcalls : t.calls = s.calls) :
    t.coreCount + (if s.isCoreThread w then 1 else 0) = s.coreCount := by
  have hperm := (List.perm_cons_erase hw).countP_eq s.isCoreThread
  have hkinds := hgrows.countP_of_forall (l := s.threadPool.erase w) fun v hv =>
    hs.threadPool v (List.mem_of_mem_erase hv)
  rw [coreCount, coreCount, hpool, hcalls, hkinds, hperm, List.countP_cons]
  omega

/-! ## What a step does to the core threads -/

inductive CoreChange (s t : ThreadPool α) : Prop
  | same (hcount : t.coreCount = s.coreCount)
  | increment (task : α) (hcomparing : .comparing task true s.ctl ∈ s.calls)
      (hcount : t.coreCount = s.coreCount + 1)
  | decrement (hcount : t.coreCount + 1 = s.coreCount)
      (hleaving : (∃ worker ∈ s.workers, worker.isCoreThread = true ∧ worker.phase = .releasing) ∨
        ∃ call ∈ s.calls, (∃ task, call = .retreating task true) ∨
          ∃ task, call = .constructing task true ∧ ∃ task', .thrown task' ∈ t.calls)

theorem grows_workerStep {w : ℕ} {worker : Worker} (hw : s.workers[w]? = some worker)
    (h : WorkerStep w worker s t) : Grows s t := by
  cases h with
  | start | skip | finish | enter | quit | leave | vanish | erase | decrement =>
      exact .of_set hw rfl rfl

theorem grows_callStep {i : ℕ} {created : Bool} {call : Call α} (h : CallStep i created s call t) :
    Grows s t := by
  cases h with
  | construct task isCore hcreated => exact .of_append rfl
  | refuse | addCore | push | addOther | fail | compare | increment | retry | lockRunning
  | lockStopped | throwOut | emplace | retreat | leave | finish => exact .of_eq rfl

theorem workerStep_core {w : ℕ} {worker : Worker} (hs : Rostered s)
    (hw : s.workers[w]? = some worker) (h : WorkerStep w worker s t) : CoreChange s t := by
  have hgrows := grows_workerStep hw h
  cases h with
  | start | skip | finish | enter | quit | leave | vanish | decrement =>
      exact .same (coreCount_eq hs hgrows rfl rfl)
  | erase hphase hmutex hmem =>
      have hcount := coreCount_erase hs hgrows hmem rfl rfl
      have hcore : s.isCoreThread w = worker.isCoreThread := by
        rw [isCoreThread, hw]
        rfl
      rw [hcore] at hcount
      by_cases hkind : worker.isCoreThread = true
      · rw [if_pos hkind] at hcount
        exact .decrement hcount (Or.inl ⟨worker, List.mem_of_getElem? hw, hkind, hphase⟩)
      · rw [if_neg hkind] at hcount
        exact .same hcount

theorem coreCount_setCall (hs : Rostered s) {i : ℕ} {call call' : Call α}
    (hi : s.calls[i]? = some call) (hgrows : Grows s t) (hpool : t.threadPool = s.threadPool)
    (hcalls : t.calls = s.calls.set i call') :
    t.coreCount + (if call.isAddingCore then 1 else 0) =
      s.coreCount + if call'.isAddingCore then 1 else 0 := by
  have hset := countP_set (b := call') Call.isAddingCore hi
  rw [coreCount, coreCount, hpool, hcalls, hgrows.countP hs]
  omega

theorem coreCount_setCall_same (hs : Rostered s) {i : ℕ} {call call' : Call α}
    (hi : s.calls[i]? = some call) (hgrows : Grows s t) (hpool : t.threadPool = s.threadPool)
    (hcalls : t.calls = s.calls.set i call') (hcore : call'.isAddingCore = call.isAddingCore) :
    CoreChange s t := by
  have hcount := coreCount_setCall hs hi hgrows hpool hcalls
  rw [hcore] at hcount
  exact .same (by omega)

theorem callStep_core {i : ℕ} {created : Bool} {call : Call α} (hs : Rostered s)
    (hi : s.calls[i]? = some call) (h : CallStep i created s call t) : CoreChange s t := by
  have hgrows := grows_callStep h
  cases h with
  | refuse | addCore | compare | retry | lockRunning | lockStopped | construct | finish =>
      exact coreCount_setCall_same hs hi hgrows rfl rfl rfl
  | push task call hloads hrunning | addOther task call hloads hrunning =>
      cases hloads with
      | first | again => exact coreCount_setCall_same hs hi hgrows rfl rfl rfl
  | fail task isCore hfail =>
      exact coreCount_setCall_same hs hi hgrows rfl rfl (isAddingCore_notAdded task isCore)
  | leave task r result hposition =>
      cases result with
      | true | false => exact coreCount_setCall_same hs hi hgrows rfl rfl rfl
  | increment task isCore =>
      have hcount := coreCount_setCall hs hi hgrows rfl rfl
      cases isCore with
      | true => exact .increment task (List.mem_of_getElem? hi) hcount
      | false => exact .same hcount
  | throwOut task isCore hcreated =>
      have hcount := coreCount_setCall hs hi hgrows rfl rfl
      cases isCore with
      | false => exact .same hcount
      | true =>
          refine .decrement hcount (Or.inr ⟨_, List.mem_of_getElem? hi, Or.inr ⟨task, rfl, task, ?_⟩⟩)
          exact List.mem_set (List.getElem?_eq_some_iff.mp hi).1 _
  | emplace task isCore w =>
      have hset : (s.calls.set i (.accepted task)).countP Call.isAddingCore +
          (if isCore = true then 1 else 0) = s.calls.countP Call.isAddingCore :=
        countP_set (b := .accepted task) Call.isAddingCore hi
      have hcore : s.isCoreThread w = isCore := by
        rw [isCoreThread, hs.calls _ (List.mem_of_getElem? hi) task isCore w rfl]
        rfl
      refine .same ?_
      change (s.threadPool ++ [w]).countP s.isCoreThread +
        (s.calls.set i (.accepted task)).countP Call.isAddingCore = _
      rw [coreCount, ← hset, List.countP_append, List.countP_singleton, hcore]
      omega
  | retreat task isCore =>
      have hcount := coreCount_setCall hs hi hgrows rfl rfl
      rw [isAddingCore_notAdded] at hcount
      cases isCore with
      | false => exact .same hcount
      | true =>
          exact .decrement hcount (Or.inr ⟨_, List.mem_of_getElem? hi, Or.inl ⟨task, rfl⟩⟩)

theorem step_core {action : Action α} (hs : Rostered s) (h : s.step action = some t) :
    CoreChange s t := by
  cases action with
  | execute task =>
      obtain rfl := Option.some.inj h
      refine .same (coreCount_eq hs (.of_eq rfl) rfl ?_)
      rw [List.countP_append]
      rfl
  | shutdown =>
      obtain rfl := Option.some.inj h
      exact .same rfl
  | worker w =>
      obtain ⟨worker, hw, hstep⟩ := Option.bind_eq_some_iff.mp h
      exact workerStep_core hs hw (workerStep_of_stepWorker hstep)
  | call i created =>
      obtain ⟨call, hi, hstep⟩ := Option.bind_eq_some_iff.mp h
      exact callStep_core hs hi (callStep_of_stepCall hstep)
  | stop i =>
      obtain ⟨stop, -, hstep⟩ := Option.bind_eq_some_iff.mp h
      cases stopStep_of_stepStop hstep <;> exact .same rfl
  | queue | wakeUp | expire =>
      obtain ⟨q, -, rfl⟩ := Option.map_eq_some_iff.mp h
      exact .same rfl

/-! ## The roster -/

theorem rostered_preserved (ok : ThreadPool α → Action α → Prop) : Preserved ok Rostered where
  execute s task hs _ := ⟨hs.threadPool, forall_mem_append hs.calls nofun⟩
  shutdown s hs _ := ⟨hs.threadPool, hs.calls⟩
  worker s w worker t hs _ hw h := by
    have hgrows := grows_workerStep hw h
    have hcalls : t.calls = s.calls := by cases h <;> rfl
    have hsub : t.threadPool ⊆ s.threadPool := by
      cases h with
      | erase hphase hmutex hmem => exact List.erase_subset
      | start | skip | finish | enter | quit | leave | vanish | decrement =>
          exact List.Subset.refl _
    constructor
    · intro v hv
      exact Nat.lt_of_lt_of_le (hs.threadPool v (hsub hv)) hgrows.length
    · rw [hcalls]
      exact fun call hcall => (hs.calls call hcall).of_grows hgrows
  call s i created call t hs _ hi h := by
    have hgrows := grows_callStep h
    have hold : ∀ call ∈ s.calls, Hired t call := fun call hcall =>
      (hs.calls call hcall).of_grows hgrows
    have hpool : ∀ w ∈ s.threadPool, w < t.workers.length := fun w hw =>
      Nat.lt_of_lt_of_le (hs.threadPool w hw) hgrows.length
    cases h with
    | refuse | addCore | push | addOther | compare | increment | retry | lockRunning | lockStopped
    | throwOut | finish => exact ⟨hpool, forall_mem_set hold nofun⟩
    | fail task isCore hfail => exact ⟨hpool, forall_mem_set hold (hired_notAdded _ task isCore)⟩
    | retreat task isCore => exact ⟨hpool, forall_mem_set hold (hired_notAdded _ task isCore)⟩
    | leave task r result hposition =>
        cases result with
        | true | false => exact ⟨hpool, forall_mem_set hold nofun⟩
    | construct task isCore hcreated =>
        refine ⟨hpool, forall_mem_set hold ?_⟩
        rintro _ _ _ ⟨⟩
        change (s.workers ++ [_])[s.workers.length]?.map Worker.isCoreThread = some isCore
        rw [List.getElem?_concat_length]
        rfl
    | emplace task isCore w =>
        refine ⟨forall_mem_append hpool ?_, forall_mem_set hold nofun⟩
        have hkind := hs.calls _ (List.mem_of_getElem? hi) task isCore w rfl
        change w < s.workers.length
        by_contra hlength
        rw [List.getElem?_eq_none (Nat.le_of_not_lt hlength)] at hkind
        cases hkind
  stop s i stop t hs _ _ h := by
    cases h <;> exact ⟨hs.threadPool, hs.calls⟩
  queue s thread woken q hs _ _ := ⟨hs.threadPool, hs.calls⟩
  wakeUp s thread q hs _ := ⟨hs.threadPool, hs.calls⟩
  expire s thread q hs _ := ⟨hs.threadPool, hs.calls⟩

theorem Created.rostered (hs : Created s) : Rostered s := by
  constructor
  · rw [hs.threadPool]
    exact nofun
  · rw [hs.calls]
    exact nofun

/-! ## Workers and their wrappers -/

/-- The wrapper of the worker is in `threadPool_`, or about to be added, or has just been erased. -/
def Listed (s : ThreadPool α) (w : ℕ) : Prop :=
  w ∈ s.threadPool ∨ (∃ call ∈ s.calls, ∃ task isCore, call = .emplacing task isCore w) ∨
    s.workers[w]?.map Worker.phase = some .erased

def Employed (s : ThreadPool α) : Prop :=
  ∀ (w : ℕ) (worker : Worker), s.workers[w]? = some worker → worker.phase ≠ .exited → Listed s w

theorem Listed.of_calls {w : ℕ} (h : Listed s w) (hpool : t.threadPool = s.threadPool)
    (hworkers : t.workers[w]? = s.workers[w]?)
    (hcalls : ∀ task isCore, .emplacing task isCore w ∈ s.calls →
      .emplacing task isCore w ∈ t.calls) : Listed t w := by
  rw [Listed, hpool, hworkers]
  refine h.imp id (Or.imp ?_ id)
  rintro ⟨call, hcall, task, isCore, rfl⟩
  exact ⟨_, hcalls task isCore hcall, task, isCore, rfl⟩

theorem Employed.workerStep (hs : Employed s) {w : ℕ} {worker : Worker}
    (hw : s.workers[w]? = some worker) (h : WorkerStep w worker s t) : Employed t := by
  have hcalls : t.calls = s.calls := by cases h <;> rfl
  obtain ⟨worker', hworkers, hself⟩ : ∃ worker', t.workers = s.workers.set w worker' ∧
      (worker'.phase = .exited ∨ worker'.phase = .erased ∨
        worker.phase ≠ .exited ∧ worker.phase ≠ .erased ∧ t.threadPool = s.threadPool) := by
    cases h with
    | start sub hphase | skip hphase | finish hphase | enter hphase | quit hphase
    | leave r result hphase =>
        refine ⟨_, rfl, Or.inr (Or.inr ⟨?_, ?_, rfl⟩)⟩
        · rw [hphase]
          exact nofun
        · rw [hphase]
          exact nofun
    | erase => exact ⟨_, rfl, Or.inr (Or.inl rfl)⟩
    | vanish | decrement => exact ⟨_, rfl, Or.inl rfl⟩
  have hpool : ∀ v ≠ w, v ∈ s.threadPool → v ∈ t.threadPool := by
    intro v hne hv
    cases h with
    | erase => exact (List.mem_erase_of_ne hne).mpr hv
    | start | skip | finish | enter | quit | leave | vanish | decrement => exact hv
  have hlength := (List.getElem?_eq_some_iff.mp hw).1
  intro v vorker hv hexited
  rw [hworkers] at hv
  obtain ⟨rfl, rfl⟩ | ⟨hne, hv⟩ := getElem?_set_cases hv
  · obtain hself | hself | ⟨hphase, herased, hpool⟩ := hself
    · exact absurd hself hexited
    · refine Or.inr (Or.inr ?_)
      rw [hworkers, List.getElem?_set_self hlength]
      exact congrArg some hself
    · obtain hlisted | hlisted | hlisted := hs v worker hw hphase
      · exact Or.inl (hpool ▸ hlisted)
      · rw [Listed, hcalls]
        exact Or.inr (Or.inl hlisted)
      · rw [hw] at hlisted
        exact absurd (Option.some.inj hlisted) herased
  · rw [Listed, hcalls, hworkers, List.getElem?_set_ne hne.symm]
    exact (hs v vorker hv hexited).imp (hpool v hne) id

theorem Employed.callStep (hs : Employed s) {i : ℕ} {created : Bool} {call : Call α}
    (hi : s.calls[i]? = some call) (h : CallStep i created s call t) : Employed t := by
  have hlength := (List.getElem?_eq_some_iff.mp hi).1
  -- A call that is not emplacing, and does not come to, leaves every wrapper where it is.
  have hkeep : ∀ {call'}, t.calls = s.calls.set i call' → t.threadPool = s.threadPool →
      t.workers = s.workers → (∀ task isCore w, call ≠ .emplacing task isCore w) →
      Employed t := by
    intro call' hcalls hpool hworkers hemplacing w worker hw hexited
    rw [hworkers] at hw
    refine (hs w worker hw hexited).of_calls hpool (by rw [hworkers]) ?_
    intro task isCore hcall
    obtain ⟨j, hj⟩ := List.mem_iff_getElem?.mp hcall
    have hne : i ≠ j := by
      rintro rfl
      exact hemplacing task isCore w (Option.some.inj (hi.symm.trans hj))
    rw [hcalls]
    exact List.mem_of_getElem? (by rwa [List.getElem?_set_ne hne])
  cases h with
  | refuse | addCore | compare | increment | retry | lockRunning | lockStopped | throwOut | finish
  | fail | retreat | leave => exact hkeep rfl rfl rfl nofun
  | push task call hloads | addOther task call hloads =>
      cases hloads with
      | first | again => exact hkeep rfl rfl rfl nofun
  | construct task isCore hcreated =>
      intro w worker hw hexited
      have hnew : (.emplacing task isCore s.workers.length : Call α) ∈ s.calls.set i
          (.emplacing task isCore s.workers.length) := List.mem_set hlength _
      obtain hw | ⟨rfl, -⟩ := getElem?_append_cases hw
      · refine (hs w worker hw hexited).of_calls rfl ?_ ?_
        · exact List.getElem?_append_left (List.getElem?_eq_some_iff.mp hw).1
        · intro task' isCore' hcall
          obtain ⟨j, hj⟩ := List.mem_iff_getElem?.mp hcall
          have hne : i ≠ j := by
            rintro rfl
            cases Option.some.inj (hi.symm.trans hj)
          exact List.mem_of_getElem? (by rwa [← List.getElem?_set_ne hne] at hj)
      · exact Or.inr (Or.inl ⟨_, hnew, task, isCore, rfl⟩)
  | emplace task isCore v =>
      intro w worker hw hexited
      obtain hlisted | ⟨call', hcall', task', isCore', rfl⟩ | hlisted := hs w worker hw hexited
      · exact Or.inl (List.mem_append_left _ hlisted)
      · obtain ⟨j, hj⟩ := List.mem_iff_getElem?.mp hcall'
        by_cases hne : i = j
        · subst hne
          cases Option.some.inj (hi.symm.trans hj)
          exact Or.inl (List.mem_append_right _ (List.mem_singleton.mpr rfl))
        · refine Or.inr (Or.inl ⟨_, ?_, task', isCore', rfl⟩)
          exact List.mem_of_getElem? (by rwa [← List.getElem?_set_ne hne] at hj)
      · exact Or.inr (Or.inr hlisted)

theorem employed_preserved (ok : ThreadPool α → Action α → Prop) : Preserved ok Employed where
  execute s task hs _ w worker hw hexited :=
    (hs w worker hw hexited).of_calls rfl rfl fun _ _ hcall => List.mem_append_left _ hcall
  shutdown s hs _ := hs
  worker s w worker t hs _ hw h := hs.workerStep hw h
  call s i created call t hs _ hi h := hs.callStep hi h
  stop s i stop t hs _ _ h := by
    cases h <;> exact hs
  queue s thread woken q hs _ _ := hs
  wakeUp s thread q hs _ := hs
  expire s thread q hs _ := hs

theorem employed_of_reachable {ok : ThreadPool α → Action α → Prop}
    (hs : (system α).ReachableUnder ok s) : Employed s := by
  apply (employed_preserved ok).reachable _ hs
  intro _ _ _ s hcreate w worker hw
  rw [(created_of_create hcreate).workers] at hw
  cases hw

end Nets.ThreadPool
