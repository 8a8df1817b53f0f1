import Nets.Library.Registers
import Nets.Verification.ThreadPool.Ctl
import Nets.Verification.ThreadPool.Equations

/-! # The count of the threads

The low bits of `ctl_` count the wrappers in `threadPool_`, the calls of `addThreadTask` between
their increment and their `emplace_back` or decrement, and the workers between the removal of their
wrapper and their decrement. A call whose thread could not be created stays in the count. -/

namespace Nets.ThreadPool

open Library

variable {α : Type} {s t : ThreadPool α}

/-- The call has incremented the count and not yet added its wrapper or decremented. -/
def Call.isAdding : Call α → Bool
  | .creating _ _ | .constructing _ _ | .emplacing _ _ _ | .retreating _ _ => true
  | _ => false

def Call.isThrown : Call α → Bool
  | .thrown _ => true
  | _ => false

def Call.isCounted (call : Call α) : Bool := call.isAdding || call.isThrown

def Worker.isErased (worker : Worker) : Bool := worker.phase = .erased

def count (s : ThreadPool α) : ℕ :=
  s.threadPool.length + s.calls.countP Call.isCounted + s.workers.countP Worker.isErased

/-- A call that is about to increment compares with a value that allows another thread. -/
def Compared (s : ThreadPool α) (call : Call α) : Prop :=
  ∀ task isCore ctl, call = .comparing task isCore ctl →
    isShutdown ctl = false ∧ numOfActiveThreads ctl < s.limit isCore

structure Counted (s : ThreadPool α) : Prop where
  ctl : ∃ running, s.ctl = encode running s.count
  bound : s.count ≤ s.maximumPoolSize
  sizes : s.corePoolSize ≤ s.maximumPoolSize
  compared : ∀ call ∈ s.calls, Compared s call

/-- The pool does not allow more threads than the count can hold. -/
def Fits (s : ThreadPool α) : Prop := s.maximumPoolSize ≤ kCountMask.toNat

theorem Fits.lt (h : Fits s) {n : ℕ} (hn : n ≤ s.maximumPoolSize) : n < 2 ^ kCountBits := by
  have hmask := toNat_kCountMask
  have hpos := Nat.two_pow_pos kCountBits
  rw [Fits, hmask] at h
  omega

theorem Counted.numOfActiveThreads (hs : Counted s) (hfits : Fits s) :
    numOfActiveThreads s.ctl = s.count := by
  obtain ⟨running, hctl⟩ := hs.ctl
  rw [hctl]
  exact numOfActiveThreads_encode (hfits.lt hs.bound)

theorem Counted.isRunning (hs : Counted s) (hfits : Fits s) :
    isRunning s.ctl = !isShutdown s.ctl := by
  obtain ⟨running, hctl⟩ := hs.ctl
  have hlt := hfits.lt hs.bound
  rw [hctl, isRunning_encode hlt, isShutdown_encode hlt, Bool.not_not]

/-! ## What a step does to the count -/

theorem limit_le (hsizes : s.corePoolSize ≤ s.maximumPoolSize) (isCore : Bool) :
    s.limit isCore ≤ s.maximumPoolSize := by
  cases isCore with
  | true => exact hsizes
  | false => exact Nat.le_refl _

theorem compared_notAdded (s : ThreadPool α) (task : α) (isCore : Bool) :
    Compared s (notAdded task isCore) := by
  cases isCore with
  | true => exact nofun
  | false => exact nofun

theorem isCounted_notAdded (task : α) (isCore : Bool) :
    (notAdded task isCore).isCounted = false := by
  cases isCore with
  | true => rfl
  | false => rfl

/-- What a step does to `ctl_` and to what it counts. -/
inductive CountChange (s t : ThreadPool α) : Prop where
  | same (hctl : t.ctl = s.ctl) (hcount : t.count = s.count)
  | increment (task : α) (isCore : Bool) (hcomparing : .comparing task isCore s.ctl ∈ s.calls)
      (hctl : t.ctl = s.ctl + 1) (hcount : t.count = s.count + 1)
  | decrement (hctl : t.ctl = s.ctl - 1) (hcount : t.count + 1 = s.count)
  | switch (hctl : t.ctl = kShutdown ||| (s.ctl &&& kCountMask)) (hcount : t.count = s.count)

theorem count_setWorker {w : ℕ} {worker : Worker} (hw : s.workers[w]? = some worker)
    (worker' : Worker) :
    (s.setWorker w worker').count + (if worker.isErased then 1 else 0) =
      s.count + if worker'.isErased then 1 else 0 := by
  have hset := countP_set (b := worker') Worker.isErased hw
  change s.threadPool.length + s.calls.countP Call.isCounted +
    (s.workers.set w worker').countP Worker.isErased + _ = _
  rw [count]
  omega

theorem count_setCall {i : ℕ} {call : Call α} (hi : s.calls[i]? = some call) (call' : Call α) :
    (s.setCall i call').count + (if call.isCounted then 1 else 0) =
      s.count + if call'.isCounted then 1 else 0 := by
  have hset := countP_set (b := call') Call.isCounted hi
  change s.threadPool.length + (s.calls.set i call').countP Call.isCounted +
    s.workers.countP Worker.isErased + _ = _
  rw [count]
  omega

theorem count_setWorker_same {w : ℕ} {worker worker' : Worker} (hw : s.workers[w]? = some worker)
    (herased : worker'.isErased = worker.isErased) : (s.setWorker w worker').count = s.count := by
  have hcount := count_setWorker hw worker'
  rw [herased] at hcount
  omega

theorem count_setCall_same {i : ℕ} {call call' : Call α} (hi : s.calls[i]? = some call)
    (hcounted : call'.isCounted = call.isCounted) : (s.setCall i call').count = s.count := by
  have hcount := count_setCall hi call'
  rw [hcounted] at hcount
  omega

theorem workerStep_count {w : ℕ} {worker : Worker} (hw : s.workers[w]? = some worker)
    (h : WorkerStep w worker s t) : CountChange s t := by
  cases h with
  | start sub hphase houtput | skip hphase houtput | finish hphase | enter hphase hrunning
  | quit hphase hrunning | vanish hphase hmutex hw' =>
      exact .same rfl (count_setWorker_same hw (by simp [Worker.isErased, hphase]))
  | leave r result hphase hposition =>
      refine .same rfl (count_setWorker_same hw ?_)
      cases worker.isCoreThread || result with
      | true | false => simp [Worker.isErased, hphase]
  | erase hphase hmutex hw' =>
      have hcount := count_setWorker hw { worker with phase := .erased }
      have hlength := List.length_erase_add_one hw'
      simp only [Worker.isErased, hphase, decide_true, reduceCtorEq, decide_false, if_true,
        Bool.false_eq_true, if_false] at hcount
      refine .same rfl ?_
      change (s.threadPool.erase w).length + s.calls.countP Call.isCounted +
        (s.workers.set w _).countP Worker.isErased = _
      change s.threadPool.length + s.calls.countP Call.isCounted +
        (s.workers.set w _).countP Worker.isErased + 0 = _ at hcount
      omega
  | decrement hphase =>
      have hcount := count_setWorker hw { worker with phase := .exited }
      simp only [Worker.isErased, hphase, decide_true, reduceCtorEq, decide_false, if_true,
        Bool.false_eq_true, if_false] at hcount
      exact .decrement rfl hcount

theorem callStep_count {i : ℕ} {created : Bool} {call : Call α} (hi : s.calls[i]? = some call)
    (h : CallStep i created s call t) : CountChange s t := by
  cases h with
  | refuse | addCore | compare | retry | lockRunning | lockStopped | throwOut | finish =>
      exact .same rfl (count_setCall_same hi rfl)
  | push task call hloads hrunning | addOther task call hloads hrunning =>
      cases hloads with
      | first | again => exact .same rfl (count_setCall_same hi rfl)
  | fail task isCore hfail =>
      exact .same rfl (count_setCall_same hi (isCounted_notAdded task isCore))
  | increment task isCore =>
      exact .increment task isCore (List.mem_of_getElem? hi) rfl
        (count_setCall hi (.creating task isCore))
  | construct task isCore hcreated =>
      refine .same rfl ?_
      have hcount : (s.setCall i (.emplacing task isCore s.workers.length)).count = s.count :=
        count_setCall_same hi rfl
      change s.threadPool.length + (s.calls.set i _).countP Call.isCounted +
        (s.workers ++ [_]).countP Worker.isErased = _
      rw [List.countP_append]
      exact hcount
  | emplace task isCore w =>
      refine .same rfl ?_
      have hcount := count_setCall hi (.accepted task)
      change s.threadPool.length + (s.calls.set i _).countP Call.isCounted +
        s.workers.countP Worker.isErased + 1 = s.count at hcount
      change (s.threadPool ++ [w]).length + (s.calls.set i _).countP Call.isCounted +
        s.workers.countP Worker.isErased = _
      rw [List.length_append, List.length_singleton]
      omega
  | retreat task isCore =>
      have hcount := count_setCall hi (notAdded task isCore)
      rw [isCounted_notAdded] at hcount
      exact .decrement rfl hcount
  | leave task r result hposition =>
      cases result with
      | true | false => exact .same rfl (count_setCall_same hi rfl)

theorem stopStep_count {i : ℕ} {stop : Stop} (h : StopStep i s stop t) : CountChange s t := by
  cases h with
  | switch => exact .switch rfl rfl
  | refuse | check | load | retry | notifyFull | notifyEmpty | awake | drained | pop | leave =>
      exact .same rfl rfl

/-! ## The invariant -/

theorem Compared.of_sizes {call : Call α} (h : Compared s call)
    (hcore : t.corePoolSize = s.corePoolSize) (hmax : t.maximumPoolSize = s.maximumPoolSize) :
    Compared t call := by
  intro task isCore ctl hcall
  have hlimit : t.limit isCore = s.limit isCore := by rw [limit, limit, hcore, hmax]
  rw [hlimit]
  exact h task isCore ctl hcall

theorem callStep_compared {i : ℕ} {created : Bool} {call : Call α}
    (hs : ∀ call ∈ s.calls, Compared s call) (h : CallStep i created s call t) :
    ∀ call ∈ t.calls, Compared t call := by
  cases h with
  | refuse | addCore | push | addOther | increment | retry | lockRunning | lockStopped | construct
  | throwOut | emplace | finish => exact forall_mem_set hs nofun
  | fail task isCore hfail => exact forall_mem_set hs (compared_notAdded s task isCore)
  | compare task isCore hshutdown hlimit =>
      apply forall_mem_set hs
      rintro _ _ _ ⟨⟩
      exact ⟨hshutdown, hlimit⟩
  | retreat task isCore => exact forall_mem_set hs (compared_notAdded s task isCore)
  | leave task r result hposition =>
      apply forall_mem_set hs
      cases result with
      | true | false => exact nofun

/-- An increment compares with the value `ctl_` has, so that there is room for another thread. -/
theorem Counted.increment_allowed (hs : Counted s) (hfits : Fits s) {task : α} {isCore : Bool}
    (hcomparing : .comparing task isCore s.ctl ∈ s.calls) :
    isShutdown s.ctl = false ∧ s.count < s.limit isCore := by
  obtain ⟨hshutdown, hlimit⟩ := hs.compared _ hcomparing task isCore s.ctl rfl
  rw [hs.numOfActiveThreads hfits] at hlimit
  exact ⟨hshutdown, hlimit⟩

theorem Counted.change (hs : Counted s) (hfits : Fits s) (h : CountChange s t)
    (hcore : t.corePoolSize = s.corePoolSize) (hmax : t.maximumPoolSize = s.maximumPoolSize)
    (hcompared : ∀ call ∈ t.calls, Compared t call) : Counted t := by
  obtain ⟨running, hencode⟩ := hs.ctl
  have hbound := hs.bound
  refine ⟨?_, ?_, by rw [hcore, hmax]; exact hs.sizes, hcompared⟩
  · cases h with
    | same hctl hcount => exact ⟨running, by rw [hctl, hcount, hencode]⟩
    | increment task isCore hcomparing hctl hcount =>
        exact ⟨running, by rw [hctl, hcount, hencode, encode_add_one]⟩
    | decrement hctl hcount =>
        exact ⟨running, by rw [hctl, hencode, ← hcount, encode_sub_one]⟩
    | switch hctl hcount =>
        exact ⟨false, by rw [hctl, hcount, hencode, kShutdown_or_encode (hfits.lt hbound)]⟩
  · cases h with
    | same hctl hcount | decrement hctl hcount | switch hctl hcount => omega
    | increment task isCore hcomparing hctl hcount =>
        have hallowed := (hs.increment_allowed hfits hcomparing).2
        have hlimit := limit_le hs.sizes isCore
        omega

theorem Counted.isShutdown_switch (hs : Counted s) (hfits : Fits s) :
    isShutdown (kShutdown ||| (s.ctl &&& kCountMask)) = true := by
  obtain ⟨running, hencode⟩ := hs.ctl
  have hlt := hfits.lt hs.bound
  rw [hencode, kShutdown_or_encode hlt, isShutdown_encode hlt]
  rfl

/-- The state goes from running to shut down only. -/
theorem Counted.isShutdown_change (hs : Counted s) (hfits : Fits s) (h : CountChange s t)
    (hshutdown : isShutdown s.ctl = true) : isShutdown t.ctl = true := by
  obtain ⟨running, hencode⟩ := hs.ctl
  have hlt := hfits.lt hs.bound
  cases h with
  | same hctl hcount => rwa [hctl]
  | increment task isCore hcomparing hctl hcount =>
      rw [(hs.increment_allowed hfits hcomparing).1] at hshutdown
      cases hshutdown
  | decrement hctl hcount =>
      rw [hencode, isShutdown_encode hlt] at hshutdown
      have hlt' : t.count < 2 ^ kCountBits := by omega
      rw [hctl, hencode, ← hcount, encode_sub_one, isShutdown_encode hlt', hshutdown]
  | switch hctl hcount =>
      rw [hctl]
      exact hs.isShutdown_switch hfits

theorem Counted.count_change (hs : Counted s) (hfits : Fits s) (h : CountChange s t)
    (hshutdown : isShutdown s.ctl = true) : t.count ≤ s.count := by
  cases h with
  | same hctl hcount | decrement hctl hcount | switch hctl hcount => omega
  | increment task isCore hcomparing hctl hcount =>
      rw [(hs.increment_allowed hfits hcomparing).1] at hshutdown
      cases hshutdown

/-- What every step does to the count, with the sizes it leaves. -/
theorem step_count {action : Action α} (h : s.step action = some t) :
    CountChange s t ∧ t.corePoolSize = s.corePoolSize ∧ t.maximumPoolSize = s.maximumPoolSize := by
  cases action with
  | execute task =>
      obtain rfl := Option.some.inj h
      refine ⟨.same rfl ?_, rfl, rfl⟩
      change s.threadPool.length + (s.calls ++ [_]).countP Call.isCounted + _ = _
      rw [List.countP_append]
      rfl
  | shutdown =>
      obtain rfl := Option.some.inj h
      exact ⟨.same rfl rfl, rfl, rfl⟩
  | worker w =>
      obtain ⟨worker, hw, hstep⟩ := Option.bind_eq_some_iff.mp h
      have hstep := workerStep_of_stepWorker hstep
      exact ⟨workerStep_count hw hstep, by cases hstep <;> rfl, by cases hstep <;> rfl⟩
  | call i created =>
      obtain ⟨call, hi, hstep⟩ := Option.bind_eq_some_iff.mp h
      have hstep := callStep_of_stepCall hstep
      exact ⟨callStep_count hi hstep, by cases hstep <;> rfl, by cases hstep <;> rfl⟩
  | stop i =>
      obtain ⟨stop, -, hstep⟩ := Option.bind_eq_some_iff.mp h
      have hstep := stopStep_of_stepStop hstep
      exact ⟨stopStep_count hstep, by cases hstep <;> rfl, by cases hstep <;> rfl⟩
  | queue | wakeUp | expire =>
      obtain ⟨q, -, rfl⟩ := Option.map_eq_some_iff.mp h
      exact ⟨.same rfl rfl, rfl, rfl⟩

theorem step_compared {action : Action α} (hs : ∀ call ∈ s.calls, Compared s call)
    (h : s.step action = some t) : ∀ call ∈ t.calls, Compared t call := by
  obtain ⟨-, hcore, hmax⟩ := step_count h
  cases action with
  | execute task =>
      obtain rfl := Option.some.inj h
      exact forall_mem_append hs nofun
  | shutdown =>
      obtain rfl := Option.some.inj h
      exact hs
  | worker w =>
      obtain ⟨worker, hw, hstep⟩ := Option.bind_eq_some_iff.mp h
      have hcalls : t.calls = s.calls := by cases workerStep_of_stepWorker hstep <;> rfl
      rw [hcalls]
      exact fun call hcall => (hs call hcall).of_sizes hcore hmax
  | call i created =>
      obtain ⟨call, hi, hstep⟩ := Option.bind_eq_some_iff.mp h
      exact callStep_compared hs (callStep_of_stepCall hstep)
  | stop i =>
      obtain ⟨stop, -, hstep⟩ := Option.bind_eq_some_iff.mp h
      have hcalls : t.calls = s.calls := by cases stopStep_of_stepStop hstep <;> rfl
      rw [hcalls]
      exact fun call hcall => (hs call hcall).of_sizes hcore hmax
  | queue | wakeUp | expire =>
      obtain ⟨q, -, rfl⟩ := Option.map_eq_some_iff.mp h
      exact hs

theorem Fits.of_step {action : Action α} (h : s.step action = some t) : Fits t ↔ Fits s := by
  rw [Fits, Fits, (step_count h).2.2]

theorem Counted.step (hs : Counted s) (hfits : Fits s) {action : Action α}
    (h : s.step action = some t) : Counted t := by
  obtain ⟨hchange, hcore, hmax⟩ := step_count h
  exact hs.change hfits hchange hcore hmax (step_compared hs.compared h)

theorem Created.counted (hs : Created s) : Counted s := by
  have hcount : s.count = 0 := by
    rw [count, hs.threadPool, hs.calls, hs.workers]
    rfl
  constructor
  · exact ⟨true, by rw [hs.ctl, hcount, kRunning_eq_encode]⟩
  · rw [hcount]
    exact Nat.zero_le _
  · exact hs.maximumPoolSize
  · rw [hs.calls]
    exact nofun

/-- Invariants of a pool that fits build on the count. -/
theorem counted_induction {ok : ThreadPool α → Action α → Prop} {I : ThreadPool α → Prop}
    (hcreated : ∀ s, Created s → I s)
    (hstep : ∀ s action t, Fits s → Counted s → I s → ok s action → s.step action = some t → I t)
    (hs : (system α).ReachableUnder ok s) (hfits : Fits s) : Counted s ∧ I s := by
  have hinvariant : Fits s → Counted s ∧ I s := by
    apply hs.invariant
    · rintro s ⟨corePoolSize, maximumPoolSize, maxQueueSize, hs⟩ _
      have hs := created_of_create hs
      exact ⟨hs.counted, hcreated s hs⟩
    · intro s action t hs hok ht hfits
      have hfits := (Fits.of_step ht).mp hfits
      obtain ⟨hcounted, hs⟩ := hs hfits
      exact ⟨hcounted.step hfits ht, hstep s action t hfits hcounted hs hok ht⟩
  exact hinvariant hfits

/-- Invariants of a pool that fits may use what is known of every reachable state. -/
theorem fitting_induction {ok : ThreadPool α → Action α → Prop} {I : ThreadPool α → Prop}
    (hcreated : ∀ s, Created s → I s)
    (hstep : ∀ s action t, (system α).ReachableUnder ok s → Fits s → I s → ok s action →
      s.step action = some t → I t)
    (hs : (system α).ReachableUnder ok s) (hfits : Fits s) : I s := by
  induction hs with
  | initial hs =>
      obtain ⟨corePoolSize, maximumPoolSize, maxQueueSize, hs⟩ := hs
      exact hcreated _ (created_of_create hs)
  | step hs hok ht ih =>
      have hfits := (Fits.of_step ht).mp hfits
      exact hstep _ _ _ hs hfits (ih hfits) hok ht

end Nets.ThreadPool
