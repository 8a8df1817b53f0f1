import Nets.Verification.ThreadPool.Shutdown

/-! # A thread that could not be created

`addThreadTask` increments the count before it constructs the thread. Two of its exits take the
increment back, but the exception of the constructor leaves past both. -/

namespace Nets.ThreadPool

open Library

variable {α : Type} {s t u : ThreadPool α} {i : ℕ}

def Action.isCall (i : ℕ) : Action α → Bool
  | .call j _ => j = i
  | _ => false

/-- The call's own steps leave `ctl_` and `threadPool_` as they were, whatever other threads do in
between. -/
structure Restores (i : ℕ) (s : ThreadPool α) (actions : List (Action α)) : Prop where
  ctl : (system α).changeBy (Action.isCall i) ctl s actions = 0
  threadPool : (system α).changeBy (Action.isCall i) (fun s => (s.threadPool.length : ℤ)) s actions = 0

/-! ## What a call has changed -/

/-- The change of `ctl_` a call is answerable for; one whose thread was created is answerable for
nothing more. -/
def Call.Owes (change : BitVec 32) : Call α → Prop
  | .creating _ _ | .constructing _ _ | .emplacing _ _ _ | .retreating _ _ | .thrown _ => change = 1
  | .accepted _ | .returned _ _ => True
  | .loading _ | .adding _ _ | .comparing _ _ _ | .reloading _ | .pushing _ => change = 0

theorem owes_notAdded (task : α) (isCore : Bool) : (notAdded task isCore).Owes 0 := by
  cases isCore with
  | true => rfl
  | false => trivial

theorem Call.Owes.of_same {call : Call α} {change : BitVec 32} (h : call.Owes change)
    (hctl : t.ctl = s.ctl) : call.Owes (change + (t.ctl - s.ctl)) := by
  rw [hctl, BitVec.sub_self, BitVec.add_zero]
  exact h

/-- The call moves on, with what its step changes. -/
theorem Call.Owes.callStep {call : Call α} {created : Bool} {change : BitVec 32}
    (howes : call.Owes change) (hi : s.calls[i]? = some call) (h : CallStep i created s call t) :
    ∃ call', t.calls[i]? = some call' ∧ call'.Owes (change + (t.ctl - s.ctl)) := by
  have hlength := (List.getElem?_eq_some_iff.mp hi).1
  cases h with
  | refuse | finish | emplace => exact ⟨_, List.getElem?_set_self hlength, trivial⟩
  | addCore | compare | retry | lockRunning | lockStopped | construct | throwOut =>
      exact ⟨_, List.getElem?_set_self hlength, .of_same howes rfl⟩
  | push task call hloads | addOther task call hloads =>
      cases hloads with
      | first | again => exact ⟨_, List.getElem?_set_self hlength, .of_same howes rfl⟩
  | fail task isCore hfail =>
      obtain rfl : change = 0 := howes
      exact ⟨_, List.getElem?_set_self hlength, .of_same (owes_notAdded task isCore) rfl⟩
  | increment task isCore =>
      obtain rfl : change = 0 := howes
      refine ⟨_, List.getElem?_set_self hlength, ?_⟩
      change 0 + (s.ctl + 1 - s.ctl) = 1
      rw [BitVec.add_comm s.ctl, BitVec.add_sub_cancel]
      rfl
  | retreat task isCore =>
      obtain rfl : change = 1 := howes
      refine ⟨_, List.getElem?_set_self hlength, ?_⟩
      have hback : (1 : BitVec 32) + (s.ctl - 1 - s.ctl) = 0 := by bv_omega
      change (notAdded task isCore).Owes (1 + (s.ctl - 1 - s.ctl))
      rw [hback]
      exact owes_notAdded task isCore
  | leave task r result hposition =>
      refine ⟨_, List.getElem?_set_self hlength, ?_⟩
      cases result with
      | true => trivial
      | false => exact .of_same howes rfl

/-- The steps of the other threads leave the call where it is. -/
theorem calls_of_step {call : Call α} {action : Action α} (hi : s.calls[i]? = some call)
    (haction : action.isCall i = false) (h : s.step action = some t) :
    t.calls[i]? = some call := by
  cases action with
  | execute task =>
      obtain rfl := Option.some.inj h
      change (s.calls ++ [_])[i]? = _
      rwa [List.getElem?_append_left (List.getElem?_eq_some_iff.mp hi).1]
  | worker w =>
      obtain ⟨worker, -, hstep⟩ := Option.bind_eq_some_iff.mp h
      cases workerStep_of_stepWorker hstep <;> exact hi
  | call j created =>
      have hne : j ≠ i := by simpa [Action.isCall] using haction
      obtain ⟨other, -, hstep⟩ := Option.bind_eq_some_iff.mp h
      cases callStep_of_stepCall hstep <;> exact (List.getElem?_set_ne hne).trans hi
  | stop j =>
      obtain ⟨stop, -, hstep⟩ := Option.bind_eq_some_iff.mp h
      cases stopStep_of_stepStop hstep <;> exact hi
  | shutdown =>
      obtain rfl := Option.some.inj h
      exact hi
  | queue | wakeUp | expire =>
      obtain ⟨q, -, rfl⟩ := Option.map_eq_some_iff.mp h
      exact hi

/-- A step is one of the call, or leaves it where it is. -/
theorem callStep_or_same {call : Call α} {action : Action α} (hi : s.calls[i]? = some call)
    (h : s.step action = some t) :
    (action.isCall i = true ∧ ∃ created, CallStep i created s call t) ∨
      action.isCall i = false ∧ t.calls[i]? = some call := by
  cases haction : action.isCall i with
  | false => exact .inr ⟨rfl, calls_of_step hi haction h⟩
  | true =>
      cases action with
      | call j created =>
          obtain rfl : j = i := by simpa [Action.isCall] using haction
          obtain ⟨call', hi', hstep⟩ := Option.bind_eq_some_iff.mp h
          cases hi.symm.trans hi'
          exact .inl ⟨rfl, created, callStep_of_stepCall hstep⟩
      | execute | shutdown | worker | stop | queue | wakeUp | expire => cases haction

theorem Call.Owes.run {call : Call α} {actions : List (Action α)} (hi : s.calls[i]? = some call)
    (howes : call.Owes 0) (h : (system α).run s actions = some t) :
    ∃ call', t.calls[i]? = some call' ∧
      call'.Owes (0 + (system α).changeBy (Action.isCall i) ctl s actions) := by
  refine System.run_changeBy (I := fun s change => ∃ call, s.calls[i]? = some call ∧ call.Owes change)
    ?_ ⟨call, hi, howes⟩ h
  rintro s action t change ⟨call, hi, howes⟩ ht
  obtain ⟨haction, created, hstep⟩ | ⟨haction, hsame⟩ := callStep_or_same hi ht
  · rw [haction, if_pos rfl]
    exact howes.callStep hi hstep
  · refine ⟨call, hsame, ?_⟩
    rw [haction, if_neg Bool.false_ne_true, add_zero]
    exact howes

/-! ## What a later shutdown observes -/

theorem thrown_stays {task : α} {actions : List (Action α)} (hi : s.calls[i]? = some (.thrown task))
    (h : (system α).run s actions = some t) : t.calls[i]? = some (.thrown task) := by
  refine System.run_invariant (I := fun s => s.calls[i]? = some (.thrown task)) ?_ hi h
  intro s action t hi ht
  obtain ⟨-, created, hstep⟩ | ⟨-, hsame⟩ := callStep_or_same hi ht
  · -- the exception has left the call
    cases hstep with
    | push _ _ hloads | addOther _ _ hloads => cases hloads
  · exact hsame

theorem Fits.run {actions : List (Action α)} (h : (system α).run s actions = some t) :
    Fits t ↔ Fits s :=
  System.run_invariant (I := fun u => Fits u ↔ Fits s)
    (fun _ _ _ hfits hstep => (Fits.of_step hstep).trans hfits) Iff.rfl h

theorem count_pos_of_thrown {task : α} (hi : s.calls[i]? = some (.thrown task)) : 0 < s.count := by
  have hpos : 0 < s.calls.countP Call.isCounted :=
    List.countP_pos_iff.mpr ⟨_, List.mem_of_getElem? hi, rfl⟩
  rw [count]
  omega

/-- A call that was about to increment the count, and whose thread could not be created, leaves the
count one too high. Where no other thread takes a step in between, `ctl_` is one more than it was. No
later shutdown observes the count 0. -/
theorem thrown_not_restored (hs : (system α).Reachable s) {task task' : α} {isCore : Bool}
    {ctl : BitVec 32} (hi : s.calls[i]? = some (.comparing task isCore ctl))
    {actions : List (Action α)} (h : (system α).run s actions = some t)
    (hthrown : t.calls[i]? = some (.thrown task')) :
    ¬Restores i s actions ∧
      ((∀ action ∈ actions, action.isCall i = true) → t.ctl = s.ctl + 1) ∧
      (Fits s → ∀ later u, (system α).run t later = some u →
        numOfActiveThreads u.ctl ≠ 0 ∧ ∀ stop ∈ u.stops, stop.hasObserved = false) := by
  have hchange : (system α).changeBy (Action.isCall i) ThreadPool.ctl s actions = 1 := by
    obtain ⟨call, hcall, howes⟩ := Call.Owes.run hi rfl h
    cases hthrown.symm.trans hcall
    rwa [zero_add] at howes
  refine ⟨fun hrestores => ?_, fun hall => ?_, fun hfits later u hlater => ?_⟩
  · have hzero := hrestores.ctl
    rw [hchange] at hzero
    cases hzero
  · have hctl := System.add_changeBy (f := ThreadPool.ctl) hall h
    rw [← hctl, hchange]
  · have hpos := count_pos_of_thrown (thrown_stays hthrown hlater)
    have hfits : Fits u := (Fits.run hlater).mpr ((Fits.run h).mpr hfits)
    obtain ⟨hcounted, hstopping⟩ := stopping_of_reachable ((hs.run _ h).run _ hlater) hfits
    refine ⟨?_, fun stop hstop => ?_⟩
    · rw [hcounted.numOfActiveThreads hfits]
      omega
    · cases hobserved : stop.hasObserved with
      | false => rfl
      | true =>
          have hzero := hstopping.observed stop hstop hobserved
          omega

/-- The steps of a call up to the failure of the constructor. -/
def failing : List (Action ℕ) := [.call 0 true, .call 0 true, .call 0 false]

theorem exists_failing : ∃ s : ThreadPool ℕ, (system ℕ).Reachable s ∧
    s.maximumPoolSize ≤ kCountMask.toNat ∧ s.calls[0]? = some (.comparing 7 true s.ctl) ∧
      ((system ℕ).run s failing).any (fun t => t.calls[0]? = some (.thrown 7) ∧ t.ctl ≠ s.ctl ∧
        t.threadPool = s.threadPool) = true := by
  apply exists_reachableUnder 1 1 1 [.execute 7, .call 0 true, .call 0 true]
  decide +kernel

/-- The first call of a pool. -/
theorem thrown_not_restored_first : ∃ s t : ThreadPool ℕ,
    (system ℕ).run s failing = some t ∧ t.ctl = s.ctl + 1 ∧ numOfActiveThreads t.ctl ≠ 0 := by
  obtain ⟨s, hs, hfits, hi, hrun⟩ := exists_failing
  obtain ⟨t, ht, hthrown⟩ := (Option.any_eq_true ..).mp hrun
  obtain ⟨hthrown, -, -⟩ := of_decide_eq_true hthrown
  obtain ⟨-, hctl, hlater⟩ := thrown_not_restored hs hi ht hthrown
  exact ⟨s, t, ht, hctl (by decide), (hlater hfits [] t rfl).1⟩

/-- With no worker, and no other call, `ctl_` is not what it was. -/
theorem exists_not_restored : ∃ s t : ThreadPool ℕ, (system ℕ).Reachable s ∧
    s.calls[0]? = some (.comparing 7 true s.ctl) ∧ (system ℕ).run s failing = some t ∧
      t.calls[0]? = some (.thrown 7) ∧ t.threadPool = s.threadPool ∧ t.ctl ≠ s.ctl := by
  obtain ⟨s, hs, -, hi, hrun⟩ := exists_failing
  obtain ⟨t, ht, hthrown⟩ := (Option.any_eq_true ..).mp hrun
  obtain ⟨hthrown, hctl, hpool⟩ := of_decide_eq_true hthrown
  exact ⟨s, t, hs, hi, ht, hthrown, hpool, hctl⟩

end Nets.ThreadPool
