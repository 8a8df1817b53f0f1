import Nets.Verification.ThreadPool.Positions
import Nets.Verification.ThreadPool.Shutdown

/-! # Who hears of a shutdown

`notifyBlockingThread` takes no lock, so that it can come between a worker's test of the predicate
and its sleep. A core thread in that place sleeps through the shutdown. -/

namespace Nets

def Position.isGoingToSleep {α : Type} : Position α → Bool
  | .goingToSleep _ => true
  | _ => false

def Position.isAsleep {α : Type} : Position α → Bool
  | .asleep _ => true
  | _ => false

namespace BoundedBlockingQueue

variable {τ α : Type} [DecidableEq τ] {q q' : BoundedBlockingQueue τ α} {thread other : τ} {p : Bool}

/-- The thread is asleep in a `take` and has no notification. -/
def Waits (q : BoundedBlockingQueue τ α) (thread : τ) : Prop :=
  (q.positions thread).isAsleep = true ∧ thread ∈ q.notEmptyCV

/-- The thread waits, or will wait without another look at the predicate. -/
def Drowsy (q : BoundedBlockingQueue τ α) (thread : τ) : Prop :=
  (q.positions thread).isGoingToSleep = true ∨ q.Waits thread

omit [DecidableEq τ] in
theorem Drowsy.of_positions (h : q'.Drowsy other) (hposition : q'.positions other = q.positions other)
    (hcv : other ∈ q'.notEmptyCV → other ∈ q.notEmptyCV) : q.Drowsy other := by
  rw [Drowsy, Waits, hposition] at h
  exact h.imp id fun hwaits => ⟨hwaits.1, hcv hwaits.2⟩

omit [DecidableEq τ] in
/-- A thread in any other place is not drowsy. -/
theorem not_drowsy {position : Position α} (hposition : q.positions thread = position)
    (hgoing : position.isGoingToSleep = false) (hasleep : position.isAsleep = false) :
    ¬ q.Drowsy thread := by
  rw [Drowsy, Waits, hposition, hgoing, hasleep]
  simp

theorem transfer_notEmptyCV (r : Request α) (thread : τ) (q : BoundedBlockingQueue τ α) :
    (q.transfer r thread).notEmptyCV = q.notEmptyCV := by
  rw [transfer]
  split
  · rfl
  · rfl
  · rfl

/-- Only the thread that goes to sleep joins a condition variable. -/
theorem Step.notEmptyCV_of_ne (h : Step thread p q q') (hne : other ≠ thread)
    (hother : other ∈ q'.notEmptyCV) : other ∈ q.notEmptyCV := by
  cases h with
  | lock | tryLock | contended | pass | fail | relock | relockLast | passLast | failLast
  | giveUp => exact hother
  | transfer r hposition =>
      rw [transfer_notEmptyCV] at hother
      exact hother
  | notify r hposition notFullCV notEmptyCV hfull hempty => exact hempty other hother
  | sleep r hposition =>
      change other ∈ (q.joinCV r thread).notEmptyCV at hother
      rw [joinCV] at hother
      split at hother
      · exact hother
      · exact (List.mem_append.mp hother).resolve_right fun h => hne (List.mem_singleton.mp h)

/-- A thread becomes drowsy by a false test of what it waits for. -/
theorem Step.drowsy (h : Step thread p q q') (hother : q'.Drowsy other) :
    q.Drowsy other ∨
      other = thread ∧ ∃ r, q.positions thread = .testing r ∧ q.isReady r p = false := by
  by_cases hne : other = thread
  · subst hne
    cases h with
    | fail r hposition hready => exact Or.inr ⟨rfl, r, hposition, hready⟩
    | sleep r hposition =>
        left
        left
        rw [hposition]
        rfl
    | lock | tryLock | contended | pass | relock | relockLast | passLast | failLast | giveUp
    | notify => exact absurd hother (not_drowsy (setPosition_self ..) rfl rfl)
    | transfer r hposition =>
        obtain hpositions | hpositions := transfer_positions r other q
        · have hnotifying : (q.transfer r other).positions other = .notifying r := by
            rw [hpositions, Function.update_self]
          exact absurd hother (not_drowsy hnotifying rfl rfl)
        · have hempty : (q.transfer r other).positions other = .frontOfEmpty := by
            rw [hpositions, Function.update_self]
          exact absurd hother (not_drowsy hempty rfl rfl)
  · left
    obtain ⟨position, hpositions, -⟩ := h.moves
    refine hother.of_positions ?_ (h.notEmptyCV_of_ne hne)
    rw [hpositions, Function.update_of_ne hne]

/-- A thread that enters or leaves a call is awake. -/
theorem drowsy_of_setPosition {position : Position α} (hgoing : position.isGoingToSleep = false)
    (hasleep : position.isAsleep = false) (h : (q.setPosition thread position).Drowsy other) :
    q.Drowsy other := by
  by_cases hne : other = thread
  · subst hne
    exact absurd h (not_drowsy (setPosition_self ..) hgoing hasleep)
  · exact h.of_positions (setPosition_of_ne hne ..) id

theorem drowsy_of_wakeUp (h : q.wakeUp thread = some q') (hother : q'.Drowsy other) :
    q.Drowsy other := by
  have hcv : ∀ other ∈ q'.notEmptyCV, other ∈ q.notEmptyCV := by
    rw [wakeUp] at h
    split at h
    · obtain rfl := Option.some.inj h
      exact fun other hother => (List.mem_filter.mp hother).1
    · cases h
  exact hother.of_positions (congrFun (wakeUp_same h).2.1 other) (hcv other)

theorem drowsy_of_expire (h : q.expire thread = some q') (hother : q'.Drowsy other) :
    q.Drowsy other := by
  rw [expire] at h
  split at h
  case h_1 r hposition =>
      split at h
      · obtain rfl := Option.some.inj h
        have hleft := drowsy_of_setPosition rfl rfl hother
        exact hleft.of_positions rfl fun hcv => (List.mem_filter.mp hcv).1
      · cases h
      · cases h
  · cases h

end BoundedBlockingQueue

namespace ThreadPool

open Library BoundedBlockingQueue

variable {α : Type} {s t : ThreadPool α}

/-- The pool is shut down, every blocked thread has been notified, and a core thread still waits. -/
def Missed (s : ThreadPool α) : Prop :=
  isShutdown s.ctl = true ∧ (∃ stop ∈ s.stops, stop.hasNotified = true) ∧
    ∃ w, s.isCoreThread w = true ∧ s.taskQueue.Waits (.worker w)

/-- The waiting takers are notified when no core thread is between its test and its sleep. -/
def NotifiesBetweenTests (s : ThreadPool α) : Action α → Prop
  | .stop i => s.stops[i]? = some .notifyingEmpty → ∀ w < s.workers.length,
    s.isCoreThread w = true → (s.taskQueue.positions (.worker w)).isGoingToSleep = false
  | _ => True

instance (s : ThreadPool α) (action : Action α) : Decidable (NotifiesBetweenTests s action) :=
  match action with
  | .stop i => inferInstanceAs (Decidable (s.stops[i]? = some .notifyingEmpty →
      ∀ w < s.workers.length, s.isCoreThread w = true →
        (s.taskQueue.positions (.worker w)).isGoingToSleep = false))
  | .execute _ | .shutdown | .worker _ | .call _ _ | .queue _ _ | .wakeUp _ | .expire _ =>
      .isTrue trivial

/-- After the notification no core thread waits, or goes to. -/
def Heard (s : ThreadPool α) : Prop :=
  (∃ stop ∈ s.stops, stop.hasNotified = true) →
    ∀ w, s.isCoreThread w = true → ¬ s.taskQueue.Drowsy (.worker w)

/-! ## Steps that wake nobody -/

theorem drowsy_of_workerStep {w : ℕ} {worker : Worker} {thread : Thread}
    (h : WorkerStep w worker s t) (hthread : t.taskQueue.Drowsy thread) :
    s.taskQueue.Drowsy thread := by
  cases h with
  | start | skip | quit | erase | vanish | decrement => exact hthread
  | finish => exact hthread.of_positions rfl id
  | enter => exact drowsy_of_setPosition rfl rfl hthread
  | leave => exact drowsy_of_setPosition rfl rfl hthread

theorem drowsy_of_callStep {i : ℕ} {created : Bool} {call : Call α} {thread : Thread}
    (h : CallStep i created s call t) (hthread : t.taskQueue.Drowsy thread) :
    s.taskQueue.Drowsy thread := by
  cases h with
  | refuse | addCore | addOther | fail | compare | increment | retry | lockRunning | lockStopped
  | throwOut | emplace | retreat | finish => exact hthread
  | construct => exact hthread.of_positions rfl id
  | push => exact drowsy_of_setPosition rfl rfl hthread
  | leave => exact drowsy_of_setPosition rfl rfl hthread

theorem drowsy_of_stopStep {i : ℕ} {stop : Stop} {thread : Thread} (h : StopStep i s stop t)
    (hthread : t.taskQueue.Drowsy thread) : s.taskQueue.Drowsy thread := by
  cases h with
  | refuse | check | load | switch | retry | awake | drained => exact hthread
  | notifyFull => exact hthread.of_positions rfl id
  | notifyEmpty => exact hthread.of_positions rfl nofun
  | pop => exact drowsy_of_setPosition rfl rfl hthread
  | leave => exact drowsy_of_setPosition rfl rfl hthread

/-! ## Core threads -/

/-- A worker keeps its kind, and a new worker is not in the queue yet. -/
theorem isCoreThread_of_drowsy (hs : Attended s) (hgrows : Grows s t) {w : ℕ}
    (hdrowsy : s.taskQueue.Drowsy (.worker w)) (hcore : t.isCoreThread w = true) :
    s.isCoreThread w = true := by
  by_cases hw : w < s.workers.length
  · rwa [isCoreThread, ← hgrows.kinds w hw]
  · have houtside := hs (.worker w)
    simp only [inFlight, List.getElem?_eq_none (Nat.le_of_not_lt hw), Option.bind_none] at houtside
    exact absurd hdrowsy (not_drowsy houtside rfl rfl)

theorem isCoreThread_lt {w : ℕ} (hcore : s.isCoreThread w = true) : w < s.workers.length := by
  by_contra hw
  rw [isCoreThread, List.getElem?_eq_none (Nat.le_of_not_lt hw)] at hcore
  cases hcore

/-- A core thread inside the queue is in a `take` without a timeout. -/
theorem eq_takeRequest (hs : Attended s) {w : ℕ} (hcore : s.isCoreThread w = true)
    {r : Request (Submission α)} (hr : (s.taskQueue.positions (.worker w)).request = some r) :
    r = takeRequest true := by
  obtain ⟨worker, hworker, hrequest⟩ := Option.bind_eq_some_iff.mp (hs.inFlight_eq hr)
  rw [isCoreThread, hworker] at hcore
  have hkind : worker.isCoreThread = true := hcore
  rw [Worker.request, hkind] at hrequest
  split at hrequest
  · exact (Option.some.inj hrequest).symm
  · cases hrequest

/-- What a core thread waits for is there once the pool is shut down. -/
theorem isReady_of_isShutdown (hs : Attended s) {w : ℕ} (hcore : s.isCoreThread w = true)
    {r : Request (Submission α)} (hposition : s.taskQueue.positions (.worker w) = .testing r)
    (hshutdown : isShutdown s.ctl = true) : s.taskQueue.isReady r (isShutdown s.ctl) = true := by
  have hr : r = takeRequest true := by
    apply eq_takeRequest hs hcore
    rw [hposition]
    rfl
  rw [isReady, hr, hshutdown]
  exact Bool.or_true _

/-- A step that does not notify, and makes no thread drowsy. -/
theorem Heard.of_drowsy (hs : Heard s) (hattended : Attended s) (hgrows : Grows s t)
    (hnotified : (∃ stop ∈ t.stops, stop.hasNotified = true) →
      ∃ stop ∈ s.stops, stop.hasNotified = true)
    (hdrowsy : ∀ w, t.taskQueue.Drowsy (.worker w) → s.taskQueue.Drowsy (.worker w)) :
    Heard t := by
  intro hstop w hcore hthread
  have hold := hdrowsy w hthread
  exact hs (hnotified hstop) w (isCoreThread_of_drowsy hattended hgrows hold hcore) hold

theorem Heard.stopStep (hs : Heard s) {i : ℕ} {stop : Stop} (hi : s.stops[i]? = some stop)
    (hok : NotifiesBetweenTests s (.stop i)) (h : StopStep i s stop t) : Heard t := by
  intro hnotified w hcore hthread
  have hkind : s.isCoreThread w = true := by
    cases h <;> exact hcore
  have hold := drowsy_of_stopStep h hthread
  by_cases hstop : ∃ stop ∈ s.stops, stop.hasNotified = true
  · exact hs hstop w hkind hold
  -- The first notification: no core thread is going to sleep, and nobody waits after it.
  · obtain ⟨stop', hmem, hstop'⟩ := hnotified
    have hunnotified : stop.hasNotified = false := by
      by_contra hcontra
      exact hstop ⟨stop, List.mem_of_getElem? hi, Bool.not_eq_false _ ▸ hcontra⟩
    cases h with
    | notifyEmpty =>
        obtain hgoing | hwaits := hthread
        · have hawake := hok hi w (isCoreThread_lt hkind) hkind
          cases hgoing.symm.trans hawake
        · exact absurd hwaits.2 nofun
    | awake | drained | pop | leave => cases hunnotified
    | refuse | check | load | switch | retry | notifyFull =>
        obtain hmem | rfl := List.mem_or_eq_of_mem_set hmem
        · exact hstop ⟨stop', hmem, hstop'⟩
        · cases hstop'

theorem Heard.queueStep (hs : Heard s) (hattended : Attended s) (hstopping : Stopping s)
    {thread : Thread} {q : BoundedBlockingQueue Thread (Submission α)}
    (h : Step thread (isShutdown s.ctl) s.taskQueue q) : Heard (s.setTaskQueue q) := by
  intro hnotified w hcore hthread
  obtain ⟨stop, hstop, hstopped⟩ := hnotified
  obtain hold | ⟨rfl, r, hposition, hready⟩ := h.drowsy hthread
  · exact hs ⟨stop, hstop, hstopped⟩ w hcore hold
  · have hshutdown := hstopping.switched stop hstop (Stop.hasSwitched_of_hasNotified hstopped)
    rw [isReady_of_isShutdown hattended hcore hposition hshutdown] at hready
    cases hready

theorem Heard.step (hs : Heard s) (hattended : Attended s) (hstopping : Stopping s)
    {action : Action α} (hok : NotifiesBetweenTests s action) (h : s.step action = some t) :
    Heard t := by
  cases action with
  | execute task =>
      obtain rfl := Option.some.inj h
      exact hs
  | shutdown =>
      obtain rfl := Option.some.inj h
      refine hs.of_drowsy hattended (.of_eq rfl) ?_ fun w hw => hw
      rintro ⟨stop, hstop, hstopped⟩
      obtain hstop | hstop := List.mem_append.mp hstop
      · exact ⟨stop, hstop, hstopped⟩
      · rw [List.mem_singleton.mp hstop] at hstopped
        cases hstopped
  | worker w =>
      obtain ⟨worker, hw, hstep⟩ := Option.bind_eq_some_iff.mp h
      have hstep := workerStep_of_stepWorker hstep
      have hstops : t.stops = s.stops := by cases hstep <;> rfl
      apply hs.of_drowsy hattended (grows_workerStep hw hstep)
      · rw [hstops]
        exact id
      · exact fun v => drowsy_of_workerStep hstep
  | call i created =>
      obtain ⟨call, -, hstep⟩ := Option.bind_eq_some_iff.mp h
      have hstep := callStep_of_stepCall hstep
      have hstops : t.stops = s.stops := by cases hstep <;> rfl
      apply hs.of_drowsy hattended (grows_callStep hstep)
      · rw [hstops]
        exact id
      · exact fun v => drowsy_of_callStep hstep
  | stop i =>
      obtain ⟨stop, hi, hstep⟩ := Option.bind_eq_some_iff.mp h
      exact hs.stopStep hi hok (stopStep_of_stepStop hstep)
  | queue thread woken =>
      obtain ⟨q, hq, rfl⟩ := Option.map_eq_some_iff.mp h
      exact hs.queueStep hattended hstopping (step_of_advance hq)
  | wakeUp thread =>
      obtain ⟨q, hq, rfl⟩ := Option.map_eq_some_iff.mp h
      exact hs.of_drowsy hattended (.of_eq rfl) id fun w => drowsy_of_wakeUp hq
  | expire thread =>
      obtain ⟨q, hq, rfl⟩ := Option.map_eq_some_iff.mp h
      exact hs.of_drowsy hattended (.of_eq rfl) id fun w => drowsy_of_expire hq

/-! ## The waiting core threads -/

theorem heard_of_reachable (hs : (system α).ReachableUnder NotifiesBetweenTests s)
    (hfits : Fits s) : Heard s := by
  apply fitting_induction _ _ hs hfits
  · intro s hs
    rintro ⟨stop, hstop, -⟩
    rw [hs.stops] at hstop
    cases hstop
  · intro s action t hs hfits hheard hok ht
    exact hheard.step (attended_of_reachable hs) (stopping_of_reachable hs hfits).2 hok ht

/-- Where the notifications fall between the tests, no core thread is left waiting. -/
theorem not_missed (hs : (system α).ReachableUnder NotifiesBetweenTests s) (hfits : Fits s) :
    ¬ Missed s := by
  rintro ⟨-, hnotified, w, hcore, hwaits⟩
  exact heard_of_reachable hs hfits hnotified w hcore (Or.inr hwaits)

/-- The core thread is asleep when the notifications come, and not left waiting. -/
theorem not_missed_asleep : ∃ s : ThreadPool ℕ, (∃ stop ∈ s.stops, stop.hasNotified = true) ∧
    s.isCoreThread 0 = true ∧ (s.taskQueue.positions (.worker 0)).isAsleep = true ∧ ¬ Missed s := by
  obtain ⟨s, hs, hfits, hnotified, hcore, hasleep⟩ : ∃ s : ThreadPool ℕ,
      (system ℕ).ReachableUnder NotifiesBetweenTests s ∧
        s.maximumPoolSize ≤ kCountMask.toNat ∧ (∃ stop ∈ s.stops, stop.hasNotified = true) ∧
        s.isCoreThread 0 = true ∧ (s.taskQueue.positions (.worker 0)).isAsleep = true := by
    apply exists_reachableUnder 1 1 1
      [.execute 7, .call 0 true, .call 0 true, .call 0 true, .call 0 true, .call 0 true,
        .worker 0, .worker 0, .worker 0, .queue (.worker 0) (.worker 0),
        .queue (.worker 0) (.worker 0), .queue (.worker 0) (.worker 0), .shutdown, .stop 0,
        .stop 0, .stop 0, .stop 0, .stop 0]
    decide +kernel
  exact ⟨s, hnotified, hcore, hasleep, not_missed hs hfits⟩

/-- A core thread between its test and its sleep misses the notifications that come there. -/
theorem missed_of_isGoingToSleep (hs : (system α).Reachable s) (hfits : Fits s) {i w : ℕ}
    (hi : s.stops[i]? = some .notifyingEmpty) (hcore : s.isCoreThread w = true)
    (hgoing : (s.taskQueue.positions (.worker w)).isGoingToSleep = true) :
    ∃ t, (system α).run s [.stop i, .queue (.worker w) (.worker w)] = some t ∧ Missed t := by
  let u := (s.setTaskQueue s.taskQueue.notifyAllEmpty).setStop i .waiting
  have hnotify : (system α).step s (.stop i) = some u := congrArg (Option.bind · _) hi
  cases hposition : s.taskQueue.positions (.worker w) with
  | goingToSleep r =>
      have hr : r = takeRequest true := by
        apply eq_takeRequest (attended_of_reachable hs) hcore
        rw [hposition]
        rfl
      subst hr
      let q := (s.taskQueue.notifyAllEmpty.joinCV (takeRequest true) (.worker w)).unlock
        (.worker w) (.asleep (takeRequest true))
      have hadvance : u.taskQueue.advance (.worker w) (.worker w) (isShutdown u.ctl) = some q := by
        rw [advance, show u.taskQueue.positions (.worker w) = _ from hposition]
        rfl
      have hsleep : (system α).step u (.queue (.worker w) (.worker w)) = some (u.setTaskQueue q) :=
        congrArg (Option.map fun q => u.setTaskQueue q) hadvance
      refine ⟨u.setTaskQueue q, ?_, ?_, ⟨.waiting, ?_, rfl⟩, w, hcore, ?_, ?_⟩
      · rw [System.run_cons, hnotify, Option.bind_some, System.run_cons, hsleep]
        rfl
      · exact (stopping_of_reachable hs hfits).2.switched _ (List.mem_of_getElem? hi) rfl
      · exact List.mem_set (List.getElem?_eq_some_iff.mp hi).1 _
      · exact congrArg Position.isAsleep (setPosition_self ..)
      · exact List.mem_append_right _ (List.mem_singleton.mpr rfl)
  | outside | locking | testing | asleep | expired | lastTesting | passed | notifying | returned
  | frontOfEmpty =>
      rw [hposition] at hgoing
      cases hgoing

/-- The core thread has found the queue empty, the shutdown notifies, the thread goes to sleep. -/
def missingRun : List (Action ℕ) :=
  [.execute 7, .call 0 true, .call 0 true, .call 0 true, .call 0 true, .call 0 true,
    .worker 0, .worker 0, .worker 0, .queue (.worker 0) (.worker 0),
    .queue (.worker 0) (.worker 0), .shutdown, .stop 0, .stop 0, .stop 0, .stop 0, .stop 0,
    .queue (.worker 0) (.worker 0)]

theorem missed_reachable : ∃ s : ThreadPool ℕ, (system ℕ).Reachable s ∧ Missed s := by
  obtain ⟨s, hs, hshutdown, hnotified, hcore, hwaits⟩ : ∃ s : ThreadPool ℕ,
      (system ℕ).Reachable s ∧ isShutdown s.ctl = true ∧
        (∃ stop ∈ s.stops, stop.hasNotified = true) ∧ s.isCoreThread 0 = true ∧
        (s.taskQueue.positions (.worker 0)).isAsleep = true ∧
        .worker 0 ∈ s.taskQueue.notEmptyCV := by
    apply exists_reachableUnder 1 1 1 missingRun
    decide +kernel
  exact ⟨s, hs, hshutdown, hnotified, 0, hcore, hwaits⟩

end ThreadPool

end Nets
