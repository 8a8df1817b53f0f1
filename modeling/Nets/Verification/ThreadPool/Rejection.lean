import Nets.Verification.BoundedBlockingQueue.Elements
import Nets.Verification.ThreadPool.Positions
import Nets.Verification.ThreadPool.Shutdown

/-! # When a task is rejected

A call of `execute` gives its task up after two looks that are apart: `tryPush` has failed, and the
count allows no further thread. -/

namespace Nets

/-- The thread is about to try the mutex for an element. -/
def Position.isTrying {α : Type} : Position α → Bool
  | .locking r => r.el.isSome
  | _ => false

/-- The thread is about to take. -/
def Position.isTaking {α : Type} : Position α → Bool
  | .passed r => r.el.isNone
  | _ => false

/-- The call has returned false to its caller. -/
def Position.hasFailed {α : Type} : Position α → Bool
  | .returned _ result => !result
  | _ => false

/-- Where the thread has found room for its element, while it holds the mutex. -/
def Position.hasFoundRoom {α : Type} : Position α → Bool
  | .passed r => r.el.isSome
  | _ => false

namespace ThreadPool

open Library BoundedBlockingQueue

variable {α : Type} {s t : ThreadPool α}

/-! ## The bound of the queue -/

/-- The queue of a pool: a call that is about to push has found room, and holds the mutex. -/
structure Bounded (q : BoundedBlockingQueue Thread (Submission α)) : Prop where
  exclusive : q.Exclusive
  room : ∀ thread, (q.positions thread).hasFoundRoom = true → q.queue.length < q.maxQueueSize
  bound : q.queue.length ≤ q.maxQueueSize

variable {q q' : BoundedBlockingQueue Thread (Submission α)} {thread : Thread}

/-- A thread that enters or leaves a call, or whose wait is over. -/
theorem Bounded.move (hq : Bounded q) {position : Position (Submission α)}
    (hqueue : q'.queue = q.queue) (hsize : q'.maxQueueSize = q.maxQueueSize)
    (hmutex : q'.mutex = q.mutex)
    (hpositions : q'.positions = Function.update q.positions thread position)
    (hholds : position.holdsMutex = (q.positions thread).holdsMutex)
    (hroom : position.hasFoundRoom = false) : Bounded q' := by
  refine ⟨hq.exclusive.keep hmutex hpositions hholds, fun other hother => ?_, ?_⟩
  · rw [hpositions] at hother
    rw [hqueue, hsize]
    by_cases hne : other = thread
    · rw [hne, Function.update_self, hroom] at hother
      cases hother
    · rw [Function.update_of_ne hne] at hother
      exact hq.room other hother
  · rw [hqueue, hsize]
    exact hq.bound

/-- A step inside the queue, where whatever is put is put by a `tryPush`. -/
theorem Bounded.step (hq : Bounded q) {p : Bool} (h : Step thread p q q')
    (hmode : ∀ r, (q.positions thread).request = some r → r.el.isSome = true → r.mode = .tryLock) :
    Bounded q' := by
  refine ⟨hq.exclusive.step h, fun other hother => ?_, ?_⟩
  · cases hposition : q'.positions other with
    | passed r =>
        rw [hposition] at hother
        by_cases hne : other = thread
        · subst hne
          obtain ⟨hready, hsame, hrequest⟩ := h.ready_self hposition
          rw [hsame.queue, hsame.maxQueueSize]
          exact lt_of_isReady hother (hmode r hrequest hother) hready
        · have hold : q.positions other = .passed r := (h.effect.frame hne).1.symm.trans hposition
          have hsame := h.ready_of_ne hq.exclusive hne hold
          rw [hsame.queue, hsame.maxQueueSize]
          apply hq.room other
          rw [hold]
          exact hother
    | outside | locking | testing | goingToSleep | asleep | expired | lastTesting | notifying
    | returned | frontOfEmpty =>
        rw [hposition] at hother
        cases hother
  · cases h.effect with
    | same position helements | empty r hposition hel hqueue helements =>
        rw [helements.queue, helements.maxQueueSize]
        exact hq.bound
    | push r el hposition hel hpositions hqueue hpushed htaken houtputs hsize =>
        have hroom : q.queue.length < q.maxQueueSize := by
          apply hq.room thread
          rw [hposition, Position.hasFoundRoom, hel]
          rfl
        rw [hqueue, hsize, List.length_append, List.length_singleton]
        omega
    | pop r el hposition hel hpositions hqueue hpushed htaken houtputs hsize =>
        have hbound := hq.bound
        rw [hqueue, List.length_cons] at hbound
        rw [hsize]
        omega

theorem Attended.outside (hs : Attended s) (h : s.inFlight thread = none) :
    s.taskQueue.positions thread = .outside := by
  have hmatches := hs thread
  rw [h] at hmatches
  exact hmatches

theorem Attended.mode_eq (hs : Attended s) {r : Request (Submission α)}
    (hr : (s.taskQueue.positions thread).request = some r) (hput : r.el.isSome = true) :
    r.mode = .tryLock := by
  have hflight := hs.inFlight_eq hr
  obtain ⟨el, hel⟩ := Option.isSome_iff_exists.mp hput
  obtain ⟨i, rfl, hi, -⟩ := inFlight_put hflight hel
  rw [inFlight, hi] at hflight
  obtain rfl := Option.some.inj hflight
  rfl

/-- A thread that is outside the queue enters it. -/
theorem Bounded.enter (hs : Bounded s.taskQueue) (hattended : Attended s)
    (h : s.inFlight thread = none) (r : Request (Submission α)) :
    Bounded (s.taskQueue.enter r thread) := by
  refine hs.move rfl rfl rfl rfl ?_ rfl
  rw [hattended.outside h]
  rfl

theorem Bounded.leave (hs : Bounded s.taskQueue) {r : Request (Submission α)} {result : Bool}
    (hposition : s.taskQueue.positions thread = .returned r result) :
    Bounded (s.taskQueue.leave thread) := by
  refine hs.move rfl rfl rfl rfl ?_ rfl
  rw [hposition]
  rfl

theorem Bounded.workerStep (hs : Bounded s.taskQueue) (hattended : Attended s) {w : ℕ}
    {worker : Worker} (hw : s.workers[w]? = some worker) (h : WorkerStep w worker s t) :
    Bounded t.taskQueue := by
  cases h with
  | start | skip | quit | erase | vanish | decrement => exact hs
  | finish => exact ⟨hs.exclusive, hs.room, hs.bound⟩
  | enter hphase =>
      apply hs.enter hattended
      rw [inFlight, hw, Option.bind_some, Worker.request, hphase]
      rfl
  | leave r result hphase hposition => exact hs.leave hposition

theorem Bounded.callStep (hs : Bounded s.taskQueue) (hattended : Attended s) {i : ℕ}
    {created : Bool} {call : Call α} (hi : s.calls[i]? = some call)
    (h : CallStep i created s call t) : Bounded t.taskQueue := by
  cases h with
  | refuse | addCore | addOther | fail | compare | increment | retry | lockRunning | lockStopped
  | throwOut | emplace | retreat | finish => exact hs
  | construct => exact ⟨hs.exclusive, hs.room, hs.bound⟩
  | push task call hloads =>
      apply hs.enter hattended
      rw [inFlight, hi]
      cases hloads with
      | first | again => rfl
  | leave task r result hposition => exact hs.leave hposition

theorem Bounded.stopStep (hs : Bounded s.taskQueue) (hattended : Attended s) {i : ℕ} {stop : Stop}
    (hi : s.stops[i]? = some stop) (h : StopStep i s stop t) : Bounded t.taskQueue := by
  cases h with
  | refuse | check | load | switch | retry | awake | drained => exact hs
  | notifyFull | notifyEmpty => exact ⟨hs.exclusive, hs.room, hs.bound⟩
  | pop hqueue =>
      apply hs.enter hattended
      rw [inFlight, hi]
      rfl
  | leave r result hposition => exact hs.leave hposition

/-- The queue of a pool never holds more than `maxQueueSize` tasks. -/
theorem bounded_of_reachable {ok : ThreadPool α → Action α → Prop}
    (hs : (system α).ReachableUnder ok s) : Bounded s.taskQueue := by
  induction hs with
  | initial hs =>
      obtain ⟨corePoolSize, maximumPoolSize, maxQueueSize, hs⟩ := hs
      rw [(created_of_create hs).taskQueue]
      refine ⟨fun thread => ?_, nofun, Nat.zero_le _⟩
      constructor <;> exact nofun
  | @step s t action hs _ ht ih =>
      have hattended := attended_of_reachable hs
      cases action with
      | execute | shutdown =>
          obtain rfl := Option.some.inj ht
          exact ih
      | worker w =>
          obtain ⟨worker, hw, hstep⟩ := Option.bind_eq_some_iff.mp ht
          exact ih.workerStep hattended hw (workerStep_of_stepWorker hstep)
      | call i created =>
          obtain ⟨call, hi, hstep⟩ := Option.bind_eq_some_iff.mp ht
          exact ih.callStep hattended hi (callStep_of_stepCall hstep)
      | stop i =>
          obtain ⟨stop, hi, hstep⟩ := Option.bind_eq_some_iff.mp ht
          exact ih.stopStep hattended hi (stopStep_of_stepStop hstep)
      | queue thread woken =>
          obtain ⟨q, hq, rfl⟩ := Option.map_eq_some_iff.mp ht
          exact ih.step (step_of_advance hq) fun r => hattended.mode_eq
      | wakeUp thread =>
          obtain ⟨q, hq, rfl⟩ := Option.map_eq_some_iff.mp ht
          obtain ⟨hsame, hpositions, hmutex⟩ := wakeUp_same hq
          refine ⟨ih.exclusive.wakeUp hq, ?_, ?_⟩
          · rw [setTaskQueue, hpositions, hsame.queue, hsame.maxQueueSize]
            exact ih.room
          · rw [setTaskQueue, hsame.queue, hsame.maxQueueSize]
            exact ih.bound
      | expire thread =>
          obtain ⟨q, hq, rfl⟩ := Option.map_eq_some_iff.mp ht
          obtain ⟨hsame, hmutex, r, hposition, hpositions⟩ := expire_same hq
          refine ih.move hsame.queue hsame.maxQueueSize hmutex hpositions ?_ rfl
          rw [hposition]
          rfl

/-! ## Reasons to reject -/

def Saturated (s : ThreadPool α) : Prop :=
  s.taskQueue.queue.length = s.taskQueue.maxQueueSize ∧
    numOfActiveThreads s.ctl = s.maximumPoolSize

def Refusing (s : ThreadPool α) : Prop := isShutdown s.ctl = true ∨ Saturated s

instance : DecidablePred (Refusing (α := α)) := fun s =>
  inferInstanceAs (Decidable (isShutdown s.ctl = true ∨
    s.taskQueue.queue.length = s.taskQueue.maxQueueSize ∧
      numOfActiveThreads s.ctl = s.maximumPoolSize))

def Call.isOver : Call α → Bool
  | .returned _ _ | .thrown _ => true
  | _ => false

/-- At some moment of the call the pool had a reason to reject. -/
def Justified (past : List (ThreadPool α)) (i : ℕ) : Prop :=
  ∃ u ∈ past, Refusing u ∧ ∃ call, u.calls[i]? = some call ∧ call.isOver = false

theorem Justified.mono {past : List (ThreadPool α)} {i : ℕ} (h : Justified past i)
    (s : ThreadPool α) : Justified (s :: past) i := by
  obtain ⟨u, hu, hrefusing⟩ := h
  exact ⟨u, List.mem_cons_of_mem s hu, hrefusing⟩

theorem justified_of_refusing {i : ℕ} {call : Call α} (hi : s.calls[i]? = some call)
    (hover : call.isOver = false) (h : Refusing s) (past : List (ThreadPool α)) :
    Justified (s :: past) i :=
  ⟨s, List.mem_cons_self, h, call, hi, hover⟩

/-- The call has failed to push its task, and has not yet found the count at its limit. -/
def Call.isTurnedAway (position : Position (Submission α)) : Call α → Bool
  | .pushing _ => position.hasFailed
  | .adding _ isCore | .comparing _ isCore _ => !isCore
  | _ => false

def turnedAway (s : ThreadPool α) (i : ℕ) : Bool :=
  s.calls[i]?.any (Call.isTurnedAway (s.taskQueue.positions (.call i)))

/-- A `tryPush` finds the mutex held only where the queue is full, and no task is taken from a full
queue between a call that it has turned away and a free thread. -/
def RejectsFull (s : ThreadPool α) : Action α → Prop
  | .queue thread _ =>
    ((s.taskQueue.positions thread).isTrying = true → s.taskQueue.mutex.isSome = true →
        isShutdown s.ctl = true ∨ s.taskQueue.isFull = true) ∧
      ((s.taskQueue.positions thread).isTaking = true → s.taskQueue.isFull = true →
        isShutdown s.ctl = true ∨ s.maximumPoolSize ≤ numOfActiveThreads s.ctl ∨
          ∀ i < s.calls.length, s.turnedAway i = false)
  | _ => True

instance (s : ThreadPool α) (action : Action α) : Decidable (RejectsFull s action) :=
  match action with
  | .queue thread _ => inferInstanceAs (Decidable (
      ((s.taskQueue.positions thread).isTrying = true → s.taskQueue.mutex.isSome = true →
          isShutdown s.ctl = true ∨ s.taskQueue.isFull = true) ∧
        ((s.taskQueue.positions thread).isTaking = true → s.taskQueue.isFull = true →
          isShutdown s.ctl = true ∨ s.maximumPoolSize ≤ numOfActiveThreads s.ctl ∨
            ∀ i < s.calls.length, s.turnedAway i = false)))
  | .execute _ | .shutdown | .worker _ | .call _ _ | .stop _ | .wakeUp _ | .expire _ =>
      .isTrue trivial

/-- The call is going to return false, or has returned it. -/
def Call.isRejecting : Call α → Bool
  | .retreating _ _ => true
  | .returned _ result => !result
  | _ => false

/-- What a call of `execute` has to show for having been turned away. -/
structure Tracked (past : List (ThreadPool α)) (s : ThreadPool α) (i : ℕ) (call : Call α) :
    Prop where
  turnedAway : call.isTurnedAway (s.taskQueue.positions (.call i)) = true →
    s.taskQueue.isFull = true ∨ Justified past i
  rejecting : call.isRejecting = true → Justified past i

variable {past : List (ThreadPool α)}

theorem isTurnedAway_congr {position position' : Position (Submission α)}
    (h : position'.hasFailed = position.hasFailed) (call : Call α) :
    call.isTurnedAway position' = call.isTurnedAway position := by
  cases call with
  | pushing => exact h
  | loading | adding | comparing | creating | constructing | emplacing | retreating | reloading
  | accepted | returned | thrown => rfl

theorem Tracked.of_same {i : ℕ} {call : Call α} (hs : Tracked past s i call)
    (hfailed : (t.taskQueue.positions (.call i)).hasFailed =
      (s.taskQueue.positions (.call i)).hasFailed)
    (hfull : t.taskQueue.isFull = s.taskQueue.isFull) : Tracked (s :: past) t i call := by
  constructor
  · rw [isTurnedAway_congr hfailed, hfull]
    intro hturned
    exact (hs.turnedAway hturned).imp id fun h => h.mono s
  · intro hrejecting
    exact (hs.rejecting hrejecting).mono s

/-- A step of one call outside the queue. -/
theorem tracked_setCall (hs : ∀ j call, s.calls[j]? = some call → Tracked past s j call) {i : ℕ}
    {call' : Call α} (hcalls : t.calls = s.calls.set i call')
    (hpositions : ∀ j ≠ i, t.taskQueue.positions (.call j) = s.taskQueue.positions (.call j))
    (hfull : t.taskQueue.isFull = s.taskQueue.isFull) (hself : Tracked (s :: past) t i call') :
    ∀ j call, t.calls[j]? = some call → Tracked (s :: past) t j call := by
  intro j call hj
  rw [hcalls] at hj
  obtain ⟨rfl, rfl⟩ | ⟨hne, hj⟩ := getElem?_set_cases hj
  · exact hself
  · exact (hs j call hj).of_same (congrArg Position.hasFailed (hpositions j hne)) hfull

/-- A call that is neither turned away nor going to reject. -/
theorem tracked_of_kept {i : ℕ} {call : Call α}
    (hturned : ∀ position, call.isTurnedAway position = false) (hrejecting : call.isRejecting = false) :
    Tracked past s i call := by
  constructor
  · intro h
    rw [hturned] at h
    cases h
  · intro h
    rw [hrejecting] at h
    cases h

theorem tracked_of_justified {i : ℕ} {call : Call α} (h : Justified past i) :
    Tracked past s i call :=
  ⟨fun _ => Or.inr h, fun _ => h⟩

/-- A call that was turned away before its step is as turned away after it. -/
theorem Tracked.goOn {i : ℕ} {call call' : Call α} (hs : Tracked past s i call)
    (hbefore : call.isTurnedAway (s.taskQueue.positions (.call i)) = true)
    (hfull : t.taskQueue.isFull = s.taskQueue.isFull) (hrejecting : call'.isRejecting = false) :
    Tracked (s :: past) t i call' := by
  constructor
  · intro _
    rw [hfull]
    exact (hs.turnedAway hbefore).imp id fun h => h.mono s
  · intro h
    rw [hrejecting] at h
    cases h

theorem refusing_of_stopped (hcounted : Counted s) (hfits : Fits s)
    (hstopped : isRunning s.ctl = false) : Refusing s := by
  rw [hcounted.isRunning hfits, Bool.not_eq_false'] at hstopped
  exact Or.inl hstopped

/-- A full queue, and as many threads as there may be. -/
theorem refusing_of_full (hcounted : Counted s) (hfits : Fits s) (hbounded : Bounded s.taskQueue)
    (hfull : s.taskQueue.isFull = true) (hlimit : s.maximumPoolSize ≤ numOfActiveThreads s.ctl) :
    Refusing s := by
  have hlength : s.taskQueue.maxQueueSize ≤ s.taskQueue.queue.length := of_decide_eq_true hfull
  have hcount := hcounted.bound
  rw [← hcounted.numOfActiveThreads hfits] at hcount
  exact Or.inr ⟨Nat.le_antisymm hbounded.bound hlength, Nat.le_antisymm hcount hlimit⟩

theorem tracked_callStep (hs : ∀ j call, s.calls[j]? = some call → Tracked past s j call)
    (hcounted : Counted s) (hfits : Fits s) (hbounded : Bounded s.taskQueue) {i : ℕ}
    {created : Bool} {call : Call α} (hi : s.calls[i]? = some call)
    (h : CallStep i created s call t) :
    ∀ j call, t.calls[j]? = some call → Tracked (s :: past) t j call := by
  have hself := hs i call hi
  have hlength := (List.getElem?_eq_some_iff.mp hi).1
  have hne : ∀ {j : ℕ}, j ≠ i → Thread.call j ≠ .call i := fun hne heq => hne (Thread.call.inj heq)
  cases h with
  | refuse task hshutdown =>
      refine tracked_setCall hs rfl (fun _ _ => rfl) rfl ?_
      exact tracked_of_justified (justified_of_refusing hi rfl (Or.inl hshutdown) past)
  | addCore | increment | lockRunning | construct | throwOut | emplace | finish =>
      exact tracked_setCall hs rfl (fun _ _ => rfl) rfl (tracked_of_kept (fun _ => rfl) rfl)
  | push task call hloads hrunning =>
      refine tracked_setCall hs rfl (fun j hj => setPosition_of_ne (hne hj) ..) rfl ?_
      refine ⟨fun hturned => ?_, nofun⟩
      have hlocking : (s.taskQueue.enter (BoundedBlockingQueue.tryPush ⟨i, task⟩)
          (.call i)).positions (.call i) = .locking (BoundedBlockingQueue.tryPush ⟨i, task⟩) :=
        setPosition_self ..
      change ((s.taskQueue.enter _ (.call i)).positions (.call i)).hasFailed = true at hturned
      rw [hlocking] at hturned
      cases hturned
  | addOther task call hloads hstopped =>
      refine tracked_setCall hs rfl (fun _ _ => rfl) rfl ?_
      have hrefusing := refusing_of_stopped hcounted hfits hstopped
      cases hloads with
      | first | again => exact tracked_of_justified (justified_of_refusing hi rfl hrefusing past)
  | fail task isCore hfail =>
      refine tracked_setCall hs rfl (fun _ _ => rfl) rfl ?_
      cases isCore with
      | true => exact tracked_of_kept (fun _ => rfl) rfl
      | false =>
          apply tracked_of_justified
          obtain hshutdown | hlimit := hfail
          · exact justified_of_refusing hi rfl (Or.inl hshutdown) past
          · obtain hfull | hjustified := hself.turnedAway rfl
            · have hrefusing := refusing_of_full hcounted hfits hbounded hfull hlimit
              exact justified_of_refusing hi rfl hrefusing past
            · exact hjustified.mono s
  | compare task isCore =>
      refine tracked_setCall hs rfl (fun _ _ => rfl) rfl ?_
      cases isCore with
      | true => exact tracked_of_kept (fun _ => rfl) rfl
      | false => exact hself.goOn rfl rfl rfl
  | retry task isCore =>
      refine tracked_setCall hs rfl (fun _ _ => rfl) rfl ?_
      cases isCore with
      | true => exact tracked_of_kept (fun _ => rfl) rfl
      | false => exact hself.goOn rfl rfl rfl
  | lockStopped task isCore hmutex hstopped =>
      refine tracked_setCall hs rfl (fun _ _ => rfl) rfl ?_
      have hrefusing := refusing_of_stopped hcounted hfits hstopped
      exact tracked_of_justified (justified_of_refusing hi rfl hrefusing past)
  | retreat task isCore =>
      refine tracked_setCall hs rfl (fun _ _ => rfl) rfl ?_
      exact tracked_of_justified ((hself.rejecting rfl).mono s)
  | leave task r result hposition =>
      refine tracked_setCall hs rfl (fun j hj => setPosition_of_ne (hne hj) ..) rfl ?_
      cases result with
      | true => exact tracked_of_kept (fun _ => rfl) rfl
      | false =>
          refine hself.goOn ?_ rfl rfl
          rw [Call.isTurnedAway, hposition]
          rfl

/-! ## Steps inside the queue -/

/-- A thread that takes a step is inside the call that it serves. -/
theorem request_of_step {p : Bool} (h : Step thread p q q') {r : Request (Submission α)}
    (hserves : (q.positions thread).Serves r) : (q.positions thread).request = some r := by
  cases h with
  | lock r' hposition | tryLock r' hposition | contended r' hposition | pass r' hposition
  | fail r' hposition | sleep r' hposition | relock r' hposition | relockLast r' hposition
  | passLast r' hposition | failLast r' hposition | giveUp r' hposition | transfer r' hposition
  | notify r' hposition =>
      rw [hposition] at hserves ⊢
      exact congrArg some hserves

/-- Why a `tryPush` fails. -/
theorem full_of_fails {p : Bool} (h : Step thread p q q') {r : Request (Submission α)}
    (hrequest : (q.positions thread).request = some r) (hput : r.el.isSome = true)
    (hmode : r.mode = .tryLock) (hfailed : (q'.positions thread).hasFailed = true) :
    ((q.positions thread).isTrying = true ∧ q.mutex.isSome = true ∨ q.isFull = true) ∧
      SameElements q q' := by
  cases h with
  | contended r' hposition hlock hmutex =>
      rw [hposition] at hrequest
      obtain rfl : r' = r := Option.some.inj hrequest
      refine ⟨Or.inl ⟨?_, Option.isSome_iff_ne_none.mpr hmutex⟩, setPosition_same ..⟩
      rw [hposition]
      exact hput
  | failLast r' hposition hready =>
      rw [hposition] at hrequest
      obtain rfl : r' = r := Option.some.inj hrequest
      rw [isReady, if_pos hput, Bool.or_eq_false_iff, Bool.not_eq_false'] at hready
      exact ⟨Or.inr hready.1, ⟨rfl, rfl, rfl, rfl, rfl⟩⟩
  | giveUp r' hposition hp =>
      rw [hposition] at hrequest
      obtain rfl : r' = r := Option.some.inj hrequest
      rw [hmode] at hp
      cases hp
  | transfer r' hposition =>
      obtain hpositions | hpositions := transfer_positions r' thread q
      · rw [hpositions, Function.update_self] at hfailed
        cases hfailed
      · rw [hpositions, Function.update_self] at hfailed
        cases hfailed
  | lock | tryLock | pass | fail | sleep | relock | relockLast | passLast | notify =>
      cases (congrArg Position.hasFailed (setPosition_self ..)).symm.trans hfailed

/-- A full queue stays full, or every call that it has turned away has been justified. -/
theorem full_of_effect (hcounted : Counted s) (hfits : Fits s) (hbounded : Bounded s.taskQueue)
    {thread woken : Thread} {q : BoundedBlockingQueue Thread (Submission α)}
    (hok : RejectsFull s (.queue thread woken)) (h : Effect thread s.taskQueue q)
    (hfull : s.taskQueue.isFull = true) {i : ℕ} {call : Call α} (hi : s.calls[i]? = some call)
    (hover : call.isOver = false)
    (hturned : call.isTurnedAway (s.taskQueue.positions (.call i)) = true) :
    q.isFull = true ∨ Justified (s :: past) i := by
  have hlength : s.taskQueue.maxQueueSize ≤ s.taskQueue.queue.length := of_decide_eq_true hfull
  cases h with
  | same position helements | empty r hposition hel hqueue helements =>
      left
      rw [isFull, helements.queue, helements.maxQueueSize]
      exact hfull
  | push r el hposition hel hpositions hqueue hpushed htaken houtputs hsize =>
      left
      rw [isFull, hqueue, hsize, List.length_append]
      exact decide_eq_true (Nat.le_add_right_of_le hlength)
  | pop r el hposition hel =>
      right
      have htaking : (s.taskQueue.positions thread).isTaking = true := by
        rw [hposition, Position.isTaking, hel]
        rfl
      obtain hshutdown | hlimit | hnone := hok.2 htaking hfull
      · exact justified_of_refusing hi hover (Or.inl hshutdown) past
      · exact justified_of_refusing hi hover (refusing_of_full hcounted hfits hbounded hfull hlimit) past
      · have hself := hnone i (List.getElem?_eq_some_iff.mp hi).1
        rw [ThreadPool.turnedAway, hi, Option.any_some, hturned] at hself
        cases hself

theorem isOver_of_isTurnedAway {position : Position (Submission α)} {call : Call α}
    (h : call.isTurnedAway position = true) : call.isOver = false := by
  cases call with
  | pushing | adding | comparing => rfl
  | loading | creating | constructing | emplacing | retreating | reloading | accepted | returned
  | thrown => cases h

/-- Only a call inside the queue is turned away by a step of the queue. -/
theorem isTurnedAway_of_ne {position position' : Position (Submission α)} {call : Call α}
    (h : call.isTurnedAway position' = true) (hbefore : call.isTurnedAway position = false) :
    ∃ task, call = .pushing task ∧ position'.hasFailed = true := by
  cases call with
  | pushing task => exact ⟨task, rfl, h⟩
  | adding | comparing => exact absurd (h.symm.trans hbefore) nofun
  | loading | creating | constructing | emplacing | retreating | reloading | accepted | returned
  | thrown => cases h

theorem tracked_queueStep (hs : ∀ j call, s.calls[j]? = some call → Tracked past s j call)
    (hattended : Attended s) (hcounted : Counted s) (hfits : Fits s)
    (hbounded : Bounded s.taskQueue) {thread woken : Thread}
    {q : BoundedBlockingQueue Thread (Submission α)} (hok : RejectsFull s (.queue thread woken))
    (h : Step thread (isShutdown s.ctl) s.taskQueue q) :
    ∀ j call, s.calls[j]? = some call → Tracked (s :: past) (s.setTaskQueue q) j call := by
  intro j call hj
  have hold := hs j call hj
  refine ⟨fun hturned => ?_, fun hrejecting => (hold.rejecting hrejecting).mono s⟩
  have hover := isOver_of_isTurnedAway hturned
  cases hbefore : call.isTurnedAway (s.taskQueue.positions (.call j)) with
  | true =>
      obtain hfull | hjustified := hold.turnedAway hbefore
      · exact full_of_effect hcounted hfits hbounded hok h.effect hfull hj hover hbefore
      · exact Or.inr (hjustified.mono s)
  | false =>
      obtain ⟨task, rfl, hfailed⟩ := isTurnedAway_of_ne hturned hbefore
      -- The queue has moved this call: it has just failed.
      have hthread : Thread.call j = thread := by
        by_contra hne
        change (q.positions (.call j)).hasFailed = true at hfailed
        rw [(h.effect.frame hne).1] at hfailed
        exact absurd (hfailed.symm.trans hbefore) nofun
      subst hthread
      have hmatches := hattended (.call j)
      rw [inFlight, hj] at hmatches
      have hrequest : (s.taskQueue.positions (.call j)).request =
          some (BoundedBlockingQueue.tryPush ⟨j, task⟩) := request_of_step h hmatches
      obtain ⟨hcause, hsame⟩ := full_of_fails h hrequest rfl rfl hfailed
      have hkeeps : q.isFull = s.taskQueue.isFull := by
        rw [isFull, isFull, hsame.queue, hsame.maxQueueSize]
      change q.isFull = true ∨ _
      rw [hkeeps]
      obtain ⟨htrying, hheld⟩ | hfull := hcause
      · obtain hshutdown | hfull := hok.1 htrying hheld
        · exact Or.inr (justified_of_refusing hj hover (Or.inl hshutdown) past)
        · exact Or.inl hfull
      · exact Or.inl hfull

/-! ## Runs -/

/-- A step that leaves the calls and the fullness of the queue alone. -/
theorem tracked_of_same (hs : ∀ j call, s.calls[j]? = some call → Tracked past s j call)
    (hcalls : t.calls = s.calls)
    (hfailed : ∀ j, (t.taskQueue.positions (.call j)).hasFailed =
      (s.taskQueue.positions (.call j)).hasFailed)
    (hfull : t.taskQueue.isFull = s.taskQueue.isFull) :
    ∀ j call, t.calls[j]? = some call → Tracked (s :: past) t j call := by
  intro j call hj
  rw [hcalls] at hj
  exact (hs j call hj).of_same (hfailed j) hfull

theorem tracked_workerStep (hs : ∀ j call, s.calls[j]? = some call → Tracked past s j call) {w : ℕ}
    {worker : Worker} (h : WorkerStep w worker s t) :
    ∀ j call, t.calls[j]? = some call → Tracked (s :: past) t j call := by
  have hmove : ∀ position j, ((s.taskQueue.setPosition (.worker w) position).positions
      (.call j)).hasFailed = (s.taskQueue.positions (.call j)).hasFailed := by
    intro position j
    have hne : Thread.call j ≠ .worker w := nofun
    exact congrArg Position.hasFailed (setPosition_of_ne hne ..)
  cases h with
  | start | skip | finish | quit | erase | vanish | decrement =>
      exact tracked_of_same hs rfl (fun _ => rfl) rfl
  | enter => exact tracked_of_same hs rfl (hmove _) rfl
  | leave => exact tracked_of_same hs rfl (hmove _) rfl

theorem tracked_stopStep (hs : ∀ j call, s.calls[j]? = some call → Tracked past s j call) {i : ℕ}
    {stop : Stop} (h : StopStep i s stop t) :
    ∀ j call, t.calls[j]? = some call → Tracked (s :: past) t j call := by
  have hmove : ∀ position j, ((s.taskQueue.setPosition (.stop i) position).positions
      (.call j)).hasFailed = (s.taskQueue.positions (.call j)).hasFailed := by
    intro position j
    have hne : Thread.call j ≠ .stop i := nofun
    exact congrArg Position.hasFailed (setPosition_of_ne hne ..)
  cases h with
  | refuse | check | load | switch | retry | notifyFull | notifyEmpty | awake | drained =>
      exact tracked_of_same hs rfl (fun _ => rfl) rfl
  | pop => exact tracked_of_same hs rfl (hmove _) rfl
  | leave => exact tracked_of_same hs rfl (hmove _) rfl

theorem tracked_step (hs : ∀ j call, s.calls[j]? = some call → Tracked past s j call)
    (hattended : Attended s) (hcounted : Counted s) (hfits : Fits s)
    (hbounded : Bounded s.taskQueue) {action : Action α} (hok : RejectsFull s action)
    (h : s.step action = some t) :
    ∀ j call, t.calls[j]? = some call → Tracked (s :: past) t j call := by
  cases action with
  | execute task =>
      obtain rfl := Option.some.inj h
      intro j call hj
      obtain hj | ⟨-, rfl⟩ := getElem?_append_cases hj
      · exact (hs j call hj).of_same rfl rfl
      · exact tracked_of_kept (fun _ => rfl) rfl
  | shutdown =>
      obtain rfl := Option.some.inj h
      exact tracked_of_same hs rfl (fun _ => rfl) rfl
  | worker w =>
      obtain ⟨worker, -, hstep⟩ := Option.bind_eq_some_iff.mp h
      exact tracked_workerStep hs (workerStep_of_stepWorker hstep)
  | call i created =>
      obtain ⟨call, hi, hstep⟩ := Option.bind_eq_some_iff.mp h
      exact tracked_callStep hs hcounted hfits hbounded hi (callStep_of_stepCall hstep)
  | stop i =>
      obtain ⟨stop, -, hstep⟩ := Option.bind_eq_some_iff.mp h
      exact tracked_stopStep hs (stopStep_of_stepStop hstep)
  | queue thread woken =>
      obtain ⟨q, hq, rfl⟩ := Option.map_eq_some_iff.mp h
      exact tracked_queueStep hs hattended hcounted hfits hbounded hok (step_of_advance hq)
  | wakeUp thread =>
      obtain ⟨q, hq, rfl⟩ := Option.map_eq_some_iff.mp h
      obtain ⟨hsame, hpositions, -⟩ := wakeUp_same hq
      refine tracked_of_same (t := s.setTaskQueue q) hs rfl (fun j => ?_) ?_
      · exact congrArg Position.hasFailed (congrFun hpositions _)
      · rw [isFull, isFull, setTaskQueue, hsame.queue, hsame.maxQueueSize]
  | expire thread =>
      obtain ⟨q, hq, rfl⟩ := Option.map_eq_some_iff.mp h
      obtain ⟨hsame, -, r, hposition, hpositions⟩ := expire_same hq
      refine tracked_of_same (t := s.setTaskQueue q) hs rfl (fun j => ?_) ?_
      · change (q.positions (.call j)).hasFailed = _
        rw [hpositions]
        by_cases hne : Thread.call j = thread
        · rw [hne, Function.update_self, hposition]
          rfl
        · rw [Function.update_of_ne hne]
      · rw [isFull, isFull, setTaskQueue, hsame.queue, hsame.maxQueueSize]

theorem tracked_of_reachedThrough (hs : (system α).ReachedThrough RejectsFull past s)
    (hfits : Fits s) : ∀ j call, s.calls[j]? = some call → Tracked past s j call := by
  induction hs with
  | initial hs =>
      obtain ⟨corePoolSize, maximumPoolSize, maxQueueSize, hs⟩ := hs
      intro j call hj
      rw [(created_of_create hs).calls] at hj
      cases hj
  | step hs hok ht ih =>
      have hfits := (Fits.of_step ht).mp hfits
      have hreachable := hs.reachableUnder
      have hcounted := (stopping_of_reachable hreachable hfits).1
      exact tracked_step (ih hfits) (attended_of_reachable hreachable) hcounted hfits
        (bounded_of_reachable hreachable) hok ht

/-- A call of `execute` returns false only if, at some moment before that, it had not yet returned
and the pool was shut down, or its queue was full with as many threads counted as there may be. -/
theorem rejected_for_lack_of_capacity (hs : (system α).ReachedThrough RejectsFull past s)
    (hfits : Fits s) {i : ℕ} {task : α} (hi : s.calls[i]? = some (.returned task false)) :
    ∃ u ∈ past, (isShutdown u.ctl = true ∨
        u.taskQueue.queue.length = u.taskQueue.maxQueueSize ∧
          numOfActiveThreads u.ctl = u.maximumPoolSize) ∧
      ∃ call, u.calls[i]? = some call ∧ call.isOver = false :=
  (tracked_of_reachedThrough hs hfits i _ hi).rejecting rfl

/-- One thread runs a task, the next task fills the queue, and the third is rejected. -/
theorem rejected_for_lack_of_capacity_third : ∃ (past : List (ThreadPool ℕ)) (s : ThreadPool ℕ),
    s.calls[2]? = some (.returned 9 false) ∧ ∃ u ∈ past, (isShutdown u.ctl = true ∨
        u.taskQueue.queue.length = u.taskQueue.maxQueueSize ∧
          numOfActiveThreads u.ctl = u.maximumPoolSize) ∧
      ∃ call, u.calls[2]? = some call ∧ call.isOver = false := by
  obtain ⟨s, hs, hfits, hcall⟩ : ∃ s : ThreadPool ℕ, (system ℕ).ReachableUnder RejectsFull s ∧
      s.maximumPoolSize ≤ kCountMask.toNat ∧ s.calls[2]? = some (.returned 9 false) := by
    apply exists_reachableUnder 1 1 1
      [.execute 7, .call 0 true, .call 0 true, .call 0 true, .call 0 true, .call 0 true,
        .call 0 true, .worker 0, .execute 8, .call 1 true, .queue (.call 1) (.call 1),
        .queue (.call 1) (.call 1), .queue (.call 1) (.call 1), .queue (.call 1) (.call 1),
        .call 1 true, .execute 9, .call 2 true, .queue (.call 2) (.call 2),
        .queue (.call 2) (.call 2), .call 2 true, .call 2 true]
    decide +kernel
  obtain ⟨past, hpast, -⟩ := hs.exists_reachedThrough
  exact ⟨past, s, hcall, rejected_for_lack_of_capacity hpast hfits hcall⟩

/-- The worker holds the mutex of an empty queue, to find that there is nothing to take, while the
only other call tries it. -/
theorem rejected_with_room : ∃ (past : List (ThreadPool ℕ)) (s : ThreadPool ℕ),
    (system ℕ).ReachedThrough (fun _ _ => True) past s ∧ Fits s ∧
      s.calls[1]? = some (.returned 8 false) ∧ ∀ u ∈ past, ¬ Refusing u := by
  obtain ⟨s, hs, hfits, hcall⟩ : ∃ s : ThreadPool ℕ,
      (system ℕ).ReachableUnder (fun u _ => ¬ Refusing u) s ∧
        s.maximumPoolSize ≤ kCountMask.toNat ∧ s.calls[1]? = some (.returned 8 false) := by
    apply exists_reachableUnder 1 1 1
      [.execute 7, .call 0 true, .call 0 true, .call 0 true, .call 0 true, .call 0 true,
        .call 0 true, .call 0 true, .worker 0, .worker 0, .worker 0,
        .queue (.worker 0) (.worker 0), .execute 8, .call 1 true, .queue (.call 1) (.call 1),
        .call 1 true, .call 1 true]
    decide +kernel
  obtain ⟨past, hpast, hrefusing⟩ := hs.exists_reachedThrough
  refine ⟨past, s, hpast.mono fun _ _ _ => trivial, hfits, hcall, fun u hu => ?_⟩
  exact (hrefusing u hu).choose_spec

end ThreadPool

end Nets
