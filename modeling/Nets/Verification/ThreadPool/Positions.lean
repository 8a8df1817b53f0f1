import Nets.Library.Registers
import Nets.Verification.BoundedBlockingQueue.Equations
import Nets.Verification.ThreadPool.Equations

/-! # Who is in the task queue

A worker is inside the task queue while it takes, a call of `execute` while it pushes and a call of
`shutdown` while it pops, each with its own request. -/

namespace Nets

def Position.Matches {α : Type} (position : Position α) : Option (Request α) → Prop
  | none => position = .outside
  | some r => position.Serves r

namespace ThreadPool

open Library BoundedBlockingQueue

variable {α : Type} {s t : ThreadPool α}

def Worker.request (worker : Worker) : Option (Request (Submission α)) :=
  if worker.phase = .taking then some (takeRequest worker.isCoreThread) else none

def Call.request (i : ℕ) : Call α → Option (Request (Submission α))
  | .pushing task => some (BoundedBlockingQueue.tryPush ⟨i, task⟩)
  | _ => none

def Stop.request : Stop → Option (Request (Submission α))
  | .popping => some tryPop
  | _ => none

/-- The request a thread is in the queue with. -/
def inFlight (s : ThreadPool α) : Thread → Option (Request (Submission α))
  | .worker w => s.workers[w]?.bind Worker.request
  | .call i => s.calls[i]?.bind (Call.request i)
  | .stop i => s.stops[i]?.bind Stop.request

def Attended (s : ThreadPool α) : Prop :=
  ∀ thread, (s.taskQueue.positions thread).Matches (s.inFlight thread)

theorem Attended.of_self (hs : Attended s) (self : Thread)
    (hother : ∀ thread ≠ self, t.inFlight thread = s.inFlight thread ∧
      t.taskQueue.positions thread = s.taskQueue.positions thread)
    (hself : (t.taskQueue.positions self).Matches (t.inFlight self)) : Attended t := by
  intro thread
  by_cases hthread : thread = self
  · rwa [hthread]
  · obtain ⟨hflight, hposition⟩ := hother thread hthread
    rw [hflight, hposition]
    exact hs thread

theorem Attended.of_same (hs : Attended s) (hflight : t.inFlight = s.inFlight)
    (hqueue : t.taskQueue.positions = s.taskQueue.positions) : Attended t := by
  intro thread
  rw [hflight, hqueue]
  exact hs thread

/-- The queue moves a thread inside its call. -/
theorem Attended.queue (hs : Attended s) {thread : Thread} {position : Position (Submission α)}
    {q : BoundedBlockingQueue Thread (Submission α)}
    (hpositions : q.positions = Function.update s.taskQueue.positions thread position)
    (hinside : s.taskQueue.positions thread ≠ .outside)
    (hserves : ∀ r, (s.taskQueue.positions thread).Serves r → position.Serves r) :
    Attended (s.setTaskQueue q) := by
  apply hs.of_self thread
  · intro other hother
    refine ⟨rfl, ?_⟩
    change q.positions other = _
    rw [hpositions, Function.update_of_ne hother]
  · have hthread := hs thread
    change (q.positions thread).Matches (s.inFlight thread)
    rw [hpositions, Function.update_self]
    cases hflight : s.inFlight thread with
    | none =>
        rw [hflight] at hthread
        exact absurd hthread hinside
    | some r =>
        rw [hflight] at hthread
        exact hserves r hthread

theorem inFlight_setWorker_of_ne {w : ℕ} {thread : Thread} (h : thread ≠ .worker w)
    (worker : Worker) : (s.setWorker w worker).inFlight thread = s.inFlight thread := by
  cases thread with
  | worker v =>
      have hne : w ≠ v := fun heq => h (by rw [heq])
      simp only [inFlight, setWorker, List.getElem?_set_ne hne]
  | call i => rfl
  | stop i => rfl

theorem inFlight_setWorker {w : ℕ} {worker worker' : Worker} (hw : s.workers[w]? = some worker) :
    (s.setWorker w worker').inFlight (.worker w) = worker'.request := by
  simp only [inFlight, setWorker, List.getElem?_set_self', hw]
  rfl

theorem inFlight_setCall_of_ne {i : ℕ} {thread : Thread} (h : thread ≠ .call i) (call : Call α) :
    (s.setCall i call).inFlight thread = s.inFlight thread := by
  cases thread with
  | worker w => rfl
  | call j =>
      have hne : i ≠ j := fun heq => h (by rw [heq])
      simp only [inFlight, setCall, List.getElem?_set_ne hne]
  | stop j => rfl

theorem inFlight_setStop_of_ne {i : ℕ} {thread : Thread} (h : thread ≠ .stop i) (stop : Stop) :
    (s.setStop i stop).inFlight thread = s.inFlight thread := by
  cases thread with
  | worker w => rfl
  | call j => rfl
  | stop j =>
      have hne : i ≠ j := fun heq => h (by rw [heq])
      simp only [inFlight, setStop, List.getElem?_set_ne hne]

/-! ## Steps of the threads -/

theorem Attended.setWorker (hs : Attended s) {w : ℕ} {worker worker' : Worker}
    (hw : s.workers[w]? = some worker)
    (hflight : t.inFlight = (s.setWorker w worker').inFlight)
    (hother : ∀ thread ≠ .worker w,
      t.taskQueue.positions thread = s.taskQueue.positions thread)
    (hself : (t.taskQueue.positions (.worker w)).Matches worker'.request) : Attended t := by
  apply hs.of_self (.worker w)
  · intro thread hthread
    rw [hflight]
    exact ⟨inFlight_setWorker_of_ne hthread worker', hother thread hthread⟩
  · rw [hflight, inFlight_setWorker hw]
    exact hself

/-- A worker's step outside the queue. -/
theorem Attended.setWorker_idle (hs : Attended s) {w : ℕ} {worker worker' : Worker}
    (hw : s.workers[w]? = some worker)
    (hflight : t.inFlight = (s.setWorker w worker').inFlight)
    (hqueue : t.taskQueue.positions = s.taskQueue.positions)
    (hbefore : worker.phase ≠ .taking) (hafter : worker'.phase ≠ .taking) : Attended t := by
  apply hs.setWorker hw hflight
  · intro thread _
    rw [hqueue]
  · have hself := hs (.worker w)
    simp only [inFlight, hw, Option.bind_some, Worker.request, if_neg hbefore] at hself
    rw [Worker.request, if_neg hafter, hqueue]
    exact hself

theorem Attended.workerStep (hs : Attended s) {w : ℕ} {worker : Worker}
    (hw : s.workers[w]? = some worker) (h : WorkerStep w worker s t) : Attended t := by
  cases h with
  | start sub hphase | skip hphase | finish hphase | quit hphase | erase hphase | vanish hphase
  | decrement hphase =>
      refine hs.setWorker_idle hw rfl rfl ?_ nofun
      rw [hphase]
      exact nofun
  | enter hphase hrunning =>
      refine hs.setWorker hw rfl (fun thread hthread => setPosition_of_ne hthread _ _) ?_
      change (Position.Serves _ _)
      rw [setTaskQueue, ThreadPool.setWorker, enter, setPosition_self]
      rfl
  | leave r result hphase hposition =>
      refine hs.setWorker hw rfl (fun thread hthread => setPosition_of_ne hthread _ _) ?_
      have houtside : (s.taskQueue.leave (.worker w)).positions (.worker w) = .outside :=
        setPosition_self ..
      cases worker.isCoreThread || result with
      | true | false => exact houtside

theorem Attended.setCall (hs : Attended s) {i : ℕ} (call' : Call α)
    (hflight : ∀ thread ≠ .call i, t.inFlight thread = s.inFlight thread)
    (hcall : t.calls[i]? = some call')
    (hother : ∀ thread ≠ .call i, t.taskQueue.positions thread = s.taskQueue.positions thread)
    (hself : (t.taskQueue.positions (.call i)).Matches (call'.request i)) : Attended t := by
  apply hs.of_self (.call i)
  · intro thread hthread
    exact ⟨hflight thread hthread, hother thread hthread⟩
  · simp only [inFlight, hcall]
    exact hself

theorem Attended.call_outside (hs : Attended s) {i : ℕ} {call : Call α}
    (hi : s.calls[i]? = some call) (hcall : call.request i = none) :
    s.taskQueue.positions (.call i) = .outside := by
  have hself := hs (.call i)
  simp only [inFlight, hi, Option.bind_some, hcall] at hself
  exact hself

/-- A step of `execute` outside the queue. -/
theorem Attended.setCall_idle (hs : Attended s) {i : ℕ} {call call' : Call α}
    (hi : s.calls[i]? = some call) (hcalls : t.calls = s.calls.set i call')
    (hflight : ∀ thread ≠ .call i, t.inFlight thread = s.inFlight thread)
    (hqueue : t.taskQueue.positions = s.taskQueue.positions)
    (hbefore : call.request i = none) (hafter : call'.request i = none) : Attended t := by
  have hlength := (List.getElem?_eq_some_iff.mp hi).1
  refine hs.setCall call' hflight ?_ (fun thread _ => by rw [hqueue]) ?_
  · rw [hcalls, List.getElem?_set_self hlength]
  · rw [hqueue, hs.call_outside hi hbefore, hafter]
    rfl

theorem request_notAdded (i : ℕ) (task : α) (isCore : Bool) :
    (notAdded task isCore).request i = none := by
  cases isCore with
  | true => rfl
  | false => rfl

theorem inFlight_startWorker (isCore : Bool) (sub : Submission α) :
    (s.startWorker isCore sub).inFlight = s.inFlight := by
  funext thread
  cases thread with
  | worker w => exact bind_getElem?_append (f := Worker.request) rfl w
  | call i => rfl
  | stop i => rfl

theorem Attended.callStep (hs : Attended s) {i : ℕ} {created : Bool} {call : Call α}
    (hi : s.calls[i]? = some call) (h : CallStep i created s call t) : Attended t := by
  have hlength := (List.getElem?_eq_some_iff.mp hi).1
  cases h with
  | refuse | addCore | compare | increment | retry | lockRunning | lockStopped | throwOut | emplace
  | finish =>
      exact hs.setCall_idle hi rfl (fun _ hne => inFlight_setCall_of_ne hne _) rfl rfl rfl
  | fail task isCore hfail =>
      exact hs.setCall_idle hi rfl (fun _ hne => inFlight_setCall_of_ne hne _) rfl rfl
        (request_notAdded i task isCore)
  | retreat task isCore =>
      exact hs.setCall_idle hi rfl (fun _ hne => inFlight_setCall_of_ne hne _) rfl rfl
        (request_notAdded i task isCore)
  | addOther task call hloads hrunning =>
      cases hloads with
      | first | again =>
          exact hs.setCall_idle hi rfl (fun _ hne => inFlight_setCall_of_ne hne _) rfl rfl rfl
  | construct task isCore hcreated =>
      refine hs.setCall_idle hi rfl ?_ rfl rfl rfl
      intro thread hne
      rw [inFlight_setCall_of_ne hne, inFlight_startWorker]
  | push task call hloads hrunning =>
      refine hs.setCall (.pushing task) (fun _ hne => inFlight_setCall_of_ne hne _)
        (List.getElem?_set_self hlength) (fun thread hne => setPosition_of_ne hne _ _) ?_
      have hlocking : (s.taskQueue.enter (BoundedBlockingQueue.tryPush ⟨i, task⟩)
          (.call i)).positions (.call i) = .locking (BoundedBlockingQueue.tryPush ⟨i, task⟩) :=
        setPosition_self ..
      change Position.Serves _ ((s.taskQueue.enter _ (.call i)).positions (.call i))
      rw [hlocking]
      rfl
  | leave task r result hposition =>
      refine hs.setCall _ (fun _ hne => inFlight_setCall_of_ne hne _)
        (List.getElem?_set_self hlength) (fun thread hne => setPosition_of_ne hne _ _) ?_
      have houtside : (s.taskQueue.leave (.call i)).positions (.call i) = .outside :=
        setPosition_self ..
      cases result with
      | true | false => exact houtside

theorem Attended.setStop (hs : Attended s) {i : ℕ} {stop stop' : Stop}
    (hi : s.stops[i]? = some stop)
    (hflight : t.inFlight = (s.setStop i stop').inFlight)
    (hother : ∀ thread ≠ .stop i, t.taskQueue.positions thread = s.taskQueue.positions thread)
    (hself : (t.taskQueue.positions (.stop i)).Matches stop'.request) : Attended t := by
  apply hs.of_self (.stop i)
  · intro thread hthread
    rw [hflight]
    exact ⟨inFlight_setStop_of_ne hthread stop', hother thread hthread⟩
  · rw [hflight]
    simp only [inFlight, ThreadPool.setStop, List.getElem?_set_self', hi]
    exact hself

theorem Attended.stopStep (hs : Attended s) {i : ℕ} {stop : Stop} (hi : s.stops[i]? = some stop)
    (h : StopStep i s stop t) : Attended t := by
  have hself := hs (.stop i)
  simp only [inFlight, hi] at hself
  cases h with
  | refuse | check | load | switch | retry | notifyFull | notifyEmpty | awake | drained =>
      exact hs.setStop hi rfl (fun _ _ => rfl) hself
  | pop hqueue =>
      refine hs.setStop hi rfl (fun thread hne => setPosition_of_ne hne _ _) ?_
      have hlocking : (s.taskQueue.enter tryPop (.stop i)).positions (.stop i) = .locking tryPop :=
        setPosition_self ..
      change Position.Serves _ ((s.taskQueue.enter tryPop (.stop i)).positions (.stop i))
      rw [hlocking]
      rfl
  | leave r result hposition =>
      refine hs.setStop hi rfl (fun thread hne => setPosition_of_ne hne _ _) ?_
      exact setPosition_self ..

theorem attended_preserved (ok : ThreadPool α → Action α → Prop) : Preserved ok Attended where
  execute s task hs _ := by
    refine hs.of_same ?_ rfl
    funext thread
    cases thread with
    | worker w | stop i => rfl
    | call i => exact bind_getElem?_append (f := Call.request i) rfl i
  shutdown s hs _ := by
    refine hs.of_same ?_ rfl
    funext thread
    cases thread with
    | worker w | call i => rfl
    | stop i => exact bind_getElem?_append (f := Stop.request) rfl i
  worker s w worker t hs _ hw h := hs.workerStep hw h
  call s i created call t hs _ hi h := hs.callStep hi h
  stop s i stop t hs _ hi h := hs.stopStep hi h
  queue s thread woken q hs _ h := by
    obtain ⟨position, hpositions, hinside, hserves⟩ := (step_of_advance h).moves
    exact hs.queue hpositions hinside hserves
  wakeUp s thread q hs h := hs.of_same rfl (wakeUp_same h).2.1
  expire s thread q hs h := by
    obtain ⟨-, -, r, hposition, hpositions⟩ := expire_same h
    apply hs.queue hpositions
    · rw [hposition]
      exact nofun
    · intro r' hr'
      rwa [hposition] at hr'

theorem Created.attended (hs : Created s) : Attended s := by
  intro thread
  rw [hs.taskQueue]
  cases thread with
  | worker w =>
      simp only [inFlight, hs.workers]
      rfl
  | call i =>
      simp only [inFlight, hs.calls]
      rfl
  | stop i =>
      simp only [inFlight, hs.stops]
      rfl

theorem attended_of_reachable {ok : ThreadPool α → Action α → Prop}
    (hs : (system α).ReachableUnder ok s) : Attended s :=
  (attended_preserved ok).reachable (fun _ _ _ _ h => (created_of_create h).attended) hs

/-! ## Who a request is from -/

theorem Attended.inFlight_eq (hs : Attended s) {thread : Thread} {r : Request (Submission α)}
    (h : (s.taskQueue.positions thread).request = some r) : s.inFlight thread = some r := by
  have hmatches := hs thread
  cases hflight : s.inFlight thread with
  | none =>
      rw [hflight] at hmatches
      rw [show s.taskQueue.positions thread = .outside from hmatches] at h
      cases h
  | some r' =>
      rw [hflight] at hmatches
      rw [Position.eq_of_serves hmatches h]

/-- Only `execute` puts into the queue. -/
theorem inFlight_put {thread : Thread} {r : Request (Submission α)} {el : Submission α}
    (h : s.inFlight thread = some r) (hel : r.el = some el) :
    ∃ i, thread = .call i ∧ s.calls[i]? = some (.pushing el.task) ∧ el.call = i := by
  cases thread with
  | worker w =>
      obtain ⟨worker, -, hrequest⟩ := Option.bind_eq_some_iff.mp h
      rw [Worker.request] at hrequest
      split at hrequest
      · obtain rfl := Option.some.inj hrequest
        cases hkind : worker.isCoreThread with
        | true | false =>
            rw [takeRequest, hkind] at hel
            cases hel
      · cases hrequest
  | call i =>
      obtain ⟨call, hi, hrequest⟩ := Option.bind_eq_some_iff.mp h
      cases call with
      | pushing task =>
          obtain rfl := Option.some.inj hrequest
          obtain rfl := Option.some.inj hel
          exact ⟨i, rfl, hi, rfl⟩
      | loading | adding | comparing | creating | constructing | emplacing | retreating | reloading
      | accepted | returned | thrown => cases hrequest
  | stop i =>
      obtain ⟨stop, -, hrequest⟩ := Option.bind_eq_some_iff.mp h
      cases stop with
      | popping =>
          obtain rfl := Option.some.inj hrequest
          cases hel
      | checking | alreadyShutdown | loading | comparing | notifyingFull | notifyingEmpty | waiting
      | draining | returned => cases hrequest

/-- Workers and `shutdown` take from it. -/
theorem inFlight_take {thread : Thread} {r : Request (Submission α)}
    (h : s.inFlight thread = some r) (hel : r.el = none) :
    (∃ w worker, thread = .worker w ∧ s.workers[w]? = some worker ∧ worker.phase = .taking ∧
        r = takeRequest worker.isCoreThread) ∨
      ∃ i, thread = .stop i ∧ s.stops[i]? = some .popping := by
  cases thread with
  | worker w =>
      obtain ⟨worker, hw, hrequest⟩ := Option.bind_eq_some_iff.mp h
      rw [Worker.request] at hrequest
      split at hrequest
      case isTrue hphase => exact Or.inl ⟨w, worker, rfl, hw, hphase, (Option.some.inj hrequest).symm⟩
      · cases hrequest
  | call i =>
      obtain ⟨call, -, hrequest⟩ := Option.bind_eq_some_iff.mp h
      cases call with
      | pushing task =>
          obtain rfl := Option.some.inj hrequest
          cases hel
      | loading | adding | comparing | creating | constructing | emplacing | retreating | reloading
      | accepted | returned | thrown => cases hrequest
  | stop i =>
      obtain ⟨stop, hi, hrequest⟩ := Option.bind_eq_some_iff.mp h
      cases stop with
      | popping => exact Or.inr ⟨i, rfl, hi⟩
      | checking | alreadyShutdown | loading | comparing | notifyingFull | notifyingEmpty | waiting
      | draining | returned => cases hrequest

end ThreadPool

end Nets
