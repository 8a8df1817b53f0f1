import Nets.Verification.BoundedBlockingQueue.Elements
import Nets.Verification.ThreadPool.Positions

/-! # Where the tasks are

A call of `execute` hands its task over once, to the thread it creates or to the queue. From then on
the task is in one place: the `task_` of a worker, the queue, the finished tasks, or the tasks that a
shutdown has removed. -/

namespace Nets.ThreadPool

open Library BoundedBlockingQueue

variable {α : Type} {s t : ThreadPool α}

/-! ## Calls that have handed their task over -/

def Call.task : Call α → α
  | .loading task | .adding task _ | .comparing task _ _ | .creating task _ | .constructing task _
  | .emplacing task _ _ | .retreating task _ | .reloading task | .pushing task | .accepted task
  | .returned task _ | .thrown task => task

/-- The call has handed its task over, where `pushed` tells it of a call inside the queue. -/
def Call.hasPlaced (pushed : Bool) : Call α → Bool
  | .emplacing _ _ _ | .accepted _ => true
  | .returned _ result => result
  | .pushing _ => pushed
  | .loading _ | .adding _ _ | .comparing _ _ _ | .creating _ _ | .constructing _ _
  | .retreating _ _ | .reloading _ | .thrown _ => false

/-- The task that a call has handed over. -/
def placedBy (position : Position (Submission α)) (call : Call α) : Option α :=
  if call.hasPlaced position.put.isSome then some call.task else none

def placed (s : ThreadPool α) (i : ℕ) : Option α :=
  s.calls[i]?.bind (placedBy (s.taskQueue.positions (.call i)))

theorem placedBy_notAdded (position : Position (Submission α)) (task : α) (isCore : Bool) :
    placedBy position (notAdded task isCore) = none := by
  cases isCore with
  | true => rfl
  | false => rfl

theorem placed_of_put (hcalls : t.calls = s.calls)
    (hput : ∀ i, (t.taskQueue.positions (.call i)).put = (s.taskQueue.positions (.call i)).put) :
    t.placed = s.placed := by
  funext i
  rw [placed, placed, hcalls]
  congr 1
  funext call
  rw [placedBy, placedBy, hput]

theorem placed_of_eq (hcalls : t.calls = s.calls)
    (hpositions : ∀ i, t.taskQueue.positions (.call i) = s.taskQueue.positions (.call i)) :
    t.placed = s.placed :=
  placed_of_put hcalls fun i => congrArg Position.put (hpositions i)

/-- A step of one call. -/
theorem placed_setCall {i : ℕ} {call call' : Call α} (hi : s.calls[i]? = some call)
    (hcalls : t.calls = s.calls.set i call')
    (hpositions : ∀ j ≠ i, t.taskQueue.positions (.call j) = s.taskQueue.positions (.call j)) :
    t.placed = Function.update s.placed i (placedBy (t.taskQueue.positions (.call i)) call') := by
  have hlength := (List.getElem?_eq_some_iff.mp hi).1
  funext j
  by_cases hj : j = i
  · subst hj
    rw [Function.update_self, placed, hcalls, List.getElem?_set_self hlength, Option.bind_some]
  · rw [Function.update_of_ne hj, placed, placed, hcalls, List.getElem?_set_ne (Ne.symm hj),
      hpositions j hj]

theorem placed_of_getElem? {i : ℕ} {call : Call α} (hi : s.calls[i]? = some call) :
    s.placed i = placedBy (s.taskQueue.positions (.call i)) call := by
  rw [placed, hi, Option.bind_some]

/-- A step of a call that hands nothing over. -/
theorem placed_setCall_same {i : ℕ} {call call' : Call α} (hi : s.calls[i]? = some call)
    (hcalls : t.calls = s.calls.set i call')
    (hpositions : ∀ j ≠ i, t.taskQueue.positions (.call j) = s.taskQueue.positions (.call j))
    (hplaced : placedBy (t.taskQueue.positions (.call i)) call' =
      placedBy (s.taskQueue.positions (.call i)) call) : t.placed = s.placed := by
  rw [placed_setCall hi hcalls hpositions, hplaced, ← placed_of_getElem? hi,
    Function.update_eq_self]

/-! ## Tasks in custody -/

def Thread.isStop : Thread → Bool
  | .stop _ => true
  | .worker _ | .call _ => false

/-- What the workers have in `task_`. -/
def slots (s : ThreadPool α) : List (Submission α) :=
  (List.range s.workers.length).filterMap fun w => s.taskQueue.outputs (.worker w)

/-- What the calls of `shutdown` have taken from the queue. -/
def removed (s : ThreadPool α) : List (Submission α) :=
  (s.taskQueue.taken.filter (·.1.isStop)).map Prod.snd

def held (s : ThreadPool α) : List (Submission α) :=
  s.slots ++ s.taskQueue.queue ++ s.finished ++ s.removed

structure Custody (s : ThreadPool α) : Prop where
  nodup : (s.held.map Submission.call).Nodup
  placed : ∀ sub, sub ∈ s.held ↔ s.placed sub.call = some sub.task

theorem Custody.of_perm (hs : Custody s) (hheld : t.held.Perm s.held) (hplaced : t.placed = s.placed) :
    Custody t := by
  constructor
  · exact (hheld.map Submission.call).nodup_iff.mpr hs.nodup
  · intro sub
    rw [hheld.mem_iff, hplaced]
    exact hs.placed sub

/-- A call hands its task over. -/
theorem Custody.place (hs : Custody s) {sub : Submission α} (hheld : t.held.Perm (sub :: s.held))
    (hnew : s.placed sub.call = none)
    (hplaced : t.placed = Function.update s.placed sub.call (some sub.task)) : Custody t := by
  constructor
  · refine (hheld.map Submission.call).nodup_iff.mpr (List.nodup_cons.mpr ⟨?_, hs.nodup⟩)
    intro hmem
    obtain ⟨other, hother, hcall⟩ := List.mem_map.mp hmem
    have hplaced := (hs.placed other).mp hother
    rw [hcall, hnew] at hplaced
    cases hplaced
  · intro other
    rw [hheld.mem_iff, List.mem_cons, hs.placed, hplaced]
    by_cases hcall : other.call = sub.call
    · rw [hcall, Function.update_self, hnew]
      constructor
      · rintro (rfl | hnone)
        · rfl
        · cases hnone
      · intro htask
        left
        cases other
        cases sub
        cases hcall
        cases htask
        rfl
    · rw [Function.update_of_ne hcall]
      constructor
      · rintro (rfl | hold)
        · exact absurd rfl hcall
        · exact hold
      · exact Or.inr

/-! ## Empty slots -/

/-- The worker has no task, where `position` is its place in the queue. -/
def Worker.isIdle (position : Position (Submission α)) (worker : Worker) : Bool :=
  match worker.phase with
  | .ready | .executing => false
  | .taking => !position.hasTaken
  | .looping | .releasing | .erased | .exited => true

def Vacant (s : ThreadPool α) : Prop :=
  ∀ (w : ℕ) (worker : Worker), s.workers[w]? = some worker →
    worker.isIdle (s.taskQueue.positions (.worker w)) = true →
    s.taskQueue.outputs (.worker w) = none

theorem Vacant.of_same (hs : Vacant s) (hworkers : t.workers = s.workers)
    (hpositions : ∀ w, t.taskQueue.positions (.worker w) = s.taskQueue.positions (.worker w))
    (houtputs : ∀ w, t.taskQueue.outputs (.worker w) = s.taskQueue.outputs (.worker w)) :
    Vacant t := by
  intro w worker hw hidle
  rw [hworkers] at hw
  rw [hpositions] at hidle
  rw [houtputs]
  exact hs w worker hw hidle

theorem Vacant.setWorker (hs : Vacant s) {w : ℕ} {worker' : Worker}
    (hworkers : t.workers = s.workers.set w worker')
    (hother : ∀ v ≠ w, t.taskQueue.positions (.worker v) = s.taskQueue.positions (.worker v) ∧
      t.taskQueue.outputs (.worker v) = s.taskQueue.outputs (.worker v))
    (hself : worker'.isIdle (t.taskQueue.positions (.worker w)) = true →
      t.taskQueue.outputs (.worker w) = none) : Vacant t := by
  intro v worker hv hidle
  rw [hworkers] at hv
  obtain ⟨rfl, rfl⟩ | ⟨hne, hv⟩ := getElem?_set_cases hv
  · exact hself hidle
  · obtain ⟨hposition, houtput⟩ := hother v hne
    rw [hposition] at hidle
    rw [houtput]
    exact hs v worker hv hidle

theorem Vacant.workerStep (hs : Vacant s) {w : ℕ} {worker : Worker}
    (hw : s.workers[w]? = some worker) (h : WorkerStep w worker s t) : Vacant t := by
  have hself := hs w worker hw
  have hthread : ∀ {v : ℕ}, v ≠ w → Thread.worker v ≠ .worker w := by
    intro v hne heq
    exact hne (Thread.worker.inj heq)
  rw [Worker.isIdle] at hself
  cases h with
  | start => exact hs.setWorker rfl (fun _ _ => ⟨rfl, rfl⟩) nofun
  | skip hphase houtput => exact hs.setWorker rfl (fun _ _ => ⟨rfl, rfl⟩) fun _ => houtput
  | finish hphase =>
      refine hs.setWorker rfl (fun v hne => ⟨rfl, ?_⟩) fun _ => ?_
      · exact Function.update_of_ne (hthread hne) ..
      · exact Function.update_self ..
  | enter hphase =>
      rw [hphase] at hself
      refine hs.setWorker rfl (fun v hne => ⟨?_, rfl⟩) fun _ => hself rfl
      exact setPosition_of_ne (hthread hne) ..
  | quit hphase | erase hphase | vanish hphase | decrement hphase =>
      rw [hphase] at hself
      exact hs.setWorker rfl (fun _ _ => ⟨rfl, rfl⟩) fun _ => hself rfl
  | leave r result hphase hposition =>
      rw [hphase, hposition] at hself
      refine hs.setWorker rfl (fun v hne => ⟨?_, rfl⟩) fun hidle => ?_
      · exact setPosition_of_ne (hthread hne) ..
      · cases result with
        | false => exact hself rfl
        | true =>
            rw [Bool.or_true] at hidle
            cases hidle

theorem isIdle_congr {position position' : Position (Submission α)}
    (h : position'.hasTaken = position.hasTaken) (worker : Worker) :
    worker.isIdle position' = worker.isIdle position := by
  rw [Worker.isIdle, Worker.isIdle, h]

/-- A worker that has not taken yet is idle wherever it would be idle otherwise. -/
theorem isIdle_of_hasTaken {position position' : Position (Submission α)}
    (h : position.hasTaken = false) {worker : Worker} (hidle : worker.isIdle position' = true) :
    worker.isIdle position = true := by
  rw [Worker.isIdle] at hidle ⊢
  rw [h]
  cases hphase : worker.phase with
  | ready | executing =>
      rw [hphase] at hidle
      cases hidle
  | looping | taking | releasing | erased | exited => rfl

theorem Vacant.queueStep (hs : Vacant s) (hattended : Attended s) {thread : Thread}
    {q : BoundedBlockingQueue Thread (Submission α)} (h : Effect thread s.taskQueue q) :
    Vacant (s.setTaskQueue q) := by
  intro w worker hw hidle
  change worker.isIdle (q.positions (.worker w)) = true at hidle
  change q.outputs (.worker w) = none
  by_cases hne : Thread.worker w = thread
  · subst hne
    have hself := hs w worker hw
    cases h with
    | same position helements hpositions hput hhasTaken =>
        rw [hpositions, Function.update_self, isIdle_congr hhasTaken] at hidle
        rw [helements.outputs]
        exact hself hidle
    | push r el hposition hel hpositions hqueue hpushed htaken houtputs =>
        rw [hposition] at hself
        rw [houtputs]
        exact hself (isIdle_of_hasTaken rfl hidle)
    | empty r hposition hel hqueue helements hpositions =>
        rw [hposition] at hself
        rw [helements.outputs]
        exact hself (isIdle_of_hasTaken rfl hidle)
    | pop r el hposition hel hpositions =>
        have hflight : s.inFlight (.worker w) = some r := by
          apply hattended.inFlight_eq
          rw [hposition]
          rfl
        obtain ⟨v, vorker, hv, hvorker, hphase, -⟩ | ⟨i, hi, -⟩ := inFlight_take hflight hel
        · cases hv
          obtain rfl : worker = vorker := Option.some.inj (hw.symm.trans hvorker)
          rw [hpositions, Function.update_self, Worker.isIdle, hphase, Position.hasTaken, hel] at hidle
          cases hidle
        · cases hi
  · obtain ⟨hposition, houtput⟩ := h.frame hne
    rw [hposition] at hidle
    rw [houtput]
    exact hs w worker hw hidle

/-- A step of a call, or of a shutdown, inside the queue or outside. -/
theorem worker_frame (q : BoundedBlockingQueue Thread (Submission α)) (thread : Thread)
    (hthread : ∀ w, thread ≠ .worker w) (position : Position (Submission α)) (w : ℕ) :
    (q.setPosition thread position).positions (.worker w) = q.positions (.worker w) :=
  setPosition_of_ne (Ne.symm (hthread w)) ..

theorem Vacant.callStep (hs : Vacant s) {i : ℕ} {created : Bool} {call : Call α}
    (h : CallStep i created s call t) : Vacant t := by
  cases h with
  | refuse | addCore | addOther | fail | compare | increment | retry | lockRunning | lockStopped
  | throwOut | emplace | retreat | finish => exact hs
  | push | leave => exact hs.of_same rfl (worker_frame _ (.call i) nofun _) fun _ => rfl
  | construct task isCore hcreated =>
      intro w worker hw hidle
      obtain hw | ⟨rfl, rfl⟩ := getElem?_append_cases hw
      · have hlength := (List.getElem?_eq_some_iff.mp hw).1
        have hne : Thread.worker w ≠ .worker s.workers.length := by
          intro heq
          exact absurd (Thread.worker.inj heq) (Nat.ne_of_lt hlength)
        exact (Function.update_of_ne hne ..).trans (hs w worker hw hidle)
      · cases hidle

theorem Vacant.stopStep (hs : Vacant s) {i : ℕ} {stop : Stop} (h : StopStep i s stop t) :
    Vacant t := by
  cases h with
  | refuse | check | load | switch | retry | notifyFull | notifyEmpty | awake | drained => exact hs
  | pop | leave => exact hs.of_same rfl (worker_frame _ (.stop i) nofun _) fun _ => rfl

theorem vacant_of_reachable {ok : ThreadPool α → Action α → Prop}
    (hs : (system α).ReachableUnder ok s) : Vacant s := by
  have hpreserved : Preserved ok fun s => Attended s ∧ Vacant s := by
    have hattended := attended_preserved ok
    constructor
    · exact fun s task hs hok => ⟨hattended.execute s task hs.1 hok, hs.2⟩
    · exact fun s hs hok => ⟨hattended.shutdown s hs.1 hok, hs.2⟩
    · exact fun s w worker t hs hok hw h =>
        ⟨hattended.worker s w worker t hs.1 hok hw h, hs.2.workerStep hw h⟩
    · exact fun s i created call t hs hok hi h =>
        ⟨hattended.call s i created call t hs.1 hok hi h, hs.2.callStep h⟩
    · exact fun s i stop t hs hok hi h => ⟨hattended.stop s i stop t hs.1 hok hi h, hs.2.stopStep h⟩
    · exact fun s thread woken q hs hok h => ⟨hattended.queue s thread woken q hs.1 hok h,
        hs.2.queueStep hs.1 (step_of_advance h).effect⟩
    · intro s thread q hs h
      obtain ⟨hsame, hpositions, -⟩ := wakeUp_same h
      exact ⟨hattended.wakeUp s thread q hs.1 h,
        hs.2.of_same rfl (fun w => congrFun hpositions _) fun w => congrFun hsame.outputs _⟩
    · exact fun s thread q hs h =>
        ⟨hattended.expire s thread q hs.1 h, hs.2.queueStep hs.1 (effect_expire h)⟩
  refine (hpreserved.reachable ?_ hs).2
  intro _ _ _ s hcreate
  have hcreated := created_of_create hcreate
  refine ⟨hcreated.attended, fun w worker hw => ?_⟩
  rw [hcreated.workers] at hw
  cases hw

/-! ## Steps that move a task, and steps that do not -/

theorem count_held [DecidableEq α] (sub : Submission α) (s : ThreadPool α) :
    s.held.count sub = s.slots.count sub + s.taskQueue.queue.count sub + s.finished.count sub +
      s.removed.count sub := by
  rw [held, List.count_append, List.count_append, List.count_append]

theorem held_eq (hlength : t.workers.length = s.workers.length)
    (houtputs : ∀ w, t.taskQueue.outputs (.worker w) = s.taskQueue.outputs (.worker w))
    (hqueue : t.taskQueue.queue = s.taskQueue.queue) (hfinished : t.finished = s.finished)
    (htaken : t.taskQueue.taken = s.taskQueue.taken) : t.held = s.held := by
  rw [held, held, slots, slots, removed, removed, hlength, hqueue, hfinished, htaken,
    filterMap_range_congr fun w _ => houtputs w]

/-- A worker comes to hold a task. -/
theorem slots_insert {w : ℕ} {sub : Submission α} (hw : w < s.workers.length)
    (hlength : t.workers.length = s.workers.length)
    (hbefore : s.taskQueue.outputs (.worker w) = none)
    (hafter : t.taskQueue.outputs (.worker w) = some sub)
    (hother : ∀ v ≠ w, t.taskQueue.outputs (.worker v) = s.taskQueue.outputs (.worker v)) :
    t.slots.Perm (sub :: s.slots) := by
  rw [slots, slots, hlength]
  exact filterMap_range_insert hw hbefore hafter hother

/-- The other workers keep their tasks. -/
theorem worker_outputs_of_ne (q : BoundedBlockingQueue Thread (Submission α)) {v w : ℕ}
    (hne : v ≠ w) (output : Option (Submission α)) :
    (q.setOutput (.worker w) output).outputs (.worker v) = q.outputs (.worker v) :=
  Function.update_of_ne (fun heq => hne (Thread.worker.inj heq)) ..

theorem held_finishTask {w : ℕ} {worker' : Worker} (hw : w < s.workers.length) :
    ((s.finishTask w).setWorker w worker').held.Perm s.held := by
  let t := (s.finishTask w).setWorker w worker'
  have hlength : t.workers.length = s.workers.length := List.length_set ..
  have hself : t.taskQueue.outputs (.worker w) = none := Function.update_self ..
  have hother : ∀ v ≠ w, t.taskQueue.outputs (.worker v) = s.taskQueue.outputs (.worker v) :=
    fun v hne => worker_outputs_of_ne s.taskQueue hne none
  have hfinished : t.finished = s.finished ++ (s.taskQueue.outputs (.worker w)).toList := rfl
  cases houtput : s.taskQueue.outputs (.worker w) with
  | none =>
      refine List.Perm.of_eq (held_eq hlength (fun v => ?_) rfl ?_ rfl)
      · by_cases hne : v = w
        · rw [hne, houtput]
          exact hself
        · exact hother v hne
      · rw [hfinished, houtput, Option.toList_none, List.append_nil]
  | some sub =>
      have hslots : s.slots.Perm (sub :: t.slots) :=
        slots_insert (hlength.symm ▸ hw) hlength.symm hself houtput fun v hne => (hother v hne).symm
      classical
      rw [List.perm_iff_count]
      intro other
      have hcount := hslots.count_eq other
      rw [List.count_cons] at hcount
      change t.held.count other = s.held.count other
      rw [count_held, count_held, hfinished, houtput, Option.toList_some, List.count_append,
        List.count_singleton]
      change t.slots.count other + s.taskQueue.queue.count other + _ + s.removed.count other = _
      omega

theorem held_workerStep {w : ℕ} {worker : Worker} (hw : s.workers[w]? = some worker)
    (h : WorkerStep w worker s t) : t.held.Perm s.held := by
  cases h with
  | start | skip | enter | quit | leave | erase | vanish | decrement =>
      exact List.Perm.of_eq (held_eq (List.length_set ..) (fun _ => rfl) rfl rfl rfl)
  | finish hphase => exact held_finishTask (List.getElem?_eq_some_iff.mp hw).1

/-- A new worker is created with its first task. -/
theorem held_startWorker (isCore : Bool) (sub : Submission α) (s : ThreadPool α) :
    (s.startWorker isCore sub).held.Perm (sub :: s.held) := by
  have hslots : (s.startWorker isCore sub).slots = s.slots ++ [sub] := by
    have hlength : (s.startWorker isCore sub).workers.length = s.workers.length + 1 :=
      List.length_append ..
    have hself : (s.startWorker isCore sub).taskQueue.outputs (.worker s.workers.length) =
        some sub := Function.update_self ..
    have hother : ∀ w < s.workers.length, (s.startWorker isCore sub).taskQueue.outputs
        (.worker w) = s.taskQueue.outputs (.worker w) :=
      fun w hw => worker_outputs_of_ne s.taskQueue (Nat.ne_of_lt hw) (some sub)
    rw [slots, hlength, List.range_succ, List.filterMap_append, filterMap_range_congr hother,
      filterMap_singleton, hself]
    rfl
  classical
  rw [List.perm_iff_count]
  intro other
  rw [List.count_cons, count_held, count_held, hslots, List.count_append, List.count_singleton]
  change _ + s.taskQueue.queue.count other + s.finished.count other + s.removed.count other = _
  omega

/-- A task goes from the queue to a worker, or is removed. -/
theorem held_pop (hattended : Attended s) (hvacant : Vacant s) {thread : Thread}
    {q : BoundedBlockingQueue Thread (Submission α)} {r : Request (Submission α)}
    {el : Submission α} (hposition : s.taskQueue.positions thread = .passed r) (hel : r.el = none)
    (hqueue : s.taskQueue.queue = el :: q.queue)
    (htaken : q.taken = s.taskQueue.taken ++ [(thread, el)])
    (houtputs : q.outputs = Function.update s.taskQueue.outputs thread (some el)) :
    (s.setTaskQueue q).held.Perm s.held := by
  have hflight : s.inFlight thread = some r := by
    apply hattended.inFlight_eq
    rw [hposition]
    rfl
  classical
  rw [List.perm_iff_count]
  intro other
  rw [count_held, count_held, hqueue, List.count_cons]
  change _ + q.queue.count other + s.finished.count other + _ = _
  obtain ⟨w, worker, rfl, hw, hphase, -⟩ | ⟨i, rfl, -⟩ := inFlight_take hflight hel
  · have hidle : worker.isIdle (s.taskQueue.positions (.worker w)) = true := by
      rw [Worker.isIdle, hphase, hposition]
      rfl
    have hself : q.outputs (.worker w) = some el := by rw [houtputs, Function.update_self]
    have hother : ∀ v ≠ w, q.outputs (.worker v) = s.taskQueue.outputs (.worker v) := by
      intro v hne
      rw [houtputs]
      exact worker_outputs_of_ne s.taskQueue hne _
    have hslots : (s.setTaskQueue q).slots.Perm (el :: s.slots) :=
      slots_insert (t := s.setTaskQueue q) (List.getElem?_eq_some_iff.mp hw).1 rfl
        (hvacant w worker hw hidle) hself hother
    have hremoved : (s.setTaskQueue q).removed = s.removed := by
      change (q.taken.filter _).map _ = _
      rw [htaken, List.filter_append]
      exact congrArg _ (List.append_nil _)
    have hcount := hslots.count_eq other
    rw [List.count_cons] at hcount
    rw [hremoved]
    omega
  · have hslots : (s.setTaskQueue q).slots = s.slots := by
      apply filterMap_range_congr
      intro w _
      have hne : Thread.worker w ≠ .stop i := nofun
      change q.outputs (.worker w) = _
      rw [houtputs, Function.update_of_ne hne]
    have hremoved : (s.setTaskQueue q).removed = s.removed ++ [el] := by
      change (q.taken.filter _).map _ = _
      rw [htaken, List.filter_append, List.map_append]
      rfl
    rw [hslots, hremoved, List.count_append, List.count_singleton]
    omega

/-! ## The invariant -/

theorem Custody.queueStep (hs : Custody s) (hattended : Attended s) (hvacant : Vacant s)
    {thread : Thread} {q : BoundedBlockingQueue Thread (Submission α)}
    (h : Effect thread s.taskQueue q) : Custody (s.setTaskQueue q) := by
  have hput : ∀ {position}, q.positions = Function.update s.taskQueue.positions thread position →
      position.put = (s.taskQueue.positions thread).put →
      (s.setTaskQueue q).placed = s.placed := by
    intro position hpositions hput
    refine placed_of_put rfl fun i => ?_
    change (q.positions (.call i)).put = _
    rw [hpositions]
    by_cases hne : Thread.call i = thread
    · rw [hne, Function.update_self, hput]
    · rw [Function.update_of_ne hne]
  cases h with
  | same position helements hpositions hsame =>
      refine hs.of_perm (List.Perm.of_eq ?_) (hput hpositions hsame)
      exact held_eq rfl (fun w => congrFun helements.outputs _) helements.queue rfl helements.taken
  | empty r hposition hel hqueue helements hpositions =>
      refine hs.of_perm (List.Perm.of_eq ?_) (hput hpositions ?_)
      · exact held_eq rfl (fun w => congrFun helements.outputs _) helements.queue rfl
          helements.taken
      · rw [hposition]
        rfl
  | pop r el hposition hel hpositions hqueue hpushed htaken houtputs =>
      refine hs.of_perm (held_pop hattended hvacant hposition hel hqueue htaken houtputs) ?_
      apply hput hpositions
      rw [hposition]
      exact hel
  | push r el hposition hel hpositions hqueue hpushed htaken houtputs =>
      have hflight : s.inFlight thread = some r := by
        apply hattended.inFlight_eq
        rw [hposition]
        rfl
      obtain ⟨i, rfl, hi, hcall⟩ := inFlight_put hflight hel
      subst hcall
      have hheld : (s.setTaskQueue q).held.Perm (el :: s.held) := by
        classical
        rw [List.perm_iff_count]
        intro other
        have hslots : (s.setTaskQueue q).slots = s.slots :=
          filterMap_range_congr fun w _ => congrFun houtputs _
        have hremoved : (s.setTaskQueue q).removed = s.removed := by
          change (q.taken.filter _).map _ = _
          rw [htaken]
          rfl
        rw [List.count_cons, count_held, count_held, hslots, hremoved]
        change _ + q.queue.count other + s.finished.count other + _ = _
        rw [hqueue, List.count_append, List.count_singleton]
        omega
      refine hs.place hheld ?_ ?_
      · rw [placed_of_getElem? hi, hposition]
        rfl
      · funext j
        by_cases hj : j = el.call
        · rw [hj, Function.update_self]
          have hnotifying : q.positions (.call el.call) = .notifying r := by
            rw [hpositions, Function.update_self]
          rw [placed_of_getElem? (s := s.setTaskQueue q) hi]
          change placedBy (q.positions _) _ = _
          rw [hnotifying, placedBy, Position.put, hel]
          rfl
        · have hne : Thread.call j ≠ .call el.call := fun heq => hj (Thread.call.inj heq)
          rw [Function.update_of_ne hj, ThreadPool.placed, ThreadPool.placed]
          change s.calls[j]?.bind (placedBy (q.positions (.call j))) = _
          rw [hpositions, Function.update_of_ne hne]

theorem held_callStep {i : ℕ} {created : Bool} {call : Call α} (h : CallStep i created s call t)
    (hcreated : ∀ task isCore, call = .constructing task isCore → created = false) :
    t.held = s.held := by
  cases h with
  | refuse | addCore | addOther | fail | compare | increment | retry | lockRunning | lockStopped
  | throwOut | emplace | retreat | finish | push | leave =>
      exact held_eq rfl (fun _ => rfl) rfl rfl rfl
  | construct task isCore htrue =>
      rw [hcreated task isCore rfl] at htrue
      cases htrue

/-- The steps of a call that hand nothing over, or come after it. -/
theorem placed_callStep (hattended : Attended s) {i : ℕ} {created : Bool} {call : Call α}
    (hi : s.calls[i]? = some call) (h : CallStep i created s call t)
    (hcreated : ∀ task isCore, call = .constructing task isCore → created = false) :
    t.placed = s.placed := by
  have hother : ∀ position, ∀ j ≠ i,
      (s.taskQueue.setPosition (.call i) position).positions (.call j) =
        s.taskQueue.positions (.call j) := by
    intro position j hj
    exact setPosition_of_ne (fun heq => hj (Thread.call.inj heq)) ..
  cases h with
  | refuse | addCore | compare | increment | retry | lockRunning | lockStopped | throwOut | emplace
  | finish => exact placed_setCall_same hi rfl (fun _ _ => rfl) rfl
  | fail task isCore =>
      exact placed_setCall_same hi rfl (fun _ _ => rfl) (placedBy_notAdded _ task isCore)
  | retreat task isCore =>
      exact placed_setCall_same hi rfl (fun _ _ => rfl) (placedBy_notAdded _ task isCore)
  | addOther task call hloads =>
      cases hloads with
      | first | again => exact placed_setCall_same hi rfl (fun _ _ => rfl) rfl
  | construct task isCore htrue =>
      rw [hcreated task isCore rfl] at htrue
      cases htrue
  | push task call hloads =>
      let r : Request (Submission α) := BoundedBlockingQueue.tryPush ⟨i, task⟩
      have hlocking : (s.taskQueue.enter r (.call i)).positions (.call i) = .locking r :=
        setPosition_self ..
      refine placed_setCall_same hi rfl (hother (.locking r)) ?_
      change placedBy ((s.taskQueue.enter r (.call i)).positions (.call i)) _ = _
      rw [hlocking]
      cases hloads with
      | first | again => rfl
  | leave task r result hposition =>
      have hr : r = BoundedBlockingQueue.tryPush ⟨i, task⟩ := by
        have hrequest : s.inFlight (.call i) = some r := by
          apply hattended.inFlight_eq
          rw [hposition]
          rfl
        have hpushing : s.inFlight (.call i) = some (BoundedBlockingQueue.tryPush ⟨i, task⟩) := by
          rw [inFlight, hi]
          rfl
        exact Option.some.inj (hrequest.symm.trans hpushing)
      subst hr
      refine placed_setCall_same hi rfl (hother .outside) ?_
      rw [hposition]
      cases result with
      | true | false => rfl

theorem Custody.callStep (hs : Custody s) (hattended : Attended s) {i : ℕ} {created : Bool}
    {call : Call α} (hi : s.calls[i]? = some call) (h : CallStep i created s call t) :
    Custody t := by
  by_cases hcreated : ∀ task isCore, call = .constructing task isCore → created = false
  · exact hs.of_perm (List.Perm.of_eq (held_callStep h hcreated))
      (placed_callStep hattended hi h hcreated)
  · push Not at hcreated
    obtain ⟨task, isCore, rfl, hcreated⟩ := hcreated
    cases h with
    | construct =>
        have hplaced := placed_setCall (t := (s.startWorker isCore ⟨i, task⟩).setCall i
          (.emplacing task isCore s.workers.length)) hi rfl (fun _ _ => rfl)
        refine hs.place (held_startWorker isCore ⟨i, task⟩ s) ?_ hplaced
        rw [placed_of_getElem? hi]
        rfl
    | throwOut task isCore hfalse => exact absurd hfalse hcreated
    | push task call hloads | addOther task call hloads => cases hloads

theorem Custody.step (hs : Custody s) (hattended : Attended s) (hvacant : Vacant s)
    {action : Action α} (h : s.step action = some t) : Custody t := by
  cases action with
  | execute task =>
      obtain rfl := Option.some.inj h
      refine hs.of_perm (List.Perm.refl _) ?_
      funext i
      exact bind_getElem?_append (f := placedBy (s.taskQueue.positions (.call i))) rfl i
  | shutdown =>
      obtain rfl := Option.some.inj h
      exact hs.of_perm (List.Perm.refl _) rfl
  | worker w =>
      obtain ⟨worker, hw, hstep⟩ := Option.bind_eq_some_iff.mp h
      have hstep := workerStep_of_stepWorker hstep
      refine hs.of_perm (held_workerStep hw hstep) ?_
      cases hstep with
      | start | skip | finish | quit | erase | vanish | decrement => exact placed_of_eq rfl fun _ => rfl
      | enter | leave =>
          refine placed_of_eq rfl fun i => ?_
          have hne : Thread.call i ≠ .worker w := nofun
          exact setPosition_of_ne hne ..
  | call i created =>
      obtain ⟨call, hi, hstep⟩ := Option.bind_eq_some_iff.mp h
      exact hs.callStep hattended hi (callStep_of_stepCall hstep)
  | stop i =>
      obtain ⟨stop, -, hstep⟩ := Option.bind_eq_some_iff.mp h
      cases stopStep_of_stepStop hstep with
      | refuse | check | load | switch | retry | notifyFull | notifyEmpty | awake | drained =>
          exact hs.of_perm (List.Perm.refl _) (placed_of_eq rfl fun _ => rfl)
      | pop | leave =>
          refine hs.of_perm (List.Perm.refl _) (placed_of_eq rfl fun j => ?_)
          have hne : Thread.call j ≠ .stop i := nofun
          exact setPosition_of_ne hne ..
  | queue thread woken =>
      obtain ⟨q, hq, rfl⟩ := Option.map_eq_some_iff.mp h
      exact hs.queueStep hattended hvacant (step_of_advance hq).effect
  | wakeUp thread =>
      obtain ⟨q, hq, rfl⟩ := Option.map_eq_some_iff.mp h
      obtain ⟨hsame, hpositions, -⟩ := wakeUp_same hq
      refine hs.of_perm (List.Perm.of_eq ?_) (placed_of_eq rfl fun i => congrFun hpositions _)
      exact held_eq rfl (fun w => congrFun hsame.outputs _) hsame.queue rfl hsame.taken
  | expire thread =>
      obtain ⟨q, hq, rfl⟩ := Option.map_eq_some_iff.mp h
      exact hs.queueStep hattended hvacant (effect_expire hq)

theorem custody_of_reachable (hs : (system α).Reachable s) : Custody s := by
  induction hs with
  | initial hs =>
      obtain ⟨corePoolSize, maximumPoolSize, maxQueueSize, hs⟩ := hs
      have hcreated := created_of_create hs
      have hheld : ∀ {s : ThreadPool α}, Created s → s.held = [] := by
        intro s hs
        rw [held, slots, removed, hs.workers, hs.taskQueue, hs.finished]
        rfl
      constructor
      · rw [hheld hcreated]
        exact List.nodup_nil
      · intro sub
        rw [hheld hcreated, ThreadPool.placed, hcreated.calls]
        exact ⟨nofun, nofun⟩
  | step hs _ ht ih =>
      exact ih.step (attended_of_reachable hs) (vacant_of_reachable hs) ht

/-! ## Tasks that have been started -/

/-- The task a worker has called. -/
def runningTask (s : ThreadPool α) (w : ℕ) : Option (Submission α) :=
  if s.workers[w]?.map Worker.phase = some .executing then s.taskQueue.outputs (.worker w) else none

def running (s : ThreadPool α) : List (Submission α) :=
  (List.range s.workers.length).filterMap s.runningTask

/-- The tasks that workers have called are those that are running and those that have returned. -/
def Performed (s : ThreadPool α) : Prop := s.started.Perm (s.running ++ s.finished)

theorem running_sublist_slots (s : ThreadPool α) : s.running.Sublist s.slots := by
  apply filterMap_sublist
  intro w sub hrunning
  rw [runningTask] at hrunning
  split at hrunning
  · exact hrunning
  · cases hrunning

theorem Performed.of_same (hs : Performed s) (hlength : t.workers.length = s.workers.length)
    (hrunning : ∀ w, t.runningTask w = s.runningTask w) (hstarted : t.started = s.started)
    (hfinished : t.finished = s.finished) : Performed t := by
  rw [Performed, running, hlength, hstarted, hfinished, filterMap_range_congr fun w _ => hrunning w]
  exact hs

theorem runningTask_setWorker_of_ne {v w : ℕ} (hne : v ≠ w) {worker' : Worker}
    (hworkers : t.workers = s.workers.set w worker')
    (houtput : t.taskQueue.outputs (.worker v) = s.taskQueue.outputs (.worker v)) :
    t.runningTask v = s.runningTask v := by
  rw [runningTask, runningTask, hworkers, List.getElem?_set_ne (Ne.symm hne), houtput]

theorem runningTask_setWorker {w : ℕ} {worker worker' : Worker} (hw : s.workers[w]? = some worker)
    (hworkers : t.workers = s.workers.set w worker') :
    t.runningTask w =
      if worker'.phase = .executing then t.taskQueue.outputs (.worker w) else none := by
  rw [runningTask, hworkers, List.getElem?_set_self (List.getElem?_eq_some_iff.mp hw).1]
  simp

theorem runningTask_of_getElem? {w : ℕ} {worker : Worker} (hw : s.workers[w]? = some worker) :
    s.runningTask w =
      if worker.phase = .executing then s.taskQueue.outputs (.worker w) else none := by
  rw [runningTask, hw]
  simp

/-- A worker that does not run a task before its step and after it. -/
theorem Performed.setWorker (hs : Performed s) {w : ℕ} {worker worker' : Worker}
    (hw : s.workers[w]? = some worker) (hworkers : t.workers = s.workers.set w worker')
    (houtputs : t.taskQueue.outputs = s.taskQueue.outputs) (hbefore : worker.phase ≠ .executing)
    (hafter : worker'.phase ≠ .executing) (hstarted : t.started = s.started)
    (hfinished : t.finished = s.finished) : Performed t := by
  refine hs.of_same (by rw [hworkers, List.length_set]) (fun v => ?_) hstarted hfinished
  by_cases hne : v = w
  · rw [hne, runningTask_setWorker hw hworkers, runningTask_of_getElem? hw, if_neg hafter,
      if_neg hbefore]
  · exact runningTask_setWorker_of_ne hne hworkers (congrFun houtputs _)

theorem Performed.workerStep (hs : Performed s) {w : ℕ} {worker : Worker}
    (hw : s.workers[w]? = some worker) (h : WorkerStep w worker s t) : Performed t := by
  have hlength := (List.getElem?_eq_some_iff.mp hw).1
  cases h with
  | skip hphase | enter hphase | quit hphase | erase hphase | vanish hphase | decrement hphase =>
      refine hs.setWorker hw rfl rfl ?_ nofun rfl rfl
      rw [hphase]
      exact nofun
  | leave r result hphase =>
      refine hs.setWorker hw rfl rfl ?_ ?_ rfl rfl
      · rw [hphase]
        exact nofun
      · cases worker.isCoreThread || result with
        | true | false => exact nofun
  | start sub hphase houtput =>
      let t := (s.startTask sub).setWorker w { worker with phase := .executing }
      have hrunning : t.running.Perm (sub :: s.running) := by
        have hcount : t.workers.length = s.workers.length := List.length_set ..
        rw [running, running, hcount]
        apply filterMap_range_insert hlength
        · rw [runningTask_of_getElem? hw, hphase]
          rfl
        · rw [runningTask_setWorker hw rfl]
          exact houtput
        · intro v hne
          exact runningTask_setWorker_of_ne hne rfl rfl
      have hperm : (s.started ++ [sub]).Perm (sub :: (s.running ++ s.finished)) :=
        (List.perm_append_singleton sub s.started).trans (hs.cons sub)
      exact hperm.trans (hrunning.append_right s.finished).symm
  | finish hphase =>
      let t := (s.finishTask w).setWorker w { worker with phase := .looping }
      have hcount : t.workers.length = s.workers.length := List.length_set ..
      have hbefore : s.runningTask w = s.taskQueue.outputs (.worker w) := by
        rw [runningTask_of_getElem? hw, if_pos hphase]
      have hafter : t.runningTask w = none := by
        rw [runningTask_setWorker hw rfl]
        rfl
      have hother : ∀ v ≠ w, t.runningTask v = s.runningTask v := by
        intro v hne
        exact runningTask_setWorker_of_ne hne rfl (worker_outputs_of_ne s.taskQueue hne none)
      have hfinished : t.finished = s.finished ++ (s.taskQueue.outputs (.worker w)).toList := rfl
      cases houtput : s.taskQueue.outputs (.worker w) with
      | none =>
          refine hs.of_same hcount (fun v => ?_) rfl ?_
          · by_cases hne : v = w
            · rw [hne, hbefore, houtput]
              exact hafter
            · exact hother v hne
          · rw [hfinished, houtput, Option.toList_none, List.append_nil]
      | some sub =>
          rw [houtput] at hbefore
          have hrunning : s.running.Perm (sub :: t.running) := by
            rw [running, running, hcount]
            exact filterMap_range_insert hlength hafter hbefore fun v hne => (hother v hne).symm
          have hperm : (sub :: (t.running ++ s.finished)).Perm
              (t.running ++ (s.finished ++ [sub])) := by
            rw [← List.append_assoc]
            exact (List.perm_append_singleton sub _).symm
          change s.started.Perm (t.running ++ t.finished)
          rw [hfinished, houtput]
          exact (hs.trans (hrunning.append_right s.finished)).trans hperm

/-- No worker that takes or is created runs a task before its next step. -/
theorem Performed.queueStep (hs : Performed s) (hattended : Attended s) {thread : Thread}
    {q : BoundedBlockingQueue Thread (Submission α)} (h : Effect thread s.taskQueue q) :
    Performed (s.setTaskQueue q) := by
  refine hs.of_same rfl (fun v => ?_) rfl rfl
  change (if s.workers[v]?.map Worker.phase = some .executing then q.outputs (.worker v) else none) =
    s.runningTask v
  rw [runningTask]
  cases h with
  | same position helements | empty r hposition hel hqueue helements => rw [helements.outputs]
  | push r el hposition hel hpositions hqueue hpushed htaken houtputs => rw [houtputs]
  | pop r el hposition hel hpositions hqueue hpushed htaken houtputs =>
      have hflight : s.inFlight thread = some r := by
        apply hattended.inFlight_eq
        rw [hposition]
        rfl
      obtain ⟨w, worker, rfl, hw, hphase, -⟩ | ⟨i, rfl, -⟩ := inFlight_take hflight hel
      · by_cases hne : v = w
        · have hidle : s.workers[v]?.map Worker.phase ≠ some .executing := by
            rw [hne, hw, Option.map_some, hphase]
            exact nofun
          rw [if_neg hidle, if_neg hidle]
        · rw [houtputs, Function.update_of_ne fun heq => hne (Thread.worker.inj heq)]
      · have hne : Thread.worker v ≠ .stop i := nofun
        rw [houtputs, Function.update_of_ne hne]

theorem Performed.startWorker (hs : Performed s) (isCore : Bool) (sub : Submission α) :
    Performed (s.startWorker isCore sub) := by
  let t := s.startWorker isCore sub
  have hlength : t.workers.length = s.workers.length + 1 := List.length_append ..
  have hworker : t.workers[s.workers.length]? = some ⟨isCore, .ready⟩ :=
    List.getElem?_concat_length
  have hnew : t.runningTask s.workers.length = none := by
    rw [runningTask_of_getElem? hworker]
    rfl
  have hold : ∀ w < s.workers.length, t.runningTask w = s.runningTask w := by
    intro w hw
    have hworkers : t.workers[w]? = s.workers[w]? := List.getElem?_append_left hw
    have houtput : t.taskQueue.outputs (.worker w) = s.taskQueue.outputs (.worker w) :=
      worker_outputs_of_ne s.taskQueue (Nat.ne_of_lt hw) (some sub)
    rw [runningTask, runningTask, hworkers, houtput]
  have hrunning : t.running = s.running := by
    rw [running, hlength, List.range_succ, List.filterMap_append, filterMap_range_congr hold,
      filterMap_singleton, hnew]
    exact List.append_nil _
  change s.started.Perm (t.running ++ s.finished)
  rw [hrunning]
  exact hs

theorem performed_of_reachable (hs : (system α).Reachable s) : Performed s := by
  induction hs with
  | initial hs =>
      obtain ⟨corePoolSize, maximumPoolSize, maxQueueSize, hs⟩ := hs
      have hcreated := created_of_create hs
      rw [Performed, running, hcreated.started, hcreated.workers, hcreated.finished]
      exact List.Perm.refl _
  | @step s t action hs _ ht ih =>
      have hattended := attended_of_reachable hs
      cases action with
      | execute | shutdown =>
          obtain rfl := Option.some.inj ht
          exact ih
      | worker w =>
          obtain ⟨worker, hw, hstep⟩ := Option.bind_eq_some_iff.mp ht
          exact ih.workerStep hw (workerStep_of_stepWorker hstep)
      | call i created =>
          obtain ⟨call, -, hstep⟩ := Option.bind_eq_some_iff.mp ht
          cases callStep_of_stepCall hstep with
          | construct task isCore => exact ih.startWorker isCore ⟨i, task⟩
          | refuse | addCore | push | addOther | fail | compare | increment | retry | lockRunning
          | lockStopped | throwOut | emplace | retreat | leave | finish => exact ih
      | stop i =>
          obtain ⟨stop, -, hstep⟩ := Option.bind_eq_some_iff.mp ht
          cases stopStep_of_stepStop hstep <;> exact ih
      | queue thread woken =>
          obtain ⟨q, hq, rfl⟩ := Option.map_eq_some_iff.mp ht
          exact ih.queueStep hattended (step_of_advance hq).effect
      | wakeUp thread =>
          obtain ⟨q, hq, rfl⟩ := Option.map_eq_some_iff.mp ht
          have hsame := (wakeUp_same hq).1
          refine ih.of_same rfl (fun w => ?_) rfl rfl
          have houtputs : (s.setTaskQueue q).taskQueue.outputs = s.taskQueue.outputs := hsame.outputs
          rw [runningTask, runningTask, houtputs]
          rfl
      | expire thread =>
          obtain ⟨q, hq, rfl⟩ := Option.map_eq_some_iff.mp ht
          exact ih.queueStep hattended (effect_expire hq)

/-! ## Conservation -/

theorem fifo_of_reachable (hs : (system α).Reachable s) : s.taskQueue.Fifo := by
  induction hs with
  | initial hs =>
      obtain ⟨corePoolSize, maximumPoolSize, maxQueueSize, hs⟩ := hs
      rw [(created_of_create hs).taskQueue]
      rfl
  | @step s t action hs _ ht ih =>
      cases action with
      | execute | shutdown =>
          obtain rfl := Option.some.inj ht
          exact ih
      | worker w =>
          obtain ⟨worker, -, hstep⟩ := Option.bind_eq_some_iff.mp ht
          cases workerStep_of_stepWorker hstep <;> exact ih
      | call i created =>
          obtain ⟨call, -, hstep⟩ := Option.bind_eq_some_iff.mp ht
          cases callStep_of_stepCall hstep <;> exact ih
      | stop i =>
          obtain ⟨stop, -, hstep⟩ := Option.bind_eq_some_iff.mp ht
          cases stopStep_of_stepStop hstep <;> exact ih
      | queue thread woken =>
          obtain ⟨q, hq, rfl⟩ := Option.map_eq_some_iff.mp ht
          exact ih.effect (step_of_advance hq).effect
      | wakeUp thread =>
          obtain ⟨q, hq, rfl⟩ := Option.map_eq_some_iff.mp ht
          exact ih.same (wakeUp_same hq).1
      | expire thread =>
          obtain ⟨q, hq, rfl⟩ := Option.map_eq_some_iff.mp ht
          exact ih.effect (effect_expire hq)

/-- A task that has been started is still in custody. -/
theorem started_subperm_held (hs : Performed s) : ∃ l, s.started.Perm l ∧ l.Sublist s.held := by
  refine ⟨s.running ++ s.finished, hs, ?_⟩
  have hslots : s.running.Sublist (s.slots ++ s.taskQueue.queue) :=
    (running_sublist_slots s).trans (List.sublist_append_left ..)
  exact (hslots.append (List.Sublist.refl _)).trans (List.sublist_append_left ..)

theorem countP_call_le_one {l : List (Submission α)} (h : (l.map Submission.call).Nodup) (i : ℕ) :
    l.countP (fun sub => sub.call = i) ≤ 1 := by
  have hcount := List.nodup_iff_count_le_one.mp h i
  rw [List.count, List.countP_map] at hcount
  refine Nat.le_trans (Nat.le_of_eq (List.countP_congr fun sub _ => ?_)) hcount
  simp

/-- The call has returned `false`. -/
def Call.isRejected : Call α → Bool
  | .returned _ result => !result
  | _ => false

/-- How often the promise of a call of `submit` has been satisfied: by its task, where it has been
started, and by the call itself, where `execute` has returned `false`. -/
def promised (s : ThreadPool α) (i : ℕ) : ℕ :=
  s.started.countP (fun sub => sub.call = i) + if s.calls[i]?.any Call.isRejected then 1 else 0

/-- A task that `execute` has accepted is in one place, and one that it has rejected in none. No
task is started twice, no promise satisfied twice, and the tasks are taken from the queue in the
order in which they were pushed. -/
theorem accepted_tasks_conserved (hs : (system α).Reachable s) :
    (∀ i task, s.calls[i]? = some (.returned task true) →
        ⟨i, task⟩ ∈ s.slots ++ s.taskQueue.queue ++ s.finished ++ s.removed) ∧
      (∀ i, s.slots.countP (fun sub => sub.call = i) +
          s.taskQueue.queue.countP (fun sub => sub.call = i) +
          s.finished.countP (fun sub => sub.call = i) +
          s.removed.countP (fun sub => sub.call = i) ≤ 1) ∧
      (∀ i task, s.calls[i]? = some (.returned task false) →
        ∀ sub ∈ s.held ++ s.started, sub.call ≠ i) ∧
      (s.started.map Submission.call).Nodup ∧
      (∀ i, s.promised i ≤ 1) ∧
      s.taskQueue.taken.map Prod.snd ++ s.taskQueue.queue = s.taskQueue.pushed.map Prod.snd := by
  have hcustody := custody_of_reachable hs
  obtain ⟨l, hperm, hsublist⟩ := started_subperm_held (performed_of_reachable hs)
  have hnodup : (s.started.map Submission.call).Nodup :=
    (hperm.map _).nodup_iff.mpr (hcustody.nodup.sublist (hsublist.map _))
  have hstarted : ∀ sub ∈ s.started, sub ∈ s.held := by
    intro sub hsub
    exact hsublist.subset (hperm.subset hsub)
  have hrejected : ∀ i task, s.calls[i]? = some (.returned task false) →
      ∀ sub ∈ s.held ++ s.started, sub.call ≠ i := by
    rintro i task hi sub hsub rfl
    have hheld : sub ∈ s.held := (List.mem_append.mp hsub).elim id (hstarted sub)
    have hplaced := (hcustody.placed sub).mp hheld
    rw [placed_of_getElem? hi] at hplaced
    cases hplaced
  refine ⟨?_, ?_, hrejected, hnodup, ?_, fifo_of_reachable hs⟩
  · intro i task hi
    refine (hcustody.placed ⟨i, task⟩).mpr ?_
    rw [placed_of_getElem? hi]
    rfl
  · intro i
    have hle := countP_call_le_one hcustody.nodup i
    rwa [held, List.countP_append, List.countP_append, List.countP_append] at hle
  · intro i
    rw [promised]
    split
    case isTrue hany =>
        obtain ⟨call, hi, hcall⟩ := (Option.any_eq_true ..).mp hany
        cases call with
        | returned task result =>
            obtain rfl : result = false := by simpa [Call.isRejected] using hcall
            have hzero : s.started.countP (fun sub => sub.call = i) = 0 := by
              rw [List.countP_eq_zero]
              intro sub hsub hcall
              exact hrejected i task hi sub (List.mem_append_right _ hsub) (of_decide_eq_true hcall)
            omega
        | loading | adding | comparing | creating | constructing | emplacing | retreating
        | reloading | pushing | accepted | thrown => cases hcall
    case isFalse => exact countP_call_le_one hnodup i

/-- One task runs in a new worker while the next is queued and a third is rejected. -/
theorem accepted_tasks_conserved_three : ∃ s : ThreadPool ℕ, s.started = [⟨0, 7⟩] ∧
    s.taskQueue.queue = [⟨1, 8⟩] ∧ s.calls[2]? = some (.returned 9 false) ∧
    s.promised 0 ≤ 1 := by
  obtain ⟨s, hs, hstarted, hqueue, hcall⟩ : ∃ s : ThreadPool ℕ, (system ℕ).Reachable s ∧
      s.started = [⟨0, 7⟩] ∧ s.taskQueue.queue = [⟨1, 8⟩] ∧
      s.calls[2]? = some (.returned 9 false) := by
    apply exists_reachableUnder 1 1 1
      [.execute 7, .call 0 true, .call 0 true, .call 0 true, .call 0 true, .call 0 true,
        .call 0 true, .worker 0, .execute 8, .call 1 true, .queue (.call 1) (.call 1),
        .queue (.call 1) (.call 1), .queue (.call 1) (.call 1), .queue (.call 1) (.call 1),
        .call 1 true, .execute 9, .call 2 true, .queue (.call 2) (.call 2),
        .queue (.call 2) (.call 2), .call 2 true, .call 2 true]
    decide +kernel
  exact ⟨s, hstarted, hqueue, hcall, (accepted_tasks_conserved hs).2.2.2.2.1 0⟩

end Nets.ThreadPool
