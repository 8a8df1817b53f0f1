import Nets.Verification.BoundedBlockingQueue.Equations

/-! # What a step does to the elements

Only the transfer of a call moves an element, and a call that has made its transfer returns true. -/

namespace Nets

/-- The element the call has put. -/
def Position.put {α : Type} : Position α → Option α
  | .notifying r | .returned r true => r.el
  | _ => none

/-- The call has taken an element. -/
def Position.hasTaken {α : Type} : Position α → Bool
  | .notifying r | .returned r true => r.el.isNone
  | _ => false

/-- The thread holds the mutex. -/
def Position.holdsMutex {α : Type} : Position α → Bool
  | .testing _ | .goingToSleep _ | .lastTesting _ | .passed _ | .frontOfEmpty => true
  | _ => false

/-- A call without a timeout does not give up its wait, and without a predicate it does not return
false. -/
def Position.Waits {α : Type} : Position α → Prop
  | .expired r | .lastTesting r => ∀ hasPredicate, r.mode ≠ .wait hasPredicate
  | .returned r false => r.mode ≠ .wait false
  | .outside | .locking _ | .testing _ | .goingToSleep _ | .asleep _ | .passed _ | .notifying _
  | .returned _ true | .frontOfEmpty => True

namespace BoundedBlockingQueue

variable {τ α : Type} [DecidableEq τ] {q q' : BoundedBlockingQueue τ α} {thread woken : τ} {p : Bool}

/-- What a step of a thread does to the elements, and where the thread is after it. -/
inductive Effect (thread : τ) (q q' : BoundedBlockingQueue τ α) : Prop where
  | same (position : Position α) (helements : SameElements q q')
      (hpositions : q'.positions = Function.update q.positions thread position)
      (hput : position.put = (q.positions thread).put)
      (hhasTaken : position.hasTaken = (q.positions thread).hasTaken)
      (hinside : q.positions thread ≠ .outside)
      (hempty : position ≠ .frontOfEmpty)
  | push (r : Request α) (el : α) (hposition : q.positions thread = .passed r)
      (hel : r.el = some el)
      (hpositions : q'.positions = Function.update q.positions thread (.notifying r))
      (hqueue : q'.queue = q.queue ++ [el]) (hpushed : q'.pushed = q.pushed ++ [(thread, el)])
      (htaken : q'.taken = q.taken) (houtputs : q'.outputs = q.outputs)
      (hsize : q'.maxQueueSize = q.maxQueueSize)
  | pop (r : Request α) (el : α) (hposition : q.positions thread = .passed r)
      (hel : r.el = none)
      (hpositions : q'.positions = Function.update q.positions thread (.notifying r))
      (hqueue : q.queue = el :: q'.queue) (hpushed : q'.pushed = q.pushed)
      (htaken : q'.taken = q.taken ++ [(thread, el)])
      (houtputs : q'.outputs = Function.update q.outputs thread (some el))
      (hsize : q'.maxQueueSize = q.maxQueueSize)
  | empty (r : Request α) (hposition : q.positions thread = .passed r) (hel : r.el = none)
      (hqueue : q.queue = []) (helements : SameElements q q')
      (hpositions : q'.positions = Function.update q.positions thread .frontOfEmpty)

theorem effect_transfer {r : Request α} (hposition : q.positions thread = .passed r) :
    Effect thread q (q.transfer r thread) := by
  cases hel : r.el with
  | some el =>
      have htransfer : q.transfer r thread =
          { q with
            queue := q.queue ++ [el]
            pushed := q.pushed ++ [(thread, el)] }.unlock thread (.notifying r) := by
        rw [transfer, hel]
      rw [htransfer]
      exact .push r el hposition hel rfl rfl rfl rfl rfl rfl
  | none =>
      cases hqueue : q.queue with
      | cons el queue =>
          have htransfer : q.transfer r thread =
              ({ q with
                queue
                taken := q.taken ++ [(thread, el)] }.setOutput thread (some el)).unlock thread
                  (.notifying r) := by
            rw [transfer, hel, hqueue]
          rw [htransfer]
          exact .pop r el hposition hel rfl hqueue rfl rfl rfl rfl
      | nil =>
          have htransfer : q.transfer r thread = q.setPosition thread .frontOfEmpty := by
            rw [transfer, hel, hqueue]
          rw [htransfer]
          exact .empty r hposition hel hqueue (setPosition_same ..) rfl

theorem Step.effect (h : Step thread p q q') : Effect thread q q' := by
  cases h with
  | lock r hposition | tryLock r hposition | contended r hposition | pass r hposition
  | fail r hposition | relock r hposition | relockLast r hposition | passLast r hposition
  | failLast r hposition | giveUp r hposition =>
      refine .same _ ⟨rfl, rfl, rfl, rfl, rfl⟩ rfl ?_ ?_ ?_ nofun
      · rw [hposition]
        rfl
      · rw [hposition]
        rfl
      · rw [hposition]
        exact nofun
  | sleep r hposition =>
      refine .same (.asleep r) (joinCV_same ..) ?_ ?_ ?_ ?_ nofun
      · rw [← joinCV_positions r thread q]
        rfl
      · rw [hposition]
        rfl
      · rw [hposition]
        rfl
      · rw [hposition]
        exact nofun
  | transfer r hposition => exact effect_transfer hposition
  | notify r hposition notFullCV notEmptyCV hfull hempty =>
      refine .same (.returned r true) ⟨rfl, rfl, rfl, rfl, rfl⟩ rfl ?_ ?_ ?_ nofun
      · rw [hposition]
        rfl
      · rw [hposition]
        rfl
      · rw [hposition]
        exact nofun

theorem effect_expire (h : q.expire thread = some q') : Effect thread q q' := by
  obtain ⟨helements, -, r, hposition, hpositions⟩ := expire_same h
  refine .same (.expired r) helements hpositions ?_ ?_ ?_ nofun
  · rw [hposition]
    rfl
  · rw [hposition]
    rfl
  · rw [hposition]
    exact nofun

/-- The other threads stay where they are, with what they have. -/
theorem Effect.frame (h : Effect thread q q') {other : τ} (hne : other ≠ thread) :
    q'.positions other = q.positions other ∧ q'.outputs other = q.outputs other := by
  cases h with
  | same position helements hpositions | empty r hposition hel hqueue helements hpositions =>
      rw [hpositions, Function.update_of_ne hne, helements.outputs]
      exact ⟨rfl, rfl⟩
  | push r el hposition hel hpositions hqueue hpushed htaken houtputs =>
      rw [hpositions, Function.update_of_ne hne, houtputs]
      exact ⟨rfl, rfl⟩
  | pop r el hposition hel hpositions hqueue hpushed htaken houtputs =>
      rw [hpositions, Function.update_of_ne hne, houtputs, Function.update_of_ne hne]
      exact ⟨rfl, rfl⟩

theorem Effect.maxQueueSize_eq (h : Effect thread q q') : q'.maxQueueSize = q.maxQueueSize := by
  cases h with
  | same position helements | empty r hposition hel hqueue helements =>
      exact helements.maxQueueSize
  | push r el hposition hel hpositions hqueue hpushed htaken houtputs hsize => exact hsize
  | pop r el hposition hel hpositions hqueue hpushed htaken houtputs hsize => exact hsize

/-! ## First in, first out -/

/-- What was taken and what is in the queue is what was put, in this order. -/
def Fifo (q : BoundedBlockingQueue τ α) : Prop :=
  q.taken.map Prod.snd ++ q.queue = q.pushed.map Prod.snd

omit [DecidableEq τ] in
theorem Fifo.same (hq : Fifo q) (h : SameElements q q') : Fifo q' := by
  rw [Fifo, h.taken, h.queue, h.pushed]
  exact hq

theorem Fifo.effect (hq : Fifo q) (h : Effect thread q q') : Fifo q' := by
  cases h with
  | same position helements | empty r hposition hel hqueue helements => exact hq.same helements
  | push r el hposition hel hpositions hqueue hpushed htaken =>
      rw [Fifo, htaken, hqueue, hpushed, List.map_append, ← List.append_assoc]
      exact congrArg (· ++ [el]) hq
  | pop r el hposition hel hpositions hqueue hpushed htaken =>
      rw [Fifo, htaken, hpushed, List.map_append, List.append_assoc]
      rw [Fifo, hqueue] at hq
      exact hq

/-! ## One thread at a time -/

/-- The mutex is held by the thread that it says, and by no other. -/
def Exclusive (q : BoundedBlockingQueue τ α) : Prop :=
  ∀ thread, (q.positions thread).holdsMutex = true ↔ q.mutex = some thread

omit [DecidableEq τ] in
theorem Exclusive.eq (hq : Exclusive q) {other : τ}
    (hthread : (q.positions thread).holdsMutex = true)
    (hother : (q.positions other).holdsMutex = true) : thread = other :=
  Option.some.inj (((hq thread).mp hthread).symm.trans ((hq other).mp hother))

theorem Exclusive.keep (hq : Exclusive q) {position : Position α} (hmutex : q'.mutex = q.mutex)
    (hpositions : q'.positions = Function.update q.positions thread position)
    (hholds : position.holdsMutex = (q.positions thread).holdsMutex) : Exclusive q' := by
  intro other
  rw [hmutex, hpositions]
  by_cases hne : other = thread
  · rw [hne, Function.update_self, hholds]
    exact hq thread
  · rw [Function.update_of_ne hne]
    exact hq other

theorem Exclusive.acquire (hq : Exclusive q) {position : Position α} (hfree : q.mutex = none)
    (hmutex : q'.mutex = some thread)
    (hpositions : q'.positions = Function.update q.positions thread position)
    (hholds : position.holdsMutex = true) : Exclusive q' := by
  intro other
  rw [hmutex, hpositions]
  by_cases hne : other = thread
  · rw [hne, Function.update_self]
    exact ⟨fun _ => rfl, fun _ => hholds⟩
  · rw [Function.update_of_ne hne, hq other, hfree]
    exact ⟨nofun, fun h => absurd (Option.some.inj h).symm hne⟩

theorem Exclusive.release (hq : Exclusive q) {position : Position α}
    (hheld : (q.positions thread).holdsMutex = true) (hmutex : q'.mutex = none)
    (hpositions : q'.positions = Function.update q.positions thread position)
    (hholds : position.holdsMutex = false) : Exclusive q' := by
  intro other
  rw [hmutex, hpositions]
  by_cases hne : other = thread
  · rw [hne, Function.update_self, hholds]
    exact ⟨nofun, nofun⟩
  · rw [Function.update_of_ne hne]
    refine ⟨fun hother => ?_, nofun⟩
    exact absurd (hq.eq hother hheld) hne

theorem Exclusive.transfer (hq : Exclusive q) {r : Request α}
    (hposition : q.positions thread = .passed r) : Exclusive (q.transfer r thread) := by
  have hheld : (q.positions thread).holdsMutex = true := by
    rw [hposition]
    rfl
  rw [BoundedBlockingQueue.transfer]
  split
  · exact hq.release hheld rfl rfl rfl
  · exact hq.release hheld rfl rfl rfl
  · refine hq.keep rfl rfl ?_
    rw [hheld]
    rfl

theorem Exclusive.step (hq : Exclusive q) (h : Step thread p q q') : Exclusive q' := by
  cases h with
  | lock r hposition hmode hmutex => exact hq.acquire hmutex rfl rfl rfl
  | tryLock r hposition hmode hmutex => exact hq.acquire hmutex rfl rfl rfl
  | relock r hposition hcv hmutex => exact hq.acquire hmutex rfl rfl rfl
  | relockLast r hposition hmutex => exact hq.acquire hmutex rfl rfl rfl
  | contended r hposition | pass r hposition | fail r hposition | passLast r hposition
  | notify r hposition =>
      refine hq.keep rfl rfl ?_
      rw [hposition]
      rfl
  | failLast r hposition | giveUp r hposition =>
      refine hq.release ?_ rfl rfl rfl
      rw [hposition]
      rfl
  | sleep r hposition =>
      have hheld : (q.positions thread).holdsMutex = true := by
        rw [hposition]
        rfl
      refine hq.release hheld rfl ?_ (by rfl : (Position.asleep r).holdsMutex = false)
      rw [← joinCV_positions r thread q]
      rfl
  | transfer r hposition => exact hq.transfer hposition

theorem Exclusive.wakeUp (hq : Exclusive q) (h : q.wakeUp thread = some q') : Exclusive q' := by
  obtain ⟨-, hpositions, hmutex⟩ := wakeUp_same h
  intro other
  rw [hpositions, hmutex]
  exact hq other

/-! ## What a call is ready for -/

omit [DecidableEq τ] in
theorem isReady_of_same (h : SameElements q q') (r : Request α) (p : Bool) :
    q'.isReady r p = q.isReady r p := by
  rw [isReady, isReady, isFull, isFull, h.queue, h.maxQueueSize]

omit [DecidableEq τ] in
/-- A `tryPush` passes its test where there is room. -/
theorem lt_of_isReady {r : Request α} (hput : r.el.isSome = true) (hmode : r.mode = .tryLock)
    (hready : q.isReady r p = true) : q.queue.length < q.maxQueueSize := by
  rw [isReady, if_pos hput, hmode, isFull] at hready
  simp only [Mode.hasPredicate, Bool.false_and, Bool.or_false, Bool.not_eq_true',
    decide_eq_false_iff_not, Nat.not_le] at hready
  exact hready

/-- What a waiting call was ready for stays there while it holds the mutex. -/
theorem Step.ready_of_ne (h : Step thread p q q') (hq : Exclusive q) (hne : other ≠ thread)
    {r : Request α} (hposition : q.positions other = .passed r) : SameElements q q' := by
  have hother : (q.positions other).holdsMutex = true := by
    rw [hposition]
    rfl
  have hpassed : ∀ r, q.positions thread ≠ .passed r := by
    intro r hthread
    refine hne (hq.eq hother ?_)
    rw [hthread]
    rfl
  cases h.effect with
  | same position helements => exact helements
  | push r el hthread | pop r el hthread | empty r hthread => exact absurd hthread (hpassed r)

/-- The thread that has just passed its test was ready. -/
theorem Step.ready_self (h : Step thread p q q') {r : Request α}
    (hposition : q'.positions thread = .passed r) :
    q.isReady r p = true ∧ SameElements q q' ∧ (q.positions thread).request = some r := by
  cases h with
  | pass r' hposition' hready | passLast r' hposition' hready =>
      obtain rfl : r' = r := Position.passed.inj ((setPosition_self ..).symm.trans hposition)
      refine ⟨hready, setPosition_same .., ?_⟩
      rw [hposition']
      rfl
  | transfer r' hposition' =>
      obtain hpositions | hpositions := transfer_positions r' thread q
      · rw [hpositions, Function.update_self] at hposition
        cases hposition
      · rw [hpositions, Function.update_self] at hposition
        cases hposition
  | lock | tryLock | contended | fail | sleep | relock | relockLast | failLast | giveUp | notify =>
      cases (setPosition_self ..).symm.trans hposition

end BoundedBlockingQueue

end Nets
