import Nets.Program.BoundedBlockingQueue

/-! # The steps of a call into the queue

`advance` is inverted once: a step is one of those of `Step`, and its effect on the fields a proof
is about can be read off there. -/

namespace Nets

/-- The position is in a call with the request. -/
def Position.Serves {α : Type} (r : Request α) : Position α → Prop
  | .outside => False
  | .locking r' | .testing r' | .goingToSleep r' | .asleep r' | .expired r' | .lastTesting r'
  | .passed r' | .notifying r' | .returned r' _ => r' = r
  | .frontOfEmpty => True

def Position.request {α : Type} : Position α → Option (Request α)
  | .outside | .frontOfEmpty => none
  | .locking r | .testing r | .goingToSleep r | .asleep r | .expired r | .lastTesting r
  | .passed r | .notifying r | .returned r _ => some r

theorem Position.eq_of_serves {α : Type} {position : Position α} {r r' : Request α}
    (hserves : position.Serves r) (h : position.request = some r') : r = r' := by
  cases position with
  | outside | frontOfEmpty => cases h
  | locking | testing | goingToSleep | asleep | expired | lastTesting | passed | notifying
  | returned => exact hserves.symm.trans (Option.some.inj h)

namespace BoundedBlockingQueue

variable {τ α : Type} [DecidableEq τ] {q q' : BoundedBlockingQueue τ α} {thread woken : τ} {p : Bool}

/-- The steps of a thread inside a call, where the predicate evaluates to `p`. -/
inductive Step (thread : τ) (p : Bool) (q : BoundedBlockingQueue τ α) :
    BoundedBlockingQueue τ α → Prop where
  | lock (r : Request α) (hposition : q.positions thread = .locking r) (hmode : r.mode ≠ .tryLock)
      (hmutex : q.mutex = none) :
      Step thread p q ({ q with mutex := some thread }.setPosition thread (.testing r))
  | tryLock (r : Request α) (hposition : q.positions thread = .locking r)
      (hmode : r.mode = .tryLock) (hmutex : q.mutex = none) :
      Step thread p q ({ q with mutex := some thread }.setPosition thread (.lastTesting r))
  | contended (r : Request α) (hposition : q.positions thread = .locking r)
      (hmode : r.mode = .tryLock) (hmutex : q.mutex ≠ none) :
      Step thread p q (q.setPosition thread (.returned r false))
  | pass (r : Request α) (hposition : q.positions thread = .testing r)
      (hready : q.isReady r p = true) : Step thread p q (q.setPosition thread (.passed r))
  | fail (r : Request α) (hposition : q.positions thread = .testing r)
      (hready : q.isReady r p = false) : Step thread p q (q.setPosition thread (.goingToSleep r))
  | sleep (r : Request α) (hposition : q.positions thread = .goingToSleep r) :
      Step thread p q ((q.joinCV r thread).unlock thread (.asleep r))
  | relock (r : Request α) (hposition : q.positions thread = .asleep r) (hcv : thread ∉ q.cv r)
      (hmutex : q.mutex = none) :
      Step thread p q ({ q with mutex := some thread }.setPosition thread (.testing r))
  | relockLast (r : Request α) (hposition : q.positions thread = .expired r)
      (hmutex : q.mutex = none) :
      Step thread p q ({ q with mutex := some thread }.setPosition thread (.lastTesting r))
  | passLast (r : Request α) (hposition : q.positions thread = .lastTesting r)
      (hready : q.isReady r p = true) : Step thread p q (q.setPosition thread (.passed r))
  | failLast (r : Request α) (hposition : q.positions thread = .lastTesting r)
      (hready : q.isReady r p = false) : Step thread p q (q.unlock thread (.returned r false))
  | giveUp (r : Request α) (hposition : q.positions thread = .passed r)
      (hp : (r.mode.hasPredicate && p) = true) : Step thread p q (q.unlock thread (.returned r false))
  | transfer (r : Request α) (hposition : q.positions thread = .passed r)
      (hp : (r.mode.hasPredicate && p) = false) : Step thread p q (q.transfer r thread)
  | notify (r : Request α) (hposition : q.positions thread = .notifying r)
      (notFullCV notEmptyCV : List τ) (hfull : ∀ other ∈ notFullCV, other ∈ q.notFullCV)
      (hempty : ∀ other ∈ notEmptyCV, other ∈ q.notEmptyCV) :
      Step thread p q ({ q with notFullCV, notEmptyCV }.setPosition thread (.returned r true))

theorem mem_of_notifyOne {waiting waiting' : List τ} (h : notifyOne waiting woken = some waiting') :
    ∀ other ∈ waiting', other ∈ waiting := by
  intro other hother
  rw [notifyOne] at h
  split at h
  · obtain rfl := Option.some.inj h
    cases hother
  · split at h
    · obtain rfl := Option.some.inj h
      exact (List.mem_filter.mp hother).1
    · cases h

theorem lock_eq_some {position : Position α} (h : q.lock thread position = some q') :
    q.mutex = none ∧ q' = { q with mutex := some thread }.setPosition thread position := by
  rw [lock] at h
  split at h
  case isTrue hmutex => exact ⟨Option.isNone_iff_eq_none.mp hmutex, (Option.some.inj h).symm⟩
  · cases h

theorem step_of_advance (h : q.advance thread woken p = some q') : Step thread p q q' := by
  rw [advance] at h
  split at h
  case h_1 r hposition =>
      split at h
      case isTrue hmode =>
          cases hmutex : q.mutex with
          | none =>
              simp only [BoundedBlockingQueue.lock, hmutex, Option.isNone_none, if_true,
                Option.getD_some, Option.some.injEq] at h
              rw [← h]
              exact .tryLock r hposition hmode hmutex
          | some other =>
              simp only [BoundedBlockingQueue.lock, hmutex, Option.isNone_some, Bool.false_eq_true,
                if_false, Option.getD_none, Option.some.injEq] at h
              rw [← h]
              exact .contended r hposition hmode (by simp [hmutex])
      case isFalse hmode =>
          obtain ⟨hmutex, rfl⟩ := lock_eq_some h
          exact .lock r hposition hmode hmutex
  case h_2 r hposition =>
      obtain rfl := Option.some.inj h
      split
      case isTrue hready => exact .pass r hposition hready
      case isFalse hready => exact .fail r hposition (Bool.not_eq_true _ ▸ hready)
  case h_3 r hposition =>
      obtain rfl := Option.some.inj h
      exact .sleep r hposition
  case h_4 r hposition =>
      split at h
      · cases h
      case isFalse hcv =>
          obtain ⟨hmutex, rfl⟩ := lock_eq_some h
          exact .relock r hposition hcv hmutex
  case h_5 r hposition =>
      obtain ⟨hmutex, rfl⟩ := lock_eq_some h
      exact .relockLast r hposition hmutex
  case h_6 r hposition =>
      obtain rfl := Option.some.inj h
      split
      case isTrue hready => exact .passLast r hposition hready
      case isFalse hready => exact .failLast r hposition (Bool.not_eq_true _ ▸ hready)
  case h_7 r hposition =>
      obtain rfl := Option.some.inj h
      split
      case isTrue hp => exact .giveUp r hposition hp
      case isFalse hp => exact .transfer r hposition (Bool.not_eq_true _ ▸ hp)
  case h_8 r hposition =>
      rw [notifyOther] at h
      split at h
      · simp only [Option.map_map, Option.map_eq_some_iff, Function.comp_apply] at h
        obtain ⟨notEmptyCV, hnotify, rfl⟩ := h
        exact .notify r hposition _ notEmptyCV (fun _ hother => hother) (mem_of_notifyOne hnotify)
      · simp only [Option.map_map, Option.map_eq_some_iff, Function.comp_apply] at h
        obtain ⟨notFullCV, hnotify, rfl⟩ := h
        exact .notify r hposition notFullCV _ (mem_of_notifyOne hnotify) (fun _ hother => hother)
  all_goals cases h

/-! ## Steps that leave the elements alone -/

/-- The elements in the queue, and those that went through it. -/
structure SameElements (q q' : BoundedBlockingQueue τ α) : Prop where
  maxQueueSize : q'.maxQueueSize = q.maxQueueSize
  queue : q'.queue = q.queue
  outputs : q'.outputs = q.outputs
  pushed : q'.pushed = q.pushed
  taken : q'.taken = q.taken

theorem setPosition_same (thread : τ) (position : Position α) (q : BoundedBlockingQueue τ α) :
    SameElements q (q.setPosition thread position) :=
  ⟨rfl, rfl, rfl, rfl, rfl⟩

theorem joinCV_same (r : Request α) (thread : τ) (position : Position α)
    (q : BoundedBlockingQueue τ α) :
    SameElements q ((q.joinCV r thread).unlock thread position) := by
  rw [joinCV]
  split
  · exact ⟨rfl, rfl, rfl, rfl, rfl⟩
  · exact ⟨rfl, rfl, rfl, rfl, rfl⟩

/-! ## Where a thread is -/

theorem setPosition_self (thread : τ) (position : Position α) (q : BoundedBlockingQueue τ α) :
    (q.setPosition thread position).positions thread = position :=
  Function.update_self ..

theorem setPosition_of_ne {other : τ} (hne : other ≠ thread) (position : Position α)
    (q : BoundedBlockingQueue τ α) :
    (q.setPosition thread position).positions other = q.positions other :=
  Function.update_of_ne hne ..

omit [DecidableEq τ] in
theorem joinCV_positions (r : Request α) (thread : τ) (q : BoundedBlockingQueue τ α) :
    (q.joinCV r thread).positions = q.positions := by
  rw [joinCV]
  split
  · rfl
  · rfl

/-- The position a transfer leads to. -/
theorem transfer_positions (r : Request α) (thread : τ) (q : BoundedBlockingQueue τ α) :
    (q.transfer r thread).positions = Function.update q.positions thread (.notifying r) ∨
      (q.transfer r thread).positions = Function.update q.positions thread .frontOfEmpty := by
  rw [transfer]
  split
  · exact Or.inl rfl
  · exact Or.inl rfl
  · exact Or.inr rfl

/-- A step moves one thread, inside its call. -/
theorem Step.moves (h : Step thread p q q') :
    ∃ position, q'.positions = Function.update q.positions thread position ∧
      q.positions thread ≠ .outside ∧
      ∀ r, (q.positions thread).Serves r → position.Serves r := by
  cases h with
  | lock r hposition | tryLock r hposition | contended r hposition | pass r hposition
  | fail r hposition | relock r hposition | relockLast r hposition | passLast r hposition
  | failLast r hposition | giveUp r hposition | notify r hposition =>
      refine ⟨_, rfl, ?_, ?_⟩
      · rw [hposition]
        exact nofun
      · intro r' hr'
        rwa [hposition] at hr'
  | sleep r hposition =>
      refine ⟨.asleep r, ?_, ?_, ?_⟩
      · rw [← joinCV_positions r thread q]
        rfl
      · rw [hposition]
        exact nofun
      · intro r' hr'
        rwa [hposition] at hr'
  | transfer r hposition =>
      obtain hpositions | hpositions := transfer_positions r thread q
      · refine ⟨_, hpositions, ?_, ?_⟩
        · rw [hposition]
          exact nofun
        · intro r' hr'
          rwa [hposition] at hr'
      · refine ⟨_, hpositions, ?_, ?_⟩
        · rw [hposition]
          exact nofun
        · intro _ _
          trivial

/-! ## Wakeups -/

theorem wakeUp_same (h : q.wakeUp thread = some q') :
    SameElements q q' ∧ q'.positions = q.positions ∧ q'.mutex = q.mutex := by
  rw [wakeUp] at h
  split at h
  · obtain rfl := Option.some.inj h
    exact ⟨⟨rfl, rfl, rfl, rfl, rfl⟩, rfl, rfl⟩
  · cases h

theorem expire_same (h : q.expire thread = some q') :
    SameElements q q' ∧ q'.mutex = q.mutex ∧ ∃ r, q.positions thread = .asleep r ∧
      q'.positions = Function.update q.positions thread (.expired r) := by
  rw [expire] at h
  split at h
  case h_1 r hposition =>
      split at h
      · obtain rfl := Option.some.inj h
        exact ⟨⟨rfl, rfl, rfl, rfl, rfl⟩, rfl, r, hposition, rfl⟩
      · cases h
      · cases h
  · cases h

end BoundedBlockingQueue

end Nets
