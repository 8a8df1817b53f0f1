import Nets.Verification.BoundedBlockingQueue.Elements

/-! # Predicates that may give anything

A wait is over when there is room, or an element, or when the predicate is true. The predicate is
evaluated once more after the wait, and where it is false then the call goes on as if there were
room. -/

namespace Nets.BoundedBlockingQueue

variable {τ α : Type} [DecidableEq τ] {q q' : BoundedBlockingQueue τ α} {thread woken : τ} {p : Bool}
  {r : Request α}

/-- The queue holds no more than it may, and no call has taken from an empty one. -/
structure Bounded (q : BoundedBlockingQueue τ α) : Prop where
  length_le : q.queue.length ≤ q.maxQueueSize
  nonempty : ∀ thread, q.positions thread ≠ .frontOfEmpty

/-- A call whose predicate is false the second time finds what it would have waited for without
one. -/
def Finds (q : BoundedBlockingQueue τ α) : Operation τ α → Prop
  | .advance thread _ p => ∀ r, q.positions thread = .passed r → r.mode.hasPredicate = true →
      p = false → q.isReady r false = true
  | _ => True

/-! ## The invariant -/

/-- A call without a predicate still finds what it has waited for. -/
structure Safe (q : BoundedBlockingQueue τ α) : Prop extends Bounded q where
  exclusive : Exclusive q
  ready : ∀ thread r, q.positions thread = .passed r → r.mode.hasPredicate = false →
    q.isReady r false = true

omit [DecidableEq τ] in
theorem isReady_of_not_hasPredicate (h : r.mode.hasPredicate = false) :
    q.isReady r p = q.isReady r false := by
  rw [isReady, isReady, h, Bool.false_and, Bool.false_and]

/-- A step moves no element and does not end at an empty queue, or it is a transfer. -/
theorem Step.same_or_transfer (h : Step thread p q q') :
    (SameElements q q' ∧ ∃ position, q'.positions = Function.update q.positions thread position ∧
        position ≠ .frontOfEmpty) ∨
      ∃ r, q.positions thread = .passed r ∧ (r.mode.hasPredicate && p) = false ∧
        q' = q.transfer r thread := by
  cases h with
  | lock | tryLock | contended | pass | fail | relock | relockLast | passLast | failLast | giveUp
  | notify => exact .inl ⟨⟨rfl, rfl, rfl, rfl, rfl⟩, _, rfl, nofun⟩
  | sleep r =>
      refine .inl ⟨joinCV_same .., .asleep r, ?_, nofun⟩
      rw [← joinCV_positions r thread q]
      rfl
  | transfer r hposition hp => exact .inr ⟨r, hposition, hp, rfl⟩

theorem Bounded.of_positions (hq : Bounded q) {position : Position α}
    (hlength : q'.queue.length ≤ q'.maxQueueSize)
    (hpositions : q'.positions = Function.update q.positions thread position)
    (hempty : position ≠ .frontOfEmpty) : Bounded q' := by
  refine ⟨hlength, fun other => ?_⟩
  rw [hpositions]
  by_cases hne : other = thread
  · rw [hne, Function.update_self]
    exact hempty
  · rw [Function.update_of_ne hne]
    exact hq.nonempty other

theorem Bounded.of_same (hq : Bounded q) (h : SameElements q q') {position : Position α}
    (hpositions : q'.positions = Function.update q.positions thread position)
    (hempty : position ≠ .frontOfEmpty) : Bounded q' := by
  refine hq.of_positions ?_ hpositions hempty
  rw [h.queue, h.maxQueueSize]
  exact hq.length_le

/-- A transfer keeps the bound exactly where there is room for the element, or an element. -/
theorem Bounded.transfer_iff (hq : Bounded q) (hposition : q.positions thread = .passed r) :
    Bounded (q.transfer r thread) ↔ q.isReady r false = true := by
  have hle := hq.length_le
  have hnotifying : ∀ r : Request α, Position.notifying r ≠ .frontOfEmpty := by
    intro r h
    cases h
  rw [isReady, isFull, Bool.and_false, Bool.or_false]
  cases effect_transfer hposition with
  | same position helements hpositions hput hhasTaken hinside hempty =>
      -- a transfer moves an element, or ends at an empty queue
      have hmoves : position = .notifying r ∨ position = .frontOfEmpty := by
        refine (transfer_positions r thread q).imp ?_ ?_
        all_goals
          intro htransfer
          have hself := congrFun (hpositions.symm.trans htransfer) thread
          rwa [Function.update_self, Function.update_self] at hself
      obtain rfl := hmoves.resolve_right hempty
      rw [hposition] at hput hhasTaken
      change r.el = none at hput
      change r.el.isNone = false at hhasTaken
      rw [hput] at hhasTaken
      cases hhasTaken
  | push r' el hposition' hel hpositions hqueue hpushed htaken houtputs hsize =>
      obtain rfl : r = r' := Position.passed.inj (hposition.symm.trans hposition')
      rw [if_pos (by rw [hel]; rfl), Bool.not_eq_true', decide_eq_false_iff_not, Nat.not_le]
      constructor
      · intro hbounded
        have hlength := hbounded.length_le
        rw [hqueue, hsize, List.length_append, List.length_singleton] at hlength
        exact hlength
      · intro hroom
        refine hq.of_positions ?_ hpositions (hnotifying r)
        rw [hqueue, hsize, List.length_append, List.length_singleton]
        exact hroom
  | pop r' el hposition' hel hpositions hqueue hpushed htaken houtputs hsize =>
      obtain rfl : r = r' := Position.passed.inj (hposition.symm.trans hposition')
      rw [if_neg (by rw [hel]; exact Bool.false_ne_true), hqueue]
      refine ⟨fun _ => rfl, fun _ => hq.of_positions ?_ hpositions (hnotifying r)⟩
      rw [hqueue, List.length_cons] at hle
      rw [hsize]
      omega
  | empty r' hposition' hel hqueue helements hpositions =>
      obtain rfl : r = r' := Position.passed.inj (hposition.symm.trans hposition')
      rw [if_neg (by rw [hel]; exact Bool.false_ne_true), hqueue]
      refine ⟨fun hbounded => ?_, fun h => absurd h Bool.false_ne_true⟩
      refine absurd ?_ (hbounded.nonempty thread)
      rw [hpositions, Function.update_self]

/-! ## Steps of the callers -/

theorem Safe.transfer (hq : Safe q) (hposition : q.positions thread = .passed r)
    (hready : q.isReady r false = true) : Safe (q.transfer r thread) := by
  refine ⟨(hq.toBounded.transfer_iff hposition).mpr hready, hq.exclusive.transfer hposition, ?_⟩
  intro other r' hpassed
  by_cases hne : other = thread
  · subst hne
    obtain hpositions | hpositions := transfer_positions r other q
    · rw [hpositions, Function.update_self] at hpassed
      cases hpassed
    · rw [hpositions, Function.update_self] at hpassed
      cases hpassed
  · -- two threads do not hold the mutex
    rw [((effect_transfer hposition).frame hne).1] at hpassed
    refine absurd (hq.exclusive.eq ?_ ?_) hne
    · rw [hpassed]
      rfl
    · rw [hposition]
      rfl

theorem Safe.advance (hq : Safe q) (hfinds : Finds q (.advance thread woken p))
    (h : Step thread p q q') : Safe q' := by
  obtain ⟨hsame, position, hpositions, hempty⟩ | ⟨r, hposition, hp, rfl⟩ := h.same_or_transfer
  · refine ⟨hq.toBounded.of_same hsame hpositions hempty, hq.exclusive.step h, ?_⟩
    intro other r hpassed hwithout
    rw [isReady_of_same hsame]
    by_cases hne : other = thread
    · subst hne
      rw [← isReady_of_not_hasPredicate hwithout]
      exact (h.ready_self hpassed).1
    · rw [(h.effect.frame hne).1] at hpassed
      exact hq.ready other r hpassed hwithout
  · refine hq.transfer hposition ?_
    by_cases hwithout : r.mode.hasPredicate = false
    · exact hq.ready thread r hposition hwithout
    · rw [Bool.not_eq_false] at hwithout
      rw [hwithout, Bool.true_and] at hp
      exact hfinds r hposition hwithout hp

omit [DecidableEq τ] in
/-- Only the condition variables change. -/
theorem Safe.of_same (hq : Safe q) (h : SameElements q q') (hpositions : q'.positions = q.positions)
    (hmutex : q'.mutex = q.mutex) : Safe q' := by
  refine ⟨⟨?_, ?_⟩, ?_, ?_⟩
  · rw [h.queue, h.maxQueueSize]
    exact hq.length_le
  · rw [hpositions]
    exact hq.nonempty
  · rw [Exclusive, hpositions, hmutex]
    exact hq.exclusive
  · intro other r hpassed
    rw [hpositions] at hpassed
    rw [isReady_of_same h]
    exact hq.ready other r hpassed

/-- A thread that enters or leaves a call, or whose time is over. -/
theorem Safe.move (hq : Safe q) (hsize : q'.maxQueueSize = q.maxQueueSize)
    (hqueue : q'.queue = q.queue) (hmutex : q'.mutex = q.mutex) {position : Position α}
    (hpositions : q'.positions = Function.update q.positions thread position)
    (hholds : (q.positions thread).holdsMutex = false) (hfree : position.holdsMutex = false) :
    Safe q' := by
  have hempty : position ≠ .frontOfEmpty := by
    rintro rfl
    cases hfree
  refine ⟨hq.of_positions (by rw [hqueue, hsize]; exact hq.length_le) hpositions hempty,
    hq.exclusive.keep hmutex hpositions (hfree.trans hholds.symm), ?_⟩
  intro other r hpassed hwithout
  rw [isReady, isFull, hqueue, hsize]
  apply hq.ready other r _ hwithout
  rw [← hpassed, hpositions]
  by_cases hne : other = thread
  · rw [hpositions, hne, Function.update_self] at hpassed
    rw [hpassed] at hfree
    cases hfree
  · rw [Function.update_of_ne hne]

theorem Safe.operate (hq : Safe q) {operation : Operation τ α} (hfinds : Finds q operation)
    (h : q.operate operation = some q') : Safe q' := by
  cases operation with
  | call thread r argument =>
      simp only [BoundedBlockingQueue.operate] at h
      split at h
      case h_1 hposition =>
          obtain rfl := Option.some.inj h
          exact hq.move rfl rfl rfl rfl (by rw [hposition]; rfl) rfl
      · cases h
  | advance thread woken p => exact hq.advance hfinds (step_of_advance h)
  | wakeUp thread =>
      obtain ⟨hsame, hpositions, hmutex⟩ := wakeUp_same h
      exact hq.of_same hsame hpositions hmutex
  | expire thread =>
      obtain ⟨hsame, hmutex, r, hposition, hpositions⟩ := expire_same h
      exact hq.move hsame.maxQueueSize hsame.queue hmutex hpositions (by rw [hposition]; rfl) rfl
  | leave thread =>
      simp only [BoundedBlockingQueue.operate] at h
      split at h
      case h_1 r result hposition =>
          obtain rfl := Option.some.inj h
          exact hq.move rfl rfl rfl rfl (by rw [hposition]; rfl) rfl
      · cases h
  | notifyAllFull | notifyAllEmpty =>
      obtain rfl := Option.some.inj h
      exact hq.of_same ⟨rfl, rfl, rfl, rfl, rfl⟩ rfl rfl

/-- A step that goes on without what it needs breaks the bound at once. -/
theorem Safe.not_bounded (hq : Safe q) {operation : Operation τ α} (hfinds : ¬Finds q operation)
    (h : q.operate operation = some q') : ¬Bounded q' := by
  cases operation with
  | advance thread woken p =>
      simp only [Finds, not_forall] at hfinds
      obtain ⟨r, hposition, hpredicate, hp, hready⟩ := hfinds
      subst hp
      have htransfer : q' = q.transfer r thread := by
        simp only [BoundedBlockingQueue.operate, BoundedBlockingQueue.advance, hposition, Bool.and_false,
          Bool.false_eq_true, if_false, Option.some.injEq] at h
        exact h.symm
      rw [htransfer, hq.toBounded.transfer_iff hposition]
      exact hready
  | call | wakeUp | expire | leave | notifyAllFull | notifyAllEmpty => exact absurd trivial hfinds

omit [DecidableEq τ] in
theorem safe_create (maxQueueSize : ℕ) (outputs : τ → Option α) :
    Safe { create maxQueueSize with outputs } :=
  ⟨⟨Nat.zero_le _, fun _ => nofun⟩, fun _ => ⟨nofun, nofun⟩, fun _ _ => nofun⟩

/-- Whatever the predicates give, in the runs of any number of callers the queue stays within its size
and no call takes from an empty queue exactly where every call whose predicate is false the second
time finds room, or an element. -/
theorem bounded_iff_finds (maxQueueSize : ℕ) (outputs : τ → Option α)
    (run : List (Operation τ α)) :
    (operations τ α).Along Bounded { create maxQueueSize with outputs } run ↔
      (operations τ α).StepsMeet Finds { create maxQueueSize with outputs } run :=
  (operations τ α).along_iff_stepsMeet (fun _ hq => hq.toBounded)
    (fun _ _ _ hq hfinds h => hq.operate hfinds h)
    (fun _ _ _ hq hfinds h => hq.not_bounded hfinds h) (safe_create maxQueueSize outputs) run

/-- The predicate of a `put` into a full queue is true while it waits and false afterwards, and so is
that of a `take` from an empty one. -/
theorem exists_not_bounded :
    (∃ q : BoundedBlockingQueue ℕ ℕ, (operations ℕ ℕ).Reachable q ∧
      q.maxQueueSize < q.queue.length) ∧
    ∃ q : BoundedBlockingQueue ℕ ℕ, (operations ℕ ℕ).Reachable q ∧
      q.positions 0 = .frontOfEmpty := by
  have hinitial : (operations ℕ ℕ).Reachable (create 1) := .initial ⟨1, _, rfl⟩
  constructor
  · apply hinitial.exists_of_runUnder _ [.call 0 (put 7) none, .advance 0 0 false,
      .advance 0 0 false, .advance 0 0 false, .call 1 (putIf 8) none, .advance 1 1 false,
      .advance 1 1 true, .advance 1 1 false]
    decide
  · apply hinitial.exists_of_runUnder _ [.call 0 takeIf none, .advance 0 0 false,
      .advance 0 0 true, .advance 0 0 false]
    decide

end Nets.BoundedBlockingQueue
