import Nets.Library.Registers
import Nets.Verification.BoundedBlockingQueue.Elements

/-! # The queue with any number of callers

Every call has one critical section, in which it puts or takes one element, or none when it returns
false. Replayed in the order of the critical sections, the calls are those of a first in, first out
queue. -/

namespace Nets.BoundedBlockingQueue

variable {τ α : Type} [DecidableEq τ]

/-! ## Elements of a thread -/

/-- The elements of the thread, in the order of its calls. -/
def elementsOf (thread : τ) (elements : List (τ × α)) : List α :=
  (elements.filter (·.1 = thread)).map Prod.snd

theorem elementsOf_append_self (thread : τ) (el : α) (elements : List (τ × α)) :
    elementsOf thread (elements ++ [(thread, el)]) = elementsOf thread elements ++ [el] := by
  simp [elementsOf]

theorem elementsOf_append_of_ne {thread other : τ} (hne : other ≠ thread) (el : α)
    (elements : List (τ × α)) :
    elementsOf other (elements ++ [(thread, el)]) = elementsOf other elements := by
  simp [elementsOf, hne.symm]

/-- The element a completed call has put. -/
def Outcome.put (outcome : Outcome τ α) : Option α :=
  if outcome.result then outcome.r.el else none

/-- The element a completed call has taken: what it has left in its variable. -/
def Outcome.taken (outcome : Outcome τ α) : Option α :=
  if outcome.result && outcome.r.el.isNone then outcome.output else none

/-- A call that returns false has not touched its variable, a `take` that returns true has set it. -/
structure Outcome.Settled (outcome : Outcome τ α) : Prop where
  unchanged : outcome.result = false → outcome.output = outcome.argument
  output : outcome.result = true → outcome.r.el = none → outcome.output.isSome = true

def outcomesOf (thread : τ) (outcomes : List (Outcome τ α)) : List (Outcome τ α) :=
  outcomes.filter (·.thread = thread)

/-- The element the thread has taken in a call that it has not left. -/
def taking (q : BoundedBlockingQueue τ α) (thread : τ) : Option α :=
  if (q.positions thread).hasTaken then q.outputs thread else none

/-! ## The invariant -/

/-- The elements of a thread are those of its calls that return true. -/
structure Accounted (s : Callers τ α) (thread : τ) : Prop where
  put : elementsOf thread s.queue.pushed =
    (outcomesOf thread s.outcomes).filterMap Outcome.put ++
      (s.queue.positions thread).put.toList
  taken : elementsOf thread s.queue.taken =
    (outcomesOf thread s.outcomes).filterMap Outcome.taken ++ (s.queue.taking thread).toList
  unchanged : s.queue.positions thread ≠ .outside →
    (s.queue.positions thread).hasTaken = false → s.queue.outputs thread = s.arguments thread
  output : (s.queue.positions thread).hasTaken = true → (s.queue.outputs thread).isSome = true

structure Linear (s : Callers τ α) : Prop where
  fifo : s.queue.Fifo
  exclusive : s.queue.Exclusive
  ready : ∀ thread r, s.queue.positions thread = .passed r →
    s.queue.isReady r (s.predicates thread) = true
  nonempty : ∀ thread, s.queue.positions thread ≠ .frontOfEmpty
  accounted : ∀ thread, Accounted s thread
  settled : ∀ outcome ∈ s.outcomes, outcome.Settled

variable {s t : Callers τ α} {q q' : BoundedBlockingQueue τ α} {thread other : τ} {p : Bool}

omit [DecidableEq τ] in
/-- A call is as ready as before when its predicate has become true. -/
theorem isReady_true {r : Request α} (h : q.isReady r p = true) : q.isReady r true = true := by
  rw [isReady, Bool.or_eq_true] at h ⊢
  refine h.imp id fun h => ?_
  rw [Bool.and_true]
  exact (Bool.and_eq_true_iff.mp h).1

/-- A call that has passed its test finds what it waited for, or its predicate true. -/
theorem Step.nonempty (h : Step thread p q q')
    (hready : ∀ r, q.positions thread = .passed r → q.isReady r p = true) :
    q'.positions thread ≠ .frontOfEmpty := by
  cases h.effect with
  | same position helements hpositions hput hhasTaken hinside hempty =>
      rw [hpositions, Function.update_self]
      exact hempty
  | push r el hposition hel hpositions | pop r el hposition hel hpositions =>
      rw [hpositions, Function.update_self]
      exact nofun
  | empty r hposition hel hqueue helements hpositions =>
      have hr := hready r hposition
      rw [isReady, hel, hqueue] at hr
      have hpredicate : (r.mode.hasPredicate && p) = true := hr
      cases h with
      | giveUp r' =>
          intro hreturned
          cases (setPosition_self ..).symm.trans hreturned
      | transfer r' hposition' hp =>
          obtain rfl : r = r' := Position.passed.inj (hposition.symm.trans hposition')
          rw [hpredicate] at hp
          cases hp
      | lock r' hposition' | tryLock r' hposition' | contended r' hposition' | pass r' hposition'
      | fail r' hposition' | sleep r' hposition' | relock r' hposition' | relockLast r' hposition'
      | passLast r' hposition' | failLast r' hposition' | notify r' hposition' =>
          rw [hposition] at hposition'
          cases hposition'

/-! ## Steps of a call -/

theorem outcomesOf_append_self (outcome : Outcome τ α)
    (outcomes : List (Outcome τ α)) :
    outcomesOf outcome.thread (outcomes ++ [outcome]) =
      outcomesOf outcome.thread outcomes ++ [outcome] := by
  simp [outcomesOf]

theorem outcomesOf_append_of_ne (outcome : Outcome τ α) (hne : other ≠ outcome.thread)
    (outcomes : List (Outcome τ α)) :
    outcomesOf other (outcomes ++ [outcome]) = outcomesOf other outcomes := by
  simp [outcomesOf, hne.symm]

/-- A thread whose elements, place and variable a step leaves alone. -/
theorem Accounted.of_same (hs : Accounted s other)
    (hposition : t.queue.positions other = s.queue.positions other)
    (houtput : t.queue.outputs other = s.queue.outputs other)
    (hargument : t.arguments other = s.arguments other)
    (houtcomes : outcomesOf other t.outcomes = outcomesOf other s.outcomes)
    (hpushed : elementsOf other t.queue.pushed = elementsOf other s.queue.pushed)
    (htaken : elementsOf other t.queue.taken = elementsOf other s.queue.taken) :
    Accounted t other := by
  constructor
  · rw [hpushed, houtcomes, hposition]
    exact hs.put
  · rw [htaken, houtcomes, taking, hposition, houtput]
    exact hs.taken
  · rw [hposition, houtput, hargument]
    exact hs.unchanged
  · rw [hposition, houtput]
    exact hs.output

/-- The thread itself, before and after a step inside its call. -/
theorem Accounted.effect (hs : Accounted s thread) (h : Effect thread s.queue q)
    (hnonempty : q.positions thread ≠ .frontOfEmpty) : Accounted (s.setQueue q) thread := by
  have hoff : ∀ r, s.queue.positions thread = .passed r →
      (s.queue.positions thread).put = none ∧ s.queue.taking thread = none := by
    intro r hposition
    rw [taking, hposition]
    exact ⟨rfl, rfl⟩
  cases h with
  | same position helements hpositions hput hhasTaken hinside hempty =>
      have hposition : q.positions thread = position := by rw [hpositions, Function.update_self]
      constructor
      · change elementsOf thread q.pushed = _ ++ (q.positions thread).put.toList
        rw [helements.pushed, hposition, hput]
        exact hs.put
      · change elementsOf thread q.taken = _ ++ (q.taking thread).toList
        rw [helements.taken, taking, hposition, hhasTaken, helements.outputs]
        exact hs.taken
      · change _ → (q.positions thread).hasTaken = false → q.outputs thread = s.arguments thread
        rw [hposition, hhasTaken, helements.outputs]
        exact fun _ => hs.unchanged hinside
      · change (q.positions thread).hasTaken = true → (q.outputs thread).isSome = true
        rw [hposition, hhasTaken, helements.outputs]
        exact hs.output
  | push r el hposition hel hpositions hqueue hpushed htaken houtputs =>
      have hnotifying : q.positions thread = .notifying r := by rw [hpositions, Function.update_self]
      have hkept : (Position.notifying r).hasTaken = false := by
        rw [Position.hasTaken, hel]
        rfl
      obtain ⟨hput, htaking⟩ := hoff r hposition
      have hput' := hs.put
      have htaken' := hs.taken
      rw [hput, Option.toList_none, List.append_nil] at hput'
      rw [htaking] at htaken'
      constructor
      · change elementsOf thread q.pushed = _ ++ (q.positions thread).put.toList
        rw [hpushed, elementsOf_append_self, hput', hnotifying, Position.put, hel]
        rfl
      · change elementsOf thread q.taken = _ ++ (q.taking thread).toList
        rw [htaken, htaken', taking, hnotifying, hkept]
        rfl
      · change _ → _ → q.outputs thread = s.arguments thread
        rw [houtputs]
        intro _ _
        apply hs.unchanged
        · rw [hposition]
          exact nofun
        · rw [hposition]
          rfl
      · change (q.positions thread).hasTaken = true → _
        rw [hnotifying, hkept]
        exact nofun
  | pop r el hposition hel hpositions hqueue hpushed htaken houtputs =>
      have hnotifying : q.positions thread = .notifying r := by rw [hpositions, Function.update_self]
      have hset : (Position.notifying r).hasTaken = true := by
        rw [Position.hasTaken, hel]
        rfl
      have houtput : q.outputs thread = some el := by rw [houtputs, Function.update_self]
      obtain ⟨hput, htaking⟩ := hoff r hposition
      have hput' := hs.put
      have htaken' := hs.taken
      rw [hput] at hput'
      rw [htaking, Option.toList_none, List.append_nil] at htaken'
      constructor
      · change elementsOf thread q.pushed = _ ++ (q.positions thread).put.toList
        rw [hpushed, hput', hnotifying, Position.put, hel]
        rfl
      · change elementsOf thread q.taken = _ ++ (q.taking thread).toList
        rw [htaken, elementsOf_append_self, htaken', taking, hnotifying, hset, houtput]
        rfl
      · change _ → (q.positions thread).hasTaken = false → _
        rw [hnotifying, hset]
        exact nofun
      · change _ → (q.outputs thread).isSome = true
        rw [houtput]
        exact fun _ => rfl
  | empty r hposition hel hqueue helements hpositions =>
      refine absurd ?_ hnonempty
      rw [hpositions, Function.update_self]

/-- The elements of the other threads are what they were. -/
theorem Effect.elementsOf_of_ne (h : Effect thread q q') (hne : other ≠ thread) :
    elementsOf other q'.pushed = elementsOf other q.pushed ∧
      elementsOf other q'.taken = elementsOf other q.taken := by
  cases h with
  | same position helements | empty r hposition hel hqueue helements =>
      rw [helements.pushed, helements.taken]
      exact ⟨rfl, rfl⟩
  | push r el hposition hel hpositions hqueue hpushed htaken =>
      rw [hpushed, htaken, elementsOf_append_of_ne hne]
      exact ⟨rfl, rfl⟩
  | pop r el hposition hel hpositions hqueue hpushed htaken =>
      rw [hpushed, htaken, elementsOf_append_of_ne hne]
      exact ⟨rfl, rfl⟩

theorem Accounted.effect_of_ne (hs : Accounted s other) (h : Effect thread s.queue q)
    (hne : other ≠ thread) : Accounted (s.setQueue q) other := by
  obtain ⟨hposition, houtput⟩ := h.frame hne
  obtain ⟨hpushed, htaken⟩ := h.elementsOf_of_ne hne
  exact hs.of_same hposition houtput rfl rfl hpushed htaken

theorem accounted_of_effect (hs : ∀ thread, Accounted s thread) (h : Effect thread s.queue q)
    (hnonempty : q.positions thread ≠ .frontOfEmpty) :
    ∀ thread, Accounted (s.setQueue q) thread := by
  intro other
  by_cases hne : other = thread
  · subst hne
    exact (hs other).effect h hnonempty
  · exact (hs other).effect_of_ne h hne

theorem Linear.advance (hs : Linear s) (h : Step thread (s.predicates thread) s.queue q) :
    Linear (s.setQueue q) := by
  have hnonempty := h.nonempty (hs.ready thread)
  refine ⟨hs.fifo.effect h.effect, hs.exclusive.step h, ?_, ?_,
    accounted_of_effect hs.accounted h.effect hnonempty, hs.settled⟩
  · intro other r hposition
    by_cases hne : other = thread
    · subst hne
      obtain ⟨hready, hsame, -⟩ := h.ready_self hposition
      exact (isReady_of_same hsame r _).trans hready
    · have hold : s.queue.positions other = .passed r :=
        (h.effect.frame hne).1.symm.trans hposition
      have hsame := h.ready_of_ne hs.exclusive hne hold
      exact (isReady_of_same hsame r _).trans (hs.ready other r hold)
  · intro other
    by_cases hne : other = thread
    · subst hne
      exact hnonempty
    · change q.positions other ≠ _
      rw [(h.effect.frame hne).1]
      exact hs.nonempty other

/-- A thread that enters or leaves a call, or whose wait is over. -/
theorem Linear.move (hs : Linear s) (position : Position α)
    (hqueue : t.queue.queue = s.queue.queue) (hsize : t.queue.maxQueueSize = s.queue.maxQueueSize)
    (hpushed : t.queue.pushed = s.queue.pushed) (htaken : t.queue.taken = s.queue.taken)
    (hpositions : t.queue.positions = Function.update s.queue.positions thread position)
    (hmutex : t.queue.mutex = s.queue.mutex)
    (hholds : position.holdsMutex = (s.queue.positions thread).holdsMutex)
    (hpassed : ∀ r, position ≠ .passed r) (hempty : position ≠ .frontOfEmpty)
    (hother : ∀ other ≠ thread, t.queue.outputs other = s.queue.outputs other ∧
      t.predicates other = s.predicates other ∧ t.arguments other = s.arguments other ∧
      outcomesOf other t.outcomes = outcomesOf other s.outcomes)
    (hself : Accounted t thread) (hsettled : ∀ outcome ∈ t.outcomes, outcome.Settled) :
    Linear t := by
  refine ⟨?_, hs.exclusive.keep hmutex hpositions hholds, ?_, ?_, ?_, hsettled⟩
  · rw [Fifo, htaken, hqueue, hpushed]
    exact hs.fifo
  · intro other r hposition
    rw [hpositions] at hposition
    by_cases hne : other = thread
    · rw [hne, Function.update_self] at hposition
      exact absurd hposition (hpassed r)
    · rw [Function.update_of_ne hne] at hposition
      rw [isReady, isFull, hqueue, hsize, (hother other hne).2.1]
      exact hs.ready other r hposition
  · intro other
    rw [hpositions]
    by_cases hne : other = thread
    · rw [hne, Function.update_self]
      exact hempty
    · rw [Function.update_of_ne hne]
      exact hs.nonempty other
  · intro other
    by_cases hne : other = thread
    · rwa [hne]
    · obtain ⟨houtput, -, hargument, houtcomes⟩ := hother other hne
      apply (hs.accounted other).of_same _ houtput hargument houtcomes
      · rw [hpushed]
      · rw [htaken]
      · rw [hpositions, Function.update_of_ne hne]

theorem Linear.call (hs : Linear s) {r : Request α} {argument : Option α} {predicate : Bool}
    (hposition : s.queue.positions thread = .outside) :
    Linear (s.call thread r argument predicate) := by
  have hlocking : (s.call thread r argument predicate).queue.positions thread = .locking r :=
    Function.update_self ..
  have hput := (hs.accounted thread).put
  have htaken := (hs.accounted thread).taken
  rw [hposition] at hput
  rw [taking, hposition] at htaken
  refine hs.move (.locking r) rfl rfl rfl rfl rfl rfl ?_ nofun nofun ?_ ?_ hs.settled
  · rw [hposition]
    rfl
  · intro other hne
    exact ⟨Function.update_of_ne hne .., Function.update_of_ne hne ..,
      Function.update_of_ne hne .., rfl⟩
  · constructor
    · rw [hlocking]
      exact hput
    · rw [taking, hlocking]
      exact htaken
    · intro _ _
      have hargument : (s.call thread r argument predicate).arguments thread = argument :=
        Function.update_self ..
      rw [hargument]
      exact Function.update_self ..
    · rw [hlocking]
      exact nofun

theorem Linear.leave (hs : Linear s) {r : Request α} {result : Bool}
    (hposition : s.queue.positions thread = .returned r result) :
    Linear (s.leave thread r result) := by
  have houtside : (s.leave thread r result).queue.positions thread = .outside :=
    Function.update_self ..
  have hput := (hs.accounted thread).put
  have htaken := (hs.accounted thread).taken
  have hunchanged := (hs.accounted thread).unchanged
  have houtput := (hs.accounted thread).output
  rw [hposition] at hput hunchanged houtput
  rw [taking, hposition] at htaken
  let outcome : Outcome τ α := ⟨thread, r, s.arguments thread, result, s.queue.outputs thread⟩
  have houtcomes : outcomesOf thread (s.outcomes ++ [outcome]) =
      outcomesOf thread s.outcomes ++ [outcome] := outcomesOf_append_self outcome s.outcomes
  refine hs.move .outside rfl rfl rfl rfl rfl rfl ?_ nofun nofun ?_ ?_ ?_
  · rw [hposition]
    rfl
  · intro other hne
    exact ⟨rfl, rfl, rfl, outcomesOf_append_of_ne _ hne _⟩
  · constructor
    · rw [houtside]
      change elementsOf thread s.queue.pushed =
        (outcomesOf thread (s.outcomes ++ [outcome])).filterMap Outcome.put ++ []
      have hresult : (Position.returned r result).put = outcome.put := by
        cases result with
        | true | false => rfl
      rw [houtcomes, hput, hresult, List.filterMap_append, List.append_nil, Library.filterMap_singleton]
    · rw [taking, houtside]
      change elementsOf thread s.queue.taken =
        (outcomesOf thread (s.outcomes ++ [outcome])).filterMap Outcome.taken ++ []
      have hresult : (if (Position.returned r result).hasTaken then s.queue.outputs thread
          else none) = outcome.taken := by
        cases result with
        | true | false => rfl
      rw [houtcomes, htaken, hresult, List.filterMap_append, List.append_nil, Library.filterMap_singleton]
    · exact fun hinside => absurd houtside hinside
    · rw [houtside]
      exact nofun
  · refine Library.forall_mem_append hs.settled ⟨?_, ?_⟩
    · rintro rfl
      exact hunchanged nofun rfl
    · rintro rfl hel
      apply houtput
      rw [Position.hasTaken, hel]
      rfl

theorem Linear.raise (hs : Linear s) (thread : τ) :
    Linear { s with predicates := Function.update s.predicates thread true } := by
  refine ⟨hs.fifo, hs.exclusive, ?_, hs.nonempty, ?_, hs.settled⟩
  · intro other r hposition
    have hready := hs.ready other r hposition
    by_cases hne : other = thread
    · subst hne
      change s.queue.isReady r (Function.update s.predicates other true other) = true
      rw [Function.update_self]
      exact isReady_true hready
    · change s.queue.isReady r (Function.update s.predicates thread true other) = true
      rw [Function.update_of_ne hne]
      exact hready
  · intro other
    have haccounted := hs.accounted other
    exact ⟨haccounted.put, haccounted.taken, haccounted.unchanged, haccounted.output⟩

theorem Linear.wakeUp (hs : Linear s) (h : s.queue.wakeUp thread = some q) :
    Linear (s.setQueue q) := by
  obtain ⟨hsame, hpositions, hmutex⟩ := wakeUp_same h
  refine ⟨hs.fifo.same hsame, hs.exclusive.wakeUp h, ?_, ?_, ?_, hs.settled⟩
  · intro other r hposition
    change q.positions other = _ at hposition
    rw [hpositions] at hposition
    exact (isReady_of_same hsame r _).trans (hs.ready other r hposition)
  · intro other
    change q.positions other ≠ _
    rw [hpositions]
    exact hs.nonempty other
  · intro other
    have hposition : q.positions other = s.queue.positions other := congrFun hpositions other
    have houtput : q.outputs other = s.queue.outputs other := congrFun hsame.outputs other
    have hpushed := congrArg (elementsOf other) hsame.pushed
    have htaken := congrArg (elementsOf other) hsame.taken
    exact (hs.accounted other).of_same hposition houtput rfl rfl hpushed htaken

theorem Linear.expire (hs : Linear s) (h : s.queue.expire thread = some q) :
    Linear (s.setQueue q) := by
  obtain ⟨hsame, hmutex, r, hposition, hpositions⟩ := expire_same h
  have hexpired : q.positions thread = .expired r := by rw [hpositions, Function.update_self]
  refine hs.move _ hsame.queue hsame.maxQueueSize hsame.pushed hsame.taken hpositions hmutex ?_ nofun
    nofun ?_ ?_ hs.settled
  · rw [hposition]
    rfl
  · intro other _
    exact ⟨congrFun hsame.outputs other, rfl, rfl, rfl⟩
  · refine (hs.accounted thread).effect (effect_expire h) ?_
    rw [hexpired]
    exact nofun

theorem Linear.step (hs : Linear s) {action : Action τ α} (h : s.step action = some t) :
    Linear t := by
  cases action with
  | call thread r argument predicate =>
      simp only [Callers.step] at h
      split at h
      case h_1 hposition =>
          obtain rfl := Option.some.inj h
          exact hs.call hposition
      · cases h
  | raise thread =>
      obtain rfl := Option.some.inj h
      exact hs.raise thread
  | advance thread woken =>
      obtain ⟨q, hq, rfl⟩ := Option.map_eq_some_iff.mp h
      exact hs.advance (step_of_advance hq)
  | wakeUp thread =>
      obtain ⟨q, hq, rfl⟩ := Option.map_eq_some_iff.mp h
      exact hs.wakeUp hq
  | expire thread =>
      obtain ⟨q, hq, rfl⟩ := Option.map_eq_some_iff.mp h
      exact hs.expire hq
  | leave thread =>
      simp only [Callers.step] at h
      split at h
      case h_1 r result hposition =>
          obtain rfl := Option.some.inj h
          exact hs.leave hposition
      · cases h

theorem linear_of_initial (hs : (system τ α).initial s) : Linear s := by
  obtain ⟨houtcomes, maxQueueSize, outputs, hqueue⟩ := hs
  have hposition : ∀ thread, s.queue.positions thread = .outside := by
    rw [hqueue]
    exact fun _ => rfl
  refine ⟨?_, ?_, ?_, ?_, ?_, ?_⟩
  · rw [hqueue]
    rfl
  · intro thread
    rw [hposition, hqueue]
    exact ⟨nofun, nofun⟩
  · intro thread r hpassed
    rw [hposition] at hpassed
    cases hpassed
  · intro thread
    rw [hposition]
    exact nofun
  · intro thread
    constructor
    · rw [hposition, houtcomes, hqueue]
      rfl
    · rw [taking, hposition, houtcomes, hqueue]
      rfl
    · exact fun hinside => absurd (hposition thread) hinside
    · rw [hposition]
      exact nofun
  · rw [houtcomes]
    exact nofun

theorem linear_of_reachable (hs : (system τ α).Reachable s) : Linear s :=
  hs.invariant (fun _ => linear_of_initial) fun _ _ _ hs => hs.step

/-! ## Calls that do not fail -/

theorem Step.waits (h : Step thread p q q') (hq : (q.positions thread).Waits) :
    (q'.positions thread).Waits := by
  cases h with
  | lock r hposition | pass r hposition | fail r hposition | relock r hposition
  | passLast r hposition | notify r hposition =>
      rw [setPosition_self]
      trivial
  | sleep r hposition =>
      rw [unlock, setPosition_self]
      trivial
  | tryLock r hposition hmode =>
      rw [setPosition_self]
      intro hasPredicate
      rw [hmode]
      rintro ⟨⟩
  | contended r hposition hmode =>
      rw [setPosition_self]
      change r.mode ≠ .wait false
      rw [hmode]
      rintro ⟨⟩
  | relockLast r hposition =>
      rw [hposition] at hq
      rw [setPosition_self]
      exact hq
  | failLast r hposition =>
      rw [hposition] at hq
      rw [unlock, setPosition_self]
      exact hq false
  | giveUp r hposition hp =>
      rw [unlock, setPosition_self]
      intro hmode
      rw [hmode] at hp
      cases hp
  | transfer r hposition =>
      obtain hpositions | hpositions := transfer_positions r thread q
      · rw [hpositions, Function.update_self]
        trivial
      · rw [hpositions, Function.update_self]
        trivial

/-- Only a `wait_for` has a time that can be over. -/
theorem waits_expire (h : q.expire thread = some q') : (q'.positions thread).Waits := by
  rw [expire] at h
  split at h
  case h_1 r hposition =>
      split at h
      case h_1 hasPredicate hmode =>
          obtain rfl := Option.some.inj h
          rw [setPosition_self]
          intro hasPredicate
          rw [hmode]
          rintro ⟨⟩
      · cases h
      · cases h
  · cases h

structure Completed (s : Callers τ α) : Prop where
  waits : ∀ thread, (s.queue.positions thread).Waits
  result : ∀ outcome ∈ s.outcomes, outcome.r.mode = .wait false → outcome.result = true

theorem Completed.move (hs : Completed s) (hwaits : (t.queue.positions thread).Waits)
    (hother : ∀ other ≠ thread, t.queue.positions other = s.queue.positions other)
    (houtcomes : t.outcomes = s.outcomes) : Completed t := by
  refine ⟨fun other => ?_, ?_⟩
  · by_cases hne : other = thread
    · rwa [hne]
    · rw [hother other hne]
      exact hs.waits other
  · rw [houtcomes]
    exact hs.result

theorem Completed.step (hs : Completed s) {action : Action τ α} (h : s.step action = some t) :
    Completed t := by
  cases action with
  | call thread r argument predicate =>
      simp only [Callers.step] at h
      split at h
      case h_1 hposition =>
          obtain rfl := Option.some.inj h
          have hlocking : (s.call thread r argument predicate).queue.positions thread =
              .locking r := Function.update_self ..
          apply hs.move
          · rw [hlocking]
            trivial
          · exact fun other hne => Function.update_of_ne hne ..
          · rfl
      · cases h
  | raise thread =>
      obtain rfl := Option.some.inj h
      exact ⟨hs.waits, hs.result⟩
  | advance thread woken =>
      obtain ⟨q, hq, rfl⟩ := Option.map_eq_some_iff.mp h
      have hstep := step_of_advance hq
      exact hs.move (hstep.waits (hs.waits thread)) (fun _ hne => (hstep.effect.frame hne).1) rfl
  | wakeUp thread =>
      obtain ⟨q, hq, rfl⟩ := Option.map_eq_some_iff.mp h
      obtain ⟨-, hpositions, -⟩ := wakeUp_same hq
      refine ⟨fun other => ?_, hs.result⟩
      change (q.positions other).Waits
      rw [hpositions]
      exact hs.waits other
  | expire thread =>
      obtain ⟨q, hq, rfl⟩ := Option.map_eq_some_iff.mp h
      exact hs.move (waits_expire hq) (fun _ hne => ((effect_expire hq).frame hne).1) rfl
  | leave thread =>
      simp only [Callers.step] at h
      split at h
      case h_1 r result hposition =>
          obtain rfl := Option.some.inj h
          have hreturned := hs.waits thread
          rw [hposition] at hreturned
          refine ⟨fun other => ?_, Library.forall_mem_append hs.result fun hmode => ?_⟩
          · by_cases hne : other = thread
            · have houtside : (s.leave thread r result).queue.positions other = .outside := by
                rw [hne]
                exact Function.update_self ..
              rw [houtside]
              trivial
            · have hsame : (s.leave thread r result).queue.positions other =
                  s.queue.positions other := Function.update_of_ne hne ..
              rw [hsame]
              exact hs.waits other
          · cases result with
            | true => rfl
            | false => exact absurd hmode hreturned
      · cases h

theorem completed_of_reachable (hs : (system τ α).Reachable s) : Completed s := by
  apply hs.invariant
  · rintro s ⟨houtcomes, maxQueueSize, outputs, hqueue⟩
    refine ⟨fun thread => ?_, ?_⟩
    · rw [hqueue]
      trivial
    · rw [houtcomes]
      exact nofun
  · exact fun _ _ _ hs => hs.step

/-- Whatever the callers do, the elements taken and the elements in the queue are the elements put,
in the order of the critical sections. The elements of a thread are those of its calls that return
true, and these are all its plain `put`s and `take`s; a call that returns false leaves its variable as
it was. -/
theorem calls_linearize (hs : (system τ α).Reachable s) :
    s.queue.taken.map Prod.snd ++ s.queue.queue = s.queue.pushed.map Prod.snd ∧
      (∀ thread, elementsOf thread s.queue.pushed =
        (outcomesOf thread s.outcomes).filterMap Outcome.put ++
          (s.queue.positions thread).put.toList) ∧
      (∀ thread, elementsOf thread s.queue.taken =
        (outcomesOf thread s.outcomes).filterMap Outcome.taken ++
          (s.queue.taking thread).toList) ∧
      (∀ outcome ∈ s.outcomes, outcome.Settled) ∧
      (∀ outcome ∈ s.outcomes, outcome.r.mode = .wait false → outcome.result = true) ∧
      ∀ thread, s.queue.positions thread ≠ .frontOfEmpty := by
  have hlinear := linear_of_reachable hs
  exact ⟨hlinear.fifo, fun thread => (hlinear.accounted thread).put,
    fun thread => (hlinear.accounted thread).taken, hlinear.settled,
    (completed_of_reachable hs).result, hlinear.nonempty⟩

/-- A taker sleeps until an element is put, and a second taker's time is over before its element. -/
theorem calls_linearize_takers : ∃ s : Callers ℕ ℕ, s.outcomes.length = 3 ∧
    s.queue.taken.map Prod.snd ++ s.queue.queue = s.queue.pushed.map Prod.snd := by
  obtain ⟨s, hs, hlength⟩ : ∃ s : Callers ℕ ℕ, (system ℕ ℕ).Reachable s ∧ s.outcomes.length = 3 := by
    have hinitial : (system ℕ ℕ).Reachable ⟨create 1, fun _ => false, fun _ => none, []⟩ :=
      .initial ⟨rfl, 1, _, rfl⟩
    apply hinitial.exists_of_runUnder _ [.call 0 take none false, .advance 0 0,
      .advance 0 0, .advance 0 0, .call 1 takeFor none false, .advance 1 1, .advance 1 1,
      .advance 1 1, .expire 1, .call 2 (put 7) none false, .advance 2 0, .advance 2 0,
      .advance 2 0, .advance 2 0, .leave 2, .advance 0 0, .advance 0 0, .advance 0 0, .advance 0 0,
      .advance 1 1, .advance 1 1, .leave 0, .leave 1]
    decide +kernel
  exact ⟨s, hlength, (calls_linearize hs).1⟩

end Nets.BoundedBlockingQueue
