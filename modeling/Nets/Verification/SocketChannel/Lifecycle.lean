import Nets.Verification.SocketChannel.Equations
import Mathlib.Logic.Relation

/-! # End of life of a channel

A channel ends once: it is told of the disconnection, owes its loop one deregister task, queues
it, and is deregistered when the task runs. Every call of the channel moves along this life, as
long as the application calls no shutdown function of a channel that is `INACTIVE`. -/

namespace Nets.Session

open Library Relation

variable {α β : Type}

/-! ## The life of a channel -/

/-- The calls of the application's handlers. -/
inductive Delivery where
  | connect
  | read
  | disconnect
  deriving DecidableEq

/-- What has been delivered, and how many deregister tasks are owed by calls that have not
returned, were queued in all, and are waiting in the loop. `missing` counts the deregistrations
of a channel that the loop did not hold. -/
structure Life where
  ended : Bool
  delivered : List Delivery
  owed : ℕ
  queued : ℕ
  waiting : ℕ
  inLoop : Bool
  missing : ℕ

inductive Life.Step : Life → Life → Prop where
  | read {l : Life} (h : l.ended = false) :
      Step l { l with delivered := l.delivered ++ [.read] }
  | disconnect {l : Life} (h : l.ended = false) :
      Step l { l with
        ended := true, delivered := l.delivered ++ [.disconnect], owed := l.owed + 1 }
  | queue {l : Life} (owed : ℕ) (h : l.owed = owed + 1) :
      Step l { l with owed, queued := l.queued + 1, waiting := l.waiting + 1 }
  | deregister {l : Life} (waiting : ℕ) (h : l.waiting = waiting + 1) :
      Step l { l with
        waiting, inLoop := false, missing := if l.inLoop then l.missing else l.missing + 1 }

/-- Deregistration follows the one disconnection, which is the last delivery. -/
structure Life.Sound (l : Life) : Prop where
  delivered : ∃ before, .disconnect ∉ before ∧
    l.delivered = before ++ if l.ended then [.disconnect] else []
  queued : l.queued + l.owed = if l.ended then 1 else 0
  waiting : l.waiting + (if l.inLoop then 0 else 1) = l.queued
  missing : l.missing = 0

theorem Life.Step.sound {l l' : Life} (h : Step l l') (hl : l.Sound) : l'.Sound := by
  obtain ⟨before, hbefore, hdelivered⟩ := hl.delivered
  have hqueued := hl.queued
  have hwaiting := hl.waiting
  cases h with
  | read h =>
      refine ⟨⟨before ++ [.read], by simpa using hbefore, ?_⟩, hqueued, hwaiting, hl.missing⟩
      simp [hdelivered, h]
  | disconnect h =>
      refine ⟨⟨before, hbefore, by simp [hdelivered, h]⟩, ?_, hwaiting, hl.missing⟩
      simp only [h, Bool.false_eq_true, if_false] at hqueued
      simp only [if_true]
      omega
  | queue h =>
      refine ⟨⟨before, hbefore, hdelivered⟩, ?_, ?_, hl.missing⟩
      · simp only
        omega
      · simp only
        omega
  | deregister h =>
      have hle : l.queued + l.owed ≤ 1 := by
        rw [hqueued]
        split <;> omega
      have hin : l.inLoop = true := by
        by_contra hout
        simp only [hout, if_false] at hwaiting
        omega
      simp only [hin, if_true] at hwaiting
      refine ⟨⟨before, hbefore, hdelivered⟩, hqueued, ?_, ?_⟩
      · simp only [Bool.false_eq_true, if_false]
        omega
      · simp only [hin, if_true]
        exact hl.missing

theorem Life.Sound.of_steps {l l' : Life} (hl : l.Sound) (h : ReflTransGen Step l l') :
    l'.Sound := by
  induction h with
  | refl => exact hl
  | tail _ hstep ih => exact hstep.sound ih

/-! ## The life of a session -/

def delivery? : Event β → Option Delivery
  | .connect => some .connect
  | .read _ => some .read
  | .disconnect => some .disconnect
  | _ => none

def queuesDeregister : Event β → Bool
  | .addTask .deregister => true
  | _ => false

def owesDeregister : Frame β → Bool
  | .deregister => true
  | _ => false

def hasEnded : ChannelState → Bool
  | .inactive => true
  | _ => false

theorem hasEnded_eq_false {state : ChannelState} (h : state ≠ .inactive) :
    hasEnded state = false := by
  cases state with
  | inactive => exact absurd rfl h
  | active | halfClose => rfl

def life (s : Session β) : Life where
  ended := hasEnded s.state
  delivered := s.log.filterMap delivery?
  owed := s.stack.countP owesDeregister
  queued := s.log.countP queuesDeregister
  waiting := s.pendingTasks.count .deregister
  inLoop := s.inLoop
  missing := s.failedAssertions.count .deregisterChannel

/-- The life of `s` develops into the life of `t`. -/
def Evolves (s t : Session β) : Prop := ReflTransGen Life.Step s.life t.life

theorem Evolves.of_eq {s t : Session β} (h : t.life = s.life) : Evolves s t := by
  rw [Evolves, h]

theorem Evolves.of_step {s t : Session β} (h : Life.Step s.life t.life) : Evolves s t :=
  .single h

theorem Evolves.trans {s t u : Session β} (h : Evolves s t) (h' : Evolves t u) : Evolves s u :=
  ReflTransGen.trans h h'

/-! ## Calls that leave the life alone -/

@[simp] theorem life_assertThat_modifyChannel (holds : Bool) (s : Session β) :
    (s.assertThat .modifyChannel holds).life = s.life := by
  cases holds <;> simp [assertThat, life]

@[simp] theorem life_assertThat_handleWriteEvent (holds : Bool) (s : Session β) :
    (s.assertThat .handleWriteEvent holds).life = s.life := by
  cases holds <;> simp [assertThat, life]

@[simp] theorem life_setEvents (events : ℕ) (s : Session β) :
    (s.setEvents events).life = s.life := rfl

@[simp] theorem life_addEvent (event : ℕ) (s : Session β) : (s.addEvent event).life = s.life := rfl

@[simp] theorem life_epollAdd (epoll : Bool) (s : Session β) :
    (s.epollAdd epoll).life = s.life := by
  unfold epollAdd
  split <;> rfl

@[simp] theorem life_epollMod (epoll : Bool) (s : Session β) :
    (s.epollMod epoll).life = s.life := by
  unfold epollMod
  split <;> rfl

@[simp] theorem life_epollDel (epoll : Bool) (s : Session β) :
    (s.epollDel epoll).life = s.life := rfl

@[simp] theorem life_modify (epoll : Bool) (s : Session β) : (s.modify epoll).life = s.life := by
  simp only [modify]
  split
  · split <;> simp
  · simp

@[simp] theorem life_emit_accepted (bytes : List β) (s : Session β) :
    (s.emit (.accepted bytes)).life = s.life := by
  simp [emit, life, delivery?, queuesDeregister]

@[simp] theorem life_shutdownHow (how : How) (s : Session β) :
    (s.shutdownHow how).life = s.life := by
  cases how <;> simp [shutdownHow, emit, life, delivery?, queuesDeregister]

@[simp] theorem life_addTask_writeComplete (callback : ℕ) (s : Session β) :
    (s.addTask (.writeComplete callback)).life = s.life := by
  simp [addTask, life, delivery?, queuesDeregister]

theorem life_queueCallbacks (callbacks : List (Option ℕ)) (s : Session β) :
    (queueCallbacks callbacks s).life = s.life := by
  induction callbacks generalizing s with
  | nil => rfl
  | cons callback callbacks ih =>
      cases callback with
      | none => exact ih s
      | some callback => rw [queueCallbacks, ih, life_addTask_writeComplete]

theorem life_drain (s : Session β) : s.drain.life = s.life := life_queueCallbacks _ _

theorem state_drain (s : Session β) : s.drain.state = s.state := by
  rw [drain, queueCallbacks_eq]

/-- Assigning `HALF_CLOSE` to a channel that has not ended. -/
theorem life_halfClose {s : Session β} (h : s.state ≠ .inactive) :
    { s with state := .halfClose }.life = s.life := by
  simp only [life, hasEnded_eq_false h]
  rfl

section

variable [Inhabited β]

theorem life_appendBuffer {data : List β} {epoll : Bool} {s t : Session β}
    (h : s.appendBuffer data epoll = some t) : t.life = s.life := by
  unfold appendBuffer at h
  split at h
  · cases h
  · obtain rfl := Option.some.inj h
    split
    · rfl
    · simp only [life_modify, life_addEvent]
      rfl

theorem life_finishWrite {remaining : List β} {callback : Option ℕ} {epoll : Bool}
    {s t : Session β} (h : s.finishWrite remaining callback epoll = some t) :
    t.life = s.life := by
  unfold finishWrite at h
  split at h
  · obtain rfl := Option.some.inj h
    cases callback <;> simp
  · obtain ⟨u, hu, rfl⟩ := Option.map_eq_some_iff.mp h
    exact (life_appendBuffer hu :)

end

/-! ## Calls that end the channel -/

theorem evolves_channelInActive {s : Session β} (h : s.state ≠ .inactive) :
    Evolves s s.channelInActive := by
  have hended : s.life.ended = false := hasEnded_eq_false h
  refine .of_step ?_
  have hstep := Life.Step.disconnect hended
  simpa [channelInActive, life, hasEnded, delivery?, queuesDeregister, owesDeregister,
    List.countP_cons] using hstep

theorem evolves_handleWriteError (errNum : ℕ) {s : Session β} (h : s.state ≠ .inactive) :
    Evolves s (s.handleWriteError errNum) := by
  unfold handleWriteError
  split
  · exact .of_eq rfl
  · exact evolves_channelInActive h

theorem evolves_handleReadError (errNum : ℕ) {s : Session β} (h : s.state ≠ .inactive) :
    Evolves s (s.handleReadError errNum) := by
  unfold handleReadError
  split
  · exact .of_eq rfl
  · exact evolves_channelInActive h

theorem state_shutdownHow (how : How) (s : Session β) : (s.shutdownHow how).state = s.state := by
  cases how <;> rfl

theorem evolves_shutdown {s : Session β} (h : s.state ≠ .inactive) : Evolves s s.shutdown :=
  (Evolves.of_eq (life_shutdownHow .rdwr s)).trans
    (evolves_channelInActive (by rwa [state_shutdownHow]))

theorem life_shutdownRead {s : Session β} (h : s.state ≠ .inactive) :
    s.shutdownRead.life = s.life :=
  (life_halfClose (by rwa [state_shutdownHow])).trans (life_shutdownHow .rd s)

theorem life_shutdownWrite {s : Session β} (h : s.state ≠ .inactive) :
    s.shutdownWrite.life = s.life :=
  (life_halfClose (by rwa [state_shutdownHow])).trans (life_shutdownHow .wr s)

theorem evolves_finishWriteEvent (totalBytes : ℕ) (result : Except ℕ ℕ) (epoll : Bool)
    {s : Session β} (h : s.state ≠ .inactive) :
    Evolves s (s.finishWriteEvent totalBytes result epoll) := by
  cases result with
  | error errNum => exact evolves_handleWriteError errNum h
  | ok writtenBytes =>
      unfold finishWriteEvent
      by_cases hall : totalBytes = writtenBytes
      · simp only [hall, if_true]
        split
        · exact (Evolves.of_eq (life_drain s)).trans
            (evolves_channelInActive (by rwa [state_drain]))
        · exact .of_eq (by simpa using life_drain s)
      · simp only [hall, if_false]
        exact .of_eq rfl

section

variable [Inhabited β]

theorem evolves_doWrite {data : List β} {callback : Option ℕ} {answer : Answer} {before : β}
    {epoll : Bool} {s t : Session β}
    (h : s.doWrite data callback answer before epoll = some t) : Evolves s t := by
  unfold doWrite at h
  split at h
  · obtain rfl := Option.some.inj h
    exact .of_eq rfl
  rename_i hstate
  split at h
  · obtain rfl := Option.some.inj h
    exact .of_eq rfl
  split at h
  · cases answer with
    | accepted bytes =>
        exact .of_eq ((life_finishWrite h).trans (life_emit_accepted _ s))
    | failed errNum =>
        simp only [doWriteDirectly] at h
        split at h
        · exact .of_eq (life_finishWrite h)
        · obtain rfl := Option.some.inj h
          have hpush : { s with
              stack := .finishWrite (before :: data) callback epoll :: s.stack }.life = s.life := by
            simp [life, owesDeregister]
          exact (Evolves.of_eq hpush).trans (evolves_handleWriteError errNum hstate)
  · obtain ⟨u, hu, rfl⟩ := Option.map_eq_some_iff.mp h
    exact .of_eq (life_appendBuffer hu :)

/-- Each frame run on the way down to application code is a step of the life, or none. -/
theorem evolves_unwind {stack : List (Frame β)} {s t : Session β}
    (h : unwind stack s = some t) : Evolves { s with stack } t := by
  induction stack generalizing s with
  | nil =>
      obtain rfl := Option.some.inj h
      exact .of_eq rfl
  | cons frame stack ih =>
      cases frame with
      | handler =>
          obtain rfl := Option.some.inj h
          exact .of_eq rfl
      | deregister =>
          have hstep : Life.Step { s with stack := .deregister :: stack }.life
              { s.addTask .deregister with stack }.life := by
            have hqueue := Life.Step.queue (l := { s with stack := .deregister :: stack }.life)
              (stack.countP owesDeregister) (by simp [life, owesDeregister, List.countP_cons])
            simpa [addTask, life, delivery?, queuesDeregister, List.filterMap_cons] using hqueue
          exact (Evolves.of_step hstep).trans (ih h)
      | finishWrite remaining callback epoll =>
          obtain ⟨u, hu, hrest⟩ := Option.bind_eq_some_iff.mp h
          refine (Evolves.of_eq ?_).trans (ih hrest)
          have hlife := life_finishWrite hu
          simp only [life, Life.mk.injEq] at hlife ⊢
          simp [hlife, owesDeregister]

theorem evolves_handleReadEvent {answers : List (ReadAnswer β)} {epoll : Bool}
    {s t : Session β} (h : s.handleReadEvent answers epoll = some t) : Evolves s t := by
  unfold handleReadEvent at h
  split at h
  · obtain rfl := Option.some.inj h
    exact .of_eq rfl
  rename_i hstate
  split at h
  · cases h
  · obtain rfl := Option.some.inj h
    exact evolves_handleReadError _ hstate
  · rename_i byteBuffer _
    split at h
    · obtain rfl := Option.some.inj h
      refine .of_step ?_
      have hstep := Life.Step.read (l := s.life) (hasEnded_eq_false hstate)
      simpa [fireRead, life, delivery?, queuesDeregister, owesDeregister, List.countP_cons]
        using hstep
    split at h
    · obtain rfl := Option.some.inj h
      exact evolves_shutdown hstate
    · obtain rfl := Option.some.inj h
      exact .of_eq (by simp [life_shutdownRead hstate])

omit [Inhabited β] in
theorem evolves_handleWriteEvent {answers : List Answer} {epoll : Bool} {s t : Session β}
    (h : s.handleWriteEvent answers epoll = some t) : Evolves s t := by
  unfold handleWriteEvent at h
  split at h
  · obtain rfl := Option.some.inj h
    exact .of_eq rfl
  rename_i hstate
  obtain ⟨iovecs, -, h⟩ := Option.bind_eq_some_iff.mp h
  obtain ⟨⟨sent, result⟩, -, rfl⟩ := Option.map_eq_some_iff.mp h
  refine (Evolves.of_eq ?_).trans (evolves_finishWriteEvent _ _ _ ?_)
  · simp
  · unfold assertThat
    split <;> exact hstate

omit [Inhabited β] in
theorem evolves_runTask {epoll : Bool} {s t : Session β} (h : s.runTask epoll = some t) :
    Evolves s t := by
  unfold runTask at h
  split at h
  · cases h
  · rename_i pendingTasks hpending
    obtain rfl := Option.some.inj h
    exact .of_eq (by simp [life, hpending, owesDeregister])
  · rename_i pendingTasks hpending
    obtain rfl := Option.some.inj h
    refine .of_step ?_
    have hstep := Life.Step.deregister (l := s.life) (pendingTasks.count .deregister)
      (by simp [life, hpending])
    cases hin : s.inLoop <;>
      simpa [deregisterChannel, assertThat, epollDel, life, hin] using hstep

/-- The application calls shutdown functions only while the channel is not `INACTIVE`. -/
def ShutsDownLive (s : Session β) : Action α β → Prop
  | .shutdown | .shutdownRead | .shutdownWrite => s.state ≠ .inactive
  | _ => True

omit [Inhabited β] in
theorem inactive_of_not_shutsDownLive {s : Session β} {action : Action α β}
    (h : ¬ s.ShutsDownLive action) : s.state = .inactive := by
  cases action with
  | shutdown | shutdownRead | shutdownWrite => exact not_not.mp h
  | _ => exact absurd trivial h

theorem evolves_act {label : ℕ → List α → List β} {s t : Session β} {action : Action α β}
    (hok : s.ShutsDownLive action) (h : s.act label action = some t) : Evolves s t := by
  cases action with
  | write data callback answer before epoll =>
      have hlog := evolves_doWrite h
      refine (Evolves.of_eq ?_).trans hlog
      simp [life, delivery?, queuesDeregister]
  | shutdown =>
      obtain rfl := Option.some.inj h
      exact evolves_shutdown hok
  | shutdownRead =>
      obtain rfl := Option.some.inj h
      exact .of_eq (life_shutdownRead hok)
  | shutdownWrite =>
      obtain rfl := Option.some.inj h
      exact .of_eq (life_shutdownWrite hok)
  | handlerReturns =>
      simp only [act] at h
      split at h
      · rename_i stack hstack
        obtain rfl := Option.some.inj h
        exact .of_eq (by simp [life, hstack, owesDeregister])
      · cases h
  | handleReadEvent answers epoll =>
      simp only [act] at h
      split at h
      · exact evolves_handleReadEvent h
      · cases h
  | handleWriteEvent answers epoll =>
      simp only [act] at h
      split at h
      · exact evolves_handleWriteEvent h
      · cases h
  | handleErrorEvent =>
      simp only [act] at h
      split at h
      · obtain rfl := Option.some.inj h
        unfold handleErrorEvent
        split
        · exact .of_eq rfl
        · rename_i hstate
          exact evolves_channelInActive hstate
      · cases h
  | runTask epoll =>
      simp only [act] at h
      split at h
      · exact evolves_runTask h
      · cases h

theorem evolves_step {label : ℕ → List α → List β} {s t : Session β} {action : Action α β}
    (hok : s.ShutsDownLive action) (h : (system label).step s action = some t) :
    Evolves s t := by
  obtain ⟨u, hact, hresume⟩ := Option.bind_eq_some_iff.mp h
  exact (evolves_act hok hact).trans (evolves_unwind hresume)

end

/-! ## What the application and the loop see -/

/-- The disconnection is delivered at most once and is the last delivery, the channel is
`INACTIVE` from then on, and one deregister task at most is queued, which finds the channel in
its loop. -/
structure EndsOnce (s : Session β) : Prop where
  last_delivery : ∀ before after, s.log = before ++ .disconnect :: after →
    ∀ event ∈ after, delivery? event = none
  inactive : (∃ before after, s.log = before ++ .disconnect :: after) → s.state = .inactive
  deregister_once : s.log.countP queuesDeregister ≤ 1
  present : .deregisterChannel ∉ s.failedAssertions

/-- In a list that ends with its only `x`, if at all, nothing follows an occurrence of `x`. -/
theorem nil_of_append_cons_eq {γ : Type*} {x : γ} (pre : List γ) {post before : List γ} {ended : Bool}
    (hbefore : x ∉ before) (h : pre ++ x :: post = before ++ if ended then [x] else []) :
    ended = true ∧ post = [] := by
  cases ended with
  | false =>
      rw [if_neg (by simp), List.append_nil] at h
      exact absurd (h ▸ by simp) hbefore
  | true =>
      rw [if_pos rfl] at h
      refine ⟨rfl, ?_⟩
      rcases List.eq_nil_or_concat post with hnil | ⟨post', y, rfl⟩
      · exact hnil
      · rw [List.concat_eq_append, ← List.cons_append, ← List.append_assoc] at h
        have hinit := (List.append_inj' h rfl).1
        exact absurd (hinit ▸ by simp) hbefore

theorem Life.Sound.last {s : Session β} (h : s.life.Sound) {pre post : List (Event β)}
    (hlog : s.log = pre ++ .disconnect :: post) :
    s.life.ended = true ∧ post.filterMap delivery? = [] := by
  obtain ⟨before, hbefore, hdelivered⟩ := h.delivered
  refine nil_of_append_cons_eq (pre.filterMap delivery?) hbefore ?_
  rw [← hdelivered]
  simp [life, hlog, delivery?]

theorem state_of_hasEnded {state : ChannelState} (h : hasEnded state = true) :
    state = .inactive := by
  cases state with
  | inactive => rfl
  | active | halfClose => exact absurd h (by decide)

theorem endsOnce_of_sound {s : Session β} (h : s.life.Sound) : s.EndsOnce := by
  refine ⟨fun pre post hlog event hevent => ?_, fun ⟨pre, post, hlog⟩ => ?_, ?_, ?_⟩
  · exact List.filterMap_eq_nil_iff.mp (h.last hlog).2 event hevent
  · exact state_of_hasEnded (h.last hlog).1
  · have hqueued := h.queued
    change s.life.queued ≤ 1
    split at hqueued <;> omega
  · exact List.count_eq_zero.mp h.missing

/-- A channel that has ended has been told of the disconnection. -/
theorem Life.Sound.disconnected {s : Session β} (h : s.life.Sound) (hstate : s.state = .inactive) :
    ∃ before after, s.log = before ++ .disconnect :: after := by
  obtain ⟨before, -, hdelivered⟩ := h.delivered
  have hmem : Delivery.disconnect ∈ s.log.filterMap delivery? := by
    change Delivery.disconnect ∈ s.life.delivered
    rw [hdelivered]
    simp [life, hstate, hasEnded]
  obtain ⟨event, hevent, hdelivery⟩ := List.mem_filterMap.mp hmem
  have hdisconnect : event = .disconnect := by
    cases event with
    | disconnect => rfl
    | write | accepted | connect | read | addTask | shutdown => simp [delivery?] at hdelivery
  exact List.append_of_mem (hdisconnect ▸ hevent)

section

variable [Inhabited β]

/-- A shutdown function called on a channel that has ended revives it or ends it again. -/
theorem not_endsOnce_of_shutdown {label : ℕ → List α → List β} {s t : Session β}
    {action : Action α β} (hs : s.life.Sound) (hok : ¬ s.ShutsDownLive action)
    (h : (system label).step s action = some t) : ¬ t.EndsOnce := by
  obtain ⟨u, hact, hresume⟩ := Option.bind_eq_some_iff.mp h
  obtain ⟨hstate, rest, hlog⟩ := unwind_frame hresume
  obtain ⟨before, after, hended⟩ := hs.disconnected (inactive_of_not_shutsDownLive hok)
  intro hends
  cases action with
  | shutdown =>
      obtain rfl := Option.some.inj hact
      have htwice : t.log =
          before ++ .disconnect :: (after ++ [.shutdown .rdwr, .disconnect] ++ rest) := by
        simp [← hlog, shutdown, shutdownHow, channelInActive, emit, hended]
      have hsecond := hends.last_delivery _ _ htwice .disconnect (by simp)
      simp [delivery?] at hsecond
  | shutdownRead =>
      obtain rfl := Option.some.inj hact
      have hrevived := hends.inactive ⟨before, after ++ [.shutdown .rd] ++ rest, by
        simp [← hlog, shutdownRead, shutdownHow, emit, hended]⟩
      rw [hstate] at hrevived
      exact absurd hrevived (by simp [shutdownRead])
  | shutdownWrite =>
      obtain rfl := Option.some.inj hact
      have hrevived := hends.inactive ⟨before, after ++ [.shutdown .wr] ++ rest, by
        simp [← hlog, shutdownWrite, shutdownHow, emit, hended]⟩
      rw [hstate] at hrevived
      exact absurd hrevived (by simp [shutdownWrite])
  | _ => exact hok trivial

/-- In the runs in which the application calls shutdown functions only while the channel is not
`INACTIVE`, and in no other, the channel ends once in every state passed through. -/
theorem endsOnce_iff_shutsDownLive (label : ℕ → List α → List β) (actions : List (Action α β)) :
    (system label).Along EndsOnce fresh.channelActive actions ↔
      (system label).StepsMeet ShutsDownLive fresh.channelActive actions := by
  refine System.along_iff_stepsMeet (I := fun s => s.life.Sound) _
    (fun s hs => endsOnce_of_sound hs)
    (fun s action t hs hok h => hs.of_steps (evolves_step hok h))
    (fun s action t hs hok h => not_endsOnce_of_shutdown hs hok h) ?_ actions
  exact ⟨⟨[.connect], by decide, rfl⟩, rfl, rfl, rfl⟩

end

/-- A handler that calls `shutdown` twice is told of the disconnection twice. -/
theorem not_endsOnce_shutdown_twice :
    ¬ ∀ actions : List (Action UInt8 UInt8),
      (system fun _ data => data).Along EndsOnce fresh.channelActive actions := by
  intro h
  obtain ⟨-, hfirst⟩ := h [.shutdown, .shutdown]
  have hends : EndsOnce (fresh.channelActive : Session UInt8).shutdown.shutdown :=
    (hfirst _ rfl).2 _ rfl
  have hsecond := hends.last_delivery [.connect, .shutdown .rdwr]
    [.shutdown .rdwr, .disconnect] rfl .disconnect (by simp)
  simp [delivery?] at hsecond

end Nets.Session
