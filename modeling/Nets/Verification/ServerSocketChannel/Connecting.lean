import Nets.Program.ServerSocketChannel
import Nets.Verification.SocketChannel.Equations

/-! # Connect before read

The channel is in the poller of its loop before `state_` is `ACTIVE`, and `state_` is `ACTIVE` before
`channelConnect` runs. A handler that tests `state_` too early drops its event; between the two the
test lets it through. -/

namespace Nets.Connection

open Library

variable {α β : Type} {c d : Connection α β}

/-- The event is a call of the application's `channelRead` or `channelDisconnect`. -/
def isInbound : Event β → Bool
  | .read _ | .disconnect => true
  | .write .. | .accepted _ | .connect | .addTask _ | .shutdown _ => false

/-- Nothing is delivered before `channelConnect` has returned. -/
def ConnectFirst (c : Connection α β) : Prop :=
  c.acceptor ≠ .delivered → c.session.log.any isInbound = false

instance : DecidablePred (ConnectFirst (α := α) (β := β)) :=
  fun _ => inferInstanceAs (Decidable (_ → _))

/-- `state_` is `ACTIVE`, and `channelConnect` has not returned. -/
def isConnecting : ChannelActive → Bool
  | .firing | .delivering _ => true
  | .registering | .recording | .activating | .delivered | .failed => false

/-- While the channel is connecting, its loop runs neither a handler nor a `doWrite`, which test
`state_`, and `channelConnect` does not close the channel itself. -/
def AwaitsConnect (c : Connection α β) : Action α β → Prop
  | .handleEvent _ | .runPosted .. | .call .shutdown => isConnecting c.acceptor = false
  | _ => True

instance (action : Action α β) : Decidable (AwaitsConnect c action) := by
  unfold AwaitsConnect
  split <;> infer_instance

/-- Until `channelConnect` has returned the loop has done nothing with the channel: before it is
connecting no handler passes the test of `state_`, and then none makes it. -/
structure Unheard (c : Connection α β) : Prop where
  stack : c.session.stack = []
  pendingTasks : c.session.pendingTasks = []
  log : c.session.log.any isInbound = false
  state : isConnecting c.acceptor = false → c.session.state = .inactive
  posted : isConnecting c.acceptor = false → c.posted = []
  closing : ∀ closing, c.acceptor = .delivering closing → closing = 0

/-! ## The accepting thread -/

/-- `EPOLL_CTL_ADD` changes nothing of this. -/
theorem Unheard.register (hc : Unheard c) (hacceptor : isConnecting c.acceptor = false) (epoll : Bool) :
    Unheard { c with session := c.session.epollAdd epoll, acceptor := .recording } := by
  obtain ⟨hkept, -⟩ := Session.epollAdd_kept epoll c.session
  exact ⟨hkept.stack.trans hc.stack, hkept.pendingTasks.trans hc.pendingTasks,
    (congrArg (List.any · isInbound) hkept.log).trans hc.log,
    fun _ => hkept.state.trans (hc.state hacceptor), fun _ => hc.posted hacceptor, nofun⟩

theorem Unheard.channelActive (hc : Unheard c) {epoll : Bool} (h : c.channelActive epoll = some d) :
    Unheard d := by
  rw [Connection.channelActive] at h
  split at h
  case h_1 hacceptor =>
      have hbefore : isConnecting c.acceptor = false := by rw [hacceptor]; rfl
      split at h
      · rw [← Option.some.inj h]
        exact hc.register hbefore true
      · rw [← Option.some.inj h]
        exact ⟨hc.stack, hc.pendingTasks, hc.log, fun _ => hc.state hbefore,
          fun _ => hc.posted hbefore, nofun⟩
  case h_2 hacceptor =>
      have hbefore : isConnecting c.acceptor = false := by rw [hacceptor]; rfl
      rw [← Option.some.inj h]
      exact ⟨hc.stack, hc.pendingTasks, hc.log, fun _ => hc.state hbefore,
        fun _ => hc.posted hbefore, nofun⟩
  case h_3 =>
      rw [← Option.some.inj h]
      exact ⟨hc.stack, hc.pendingTasks, hc.log, nofun, nofun, nofun⟩
  case h_4 =>
      rw [← Option.some.inj h]
      refine ⟨hc.stack, hc.pendingTasks, ?_, nofun, nofun, ?_⟩
      · change (c.session.log ++ [Event.connect]).any isInbound = false
        rw [List.any_append, hc.log]
        rfl
      · rintro _ ⟨⟩
        rfl
  all_goals cases h

/-- What `channelConnect` calls is not seen by the loop, unless it closes the channel. -/
theorem Unheard.call (hc : Unheard c) {closing : ℕ} (hacceptor : c.acceptor = .delivering closing)
    {call : Call α} (hok : AwaitsConnect c (.call call)) : Unheard (c.call call closing) := by
  have hconnecting : isConnecting c.acceptor = true := by rw [hacceptor]; rfl
  have hnot : ∀ {p : Prop}, isConnecting c.acceptor = false → p := by
    intro p h
    rw [hconnecting] at h
    cases h
  cases call with
  | write data callback => exact ⟨hc.stack, hc.pendingTasks, hc.log, hnot, hnot, hc.closing⟩
  | shutdown => exact hnot hok
  | shutdownRead | shutdownWrite =>
      refine ⟨hc.stack, hc.pendingTasks, ?_, hnot, hnot, hc.closing⟩
      change (c.session.log ++ [_]).any isInbound = false
      rw [List.any_append, hc.log]
      rfl

/-! ## The thread of the loop -/

/-- A handler or a `doWrite` leaves a channel alone that is not `ACTIVE` yet. -/
theorem Unheard.handleEvent [Inhabited β] {label : ℕ → List α → List β} (hc : Unheard c)
    (hbefore : isConnecting c.acceptor = false) {answers : Answers β}
    (h : c.handleEvent label answers = some d) : Unheard d := by
  have hstate := hc.state hbefore
  have hresume : c.session.resume = some c.session := by
    rw [Session.resume, hc.stack, Session.unwind, ← hc.stack]
  have hidle : ∀ (readyEvents : List ReadyEvent) (action : Session.Action α β),
      c.session.act label action = some c.session →
      ({ c with readyEvents } : Connection α β).perform label action = some d → Unheard d := by
    intro readyEvents action haction hd
    rw [perform, haction, Option.bind_some, hresume] at hd
    rw [← Option.some.inj hd]
    exact ⟨hc.stack, hc.pendingTasks, hc.log, hc.state, hc.posted, hc.closing⟩
  rw [Connection.handleEvent] at h
  split at h
  · cases h
  · apply hidle _ _ _ h
    simp [Session.act, hc.stack, Session.handleErrorEvent, hstate]
  · apply hidle _ _ _ h
    simp [Session.act, hc.stack, Session.handleReadEvent, hstate]
  · apply hidle _ _ _ h
    simp [Session.act, hc.stack, Session.handleWriteEvent, hstate]

theorem acceptor_of_perform [Inhabited β] {label : ℕ → List α → List β} {action : Session.Action α β}
    (h : c.perform label action = some d) : d.acceptor = c.acceptor := by
  obtain ⟨session, -, rfl⟩ := Option.map_eq_some_iff.mp h
  rfl

/-- The accepting thread has returned. -/
theorem delivered_of_step [Inhabited β] {label : ℕ → List α → List β}
    (hdelivered : c.acceptor = .delivered) {action : Action α β}
    (h : c.step label action = some d) : d.acceptor = .delivered := by
  cases action with
  | channelActive epoll => simp [Connection.step, Connection.channelActive, hdelivered] at h
  | call call => simp [Connection.step, hdelivered] at h
  | handlerReturns => simp [Connection.step, hdelivered] at h
  | poll input error output =>
      obtain ⟨-, h⟩ := Option.ite_none_right_eq_some.mp h
      obtain ⟨events, -, rfl⟩ := Option.map_eq_some_iff.mp h
      exact hdelivered
  | handleEvent answers =>
      obtain ⟨-, h⟩ := Option.ite_none_right_eq_some.mp h
      rw [Connection.handleEvent] at h
      split at h
      · cases h
      · exact (acceptor_of_perform h).trans hdelivered
      · exact (acceptor_of_perform h).trans hdelivered
      · exact (acceptor_of_perform h).trans hdelivered
  | inHandler action =>
      obtain ⟨-, h⟩ := Option.ite_none_left_eq_some.mp h
      obtain ⟨-, h⟩ := Option.ite_none_right_eq_some.mp h
      exact (acceptor_of_perform h).trans hdelivered
  | runTask epoll =>
      obtain ⟨-, h⟩ := Option.ite_none_right_eq_some.mp h
      exact (acceptor_of_perform h).trans hdelivered
  | runPosted answer before epoll =>
      obtain ⟨-, h⟩ := Option.ite_none_right_eq_some.mp h
      split at h
      · cases h
      · exact (acceptor_of_perform h).trans hdelivered

theorem Unheard.step [Inhabited β] {label : ℕ → List α → List β} (hc : Unheard c)
    {action : Action α β} (hok : AwaitsConnect c action) (h : c.step label action = some d) :
    d.acceptor = .delivered ∨ Unheard d := by
  cases action with
  | channelActive epoll => exact Or.inr (hc.channelActive h)
  | call call =>
      simp only [Connection.step] at h
      split at h
      case h_1 closing hacceptor =>
          rw [← Option.some.inj h]
          exact Or.inr (hc.call hacceptor hok)
      · cases h
  | handlerReturns =>
      simp only [Connection.step] at h
      split at h
      case h_1 closing hacceptor =>
          rw [← Option.some.inj h, hc.closing closing hacceptor]
          exact Or.inl rfl
      · cases h
  | poll input error output =>
      obtain ⟨-, h⟩ := Option.ite_none_right_eq_some.mp h
      obtain ⟨events, -, rfl⟩ := Option.map_eq_some_iff.mp h
      exact Or.inr ⟨hc.stack, hc.pendingTasks, hc.log, hc.state, hc.posted, hc.closing⟩
  | handleEvent answers =>
      obtain ⟨-, h⟩ := Option.ite_none_right_eq_some.mp h
      exact Or.inr (hc.handleEvent hok h)
  | inHandler action =>
      obtain ⟨hstack, -⟩ := Option.ite_none_left_eq_some.mp h
      rw [hc.stack] at hstack
      exact absurd rfl hstack
  | runTask epoll =>
      obtain ⟨-, h⟩ := Option.ite_none_right_eq_some.mp h
      simp [perform, Session.act, hc.stack, Session.runTask, hc.pendingTasks] at h
  | runPosted answer before epoll =>
      obtain ⟨-, h⟩ := Option.ite_none_right_eq_some.mp h
      rw [hc.posted hok] at h
      cases h

/-! ## Runs -/

theorem unheard_accept : Unheard (accept : Connection α β) :=
  ⟨rfl, rfl, rfl, fun _ => rfl, fun _ => rfl, nofun⟩

/-- When nothing is handled while the channel is connecting, no `channelRead` and no
`channelDisconnect` comes before the end of `channelConnect`. -/
theorem connect_before_read [Inhabited β] {label : ℕ → List α → List β}
    (hc : (system label).ReachableUnder AwaitsConnect c) : ConnectFirst c := by
  have hunheard : c.acceptor = .delivered ∨ Unheard c := by
    induction hc with
    | initial hs =>
        obtain rfl := hs
        exact Or.inr unheard_accept
    | @step c d action _ hok hd ih =>
        obtain hdelivered | hc := ih
        · exact Or.inl (delivered_of_step hdelivered hd)
        · exact hc.step hok hd
  intro hne
  obtain hdelivered | hc := hunheard
  · exact absurd hdelivered hne
  · exact hc.log

/-- The peer resets the connection before `channelConnect` has run, and the loop handles it before
`state_` is `ACTIVE`. -/
theorem connect_before_read_dropped : ∃ c : Connection ℕ ℕ,
    (system fun _ data => data).ReachableUnder AwaitsConnect c ∧ c.acceptor = .delivering 0 ∧
      c.readyEvents = [.read] ∧ ConnectFirst c := by
  have hinitial : (system fun _ (data : List ℕ) => data).ReachableUnder AwaitsConnect accept :=
    .initial rfl
  obtain ⟨c, hc, hacceptor, hready⟩ := hinitial.exists_of_runUnder _
    (P := fun c => c.acceptor = .delivering 0 ∧ c.readyEvents = [.read])
    [.channelActive true, .poll true true false, .handleEvent ⟨[], [], true⟩, .channelActive true,
      .channelActive true, .channelActive true] (by decide +kernel)
  exact ⟨c, hc, hacceptor, hready, connect_before_read hc⟩

/-- The peer resets the connection, and the loop handles it between the store to `state_` and the call
of `channelConnect`. -/
theorem disconnect_before_connect :
    ¬ ∀ c : Connection ℕ ℕ, (system fun _ data => data).Reachable c → ConnectFirst c := by
  intro hall
  have hinitial : (system fun _ (data : List ℕ) => data).Reachable accept := .initial rfl
  obtain ⟨c, hc, hfirst⟩ := hinitial.exists_of_runUnder _ (P := fun c => ¬ ConnectFirst c)
    [.channelActive true, .channelActive true, .channelActive true, .poll true true false,
      .handleEvent ⟨[], [], true⟩] (by decide +kernel)
  exact hfirst (hall c hc)

end Nets.Connection
