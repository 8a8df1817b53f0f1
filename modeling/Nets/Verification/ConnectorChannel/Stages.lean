import Nets.Library.Histories
import Nets.Program.ConnectorChannel
import Nets.Verification.EpollPoller.Agreement

/-! # What a connector waits for

A connector waits for its connection, for the task that ends a failed attempt, for the timer of the next
attempt, or for nothing any more. `connect` starts one of these from a state in which there is none. -/

namespace Nets.Connector

open Library

variable {c t : Connector} {r : Registry Unit} {f : FdType}

/-! ## The registry of one channel -/

structure Outside (r : Registry Unit) : Prop where
  isRegistered : r.isRegistered () = false
  channels : r.channels = fun _ => none
  interest : r.interest = fun _ => none

/-- Registered under one descriptor, and not for read events. -/
structure Inside (f : FdType) (r : Registry Unit) : Prop where
  isRegistered : r.isRegistered () = true
  channels : r.channels = Function.update (fun _ => none) f (some ())
  interest : ∃ events : EpollEvents, events.epollIn = false ∧
    r.interest = Function.update (fun _ => none) f (some ((), events))

theorem Outside.registered (hr : Outside r) (hevents : (epollEvents (r.events ())).epollIn = false) :
    (r.registerChannel (fun _ => f) () true).1 = true ∧
      Inside f (r.registerChannel (fun _ => f) () true).2 ∧
      (r.registerChannel (fun _ => f) () true).2.events = r.events := by
  rw [Registry.registerChannel_eq hr.isRegistered (by rw [hr.interest])]
  refine ⟨rfl, ⟨?_, ?_, _, hevents, ?_⟩, rfl⟩
  · simp [Registry.put]
  · simp [Registry.put, hr.channels]
  · simp [Registry.put, hr.interest, Registry.entryOf]

theorem Outside.refused (hr : Outside r) :
    r.registerChannel (fun _ => f) () false = (false, r) := by
  simp [Registry.registerChannel, EpollPoller.registerChannel, EpollPoller.addChannel,
    EpollPoller.epollCtl, Registry.epollEntry, hr.isRegistered, hr.interest]

theorem Inside.deregistered (hr : Inside f r) :
    Outside (r.deregisterChannel (fun _ => f) () true) := by
  obtain ⟨events, -, hinterest⟩ := hr.interest
  rw [Registry.deregisterChannel_eq]
  refine ⟨?_, ?_, ?_⟩
  · simp [Registry.put]
  · simp [Registry.put, hr.channels]
  · simp [Registry.put, hinterest]

/-- Closing a descriptor does not take out what is not there. -/
theorem Outside.closed (hr : Outside r) (f : FdType) :
    Outside { r with interest := Function.update r.interest f none } := by
  refine ⟨hr.isRegistered, hr.channels, ?_⟩
  simp [hr.interest]

/-! ## What the operations come to -/

theorem assertThat_of {assertion : Assertion} {holds : Bool} (h : holds = true) :
    c.assertThat assertion holds = c := by
  rw [assertThat, if_pos h]

/-- What closing a descriptor adds to the history. -/
def closing (f : FdType) : List Event := if 0 ≤ f then [.closed f] else []

theorem closeFd_eq (f : FdType) (c : Connector) :
    c.closeFd f = { c with
      log := c.log ++ closing f
      registry := { c.registry with
        interest := if 0 ≤ f then Function.update c.registry.interest f none
          else c.registry.interest } } := by
  rw [closeFd, closing]
  split
  · rfl
  · rw [List.append_nil]

theorem reconnect_eq (h : c.state ≠ .connected) :
    c.reconnect = { { c with state := .disconnected }.closeFd c.sockFd with
      sockFd := kInvalidFd, timers := c.timers + 1 } := by
  rw [reconnect, assertThat_of (decide_eq_true h), closeFd_eq]

/-- The calls of `newSocketChannel`. -/
def Event.isNew : Event → Bool
  | .newSocketChannel _ => true
  | _ => false

def made (c : Connector) : ℕ := c.log.countP Event.isNew

theorem countP_closing (f : FdType) (log : List Event) :
    (log ++ closing f).countP Event.isNew = log.countP Event.isNew := by
  rw [closing]
  split
  · simp [Event.isNew]
  · rw [List.append_nil]

/-! ## The history -/

/-- What `connect` finds: no descriptor, and all that were opened are closed. -/
def Enters (before : List Event) (event : Event) : Prop :=
  ∀ state fd, event = .connecting state fd →
    state = .disconnected ∧ fd = kInvalidFd ∧ ∀ g, .opened g ∈ before → .closed g ∈ before

structure Recorded (c : Connector) : Prop where
  connects : EachAfter Enters c.log
  opened : ∀ g, .opened g ∈ c.log → 0 ≤ g ∧ (.closed g ∈ c.log ∨ g = c.sockFd)
  asserted : c.failedAssertions = []
  events : (epollEvents (c.registry.events ())).epollIn = false
  made : c.made = 0 → c.socketChannels = []

theorem Recorded.note (h : Recorded c) {e : Event} (hconnect : ∀ s g, e ≠ .connecting s g)
    (hopen : ∀ g, e ≠ .opened g) (hnew : e.isNew = false) : Recorded (c.note e) where
  connects := h.connects.concat fun s g heq => absurd heq (hconnect s g)
  opened g hg := by
    have hold : .opened g ∈ c.log := by simpa [Connector.note, (hopen g).symm] using hg
    obtain ⟨hpos, hclosed⟩ := h.opened g hold
    exact ⟨hpos, hclosed.imp_left fun hmem => List.mem_append_left _ hmem⟩
  asserted := h.asserted
  events := h.events
  made hmade := h.made (by simpa [Connector.made, Connector.note, hnew] using hmade)

theorem Recorded.used (h : Recorded c) : Recorded (c.note (.used f)) := h.note nofun nofun rfl

theorem Recorded.closeFd (h : Recorded c) (f : FdType) : Recorded (c.closeFd f) := by
  rw [Connector.closeFd]
  split
  · have hnote : Recorded (c.note (.closed f)) := h.note nofun nofun rfl
    exact { hnote with }
  · exact h

/-- Before the next attempt the descriptor of the last one is closed. -/
theorem Recorded.reconnect (h : Recorded c) (hstate : c.state ≠ .connected) :
    Recorded c.reconnect := by
  rw [reconnect_eq hstate]
  have hstart : Recorded { c with state := .disconnected } := { h with }
  have hclose := hstart.closeFd c.sockFd
  refine { hclose with opened := fun g hg => ?_ }
  obtain ⟨hpos, hclosed⟩ := hclose.opened g hg
  refine ⟨hpos, .inl (hclosed.elim id fun heq => ?_)⟩
  rw [closeFd_eq] at heq ⊢
  replace heq : g = c.sockFd := heq
  rw [heq] at hpos
  simp [heq, closing, hpos]

theorem Recorded.newSocketChannel (h : Recorded c) (hstate : c.state ≠ .connected)
    (caller : Caller) : Recorded (c.newSocketChannel caller) := by
  rw [Connector.newSocketChannel, assertThat_of (decide_eq_true hstate)]
  have hused : Recorded (c.note (.used c.sockFd)) := h.used
  refine ⟨hused.connects.concat nofun, fun g hg => ?_, h.asserted, h.events, fun hmade => ?_⟩
  · have hold : .opened g ∈ (c.note (.used c.sockFd)).log := by
      simpa [Connector.note] using hg
    obtain ⟨hpos, hclosed⟩ := hused.opened g hold
    exact ⟨hpos, hclosed.imp_left fun hmem => List.mem_append_left _ hmem⟩
  · simp [Connector.made, Connector.note, Event.isNew] at hmade

/-! ## What the connector waits for -/

/-- It waits for its connection, and nothing has been queued that ends the attempt. -/
def isWaiting (c : Connector) : Bool :=
  c.isRegistered && decide (c.state = .connecting) && c.tasks.isEmpty

/-- The things that would go on with the connection: the registered connector, its tasks and its
timers. -/
def continuations (c : Connector) : ℕ :=
  (if c.isWaiting then 1 else 0) + c.tasks.length + c.timers

/-- No ready event is still to be handled. -/
def NoneReady (phase : Phase) : Prop := ∀ events, phase = .dispatch events → events = []

structure Rests (c : Connector) : Prop where
  tasks : c.tasks = []
  timers : c.timers = 0
  initializing : c.initializing = none

/-- The connector exists, and its loop runs. -/
structure Lives (c : Connector) : Prop where
  isDestroyed : c.isDestroyed = false
  running : c.phase ≠ .exited

/-- Between two attempts, and in `connect` up to the answer of `::connect`. -/
structure Fresh (c : Connector) : Prop where
  lives : Lives c
  rests : Rests c
  state : c.state = .disconnected
  outside : Outside c.registry
  made : c.made = 0
  ready : NoneReady c.phase

structure Waiting (c : Connector) : Prop where
  lives : Lives c
  rests : Rests c
  state : c.state = .connecting
  inside : Inside c.sockFd c.registry
  made : c.made = 0
  ready : ∀ events, c.phase = .dispatch events → events = [] ∨ events = [.write]

/-- The initialization callback runs. Only a connection that was waited for is still registered. -/
structure Announced (c : Connector) : Prop where
  lives : Lives c
  tasks : c.tasks = []
  timers : c.timers = 0
  calls : ∃ caller, c.initializing = some caller ∧
    (caller = .handleEvent ∧ c.state = .connecting ∧ Inside c.sockFd c.registry ∨
      caller ≠ .handleEvent ∧ c.state = .disconnected ∧ Outside c.registry)
  made : c.made = 1
  ready : NoneReady c.phase

/-- The task runs before the loop polls again. -/
structure Failed (c : Connector) : Prop where
  lives : Lives c
  state : c.state = .connecting
  inside : Inside c.sockFd c.registry
  tasks : ∃ task, c.tasks = [task]
  timers : c.timers = 0
  initializing : c.initializing = none
  made : c.made = 0
  ready : NoneReady c.phase
  pending : ∀ tmpTasks, c.phase = .runPendingTasks tmpTasks → c.pendingTasks = []

structure Delayed (c : Connector) : Prop where
  lives : Lives c
  state : c.state = .disconnected
  sockFd : c.sockFd = kInvalidFd
  outside : Outside c.registry
  tasks : c.tasks = []
  timers : c.timers = 1
  initializing : c.initializing = none
  made : c.made = 0
  ready : NoneReady c.phase

/-- Nothing goes on: it is connected, or it has given up. -/
structure Ended (c : Connector) : Prop where
  rests : Rests c
  outside : Outside c.registry
  made : c.made ≤ 1
  ready : NoneReady c.phase

/-- The loop has been left before the connector was connected. -/
structure Stopped (c : Connector) : Prop where
  phase : c.phase = .exited
  state : c.state ≠ .connected
  one : c.continuations ≤ 1
  initializing : c.initializing = none
  made : c.made ≤ 1

inductive Stage (c : Connector) : Prop where
  | waiting (h : Waiting c)
  | announced (h : Announced c)
  | failed (h : Failed c)
  | delayed (h : Delayed c)
  | ended (h : Ended c)
  | stopped (h : Stopped c)

structure Sound (c : Connector) : Prop where
  stage : Stage c
  recorded : Recorded c

/-! ## `connect` -/

theorem made_note {e : Event} (hnew : e.isNew = false) : (c.note e).made = c.made := by
  simp [made, note, hnew]

theorem Fresh.note (hc : Fresh c) {e : Event} (hnew : e.isNew = false) : Fresh (c.note e) :=
  { hc with
    rests := { hc.rests with }
    lives := { hc.lives with }
    made := (made_note hnew).trans hc.made }

theorem Fresh.newSocketChannel (hc : Fresh c) {caller : Caller} (hcaller : caller ≠ .handleEvent) :
    Announced (c.newSocketChannel caller) := by
  have hstate : c.state ≠ .connected := by simp [hc.state]
  rw [Connector.newSocketChannel, assertThat_of (decide_eq_true hstate)]
  refine ⟨{ hc.lives with }, hc.rests.tasks, hc.rests.timers, ⟨caller, rfl, ?_⟩, ?_, hc.ready⟩
  · exact .inr ⟨hcaller, hc.state, hc.outside⟩
  · have hmade := hc.made
    simpa [Connector.made, Connector.note, Event.isNew] using hmade

/-- The reconnection is the only thing that goes on. -/
theorem delayed_reconnect (hlives : Lives c) (hstate : c.state ≠ .connected)
    (houtside : Outside c.registry) (hrests : Rests c) (hmade : c.made = 0)
    (hready : NoneReady c.phase) : Delayed c.reconnect := by
  rw [reconnect_eq hstate, closeFd_eq]
  refine ⟨{ hlives with }, rfl, rfl, ?_, hrests.tasks, congrArg (· + 1) hrests.timers,
    hrests.initializing, ?_, hready⟩
  · dsimp only
    split
    · exact houtside.closed c.sockFd
    · exact houtside
  · exact (countP_closing ..).trans hmade

theorem Fresh.reconnect (hc : Fresh c) : Delayed c.reconnect :=
  delayed_reconnect hc.lives (by simp [hc.state]) hc.outside hc.rests hc.made hc.ready

theorem Fresh.ended (hc : Fresh c) : Ended c :=
  ⟨hc.rests, hc.outside, hc.made.trans_le zero_le_one, hc.ready⟩

theorem Recorded.addEvent (h : Recorded c) : Recorded (c.addEvent kWriteEvent) := by
  refine { h with events := ?_ }
  have hevents := h.events
  simpa [Connector.addEvent, Registry.addEvent, Registry.setEvents, epollEvents,
    Nat.and_or_distrib_right, kWriteEvent, kReadEvent] using hevents

theorem registerTo_refused (hr : Outside c.registry) :
    c.registerTo false = (false, c.note (.used c.sockFd)) := by
  rw [registerTo, hr.refused]
  rfl

theorem Fresh.waitConnect (hc : Fresh c) (hr : Recorded c) (epoll : Bool) :
    Sound (c.waitConnect epoll) := by
  have hadded : Fresh (c.addEvent kWriteEvent) :=
    ⟨{ hc.lives with }, { hc.rests with }, hc.state, { hc.outside with }, hc.made, hc.ready⟩
  have hevents := hr.addEvent
  rw [Connector.waitConnect]
  generalize c.addEvent kWriteEvent = u at hadded hevents
  cases epoll with
  | true =>
      obtain ⟨hresult, hinside, hsame⟩ := hadded.outside.registered (f := u.sockFd) hevents.events
      simp only [registerTo, hresult]
      refine ⟨.waiting ⟨{ hadded.lives with }, { hadded.rests with }, rfl, hinside, ?_, ?_⟩,
        { hevents.used with events := ?_ }⟩
      · exact (made_note rfl).trans hadded.made
      · exact fun events hphase => .inl (hadded.ready events hphase)
      · dsimp only
        rw [hsame]
        exact hevents.events
  | false =>
      have hfresh : Fresh (u.note (.used u.sockFd)) := hadded.note rfl
      have hused : Recorded (u.note (.used u.sockFd)) := hevents.used
      rw [registerTo_refused hadded.outside]
      generalize u.note (.used u.sockFd) = v at hfresh hused
      have hregistered : v.isRegistered = false := hfresh.outside.isRegistered
      simp only [hregistered, Bool.false_eq_true, if_false]
      split
      · exact ⟨.delayed hfresh.reconnect, hused.reconnect (by simp [hfresh.state])⟩
      · exact ⟨.ended hfresh.ended, hused⟩

theorem Fresh.handleConnectError (hc : Fresh c) (hr : Recorded c) (errNum : ℕ) (epoll : Bool) :
    Sound (c.handleConnectError errNum epoll) := by
  rw [Connector.handleConnectError]
  split
  · exact hc.waitConnect hr epoll
  split
  · exact ⟨.delayed hc.reconnect, hr.reconnect (by simp [hc.state])⟩
  · exact ⟨.ended hc.ended, hr⟩

theorem Fresh.escape (hc : Fresh c) (hr : Recorded c) (caller : Caller) :
    Sound (c.escape caller) := by
  have hended := hc.ended
  cases caller with
  | doConnect => exact ⟨.ended hended, hr⟩
  | timer | handleEvent =>
      refine ⟨.ended ⟨⟨?_, hc.rests.timers, hc.rests.initializing⟩, hc.outside, hended.made, nofun⟩,
        { hr with }⟩
      exact (List.append_eq_nil_iff.mp hc.rests.tasks).2

/-- No descriptor is left, so that all are closed. -/
theorem Recorded.closed (hr : Recorded c) (hfd : c.sockFd = kInvalidFd) {g : FdType}
    (hg : .opened g ∈ c.log) : .closed g ∈ c.log := by
  obtain ⟨hpos, hclosed⟩ := hr.opened g hg
  refine hclosed.resolve_right fun heq => ?_
  rw [heq, hfd] at hpos
  exact absurd hpos (by decide)

theorem Recorded.connecting (hr : Recorded c) (hstate : c.state = .disconnected)
    (hfd : c.sockFd = kInvalidFd) : Recorded (c.note (.connecting c.state c.sockFd)) := by
  refine ⟨hr.connects.concat ?_, fun g hg => ?_, hr.asserted, hr.events, fun hmade => ?_⟩
  · rintro _ _ ⟨⟩
    exact ⟨hstate, hfd, fun g => hr.closed hfd⟩
  · have hold : .opened g ∈ c.log := by simpa [Connector.note] using hg
    exact ⟨(hr.opened g hold).1, .inl (List.mem_append_left _ (hr.closed hfd hold))⟩
  · exact hr.made ((made_note rfl).symm.trans hmade)

theorem Recorded.createTcpSocket (hr : Recorded c) (hfd : c.sockFd = kInvalidFd) :
    Recorded c.createTcpSocket := by
  refine ⟨hr.connects.concat nofun, fun g hg => ?_, hr.asserted, hr.events, fun hmade => ?_⟩
  · rcases List.mem_append.mp hg with hold | hnew
    · exact ⟨(hr.opened g hold).1, .inl (List.mem_append_left _ (hr.closed hfd hold))⟩
    · obtain rfl : g = (c.sockets : FdType) := by simpa using hnew
      exact ⟨Int.natCast_nonneg _, .inr rfl⟩
  · exact hr.made ((made_note (e := .opened c.sockets) rfl).symm.trans hmade)

theorem Fresh.createTcpSocket (hc : Fresh c) : Fresh c.createTcpSocket :=
  ⟨{ hc.lives with }, { hc.rests with }, hc.state, hc.outside, (made_note rfl).trans hc.made, hc.ready⟩

theorem Fresh.connect (hc : Fresh c) (hr : Recorded c) (hfd : c.sockFd = kInvalidFd)
    {caller : Caller} (hcaller : caller ≠ .handleEvent) (answer : Answer) :
    Sound (c.connect caller answer) := by
  have henter := hr.connecting hc.state hfd
  have hfresh : Fresh (c.note (.connecting c.state c.sockFd)) := hc.note rfl
  rw [Connector.connect]
  have hnone : (c.note (.connecting c.state c.sockFd)).sockFd = kInvalidFd := hfd
  generalize c.note (.connecting c.state c.sockFd) = u at henter hfresh hnone
  split
  · have hopened := hfresh.createTcpSocket
    have hused : Recorded (u.createTcpSocket.note (.used u.createTcpSocket.sockFd)) :=
      (henter.createTcpSocket hnone).used
    simp only [assertThat_of (decide_eq_true hopened.state)]
    have hgo : Fresh (u.createTcpSocket.note (.used u.createTcpSocket.sockFd)) := hopened.note rfl
    split
    · exact ⟨.announced (hgo.newSocketChannel hcaller),
        hused.newSocketChannel (by simp [hgo.state]) caller⟩
    · exact hgo.handleConnectError hused answer.errNum answer.epoll
  · exact hfresh.escape henter caller

end Nets.Connector
