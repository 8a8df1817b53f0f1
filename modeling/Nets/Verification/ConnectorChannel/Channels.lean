import Nets.Verification.ConnectorChannel.Stages
import Nets.Verification.Dispatch.Steps

/-! # A connector among other channels

`Dispatch` has the connectors of a loop together with its other channels, and `Connector` has one by itself,
with a registry and descriptors of its own. What `net/channel/ConnectorChannel.cpp` does with a connector is
the same in both. -/

namespace Nets

open Library

namespace Registry

variable {χ : Type} {r : Registry χ} {own : Registry Unit} {i : χ} {fd ownFd : FdType}

/-- What a registry has of channel `i` and of its descriptor is what another one has of its only channel. Of
an invalid descriptor nothing is said. -/
structure Mirrors (r : Registry χ) (i : χ) (fd : FdType) (own : Registry Unit) (ownFd : FdType) : Prop where
  events : r.events i = own.events ()
  isRegistered : r.isRegistered i = own.isRegistered ()
  channels : 0 ≤ fd → r.channels fd = (own.channels ownFd).map fun _ => i
  interest : 0 ≤ fd → r.interest fd = (own.interest ownFd).map fun entry => (i, entry.2)

/-- A call on both has the same result, and goes on. -/
def Mirrored (i : χ) (fd ownFd : FdType) (x : Bool × Registry χ) (y : Bool × Registry Unit) : Prop :=
  x.1 = y.1 ∧ x.2.Mirrors i fd y.2 ownFd

/-- `channels_` with the channel, or without it. -/
theorem Mirrors.updateChannels (h : r.Mirrors i fd own ownFd) (entry : Option Unit) :
    Mirrors { r with channels := Function.update r.channels fd (entry.map fun _ => i) } i fd
      { own with channels := Function.update own.channels ownFd entry } ownFd where
  events := h.events
  isRegistered := h.isRegistered
  channels _ := by simp
  interest := h.interest

/-- The requests for the two descriptors are valid together. -/
theorem Mirrors.epollEntry (h : r.Mirrors i fd own ownFd) (hvalid : 0 ≤ fd) (opt : EpollOpt) :
    Registry.epollEntry opt (i, epollEvents (r.events i)) (r.interest fd) =
      (Registry.epollEntry opt ((), epollEvents (own.events ())) (own.interest ownFd)).map
        (Option.map fun entry => (i, entry.2)) := by
  rw [h.events, h.interest hvalid]
  cases own.interest ownFd <;> cases opt <;> rfl

variable {f : χ → FdType} {g : Unit → FdType}

theorem Mirrors.epollCtl (h : r.Mirrors i (f i) own (g ())) (hvalid : 0 ≤ f i) (opt : EpollOpt)
    (epoll : Bool) :
    Mirrored i (f i) (g ()) (EpollPoller.epollCtl f opt i epoll r)
      (EpollPoller.epollCtl g opt () epoll own) := by
  rw [EpollPoller.epollCtl, EpollPoller.epollCtl]
  simp only [h.epollEntry hvalid opt]
  cases Registry.epollEntry opt ((), epollEvents (own.events ())) (own.interest (g ())) with
  | none => exact ⟨rfl, h⟩
  | some entry =>
      cases epoll with
      | false => exact ⟨rfl, h⟩
      | true => exact ⟨rfl, h.events, h.isRegistered, h.channels, fun _ => by simp⟩

variable [DecidableEq χ]

theorem Mirrors.addEvent (h : r.Mirrors i fd own ownFd) (event : ℕ) :
    (r.addEvent event i).Mirrors i fd (own.addEvent event ()) ownFd where
  events := by simp [Registry.addEvent, setEvents, h.events]
  isRegistered := h.isRegistered
  channels := h.channels
  interest := h.interest

theorem Mirrors.setRegistered (h : r.Mirrors i fd own ownFd) (registered : Bool) :
    (r.setRegistered registered i).Mirrors i fd (own.setRegistered registered ()) ownFd where
  events := h.events
  isRegistered := by simp [Registry.setRegistered]
  channels := h.channels
  interest := h.interest

theorem Mirrors.addChannel (h : r.Mirrors i (f i) own (g ())) (hvalid : 0 ≤ f i) (epoll : Bool) :
    Mirrored i (f i) (g ()) (EpollPoller.addChannel f i epoll r)
      (EpollPoller.addChannel g () epoll own) := by
  have hadded := h.epollCtl hvalid .add epoll
  rw [EpollPoller.addChannel, EpollPoller.addChannel]
  generalize EpollPoller.epollCtl f .add i epoll r = x at hadded
  generalize EpollPoller.epollCtl g .add () epoll own = y at hadded
  obtain ⟨added, s⟩ := x
  obtain ⟨_, t⟩ := y
  obtain ⟨rfl, hs⟩ := hadded
  cases added with
  | true => exact ⟨rfl, hs.setRegistered true⟩
  | false => exact ⟨rfl, hs⟩

theorem Mirrors.deregister (h : r.Mirrors i (f i) own (g ())) (hvalid : 0 ≤ f i) (epoll : Bool) :
    Mirrored i (f i) (g ()) (EpollPoller.deregisterChannel f i epoll r)
      (EpollPoller.deregisterChannel g () epoll own) :=
  (h.setRegistered false).epollCtl hvalid .del epoll

theorem Mirrors.registerChannel (h : r.Mirrors i (f i) own (g ())) (hvalid : 0 ≤ f i) (epoll : Bool) :
    Mirrored i (f i) (g ()) (r.registerChannel f i epoll) (own.registerChannel g () epoll) := by
  have hregistered : Mirrored i (f i) (g ()) (EpollPoller.registerChannel f i epoll r)
      (EpollPoller.registerChannel g () epoll own) := by
    simp only [EpollPoller.registerChannel, EpollPoller.modifyRegistered, h.isRegistered, h.events]
    split
    · exact h.addChannel hvalid epoll
    · split
      · exact h.epollCtl hvalid .mod epoll
      · exact h.deregister hvalid epoll
  rw [Registry.registerChannel, Registry.registerChannel]
  generalize EpollPoller.registerChannel f i epoll r = x at hregistered
  generalize EpollPoller.registerChannel g () epoll own = y at hregistered
  obtain ⟨registered, s⟩ := x
  obtain ⟨_, t⟩ := y
  obtain ⟨rfl, hs⟩ := hregistered
  cases registered with
  | true => exact ⟨rfl, hs.updateChannels (some ())⟩
  | false => exact ⟨rfl, hs⟩

theorem Mirrors.deregisterChannel (h : r.Mirrors i (f i) own (g ())) (hvalid : 0 ≤ f i) (epoll : Bool) :
    (r.deregisterChannel f i epoll).Mirrors i (f i) (own.deregisterChannel g () epoll) (g ()) :=
  (h.deregister hvalid epoll).2.updateChannels none

end Registry

namespace Dispatch

variable {β : Type} {d : Dispatch β} {i : ℕ} {fd : FdType} {c : Connector}

/-- The connector as a channel of a loop. -/
def channelOf (c : Connector) : ConnectorChannel := ⟨c.state, c.retry, decide (0 < c.timers)⟩

/-- Channel `i` of the loop is the connector `c`, by its own descriptor `fd`, and its initialization callback
runs where that of `c` does. -/
structure HasConnector (i : ℕ) (fd : FdType) (c : Connector) (d : Dispatch β) : Prop where
  object : d.objects i = some ⟨fd, .connectorChannel (channelOf c)⟩
  valid : 0 ≤ fd ↔ 0 ≤ c.sockFd
  registry : d.registry.Mirrors i fd c.registry c.sockFd
  initializing : d.initializing.any (fun new => new.connector = some i) = c.initializing.isSome

/-! ## Registration -/

theorem HasConnector.addEvent (h : d.HasConnector i fd c) (event : ℕ) :
    (d.addEvent event i).HasConnector i fd (c.addEvent event) :=
  { h with registry := h.registry.addEvent event }

theorem HasConnector.registerTo (h : d.HasConnector i fd c) (hvalid : 0 ≤ fd) (epoll : Bool) :
    (d.registerTo i epoll).1 = (c.registerTo epoll).1 ∧
      (d.registerTo i epoll).2.HasConnector i fd (c.registerTo epoll).2 := by
  obtain rfl := fd_eq h.object
  obtain ⟨hresult, hregistry⟩ := h.registry.registerChannel (g := fun _ => c.sockFd) hvalid epoll
  exact ⟨hresult, { h with registry := hregistry }⟩

theorem HasConnector.deregister (h : d.HasConnector i fd c) (hvalid : 0 ≤ fd) :
    (d.deregister i).HasConnector i fd c.deregister := by
  obtain rfl := fd_eq h.object
  exact { h with registry := h.registry.deregisterChannel (g := fun _ => c.sockFd) hvalid true }

theorem HasConnector.assertThat (h : d.HasConnector i fd c) (assertion : Connector.Assertion)
    (holds : Bool) : d.HasConnector i fd (c.assertThat assertion holds) := by
  cases holds with
  | true => exact h
  | false => exact { h with }

theorem channelOf_assertThat (assertion : Connector.Assertion) (holds : Bool) (c : Connector) :
    channelOf (c.assertThat assertion holds) = channelOf c := by
  cases holds <;> rfl

theorem channelOf_deregisterRegistered (c : Connector) :
    channelOf c.deregisterRegistered = channelOf c :=
  (channelOf_assertThat ..).trans (channelOf_assertThat .registered c.isRegistered c)

theorem HasConnector.deregisterRegistered (h : d.HasConnector i fd c) (hvalid : 0 ≤ fd) :
    (d.deregister i).HasConnector i fd c.deregisterRegistered :=
  ((h.assertThat .registered _).deregister hvalid).assertThat .deregistered _

theorem HasConnector.setState (h : d.HasConnector i fd c) (state : ConnectionState) :
    (d.put i fd (.connectorChannel { channelOf c with state })).HasConnector i fd { c with state } where
  object := Function.update_self ..
  valid := h.valid
  registry := h.registry
  initializing := h.initializing

/-! ## Connecting -/

theorem channelOf_reconnect (c : Connector) :
    channelOf c.reconnect = { channelOf c with state := .disconnected, scheduled := true } := by
  simp only [Connector.reconnect, Connector.closeFd, Connector.assertThat, channelOf]
  split_ifs <;> simp [Connector.note]

/-- The descriptor is closed and given up, and a timer waits. -/
theorem HasConnector.reconnect (h : d.HasConnector i fd c) :
    (d.reconnect i fd (channelOf c)).HasConnector i kInvalidFd c.reconnect := by
  have hsame : c.reconnect.registry.events = c.registry.events ∧
      c.reconnect.registry.isRegistered = c.registry.isRegistered ∧
      c.reconnect.initializing = c.initializing ∧ c.reconnect.sockFd = kInvalidFd := by
    simp only [Connector.reconnect, Connector.closeFd, Connector.assertThat]
    split_ifs <;> simp [Connector.note]
  obtain ⟨hevents, hregistered, hinitializing, hfd⟩ := hsame
  refine ⟨?_, by rw [hfd], ⟨?_, ?_, ?_, ?_⟩, ?_⟩
  · rw [channelOf_reconnect]
    exact Function.update_self ..
  · rw [hevents]
    exact h.registry.events
  · rw [hregistered]
    exact h.registry.isRegistered
  · exact (absurd · (by decide))
  · exact (absurd · (by decide))
  · rw [hinitializing]
    exact h.initializing

/-- Whether the registration succeeds or not, and whether it connects again then. -/
theorem HasConnector.waitConnect (h : d.HasConnector i fd c) (hvalid : 0 ≤ fd) (epoll : Bool) :
    ∃ fd', (d.waitConnect i fd (channelOf c) epoll).HasConnector i fd' (c.waitConnect epoll) := by
  have hchannel : channelOf ((c.addEvent kWriteEvent).registerTo epoll).2 = channelOf c := rfl
  obtain ⟨hresult, hregistered⟩ := (h.addEvent kWriteEvent).registerTo hvalid epoll
  rw [Dispatch.waitConnect, Connector.waitConnect]
  generalize (d.addEvent kWriteEvent i).registerTo i epoll = x at hresult hregistered
  generalize (c.addEvent kWriteEvent).registerTo epoll = y at hresult hregistered hchannel
  obtain ⟨registered, d'⟩ := x
  obtain ⟨_, c'⟩ := y
  obtain rfl := hresult
  change d'.HasConnector i fd c' at hregistered
  change channelOf c' = channelOf c at hchannel
  rw [← hchannel]
  cases registered with
  | true => exact ⟨fd, hregistered.setState .connecting⟩
  | false =>
      have hkept : channelOf (if c'.isRegistered then c'.deregister else c') = channelOf c' := by
        split <;> rfl
      have hleft : (d'.deregisterIfRegistered i).HasConnector i fd
          (if c'.isRegistered then c'.deregister else c') := by
        rw [deregisterIfRegistered, hregistered.registry.isRegistered]
        change HasConnector i fd _ (if c'.isRegistered = true then _ else _)
        split
        · exact hregistered.deregister hvalid
        · exact hregistered
      simp only
      generalize (if c'.isRegistered then c'.deregister else c') = c'' at hkept hleft ⊢
      rw [← hkept, show (channelOf c'').retry = c''.retry from rfl]
      split
      · exact ⟨kInvalidFd, hleft.reconnect⟩
      · exact ⟨fd, hleft⟩

theorem HasConnector.handleConnectError (h : d.HasConnector i fd c) (hvalid : 0 ≤ fd) (errNum : ℕ)
    (epoll : Bool) :
    ∃ fd', (d.handleConnectError i fd (channelOf c) errNum epoll).HasConnector i fd'
      (c.handleConnectError errNum epoll) := by
  rw [Dispatch.handleConnectError, Connector.handleConnectError]
  simp only [Connector.isPending, Connector.isRetried, decide_eq_true_eq]
  split
  · exact h.waitConnect hvalid epoll
  · split
    · exact ⟨kInvalidFd, h.reconnect⟩
    · exact ⟨fd, h⟩

/-- The new socket channel is another channel of the loop, with the descriptor of the connector. -/
theorem HasConnector.newSocketChannel (h : d.HasConnector i fd c) (hcount : i ≠ d.count)
    (caller : Connector.Caller) :
    (d.makeSocketChannel (some i) fd).HasConnector i fd (c.newSocketChannel caller) := by
  have hasserted := h.assertThat .newSocketChannel (decide (c.state ≠ .connected))
  rw [Connector.newSocketChannel]
  generalize c.assertThat .newSocketChannel (decide (c.state ≠ .connected)) = c' at hasserted
  refine ⟨?_, hasserted.valid, ⟨?_, ?_, hasserted.registry.channels, hasserted.registry.interest⟩, ?_⟩
  · exact (Function.update_of_ne hcount ..).trans hasserted.object
  · exact (Function.update_of_ne hcount ..).trans hasserted.registry.events
  · exact (Function.update_of_ne hcount ..).trans hasserted.registry.isRegistered
  · simp [makeSocketChannel]

/-- A connector with a new descriptor. -/
def opening (c : Connector) : Connector :=
  ((c.note (.connecting c.state c.sockFd)).createTcpSocket.note (.used c.sockets)).assertThat .connect
    (decide (c.state = .disconnected))

theorem connect_eq (caller : Connector.Caller) (errNum : ℕ) (epoll : Bool) (c : Connector) :
    c.connect caller ⟨true, errNum, epoll⟩ =
      if errNum = 0 then (opening c).newSocketChannel caller
      else (opening c).handleConnectError errNum epoll := rfl

/-- A call of `connect` with a descriptor that is in no map. -/
theorem HasConnector.connect (h : d.HasConnector i fd c) (hcount : i ≠ d.count) {answer : ConnectAnswer}
    (hvalid : 0 ≤ answer.sockFd) (hchannels : d.registry.channels answer.sockFd = none)
    (hinterest : d.registry.interest answer.sockFd = none) (houtside : Connector.Outside c.registry)
    (caller : Connector.Caller) :
    ∃ fd', (d.connectTo i (channelOf c) answer).HasConnector i fd'
      (c.connect caller ⟨true, answer.errNum, answer.epoll⟩) := by
  have hopened : (d.put i answer.sockFd (.connectorChannel (channelOf c))).HasConnector i answer.sockFd
      ((c.note (.connecting c.state c.sockFd)).createTcpSocket.note (.used c.sockets)) := by
    refine ⟨Function.update_self .., ?_, ⟨h.registry.events, h.registry.isRegistered, ?_, ?_⟩,
      h.initializing⟩
    · exact iff_of_true hvalid (Int.natCast_nonneg c.sockets)
    · intro _
      change d.registry.channels answer.sockFd = (c.registry.channels c.sockets).map _
      rw [hchannels, houtside.channels, Option.map_none]
    · intro _
      change d.registry.interest answer.sockFd = (c.registry.interest c.sockets).map _
      rw [hinterest, houtside.interest, Option.map_none]
  replace hopened : HasConnector i answer.sockFd (opening c) _ := hopened.assertThat .connect _
  have hchannel : channelOf (opening c) = channelOf c := channelOf_assertThat ..
  rw [connectTo, connect_eq]
  split
  · exact ⟨answer.sockFd, hopened.newSocketChannel hcount caller⟩
  · rw [← hchannel] at hopened ⊢
    exact hopened.handleConnectError hvalid _ _

/-- No map has a descriptor that the kernel gives out. -/
theorem Sound.unwatched (hs : d.Sound) (h : d.isFree fd = true) : d.registry.interest fd = none := by
  refine Option.eq_none_iff_forall_ne_some.mpr fun ⟨j, events⟩ hentry => ?_
  have howner := hs.entry fd j events hentry
  rw [(hs.free h).2] at howner
  cases howner

/-- The connector of `Bootstrap::doConnect`. -/
theorem exists_doConnect (hs : d.Sound) {answer : ConnectAnswer} {t : Dispatch β} {retry : Bool}
    (h : d.connect retry answer = some t) (phase : Connector.Phase) :
    ∃ fd', t.HasConnector d.count fd'
      (Connector.doConnect retry phase ⟨true, answer.errNum, answer.epoll⟩) := by
  obtain ⟨hfree, hresult⟩ := Option.ite_none_right_eq_some.mp h
  have hinitializing : d.initializing.any (fun new => new.connector = some d.count) = false := by
    refine List.any_eq_false.mpr fun new hnew heq => ?_
    obtain ⟨k, hobject, -⟩ := hs.newConnector new hnew d.count (of_decide_eq_true heq)
    exact (hs.lt_count hobject).ne rfl
  have hcreated : (d.create kInvalidFd (.connectorChannel ⟨.disconnected, retry, false⟩)).HasConnector
      d.count kInvalidFd (Connector.construct retry phase) := by
    refine ⟨Function.update_self .., .rfl, ⟨?_, ?_, ?_, ?_⟩, hinitializing⟩
    · exact Function.update_self ..
    · exact Function.update_self ..
    · exact (absurd · (by decide))
    · exact (absurd · (by decide))
  rw [← Option.some.inj hresult]
  exact hcreated.connect (Nat.ne_of_lt d.count.lt_succ_self) (isFree_iff.mp hfree).1 (hs.free hfree).2
    (hs.unwatched hfree) ⟨rfl, rfl, rfl⟩ .doConnect

theorem connectTo_put (kind : ChannelKind β) (channel : ConnectorChannel) (answer : ConnectAnswer)
    (d : Dispatch β) : (d.put i fd kind).connectTo i channel answer = d.connectTo i channel answer := by
  simp only [connectTo, put, Function.update_idem]

/-- The timer of a connector that waits to connect again. -/
theorem HasConnector.runTimer (h : d.HasConnector i fd c) (hs : d.Sound) (hc : Connector.Delayed c)
    (hphase : c.phase = .update) {answer : ConnectAnswer} {t : Dispatch β}
    (hstep : d.runTimer i answer = some t) :
    ∃ c' fd', c.runTimer ⟨true, answer.errNum, answer.epoll⟩ = some c' ∧ t.HasConnector i fd' c' := by
  rw [Dispatch.runTimer] at hstep
  split at hstep
  case h_1 fd' channel _ hobject =>
      obtain ⟨⟨-, -, hfree⟩, hresult⟩ := Option.ite_none_right_eq_some.mp hstep
      obtain ⟨rfl, rfl⟩ : fd' = fd ∧ channel = channelOf c := by
        simpa [h.object, eq_comm] using hobject
      have hchannel : channelOf { c with timers := c.timers - 1 } =
          { channelOf c with scheduled := false } := by
        simp [channelOf, hc.timers]
      have hput : (d.put i fd' (.connectorChannel (channelOf { c with timers := c.timers - 1 }))).HasConnector
          i fd' { c with timers := c.timers - 1 } :=
        ⟨Function.update_self .., h.valid, h.registry, h.initializing⟩
      obtain ⟨fd'', hconnected⟩ := hput.connect (hs.lt_count h.object).ne (isFree_iff.mp hfree).1
        (hs.free hfree).2 (hs.unwatched hfree) hc.outside .timer
      rw [connectTo_put, hchannel] at hconnected
      rw [Option.some.inj hresult] at hconnected
      refine ⟨_, fd'', ?_, hconnected⟩
      rw [Connector.runTimer, hphase]
      exact if_pos (by rw [hc.timers]; decide)
  case h_2 => cases hstep

/-! ## Events and tasks -/

/-- The connector leaves the loop before its socket channel enters. -/
theorem HasConnector.handOver (h : d.HasConnector i fd c) (hvalid : 0 ≤ fd) :
    (d.handOver i).HasConnector i fd c.handOver := by
  have hconnected := h.setState .connected
  rw [Dispatch.handOver, h.object, Connector.handOver]
  change HasConnector i fd _ (if c.state = .connecting then _ else _)
  split
  · exact hconnected.deregisterRegistered hvalid
  · exact hconnected

theorem HasConnector.handleErrorEvent (h : d.HasConnector i fd c) :
    (d.handleErrorEvent i).HasConnector i fd c.handleErrorEvent := by
  have hasserted := h.assertThat .handleErrorEvent (decide (c.state ≠ .connected))
  exact { hasserted with }

theorem HasConnector.handleWriteEvent (h : d.HasConnector i fd c) (hcount : i ≠ d.count) (errNum : ℕ) :
    (d.handleWriteEvent i fd (channelOf c) errNum).HasConnector i fd (c.handleWriteEvent errNum) := by
  have hused : d.HasConnector i fd (c.note (.used c.sockFd)) := { h with }
  rw [Dispatch.handleWriteEvent, Connector.handleWriteEvent, show (channelOf c).state = c.state from rfl]
  split
  · exact h
  · split
    · exact hused.handleErrorEvent
    · exact hused.newSocketChannel hcount _

/-- The task of `handleErrorEvent`. -/
theorem HasConnector.performTask (h : d.HasConnector i fd c) (hvalid : 0 ≤ fd) :
    ∃ d' fd', d.performTask (.connectorChannel i) = some d' ∧ d'.HasConnector i fd'
      (c.performTask (if c.retry then .reconnect else .deregister)) := by
  have hleft := (h.deregisterRegistered hvalid).assertThat .lastReference
    c.deregisterRegistered.isLastReference
  have hchannel : channelOf (c.deregisterRegistered.assertThat .lastReference
      c.deregisterRegistered.isLastReference) = channelOf c :=
    (channelOf_assertThat ..).trans (channelOf_deregisterRegistered c)
  refine ⟨if c.retry then (d.deregister i).reconnect i fd (channelOf c) else d.deregister i,
    if c.retry then kInvalidFd else fd, by rw [Dispatch.performTask, h.object]; rfl, ?_⟩
  cases hretry : c.retry with
  | true => exact hchannel ▸ hleft.reconnect
  | false => exact hleft

end Dispatch

end Nets
