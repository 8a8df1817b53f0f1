import Nets.Library.Wires
import Nets.Verification.SocketChannel.Delivery
import Nets.Verification.SocketChannel.Ended
import Nets.Verification.SocketChannel.Integrity
import Nets.Verification.SocketChannel.Interest

/-! # Two channels in conversation

The channels of both ends of a connection, and between them the two streams of the kernels. What the
handlers of one end are given is what the application of the other end has written, as far as it has come. -/

namespace Nets

open Library

inductive Side where
  | client
  | server
  deriving DecidableEq, Repr

def Side.other : Side → Side
  | .client => .server
  | .server => .client

@[simp] theorem Side.other_other (side : Side) : side.other.other = side := by
  cases side <;> rfl

theorem Side.other_ne (side : Side) : side.other ≠ side := by
  cases side <;> decide

/-- `wires side` has what the kernel took from `side`. -/
structure Conversation where
  peers : Side → Session UInt8
  wires : Side → Wire UInt8

namespace Conversation

open Session

/-- A step of the channel of one side with what its kernel answers, or the end of a stream before all of it
has arrived. -/
inductive Action where
  | act (side : Side) (action : Session.Action UInt8 UInt8)
  | sever (side : Side) (n : ℕ)

def accepted (s : Session UInt8) : List UInt8 := acceptedBytes s.log

/-- Between two states of a channel. -/
def newlyAccepted (s t : Session UInt8) : List UInt8 := (accepted t).drop (accepted s).length

/-- What is read has to come out of the wire of the other side. -/
def step (c : Conversation) : Action → Option Conversation
  | .act side action =>
    ((Session.system plain).step (c.peers side) action).bind fun t =>
      ((c.wires side.other).get ((c.peers side).bytesReturned action)).map fun wire =>
        { peers := Function.update c.peers side t
          wires := Function.update (Function.update c.wires side.other wire) side
            ((c.wires side).put (newlyAccepted (c.peers side) t)) }
  | .sever side n =>
    some { c with wires := Function.update c.wires side ((c.wires side).sever n) }

def connected : Conversation where
  peers _ := fresh.channelActive
  wires _ := .empty

def system : System Conversation Action where
  initial c := c = connected
  step := step

/-- Each side keeps its output. -/
def KeepsOutput (c : Conversation) : Action → Prop
  | .act side action => (c.peers side).KeepsOutput action
  | .sever _ _ => True

/-! ## Channels that send -/

variable {s t u : Session UInt8} {action : Session.Action UInt8 UInt8}

theorem acceptedBytes_notes {events : List (Event UInt8)} (h : ∀ event ∈ events, isNote event = true) :
    acceptedBytes events = [] := by
  induction events with
  | nil => rfl
  | cons event events ih =>
      obtain ⟨hevent, hevents⟩ := List.forall_mem_cons.mp h
      rw [← List.singleton_append, acceptedBytes_append, acceptedBytes_note hevent, ih hevents,
        List.append_nil]

/-- The kernel takes nothing from a channel that has ended. -/
theorem accepted_act_of_dead (hs : s.Dead) (hok : s.Orderly action) (h : s.act plain action = some u) :
    accepted u = accepted s := by
  cases action with
  | write data callback answer before epoll =>
      simp only [act, write, doWrite, hs.inactive, if_true, Option.some.injEq] at h
      subst h
      exact (acceptedBytes_append ..).trans (List.append_nil _)
  | shutdown =>
      obtain rfl := Option.some.inj h
      have hlog : s.shutdown.log = s.log ++ [.shutdown .rdwr, .disconnect] := List.append_assoc ..
      rw [accepted, hlog, acceptedBytes_append]
      exact List.append_nil _
  | shutdownRead => exact absurd hs.inactive hok
  | shutdownWrite => exact absurd hs.inactive hok.1
  | handlerReturns =>
      simp only [act] at h
      split at h
      · rw [← Option.some.inj h, accepted, accepted]
      · cases h
  | handleReadEvent answers epoll =>
      obtain ⟨-, h⟩ := Option.ite_none_right_eq_some.mp h
      rw [handleReadEvent, if_pos hs.inactive] at h
      rw [← Option.some.inj h]
  | handleWriteEvent answers epoll =>
      obtain ⟨-, h⟩ := Option.ite_none_right_eq_some.mp h
      rw [handleWriteEvent, if_pos hs.inactive] at h
      rw [← Option.some.inj h]
  | handleErrorEvent =>
      obtain ⟨-, h⟩ := Option.ite_none_right_eq_some.mp h
      rw [← Option.some.inj h, handleErrorEvent, if_pos hs.inactive]
  | runTask epoll =>
      obtain ⟨-, h⟩ := Option.ite_none_right_eq_some.mp h
      rw [runTask] at h
      split at h
      · cases h
      · rw [← Option.some.inj h, accepted, accepted]
      · rw [← Option.some.inj h]
        exact congrArg acceptedBytes (assertThat_kept .deregisterChannel _ _).1.log

theorem accepted_step_of_dead (hs : s.Dead) (hok : s.Orderly action)
    (h : (Session.system plain).step s action = some t) : accepted t = accepted s := by
  obtain ⟨u, hact, hresume⟩ := Option.bind_eq_some_iff.mp h
  obtain ⟨hdead, -⟩ := dead_act hs hok hact
  obtain ⟨-, events, hevents, hlog⟩ := dead_unwind hdead.inactive hdead.leaves hresume
  rw [← accepted_act_of_dead hs hok hact, accepted, accepted, hlog, acceptedBytes_append,
    acceptedBytes_notes hevents, List.append_nil]

theorem log_prefix_of_steps {o o' : Output UInt8} (h : Output.Steps o o') : o.log <+: o'.log := by
  induction h with
  | refl => exact List.prefix_rfl
  | tail _ hstep ih =>
      refine ih.trans ?_
      cases hstep <;> exact List.prefix_append _ _

theorem acceptedBytes_prefix {log log' : List (Event UInt8)} (h : log <+: log') :
    acceptedBytes log <+: acceptedBytes log' := by
  obtain ⟨events, rfl⟩ := h
  exact (acceptedBytes_append log events).symm ▸ List.prefix_append _ _

/-- As long as the channel has not ended, what the kernel took and what is buffered are what was written;
then, a prefix of it. -/
def Sends (s : Session UInt8) : Prop :=
  s.Dead ∧ accepted s <+: writtenBytes s.log ∨ s.Live ∧ s.output.Intact

theorem Sends.accepted_prefix (hs : Sends s) : accepted s <+: writtenBytes s.log := by
  obtain ⟨-, hprefix⟩ | ⟨-, hintact⟩ := hs
  · exact hprefix
  · exact ⟨_, hintact⟩

theorem sends_channelActive : Sends fresh.channelActive := .inr ⟨live_channelActive, rfl⟩

theorem Sends.dead (hs : Sends s) (hstate : s.state = .inactive) : s.Dead := by
  obtain ⟨hdead, -⟩ | ⟨hlive, -⟩ := hs
  · exact hdead
  · exact absurd hstate hlive.alive

theorem Sends.step (hs : Sends s) (hok : s.KeepsOutput action)
    (h : (Session.system plain).step s action = some t) : Sends t ∧ accepted s <+: accepted t := by
  obtain ⟨horderly, hwrite⟩ := hok.orderly
  obtain ⟨hdead, hprefix⟩ | ⟨hlive, hintact⟩ := hs
  · obtain ⟨hdead', events, -, hlog⟩ := dead_step hdead horderly h
    have haccepted := accepted_step_of_dead hdead horderly h
    refine ⟨.inl ⟨hdead', ?_⟩, haccepted ▸ List.prefix_rfl⟩
    rw [haccepted, hlog, writtenBytes_append]
    exact hprefix.trans (List.prefix_append _ _)
  · obtain ⟨hlive', hsteps⟩ | ⟨hdead, o, hsteps, hlog⟩ := live_step hlive horderly hwrite h
    · exact ⟨.inr ⟨hlive', hintact.of_steps hsteps⟩,
        acceptedBytes_prefix (log_prefix_of_steps hsteps)⟩
    · have hprefix : s.log <+: t.log := hlog ▸ log_prefix_of_steps hsteps
      have hintact' : acceptedBytes t.log ++ o.pending = writtenBytes t.log :=
        hlog ▸ hintact.of_steps hsteps
      exact ⟨.inl ⟨hdead, ⟨_, hintact'⟩⟩, acceptedBytes_prefix hprefix⟩

/-! ## Channels that receive -/

def delivered (s : Session UInt8) : List UInt8 := deliveredBytes s.log

theorem fatal_of_received {n errNum : ℕ} {answers : List (ReadAnswer UInt8)}
    (h : received n answers = .error errNum) : ¬ (errNum = EAGAIN ∨ errNum = EINTR) := by
  induction answers generalizing n with
  | nil => cases h
  | cons answer answers ih =>
      cases answer with
      | failed errNum' =>
          rw [received] at h
          split at h
          · cases h
          case isFalse hfatal => exact Except.error.inj h ▸ hfatal
      | data bytes =>
          rw [received] at h
          split at h
          · cases h
          · dsimp only at h
            cases hrest : received (if 0 < n - (bytes.take n).length then n - (bytes.take n).length
              else n) answers with
            | error errNum' =>
                rw [hrest] at h
                obtain rfl : errNum' = errNum := Except.error.inj h
                exact ih hrest
            | ok _ =>
                rw [hrest] at h
                cases h

/-- An error that keeps back data ends the channel. -/
theorem inactive_of_not_delivers (hlost : ¬ s.Delivers action) (h : s.act plain action = some u) :
    u.state = .inactive := by
  cases action with
  | handleReadEvent answers epoll =>
      obtain ⟨-, h⟩ := Option.ite_none_right_eq_some.mp h
      simp only [Delivers, not_or] at hlost
      obtain ⟨halive, -, hfatal⟩ := hlost
      obtain ⟨errNum, herror, -⟩ | ⟨-, hmild⟩ := received_cases kRecvBufferSize answers
      · obtain ⟨errNum', herror', rfl⟩ | ⟨_, hok, -⟩ | ⟨hok, -⟩ := handleReadEvent_eq halive h
        · rw [handleReadError, if_neg (fatal_of_received herror')]
          rfl
        · cases herror.symm.trans hok
        · cases herror.symm.trans hok
      · exact absurd hmild hfatal
  | _ => exact absurd trivial hlost

/-- A step of the channel gives what was read to a handler, or ends the channel. -/
theorem delivered_step (h : (Session.system plain).step s action = some t) :
    delivered t = delivered s ++ s.bytesReturned action ∨
      delivered t = delivered s ∧ t.state = .inactive := by
  obtain ⟨u, hact, hresume⟩ := Option.bind_eq_some_iff.mp h
  have hlog : delivered t = delivered u := deliveredBytes_unwind hresume
  rw [hlog]
  obtain ⟨-, hall⟩ | ⟨hlost, -, hnone⟩ := deliveredBytes_act hact
  · exact .inl hall
  · exact .inr ⟨hnone, (settles_unwind hresume).ended (inactive_of_not_delivers hlost hact)⟩

/-! ## Both together -/

/-- From `side` to the other one. What was read and not delivered is lost with a channel that has ended. -/
structure Flows (c : Conversation) (side : Side) : Prop where
  sends : Sends (c.peers side)
  carries : ∃ lost, (c.wires side).Carries (accepted (c.peers side))
      (delivered (c.peers side.other) ++ lost) ∧
    ((c.peers side.other).state ≠ .inactive → lost = [])

variable {c d : Conversation} {side : Side}

theorem flows_connected (side : Side) : Flows connected side where
  sends := sends_channelActive
  carries := ⟨[], Wire.carries_empty, fun _ => rfl⟩

/-- What the stepping side sends. -/
theorem Flows.put (hc : Flows c side) (hok : (c.peers side).KeepsOutput action)
    (h : (Session.system plain).step (c.peers side) action = some t)
    (hpeers : d.peers side = t) (hother : d.peers side.other = c.peers side.other)
    (hwire : d.wires side = (c.wires side).put (newlyAccepted (c.peers side) t)) : Flows d side := by
  obtain ⟨hsends, hprefix⟩ := hc.sends.step hok h
  obtain ⟨lost, hcarries, hlost⟩ := hc.carries
  refine ⟨hpeers ▸ hsends, lost, ?_, hother ▸ hlost⟩
  have haccepted : accepted (c.peers side) ++ newlyAccepted (c.peers side) t = accepted t := by
    obtain ⟨rest, hrest⟩ := hprefix
    rw [newlyAccepted, ← hrest, List.drop_left]
  rw [hwire, hother, hpeers, ← haccepted]
  exact hcarries.put _

/-- What the stepping side receives. -/
theorem Flows.get (hc : Flows c side.other) (hends : (c.peers side).state = .inactive → t.state = .inactive)
    (h : (Session.system plain).step (c.peers side) action = some t)
    (hpeers : d.peers side = t) (hother : d.peers side.other = c.peers side.other)
    (hwire : (c.wires side.other).get ((c.peers side).bytesReturned action) =
      some (d.wires side.other)) : Flows d side.other := by
  obtain ⟨lost, hcarries, hlost⟩ := hc.carries
  rw [Side.other_other] at hcarries hlost
  have hget := hcarries.get hwire
  refine ⟨hother ▸ hc.sends, ?_⟩
  rw [Side.other_other, hother, hpeers]
  by_cases hstate : (c.peers side).state = .inactive
  · have hnone : (c.peers side).bytesReturned action = [] := by
      cases action with
      | handleReadEvent answers epoll => exact if_pos hstate
      | _ => rfl
    have hdelivered : delivered t = delivered (c.peers side) := by
      obtain hall | ⟨hsame, -⟩ := delivered_step h
      · rw [hall, hnone, List.append_nil]
      · exact hsame
    refine ⟨lost, ?_, fun halive => absurd (hends hstate) halive⟩
    rwa [hnone, List.append_nil, ← hdelivered] at hget
  · obtain rfl := hlost hstate
    rw [List.append_nil] at hget
    obtain hall | ⟨hsame, hended⟩ := delivered_step h
    · exact ⟨[], by rwa [hall, List.append_nil], fun _ => rfl⟩
    · exact ⟨_, hsame ▸ hget, fun halive => absurd hended halive⟩

theorem flows_step {a : Action} (hc : ∀ side, Flows c side) (hok : KeepsOutput c a)
    (h : c.step a = some d) : ∀ side, Flows d side := by
  cases a with
  | sever severed n =>
      obtain rfl := Option.some.inj h
      intro side
      obtain ⟨hsends, lost, hcarries, hlost⟩ := hc side
      refine ⟨hsends, lost, ?_, hlost⟩
      by_cases hside : side = severed
      · subst hside
        simpa using hcarries.sever n
      · simpa [Function.update_of_ne hside] using hcarries
  | act acting action =>
      obtain ⟨t, ht, hrest⟩ := Option.bind_eq_some_iff.mp h
      obtain ⟨wire, hwire, rfl⟩ := Option.map_eq_some_iff.mp hrest
      have hends : (c.peers acting).state = .inactive → t.state = .inactive := fun hstate =>
        (dead_step ((hc acting).sends.dead hstate) hok.orderly.1 ht).1.inactive
      intro side
      by_cases hside : side = acting
      · subst hside
        exact (hc side).put hok ht (by simp) (by simp [side.other_ne]) (by simp)
      · obtain rfl : side = acting.other := by
          cases side <;> cases acting <;> first | rfl | exact absurd rfl hside
        refine (hc acting.other).get hends ht (by simp) (by simp [acting.other_ne]) ?_
        simpa [acting.other_ne] using hwire

theorem flows_of_reachable (hc : system.ReachableUnder KeepsOutput c) (side : Side) : Flows c side := by
  refine hc.invariant (I := fun c => ∀ side, Flows c side) ?_ (fun _ _ _ h hok hstep =>
    flows_step h hok hstep) side
  rintro c rfl
  exact flows_connected

theorem Flows.delivered_isPrefix (hc : Flows c side) :
    delivered (c.peers side.other) <+: writtenBytes (c.peers side).log := by
  obtain ⟨hsends, lost, hcarries, -⟩ := hc
  exact ((List.prefix_append _ lost).trans hcarries.received_prefix).trans hsends.accepted_prefix

/-- What is missing is on its way or waits to be sent. -/
theorem Flows.eq_written (hc : Flows c side) (halive : (c.peers side).state ≠ .inactive)
    (halive' : (c.peers side.other).state ≠ .inactive) (hcut : (c.wires side).cut = false) :
    delivered (c.peers side.other) ++ (c.wires side).inFlight ++ pending (c.peers side).writeBuffer =
      writtenBytes (c.peers side).log := by
  obtain ⟨hsends, lost, hcarries, hlost⟩ := hc
  have haccepted := hcarries.eq_of_not_cut hcut
  rw [hlost halive', List.append_nil] at haccepted
  obtain ⟨hdead, -⟩ | ⟨-, hintact⟩ := hsends
  · exact absurd hdead.inactive halive
  · rw [haccepted]
    exact hintact

/-- In every conversation, however the steps of the two channels and their kernels interleave, what the
handlers of one side have been given is a prefix of what the other side has written; and as long as neither
channel has ended and the stream is whole, what is missing is on its way or waits to be sent. -/
theorem delivered_prefix_written (hc : system.ReachableUnder KeepsOutput c) (side : Side) :
    delivered (c.peers side.other) <+: writtenBytes (c.peers side).log ∧
      ((c.peers side).state ≠ .inactive → (c.peers side.other).state ≠ .inactive →
        (c.wires side).cut = false →
          delivered (c.peers side.other) ++ (c.wires side).inFlight ++
            pending (c.peers side).writeBuffer = writtenBytes (c.peers side).log) :=
  ⟨(flows_of_reachable hc side).delivered_isPrefix, (flows_of_reachable hc side).eq_written⟩

/-- Three bytes, of which one has been read, one is on its way and one is buffered. -/
theorem delivered_prefix_written_three :
    ∃ c : Conversation, delivered (c.peers .server) = [1] ∧
      delivered (c.peers .server) <+: writtenBytes (c.peers .client).log := by
  let actions : List Action := [.act .client .handlerReturns, .act .server .handlerReturns,
    .act .client (.write [1, 2, 3] false (.accepted 2) 0 true),
    .act .server (.handleReadEvent [.data [1]] true)]
  have hrun : (system.run connected actions).any
      (fun c => decide (delivered (c.peers .server) = [1])) = true := by
    decide +kernel
  obtain ⟨c, hc, hdelivered⟩ := (Option.any_eq_true ..).mp hrun
  have hok : ∀ a ∈ actions, ∀ u, KeepsOutput u a := by
    simp [actions, KeepsOutput, Session.KeepsOutput]
  have hreached : system.ReachableUnder KeepsOutput c := .run _ (.initial rfl) hok hc
  exact ⟨c, of_decide_eq_true hdelivered, (delivered_prefix_written hreached .client).1⟩

/-! ## Nothing is left behind -/

/-- Each side keeps its output, and every `epoll_ctl` succeeds. -/
def Undisturbed (c : Conversation) : Action → Prop
  | .act side action => (c.peers side).KeepsOutput action ∧ (c.peers side).EpollSucceeds action
  | .sever _ _ => True

theorem Undisturbed.keepsOutput {a : Action} (h : Undisturbed c a) : KeepsOutput c a := by
  cases a with
  | act => exact h.1
  | sever => trivial

theorem armed_step {a : Action} (hc : ∀ side, (c.peers side).Armed) (hok : Undisturbed c a)
    (h : c.step a = some d) (side : Side) : (d.peers side).Armed := by
  cases a with
  | sever severed n =>
      obtain rfl := Option.some.inj h
      exact hc side
  | act acting action =>
      obtain ⟨t, ht, hrest⟩ := Option.bind_eq_some_iff.mp h
      obtain ⟨wire, -, rfl⟩ := Option.map_eq_some_iff.mp hrest
      change (Function.update c.peers acting t side).Armed
      obtain rfl | hne := eq_or_ne side acting
      · rw [Function.update_self]
        exact (hc side).step hok.2 ht
      · rw [Function.update_of_ne hne]
        exact hc side

theorem armed_of_reachable (hc : system.ReachableUnder Undisturbed c) (side : Side) : (c.peers side).Armed := by
  refine hc.invariant (I := fun c => ∀ side, (c.peers side).Armed) ?_ (fun _ _ _ h hok hstep =>
    armed_step h hok hstep) side
  rintro c rfl side
  exact armed_channelActive

/-- The poller is told to report that the channel can write. -/
def IsTold (s : Session UInt8) : Prop :=
  ∃ events, s.interest = some events ∧ events &&& kWriteEvent ≠ 0

/-- Of a registered channel nothing is buffered, or its poller is told to report that it can write. So as
long as neither channel has ended and the stream is whole, what was written and has not been delivered is
on the wire, or the poller of the writer is told. -/
theorem undelivered_is_due (hc : system.ReachableUnder Undisturbed c) (side : Side)
    (hregistered : (c.peers side).isRegistered = true) :
    ((c.peers side).writeBuffer = [] ∨ IsTold (c.peers side)) ∧
      ((c.peers side).state ≠ .inactive → (c.peers side.other).state ≠ .inactive →
        (c.wires side).cut = false → delivered (c.peers side.other) ≠ writtenBytes (c.peers side).log →
          (c.wires side).inFlight ≠ [] ∨ IsTold (c.peers side)) := by
  have hflows := flows_of_reachable (hc.mono fun _ _ h => h.keepsOutput) side
  have harmed := armed_of_reachable hc side
  have htold : (c.peers side).writeBuffer = [] ∨ IsTold (c.peers side) := by
    by_cases hpending : (c.peers side).writeBuffer = []
    · exact .inl hpending
    · have hinterest := harmed.agrees
      rw [Agrees, if_pos hregistered] at hinterest
      refine .inr ⟨_, hinterest, ?_⟩
      simpa [hasWriteEvent] using harmed.output hpending
  refine ⟨htold, fun halive halive' hcut hmissing => ?_⟩
  refine htold.imp (fun hempty hflight => hmissing ?_) id
  have hwritten := hflows.eq_written halive halive' hcut
  rw [hflight, hempty, List.append_nil] at hwritten
  simpa [pending] using hwritten

/-- One byte of two has been read, and the other one is buffered. -/
theorem undelivered_is_due_one : ∃ c : Conversation, delivered (c.peers .server) = [1] ∧
    (c.wires .client).inFlight = [] ∧ IsTold (c.peers .client) := by
  let actions : List Action := [.act .client .handlerReturns, .act .server .handlerReturns,
    .act .client (.write [1, 2] false (.accepted 1) 0 true),
    .act .server (.handleReadEvent [.data [1]] true)]
  have hrun : (system.run connected actions).any (fun c => decide (
      delivered (c.peers .server) = [1] ∧ writtenBytes (c.peers .client).log = [1, 2] ∧
      (c.wires .client).inFlight = [] ∧ (c.wires .client).cut = false ∧
      (c.peers .client).state ≠ .inactive ∧ (c.peers .server).state ≠ .inactive ∧
      (c.peers .client).isRegistered = true)) = true := by
    decide +kernel
  obtain ⟨c, hc, hall⟩ := (Option.any_eq_true ..).mp hrun
  obtain ⟨hdelivered, hwritten, hflight, hcut, halive, halive', hregistered⟩ := of_decide_eq_true hall
  have hok : ∀ a ∈ actions, ∀ u, Undisturbed u a := by
    simp [actions, Undisturbed, Session.KeepsOutput, EpollSucceeds]
  have hreached : system.ReachableUnder Undisturbed c := .run _ (.initial rfl) hok hc
  have hmissing : delivered (c.peers Side.client.other) ≠ writtenBytes (c.peers .client).log := by
    change delivered (c.peers .server) ≠ _
    rw [hdelivered, hwritten]
    decide
  obtain hflying | hdue := (undelivered_is_due hreached .client hregistered).2 halive halive' hcut hmissing
  · exact absurd hflight hflying
  · exact ⟨c, hdelivered, hflight, hdue⟩

end Conversation

end Nets
