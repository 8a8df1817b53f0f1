import Nets.Verification.ConnectorChannel.Attempts

/-! # Who closes a descriptor

A descriptor belongs to the connector or to the socket channel it has made. While the initialization
callback runs it belongs to both, and stays so when the callback throws. -/

namespace Nets.Connector

open Library

variable {c t : Connector} {f g : FdType} {throws : Prop}

/-! ## Owners -/

/-- `~ConnectorChannel` and `reconnect` close this descriptor. -/
def Holds (c : Connector) (g : FdType) : Prop :=
  c.isDestroyed = false ∧ c.state ≠ .connected ∧ c.sockFd = g ∧ 0 ≤ g

instance : Decidable (c.Holds g) := by
  unfold Holds
  infer_instance

def owners (c : Connector) (g : FdType) : ℕ :=
  (if c.Holds g then 1 else 0) + c.socketChannels.count g

/-- The owners that `newSocketChannel` has still to take away. -/
def shared (c : Connector) (g : FdType) : ℕ :=
  if c.initializing ≠ none ∧ c.sockFd = g then 1 else 0

/-- It is not a use after the descriptor was closed. -/
def Unclosed (before : List Event) (event : Event) : Prop :=
  ∀ g, event = .used g → .closed g ∉ before

theorem unclosed_of_ne {event : Event} (h : ∀ g, event ≠ .used g) (before : List Event) :
    Unclosed before event := fun g heq => absurd heq (h g)

/-- `throws` tells whether the initialization callback has thrown. -/
structure Ledger (throws : Prop) (c : Connector) : Prop where
  balance : ∀ g, c.log.count (.closed g) + c.owners g =
    c.log.count (.opened g) + c.shared g + c.log.count (.initializationThrew g)
  once : ∀ g, c.log.count (.opened g) ≤ 1
  opened : ∀ g : FdType, .opened g ∈ c.log → 0 ≤ g ∧ g < c.sockets
  socketChannels : ∀ g ∈ c.socketChannels, 0 ≤ g
  threw : (∃ g, .initializationThrew g ∈ c.log) ↔ throws
  threwOpened : ∀ g, .initializationThrew g ∈ c.log → .opened g ∈ c.log
  initializing : c.initializing ≠ none → c.Holds c.sockFd ∧ c.sockFd ∈ c.socketChannels
  connecting : c.state = .connecting → 0 ≤ c.sockFd
  uses : ¬ throws → EachAfter Unclosed c.log

theorem shared_of_none (h : c.initializing = none) (g : FdType) : c.shared g = 0 :=
  if_neg fun hshared => hshared.1 h

theorem count_note (e x : Event) :
    (c.note e).log.count x = c.log.count x + if e = x then 1 else 0 := by
  simp [note, List.count_singleton]

theorem count_note_of_ne {e x : Event} (h : e ≠ x) : (c.note e).log.count x = c.log.count x := by
  rw [count_note, if_neg h, Nat.add_zero]

theorem mem_note_of_ne {e x : Event} (h : e ≠ x) : x ∈ (c.note e).log ↔ x ∈ c.log := by
  simp [note, h.symm]

/-! ## Entries of the history that change no owner -/

def Event.isNeutral : Event → Bool
  | .connecting _ _ | .used _ | .newSocketChannel _ => true
  | .opened _ | .closed _ | .initializationThrew _ => false

theorem Ledger.note (h : Ledger throws c) {e : Event} (hneutral : e.isNeutral = true)
    (huse : ¬ throws → Unclosed c.log e) : Ledger throws (c.note e) := by
  have hclosed : ∀ g, e ≠ .closed g := by rintro g rfl; cases hneutral
  have hopened : ∀ g, e ≠ .opened g := by rintro g rfl; cases hneutral
  have hthrew : ∀ g, e ≠ .initializationThrew g := by rintro g rfl; cases hneutral
  refine ⟨fun g => ?_, fun g => ?_, fun g hg => ?_, h.socketChannels, ?_, fun g hg => ?_,
    h.initializing, h.connecting, fun hthrows => (h.uses hthrows).concat (huse hthrows)⟩
  · rw [count_note_of_ne (hclosed g), count_note_of_ne (hopened g), count_note_of_ne (hthrew g)]
    exact h.balance g
  · rw [count_note_of_ne (hopened g)]
    exact h.once g
  · exact h.opened g ((mem_note_of_ne (hopened g)).mp hg)
  · exact (exists_congr fun g => mem_note_of_ne (hthrew g)).trans h.threw
  · exact (mem_note_of_ne (hopened g)).mpr (h.threwOpened g ((mem_note_of_ne (hthrew g)).mp hg))

/-- The descriptor of an owner is open, as long as the callback has not thrown. -/
theorem Ledger.used (h : Ledger throws c) (howned : c.shared g < c.owners g) :
    Ledger throws (c.note (.used g)) := by
  refine h.note rfl ?_
  rintro hthrows _ ⟨⟩
  have hthrew : c.log.count (.initializationThrew g) = 0 :=
    List.count_eq_zero.mpr fun hmem => hthrows (h.threw.mp ⟨g, hmem⟩)
  have hbalance := h.balance g
  have honce := h.once g
  exact List.count_eq_zero.mp (by omega)

theorem owned_of_holds (hinit : c.initializing = none) (hholds : c.Holds g) :
    c.shared g < c.owners g := by
  rw [shared_of_none hinit, owners, if_pos hholds]
  omega

theorem Ledger.owned_of_mem (h : Ledger throws c) (hmem : g ∈ c.socketChannels) :
    c.shared g < c.owners g := by
  have hcount := List.count_pos_iff.mpr hmem
  rw [shared, owners]
  split
  case isTrue hshared =>
      obtain ⟨hinit, rfl⟩ := hshared
      rw [if_pos (h.initializing hinit).1]
      omega
  · omega

theorem Ledger.assertThat (h : Ledger throws c) (assertion : Assertion) (holds : Bool) :
    Ledger throws (c.assertThat assertion holds) := by
  rw [Connector.assertThat]
  split
  · exact h
  · exact { h with }

theorem Ledger.escape (h : Ledger throws c) (caller : Caller) : Ledger throws (c.escape caller) := by
  cases caller with
  | doConnect => exact h
  | timer | handleEvent => exact { h with }

/-! ## Closing -/

/-- An owner closes its descriptor, and is none any more. -/
theorem Ledger.closed (h : Ledger throws c) (hinit : c.initializing = none)
    (hlog : t.log = c.log ++ closing f)
    (howners : ∀ g, t.owners g + (if 0 ≤ f ∧ f = g then 1 else 0) = c.owners g)
    (hchannels : ∀ g ∈ t.socketChannels, 0 ≤ g) (hsockets : t.sockets = c.sockets)
    (hinit' : t.initializing = none) (hconnecting : t.state = .connecting → 0 ≤ t.sockFd) :
    Ledger throws t := by
  have hmem {x : Event} (hne : ∀ g, x ≠ .closed g) : x ∈ t.log ↔ x ∈ c.log := by
    rw [hlog, closing]
    split <;> simp [hne f]
  have hcount {x : Event} (hne : ∀ g, x ≠ .closed g) : t.log.count x = c.log.count x := by
    rw [hlog, closing]
    split <;> simp [(hne f).symm]
  have hclosed (g : FdType) : t.log.count (.closed g) =
      c.log.count (.closed g) + if 0 ≤ f ∧ f = g then 1 else 0 := by
    rw [hlog, closing]
    by_cases hf : 0 ≤ f <;> simp [hf, List.count_singleton]
  refine ⟨fun g => ?_, fun g => ?_, fun g hg => ?_, hchannels, ?_, fun g hg => ?_,
    fun hsome => absurd hinit' hsome, hconnecting, fun hthrows => ?_⟩
  · have hbalance := h.balance g
    rw [hclosed, hcount (by simp), hcount (by simp), shared_of_none hinit']
    rw [shared_of_none hinit, ← howners g] at hbalance
    omega
  · rw [hcount (by simp)]
    exact h.once g
  · rw [hsockets]
    exact h.opened g ((hmem (by simp)).mp hg)
  · exact (exists_congr fun g => hmem (by simp)).trans h.threw
  · exact (hmem (by simp)).mpr (h.threwOpened g ((hmem (by simp)).mp hg))
  · rw [hlog, closing]
    split
    · exact (h.uses hthrows).concat (unclosed_of_ne (by simp) _)
    · rw [List.append_nil]
      exact h.uses hthrows

/-! ## A connector with a descriptor -/

/-- The descriptor of the connector is open, and no callback runs. -/
structure Working (throws : Prop) (c : Connector) : Prop where
  ledger : Ledger throws c
  initializing : c.initializing = none
  holds : c.Holds c.sockFd

theorem Working.used (h : Working throws c) : Working throws (c.note (.used c.sockFd)) :=
  ⟨h.ledger.used (owned_of_holds h.initializing h.holds), h.initializing, h.holds⟩

theorem Working.assertThat (h : Working throws c) (assertion : Assertion) (holds : Bool) :
    Working throws (c.assertThat assertion holds) := by
  rw [Connector.assertThat]
  split
  · exact h
  · exact ⟨{ h.ledger with }, h.initializing, h.holds⟩

theorem Working.deregister (h : Working throws c) : Working throws c.deregister :=
  ⟨{ h.used.ledger with }, h.initializing, h.holds⟩

theorem Working.reconnect (h : Working throws c) : Ledger throws c.reconnect := by
  obtain ⟨hlives, hstate, -, hpos⟩ := h.holds
  rw [reconnect_eq hstate, closeFd_eq]
  refine h.ledger.closed (f := c.sockFd) h.initializing rfl (fun g => ?_)
    h.ledger.socketChannels rfl h.initializing (by simp)
  have hinvalid : ¬ (kInvalidFd = g ∧ 0 ≤ g) := by
    rintro ⟨rfl, hpos⟩
    exact absurd hpos (by decide)
  by_cases hg : c.sockFd = g
  · subst hg
    simp [owners, Holds, hlives, hstate, hinvalid, Nat.add_comm]
  · simp [owners, Holds, hg, hinvalid]

/-- The socket channel becomes a second owner, until the callback has returned. -/
theorem Working.newSocketChannel (h : Working throws c) (caller : Caller) :
    Ledger throws (c.newSocketChannel caller) := by
  rw [Connector.newSocketChannel, assertThat_of (decide_eq_true h.holds.2.1)]
  have hnote : Working throws ((c.note (.used c.sockFd)).note (.newSocketChannel c.sockFd)) :=
    ⟨h.used.ledger.note rfl fun _ => unclosed_of_ne (by simp) _, h.initializing, h.holds⟩
  change Ledger throws { (c.note (.used c.sockFd)).note (.newSocketChannel c.sockFd) with
    socketChannels := ((c.note (.used c.sockFd)).note (.newSocketChannel c.sockFd)).sockFd ::
      ((c.note (.used c.sockFd)).note (.newSocketChannel c.sockFd)).socketChannels
    initializing := some caller }
  generalize (c.note (.used c.sockFd)).note (.newSocketChannel c.sockFd) = u at hnote
  have howners (g : FdType) : owners { u with
      socketChannels := u.sockFd :: u.socketChannels, initializing := some caller } g =
        u.owners g + if u.sockFd = g then 1 else 0 := by
    simp [owners, Holds, List.count_cons, Nat.add_assoc]
  have hshared (g : FdType) : shared { u with
      socketChannels := u.sockFd :: u.socketChannels, initializing := some caller } g =
        if u.sockFd = g then 1 else 0 := by
    simp [shared]
  refine { hnote.ledger with
    balance := fun g => ?_
    socketChannels := List.forall_mem_cons.mpr ⟨hnote.holds.2.2.2, hnote.ledger.socketChannels⟩
    initializing := fun _ => ⟨hnote.holds, List.mem_cons_self ..⟩ }
  have hbalance := hnote.ledger.balance g
  rw [shared_of_none hnote.initializing] at hbalance
  rw [howners, hshared]
  dsimp only
  omega

theorem Working.waitConnect (h : Working throws c) (epoll : Bool) :
    Ledger throws (c.waitConnect epoll) := by
  have hadded : Working throws ((c.addEvent kWriteEvent).registerTo epoll).2 :=
    ⟨{ h.used.ledger with }, h.initializing, h.holds⟩
  rw [Connector.waitConnect]
  generalize (c.addEvent kWriteEvent).registerTo epoll = result at hadded
  obtain ⟨isRegistered, u⟩ := result
  have hu : Working throws u := hadded
  cases isRegistered with
  | true =>
      have howners (g : FdType) : owners { u with state := .connecting } g = u.owners g := by
        simp [owners, Holds, hu.holds.2.1]
      refine { hu.ledger with
        balance := fun g => ?_
        initializing := fun hsome => absurd hu.initializing hsome
        connecting := fun _ => hu.holds.2.2.2 }
      rw [howners]
      exact hu.ledger.balance g
  | false =>
      have hleft : Working throws (if u.isRegistered then u.deregister else u) := by
        split
        · exact hu.deregister
        · exact hu
      dsimp only
      generalize (if u.isRegistered then u.deregister else u) = v at hleft
      split
      · exact hleft.reconnect
      · exact hleft.ledger

theorem Working.handleConnectError (h : Working throws c) (errNum : ℕ) (epoll : Bool) :
    Ledger throws (c.handleConnectError errNum epoll) := by
  rw [Connector.handleConnectError]
  split
  · exact h.waitConnect epoll
  split
  · exact h.reconnect
  · exact h.ledger

/-! ## `connect` -/

theorem Ledger.createTcpSocket (h : Ledger throws c) (hinit : c.initializing = none)
    (hlives : c.isDestroyed = false) (hstate : c.state ≠ .connected) (hfd : c.sockFd = kInvalidFd) :
    Working throws c.createTcpSocket := by
  have hunopened : c.log.count (.opened c.sockets) = 0 :=
    List.count_eq_zero.mpr fun hmem => lt_irrefl _ (h.opened _ hmem).2
  have hmem {x : Event} (hne : .opened c.sockets ≠ x) :
      x ∈ c.createTcpSocket.log ↔ x ∈ c.log := mem_note_of_ne hne
  have hcount {x : Event} (hne : .opened c.sockets ≠ x) :
      c.createTcpSocket.log.count x = c.log.count x := count_note_of_ne hne
  have hopened (g : FdType) : c.createTcpSocket.log.count (.opened g) =
      c.log.count (.opened g) + if (c.sockets : FdType) = g then 1 else 0 := by
    refine (count_note ..).trans ?_
    simp
  refine ⟨⟨fun g => ?_, fun g => ?_, fun g hg => ?_, h.socketChannels, ?_, fun g hg => ?_,
    fun hsome => absurd hinit hsome, fun _ => Int.natCast_nonneg _, fun hthrows => ?_⟩, hinit, hlives, hstate, rfl,
    Int.natCast_nonneg _⟩
  · have hbalance := h.balance g
    have hold : ¬ c.Holds g := by
      rintro ⟨-, -, rfl, hpos⟩
      rw [hfd] at hpos
      exact absurd hpos (by decide)
    have howners : c.createTcpSocket.owners g =
        c.owners g + if (c.sockets : FdType) = g then 1 else 0 := by
      rw [owners, owners, if_neg hold, Nat.zero_add, Nat.add_comm]
      refine congrArg (c.socketChannels.count g + ·) (if_congr ?_ rfl rfl)
      simp only [Holds, Connector.createTcpSocket, Connector.note, hlives, ne_eq, hstate,
        not_false_eq_true, true_and, and_iff_left_iff_imp]
      rintro rfl
      exact Int.natCast_nonneg _
    have hnone : c.createTcpSocket.initializing = none := hinit
    rw [hopened, hcount (by simp), hcount (by simp), howners, shared_of_none hnone]
    rw [shared_of_none hinit] at hbalance
    omega
  · have honce := h.once g
    rw [hopened]
    split
    case isTrue heq => rw [← heq, hunopened]
    case isFalse => exact honce
  · by_cases heq : (c.sockets : FdType) = g
    · subst heq
      exact ⟨Int.natCast_nonneg _, Int.lt_succ _⟩
    · obtain ⟨hpos, hlt⟩ := h.opened g ((hmem (by simpa using heq)).mp hg)
      exact ⟨hpos, hlt.trans (Int.lt_succ _)⟩
  · exact (exists_congr fun g => hmem (by simp)).trans h.threw
  · exact List.mem_append_left _ (h.threwOpened g ((hmem (by simp)).mp hg))
  · exact (h.uses hthrows).concat (unclosed_of_ne (by simp) _)

theorem Ledger.connect (h : Ledger throws c) (hc : Fresh c) (hfd : c.sockFd = kInvalidFd)
    (caller : Caller) (answer : Answer) : Ledger throws (c.connect caller answer) := by
  have hentered : Ledger throws (c.note (.connecting c.state c.sockFd)) := h.note rfl fun _ => unclosed_of_ne (by simp) _
  have hstate : c.state ≠ .connected := by simp [hc.state]
  rw [Connector.connect]
  dsimp only
  split
  · have hopened := hentered.createTcpSocket hc.rests.initializing hc.lives.isDestroyed hstate hfd
    generalize (c.note (.connecting c.state c.sockFd)).createTcpSocket = u at hopened
    have hused := hopened.used.assertThat .connect (decide (u.state = .disconnected))
    split
    · exact hused.newSocketChannel caller
    · exact hused.handleConnectError answer.errNum answer.epoll
  · exact hentered.escape caller

/-! ## The end of the initialization callback -/

/-- The connector loses its descriptor, of which the socket channel is now the only owner. -/
theorem Ledger.handOver (h : Ledger throws c) (hinit : c.initializing ≠ none)
    (hinside : c.state = .connecting → Inside c.sockFd c.registry) :
    Ledger throws
      ((Connector.handOver { c with initializing := none }).note (.used c.sockFd)) := by
  obtain ⟨hholds, hmem⟩ := h.initializing hinit
  have hconnected : Ledger throws { c with initializing := none, state := .connected } := by
    refine { h with
      balance := fun g => ?_
      initializing := fun hsome => absurd rfl hsome
      connecting := by simp }
    have hbalance := h.balance g
    have howners : owners { c with initializing := none, state := .connected } g =
        c.socketChannels.count g := by
      simp [owners, Holds]
    have hshared : (if c.Holds g then 1 else 0) = c.shared g := by
      by_cases hg : c.sockFd = g
      · subst hg
        simp [shared, hinit, hholds]
      · simp [shared, Holds, hg]
    rw [howners, shared_of_none rfl]
    rw [owners, hshared] at hbalance
    dsimp only
    omega
  have hsame {u : Connector} (hu : Ledger throws u) (hchannels : u.socketChannels = c.socketChannels) :
      Ledger throws (u.note (.used c.sockFd)) := hu.used (hu.owned_of_mem (hchannels ▸ hmem))
  simp only [Connector.handOver]
  split
  case isTrue hstate =>
      rw [deregisterRegistered_eq (c := { c with initializing := none, state := .connected })
        (hinside hstate)]
      have hleft := hsame hconnected rfl
      exact hsame (u := Connector.deregister { c with initializing := none, state := .connected })
        { hleft with } rfl
  · exact hsame hconnected rfl

theorem Ledger.initializationThrew (h : Ledger throws c) (hinit : c.initializing ≠ none) :
    Ledger True (Connector.note (.initializationThrew c.sockFd) { c with initializing := none }) := by
  obtain ⟨hholds, hmem⟩ := h.initializing hinit
  have hthrew (g : FdType) : (c.note (.initializationThrew c.sockFd)).log.count
      (.initializationThrew g) = c.log.count (.initializationThrew g) + c.shared g := by
    rw [count_note]
    simp [shared, hinit]
  have hopened : .opened c.sockFd ∈ c.log := by
    have hbalance := h.balance c.sockFd
    have honce := h.once c.sockFd
    have hchannel := List.count_pos_iff.mpr hmem
    rw [owners, if_pos hholds, shared, if_pos ⟨hinit, rfl⟩] at hbalance
    by_contra hnone
    have hthrow := hnone ∘ h.threwOpened c.sockFd
    rw [List.count_eq_zero.mpr hnone, List.count_eq_zero.mpr hthrow] at hbalance
    omega
  refine ⟨fun g => ?_, fun g => ?_, fun g hg => ?_, h.socketChannels, ?_, fun g hg => ?_,
    fun hsome => absurd rfl hsome, h.connecting, fun hthrows => absurd trivial hthrows⟩
  · have hbalance := h.balance g
    have howners : owners { c with initializing := none } g = c.owners g := rfl
    rw [shared_of_none rfl, count_note_of_ne (by simp), count_note_of_ne (by simp)]
    change _ + c.owners g = _ + 0 + (c.note (.initializationThrew c.sockFd)).log.count _
    rw [hthrew]
    dsimp only
    omega
  · rw [count_note_of_ne (by simp)]
    exact h.once g
  · exact h.opened g ((mem_note_of_ne (by simp)).mp hg)
  · exact iff_true_intro ⟨c.sockFd, List.mem_append_right _ (List.mem_singleton.mpr rfl)⟩
  · rcases List.mem_append.mp hg with hold | hnew
    · exact List.mem_append_left _ (h.threwOpened g hold)
    · obtain ⟨⟩ := List.mem_singleton.mp hnew
      exact List.mem_append_left _ hopened

theorem Ledger.initialized {outcome : Outcome} (h : Ledger throws c) (hs : Sound c)
    (ht : c.initialized outcome = some t) :
    Ledger (throws ∨ outcome = .initializationThrows) t := by
  rw [Connector.initialized] at ht
  split at ht
  · cases ht
  case h_2 caller hcaller =>
      have hinit : c.initializing ≠ none := by simp [hcaller]
      have hinside : c.state = .connecting → Inside c.sockFd c.registry := by
        intro hstate
        obtain ⟨_, -, ⟨-, -, hin⟩ | ⟨-, hfresh, -⟩⟩ :=
          (hs.stage.announced_of_initializing hinit).calls
        · exact hin
        · cases hstate.symm.trans hfresh
      have hleft := h.handOver hinit hinside
      have hsockFd : (Connector.handOver { c with initializing := none }).sockFd = c.sockFd := by
        rw [Connector.handOver]
        split
        · rw [deregisterRegistered_eq (c := { c with initializing := none, state := .connected })
            (hinside ‹_›)]
          rfl
        · rfl
      cases outcome with
      | initializationThrows =>
          obtain rfl := Option.some.inj ht
          simpa using (h.initializationThrew hinit).escape caller
      | isNotRegistered | returns =>
          obtain rfl := Option.some.inj ht
          simpa [hsockFd] using hleft
      | channelConnectThrows =>
          obtain rfl := Option.some.inj ht
          simpa [hsockFd] using hleft.escape caller

/-! ## The other steps -/

theorem Ledger.handleErrorEvent (h : Ledger throws c) : Ledger throws c.handleErrorEvent := by
  have hsame := h.assertThat .handleErrorEvent (decide (c.state ≠ .connected))
  rw [Connector.handleErrorEvent]
  generalize c.assertThat .handleErrorEvent (decide (c.state ≠ .connected)) = u at hsame
  exact { hsame with }

theorem Ledger.handle {sockError : ℕ} (h : Ledger throws c) (hs : Sound c)
    (hinit : c.initializing = none) (ht : c.handle sockError = some t) : Ledger throws t := by
  rw [Connector.handle] at ht
  split at ht
  case h_2 => cases ht
  case h_1 event readyEvents hphase =>
      have hc := hs.stage.waiting_of_ready hphase
      have hne : c.state ≠ .connected := by simp [hc.state]
      have hholds : c.Holds c.sockFd := ⟨hc.lives.isDestroyed, hne, rfl, h.connecting hc.state⟩
      have hnext : Working throws { c with phase := .dispatch readyEvents } :=
        ⟨{ h with }, hinit, hholds⟩
      cases event with
      | error =>
          obtain rfl := Option.some.inj ht
          exact hnext.ledger.handleErrorEvent
      | read =>
          obtain rfl := Option.some.inj ht
          exact hnext.ledger
      | write =>
          obtain rfl := Option.some.inj ht
          rw [handleWriteEvent, if_neg (not_not.mpr hc.state)]
          dsimp only
          split
          · exact hnext.used.ledger.handleErrorEvent
          · exact hnext.used.newSocketChannel .handleEvent

theorem Ledger.runTask (h : Ledger throws c) (hs : Sound c) (ht : c.runTask = some t) :
    Ledger throws t := by
  rw [Connector.runTask] at ht
  split at ht
  case h_2 => cases ht
  case h_1 task tmpTasks hphase =>
      obtain rfl := Option.some.inj ht
      have hc := hs.stage.failed_of_task hphase
      have hne : c.state ≠ .connected := by simp [hc.state]
      have hnext : Working throws { c with phase := .runPendingTasks tmpTasks } :=
        ⟨{ h with }, hc.initializing, hc.lives.isDestroyed, hne, rfl, h.connecting hc.state⟩
      have hleft := hnext.deregister.assertThat .lastReference
        (Connector.deregister { c with phase := .runPendingTasks tmpTasks }).isLastReference
      have hsame := deregisterRegistered_eq (c := { c with phase := .runPendingTasks tmpTasks })
        hc.inside
      simp only [performTask, hsame]
      cases task with
      | reconnect => exact hleft.reconnect
      | deregister => exact hleft.ledger

theorem Ledger.runTimer {answer : Answer} (h : Ledger throws c) (hs : Sound c)
    (ht : c.runTimer answer = some t) : Ledger throws t := by
  rw [Connector.runTimer] at ht
  split at ht
  case h_2 => cases ht
  case h_1 hphase =>
      obtain ⟨htimers, ht⟩ := Option.ite_none_right_eq_some.mp ht
      obtain rfl := Option.some.inj ht
      have hc := hs.stage.delayed_of_timer hphase htimers
      have hnext : Ledger throws { c with timers := c.timers - 1 } := { h with }
      exact hnext.connect hc.fresh hc.sockFd .timer answer

theorem Ledger.runPendingTasks (h : Ledger throws c) (ht : c.runPendingTasks = some t) :
    Ledger throws t := by
  rw [Connector.runPendingTasks] at ht
  split at ht
  case h_2 => cases ht
  case h_1 =>
      obtain rfl := Option.some.inj ht
      exact { h with }

theorem Ledger.poll {report : Option Dispatch.Report} (h : Ledger throws c)
    (ht : c.poll report = some t) : Ledger throws t := by
  rw [Connector.poll.eq_def] at ht
  split at ht
  · obtain rfl := Option.some.inj ht
    exact { h with }
  · obtain ⟨entry, -, rfl⟩ := Option.map_eq_some_iff.mp ht
    exact { h with }
  · cases ht

theorem Ledger.endBatch {isRunning : Bool} (h : Ledger throws c) (ht : c.endBatch isRunning = some t) :
    Ledger throws t := by
  rw [Connector.endBatch] at ht
  split at ht
  case h_2 => cases ht
  case h_1 =>
      obtain rfl := Option.some.inj ht
      exact { h with }

theorem Ledger.destroySocketChannel (h : Ledger throws c) (ht : c.destroySocketChannel f = some t) :
    Ledger throws t := by
  obtain ⟨⟨hmem, hinit⟩, ht⟩ := Option.ite_none_right_eq_some.mp ht
  obtain rfl := Option.some.inj ht
  rw [closeFd_eq]
  have hpos := h.socketChannels f hmem
  refine h.closed (f := f) hinit rfl (fun g => ?_)
    (fun g hg => h.socketChannels g (List.mem_of_mem_erase hg)) rfl hinit h.connecting
  have hcount := List.count_pos_iff.mpr hmem
  simp only [owners, Holds, hpos, true_and, List.count_erase, beq_iff_eq]
  by_cases hg : f = g
  · subst hg
    simp only [if_true]
    omega
  · simp only [hg, if_false]
    omega

theorem Ledger.destroy (h : Ledger throws c) (ht : c.destroy = some t) : Ledger throws t := by
  obtain ⟨⟨hlives, hinit, -⟩, ht⟩ := Option.ite_none_right_eq_some.mp ht
  obtain rfl := Option.some.inj ht
  dsimp only
  split
  case isTrue hstate =>
      rw [closeFd_eq]
      refine h.closed (f := c.sockFd) hinit rfl (fun g => ?_) h.socketChannels rfl hinit h.connecting
      by_cases hg : c.sockFd = g
      · subst hg
        simp [owners, Holds, hlives, hstate, Nat.add_comm]
      · simp [owners, Holds, hg]
  case isFalse hstate =>
      refine { h with balance := fun g => ?_, initializing := fun hsome => absurd hinit hsome }
      have howners : owners { c with isDestroyed := true } g = c.owners g := by
        simp [owners, Holds, not_not.mp hstate]
      rw [howners]
      exact h.balance g

theorem Ledger.step {action : Action} (h : Ledger throws c) (hs : Sound c)
    (ht : c.step action = some t) :
    Ledger (throws ∨ .initialized .initializationThrows = action) t := by
  cases action with
  | initialized outcome => simpa [eq_comm] using h.initialized hs ht
  | runTimer answer => simpa using h.runTimer hs (Option.ite_none_right_eq_some.mp ht).2
  | runPendingTasks => simpa using h.runPendingTasks (Option.ite_none_right_eq_some.mp ht).2
  | runTask => simpa using h.runTask hs (Option.ite_none_right_eq_some.mp ht).2
  | poll report => simpa using h.poll (Option.ite_none_right_eq_some.mp ht).2
  | handle sockError =>
      obtain ⟨hinit, ht⟩ := Option.ite_none_right_eq_some.mp ht
      simpa using h.handle hs hinit ht
  | endBatch isRunning => simpa using h.endBatch (Option.ite_none_right_eq_some.mp ht).2
  | useSocketChannel fd =>
      obtain ⟨hmem, ht⟩ := Option.ite_none_right_eq_some.mp ht
      obtain rfl := Option.some.inj ht
      simpa using h.used (h.owned_of_mem hmem)
  | destroySocketChannel fd => simpa using h.destroySocketChannel ht
  | destroy => simpa using h.destroy ht

/-! ## Runs -/

theorem Ledger.run {actions : List Action} (h : Ledger throws c) (hs : Sound c)
    (ht : system.run c actions = some t) :
    Ledger (throws ∨ .initialized .initializationThrows ∈ actions) t := by
  induction actions generalizing c throws with
  | nil =>
      obtain rfl := Option.some.inj ht
      simpa using h
  | cons action actions ih =>
      obtain ⟨u, hu, hrest⟩ := Option.bind_eq_some_iff.mp ht
      rw [List.mem_cons, ← or_assoc]
      exact ih (h.step hs hu) (hs.step hu) hrest

theorem ledger_doConnect {phase : Phase} (hidle : IsIdle phase) (retry : Bool) (answer : Answer) :
    Ledger False (doConnect retry phase answer) := by
  obtain ⟨hfresh, -⟩ := fresh_construct hidle retry
  have hstart : Ledger False (construct retry phase) := by
    have howners (g : FdType) : (construct retry phase).owners g = 0 := by
      have hinvalid : ¬ (construct retry phase).Holds g := by
        rintro ⟨-, -, rfl, hpos⟩
        exact absurd hpos (by simp [construct, kInvalidFd])
      rw [owners, if_neg hinvalid]
      rfl
    refine ⟨fun g => ?_, fun g => zero_le_one, ?_, ?_, ?_, ?_, ?_, ?_, fun _ => .nil⟩
    · rw [howners, shared_of_none rfl]
      rfl
    all_goals simp [construct]
  exact hstart.connect hfresh rfl .doConnect answer

/-- No descriptor is closed twice, or used after it was closed, and none is left open when both objects
are gone. -/
structure Disposed (c : Connector) : Prop where
  once : ∀ g, c.log.count (.closed g) ≤ 1
  uses : EachAfter Unclosed c.log
  all : c.isDestroyed = true → c.socketChannels = [] →
    ∀ g, .opened g ∈ c.log → c.log.count (.closed g) = 1

/-- The descriptors that were opened are closed, and a second time after the callback has thrown. -/
theorem Ledger.count_closed (h : Ledger throws c) (hdestroyed : c.isDestroyed = true)
    (hchannels : c.socketChannels = []) (g : FdType) :
    c.log.count (.closed g) = c.log.count (.opened g) + c.log.count (.initializationThrew g) := by
  have hinit : c.initializing = none := by
    by_contra hsome
    have hholds := (h.initializing hsome).1
    cases hdestroyed.symm.trans hholds.1
  have hbalance := h.balance g
  have howners : c.owners g = 0 := by simp [owners, Holds, hdestroyed, hchannels]
  rw [howners, shared_of_none hinit] at hbalance
  omega

theorem Ledger.shared_le_owners (h : Ledger throws c) (g : FdType) : c.shared g ≤ c.owners g := by
  by_cases hshared : c.initializing ≠ none ∧ c.sockFd = g
  · obtain ⟨hinit, rfl⟩ := hshared
    exact (h.owned_of_mem (h.initializing hinit).2).le
  · rw [shared, if_neg hshared]
    exact Nat.zero_le _

theorem Ledger.disposed (h : Ledger throws c) (hthrows : ¬ throws) : Disposed c := by
  have hthrew (g : FdType) : c.log.count (.initializationThrew g) = 0 :=
    List.count_eq_zero.mpr fun hmem => hthrows (h.threw.mp ⟨g, hmem⟩)
  refine ⟨fun g => ?_, h.uses hthrows, fun hdestroyed hchannels g hg => ?_⟩
  · have hbalance := h.balance g
    have honce := h.once g
    have hshared := h.shared_le_owners g
    rw [hthrew] at hbalance
    omega
  · have hpos := List.count_pos_iff.mpr hg
    have honce := h.once g
    rw [h.count_closed hdestroyed hchannels, hthrew]
    omega

theorem Ledger.not_disposed (h : Ledger throws c) (hthrows : throws)
    (hdestroyed : c.isDestroyed = true) (hchannels : c.socketChannels = []) : ¬ Disposed c := by
  obtain ⟨g, hthrew⟩ := h.threw.mpr hthrows
  have hopened := List.count_pos_iff.mpr (h.threwOpened g hthrew)
  have htwice := List.count_pos_iff.mpr hthrew
  intro hdisposed
  have honce := hdisposed.once g
  rw [h.count_closed hdestroyed hchannels] at honce
  omega

/-- As long as the initialization callback never throws, descriptors are disposed of as they should be;
when it has thrown they are not, once both objects are gone. -/
theorem disposed_of_run (retry : Bool) (phase : Phase) (answer : Answer) (actions : List Action)
    (t : Connector) (hidle : IsIdle phase)
    (ht : system.run (doConnect retry phase answer) actions = some t) :
    (.initialized .initializationThrows ∉ actions → Disposed t) ∧
      (t.isDestroyed = true → t.socketChannels = [] → Disposed t →
        .initialized .initializationThrows ∉ actions) := by
  have hsound : Sound (doConnect retry phase answer) :=
    sound_of_reachable (.initial ⟨retry, phase, answer, hidle, rfl⟩)
  have hledger := (ledger_doConnect hidle retry answer).run hsound ht
  rw [false_or] at hledger
  refine ⟨hledger.disposed, fun hdestroyed hchannels hdisposed hthrows => ?_⟩
  exact hledger.not_disposed hthrows hdestroyed hchannels hdisposed

/-- The second of two sockets is connected, and closed by its socket channel. -/
theorem disposed_retried :
    ∃ t : Connector, (t.isDestroyed = true ∧ t.socketChannels = [] ∧ t.sockets = 2) ∧ Disposed t := by
  let actions : List Action := [.runTimer ⟨true, EINPROGRESS, true⟩, .runPendingTasks,
    .poll (some ⟨1, false, false, true⟩), .handle 0, .initialized .returns, .useSocketChannel 1,
    .destroySocketChannel 1, .destroy]
  have hrun : (system.run (doConnect true .update ⟨true, ENETUNREACH, true⟩) actions).any
      (fun t => decide (t.isDestroyed = true ∧ t.socketChannels = [] ∧ t.sockets = 2)) = true := by
    decide +kernel
  obtain ⟨t, ht, hend⟩ := (Option.any_eq_true ..).mp hrun
  have hdisposed := disposed_of_run true .update ⟨true, ENETUNREACH, true⟩ actions t (.inl rfl) ht
  exact ⟨t, of_decide_eq_true hend, hdisposed.1 (by decide)⟩

/-- It is connected at once, the callback throws, and both destructors close the descriptor. -/
theorem not_disposed_initializationThrows :
    ¬ ∀ (retry : Bool) (phase : Phase) (answer : Answer) (actions : List Action) (t : Connector),
      IsIdle phase → system.run (doConnect retry phase answer) actions = some t → Disposed t := by
  intro h
  have hrun : (system.run (doConnect false .update ⟨true, 0, true⟩) [.initialized .initializationThrows,
      .destroySocketChannel 0, .destroy]).any (fun t => decide (t.log.count (.closed 0) = 2)) = true := by
    decide +kernel
  obtain ⟨t, ht, htwice⟩ := (Option.any_eq_true ..).mp hrun
  have honce := (h false .update ⟨true, 0, true⟩ _ t (.inl rfl) ht).once 0
  have htwo : t.log.count (.closed 0) = 2 := of_decide_eq_true htwice
  omega

end Nets.Connector
