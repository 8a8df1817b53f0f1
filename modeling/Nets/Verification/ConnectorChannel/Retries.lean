import Nets.Verification.ConnectorChannel.Stages

/-! # Connectors that are not to try again

`handleErrorEvent` and `waitConnect` ask for `retry_`. `handleConnectError` does not, so that a
connection refused at once is tried again by every connector. -/

namespace Nets.Connector

open Library

variable {c t : Connector} {f : FdType}

/-- No reconnection is scheduled, and there has been one socket at most. -/
structure Single (c : Connector) : Prop where
  timers : c.timers = 0
  sockets : c.sockets ≤ 1

/-- A connector that is not to try again, with no task that would. -/
structure Final (c : Connector) : Prop where
  retry : c.retry = false
  single : Single c
  tmpTasks : ∀ task ∈ c.phase.tmpTasks, task = .deregister
  pendingTasks : ∀ task ∈ c.pendingTasks, task = .deregister

/-! ## Steps -/

theorem Final.note (h : Final c) {e : Event} : Final (c.note e) :=
  { h with single := { h.single with } }

theorem Final.assertThat (h : Final c) (assertion : Assertion) (holds : Bool) :
    Final (c.assertThat assertion holds) := by
  rw [Connector.assertThat]
  split
  · exact h
  · exact { h with single := { h.single with } }

theorem Final.closeFd (h : Final c) (f : FdType) : Final (c.closeFd f) := by
  rw [closeFd_eq]
  exact { h with single := { h.single with } }

theorem Final.deregister (h : Final c) : Final c.deregister :=
  { h with single := { h.single with } }

theorem Final.deregisterRegistered (h : Final c) : Final c.deregisterRegistered :=
  (h.assertThat _ _).deregister.assertThat _ _

theorem Final.newSocketChannel (h : Final c) (caller : Caller) :
    Final (c.newSocketChannel caller) := by
  have hsame := h.assertThat .newSocketChannel (decide (c.state ≠ .connected))
  rw [Connector.newSocketChannel]
  generalize c.assertThat .newSocketChannel (decide (c.state ≠ .connected)) = u at hsame
  exact { hsame with single := { hsame.single with } }

theorem Final.waitConnect (h : Final c) (epoll : Bool) : Final (c.waitConnect epoll) := by
  have hadded : Final ((c.addEvent kWriteEvent).registerTo epoll).2 :=
    { h with single := { h.single with } }
  rw [Connector.waitConnect]
  generalize (c.addEvent kWriteEvent).registerTo epoll = result at hadded
  obtain ⟨isRegistered, u⟩ := result
  cases isRegistered with
  | true => exact { hadded with single := { hadded.single with } }
  | false =>
      have hleft : Final (if u.isRegistered then u.deregister else u) := by
        split
        · exact Final.deregister hadded
        · exact hadded
      simp only [hleft.retry, Bool.false_eq_true, if_false]
      exact hleft

theorem Final.escape (h : Final c) (caller : Caller) : Final (c.escape caller) := by
  cases caller with
  | doConnect => exact h
  | timer | handleEvent =>
      exact { h with single := { h.single with }, tmpTasks := List.forall_mem_nil _ }

theorem Final.handOver (h : Final c) : Final c.handOver := by
  have hconnected : Final { c with state := .connected } :=
    { h with single := { h.single with } }
  rw [Connector.handOver]
  split
  · exact hconnected.deregisterRegistered
  · exact hconnected

theorem Final.initialized {outcome : Outcome} (h : Final c) (ht : c.initialized outcome = some t) :
    Final t := by
  rw [Connector.initialized] at ht
  have hreturned : Final { c with initializing := none } := { h with single := { h.single with } }
  split at ht
  · cases ht
  · split at ht <;> obtain rfl := Option.some.inj ht
    · exact hreturned.note.escape _
    · exact hreturned.handOver.note
    · exact hreturned.handOver.note
    · exact hreturned.handOver.note.escape _

/-- The task is the one that does not reconnect. -/
theorem Final.handleErrorEvent (h : Final c) : Final c.handleErrorEvent := by
  have hsame := h.assertThat .handleErrorEvent (decide (c.state ≠ .connected))
  rw [Connector.handleErrorEvent]
  generalize c.assertThat .handleErrorEvent (decide (c.state ≠ .connected)) = u at hsame
  refine { hsame with single := { hsame.single with }, pendingTasks := fun task hmem => ?_ }
  rcases List.mem_append.mp hmem with hold | hnew
  · exact hsame.pendingTasks task hold
  · rw [List.mem_singleton.mp hnew, hsame.retry]
    rfl

theorem Final.handle {sockError : ℕ} (h : Final c) (ht : c.handle sockError = some t) : Final t := by
  rw [Connector.handle] at ht
  split at ht
  case h_2 => cases ht
  case h_1 event readyEvents hphase =>
      have hnext : Final { c with phase := .dispatch readyEvents } :=
        { h with single := { h.single with }, tmpTasks := List.forall_mem_nil _ }
      cases event with
      | error =>
          obtain rfl := Option.some.inj ht
          exact hnext.handleErrorEvent
      | read =>
          obtain rfl := Option.some.inj ht
          exact hnext
      | write =>
          obtain rfl := Option.some.inj ht
          rw [Connector.handleWriteEvent]
          split
          · exact hnext
          dsimp only
          split
          · exact hnext.note.handleErrorEvent
          · exact hnext.note.newSocketChannel .handleEvent

theorem Final.runTask (h : Final c) (ht : c.runTask = some t) : Final t := by
  rw [Connector.runTask] at ht
  split at ht
  case h_2 => cases ht
  case h_1 task tmpTasks hphase =>
      obtain rfl := Option.some.inj ht
      obtain ⟨rfl, hrest⟩ : task = .deregister ∧ ∀ task ∈ tmpTasks, task = .deregister := by
        have htasks := h.tmpTasks
        rw [hphase] at htasks
        exact List.forall_mem_cons.mp htasks
      have hnext : Final { c with phase := .runPendingTasks tmpTasks } :=
        { h with single := { h.single with }, tmpTasks := hrest }
      exact hnext.deregisterRegistered.assertThat _ _

theorem Final.runTimer {answer : Answer} (h : Final c) : c.runTimer answer = none := by
  rw [Connector.runTimer]
  split
  · rw [h.single.timers]
    rfl
  · rfl

theorem Final.runPendingTasks (h : Final c) (ht : c.runPendingTasks = some t) : Final t := by
  rw [Connector.runPendingTasks] at ht
  split at ht
  case h_2 => cases ht
  case h_1 =>
      obtain rfl := Option.some.inj ht
      exact { h with
        single := { h.single with }, tmpTasks := h.pendingTasks, pendingTasks := List.forall_mem_nil _ }

theorem Final.dispatch (h : Final c) (readyEvents : List ReadyEvent) :
    Final { c with phase := .dispatch readyEvents } :=
  { h with single := { h.single with }, tmpTasks := List.forall_mem_nil _ }

theorem Final.poll {report : Option Dispatch.Report} (h : Final c) (ht : c.poll report = some t) :
    Final t := by
  rw [Connector.poll.eq_def] at ht
  split at ht
  · obtain rfl := Option.some.inj ht
    exact h.dispatch _
  · obtain ⟨entry, -, rfl⟩ := Option.map_eq_some_iff.mp ht
    exact h.dispatch _
  · cases ht

theorem Final.endBatch {isRunning : Bool} (h : Final c) (ht : c.endBatch isRunning = some t) :
    Final t := by
  rw [Connector.endBatch] at ht
  split at ht
  case h_2 => cases ht
  case h_1 =>
      obtain rfl := Option.some.inj ht
      refine { h with single := { h.single with }, tmpTasks := ?_ }
      cases isRunning <;> exact List.forall_mem_nil _

theorem Final.step {action : Action} (h : Final c) (ht : c.step action = some t) : Final t := by
  cases action with
  | initialized outcome => exact h.initialized ht
  | runTimer answer =>
      have hnone := (Option.ite_none_right_eq_some.mp ht).2
      rw [h.runTimer] at hnone
      cases hnone
  | runPendingTasks => exact h.runPendingTasks (Option.ite_none_right_eq_some.mp ht).2
  | runTask => exact h.runTask (Option.ite_none_right_eq_some.mp ht).2
  | poll report => exact h.poll (Option.ite_none_right_eq_some.mp ht).2
  | handle sockError => exact h.handle (Option.ite_none_right_eq_some.mp ht).2
  | endBatch isRunning => exact h.endBatch (Option.ite_none_right_eq_some.mp ht).2
  | useSocketChannel fd =>
      obtain rfl := Option.some.inj (Option.ite_none_right_eq_some.mp ht).2
      exact h.note
  | destroySocketChannel fd =>
      obtain rfl := Option.some.inj (Option.ite_none_right_eq_some.mp ht).2
      have herased : Final { c with socketChannels := c.socketChannels.erase fd } :=
        { h with single := { h.single with } }
      exact herased.closeFd fd
  | destroy =>
      obtain rfl := Option.some.inj (Option.ite_none_right_eq_some.mp ht).2
      have hdestroyed : Final { c with isDestroyed := true } :=
        { h with single := { h.single with } }
      dsimp only
      split
      · exact hdestroyed.closeFd c.sockFd
      · exact hdestroyed

/-! ## Runs -/

theorem Final.run {actions : List Action} (h : Final c) (ht : system.run c actions = some t) :
    Final t :=
  System.run_invariant (fun _ _ _ h ht => h.step ht) h ht

/-- The kernel answers at once that there is no connection, with one of the errors after which
`handleConnectError` connects again. -/
def Answer.isRefused (answer : Answer) : Bool := answer.isCreated && isRetried answer.errNum

theorem Final.connect {answer : Answer} (h : Final c) (hsockets : c.sockets = 0)
    (hanswer : answer.isRefused = false) (caller : Caller) : Final (c.connect caller answer) := by
  rw [Connector.connect]
  dsimp only
  split
  case isFalse => exact h.note.escape caller
  case isTrue hcreated =>
      have hretried : isRetried answer.errNum = false := by
        simpa [Answer.isRefused, hcreated] using hanswer
      have hopened : Final (c.note (.connecting c.state c.sockFd)).createTcpSocket :=
        { h with single := ⟨h.single.timers, (congrArg (· + 1) hsockets).le⟩ }
      generalize (c.note (.connecting c.state c.sockFd)).createTcpSocket = u at hopened
      have hconnected : Final ((u.note (.used u.sockFd)).assertThat .connect
          (decide (u.state = .disconnected))) := hopened.note.assertThat _ _
      split
      · exact hconnected.newSocketChannel caller
      · rw [handleConnectError, hretried]
        split
        · exact hconnected.waitConnect answer.epoll
        · exact hconnected

theorem final_doConnect {phase : Phase} {answer : Answer} (hidle : IsIdle phase)
    (h : answer.isRefused = false) : Final (doConnect false phase answer) := by
  have hstart : Final (construct false phase) := by
    refine ⟨rfl, ⟨rfl, zero_le_one⟩, ?_, List.forall_mem_nil _⟩
    rcases hidle with rfl | rfl | rfl <;> exact List.forall_mem_nil _
  exact hstart.connect rfl h .doConnect

theorem timers_doConnect {phase : Phase} {answer : Answer} (h : answer.isRefused = true) :
    (doConnect false phase answer).timers = 1 := by
  obtain ⟨hcreated, hretried⟩ := Bool.and_eq_true_iff.mp h
  have hne : answer.errNum ≠ 0 := by
    intro hzero
    rw [hzero] at hretried
    exact absurd hretried (by decide)
  have hpending : isPending answer.errNum = false := by
    have hmem := of_decide_eq_true hretried
    refine decide_eq_false fun hother => ?_
    simp only [List.mem_cons, List.not_mem_nil, or_false] at hmem hother
    simp only [EAGAIN, ETIMEDOUT, EADDRINUSE, EADDRNOTAVAIL, ECONNREFUSED, ENETUNREACH, EINTR,
      EISCONN, EINPROGRESS] at hmem hother
    omega
  simp only [doConnect, connect, hcreated, hne, handleConnectError, hpending, hretried, if_true,
    if_false, Bool.false_eq_true]
  rw [reconnect_eq (by simp [note, createTcpSocket, assertThat, construct]), closeFd_eq]
  rfl

/-- Only an error at once makes a connector connect again that is not to try again. -/
theorem single_iff (phase : Phase) (hidle : IsIdle phase) (answer : Answer) :
    (∀ actions t, system.run (doConnect false phase answer) actions = some t → Single t) ↔
      answer.isRefused = false := by
  constructor
  · intro hsingle
    refine Bool.eq_false_iff.mpr fun hrefused => ?_
    have hnone := (hsingle [] _ rfl).timers
    rw [timers_doConnect hrefused] at hnone
    cases hnone
  · exact fun hrefused _ _ hrun => ((final_doConnect hidle hrefused).run hrun).single

theorem single_failed_registration :
    IsIdle .update ∧
      ∀ actions t, system.run (doConnect false .update ⟨true, EINPROGRESS, false⟩) actions = some t →
        Single t :=
  ⟨.inl rfl, (single_iff .update (.inl rfl) ⟨true, EINPROGRESS, false⟩).mpr (by decide)⟩

/-- A network that is not reachable gives a second socket. -/
theorem not_single_unreachable :
    ¬ ∀ (phase : Phase) (answer : Answer), IsIdle phase → ∀ actions t,
      system.run (doConnect false phase answer) actions = some t → Single t := by
  intro h
  have hrun : system.run (doConnect false .update ⟨true, ENETUNREACH, true⟩)
      [.runTimer ⟨true, EINPROGRESS, true⟩] ≠ none := by decide +kernel
  obtain ⟨t, ht⟩ := Option.ne_none_iff_exists'.mp hrun
  have hsockets : (system.run (doConnect false .update ⟨true, ENETUNREACH, true⟩)
      [.runTimer ⟨true, EINPROGRESS, true⟩]).map Connector.sockets = some 2 := by decide +kernel
  rw [ht] at hsockets
  have htwo := Option.some.inj hsockets
  have hone := (h .update ⟨true, ENETUNREACH, true⟩ (.inl rfl) _ t ht).sockets
  omega

end Nets.Connector
