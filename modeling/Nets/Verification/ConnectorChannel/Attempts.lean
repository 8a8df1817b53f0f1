import Nets.Verification.ConnectorChannel.Stages
import Nets.Verification.Dispatch.Registration

/-! # One attempt at a time

Every step keeps the connector in one of its stages, so that at any time at most one thing goes on with
the connection. Whether it tries again does not depend on `retry_` alone. -/

namespace Nets.Connector

open Library

variable {c t : Connector} {f : FdType}

/-! ## The end of an attempt -/

theorem deregisterRegistered_eq (hin : Inside c.sockFd c.registry) :
    c.deregisterRegistered = c.deregister := by
  have hregistered : c.isRegistered = true := hin.isRegistered
  rw [deregisterRegistered, assertThat_of hregistered]
  exact assertThat_of (congrArg not hin.deregistered.isRegistered)

theorem Recorded.deregister (hr : Recorded c) : Recorded c.deregister := by
  have hused : Recorded (c.note (.used c.sockFd)) := hr.used
  refine { hused with events := ?_ }
  rw [Connector.deregister, Registry.deregisterChannel_eq]
  exact hr.events

theorem Ended.note (hc : Ended c) {e : Event} (hnew : e.isNew = false) : Ended (c.note e) :=
  { hc with
    rests := { hc.rests with }
    made := (made_note hnew).trans_le hc.made }

theorem pendingTasks_of_tasks (h : c.tasks = []) : c.pendingTasks = [] :=
  (List.append_eq_nil_iff.mp h).2

/-- A connector without tasks and timers waits for its connection at most. -/
theorem continuations_le (htasks : c.tasks = []) (htimers : c.timers = 0) : c.continuations ≤ 1 := by
  rw [continuations, htasks, htimers]
  split <;> simp

theorem Ended.exit (hc : Ended c) : Ended { c with phase := .exited } :=
  ⟨⟨pendingTasks_of_tasks hc.rests.tasks, hc.rests.timers, hc.rests.initializing⟩, hc.outside,
    hc.made, nofun⟩

theorem Sound.escape (hc : Ended c) (hr : Recorded c) (caller : Caller) : Sound (c.escape caller) := by
  cases caller with
  | doConnect => exact ⟨.ended hc, hr⟩
  | timer | handleEvent => exact ⟨.ended hc.exit, { hr with }⟩

/-- The connector leaves its loop, if it is still there. -/
theorem Announced.handOver (hc : Announced c) (hr : Recorded c) :
    Ended (Connector.handOver { c with initializing := none }) ∧
      Recorded (Connector.handOver { c with initializing := none }) := by
  obtain ⟨caller, -, ⟨-, hstate, hinside⟩ | ⟨-, hstate, houtside⟩⟩ := hc.calls
  · have hin : Inside c.sockFd c.registry := hinside
    have hleft : Recorded { c with initializing := none, state := .connected } := { hr with }
    simp only [Connector.handOver, hstate, if_true]
    rw [deregisterRegistered_eq (c := { c with initializing := none, state := .connected }) hin]
    refine ⟨⟨⟨hc.tasks, hc.timers, rfl⟩, hin.deregistered, ?_, hc.ready⟩, hleft.deregister⟩
    exact ((made_note rfl).trans hc.made).le
  · have hne : ¬ c.state = .connecting := by simp [hstate]
    simp only [Connector.handOver, hne, if_false]
    exact ⟨⟨⟨hc.tasks, hc.timers, rfl⟩, houtside, hc.made.le, hc.ready⟩, { hr with }⟩

theorem Announced.initialized {outcome : Outcome} (hc : Announced c) (hr : Recorded c)
    (h : c.initialized outcome = some t) : Sound t := by
  obtain ⟨hended, hrecorded⟩ := hc.handOver hr
  obtain ⟨caller, hcaller, hcalls⟩ := hc.calls
  simp only [Connector.initialized, hcaller] at h
  generalize Connector.handOver { c with initializing := none } = u at h hended hrecorded
  cases outcome with
  | initializationThrows =>
      obtain rfl := Option.some.inj h
      have hcalled : Recorded { c with initializing := none } := { hr with }
      have hthrew := hcalled.note (e := .initializationThrew c.sockFd) nofun nofun rfl
      rcases hcalls with ⟨rfl, hstate, -⟩ | ⟨-, -, houtside⟩
      · have hne : c.state ≠ .connected := by simp [hstate]
        refine ⟨.stopped ⟨rfl, hne, ?_, rfl, ?_⟩, { hthrew with }⟩
        · have htasks : c.pendingTasks = [] := pendingTasks_of_tasks hc.tasks
          exact continuations_le htasks hc.timers
        · exact ((made_note rfl).trans hc.made).le
      · have hended' : Ended (Connector.note (.initializationThrew c.sockFd)
            { c with initializing := none }) :=
          ⟨⟨hc.tasks, hc.timers, rfl⟩, houtside, ((made_note rfl).trans hc.made).le, hc.ready⟩
        exact Sound.escape hended' hthrew caller
  | isNotRegistered | returns =>
      obtain rfl := Option.some.inj h
      exact ⟨.ended (hended.note rfl), hrecorded.used⟩
  | channelConnectThrows =>
      obtain rfl := Option.some.inj h
      exact Sound.escape (hended.note rfl) hrecorded.used caller

theorem Announced.initializing_ne (hc : Announced c) : c.initializing ≠ none := by
  obtain ⟨caller, hcaller, -⟩ := hc.calls
  simp [hcaller]

/-- Only a connector that has announced its connection waits for the callback. -/
theorem Stage.announced_of_initializing (hc : Stage c) (hinit : c.initializing ≠ none) :
    Announced c := by
  cases hc with
  | announced h => exact h
  | waiting h | ended h => exact absurd h.rests.initializing hinit
  | failed h | delayed h | stopped h => exact absurd h.initializing hinit

/-! ## The loop goes on -/

/-- The loop goes on to another phase with the same tasks. -/
theorem Stage.advance {phase : Phase} {pendingTasks : List ErrorTask} (hc : Stage c)
    (hinit : c.initializing = none) (hrunning : c.phase ≠ .exited)
    (htasks : tasks { c with phase, pendingTasks } = c.tasks) (hphase : phase ≠ .exited)
    (hready : NoneReady phase)
    (hpending : ∀ tmpTasks, phase = .runPendingTasks tmpTasks → pendingTasks = []) :
    Stage { c with phase, pendingTasks } := by
  have hlives {d : Connector} (h : Lives d) (hd : d.isDestroyed = c.isDestroyed) :
      Lives { c with phase, pendingTasks } := ⟨hd.symm.trans h.isDestroyed, hphase⟩
  cases hc with
  | waiting h =>
      exact .waiting ⟨hlives h.lives rfl, ⟨htasks.trans h.rests.tasks, h.rests.timers, hinit⟩, h.state,
        h.inside, h.made, fun events heq => .inl (hready events heq)⟩
  | announced h => exact absurd hinit h.initializing_ne
  | failed h =>
      exact .failed ⟨hlives h.lives rfl, h.state, h.inside, htasks ▸ h.tasks, h.timers, hinit, h.made,
        hready, hpending⟩
  | delayed h =>
      exact .delayed ⟨hlives h.lives rfl, h.state, h.sockFd, h.outside, htasks.trans h.tasks, h.timers,
        hinit, h.made, hready⟩
  | ended h =>
      exact .ended ⟨⟨htasks.trans h.rests.tasks, h.rests.timers, hinit⟩, h.outside, h.made, hready⟩
  | stopped h => exact absurd h.phase hrunning

theorem Stage.one (hc : Stage c) : c.continuations ≤ 1 := by
  cases hc with
  | waiting h => exact continuations_le h.rests.tasks h.rests.timers
  | announced h => exact continuations_le h.tasks h.timers
  | failed h =>
      obtain ⟨task, htasks⟩ := h.tasks
      simp [continuations, isWaiting, htasks, h.timers]
  | delayed h =>
      have hregistered : c.isRegistered = false := h.outside.isRegistered
      simp [continuations, isWaiting, hregistered, h.tasks, h.timers]
  | ended h => exact continuations_le h.rests.tasks h.rests.timers
  | stopped h => exact h.one

theorem Stage.made_le (hc : Stage c) : c.made ≤ 1 := by
  cases hc with
  | waiting h => exact h.made.trans_le zero_le_one
  | announced h => exact h.made.le
  | failed h => exact h.made.trans_le zero_le_one
  | delayed h => exact h.made.trans_le zero_le_one
  | ended h => exact h.made
  | stopped h => exact h.made

/-- Once it is connected nothing goes on. -/
theorem Stage.ended_of_connected (hc : Stage c) (hstate : c.state = .connected) : Ended c := by
  cases hc with
  | ended h => exact h
  | announced h =>
      obtain ⟨caller, -, ⟨-, heq, -⟩ | ⟨-, heq, -⟩⟩ := h.calls
      · cases hstate.symm.trans heq
      · cases hstate.symm.trans heq
  | stopped h => exact absurd hstate h.state
  | waiting h | failed h | delayed h => cases hstate.symm.trans h.state

theorem Sound.endBatch {isRunning : Bool} (hs : Sound c) (hinit : c.initializing = none)
    (h : c.endBatch isRunning = some t) : Sound t := by
  rw [Connector.endBatch] at h
  split at h
  case h_2 => cases h
  case h_1 hphase =>
      have hrunning : c.phase ≠ .exited := by simp [hphase]
      have htasks : c.tasks = c.pendingTasks := by rw [tasks, hphase]; rfl
      obtain rfl := Option.some.inj h
      cases isRunning with
      | true =>
          exact ⟨hs.stage.advance hinit hrunning htasks.symm nofun nofun nofun,
            { hs.recorded with }⟩
      | false =>
          refine ⟨?_, { hs.recorded with }⟩
          by_cases hstate : c.state = .connected
          · exact .ended (hs.stage.ended_of_connected hstate).exit
          · refine .stopped ⟨rfl, hstate, ?_, hinit, hs.stage.made_le⟩
            have hone := hs.stage.one
            rw [continuations, isWaiting, htasks] at hone
            exact hone

theorem Sound.runPendingTasks (hs : Sound c) (hinit : c.initializing = none)
    (h : c.runPendingTasks = some t) : Sound t := by
  rw [Connector.runPendingTasks] at h
  split at h
  case h_2 => cases h
  case h_1 hphase =>
      obtain rfl := Option.some.inj h
      refine ⟨hs.stage.advance hinit (by simp [hphase]) ?_ nofun nofun fun _ _ => rfl,
        { hs.recorded with }⟩
      simp [tasks, hphase, Phase.tmpTasks]

/-- When the loop polls no task is left. -/
theorem Stage.tasks_eq_nil (hc : Stage c) (hphase : c.phase = .runPendingTasks []) : c.tasks = [] := by
  cases hc with
  | waiting h => exact h.rests.tasks
  | announced h => exact h.tasks
  | failed h => simp [tasks, hphase, Phase.tmpTasks, h.pending _ hphase]
  | delayed h => exact h.tasks
  | ended h => exact h.rests.tasks
  | stopped h => cases hphase.symm.trans h.phase

theorem Inside.entry {g : FdType} {entry : Unit × EpollEvents} {r : Registry Unit} (hr : Inside f r)
    (h : r.interest g = some entry) : entry.2.epollIn = false := by
  obtain ⟨events, hevents, hinterest⟩ := hr.interest
  rw [hinterest] at h
  by_cases hg : g = f
  · subst hg
    rw [Function.update_self] at h
    exact Option.some.inj h ▸ hevents
  · rw [Function.update_of_ne hg] at h
    cases h

theorem Outside.no_entry {g : FdType} {entry : Unit × EpollEvents} {r : Registry Unit}
    (hr : Outside r) (h : r.interest g = some entry) : False := by
  rw [hr.interest] at h
  cases h

theorem Sound.poll {report : Option Dispatch.Report} (hs : Sound c) (hinit : c.initializing = none)
    (h : c.poll report = some t) : Sound t := by
  rw [Connector.poll.eq_def] at h
  split at h
  case h_3 => cases h
  case h_1 hphase =>
      obtain rfl := Option.some.inj h
      refine ⟨hs.stage.advance hinit (by simp [hphase]) ?_ nofun ?_ nofun, { hs.recorded with }⟩
      · simp [tasks, hphase, Phase.tmpTasks]
      · rintro events ⟨⟩
        rfl
  case h_2 report hphase =>
      obtain ⟨entry, hentry, rfl⟩ := Option.map_eq_some_iff.mp h
      refine ⟨?_, { hs.recorded with }⟩
      cases hs.stage with
      | waiting h =>
          refine .waiting ⟨⟨h.lives.isDestroyed, nofun⟩,
            ⟨pendingTasks_of_tasks h.rests.tasks, h.rests.timers, hinit⟩, h.state, h.inside, h.made, ?_⟩
          rintro events ⟨⟩
          exact Dispatch.readyEventsOf_write (Dispatch.eventsOf_and_read (h.inside.entry hentry)) report
      | announced h => exact absurd hinit h.initializing_ne
      | failed h =>
          obtain ⟨task, htasks⟩ := h.tasks
          rw [hs.stage.tasks_eq_nil hphase] at htasks
          cases htasks
      | delayed h => exact (h.outside.no_entry hentry).elim
      | ended h => exact (h.outside.no_entry hentry).elim
      | stopped h => cases hphase.symm.trans h.phase

/-! ## Handlers, tasks and timers -/

theorem Waiting.handleWriteEvent (hc : Waiting c) (hr : Recorded c) (hphase : c.phase = .dispatch [])
    (sockError : ℕ) : Sound (c.handleWriteEvent sockError) := by
  have hready : NoneReady c.phase := by
    rintro events heq
    exact (Phase.dispatch.inj (hphase.symm.trans heq)).symm
  have hused : Recorded (c.note (.used c.sockFd)) := hr.used
  have hmade : (c.note (.used c.sockFd)).made = 0 := (made_note rfl).trans hc.made
  have hne : c.state ≠ .connected := by simp [hc.state]
  have hpending : c.pendingTasks = [] := pendingTasks_of_tasks hc.rests.tasks
  rw [Connector.handleWriteEvent, if_neg (not_not.mpr hc.state)]
  simp only
  split
  · have hne' : (c.note (.used c.sockFd)).state ≠ .connected := hne
    rw [Connector.handleErrorEvent, assertThat_of (decide_eq_true hne')]
    refine ⟨.failed ⟨{ hc.lives with }, hc.state, hc.inside, ?_, hc.rests.timers,
      hc.rests.initializing, hmade, hready, ?_⟩, { hused with }⟩
    · refine ⟨if c.retry then .reconnect else .deregister, ?_⟩
      simp [tasks, Connector.note, Phase.tmpTasks, hphase, hpending]
    · intro tmpTasks heq
      cases hphase.symm.trans heq
  · refine ⟨.announced ?_, hused.newSocketChannel hne .handleEvent⟩
    have hne' : (c.note (.used c.sockFd)).state ≠ .connected := hne
    rw [Connector.newSocketChannel, assertThat_of (decide_eq_true hne')]
    refine ⟨{ hc.lives with }, hc.rests.tasks, hc.rests.timers, ⟨.handleEvent, rfl, ?_⟩, ?_, hready⟩
    · exact .inl ⟨rfl, hc.state, hc.inside⟩
    · have hmade := hc.made
      simpa [Connector.made, Connector.note, Event.isNew] using hmade

/-- Only a connector that waits has ready events. -/
theorem Stage.waiting_of_ready {event : ReadyEvent} {events : List ReadyEvent} (hc : Stage c)
    (hphase : c.phase = .dispatch (event :: events)) : Waiting c := by
  have hnone {P : Prop} (hready : NoneReady c.phase) : P := by
    cases hready _ hphase
  cases hc with
  | waiting h => exact h
  | announced h => exact hnone h.ready
  | failed h => exact hnone h.ready
  | delayed h => exact hnone h.ready
  | ended h => exact hnone h.ready
  | stopped h => cases hphase.symm.trans h.phase

theorem Sound.handle {sockError : ℕ} (hs : Sound c) (hinit : c.initializing = none)
    (h : c.handle sockError = some t) : Sound t := by
  rw [Connector.handle] at h
  split at h
  case h_2 => cases h
  case h_1 event events hphase =>
      have hc := hs.stage.waiting_of_ready hphase
      rcases hc.ready _ hphase with hnil | hwrite
      · cases hnil
      obtain ⟨rfl, rfl⟩ := List.cons.inj hwrite
      obtain rfl := Option.some.inj h
      have hwaiting : Waiting { c with phase := .dispatch [] } :=
        ⟨⟨hc.lives.isDestroyed, nofun⟩,
          ⟨pendingTasks_of_tasks hc.rests.tasks, hc.rests.timers, hinit⟩, hc.state, hc.inside,
          hc.made, fun events heq => .inl (Phase.dispatch.inj heq).symm⟩
      exact hwaiting.handleWriteEvent { hs.recorded with } rfl sockError

theorem Failed.performTask {task : ErrorTask} {tmpTasks : List ErrorTask} (hc : Failed c)
    (hr : Recorded c) (hphase : c.phase = .runPendingTasks (task :: tmpTasks)) :
    Sound (Connector.performTask task { c with phase := .runPendingTasks tmpTasks }) := by
  have hpending := hc.pending _ hphase
  -- it is the only task
  obtain rfl : tmpTasks = [] := by
    obtain ⟨last, htasks⟩ := hc.tasks
    rw [Connector.tasks, hphase, hpending, List.append_nil] at htasks
    exact (List.cons.inj htasks).2
  have hrecorded : Recorded { c with phase := .runPendingTasks [] } := { hr with }
  have hinside : Inside c.sockFd c.registry := hc.inside
  have hnone : Connector.tasks { c with phase := .runPendingTasks [] } = [] := hpending
  have hleft := hrecorded.deregister
  have hlives : Lives (Connector.deregister { c with phase := .runPendingTasks [] }) :=
    ⟨hc.lives.isDestroyed, nofun⟩
  have hrests : Rests (Connector.deregister { c with phase := .runPendingTasks [] }) :=
    ⟨hnone, hc.timers, hc.initializing⟩
  have houtside := hinside.deregistered
  have hmade : (Connector.deregister { c with phase := .runPendingTasks [] }).made = 0 :=
    (made_note rfl).trans hc.made
  have hlast : (Connector.deregister { c with phase := .runPendingTasks [] }).isLastReference = true := by
    rw [isLastReference, hrests.tasks, hrests.timers]
    rfl
  have hsame := deregisterRegistered_eq (c := { c with phase := .runPendingTasks [] }) hinside
  simp only [Connector.performTask, hsame, assertThat_of hlast]
  have hstate : (Connector.deregister { c with phase := .runPendingTasks [] }).state ≠ .connected := by
    have hne : c.state ≠ .connected := by simp [hc.state]
    exact hne
  cases task with
  | reconnect =>
      exact ⟨.delayed (delayed_reconnect hlives hstate houtside hrests hmade nofun),
        hleft.reconnect hstate⟩
  | deregister =>
      exact ⟨.ended ⟨hrests, houtside, hmade.trans_le zero_le_one, nofun⟩, hleft⟩

theorem Stage.failed_of_task {task : ErrorTask} {tmpTasks : List ErrorTask} (hc : Stage c)
    (hphase : c.phase = .runPendingTasks (task :: tmpTasks)) : Failed c := by
  have htasks : c.tasks ≠ [] := by simp [tasks, hphase, Phase.tmpTasks]
  cases hc with
  | failed h => exact h
  | waiting h => exact absurd h.rests.tasks htasks
  | announced h => exact absurd h.tasks htasks
  | delayed h => exact absurd h.tasks htasks
  | ended h => exact absurd h.rests.tasks htasks
  | stopped h => cases hphase.symm.trans h.phase

theorem Sound.runTask (hs : Sound c) (h : c.runTask = some t) : Sound t := by
  rw [Connector.runTask] at h
  split at h
  case h_2 => cases h
  case h_1 task tmpTasks hphase =>
      obtain rfl := Option.some.inj h
      exact (hs.stage.failed_of_task hphase).performTask hs.recorded hphase

theorem Stage.delayed_of_timer (hc : Stage c) (hphase : c.phase = .update) (htimers : 0 < c.timers) :
    Delayed c := by
  have hnone {P : Prop} (hzero : c.timers = 0) : P := absurd hzero htimers.ne'
  cases hc with
  | delayed h => exact h
  | waiting h => exact hnone h.rests.timers
  | announced h => exact hnone h.timers
  | failed h => exact hnone h.timers
  | ended h => exact hnone h.rests.timers
  | stopped h => cases hphase.symm.trans h.phase

theorem Delayed.fresh (hc : Delayed c) : Fresh { c with timers := c.timers - 1 } :=
  ⟨{ hc.lives with }, ⟨hc.tasks, congrArg (· - 1) hc.timers, hc.initializing⟩, hc.state, hc.outside,
    hc.made, hc.ready⟩

theorem Sound.runTimer {answer : Answer} (hs : Sound c) (h : c.runTimer answer = some t) :
    Sound t := by
  rw [Connector.runTimer] at h
  split at h
  case h_2 => cases h
  case h_1 hphase =>
      obtain ⟨htimers, h⟩ := Option.ite_none_right_eq_some.mp h
      obtain rfl := Option.some.inj h
      have hc := hs.stage.delayed_of_timer hphase htimers
      have hcaller : Caller.timer ≠ .handleEvent := nofun
      exact hc.fresh.connect { hs.recorded with } hc.sockFd hcaller answer

/-! ## Descriptors and destructors -/

theorem Stage.used (hc : Stage c) : Stage (c.note (.used f)) := by
  have hmade : (c.note (.used f)).made = c.made := made_note rfl
  cases hc with
  | waiting h =>
      exact .waiting { h with
        lives := { h.lives with }, rests := { h.rests with }, made := hmade.trans h.made }
  | announced h => exact .announced { h with lives := { h.lives with }, made := hmade.trans h.made }
  | failed h => exact .failed { h with lives := { h.lives with }, made := hmade.trans h.made }
  | delayed h => exact .delayed { h with lives := { h.lives with }, made := hmade.trans h.made }
  | ended h => exact .ended (h.note rfl)
  | stopped h => exact .stopped { h with made := hmade.trans_le h.made }

theorem Sound.useSocketChannel (hs : Sound c) (h : c.useSocketChannel f = some t) : Sound t := by
  obtain ⟨-, h⟩ := Option.ite_none_right_eq_some.mp h
  obtain rfl := Option.some.inj h
  exact ⟨hs.stage.used, hs.recorded.used⟩

/-- Closing a descriptor ends no attempt of a connector that has none. -/
theorem Ended.closeFd (hc : Ended c) (f : FdType) : Ended (c.closeFd f) := by
  rw [closeFd_eq]
  refine ⟨⟨hc.rests.tasks, hc.rests.timers, hc.rests.initializing⟩, ?_, ?_, hc.ready⟩
  · dsimp only
    split
    · exact hc.outside.closed f
    · exact hc.outside
  · exact (countP_closing ..).trans_le hc.made

theorem Stopped.closeFd (hc : Stopped c) (f : FdType) : Stopped (c.closeFd f) := by
  rw [closeFd_eq]
  exact ⟨hc.phase, hc.state, hc.one, hc.initializing, (countP_closing ..).trans_le hc.made⟩

theorem Sound.destroySocketChannel (hs : Sound c) (h : c.destroySocketChannel f = some t) :
    Sound t := by
  obtain ⟨⟨hmem, hinit⟩, h⟩ := Option.ite_none_right_eq_some.mp h
  obtain rfl := Option.some.inj h
  have hnone {P : Prop} (hmade : c.made = 0) : P := by
    rw [hs.recorded.made hmade] at hmem
    cases hmem
  have hrecorded : Recorded { c with socketChannels := c.socketChannels.erase f } := by
    refine { hs.recorded with made := fun hmade => ?_ }
    exact hnone hmade
  refine ⟨?_, hrecorded.closeFd f⟩
  cases hs.stage with
  | ended hc =>
      have hended : Ended { c with socketChannels := c.socketChannels.erase f } :=
        { hc with rests := { hc.rests with } }
      exact .ended (hended.closeFd f)
  | stopped hc =>
      have hstopped : Stopped { c with socketChannels := c.socketChannels.erase f } := { hc with }
      exact .stopped (hstopped.closeFd f)
  | announced hc => exact absurd hinit hc.initializing_ne
  | waiting hc => exact hnone hc.made
  | failed hc => exact hnone hc.made
  | delayed hc => exact hnone hc.made

/-- Only a connector is destroyed that has ended, or whose loop has been left. -/
theorem Stage.destroyable (hc : Stage c) (hinit : c.initializing = none)
    (hreleased : c.isReleased = true) : Ended c ∨ Stopped c := by
  rw [isReleased, Bool.or_eq_true, Bool.and_eq_true, isLastReference, Bool.and_eq_true] at hreleased
  have hlives {P : Prop} (hlives : Lives c)
      (h : c.tasks = [] → c.timers = 0 → c.registry.channels c.sockFd ≠ none) : P := by
    rcases hreleased with hexited | ⟨⟨htasks, htimers⟩, hchannels⟩
    · exact absurd (of_decide_eq_true hexited) hlives.running
    · exact absurd (Option.isNone_iff_eq_none.mp hchannels)
        (h (List.isEmpty_iff.mp htasks) (of_decide_eq_true htimers))
  cases hc with
  | ended h => exact .inl h
  | stopped h => exact .inr h
  | announced h => exact absurd hinit h.initializing_ne
  | waiting h => exact hlives h.lives fun _ _ => by simp [h.inside.channels]
  | failed h => exact hlives h.lives fun _ _ => by simp [h.inside.channels]
  | delayed h => exact hlives h.lives fun _ htimers => absurd (htimers.symm.trans h.timers) nofun

theorem Sound.destroy (hs : Sound c) (h : c.destroy = some t) : Sound t := by
  obtain ⟨⟨-, hinit, hreleased⟩, h⟩ := Option.ite_none_right_eq_some.mp h
  obtain rfl := Option.some.inj h
  have hrecorded : Recorded { c with isDestroyed := true } := { hs.recorded with }
  simp only
  rcases hs.stage.destroyable hinit hreleased with hc | hc
  · have hended : Ended { c with isDestroyed := true } := { hc with rests := { hc.rests with } }
    split
    · exact ⟨.ended (hended.closeFd c.sockFd), hrecorded.closeFd c.sockFd⟩
    · exact ⟨.ended hended, hrecorded⟩
  · have hstopped : Stopped { c with isDestroyed := true } := { hc with }
    split
    · exact ⟨.stopped (hstopped.closeFd c.sockFd), hrecorded.closeFd c.sockFd⟩
    · exact ⟨.stopped hstopped, hrecorded⟩

/-! ## Runs -/

theorem Sound.step {action : Action} (hs : Sound c) (h : c.step action = some t) : Sound t := by
  cases action with
  | initialized outcome =>
      refine (hs.stage.announced_of_initializing fun hinit => ?_).initialized hs.recorded h
      simp [Connector.step, Connector.initialized, hinit] at h
  | runTimer answer => exact hs.runTimer (Option.ite_none_right_eq_some.mp h).2
  | runPendingTasks =>
      obtain ⟨hinit, h⟩ := Option.ite_none_right_eq_some.mp h
      exact hs.runPendingTasks hinit h
  | runTask => exact hs.runTask (Option.ite_none_right_eq_some.mp h).2
  | poll report =>
      obtain ⟨hinit, h⟩ := Option.ite_none_right_eq_some.mp h
      exact hs.poll hinit h
  | handle sockError =>
      obtain ⟨hinit, h⟩ := Option.ite_none_right_eq_some.mp h
      exact hs.handle hinit h
  | endBatch isRunning =>
      obtain ⟨hinit, h⟩ := Option.ite_none_right_eq_some.mp h
      exact hs.endBatch hinit h
  | useSocketChannel fd => exact hs.useSocketChannel h
  | destroySocketChannel fd => exact hs.destroySocketChannel h
  | destroy => exact hs.destroy h

theorem fresh_construct {phase : Phase} (hidle : IsIdle phase) (retry : Bool) :
    Fresh (construct retry phase) ∧ Recorded (construct retry phase) := by
  refine ⟨⟨⟨rfl, ?_⟩, ⟨?_, rfl, rfl⟩, rfl, ⟨rfl, rfl, rfl⟩, rfl, ?_⟩,
    ⟨.nil, nofun, rfl, ?_, fun _ => rfl⟩⟩
  · rcases hidle with rfl | rfl | rfl <;> nofun
  · rcases hidle with rfl | rfl | rfl <;> rfl
  · rcases hidle with rfl | rfl | rfl <;> simp [NoneReady, construct]
  · simp [construct, Registry.empty, epollEvents, kNoneEvent, kReadEvent]

theorem sound_of_reachable (hc : system.Reachable c) : Sound c := by
  refine hc.invariant ?_ fun _ _ _ hs h => hs.step h
  rintro _ ⟨retry, phase, answer, hidle, rfl⟩
  obtain ⟨hfresh, hrecorded⟩ := fresh_construct hidle retry
  have hcaller : Caller.doConnect ≠ .handleEvent := nofun
  exact hfresh.connect hrecorded rfl hcaller answer

/-- One thing at a time goes on with the connection; `connect` finds no open descriptor, no assertion
fails, and a connector that is connected is done. -/
structure OneAttempt (c : Connector) : Prop where
  one : c.continuations ≤ 1
  connects : EachAfter Enters c.log
  asserted : c.failedAssertions = []
  once : c.made ≤ 1
  connected : c.state = .connected → c.tasks = [] ∧ c.timers = 0 ∧ Outside c.registry

theorem oneAttempt_of_reachable (hc : system.Reachable c) : OneAttempt c where
  one := (sound_of_reachable hc).stage.one
  connects := (sound_of_reachable hc).recorded.connects
  asserted := (sound_of_reachable hc).recorded.asserted
  once := (sound_of_reachable hc).stage.made_le
  connected hstate :=
    have hended := (sound_of_reachable hc).stage.ended_of_connected hstate
    ⟨hended.rests.tasks, hended.rests.timers, hended.outside⟩

/-- The first attempt is refused when the loop has polled, the second one is taken at once. -/
theorem oneAttempt_retried :
    ∃ c : Connector, (c.sockets = 2 ∧ c.state = .connected) ∧ OneAttempt c := by
  have hstart : system.Reachable (doConnect true .update ⟨true, EINPROGRESS, true⟩) :=
    .initial ⟨true, .update, _, .inl rfl, rfl⟩
  obtain ⟨c, hc, hconnected⟩ := System.ReachableUnder.exists_of_runUnder _
    (P := fun c : Connector => c.sockets = 2 ∧ c.state = .connected)
    [.runPendingTasks, .poll (some ⟨0, false, true, true⟩), .handle ECONNREFUSED, .endBatch true,
      .runPendingTasks, .runTask, .poll none, .endBatch true, .runTimer ⟨true, 0, true⟩,
      .initialized .returns] hstart (by decide +kernel)
  exact ⟨c, hconnected, oneAttempt_of_reachable hc⟩

end Nets.Connector
