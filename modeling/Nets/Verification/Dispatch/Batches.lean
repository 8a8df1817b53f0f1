import Nets.Verification.Dispatch.Steps

/-! # Batches of ready channels

A channel whose `handleEvent` is called is in `channels_`, and what leaves `channels_` during a batch is
the current channel, in every run in which no channel that has ended is revived. -/

namespace Nets.Dispatch

open Library

variable {α β : Type} {d t : Dispatch β} {i j : ℕ} {f : FdType}

/-! ## The loop between two calls -/

theorem Sound.of_isIdle (hs : d.Sound) (h : d.isIdle = true) :
    d.initializing = [] ∧
      ∀ i f s, d.objects i = some ⟨f, .socketChannel s⟩ → s.stack = [] := by
  rw [isIdle, Bool.and_eq_true, List.isEmpty_iff, List.all_eq_true] at h
  refine ⟨h.1, fun i f s hi => ?_⟩
  have hstack := h.2 i (List.mem_range.mpr (hs.lt_count hi))
  simpa [hi] using hstack

theorem due_of_hasHandled {current : Option ReadyChannel} {activeChannels : List ReadyChannel}
    (h : hasHandled current = true) : due (.dispatch current activeChannels) = activeChannels := by
  cases current with
  | none => rfl
  | some ready =>
      have hnil : ready.readyEvents = [] := by simpa [hasHandled] using h
      simp [due, hnil]

theorem Sound.runPendingTasks (hs : d.Sound) (h : d.runPendingTasks = some t) :
    t.Sound ∧ Keeps d t := by
  rw [Dispatch.runPendingTasks] at h
  split at h
  case h_1 hphase =>
      obtain ⟨hidle, h⟩ := Option.ite_none_right_eq_some.mp h
      rw [← Option.some.inj h]
      refine ⟨hs.advance (hs.of_isIdle hidle).1 ?_ ?_ ?_ nofun nofun List.nodup_nil, .refl d⟩
      · simp [tasks, RunPhase.tmpTasks, hphase]
      · rintro tmpTasks - i hi
        cases hi
      · intro i _ ready hready
        cases hready
  case h_2 => cases h

/-- A task that deregisters finds its own channel, or none. -/
theorem Sound.performTask {task : LoopTask} {tmpTasks : List LoopTask} (hs : d.Sound)
    (hidle : d.isIdle = true) (hphase : d.phase = .runPendingTasks (task :: tmpTasks))
    (h : Dispatch.performTask task { d with phase := .runPendingTasks tmpTasks } = some t) :
    t.Sound := by
  obtain ⟨hinit, hstacks⟩ := hs.of_isIdle hidle
  have htasks : d.tasks = task :: (tmpTasks ++ d.pendingTasks) := by
    rw [tasks, hphase]
    rfl
  have hmem : task ∈ d.tasks := htasks ▸ List.mem_cons_self
  have hrest : (Dispatch.tasks { d with phase := .runPendingTasks tmpTasks }) =
      tmpTasks ++ d.pendingTasks := rfl
  have hu : Sound { d with phase := .runPendingTasks tmpTasks } := by
    refine hs.advance hinit ?_ ?_ ?_ (List.forall_mem_nil _) (List.forall_mem_nil _) List.nodup_nil
    · rw [hrest, htasks]
      exact List.sublist_cons_self ..
    · exact fun _ _ => hs.queuedInBatch _ hphase
    · intro i _ ready hready
      cases hready
  have hnew {P : NewChannel → Prop} : ∀ new ∈ d.initializing, P new := by
    rw [hinit]
    exact List.forall_mem_nil _
  cases task with
  | socketChannel i socketTask =>
      cases socketTask with
      | deregister =>
          obtain ⟨f, s, hi⟩ := hs.deregisters i hmem
          have hstate := hs.closing i f s hi (.inr hmem)
          rw [← Option.some.inj h, deregister_eq]
          refine hu.leave hi (fun j hj => hs.alone hi hnew hj) ?_ ?_ (List.forall_mem_nil _)
          · rintro v heq
            cases heq
            rw [hstacks i f s hi]
            exact ⟨hstate, Session.writesNothing_nil⟩
          · intro hqueued
            obtain ⟨⟨g, c, hc⟩, -⟩ := hu.queued i hqueued
            rw [show d.objects i = _ from hc] at hi
            cases hi
      | writeComplete callback =>
          simp only [Dispatch.performTask] at h
          split at h
          case h_2 => cases h
          case h_1 f s hi =>
              rw [← Option.some.inj h]
              refine hu.putSocket (u := { s with stack := .handler :: s.stack }) hi ?_ ?_ hnew
              · intro hclosing
                refine hu.closing i f s hi (hclosing.imp_left fun hstack => ?_)
                simpa using hstack
              · intro hunowned
                have hstate := (hs.quiet i f s hi hunowned).1
                refine ⟨hstate, ?_⟩
                rw [hstacks i f s hi]
                intro remaining callback epoll hframe
                simp at hframe
  | connectorChannel i =>
      obtain ⟨-, hown, -⟩ := hs.queued i hmem
      have hfresh : .connectorChannel i ∉ tmpTasks ++ d.pendingTasks := by
        have honce := hs.queuedOnce
        rw [htasks] at honce
        exact fun hqueued => (List.nodup_cons.mp honce).1 (mem_filterMap_connectorOf.mpr hqueued)
      simp only [Dispatch.performTask] at h
      split at h
      case h_2 => cases h
      case h_1 f c hi =>
          have hchannels : d.registry.channels f = some i := (hs.owner_of_owns hown hi).1
          have hleft : Sound (Dispatch.leave i { d with phase := .runPendingTasks tmpTasks }) := by
            refine hu.leave hi (fun j hj => ?_) (by simp) hfresh (List.forall_mem_nil _)
            exact Option.some.inj (hj.symm.trans hchannels)
          rw [← Option.some.inj h, deregister_eq]
          split
          · exact (hleft.reconnect ⟨hi, unowned_leave, hnew⟩).1
          · exact hleft

theorem Sound.runTask (hs : d.Sound) (h : d.runTask = some t) : t.Sound := by
  rw [Dispatch.runTask] at h
  split at h
  case h_1 hphase =>
      obtain ⟨hidle, h⟩ := Option.ite_none_right_eq_some.mp h
      exact hs.performTask hidle hphase h
  case h_2 => cases h

/-! ## Ready channels -/

/-- The kernel reports a channel of `channels_` under its descriptor. -/
theorem Sound.reported (hs : d.Sound) {entry : ℕ × EpollEvents}
    (h : d.registry.interest f = some entry) :
    d.fd entry.1 = f ∧ d.Owns entry.1 ∧
      ∀ g c, d.objects entry.1 = some ⟨g, .connectorChannel c⟩ → entry.2.epollIn = false := by
  have hchannels := hs.entry f entry.1 entry.2 h
  obtain ⟨kind, hi, -⟩ := hs.owner f _ hchannels
  exact ⟨fd_eq hi, hs.owns_of_channels hchannels,
    fun g c hc => (hs.unread _ g c hc).2 f entry.2 h⟩

theorem Sound.prepareChannelReadyEvents (hs : d.Sound) {reports : List Report}
    {activeChannels : List ReadyChannel}
    (h : Dispatch.prepareChannelReadyEvents reports d = some activeChannels) :
    (activeChannels.map fun ready => d.fd ready.channel) = reports.map Report.fd ∧
      ∀ ready ∈ activeChannels, d.Owns ready.channel ∧
        ∀ f c, d.objects ready.channel = some ⟨f, .connectorChannel c⟩ →
          ready.readyEvents = [] ∨ ready.readyEvents = [.write] := by
  induction reports generalizing activeChannels with
  | nil =>
      obtain rfl : [] = activeChannels := by simpa [Dispatch.prepareChannelReadyEvents] using h
      exact ⟨rfl, nofun⟩
  | cons report reports ih =>
      rw [Dispatch.prepareChannelReadyEvents, List.mapM_cons] at h
      obtain ⟨ready, hready, h⟩ := Option.bind_eq_some_iff.mp h
      obtain ⟨rest, hrest, h⟩ := Option.bind_eq_some_iff.mp h
      obtain rfl := Option.some.inj h
      obtain ⟨entry, hentry, rfl⟩ := Option.map_eq_some_iff.mp hready
      obtain ⟨hfd, hown, hunread⟩ := hs.reported hentry
      obtain ⟨hmap, hall⟩ := ih hrest
      refine ⟨by rw [List.map_cons, List.map_cons, hmap, hfd], List.forall_mem_cons.mpr ⟨?_, hall⟩⟩
      refine ⟨hown, fun g c hc => readyEventsOf_write ?_ report⟩
      exact eventsOf_and_read (hunread g c hc)

theorem Sound.poll {reports : List Report} (hs : d.Sound) (h : d.poll reports = some t) :
    t.Sound ∧ Keeps d t := by
  rw [Dispatch.poll] at h
  split at h
  case h_2 => cases h
  case h_1 hphase =>
      obtain ⟨⟨hidle, honce⟩, h⟩ := Option.ite_none_right_eq_some.mp h
      obtain ⟨activeChannels, hactive, rfl⟩ := Option.map_eq_some_iff.mp h
      obtain ⟨hmap, hall⟩ := hs.prepareChannelReadyEvents hactive
      have htasks : d.tasks = d.pendingTasks := by simp [tasks, hphase, RunPhase.tmpTasks]
      refine ⟨hs.advance (hs.of_isIdle hidle).1 ?_ (by simp) ?_ (fun ready hready => (hall ready hready).1)
        (fun ready hready => (hall ready hready).2) ?_, .refl d⟩
      · rw [htasks]
        exact List.Sublist.refl _
      · intro i hi
        exact absurd hi (hs.queuedInBatch _ hphase i)
      · rw [← hmap] at honce
        refine List.Nodup.of_map d.fd ?_
        rwa [List.map_map]

theorem Sound.handleEvent (hs : d.Sound) (h : d.handleEvent = some t) : t.Sound ∧ Keeps d t := by
  rw [Dispatch.handleEvent] at h
  split at h
  case h_2 => cases h
  case h_1 current ready activeChannels hphase =>
      obtain ⟨hcond, h⟩ := Option.ite_none_right_eq_some.mp h
      obtain ⟨hidle, hhandled⟩ := Bool.and_eq_true_iff.mp hcond
      have hbefore : due d.phase = ready :: activeChannels := hphase ▸ due_of_hasHandled hhandled
      have hafter : List.Sublist (due (.dispatch (some ready) activeChannels)) (due d.phase) := by
        rw [hbefore, due]
        split
        · exact List.sublist_cons_self ..
        · exact List.Sublist.refl _
      rw [← Option.some.inj h]
      refine ⟨hs.advance (hs.of_isIdle hidle).1 ?_ nofun ?_ ?_ ?_ ?_, .refl d⟩
      · simp [tasks, hphase, RunPhase.tmpTasks]
      · intro i hi ready hready
        refine (hs.queued i ?_).2.2.1 ready (hafter.subset hready)
        simpa [tasks, hphase, RunPhase.tmpTasks] using hi
      · exact fun ready hready => hs.dueOwned ready (hafter.subset hready)
      · exact fun ready hready => hs.dueWrites ready (hafter.subset hready)
      · exact hs.dueOnce.sublist (hafter.map _)

theorem Sound.endBatch (hs : d.Sound) (h : d.endBatch = some t) : t.Sound ∧ Keeps d t := by
  rw [Dispatch.endBatch] at h
  split at h
  case h_2 => cases h
  case h_1 current hphase =>
      obtain ⟨hcond, h⟩ := Option.ite_none_right_eq_some.mp h
      obtain ⟨hidle, -⟩ := Bool.and_eq_true_iff.mp hcond
      rw [← Option.some.inj h]
      refine ⟨hs.advance (hs.of_isIdle hidle).1 ?_ nofun ?_ nofun nofun List.nodup_nil, .refl d⟩
      · simp [tasks, hphase, RunPhase.tmpTasks]
      · intro i _ ready hready
        cases hready

/-! ## Handlers -/

/-- The handler of a connector that waits for its connection. -/
theorem Sound.handleWriteEvent {c : ConnectorChannel} {activeChannels : List ReadyChannel}
    {errNum : ℕ} (hs : d.Sound) (hi : d.objects i = some ⟨f, .connectorChannel c⟩)
    (hinit : d.initializing = []) (hown : d.Owns i)
    (hphase : d.phase = .dispatch (some ⟨i, []⟩) activeChannels)
    (hlast : ∀ ready ∈ activeChannels, ready.channel ≠ i)
    (hqueued : .connectorChannel i ∉ d.tasks) :
    (d.handleWriteEvent i f c errNum).Sound ∧ Keeps d (d.handleWriteEvent i f c errNum) := by
  have hnone {P : NewChannel → Prop} : ∀ new ∈ d.initializing, P new := by
    rw [hinit]
    nofun
  have hcurrent : IsCurrent d.phase i := ⟨activeChannels, hphase, hlast⟩
  rw [Dispatch.handleWriteEvent]
  split
  · exact ⟨hs, .refl d⟩
  rename_i hstate
  have hconnecting : c.state = .connecting := not_not.mp hstate
  split
  · refine ⟨hs.addTasks ?_ ?_ (List.nodup_singleton i), .refl d⟩
    · intro j hj
      simp at hj
    · intro j hj
      obtain rfl : j = i := by simpa using hj
      refine ⟨⟨f, c, hi⟩, hown, due_of_isCurrent hcurrent, hnone, hqueued, fun tmpTasks heq => ?_⟩
      rw [hphase] at heq
      cases heq
  · obtain ⟨hchannels, -⟩ := hs.owner_of_owns hown hi
    obtain ⟨kind, -, hf, -⟩ := hs.owner f i hchannels
    have hscheduled : c.scheduled = false := by
      by_contra h
      have hstate := hs.scheduled i f c hi (Bool.not_eq_false _ ▸ h)
      rw [hconnecting] at hstate
      cases hstate
    refine hs.makeSocketChannel hi hf hnone hqueued hscheduled ?_ fun _ => hcurrent
    rw [hconnecting]
    nofun

section

variable [Inhabited β] {label : ℕ → List α → List β}

theorem Sound.handleReady {event : ReadyEvent} {events : List ReadyEvent}
    {activeChannels : List ReadyChannel} {kernel : Kernel β} (hs : d.Sound)
    (hinit : d.initializing = []) (hown : d.Owns i)
    (hphase : d.phase = .dispatch (some ⟨i, events⟩) activeChannels)
    (hconnector : ∀ f c, d.objects i = some ⟨f, .connectorChannel c⟩ → event = .write ∧ events = [])
    (hlast : ∀ ready ∈ activeChannels, ready.channel ≠ i)
    (hqueued : .connectorChannel i ∉ d.tasks)
    (h : d.handleReady label i event kernel = some t) : t.Sound ∧ Keeps d t := by
  have hnone {P : NewChannel → Prop} : ∀ new ∈ d.initializing, P new := by
    rw [hinit]
    nofun
  have hsame (hd : some d = some t) : t.Sound ∧ Keeps d t :=
    Option.some.inj hd ▸ ⟨hs, .refl d⟩
  unfold Dispatch.handleReady at h
  split at h
  case h_1 | h_2 | h_3 =>
      refine hs.perform (fun epoll heq => ?_) (fun _ _ _ => id) hnone h
      cases heq
  case h_4 f c hi => exact absurd (hconnector f c hi).1 nofun
  case h_6 f c hi =>
      obtain rfl := (hconnector f c hi).2
      exact Option.some.inj h ▸ hs.handleWriteEvent hi hinit hown hphase hlast hqueued
  case h_8 => exact hs.accept h
  case h_7 | h_12 => cases h
  all_goals exact hsame h

theorem Sound.handle {kernel : Kernel β} (hs : d.Sound) (h : d.handle label kernel = some t) :
    t.Sound ∧ Keeps d t := by
  rw [Dispatch.handle] at h
  split at h
  case h_2 => cases h
  case h_1 i event events activeChannels hphase =>
      obtain ⟨hidle, h⟩ := Option.ite_none_right_eq_some.mp h
      obtain ⟨hinit, -⟩ := hs.of_isIdle hidle
      have hbefore : due d.phase = ⟨i, event :: events⟩ :: activeChannels := by simp [hphase, due]
      have hready : ⟨i, event :: events⟩ ∈ due d.phase := hbefore ▸ List.mem_cons_self
      have hconnector (f : FdType) (c : ConnectorChannel)
          (hi : d.objects i = some ⟨f, .connectorChannel c⟩) : event = .write ∧ events = [] := by
        rcases hs.dueWrites _ hready f c hi with hnil | hwrite
        · cases hnil
        · exact List.cons.inj hwrite
      have honce := hs.dueOnce
      rw [hbefore, List.map_cons, List.nodup_cons] at honce
      have hlast (ready : ReadyChannel) (hmem : ready ∈ activeChannels) : ready.channel ≠ i :=
        fun heq => honce.1 (List.mem_map.mpr ⟨ready, hmem, heq⟩)
      have htasks : Dispatch.tasks { d with phase := .dispatch (some ⟨i, events⟩) activeChannels } =
          d.tasks := by simp [tasks, hphase, RunPhase.tmpTasks]
      -- what is still to be handled has the same channels
      have hchannel {ready : ReadyChannel}
          (hmem : ready ∈ due (.dispatch (some ⟨i, events⟩) activeChannels)) :
          (events ≠ [] ∧ ready = ⟨i, events⟩) ∨ ready ∈ activeChannels := by
        rw [due] at hmem
        split at hmem
        · exact .inr hmem
        · rename_i hevents
          exact (List.mem_cons.mp hmem).imp_left fun heq => ⟨hevents, heq⟩
      have hu : Sound { d with phase := .dispatch (some ⟨i, events⟩) activeChannels } := by
        refine hs.advance hinit ?_ (by simp) ?_ ?_ ?_ ?_
        · exact htasks ▸ List.Sublist.refl _
        · intro j hj ready hmem
          have hdue := (hs.queued j (htasks ▸ hj)).2.2.1
          rcases hchannel hmem with ⟨-, rfl⟩ | hmem
          · exact hdue ⟨i, event :: events⟩ hready
          · exact hdue ready (hbefore ▸ List.mem_cons_of_mem _ hmem)
        · intro ready hmem
          rcases hchannel hmem with ⟨-, rfl⟩ | hmem
          · exact hs.dueOwned ⟨i, event :: events⟩ hready
          · exact hs.dueOwned ready (hbefore ▸ List.mem_cons_of_mem _ hmem)
        · intro ready hmem f c hi
          rcases hchannel hmem with ⟨hevents, rfl⟩ | hmem
          · exact absurd (hconnector f c hi).2 hevents
          · exact hs.dueWrites ready (hbefore ▸ List.mem_cons_of_mem _ hmem) f c hi
        · rw [due]
          split
          · exact honce.2
          · exact List.nodup_cons.mpr honce
      refine hu.handleReady hinit (hs.dueOwned _ hready) rfl hconnector hlast ?_ h
      rw [htasks]
      exact fun hqueued => (hs.queued i hqueued).2.2.1 _ hready rfl

end

/-! ## Destruction -/

theorem Sound.destroy (hs : d.Sound) (h : d.destroy i = some t) : t.Sound ∧ Keeps d t := by
  rw [Dispatch.destroy] at h
  split at h
  · cases h
  rename_i f kind hi
  split at h
  · cases h
  rename_i hfree
  obtain ⟨hunowned, -, htasks, hnew⟩ := by simpa only [not_or] using hfree
  have herase : Sound { d with objects := Function.update d.objects i none } := by
    refine hs.erase hunowned (fun task htask => ?_) fun new hmem => ?_
    · by_contra hkeeps
      exact htasks (List.any_eq_true.mpr ⟨task, htask, Bool.not_eq_false _ ▸ hkeeps⟩)
    · have hneither : ¬ (new.connector = some i ∨ new.channel = i) := by
        intro heither
        exact hnew (List.any_eq_true.mpr ⟨new, hmem, decide_eq_true heither⟩)
      exact not_or.mp hneither
  have hkeeps : Keeps d { d with objects := Function.update d.objects i none } := by
    intro j hj
    have hji : j ≠ i := by
      rintro rfl
      exact hunowned hj
    simpa [Owns, fd, hji] using hj
  simp only at h
  split at h
  · exact Option.some.inj h ▸ ⟨herase, hkeeps⟩
  · exact Option.some.inj h ▸ ⟨herase.closeFd f, hkeeps⟩

/-! ## Timers -/

theorem Sound.runTimer {answer : ConnectAnswer} (hs : d.Sound) (h : d.runTimer i answer = some t) :
    t.Sound ∧ Keeps d t := by
  rw [Dispatch.runTimer] at h
  split at h
  case h_2 => cases h
  case h_1 f c hphase hi =>
      obtain ⟨⟨hscheduled, hidle, hfree⟩, h⟩ := Option.ite_none_right_eq_some.mp h
      have hstate := hs.scheduled i f c hi hscheduled
      have hcidle : d.Idle i f c := by
        refine ⟨hi, fun hown => ?_, ?_⟩
        · obtain ⟨-, hmay⟩ := hs.owner_of_owns hown hi
          exact absurd (hstate.symm.trans hmay) nofun
        · rw [(hs.of_isIdle hidle).1]
          nofun
      obtain ⟨hholds, hvacant⟩ := hs.free hfree
      rw [← Option.some.inj h]
      exact hs.connectTo hcidle hstate answer (isFree_iff.mp hfree).1 hholds hvacant

/-! ## Runs -/

theorem sound_start {eventFd : FdType} (hfd : 0 ≤ eventFd) (epoll : Bool) :
    (start eventFd epoll : Dispatch β).Sound := by
  have hempty : Sound (⟨Registry.empty, fun _ => none, 0, [], [], .update⟩ : Dispatch β) := by
    constructor
    case numbered => exact fun _ _ => rfl
    case unique =>
      rintro f i j ⟨kind, h, -⟩
      cases h
    case queuedOnce | newOnce | dueOnce => exact List.nodup_nil
    all_goals simp [tasks, RunPhase.tmpTasks, due, Registry.empty]
  refine (hempty.createRegistered hfd ?_ rfl ?_ ?_ ?_ epoll).1
  · rintro j ⟨kind, h, -⟩
    cases h
  · trivial
  · simp
  · simp

section

variable [Inhabited β] {label : ℕ → List α → List β} {action : Action α β}

def isEnded (i : ℕ) (d : Dispatch β) : Bool :=
  match d.objects i with
  | some ⟨_, .socketChannel s⟩ => decide (s.state = .inactive)
  | _ => false

/-- A shutdown of one side of a channel that has ended, which makes it `HALF_CLOSE`, or a shutdown of
a new channel in its initialization callback, after which it becomes `ACTIVE`. -/
def Revives (d : Dispatch β) : Action α β → Prop
  | .call i .shutdownRead | .call i .shutdownWrite => d.isEnded i = true
  | .call i .shutdown => i ∈ d.initializing.map NewChannel.channel
  | _ => False

/-- In a run in which no channel is revived, `channels_` loses a channel before the loop polls, or
the connector whose handler runs. -/
theorem Sound.step (hs : d.Sound) (hok : ¬ d.Revives action)
    (h : Dispatch.step label d action = some t) :
    t.Sound ∧ ((∃ tmpTasks, d.phase = .runPendingTasks tmpTasks) ∨
      ∀ j, d.Owns j → t.Owns j ∨ IsCurrent d.phase j) := by
  have hkept (ht : t.Sound ∧ Keeps d t) : t.Sound ∧
      ((∃ tmpTasks, d.phase = .runPendingTasks tmpTasks) ∨
        ∀ j, d.Owns j → t.Owns j ∨ IsCurrent d.phase j) :=
    ⟨ht.1, .inr fun j hj => .inl (ht.2 j hj)⟩
  cases action with
  | call i action =>
      obtain ⟨hhandler, h⟩ := Option.ite_none_right_eq_some.mp h
      refine hkept (hs.perform ?_ ?_ ?_ h)
      · rintro epoll rfl
        cases hhandler
      · intro f s hi hrevives
        have hended : d.isEnded i = true ↔ s.state = .inactive := by simp [isEnded, hi]
        cases action with
        | shutdownRead | shutdownWrite => exact hok (hended.mpr hrevives)
        | _ => exact hrevives
      · intro new hmem hchannel
        obtain ⟨f, s, hi, hstate, -⟩ := hs.newSocket new hmem
        rw [hchannel] at hi
        have hended : d.isEnded i = true := by simp [isEnded, hi, hstate]
        cases action with
        | write | handlerReturns => trivial
        | shutdown => exact absurd (List.mem_map.mpr ⟨new, hmem, hchannel⟩) hok
        | shutdownRead | shutdownWrite => exact absurd hended hok
        | _ => cases hhandler
  | connect retry answer => exact hkept (hs.connect h)
  | bind datagram sockFd epoll => exact hkept (hs.bind h)
  | initialized epoll =>
      obtain ⟨hsound, hkeeps⟩ := hs.initialized h
      exact ⟨hsound, .inr hkeeps⟩
  | runTimer i answer => exact hkept (hs.runTimer h)
  | runPendingTasks => exact hkept (hs.runPendingTasks h)
  | runTask =>
      have hphase : ∃ tmpTasks, d.phase = .runPendingTasks tmpTasks := by
        change d.runTask = some t at h
        rw [Dispatch.runTask] at h
        split at h
        · exact ⟨_, ‹_›⟩
        · cases h
      exact ⟨hs.runTask h, .inl hphase⟩
  | poll reports => exact hkept (hs.poll h)
  | handleEvent => exact hkept (hs.handleEvent h)
  | handle kernel => exact hkept (hs.handle h)
  | endBatch => exact hkept (hs.endBatch h)
  | destroy i => exact hkept (hs.destroy h)

/-- `handleEvent` is called on a channel of `channels_`, and during a batch only the current channel
leaves `channels_`. -/
structure SafeStep (d : Dispatch β) (action : Action α β) (t : Dispatch β) : Prop where
  owned : action = .handleEvent → ∀ current ready activeChannels,
    d.phase = .dispatch current (ready :: activeChannels) → d.Owns ready.channel
  removed : ∀ current activeChannels, d.phase = .dispatch current activeChannels →
    ∀ i, d.Owns i → ¬ t.Owns i → ∃ events, current = some ⟨i, events⟩

theorem safeStep_of_reachable
    (hs : (system label).ReachableUnder (fun d action => ¬ d.Revives action) d)
    (hok : ¬ d.Revives action) (h : (system label).step d action = some t) :
    d.SafeStep action t := by
  have hsound : d.Sound := by
    refine hs.invariant ?_ fun s a t hs hok h => (hs.step hok h).1
    rintro s ⟨eventFd, epoll, hfd, rfl⟩
    exact sound_start hfd epoll
  obtain ⟨-, hkept⟩ := hsound.step hok h
  constructor
  · rintro rfl current ready activeChannels hphase
    change d.handleEvent = some t at h
    simp only [Dispatch.handleEvent, hphase] at h
    obtain ⟨hcond, -⟩ := Option.ite_none_right_eq_some.mp h
    obtain ⟨-, hhandled⟩ := Bool.and_eq_true_iff.mp hcond
    refine hsound.dueOwned ready ?_
    rw [hphase, due_of_hasHandled hhandled]
    exact List.mem_cons_self
  · intro current activeChannels hphase i hown hlost
    rcases hkept with ⟨tmpTasks, heq⟩ | hkept
    · rw [hphase] at heq
      cases heq
    · obtain ⟨activeChannels', heq, -⟩ := (hkept i hown).resolve_left hlost
      rw [hphase] at heq
      cases heq
      exact ⟨[], rfl⟩

end

/-- A connector in its `handleWriteEvent` leaves `channels_` when the callback returns. -/
theorem safeStep_connected :
    ∃ d t : Dispatch ℕ, (d.Owns 1 ∧ ¬ t.Owns 1) ∧
      d.SafeStep (.initialized true : Action ℕ ℕ) t := by
  have hstart : (system fun _ (data : List ℕ) => data).ReachableUnder
      (fun d action => ¬ d.Revives action) (start 3 true) := .initial ⟨3, true, by decide, rfl⟩
  have hconnecting := hstart.step (a := .connect false ⟨5, EINPROGRESS, true⟩) id rfl
  have htasks := hconnecting.step (a := .runPendingTasks) id rfl
  have hpolled := htasks.step (a := .poll [⟨5, false, false, true⟩]) id rfl
  have hcurrent := hpolled.step (a := .handleEvent) id rfl
  have hwritten := hcurrent.step (a := .handle ⟨⟨[], [], true⟩, 0, none⟩) id rfl
  exact ⟨_, _, ⟨by decide, by decide⟩, safeStep_of_reachable hwritten id rfl⟩

/-- A channel that has ended is revived and written to after its deregistration; the write fails, and
registers with `epoll` a channel that only a second deregister task keeps. -/
theorem not_safeStep_revived :
    ¬ ∀ (d t : Dispatch ℕ) (action : Action ℕ ℕ),
      (system fun _ (data : List ℕ) => data).Reachable d →
        (system fun _ (data : List ℕ) => data).step d action = some t → d.SafeStep action t := by
  intro h
  have hstart : (system fun _ (data : List ℕ) => data).Reachable (start 3 true) :=
    .initial ⟨3, true, by decide, rfl⟩
  obtain ⟨d, hd, hphase, hidle, hunowned⟩ := System.ReachableUnder.exists_of_runUnder _
    (P := fun d => d.phase = .dispatch none [⟨2, [.write]⟩] ∧ d.isIdle = true ∧ ¬ d.Owns 2)
    [.connect false ⟨5, 0, true⟩, .initialized true, .call 2 .shutdown, .call 2 .handlerReturns,
      .call 2 .shutdownWrite, .call 2 .handlerReturns, .runPendingTasks, .runTask,
      .call 2 (.write [7] false (.failed 32) 0 true), .call 2 .handlerReturns,
      .poll [⟨5, false, false, true⟩]] hstart (by decide +kernel)
  have hstep : (system fun _ (data : List ℕ) => data).step d .handleEvent =
      some { d with phase := .dispatch (some ⟨2, [.write]⟩) [] } := by
    change d.handleEvent = _
    simp [handleEvent, hphase, hidle, hasHandled]
  exact hunowned ((h d _ .handleEvent hd hstep).owned rfl none ⟨2, [.write]⟩ [] hphase)

end Nets.Dispatch
