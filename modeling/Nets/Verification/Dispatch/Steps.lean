import Nets.Verification.Dispatch.Ownership

/-! # The steps of a loop

Every step in which no channel that has ended is revived keeps the invariant, and takes a channel out
of `channels_` only before the loop polls or when it is the current one. -/

namespace Nets.Dispatch

open Library

variable {α β : Type} {d t : Dispatch β} {i j : ℕ} {f : FdType} {kind : ChannelKind β}

/-- `channels_` has lost no channel. -/
def Keeps (d t : Dispatch β) : Prop := ∀ j, d.Owns j → t.Owns j

theorem Keeps.refl (d : Dispatch β) : Keeps d d := fun _ h => h

theorem Keeps.trans {u : Dispatch β} (h : Keeps d t) (h' : Keeps t u) : Keeps d u :=
  fun j hj => h' j (h j hj)

theorem keeps_put (h : ¬ d.Owns i) : Keeps d (d.put i f kind) := by
  intro j hj
  have hji : j ≠ i := by
    rintro rfl
    exact h hj
  exact (owns_put_of_ne hji).mpr hj

theorem fd_ne_of_owns (hvacant : d.registry.channels (d.fd i) = none) (hj : d.Owns j) :
    d.fd j ≠ d.fd i := by
  intro heq
  rw [Owns, heq, hvacant] at hj
  cases hj

theorem keeps_enter (hvacant : d.registry.channels (d.fd i) = none) : Keeps d (d.enter i) := by
  intro j hj
  have hsame : (d.enter i).registry.channels (d.fd j) = d.registry.channels (d.fd j) :=
    Function.update_of_ne (fd_ne_of_owns hvacant hj) ..
  exact hsame.trans hj

theorem keeps_leave (hvacant : d.registry.channels (d.fd i) = none) : Keeps d (d.leave i) := by
  intro j hj
  have hsame : (d.leave i).registry.channels (d.fd j) = d.registry.channels (d.fd j) :=
    Function.update_of_ne (fd_ne_of_owns hvacant hj) ..
  exact hsame.trans hj

theorem unowned_leave : ¬ (d.leave i).Owns i := by
  have hnone : (d.leave i).registry.channels (d.fd i) = none := Function.update_self ..
  simp [Owns, show (d.leave i).fd i = d.fd i from rfl, hnone]

/-! ## Calls of socket channels -/

theorem Sound.not_owned (hs : d.Sound) {s : Socket β}
    (hi : d.objects i = some ⟨f, .socketChannel s⟩)
    (h : ¬ (s.state = .inactive ∧ Session.WritesNothing s.stack)) :
    d.registry.channels f = some i := by
  by_contra hunowned
  exact h (hs.quiet i f s hi hunowned)

theorem store_interest {u : Session β} {g : FdType} {entry : ℕ × EpollEvents}
    (h : (d.store i f u).registry.interest g = some entry) :
    d.registry.interest g = some entry ∨ (g = f ∧ entry.1 = i ∧ u.interest ≠ d.interestOf f) := by
  simp only [Dispatch.store] at h
  split at h
  · exact .inl h
  · rename_i hchanged
    by_cases hg : g = f
    · subst hg
      rw [Function.update_self] at h
      obtain ⟨events, -, rfl⟩ := Option.map_eq_some_iff.mp h
      exact .inr ⟨rfl, rfl, hchanged⟩
    · rw [Function.update_of_ne hg] at h
      exact .inl h

/-- A call changes the registration only of a channel that is in `channels_`. -/
theorem Sound.store (hs : d.Sound) {s : Socket β} {u : Session β}
    (hi : d.objects i = some ⟨f, .socketChannel s⟩) (hu : (d.session i f s).Settles u)
    (hnew : ∀ new ∈ d.initializing, new.channel = i →
      u.state = .inactive ∧ u.stack = [] ∧ u.pendingTasks = []) :
    (d.store i f u).Sound ∧ Keeps d (d.store i f u) := by
  have hclosing : u.IsClosing → u.state = .inactive := by
    intro h
    rcases hu.closing h with (hstack | htask) | hended
    · exact hu.ended (hs.closing i f s hi (.inl hstack))
    · exact absurd htask List.not_mem_nil
    · exact hended
  have hregistry : Sound { d with registry := (d.store i f u).registry } := by
    refine hs.withRegistry ?_ hs.owner hs.quiet ?_ (fun j hj => (hs.queued j hj).2.1)
      (fun new hmem => (hs.newUnowned new hmem).1) hs.dueOwned
    · intro g j events h
      rcases store_interest h with hold | ⟨rfl, rfl, hchanged⟩
      · exact hs.entry g j events hold
      · exact hs.not_owned hi fun hended => hchanged (hu.quiet hended.1 hended.2).1
    · intro j g c hj
      obtain ⟨hevents, hmask⟩ := hs.unread j g c hj
      have hji : j ≠ i := ne_of_kind hj hi nofun
      refine ⟨?_, fun g' events h => ?_⟩
      · simpa [Dispatch.store, hji] using hevents
      · rcases store_interest h with hold | ⟨-, heq, -⟩
        · exact hmask g' events hold
        · exact absurd heq hji
  have hput := hregistry.putSocket (u := socket u) hi
    (fun h => h.elim (fun hstack => hclosing (.inl hstack))
      fun htask => hu.ended (hs.closing i f s hi (.inr htask)))
    (fun hunowned => by
      obtain ⟨hstate, hstack⟩ := hs.quiet i f s hi hunowned
      exact ⟨hu.ended hstate, (hu.quiet hstate hstack).2⟩)
    fun new hmem hchannel => ⟨(hnew new hmem hchannel).1, (hnew new hmem hchannel).2.1⟩
  have hadd : (d.store i f u).Sound := hput.addTasks ?_ ?_ ?_
  · exact ⟨hadd, fun j hj => (owns_put (fd_eq hi)).mpr hj⟩
  · intro j hj
    obtain ⟨task, htask, heq⟩ := List.mem_map.mp hj
    cases heq
    refine ⟨⟨f, socket u, by simp [put], hclosing (.inr htask)⟩, fun new hmem hchannel => ?_⟩
    rw [(hnew new hmem hchannel).2.2] at htask
    exact absurd htask List.not_mem_nil
  · intro j hj
    obtain ⟨task, -, heq⟩ := List.mem_map.mp hj
    cases heq
  · have hnone : (u.pendingTasks.map (LoopTask.socketChannel i)).filterMap connectorOf = [] := by
      rw [List.filterMap_map]
      exact List.filterMap_eq_nil_iff.mpr fun _ _ => rfl
    rw [hnone]
    exact List.nodup_nil

/-- In an initialization callback only `write` is called. -/
def IsMild : Session.Action α β → Prop
  | .write .. | .handlerReturns => True
  | _ => False

theorem Sound.perform [Inhabited β] {label : ℕ → List α → List β} {action : Session.Action α β}
    (hs : d.Sound) (htask : ∀ epoll, action ≠ .runTask epoll)
    (hok : ∀ f s, d.objects i = some ⟨f, .socketChannel s⟩ → ¬ (d.session i f s).Revives action)
    (hnew : ∀ new ∈ d.initializing, new.channel = i → IsMild action)
    (h : d.perform label i action = some t) : t.Sound ∧ Keeps d t := by
  rw [Dispatch.perform] at h
  split at h
  case h_2 => cases h
  case h_1 f s hi =>
      obtain ⟨u, hu, rfl⟩ := Option.map_eq_some_iff.mp h
      refine hs.store hi (Session.settles_call htask (hok f s hi) hu) fun new hmem hchannel => ?_
      have hmild := hnew new hmem hchannel
      obtain ⟨g, v, hv, hstate, hstack⟩ := hs.newSocket new hmem
      rw [hchannel, hi] at hv
      cases hv
      cases action with
      | write data callback answer before epoll =>
          exact Session.call_of_ended (s := d.session i f s) hstate hstack hu
      | handlerReturns =>
          have hnone : (d.session i f s).act label .handlerReturns = none := by
            simp [Session.act, session, hstack]
          rw [hnone] at hu
          cases hu
      | _ => exact absurd hmild id

/-! ## Connectors -/

theorem Sound.channel_ne (hs : d.Sound) (hi : d.objects i = some ⟨f, kind⟩)
    (hkind : ∀ s, kind ≠ .socketChannel s) : ∀ new ∈ d.initializing, new.channel ≠ i := by
  rintro new hmem rfl
  obtain ⟨g, s, hsocket, -⟩ := hs.newSocket new hmem
  rw [hi] at hsocket
  cases hsocket
  exact hkind s rfl

theorem Sound.not_queued (hs : d.Sound) (h : ¬ d.Owns i) : .connectorChannel i ∉ d.tasks :=
  fun hi => h (hs.queued i hi).2.1

theorem Sound.not_due (hs : d.Sound) (h : ¬ d.Owns i) : ∀ ready ∈ due d.phase, ready.channel ≠ i := by
  rintro ready hready rfl
  exact h (hs.dueOwned ready hready)

theorem Sound.interest_eq_none (hs : d.Sound) (h : d.registry.channels f = none) :
    d.registry.interest f = none := by
  refine Option.eq_none_iff_forall_ne_some.mpr fun entry hentry => ?_
  rw [hs.entry f entry.1 entry.2 hentry] at h
  cases h

/-- A connector that is not in `channels_` and has no new channel. -/
structure Idle (d : Dispatch β) (i : ℕ) (f : FdType) (c : ConnectorChannel) : Prop where
  object : d.objects i = some ⟨f, .connectorChannel c⟩
  unowned : ¬ d.Owns i
  initializing : ∀ new ∈ d.initializing, new.connector ≠ some i

theorem Sound.reconnect {c : ConnectorChannel} (hs : d.Sound) (hi : d.Idle i f c) :
    (d.reconnect i f c).Sound ∧ Keeps d (d.reconnect i f c) := by
  have hput := hs.putConnector (f := kInvalidFd)
    (u := { c with state := .disconnected, scheduled := true }) hi.object hi.unowned
    hi.initializing (fun _ => rfl) fun j hj => by
      obtain ⟨_, -, hvalid, -⟩ := hj
      exact absurd hvalid (by decide)
  exact ⟨hput.closeFd f, keeps_put hi.unowned⟩

/-- A registration that fails leaves the channel outside. -/
theorem Sound.deregisterIfRegistered (hs : d.Sound) (hi : d.objects i = some ⟨f, kind⟩)
    (hvacant : d.registry.channels f = none) :
    (d.deregisterIfRegistered i).Sound ∧ Keeps d (d.deregisterIfRegistered i) ∧
      (d.deregisterIfRegistered i).objects = d.objects ∧
        (d.deregisterIfRegistered i).initializing = d.initializing ∧
          ¬ (d.deregisterIfRegistered i).Owns i := by
  have hunowned := unowned_of_vacant hi hvacant
  rw [Dispatch.deregisterIfRegistered]
  split
  · rw [deregister_eq]
    refine ⟨hs.leave hi ?_ ?_ (hs.not_queued hunowned) (hs.not_due hunowned),
      keeps_leave ((fd_eq hi).symm ▸ hvacant), rfl, rfl, unowned_leave⟩
    · intro j hj
      rw [hvacant] at hj
      cases hj
    · rintro s rfl
      exact hs.quiet i f s hi (by simp [hvacant])
  · exact ⟨hs, .refl d, rfl, rfl, hunowned⟩

theorem put_enter (h : d.fd i = f) : (d.enter i).put i f kind = (d.put i f kind).enter i := by
  simp only [enter, Registry.put, fd_put_self, h]
  rfl

theorem put_leave (h : d.fd i = f) : (d.put i f kind).leave i = (d.leave i).put i f kind := by
  simp only [leave, Registry.put, fd_put_self, h]
  rfl

theorem Sound.waitConnect {c : ConnectorChannel} (hs : d.Sound) (hi : d.Idle i f c) (hf : 0 ≤ f)
    (hscheduled : c.scheduled = false) (hholds : ∀ j, d.Holds j f → j = i)
    (hvacant : d.registry.channels f = none) (epoll : Bool) :
    (d.waitConnect i f c epoll).Sound ∧ Keeps d (d.waitConnect i f c epoll) := by
  have hevent : (d.addEvent kWriteEvent i).Sound := hs.addEvent (.inl rfl)
  have hfd : (d.addEvent kWriteEvent i).fd i = f := fd_eq hi.object
  have hinterest : (d.addEvent kWriteEvent i).registry.interest ((d.addEvent kWriteEvent i).fd i) =
      none := hfd ▸ hs.interest_eq_none hvacant
  rw [Dispatch.waitConnect]
  rcases registerTo_eq epoll hinterest with heq | ⟨registered, heq⟩
  · rw [heq]
    simp only
    rw [put_enter hfd]
    have hput := hevent.putConnector (f := f) (u := { c with state := .connecting }) hi.object
      hi.unowned hi.initializing (by simp [hscheduled]) hholds
    have hself : ((d.addEvent kWriteEvent i).put i f
        (.connectorChannel { c with state := .connecting })).objects i =
          some ⟨f, .connectorChannel { c with state := .connecting }⟩ := by
      simp [put]
    refine ⟨hput.enter hself hf rfl hvacant (hput.channel_ne hself (by simp)), ?_⟩
    have hkeeps : Keeps (d.addEvent kWriteEvent i) ((d.addEvent kWriteEvent i).put i f
        (.connectorChannel { c with state := .connecting })) := keeps_put hi.unowned
    exact hkeeps.trans (keeps_enter (by rw [fd_put_self]; exact hvacant))
  · rw [heq]
    simp only
    obtain ⟨hleft, hkeeps, hobjects, hinit, hunowned⟩ :=
      (hevent.setRegistered registered i).deregisterIfRegistered hi.object hvacant
    split
    · have hidle : Idle (Dispatch.deregisterIfRegistered i { d.addEvent kWriteEvent i with
          registry := (d.addEvent kWriteEvent i).registry.setRegistered registered i }) i f c :=
        ⟨hobjects ▸ hi.object, hunowned, hinit ▸ hi.initializing⟩
      obtain ⟨hsound, hkeeps'⟩ := hleft.reconnect hidle
      exact ⟨hsound, hkeeps.trans hkeeps'⟩
    · exact ⟨hleft, hkeeps⟩

/-! ## New channels -/

theorem keeps_construct (hs : d.Sound) (new : Option (Option ℕ)) :
    Keeps d (d.construct new f kind) :=
  fun _ hj => (owns_construct_of_ne (hs.ne_count_of_owns hj)).mpr hj

theorem isFree_iff : d.isFree f = true ↔ 0 ≤ f ∧ ∀ i < d.count, d.fd i ≠ f := by
  simp [isFree]

theorem Sound.lt_count (hs : d.Sound) {channel : Channel β} (hi : d.objects i = some channel) :
    i < d.count := by
  by_contra hle
  rw [hs.numbered i (not_lt.mp hle)] at hi
  cases hi

theorem Sound.free (hs : d.Sound) (h : d.isFree f = true) :
    (∀ j, ¬ d.Holds j f) ∧ d.registry.channels f = none := by
  obtain ⟨-, hfree⟩ := isFree_iff.mp h
  constructor
  · rintro j ⟨kind, hj, -⟩
    exact hfree j (hs.lt_count hj) (fd_eq hj)
  · refine Option.eq_none_iff_forall_ne_some.mpr fun j hj => ?_
    obtain ⟨kind, hobject, -⟩ := hs.owner f j hj
    exact hfree j (hs.lt_count hobject) (fd_eq hobject)

/-- The new channel of a connector that closes the descriptor. -/
theorem Sound.makeSocketChannel {c : ConnectorChannel} (hs : d.Sound)
    (hi : d.objects i = some ⟨f, .connectorChannel c⟩) (hf : 0 ≤ f)
    (hnew : ∀ new ∈ d.initializing, new.connector ≠ some i)
    (hqueued : .connectorChannel i ∉ d.tasks) (hscheduled : c.scheduled = false)
    (hstate : c.state ≠ .connected) (hcurrent : c.state = .connecting → IsCurrent d.phase i) :
    (d.makeSocketChannel (some i) f).Sound ∧ Keeps d (d.makeSocketChannel (some i) f) := by
  have hholds : d.Holds i f := ⟨_, hi, hf, hstate, hnew⟩
  refine ⟨hs.construct (some (some i)) (fun j hj => ?_) ?_ nofun (fun _ _ => ⟨_, rfl⟩) ?_,
    keeps_construct hs (some (some i))⟩
  · rw [hs.unique f i j hholds hj]
  · rintro s heq
    cases heq
    exact ⟨hf, rfl, rfl⟩
  · intro j hj
    cases hj
    exact ⟨hqueued, c, hi, hscheduled, hstate, hcurrent⟩

theorem Sound.handleConnectError {c : ConnectorChannel} (hs : d.Sound) (hi : d.Idle i f c)
    (hf : 0 ≤ f) (hscheduled : c.scheduled = false) (hholds : ∀ j, d.Holds j f → j = i)
    (hvacant : d.registry.channels f = none) (errNum : ℕ) (epoll : Bool) :
    (d.handleConnectError i f c errNum epoll).Sound ∧
      Keeps d (d.handleConnectError i f c errNum epoll) := by
  rw [Dispatch.handleConnectError]
  split
  · exact hs.waitConnect hi hf hscheduled hholds hvacant epoll
  split
  · exact hs.reconnect hi
  · exact ⟨hs, .refl d⟩

/-- `connect` of a connector, with a descriptor that no channel has. -/
theorem Sound.connectTo {c : ConnectorChannel} (hs : d.Sound) (hi : d.Idle i f c)
    (hstate : c.state = .disconnected) (answer : ConnectAnswer) (hf : 0 ≤ answer.sockFd)
    (hholds : ∀ j, ¬ d.Holds j answer.sockFd)
    (hvacant : d.registry.channels answer.sockFd = none) :
    (d.connectTo i { c with scheduled := false } answer).Sound ∧
      Keeps d (d.connectTo i { c with scheduled := false } answer) := by
  have hput := hs.putConnector (f := answer.sockFd) (u := { c with scheduled := false }) hi.object
    hi.unowned hi.initializing (by simp) fun j hj => absurd hj (hholds j)
  have hkeeps : Keeps d (d.put i answer.sockFd
      (.connectorChannel { c with scheduled := false })) := keeps_put hi.unowned
  have hempty : (d.put i answer.sockFd (.connectorChannel { c with scheduled := false })
      ).registry.channels answer.sockFd = none := hvacant
  have hidle : (d.put i answer.sockFd (.connectorChannel { c with scheduled := false })).Idle i
      answer.sockFd { c with scheduled := false } := by
    refine ⟨by simp [put], ?_, hi.initializing⟩
    simp [Owns, hempty]
  rw [Dispatch.connectTo]
  generalize d.put i answer.sockFd _ = u at hput hkeeps hempty hidle ⊢
  have hconnected : c.state ≠ .connected := by simp [hstate]
  have hconnecting : c.state ≠ .connecting := by simp [hstate]
  have hself : u.Holds i answer.sockFd := ⟨_, hidle.object, hf, hconnected, hidle.initializing⟩
  split
  · obtain ⟨hsound, hkeeps'⟩ := hput.makeSocketChannel hidle.object hf hidle.initializing
      (hput.not_queued hidle.unowned) rfl hconnected fun h => absurd h hconnecting
    exact ⟨hsound, hkeeps.trans hkeeps'⟩
  · obtain ⟨hsound, hkeeps'⟩ := hput.handleConnectError hidle hf rfl
      (fun j hj => hput.unique _ j i hj hself) hempty answer.errNum answer.epoll
    exact ⟨hsound, hkeeps.trans hkeeps'⟩

theorem Sound.connect {retry : Bool} {answer : ConnectAnswer} (hs : d.Sound)
    (h : d.connect retry answer = some t) : t.Sound ∧ Keeps d t := by
  obtain ⟨hfree, h⟩ := Option.ite_none_right_eq_some.mp h
  obtain ⟨hf, -⟩ := isFree_iff.mp hfree
  obtain ⟨hholds, hvacant⟩ := hs.free hfree
  have hinvalid (j : ℕ) : ¬ d.Holds j kInvalidFd := by
    rintro ⟨_, -, hvalid, -⟩
    exact absurd hvalid (by decide)
  have hconstruct : (d.construct none kInvalidFd
      (.connectorChannel ⟨.disconnected, retry, false⟩)).Sound :=
    hs.construct none (fun j hj => absurd hj (hinvalid j)) nofun (fun c heq => by cases heq; nofun)
      nofun nofun
  have hkeeps : Keeps d (d.construct none kInvalidFd
      (.connectorChannel ⟨.disconnected, retry, false⟩)) := keeps_construct hs none
  have hidle : (d.construct none kInvalidFd (.connectorChannel ⟨.disconnected, retry, false⟩)).Idle
      d.count kInvalidFd ⟨.disconnected, retry, false⟩ := by
    refine ⟨objects_construct_self, hs.channels_ne_count _, fun new hmem hconnector => ?_⟩
    obtain ⟨k, hk, -⟩ := hs.newConnector new hmem _ hconnector
    exact hs.ne_count hk rfl
  have hnone (j : ℕ) : ¬ (d.construct none kInvalidFd
      (.connectorChannel ⟨.disconnected, retry, false⟩)).Holds j answer.sockFd := by
    rintro ⟨kind, hobject, hrest⟩
    by_cases hj : j = d.count
    · subst hj
      rw [objects_construct_self] at hobject
      have hfd : kInvalidFd = answer.sockFd := congrArg Channel.fd (Option.some.inj hobject)
      rw [← hfd] at hf
      exact absurd hf (by decide)
    · rw [objects_construct_of_ne hj] at hobject
      exact hholds j ⟨kind, hobject, hrest⟩
  obtain ⟨hsound, hkeeps'⟩ := hconstruct.connectTo hidle rfl answer hf hnone hvacant
  rw [← Option.some.inj h]
  exact ⟨hsound, hkeeps.trans hkeeps'⟩

theorem Sound.accept {accepted : Option FdType} (hs : d.Sound)
    (h : d.handleReadEvent accepted = some t) : t.Sound ∧ Keeps d t := by
  cases accepted with
  | none => exact Option.some.inj h ▸ ⟨hs, .refl d⟩
  | some connFd =>
      obtain ⟨hfree, h⟩ := Option.ite_none_right_eq_some.mp h
      obtain ⟨hf, -⟩ := isFree_iff.mp hfree
      rw [← Option.some.inj h]
      refine ⟨hs.construct (some none) (fun j hj => absurd hj ((hs.free hfree).1 j)) ?_ nofun
        (fun _ _ => ⟨_, rfl⟩) nofun, keeps_construct hs (some none)⟩
      rintro s heq
      cases heq
      exact ⟨hf, rfl, rfl⟩

/-- A channel that is neither a connection nor a connector, with a descriptor no channel has. -/
theorem Sound.createRegistered (hs : d.Sound) (hf : 0 ≤ f) (hholds : ∀ j, ¬ d.Holds j f)
    (hvacant : d.registry.channels f = none) (hmay : MayBeOwned kind)
    (hsocket : ∀ s, kind ≠ .socketChannel s) (hconnector : ∀ c, kind ≠ .connectorChannel c)
    (epoll : Bool) :
    (((d.create f kind).addEvent kReadEvent d.count).registerTo d.count epoll).2.Sound ∧
      Keeps d (((d.create f kind).addEvent kReadEvent d.count).registerTo d.count epoll).2 := by
  have hconstruct : (d.construct none f kind).Sound :=
    hs.construct none (fun j hj => absurd hj (hholds j)) (fun s heq => absurd heq (hsocket s))
      (fun c heq => absurd heq (hconnector c)) nofun nofun
  have hkeeps : Keeps d (d.construct none f kind) := keeps_construct hs none
  have hself : (d.construct none f kind).objects d.count = some ⟨f, kind⟩ :=
    objects_construct_self
  have hempty : (d.construct none f kind).registry.channels f = none := hvacant
  have hcreate : d.create f kind = d.construct none f kind := rfl
  rw [hcreate]
  generalize d.construct none f kind = u at hconstruct hkeeps hself hempty
  have hevent : (u.addEvent kReadEvent d.count).Sound := hconstruct.addEvent (.inr fun g c hc => by
    rw [hself] at hc
    cases hc
    exact hconnector c rfl)
  have hfd : (u.addEvent kReadEvent d.count).fd d.count = f := fd_eq hself
  have hinterest : (u.addEvent kReadEvent d.count).registry.interest
      ((u.addEvent kReadEvent d.count).fd d.count) = none :=
    hfd ▸ hconstruct.interest_eq_none hempty
  rcases registerTo_eq epoll hinterest with heq | ⟨registered, heq⟩
  · rw [heq]
    exact ⟨hevent.enter hself hf hmay hempty (hevent.channel_ne hself hsocket),
      hkeeps.trans (keeps_enter (hfd.symm ▸ hempty) :)⟩
  · rw [heq]
    exact ⟨hevent.setRegistered registered _, hkeeps⟩

theorem Sound.bind {datagram : Bool} {sockFd : FdType} {epoll : Bool} (hs : d.Sound)
    (h : d.bind datagram sockFd epoll = some t) : t.Sound ∧ Keeps d t := by
  obtain ⟨hfree, h⟩ := Option.ite_none_right_eq_some.mp h
  obtain ⟨hf, -⟩ := isFree_iff.mp hfree
  obtain ⟨hholds, hvacant⟩ := hs.free hfree
  rw [← Option.some.inj h]
  refine hs.createRegistered hf hholds hvacant ?_ ?_ ?_ epoll
  · cases datagram <;> trivial
  · cases datagram <;> simp
  · cases datagram <;> simp

theorem Sound.channelActive {s : Socket β} (hs : d.Sound)
    (hi : d.objects i = some ⟨f, .socketChannel s⟩) (hstack : s.stack = [])
    (hunqueued : .socketChannel i .deregister ∉ d.tasks)
    (hnew : ∀ new ∈ d.initializing, new.channel ≠ i) (hvacant : d.registry.channels f = none)
    (epoll : Bool) :
    (d.channelActive i epoll).Sound ∧ Keeps d (d.channelActive i epoll) := by
  have hf := hs.valid i f s hi
  have hevent : (d.addEvent kReadEvent i).Sound := hs.addEvent (.inr fun g c hc => by
    rw [hi] at hc
    cases hc)
  have hfd : (d.addEvent kReadEvent i).fd i = f := fd_eq hi
  have hinterest : (d.addEvent kReadEvent i).registry.interest ((d.addEvent kReadEvent i).fd i) =
      none := hfd ▸ hs.interest_eq_none hvacant
  simp only [Dispatch.channelActive, hi]
  rcases registerTo_eq epoll hinterest with heq | ⟨registered, heq⟩
  · rw [heq]
    have henter := hevent.enter hi hf trivial hvacant hnew
    have hown : ((d.addEvent kReadEvent i).enter i).registry.channels f = some i := by
      rw [Dispatch.enter, ← hfd]
      exact Function.update_self ..
    have hput := henter.putSocket (u := { s with state := .active, stack := .handler :: s.stack })
      hi ?_ (fun h => absurd hown h) fun new hmem heq => absurd heq (hnew new hmem)
    · refine ⟨hput, fun j hj => ?_⟩
      have hentered : ((d.addEvent kReadEvent i).enter i).Owns j :=
        keeps_enter (hfd.symm ▸ hvacant) j hj
      exact (owns_put (d := (d.addEvent kReadEvent i).enter i) (fd_eq hi)).mpr hentered
    · rintro (hmem | htask)
      · simp [hstack] at hmem
      · exact absurd htask hunqueued
  · rw [heq]
    obtain ⟨hleft, hkeeps, -⟩ :=
      (hevent.setRegistered registered i).deregisterIfRegistered hi hvacant
    exact ⟨hleft, hkeeps⟩

/-- Nothing is left in `channels_` with the descriptor of the new channel. -/
theorem Sound.initializedAccepted {rest : List NewChannel} (hs : d.Sound) (epoll : Bool)
    (h : d.initializing = ⟨none, i⟩ :: rest) :
    (Dispatch.channelActive i epoll { d with initializing := rest }).Sound ∧
      Keeps d (Dispatch.channelActive i epoll { d with initializing := rest }) := by
  have hhead : ⟨none, i⟩ ∈ d.initializing := h ▸ List.mem_cons_self
  obtain ⟨f, s, hi, -, hstack⟩ := hs.newSocket _ hhead
  have honce := hs.newOnce
  rw [h] at honce
  have hvacant : d.registry.channels f = none := by
    refine Option.eq_none_iff_forall_ne_some.mpr fun j hj => ?_
    have hconnector := hs.connector_of_channels hhead ((fd_eq hi).symm ▸ hj)
    cases hconnector
  refine (hs.popAccepted h).channelActive hi hstack (hs.newUnowned _ hhead).2 ?_ hvacant epoll
  intro new hmem hchannel
  have hmap := List.mem_map_of_mem (f := NewChannel.channel) hmem
  rw [hchannel] at hmap
  exact (List.nodup_cons.mp honce).1 hmap

theorem due_of_isCurrent {phase : RunPhase} (h : IsCurrent phase i) :
    ∀ ready ∈ due phase, ready.channel ≠ i := by
  obtain ⟨activeChannels, rfl, hne⟩ := h
  exact hne

/-- The connector that hands its descriptor over leaves `channels_`, if it is there. -/
theorem Sound.handOver {c : ℕ} {rest : List NewChannel} (hs : d.Sound)
    (h : d.initializing = ⟨some c, i⟩ :: rest) :
    ∃ (f : FdType) (k : ConnectorChannel) (u : Dispatch β),
      d.objects c = some ⟨f, .connectorChannel k⟩ ∧ u.Sound ∧ u.objects = d.objects ∧
      u.tasks = d.tasks ∧ u.initializing = d.initializing ∧ u.registry.channels f = none ∧
      (∀ j, d.Owns j → u.Owns j ∨ IsCurrent d.phase j) ∧
      Dispatch.handOver c { d with initializing := rest } =
        ({ u with initializing := rest }.put c f
          (.connectorChannel { k with state := .connected })) := by
  have hhead : ⟨some c, i⟩ ∈ d.initializing := h ▸ List.mem_cons_self
  obtain ⟨f, s, hi, -, -⟩ := hs.newSocket _ hhead
  obtain ⟨k, hc, -, hstate, hcurrent⟩ := hs.newConnector _ hhead c rfl
  rw [fd_eq hi] at hc
  have hown (j : ℕ) (hj : d.registry.channels f = some j) : j = c := by
    have hconnector := hs.connector_of_channels hhead ((fd_eq hi).symm ▸ hj)
    exact (Option.some.inj hconnector).symm
  have hqueued : .connectorChannel c ∉ d.tasks :=
    fun hmem => (hs.queued c hmem).2.2.2 _ hhead rfl
  refine ⟨f, k, ?_⟩
  by_cases hconnecting : k.state = .connecting
  · have hdue := due_of_isCurrent (hcurrent hconnecting)
    refine ⟨d.leave c, hc, hs.leave hc hown nofun hqueued hdue, rfl, rfl, rfl, ?_, ?_, ?_⟩
    · rw [← fd_eq hc]
      exact Function.update_self ..
    · intro j hj
      by_cases hjc : j = c
      · exact .inr (hjc ▸ hcurrent hconnecting)
      · have hne : d.fd j ≠ d.fd c := by
          intro heq
          rw [Owns, heq, fd_eq hc] at hj
          exact hjc (hown j hj)
        have hsame : (d.leave c).registry.channels (d.fd j) = d.registry.channels (d.fd j) :=
          Function.update_of_ne hne ..
        exact .inl (hsame.trans hj)
    · have hfd : Dispatch.fd { d with initializing := rest } c = f := fd_eq hc
      simp only [Dispatch.handOver, hc, hconnecting, if_true]
      rw [deregister_eq, put_leave hfd]
      rfl
  · have hunowned : ¬ d.Owns c := by
      intro howns
      obtain ⟨-, hmay⟩ := hs.owner_of_owns howns hc
      exact hconnecting hmay
    refine ⟨d, hc, hs, rfl, rfl, rfl, ?_, fun j hj => .inl hj, ?_⟩
    · refine Option.eq_none_iff_forall_ne_some.mpr fun j hj => ?_
      obtain rfl := hown j hj
      exact hunowned (hs.owns_of_channels hj)
    · simp only [Dispatch.handOver, hc, hconnecting, if_false]

theorem Sound.initializedConnected {c : ℕ} {rest : List NewChannel} (hs : d.Sound) (epoll : Bool)
    (h : d.initializing = ⟨some c, i⟩ :: rest) :
    (Dispatch.channelActive i epoll (Dispatch.handOver c { d with initializing := rest })).Sound ∧
      ∀ j, d.Owns j →
        (Dispatch.channelActive i epoll (Dispatch.handOver c { d with initializing := rest })).Owns j ∨
          IsCurrent d.phase j := by
  obtain ⟨f, k, u, hc, hu, hobjects, htasks, hinit, hvacant, hkept, heq⟩ := hs.handOver h
  rw [heq]
  have hhead : ⟨some c, i⟩ ∈ u.initializing := by
    rw [hinit, h]
    exact List.mem_cons_self
  obtain ⟨g, s, hi, -, hstack⟩ := hu.newSocket _ hhead
  obtain ⟨k', hk', -⟩ := hu.newConnector _ hhead c rfl
  rw [hobjects, hc, fd_eq hi] at hk'
  cases hk'
  have hcu : u.objects c = some ⟨f, .connectorChannel k⟩ := by
    rw [hobjects]
    exact hc
  have hunowned := unowned_of_vacant hcu hvacant
  have hsound := hu.popConnected (hinit.trans h) hcu hunowned
  have hother : ∀ new ∈ rest, new.channel ≠ i := by
    intro new hmem hchannel
    have honce := hu.newOnce
    rw [hinit, h] at honce
    have hmap := List.mem_map_of_mem (f := NewChannel.channel) hmem
    rw [hchannel] at hmap
    exact (List.nodup_cons.mp honce).1 hmap
  have hne : i ≠ c := ne_of_kind hi hcu (by simp)
  obtain ⟨hactive, hkeeps⟩ := hsound.channelActive ((objects_put_of_ne hne).trans hi) hstack
    (hu.newUnowned _ hhead).2 hother hvacant epoll
  refine ⟨hactive, fun j hj => (hkept j hj).imp_left fun hown => hkeeps j ?_⟩
  exact keeps_put (d := { u with initializing := rest }) hunowned j hown

theorem Sound.initialized {epoll : Bool} (hs : d.Sound) (h : d.initialized epoll = some t) :
    t.Sound ∧ ∀ j, d.Owns j → t.Owns j ∨ IsCurrent d.phase j := by
  rw [Dispatch.initialized] at h
  split at h
  · cases h
  · rename_i hinit
    obtain ⟨hsound, hkeeps⟩ := hs.initializedAccepted epoll hinit
    exact Option.some.inj h ▸ ⟨hsound, fun j hj => .inl (hkeeps j hj)⟩
  · rename_i hinit
    exact Option.some.inj h ▸ hs.initializedConnected epoll hinit

end Nets.Dispatch
