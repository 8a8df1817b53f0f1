import Mathlib.Data.List.Nodup
import Nets.Verification.Dispatch.Registration

/-! # Who owns the channels of a loop

What holds between two steps of a loop in which no channel that has ended is revived: every entry of
the interest list belongs to a channel of `channels_`, every descriptor has one channel that closes it,
a socket channel outside `channels_` has ended, and the ready channels still to be handled are in
`channels_`. One lemma for each kind of change keeps it. -/

namespace Nets.Dispatch

open Library

variable {α β : Type} {d t : Dispatch β} {i j : ℕ} {f : FdType} {kind : ChannelKind β}

/-! ## Looking up channels -/

theorem objects_put_cases {channel : Channel β}
    (h : (d.put i f kind).objects j = some channel) :
    (j = i ∧ channel = ⟨f, kind⟩) ∨ (j ≠ i ∧ d.objects j = some channel) := by
  by_cases hj : j = i
  · subst hj
    exact .inl ⟨rfl, by simpa [put] using h.symm⟩
  · exact .inr ⟨hj, by simpa [put, hj] using h⟩

theorem objects_put_self : (d.put i f kind).objects i = some ⟨f, kind⟩ := by simp [put]

theorem objects_put_of_ne (hj : j ≠ i) : (d.put i f kind).objects j = d.objects j := by
  simp [put, hj]

theorem fd_put_of_ne (hj : j ≠ i) : (d.put i f kind).fd j = d.fd j := by
  rw [fd, objects_put_of_ne hj, fd]

@[simp] theorem fd_put_self : (d.put i f kind).fd i = f := by simp [fd, put]

/-- A channel that keeps its descriptor. -/
theorem fd_put (h : d.fd i = f) : (d.put i f kind).fd = d.fd := by
  funext j
  by_cases hj : j = i
  · rw [hj, fd_put_self, h]
  · exact fd_put_of_ne hj

theorem ne_of_kind {channel channel' : Channel β} (h : d.objects i = some channel)
    (h' : d.objects j = some channel') (hne : channel ≠ channel') : i ≠ j := by
  rintro rfl
  exact hne (Option.some.inj (h.symm.trans h'))

/-! ## The invariant -/

/-- A connector that is `CONNECTED` has handed its descriptor over. -/
def HasHandedOver : ChannelKind β → Prop
  | .connectorChannel c => c.state = .connected
  | _ => False

/-- A connector is in `channels_` only while it waits for its connection. -/
def MayBeOwned : ChannelKind β → Prop
  | .connectorChannel c => c.state = .connecting
  | _ => True

theorem MayBeOwned.not_hasHandedOver (h : MayBeOwned kind) : ¬ HasHandedOver kind := by
  cases kind with
  | connectorChannel c =>
      intro hover
      exact absurd (h.symm.trans hover) nofun
  | _ => exact id

/-- The channel is the one that closes the descriptor. -/
def Holds (d : Dispatch β) (i : ℕ) (f : FdType) : Prop :=
  ∃ kind, d.objects i = some ⟨f, kind⟩ ∧ 0 ≤ f ∧ ¬ HasHandedOver kind ∧
    ∀ new ∈ d.initializing, new.connector ≠ some i

/-- The ready channels whose handlers are still to be called. -/
def due : RunPhase → List ReadyChannel
  | .dispatch (some ready) activeChannels =>
    if ready.readyEvents = [] then activeChannels else ready :: activeChannels
  | .dispatch none activeChannels => activeChannels
  | .update | .runPendingTasks _ => []

/-- The connector whose last handler runs. -/
def IsCurrent (phase : RunPhase) (i : ℕ) : Prop :=
  ∃ activeChannels, phase = .dispatch (some ⟨i, []⟩) activeChannels ∧
    ∀ ready ∈ activeChannels, ready.channel ≠ i

/-- The connector of a task. -/
def connectorOf : LoopTask → Option ℕ
  | .connectorChannel i => some i
  | .socketChannel _ _ => none

structure Sound (d : Dispatch β) : Prop where
  numbered : ∀ i, d.count ≤ i → d.objects i = none
  entry : ∀ f i events, d.registry.interest f = some (i, events) → d.registry.channels f = some i
  owner : ∀ f i, d.registry.channels f = some i →
    ∃ kind, d.objects i = some ⟨f, kind⟩ ∧ 0 ≤ f ∧ MayBeOwned kind
  unique : ∀ f i j, d.Holds i f → d.Holds j f → i = j
  valid : ∀ i f s, d.objects i = some ⟨f, .socketChannel s⟩ → 0 ≤ f
  closing : ∀ i f s, d.objects i = some ⟨f, .socketChannel s⟩ →
    .deregister ∈ s.stack ∨ .socketChannel i .deregister ∈ d.tasks → s.state = .inactive
  quiet : ∀ i f s, d.objects i = some ⟨f, .socketChannel s⟩ → d.registry.channels f ≠ some i →
    s.state = .inactive ∧ Session.WritesNothing s.stack
  scheduled : ∀ i f c, d.objects i = some ⟨f, .connectorChannel c⟩ → c.scheduled = true →
    c.state = .disconnected
  unread : ∀ i f c, d.objects i = some ⟨f, .connectorChannel c⟩ →
    (epollEvents (d.registry.events i)).epollIn = false ∧
      ∀ g events, d.registry.interest g = some (i, events) → events.epollIn = false
  deregisters : ∀ i, .socketChannel i .deregister ∈ d.tasks →
    ∃ f s, d.objects i = some ⟨f, .socketChannel s⟩
  queued : ∀ i, .connectorChannel i ∈ d.tasks →
    (∃ f c, d.objects i = some ⟨f, .connectorChannel c⟩) ∧ d.Owns i ∧
      (∀ ready ∈ due d.phase, ready.channel ≠ i) ∧
      ∀ new ∈ d.initializing, new.connector ≠ some i
  queuedOnce : (d.tasks.filterMap connectorOf).Nodup
  queuedInBatch : ∀ tmpTasks, d.phase = .runPendingTasks tmpTasks →
    ∀ i, .connectorChannel i ∉ d.pendingTasks
  newSocket : ∀ new ∈ d.initializing, ∃ f s, d.objects new.channel = some ⟨f, .socketChannel s⟩ ∧
    s.state = .inactive ∧ s.stack = []
  newUnowned : ∀ new ∈ d.initializing, ¬ d.Owns new.channel ∧
    .socketChannel new.channel .deregister ∉ d.tasks
  newConnector : ∀ new ∈ d.initializing, ∀ c, new.connector = some c →
    ∃ k, d.objects c = some ⟨d.fd new.channel, .connectorChannel k⟩ ∧ k.scheduled = false ∧
      k.state ≠ .connected ∧ (k.state = .connecting → IsCurrent d.phase c)
  newOnce : (d.initializing.map NewChannel.channel).Nodup
  dueOwned : ∀ ready ∈ due d.phase, d.Owns ready.channel
  dueWrites : ∀ ready ∈ due d.phase, ∀ f c,
    d.objects ready.channel = some ⟨f, .connectorChannel c⟩ →
      ready.readyEvents = [] ∨ ready.readyEvents = [.write]
  dueOnce : ((due d.phase).map ReadyChannel.channel).Nodup

/-! ## What the invariant says of a descriptor -/

theorem Sound.owner_of_owns (hs : d.Sound) (h : d.Owns i) (hi : d.objects i = some ⟨f, kind⟩) :
    d.registry.channels f = some i ∧ MayBeOwned kind := by
  have hchannels : d.registry.channels f = some i := fd_eq hi ▸ h
  obtain ⟨kind', hi', -, hmay⟩ := hs.owner f i hchannels
  rw [hi] at hi'
  cases hi'
  exact ⟨hchannels, hmay⟩

theorem Sound.owns_of_channels (hs : d.Sound) (h : d.registry.channels f = some i) : d.Owns i := by
  obtain ⟨kind, hi, -⟩ := hs.owner f i h
  rwa [Owns, fd_eq hi]

theorem unowned_of_vacant (hi : d.objects i = some ⟨f, kind⟩)
    (hvacant : d.registry.channels f = none) : ¬ d.Owns i := by
  simp [Owns, fd_eq hi, hvacant]

theorem Sound.holds_socket (hs : d.Sound) {s : Socket β}
    (hi : d.objects i = some ⟨f, .socketChannel s⟩) : d.Holds i f := by
  refine ⟨_, hi, hs.valid i f s hi, id, fun new hnew hconnector => ?_⟩
  obtain ⟨k, hk, -⟩ := hs.newConnector new hnew i hconnector
  rw [hi] at hk
  cases hk

/-- In `channels_` is the channel that closes the descriptor, or a connector that is about to leave. -/
theorem Sound.holds_of_channels (hs : d.Sound) (h : d.registry.channels f = some i) :
    d.Holds i f ∨
      ∃ new ∈ d.initializing, new.connector = some i ∧ d.Holds new.channel f := by
  obtain ⟨kind, hi, hf, hmay⟩ := hs.owner f i h
  by_cases hnew : ∃ new ∈ d.initializing, new.connector = some i
  · obtain ⟨new, hmem, hconnector⟩ := hnew
    obtain ⟨k, hk, -⟩ := hs.newConnector new hmem i hconnector
    obtain ⟨g, s, hsocket, -⟩ := hs.newSocket new hmem
    rw [hi, fd_eq hsocket] at hk
    cases hk
    exact .inr ⟨new, hmem, hconnector, hs.holds_socket hsocket⟩
  · exact .inl ⟨kind, hi, hf, hmay.not_hasHandedOver,
      fun new hmem hconnector => hnew ⟨new, hmem, hconnector⟩⟩

/-- A socket channel outside the initialization callbacks shares its descriptor with no channel of
`channels_`. -/
theorem Sound.alone (hs : d.Sound) {s : Socket β} (hi : d.objects i = some ⟨f, .socketChannel s⟩)
    (hnew : ∀ new ∈ d.initializing, new.channel ≠ i) (h : d.registry.channels f = some j) :
    j = i := by
  rcases hs.holds_of_channels h with hj | ⟨new, hmem, -, hholds⟩
  · exact hs.unique f j i hj (hs.holds_socket hi)
  · exact absurd (hs.unique f _ i hholds (hs.holds_socket hi)) (hnew new hmem)

/-- Only its connector may be in `channels_` with the descriptor of a new channel. -/
theorem Sound.connector_of_channels (hs : d.Sound) {new : NewChannel} (hmem : new ∈ d.initializing)
    (h : d.registry.channels (d.fd new.channel) = some j) : new.connector = some j := by
  obtain ⟨f, s, hsocket, -⟩ := hs.newSocket new hmem
  have hholds := hs.holds_socket hsocket
  rw [fd_eq hsocket] at h
  rcases hs.holds_of_channels h with hj | ⟨new', hmem', hconnector, hholds'⟩
  · obtain rfl := hs.unique f _ _ hj hholds
    exact absurd (hs.owns_of_channels h) (hs.newUnowned new hmem).1
  · have hsame := hs.unique f _ _ hholds' hholds
    exact List.inj_on_of_nodup_map hs.newOnce hmem' hmem hsame ▸ hconnector

/-! ## Changes of the maps -/

/-- The maps change; what was in `channels_` and has to be is still there. -/
theorem Sound.withRegistry (hs : d.Sound) {r : Registry ℕ}
    (hentry : ∀ f i events, r.interest f = some (i, events) → r.channels f = some i)
    (howner : ∀ f i, r.channels f = some i →
      ∃ kind, d.objects i = some ⟨f, kind⟩ ∧ 0 ≤ f ∧ MayBeOwned kind)
    (hquiet : ∀ i f s, d.objects i = some ⟨f, .socketChannel s⟩ → r.channels f ≠ some i →
      s.state = .inactive ∧ Session.WritesNothing s.stack)
    (hunread : ∀ i f c, d.objects i = some ⟨f, .connectorChannel c⟩ →
      (epollEvents (r.events i)).epollIn = false ∧
        ∀ g events, r.interest g = some (i, events) → events.epollIn = false)
    (hqueued : ∀ i, .connectorChannel i ∈ d.tasks → r.channels (d.fd i) = some i)
    (hnew : ∀ new ∈ d.initializing, r.channels (d.fd new.channel) ≠ some new.channel)
    (hdue : ∀ ready ∈ due d.phase, r.channels (d.fd ready.channel) = some ready.channel) :
    Sound { d with registry := r } :=
  { hs with
    entry := hentry
    owner := howner
    quiet := hquiet
    unread := hunread
    queued := fun i hi => ⟨(hs.queued i hi).1, hqueued i hi, (hs.queued i hi).2.2⟩
    newUnowned := fun new hmem => ⟨hnew new hmem, (hs.newUnowned new hmem).2⟩
    dueOwned := hdue }

/-- `channels_` stays, and the kernel watches no more than before. -/
theorem Sound.watchLess (hs : d.Sound) {r : Registry ℕ} (hchannels : r.channels = d.registry.channels)
    (hinterest : ∀ f entry, r.interest f = some entry → d.registry.interest f = some entry)
    (hevents : ∀ i f c, d.objects i = some ⟨f, .connectorChannel c⟩ →
      (epollEvents (r.events i)).epollIn = false) : Sound { d with registry := r } := by
  refine hs.withRegistry ?_ ?_ ?_ ?_ ?_ ?_ ?_
  · intro f i events h
    rw [hchannels]
    exact hs.entry f i events (hinterest f _ h)
  · exact hchannels ▸ hs.owner
  · exact hchannels ▸ hs.quiet
  · intro i f c hi
    exact ⟨hevents i f c hi, fun g events h => (hs.unread i f c hi).2 g events (hinterest g _ h)⟩
  · exact hchannels ▸ fun i hi => (hs.queued i hi).2.1
  · exact hchannels ▸ fun new hmem => (hs.newUnowned new hmem).1
  · exact hchannels ▸ hs.dueOwned

theorem Sound.closeFd (hs : d.Sound) (f : FdType) : (d.closeFd f).Sound := by
  refine hs.watchLess rfl (fun g entry h => ?_) fun i f c hi => (hs.unread i f c hi).1
  by_cases hg : g = f
  · subst hg
    simp at h
  · simpa [hg] using h

theorem Sound.setRegistered (hs : d.Sound) (registered : Bool) (i : ℕ) :
    Sound { d with registry := d.registry.setRegistered registered i } :=
  hs.watchLess rfl (fun _ _ h => h) fun i f c hi => (hs.unread i f c hi).1

/-- A connector asks for write events only. -/
theorem Sound.addEvent (hs : d.Sound) {event : ℕ}
    (hevent : event = kWriteEvent ∨ ∀ f c, d.objects i ≠ some ⟨f, .connectorChannel c⟩) :
    (d.addEvent event i).Sound := by
  refine hs.watchLess rfl (fun _ _ h => h) fun j f c hj => ?_
  have hin := (hs.unread j f c hj).1
  by_cases hji : j = i
  · subst hji
    obtain rfl := hevent.resolve_right fun hne => hne f c hj
    simpa [Registry.addEvent, Registry.setEvents, epollEvents, Nat.and_or_distrib_right,
      kWriteEvent, kReadEvent] using hin
  · simpa [Registry.addEvent, Registry.setEvents, hji] using hin

/-- A channel whose descriptor no channel of `channels_` has enters. -/
theorem Sound.enter (hs : d.Sound) (hi : d.objects i = some ⟨f, kind⟩) (hf : 0 ≤ f)
    (hmay : MayBeOwned kind) (hvacant : d.registry.channels f = none)
    (hnew : ∀ new ∈ d.initializing, new.channel ≠ i) : (d.enter i).Sound := by
  have hfd := fd_eq hi
  have hkeep (j : ℕ) (h : d.Owns j) : d.fd j ≠ f := by
    intro heq
    rw [Owns, heq, hvacant] at h
    cases h
  refine hs.withRegistry ?_ ?_ ?_ ?_ ?_ ?_ ?_ <;> simp only [Registry.put, hfd]
  · intro g j events h
    by_cases hg : g = f
    · subst hg
      simp only [Function.update_self, Option.some.injEq] at h ⊢
      exact congrArg Prod.fst h
    · rw [Function.update_of_ne hg] at h ⊢
      exact hs.entry g j events h
  · intro g j h
    by_cases hg : g = f
    · subst hg
      rw [Function.update_self] at h
      cases h
      exact ⟨kind, hi, hf, hmay⟩
    · rw [Function.update_of_ne hg] at h
      exact hs.owner g j h
  · intro j g s hj h
    by_cases hg : g = f
    · subst hg
      exact hs.quiet j g s hj (by simp [hvacant])
    · rw [Function.update_of_ne hg] at h
      exact hs.quiet j g s hj h
  · intro j g c hj
    obtain ⟨hevents, hmask⟩ := hs.unread j g c hj
    refine ⟨hevents, fun g' events h => ?_⟩
    by_cases hg : g' = f
    · subst hg
      simp only [Function.update_self, Option.some.injEq] at h
      obtain ⟨rfl, rfl⟩ := Prod.mk.inj h
      exact hevents
    · rw [Function.update_of_ne hg] at h
      exact hmask g' events h
  · intro j hj
    have howns := (hs.queued j hj).2.1
    rwa [Function.update_of_ne (hkeep j howns)]
  · intro new hmem
    obtain ⟨hunowned, -⟩ := hs.newUnowned new hmem
    by_cases hg : d.fd new.channel = f
    · rw [hg, Function.update_self]
      exact fun heq => hnew new hmem (Option.some.inj heq).symm
    · rwa [Function.update_of_ne hg]
  · intro ready hready
    have howns := hs.dueOwned ready hready
    rwa [Function.update_of_ne (hkeep _ howns)]

/-- A channel leaves that is handled no more, and that has ended if it is a socket channel. -/
theorem Sound.leave (hs : d.Sound) (hi : d.objects i = some ⟨f, kind⟩)
    (hown : ∀ j, d.registry.channels f = some j → j = i)
    (hquiet : ∀ s, kind = .socketChannel s →
      s.state = .inactive ∧ Session.WritesNothing s.stack)
    (hqueued : .connectorChannel i ∉ d.tasks) (hdue : ∀ ready ∈ due d.phase, ready.channel ≠ i) :
    (d.leave i).Sound := by
  have hfd := fd_eq hi
  have hkeep (j : ℕ) (h : d.Owns j) (hj : j ≠ i) : d.fd j ≠ f := by
    intro heq
    rw [Owns, heq] at h
    exact hj (hown j h)
  refine hs.withRegistry ?_ ?_ ?_ ?_ ?_ ?_ ?_ <;> simp only [Registry.put, hfd]
  · intro g j events h
    by_cases hg : g = f
    · subst hg
      simp at h
    · rw [Function.update_of_ne hg] at h ⊢
      exact hs.entry g j events h
  · intro g j h
    by_cases hg : g = f
    · subst hg
      simp at h
    · rw [Function.update_of_ne hg] at h
      exact hs.owner g j h
  · intro j g s hj h
    by_cases hji : j = i
    · subst hji
      rw [hi] at hj
      cases hj
      exact hquiet s rfl
    · refine hs.quiet j g s hj fun howns => ?_
      by_cases hg : g = f
      · subst hg
        exact hji (hown j howns)
      · exact h (by rwa [Function.update_of_ne hg])
  · intro j g c hj
    obtain ⟨hevents, hmask⟩ := hs.unread j g c hj
    refine ⟨hevents, fun g' events h => ?_⟩
    by_cases hg : g' = f
    · subst hg
      simp at h
    · rw [Function.update_of_ne hg] at h
      exact hmask g' events h
  · intro j hj
    have howns := (hs.queued j hj).2.1
    rwa [Function.update_of_ne (hkeep j howns fun h => hqueued (h ▸ hj))]
  · intro new hmem
    obtain ⟨hunowned, -⟩ := hs.newUnowned new hmem
    by_cases hg : d.fd new.channel = f
    · simp [hg]
    · rwa [Function.update_of_ne hg]
  · intro ready hready
    have howns := hs.dueOwned ready hready
    rwa [Function.update_of_ne (hkeep _ howns (hdue ready hready))]

/-! ## Changes of one channel -/

theorem owns_put_of_ne (hj : j ≠ i) : (d.put i f kind).Owns j ↔ d.Owns j := by
  rw [Owns, Owns, fd_put_of_ne hj]
  rfl

theorem owns_put (h : d.fd i = f) : (d.put i f kind).Owns j ↔ d.Owns j := by
  rw [Owns, Owns, fd_put h]
  rfl

theorem Sound.numbered_put (hs : d.Sound) {channel : Channel β} (hi : d.objects i = some channel)
    (hj : d.count ≤ j) : (d.put i f kind).objects j = none := by
  have hji : j ≠ i := by
    rintro rfl
    rw [hs.numbered _ hj] at hi
    cases hi
  rw [objects_put_of_ne hji]
  exact hs.numbered j hj

/-- A socket channel changes. -/
theorem Sound.putSocket (hs : d.Sound) {s u : Socket β}
    (hi : d.objects i = some ⟨f, .socketChannel s⟩)
    (hclosing : .deregister ∈ u.stack ∨ .socketChannel i .deregister ∈ d.tasks →
      u.state = .inactive)
    (hquiet : d.registry.channels f ≠ some i →
      u.state = .inactive ∧ Session.WritesNothing u.stack)
    (hnew : ∀ new ∈ d.initializing, new.channel = i → u.state = .inactive ∧ u.stack = []) :
    (d.put i f (.socketChannel u)).Sound := by
  have hfd : (d.put i f (.socketChannel u)).fd = d.fd := fd_put (fd_eq hi)
  have howns (j : ℕ) : (d.put i f (.socketChannel u)).Owns j ↔ d.Owns j := owns_put (fd_eq hi)
  have hconnector {j : ℕ} {g : FdType} {c : ConnectorChannel} :
      (d.put i f (.socketChannel u)).objects j = some ⟨g, .connectorChannel c⟩ ↔
        d.objects j = some ⟨g, .connectorChannel c⟩ := by
    by_cases hji : j = i
    · subst hji
      simp [objects_put_self, hi]
    · rw [objects_put_of_ne hji]
  have hholds {j : ℕ} {g : FdType} (h : (d.put i f (.socketChannel u)).Holds j g) :
      d.Holds j g := by
    obtain ⟨kind, hj, hg, hover, hnone⟩ := h
    rcases objects_put_cases hj with ⟨rfl, heq⟩ | ⟨-, hj⟩
    · cases heq
      exact hs.holds_socket hi
    · exact ⟨kind, hj, hg, hover, hnone⟩
  refine { hs with
    numbered := fun j hj => hs.numbered_put hi hj
    owner := fun g j h => ?_
    unique := fun g j k hj hk => hs.unique g j k (hholds hj) (hholds hk)
    valid := fun j g v hj => ?_
    closing := fun j g v hj h => ?_
    quiet := fun j g v hj h => ?_
    scheduled := fun j g c hj => hs.scheduled j g c (hconnector.mp hj)
    unread := fun j g c hj => hs.unread j g c (hconnector.mp hj)
    deregisters := fun j hj => ?_
    queued := fun j hj => ?_
    newSocket := fun new hmem => ?_
    newUnowned := fun new hmem => ?_
    newConnector := fun new hmem c hc => ?_
    dueOwned := fun ready hready => (howns _).mpr (hs.dueOwned ready hready)
    dueWrites := fun ready hready g c hj => hs.dueWrites ready hready g c (hconnector.mp hj) }
  · obtain ⟨kind, hj, hg, hmay⟩ := hs.owner g j h
    by_cases hji : j = i
    · subst hji
      rw [hi] at hj
      cases hj
      exact ⟨_, objects_put_self, hg, trivial⟩
    · exact ⟨kind, by rwa [objects_put_of_ne hji], hg, hmay⟩
  · rcases objects_put_cases hj with ⟨rfl, heq⟩ | ⟨-, hj⟩
    · cases heq
      exact hs.valid j f s hi
    · exact hs.valid j g v hj
  · rcases objects_put_cases hj with ⟨rfl, heq⟩ | ⟨-, hj⟩
    · cases heq
      exact hclosing h
    · exact hs.closing j g v hj h
  · rcases objects_put_cases hj with ⟨rfl, heq⟩ | ⟨-, hj⟩
    · cases heq
      exact hquiet h
    · exact hs.quiet j g v hj h
  · by_cases hji : j = i
    · exact ⟨f, u, hji ▸ objects_put_self⟩
    · rw [objects_put_of_ne hji]
      exact hs.deregisters j hj
  · obtain ⟨⟨g, c, hobject⟩, hown, hrest⟩ := hs.queued j hj
    exact ⟨⟨g, c, hconnector.mpr hobject⟩, (howns j).mpr hown, hrest⟩
  · by_cases hji : new.channel = i
    · exact ⟨f, u, hji ▸ objects_put_self, hnew new hmem hji⟩
    · rw [objects_put_of_ne hji]
      exact hs.newSocket new hmem
  · obtain ⟨hunowned, htask⟩ := hs.newUnowned new hmem
    exact ⟨fun h => hunowned ((howns _).mp h), htask⟩
  · obtain ⟨k, hk, hrest⟩ := hs.newConnector new hmem c hc
    exact ⟨k, by rw [hfd]; exact hconnector.mpr hk, hrest⟩

/-- A connector changes that is not in `channels_` and has no new channel any more. -/
theorem Sound.putUnowned (hs : d.Sound) {g : FdType} {c u : ConnectorChannel}
    {rest : List NewChannel} (hrest : List.Sublist rest d.initializing)
    (hi : d.objects i = some ⟨g, .connectorChannel c⟩) (hunowned : ¬ d.Owns i)
    (hnew : ∀ new ∈ rest, new.connector ≠ some i)
    (hscheduled : u.scheduled = true → u.state = .disconnected)
    (hunique : ∀ h j k, Holds ({ d with initializing := rest }.put i f (.connectorChannel u)) j h →
      Holds ({ d with initializing := rest }.put i f (.connectorChannel u)) k h → j = k) :
    Sound ({ d with initializing := rest }.put i f (.connectorChannel u)) := by
  have hne {j : ℕ} (h : d.Owns j) : j ≠ i := by
    rintro rfl
    exact hunowned h
  have hsocket {j : ℕ} {h : FdType} {v : Socket β} :
      (put i f (.connectorChannel u) { d with initializing := rest }).objects j =
        some ⟨h, .socketChannel v⟩ ↔ d.objects j = some ⟨h, .socketChannel v⟩ := by
    by_cases hji : j = i
    · subst hji
      simp [objects_put_self, hi]
    · rw [objects_put_of_ne hji]
  refine { hs with
    numbered := fun j hj => ?_
    owner := fun h j hj => ?_
    unique := hunique
    valid := fun j h v hj => hs.valid j h v (hsocket.mp hj)
    closing := fun j h v hj => hs.closing j h v (hsocket.mp hj)
    quiet := fun j h v hj => hs.quiet j h v (hsocket.mp hj)
    scheduled := fun j h k hj => ?_
    unread := fun j h k hj => ?_
    deregisters := fun j hj => ?_
    queued := fun j hj => ?_
    newSocket := fun new hmem => ?_
    newUnowned := fun new hmem => ?_
    newConnector := fun new hmem k hk => ?_
    newOnce := hs.newOnce.sublist (hrest.map NewChannel.channel)
    dueOwned := fun ready hready => ?_
    dueWrites := fun ready hready h k hj => ?_ }
  · have hji : j ≠ i := by
      rintro rfl
      rw [hs.numbered _ hj] at hi
      cases hi
    rw [objects_put_of_ne hji]
    exact hs.numbered j hj
  · obtain ⟨kind, hobject, hkind⟩ := hs.owner h j hj
    exact ⟨kind, by rwa [objects_put_of_ne (hne (hs.owns_of_channels hj))], hkind⟩
  · rcases objects_put_cases hj with ⟨rfl, heq⟩ | ⟨-, hj⟩
    · cases heq
      exact hscheduled
    · exact hs.scheduled j h k hj
  · rcases objects_put_cases hj with ⟨rfl, -⟩ | ⟨-, hj⟩
    · exact hs.unread j g c hi
    · exact hs.unread j h k hj
  · obtain ⟨h, v, hobject⟩ := hs.deregisters j hj
    exact ⟨h, v, hsocket.mpr hobject⟩
  · obtain ⟨hobject, hown, hdue, hnone⟩ := hs.queued j hj
    rw [objects_put_of_ne (hne hown), owns_put_of_ne (hne hown)]
    exact ⟨hobject, hown, hdue, fun new hmem => hnone new (hrest.subset hmem)⟩
  · obtain ⟨h, v, hobject, hstate⟩ := hs.newSocket new (hrest.subset hmem)
    exact ⟨h, v, hsocket.mpr hobject, hstate⟩
  · obtain ⟨h, v, hobject, -⟩ := hs.newSocket new (hrest.subset hmem)
    rw [owns_put_of_ne (ne_of_kind hobject hi nofun)]
    exact hs.newUnowned new (hrest.subset hmem)
  · obtain ⟨h, v, hobject, -⟩ := hs.newSocket new (hrest.subset hmem)
    have hki : k ≠ i := by
      rintro rfl
      exact hnew new hmem hk
    rw [fd_put_of_ne (ne_of_kind hobject hi nofun), objects_put_of_ne hki]
    exact hs.newConnector new (hrest.subset hmem) k hk
  · have hown := hs.dueOwned ready hready
    rwa [owns_put_of_ne (hne hown)]
  · rw [objects_put_of_ne (hne (hs.dueOwned ready hready))] at hj
    exact hs.dueWrites ready hready h k hj

/-- A connector changes that is not in `channels_` and has no new channel. Where it has another
descriptor, no other channel closes it. -/
theorem Sound.putConnector (hs : d.Sound) {g : FdType} {c u : ConnectorChannel}
    (hi : d.objects i = some ⟨g, .connectorChannel c⟩) (hunowned : ¬ d.Owns i)
    (hnew : ∀ new ∈ d.initializing, new.connector ≠ some i)
    (hscheduled : u.scheduled = true → u.state = .disconnected)
    (hfree : ∀ j, d.Holds j f → j = i) : (d.put i f (.connectorChannel u)).Sound := by
  have hholds {j : ℕ} {h : FdType} (hj : (d.put i f (.connectorChannel u)).Holds j h) :
      (j = i ∧ h = f) ∨ d.Holds j h := by
    obtain ⟨kind, hj, hrest⟩ := hj
    rcases objects_put_cases hj with ⟨rfl, heq⟩ | ⟨-, hj⟩
    · cases heq
      exact .inl ⟨rfl, rfl⟩
    · exact .inr ⟨kind, hj, hrest⟩
  refine hs.putUnowned (List.Sublist.refl d.initializing) hi hunowned hnew hscheduled
    fun h j k hj hk => ?_
  rcases hholds hj with ⟨hji, hf⟩ | hj <;> rcases hholds hk with ⟨hki, hf'⟩ | hk
  · rw [hji, hki]
  · rw [hji, hfree k (hf ▸ hk)]
  · rw [hki, hfree j (hf' ▸ hj)]
  · exact hs.unique h j k hj hk

/-! ## New channels -/

theorem Sound.ne_count (hs : d.Sound) {channel : Channel β} (hj : d.objects j = some channel) :
    j ≠ d.count := by
  rintro rfl
  rw [hs.numbered d.count le_rfl] at hj
  cases hj

theorem Sound.ne_count_of_owns (hs : d.Sound) (h : d.Owns j) : j ≠ d.count := by
  obtain ⟨kind, hj, -⟩ := hs.owner _ j h
  exact hs.ne_count hj

theorem Sound.channels_ne_count (hs : d.Sound) (f : FdType) :
    d.registry.channels f ≠ some d.count := by
  intro h
  obtain ⟨kind, hi, -⟩ := hs.owner f _ h
  exact hs.ne_count hi rfl

/-- A channel is constructed; if it is a socket channel, perhaps for a connector, its initialization
callback runs. -/
def construct (new : Option (Option ℕ)) (f : FdType) (kind : ChannelKind β) (d : Dispatch β) :
    Dispatch β :=
  { d.create f kind with
    initializing := (new.map fun connector => ⟨connector, d.count⟩).toList ++ d.initializing }

theorem objects_construct_self {new : Option (Option ℕ)} :
    (d.construct new f kind).objects d.count = some ⟨f, kind⟩ := by
  simp [construct, Dispatch.create, put]

theorem objects_construct_of_ne {new : Option (Option ℕ)} (hj : j ≠ d.count) :
    (d.construct new f kind).objects j = d.objects j := by
  simp [construct, Dispatch.create, put, hj]

theorem fd_construct_of_ne {new : Option (Option ℕ)} (hj : j ≠ d.count) :
    (d.construct new f kind).fd j = d.fd j := by
  rw [fd, objects_construct_of_ne hj, fd]

theorem owns_construct_of_ne {new : Option (Option ℕ)} (hj : j ≠ d.count) :
    (d.construct new f kind).Owns j ↔ d.Owns j := by
  rw [Owns, Owns, fd_construct_of_ne hj]
  rfl

theorem mem_construct {new : Option (Option ℕ)} {new' : NewChannel} :
    new' ∈ (d.construct new f kind).initializing ↔
      (∃ connector, new = some connector ∧ new' = ⟨connector, d.count⟩) ∨
        new' ∈ d.initializing := by
  cases new <;> simp [construct]

/-- A channel of the result is the new one, or was there before. -/
theorem objects_construct_cases {new : Option (Option ℕ)} {channel : Channel β}
    (hj : (d.construct new f kind).objects j = some channel) :
    (j = d.count ∧ channel = ⟨f, kind⟩) ∨ (j ≠ d.count ∧ d.objects j = some channel) := by
  by_cases hji : j = d.count
  · subst hji
    rw [objects_construct_self] at hj
    exact .inl ⟨rfl, (Option.some.inj hj).symm⟩
  · rw [objects_construct_of_ne hji] at hj
    exact .inr ⟨hji, hj⟩

theorem Sound.objects_construct (hs : d.Sound) {new : Option (Option ℕ)} {channel : Channel β}
    (hj : d.objects j = some channel) : (d.construct new f kind).objects j = some channel := by
  rwa [objects_construct_of_ne (hs.ne_count hj)]

/-- No task is about a channel that is not constructed yet. -/
theorem Sound.not_deregister_count (hs : d.Sound) : .socketChannel d.count .deregister ∉ d.tasks := by
  intro htask
  obtain ⟨g, s, hobject⟩ := hs.deregisters _ htask
  exact hs.ne_count hobject rfl

/-- The new channel closes its descriptor, and its connector does so no more. -/
theorem holds_construct {new : Option (Option ℕ)} {g : FdType}
    (hj : (d.construct new f kind).Holds j g) :
    (j = d.count ∧ g = f) ∨ (d.Holds j g ∧ new ≠ some (some j)) := by
  obtain ⟨kind', hobject, hg, hover, hnone⟩ := hj
  rcases objects_construct_cases hobject with ⟨rfl, heq⟩ | ⟨-, hobject⟩
  · cases heq
    exact .inl ⟨rfl, rfl⟩
  · refine .inr ⟨⟨kind', hobject, hg, hover, fun new' hmem => ?_⟩, fun heq => ?_⟩
    · exact hnone new' (mem_construct.mpr (.inr hmem))
    · exact hnone ⟨some j, d.count⟩ (mem_construct.mpr (.inl ⟨_, heq, rfl⟩)) rfl

/-- A connector that comes with the new channel hands its descriptor over. -/
theorem Sound.construct (hs : d.Sound) (new : Option (Option ℕ))
    (hfree : ∀ j, d.Holds j f → new = some (some j))
    (hsocket : ∀ s, kind = .socketChannel s → 0 ≤ f ∧ s.state = .inactive ∧ s.stack = [])
    (hconnector : ∀ c, kind = .connectorChannel c → c.scheduled = true → c.state = .disconnected)
    (hnew : ∀ connector, new = some connector → ∃ s, kind = .socketChannel s)
    (hgives : ∀ c, new = some (some c) → .connectorChannel c ∉ d.tasks ∧
      ∃ k, d.objects c = some ⟨f, .connectorChannel k⟩ ∧ k.scheduled = false ∧
        k.state ≠ .connected ∧ (k.state = .connecting → IsCurrent d.phase c)) :
    (d.construct new f kind).Sound := by
  refine { hs with
    numbered := fun j hj => ?_
    owner := fun g j hj => ?_
    unique := fun g j k hj hk => ?_
    valid := fun j g v hj => ?_
    closing := fun j g v hj h => ?_
    quiet := fun j g v hj h => ?_
    scheduled := fun j g k hj => ?_
    unread := fun j g k hj => ?_
    deregisters := fun j hj => ?_
    queued := fun j hj => ?_
    newSocket := fun new' hmem => ?_
    newUnowned := fun new' hmem => ?_
    newConnector := fun new' hmem k hk => ?_
    newOnce := ?_
    dueOwned := fun ready hready => ?_
    dueWrites := fun ready hready g k hj => ?_ }
  · have hj' : d.count + 1 ≤ j := hj
    rw [objects_construct_of_ne (by omega)]
    exact hs.numbered j (by omega)
  · obtain ⟨kind, hobject, hrest⟩ := hs.owner g j hj
    exact ⟨kind, hs.objects_construct hobject, hrest⟩
  · rcases holds_construct hj with ⟨hji, hg⟩ | ⟨hj, hne⟩ <;> rcases holds_construct hk with ⟨hki, hg'⟩ | ⟨hk, hne'⟩
    · rw [hji, hki]
    · exact absurd (hfree k (hg ▸ hk)) hne'
    · exact absurd (hfree j (hg' ▸ hj)) hne
    · exact hs.unique g j k hj hk
  · rcases objects_construct_cases hj with ⟨-, heq⟩ | ⟨-, hj⟩
    · cases heq
      exact (hsocket v rfl).1
    · exact hs.valid j g v hj
  · rcases objects_construct_cases hj with ⟨rfl, heq⟩ | ⟨-, hj⟩
    · cases heq
      exact (hsocket v rfl).2.1
    · exact hs.closing j g v hj h
  · rcases objects_construct_cases hj with ⟨-, heq⟩ | ⟨-, hj⟩
    · cases heq
      obtain ⟨-, hstate, hstack⟩ := hsocket v rfl
      exact ⟨hstate, hstack ▸ Session.writesNothing_nil⟩
    · exact hs.quiet j g v hj h
  · rcases objects_construct_cases hj with ⟨-, heq⟩ | ⟨-, hj⟩
    · cases heq
      exact hconnector k rfl
    · exact hs.scheduled j g k hj
  · rcases objects_construct_cases hj with ⟨rfl, heq⟩ | ⟨hji, hj⟩
    · refine ⟨by simp [Dispatch.construct, Dispatch.create, Registry.setRegistered,
        Registry.setEvents, epollEvents, kNoneEvent], fun g' events h => ?_⟩
      exact absurd (hs.entry g' _ events h) (hs.channels_ne_count g')
    · obtain ⟨hevents, hmask⟩ := hs.unread j g k hj
      refine ⟨?_, hmask⟩
      simpa [Dispatch.construct, Dispatch.create, Registry.setRegistered, Registry.setEvents,
        hji] using hevents
  · obtain ⟨g, v, hobject⟩ := hs.deregisters j hj
    exact ⟨g, v, hs.objects_construct hobject⟩
  · obtain ⟨⟨g, k, hobject⟩, hown, hdue, hnone⟩ := hs.queued j hj
    have hji := hs.ne_count hobject
    refine ⟨⟨g, k, hs.objects_construct hobject⟩, (owns_construct_of_ne hji).mpr hown, hdue, fun new' hmem => ?_⟩
    rcases mem_construct.mp hmem with ⟨connector, heq, rfl⟩ | hmem
    · rintro rfl
      exact (hgives j heq).1 hj
    · exact hnone new' hmem
  · rcases mem_construct.mp hmem with ⟨connector, heq, rfl⟩ | hmem
    · obtain ⟨s, rfl⟩ := hnew connector heq
      exact ⟨f, s, objects_construct_self, (hsocket s rfl).2⟩
    · obtain ⟨g, s, hobject, hrest⟩ := hs.newSocket new' hmem
      exact ⟨g, s, hs.objects_construct hobject, hrest⟩
  · rcases mem_construct.mp hmem with ⟨connector, -, rfl⟩ | hmem
    · exact ⟨hs.channels_ne_count _, hs.not_deregister_count⟩
    · obtain ⟨g, s, hobject, -⟩ := hs.newSocket new' hmem
      rw [owns_construct_of_ne (hs.ne_count hobject)]
      exact hs.newUnowned new' hmem
  · rcases mem_construct.mp hmem with ⟨connector, heq, rfl⟩ | hmem
    · obtain ⟨-, k', hobject, hrest⟩ := hgives k (heq.trans (congrArg some hk))
      refine ⟨k', ?_, hrest⟩
      rw [fd_eq objects_construct_self]
      exact hs.objects_construct hobject
    · obtain ⟨k', hobject, hrest⟩ := hs.newConnector new' hmem k hk
      obtain ⟨g, s, hchannel, -⟩ := hs.newSocket new' hmem
      rw [fd_construct_of_ne (hs.ne_count hchannel)]
      exact ⟨k', hs.objects_construct hobject, hrest⟩
  · have hfresh : d.count ∉ d.initializing.map NewChannel.channel := by
      intro hmem
      obtain ⟨new', hmem, heq⟩ := List.mem_map.mp hmem
      obtain ⟨g, s, hobject, -⟩ := hs.newSocket new' hmem
      exact hs.ne_count hobject heq
    cases new with
    | none => exact hs.newOnce
    | some connector => exact List.nodup_cons.mpr ⟨hfresh, hs.newOnce⟩
  · have hown := hs.dueOwned ready hready
    rwa [owns_construct_of_ne (hs.ne_count_of_owns hown)]
  · rw [objects_construct_of_ne (hs.ne_count_of_owns (hs.dueOwned ready hready))] at hj
    exact hs.dueWrites ready hready g k hj

/-! ## The end of an initialization callback -/

theorem Sound.popAccepted (hs : d.Sound) {rest : List NewChannel}
    (h : d.initializing = ⟨none, i⟩ :: rest) : Sound { d with initializing := rest } := by
  have hmem {new : NewChannel} (hnew : new ∈ rest) : new ∈ d.initializing := by
    rw [h]
    exact List.mem_cons_of_mem _ hnew
  have hholds {j : ℕ} {g : FdType} (hj : Holds { d with initializing := rest } j g) :
      d.Holds j g := by
    obtain ⟨kind, hobject, hg, hover, hnone⟩ := hj
    refine ⟨kind, hobject, hg, hover, ?_⟩
    rw [h]
    exact List.forall_mem_cons.mpr ⟨nofun, hnone⟩
  have honce := hs.newOnce
  rw [h] at honce
  exact { hs with
    unique := fun g j k hj hk => hs.unique g j k (hholds hj) (hholds hk)
    queued := fun j hj =>
      have hqueued := hs.queued j hj
      ⟨hqueued.1, hqueued.2.1, hqueued.2.2.1, fun new hnew => hqueued.2.2.2 new (hmem hnew)⟩
    newSocket := fun new hnew => hs.newSocket new (hmem hnew)
    newUnowned := fun new hnew => hs.newUnowned new (hmem hnew)
    newConnector := fun new hnew => hs.newConnector new (hmem hnew)
    newOnce := (List.nodup_cons.mp honce).2 }

/-- The connector of the new channel, outside `channels_` by now, becomes `CONNECTED`. -/
theorem Sound.popConnected (hs : d.Sound) {c : ℕ} {k : ConnectorChannel} {rest : List NewChannel}
    (h : d.initializing = ⟨some c, i⟩ :: rest)
    (hc : d.objects c = some ⟨f, .connectorChannel k⟩) (hunowned : ¬ d.Owns c) :
    Sound ({ d with initializing := rest }.put c f
      (.connectorChannel { k with state := .connected })) := by
  have hhead : ⟨some c, i⟩ ∈ d.initializing := by
    rw [h]
    exact List.mem_cons_self
  have hrest : List.Sublist rest d.initializing := by
    rw [h]
    exact List.sublist_cons_self _ _
  have honce := hs.newOnce
  rw [h] at honce
  have hfresh := (List.nodup_cons.mp honce).1
  have hscheduled : k.scheduled = false := by
    obtain ⟨k', hk', hscheduled, -⟩ := hs.newConnector _ hhead c rfl
    rw [hc] at hk'
    cases hk'
    exact hscheduled
  have hholds {j : ℕ} {g : FdType}
      (hj : Holds (put c f (.connectorChannel { k with state := .connected })
        { d with initializing := rest }) j g) : d.Holds j g := by
    obtain ⟨kind, hobject, hg, hover, hnone⟩ := hj
    rcases objects_put_cases hobject with ⟨rfl, heq⟩ | ⟨hjc, hobject⟩
    · cases heq
      exact absurd rfl hover
    · refine ⟨kind, hobject, hg, hover, ?_⟩
      rw [h]
      exact List.forall_mem_cons.mpr ⟨fun heq => hjc (Option.some.inj heq).symm, hnone⟩
  -- a connector has one new channel
  have hother (new : NewChannel) (hnew : new ∈ rest) : new.connector ≠ some c := by
    intro hconnector
    obtain ⟨k₁, hk₁, -⟩ := hs.newConnector _ hhead c rfl
    obtain ⟨k₂, hk₂, -⟩ := hs.newConnector new (hrest.subset hnew) c hconnector
    obtain ⟨g₁, v₁, hv₁, -⟩ := hs.newSocket _ hhead
    obtain ⟨g₂, v₂, hv₂, -⟩ := hs.newSocket new (hrest.subset hnew)
    rw [fd_eq hv₁] at hk₁
    rw [fd_eq hv₂, hk₁] at hk₂
    cases hk₂
    have hsame := hs.unique g₁ _ _ (hs.holds_socket hv₁) (hs.holds_socket hv₂)
    exact hfresh (hsame ▸ List.mem_map_of_mem hnew)
  exact hs.putUnowned hrest hc hunowned hother
    (fun hagain => absurd (hscheduled.symm.trans hagain) Bool.false_ne_true)
    fun g j l hj hl => hs.unique g j l (hholds hj) (hholds hl)

/-! ## Destruction -/

/-- A channel goes that nothing refers to. -/
theorem Sound.erase (hs : d.Sound) (hunowned : ¬ d.Owns i)
    (htasks : ∀ task ∈ d.tasks, keeps i task = false)
    (hnew : ∀ new ∈ d.initializing, new.connector ≠ some i ∧ new.channel ≠ i) :
    Sound { d with objects := Function.update d.objects i none } := by
  have hcases {j : ℕ} {channel : Channel β}
      (hj : Function.update d.objects i none j = some channel) : d.objects j = some channel := by
    by_cases hji : j = i
    · subst hji
      simp at hj
    · rwa [Function.update_of_ne hji] at hj
  have hkeep {j : ℕ} (hji : j ≠ i) : Function.update d.objects i none j = d.objects j :=
    Function.update_of_ne hji ..
  have howns {j : ℕ} (hji : j ≠ i) :
      Owns { d with objects := Function.update d.objects i none } j ↔ d.Owns j := by
    simp [Owns, fd, hji]
  have hne {j : ℕ} (h : d.Owns j) : j ≠ i := by
    rintro rfl
    exact hunowned h
  have hholds {j : ℕ} {g : FdType}
      (hj : Holds { d with objects := Function.update d.objects i none } j g) : d.Holds j g := by
    obtain ⟨kind, hobject, hrest⟩ := hj
    exact ⟨kind, hcases hobject, hrest⟩
  refine { hs with
    numbered := fun j hj => ?_
    owner := fun g j hj => ?_
    unique := fun g j k hj hk => hs.unique g j k (hholds hj) (hholds hk)
    valid := fun j g v hj => hs.valid j g v (hcases hj)
    closing := fun j g v hj => hs.closing j g v (hcases hj)
    quiet := fun j g v hj => hs.quiet j g v (hcases hj)
    scheduled := fun j g c hj => hs.scheduled j g c (hcases hj)
    unread := fun j g c hj => hs.unread j g c (hcases hj)
    deregisters := fun j hj => ?_
    queued := fun j hj => ?_
    newSocket := fun new hmem => ?_
    newUnowned := fun new hmem => ?_
    newConnector := fun new hmem c hc => ?_
    dueOwned := fun ready hready => ?_
    dueWrites := fun ready hready g c hj => hs.dueWrites ready hready g c (hcases hj) }
  · by_cases hji : j = i
    · simp [hji]
    · exact (hkeep hji).trans (hs.numbered j hj)
  · obtain ⟨kind, hobject, hrest⟩ := hs.owner g j hj
    exact ⟨kind, (hkeep (hne (hs.owns_of_channels hj))).trans hobject, hrest⟩
  · have hji : j ≠ i := by
      rintro rfl
      simpa [keeps] using htasks _ hj
    simp only [hkeep hji]
    exact hs.deregisters j hj
  · obtain ⟨hobject, hown, hrest⟩ := hs.queued j hj
    simp only [hkeep (hne hown), howns (hne hown)]
    exact ⟨hobject, hown, hrest⟩
  · simp only [hkeep (hnew new hmem).2]
    exact hs.newSocket new hmem
  · rw [howns (hnew new hmem).2]
    exact hs.newUnowned new hmem
  · obtain ⟨k, hobject, hrest⟩ := hs.newConnector new hmem c hc
    have hci : c ≠ i := by
      rintro rfl
      exact (hnew new hmem).1 hc
    refine ⟨k, ?_, hrest⟩
    simpa [fd, hci, (hnew new hmem).2] using hobject
  · have hown := hs.dueOwned ready hready
    exact (howns (hne hown)).mpr hown

/-! ## Tasks and phases -/

theorem mem_filterMap_connectorOf {tasks : List LoopTask} :
    i ∈ tasks.filterMap connectorOf ↔ .connectorChannel i ∈ tasks := by
  constructor
  · intro h
    obtain ⟨task, htask, heq⟩ := List.mem_filterMap.mp h
    cases task with
    | socketChannel _ _ => cases heq
    | connectorChannel j =>
        obtain rfl := Option.some.inj heq
        exact htask
  · exact fun h => List.mem_filterMap.mpr ⟨_, h, rfl⟩

theorem Sound.addTasks (hs : d.Sound) {tasks : List LoopTask}
    (hdereg : ∀ i, .socketChannel i .deregister ∈ tasks →
      (∃ f s, d.objects i = some ⟨f, .socketChannel s⟩ ∧ s.state = .inactive) ∧
        ∀ new ∈ d.initializing, new.channel ≠ i)
    (hqueued : ∀ i, .connectorChannel i ∈ tasks →
      (∃ f c, d.objects i = some ⟨f, .connectorChannel c⟩) ∧ d.Owns i ∧
        (∀ ready ∈ due d.phase, ready.channel ≠ i) ∧
        (∀ new ∈ d.initializing, new.connector ≠ some i) ∧ .connectorChannel i ∉ d.tasks ∧
        ∀ tmpTasks, d.phase ≠ .runPendingTasks tmpTasks)
    (honce : (tasks.filterMap connectorOf).Nodup) :
    Sound { d with pendingTasks := d.pendingTasks ++ tasks } := by
  have hmem {task : LoopTask} :
      task ∈ Dispatch.tasks { d with pendingTasks := d.pendingTasks ++ tasks } ↔
        task ∈ d.tasks ∨ task ∈ tasks := by
    simp [Dispatch.tasks, or_assoc]
  have hfilter : (Dispatch.tasks { d with pendingTasks := d.pendingTasks ++ tasks }).filterMap
      connectorOf = d.tasks.filterMap connectorOf ++ tasks.filterMap connectorOf := by
    simp [Dispatch.tasks]
  refine { hs with
    closing := fun j g v hj h => ?_
    deregisters := fun j hj => ?_
    queued := fun j hj => ?_
    queuedOnce := ?_
    queuedInBatch := fun tmpTasks hphase j hj => ?_
    newUnowned := fun new hnew => ⟨(hs.newUnowned new hnew).1, fun hj => ?_⟩ }
  · rcases h with hstack | htask
    · exact hs.closing j g v hj (.inl hstack)
    rcases hmem.mp htask with hold | hadded
    · exact hs.closing j g v hj (.inr hold)
    · obtain ⟨⟨f, s, hobject, hstate⟩, -⟩ := hdereg j hadded
      rw [hj] at hobject
      cases hobject
      exact hstate
  · rcases hmem.mp hj with hold | hadded
    · exact hs.deregisters j hold
    · obtain ⟨⟨f, s, hobject, -⟩, -⟩ := hdereg j hadded
      exact ⟨f, s, hobject⟩
  · rcases hmem.mp hj with hold | hadded
    · exact hs.queued j hold
    · obtain ⟨hobject, hown, hdue, hnone, -⟩ := hqueued j hadded
      exact ⟨hobject, hown, hdue, hnone⟩
  · rw [hfilter]
    refine List.nodup_append.mpr ⟨hs.queuedOnce, honce, fun j hj k hk heq => ?_⟩
    obtain ⟨-, -, -, -, hfresh, -⟩ := hqueued k (mem_filterMap_connectorOf.mp hk)
    exact hfresh (heq ▸ mem_filterMap_connectorOf.mp hj)
  · rcases List.mem_append.mp hj with hold | hadded
    · exact hs.queuedInBatch tmpTasks hphase j hold
    · obtain ⟨-, -, -, -, -, hbatch⟩ := hqueued j hadded
      exact hbatch tmpTasks hphase
  · rcases hmem.mp hj with hold | hadded
    · exact (hs.newUnowned new hnew).2 hold
    · exact (hdereg _ hadded).2 new hnew rfl

/-- The loop goes on between two calls. -/
theorem Sound.advance (hs : d.Sound) {phase : RunPhase} {pendingTasks : List LoopTask}
    (hidle : d.initializing = [])
    (htasks : List.Sublist (Dispatch.tasks { d with phase, pendingTasks }) d.tasks)
    (hbatch : ∀ tmpTasks, phase = .runPendingTasks tmpTasks →
      ∀ i, .connectorChannel i ∉ pendingTasks)
    (hqueued : ∀ i, .connectorChannel i ∈ Dispatch.tasks { d with phase, pendingTasks } →
      ∀ ready ∈ due phase, ready.channel ≠ i)
    (howned : ∀ ready ∈ due phase, d.Owns ready.channel)
    (hwrites : ∀ ready ∈ due phase, ∀ f c,
      d.objects ready.channel = some ⟨f, .connectorChannel c⟩ →
        ready.readyEvents = [] ∨ ready.readyEvents = [.write])
    (honce : ((due phase).map ReadyChannel.channel).Nodup) :
    Sound { d with phase, pendingTasks } := by
  have hnone {P : NewChannel → Prop} : ∀ new ∈ d.initializing, P new := by
    rw [hidle]
    nofun
  exact { hs with
    closing := fun i f s hi h => hs.closing i f s hi (h.imp_right fun hmem => htasks.subset hmem)
    deregisters := fun i hi => hs.deregisters i (htasks.subset hi)
    queued := fun i hi =>
      have h := hs.queued i (htasks.subset hi)
      ⟨h.1, h.2.1, hqueued i hi, h.2.2.2⟩
    queuedOnce := hs.queuedOnce.sublist (htasks.filterMap connectorOf)
    queuedInBatch := hbatch
    newUnowned := hnone
    newConnector := hnone
    dueOwned := howned
    dueWrites := hwrites
    dueOnce := honce }

end Nets.Dispatch
