import Nets.Program.EpollPoller

/-! # The views of registration

A channel is registered everywhere, or outside everywhere, or muted: it stays in `channels_` after
`modifyChannel` with `kNoneEvent` has taken it out of the interest list of the kernel. -/

namespace Nets.Registry

open Library

variable {χ : Type} [DecidableEq χ] {fd : χ → FdType} {r : Registry χ} {s t : History χ}
  {channel : χ}

/-! ## Single calls -/

/-- Set what the three views hold of one channel. -/
def put (fd : χ → FdType) (channel : χ) (registered : Bool) (owned : Option χ)
    (entry : Option (χ × EpollEvents)) (r : Registry χ) : Registry χ where
  events := r.events
  isRegistered := Function.update r.isRegistered channel registered
  channels := Function.update r.channels (fd channel) owned
  interest := Function.update r.interest (fd channel) entry

/-- What the kernel is told of a channel that is registered or modified now. -/
def entryOf (channel : χ) (r : Registry χ) : χ × EpollEvents :=
  (channel, epollEvents (r.events channel))

theorem registerChannel_eq (hregistered : r.isRegistered channel = false)
    (hinterest : r.interest (fd channel) = none) :
    r.registerChannel fd channel true =
      (true, r.put fd channel true (some channel) (some (entryOf channel r))) := by
  simp [registerChannel, EpollPoller.registerChannel, EpollPoller.addChannel,
    EpollPoller.epollCtl, epollEntry, hregistered, hinterest, setRegistered, put, entryOf]

theorem modifyChannel_eq_mod (hregistered : r.isRegistered channel = true)
    (hchannels : r.channels (fd channel) = some channel)
    {entry : χ × EpollEvents} (hinterest : r.interest (fd channel) = some entry)
    (hevents : r.events channel ≠ kNoneEvent) :
    r.modifyChannel fd channel true =
      (true, r.put fd channel true (some channel) (some (entryOf channel r))) := by
  simp [modifyChannel, EpollPoller.modifyChannel, EpollPoller.modifyRegistered,
    EpollPoller.epollCtl, epollEntry, hregistered, hinterest, hevents, put, entryOf,
    hchannels]

theorem modifyChannel_eq_del (hregistered : r.isRegistered channel = true)
    (hchannels : r.channels (fd channel) = some channel)
    {entry : χ × EpollEvents} (hinterest : r.interest (fd channel) = some entry)
    (hevents : r.events channel = kNoneEvent) :
    r.modifyChannel fd channel true = (true, r.put fd channel false (some channel) none) := by
  simp [modifyChannel, EpollPoller.modifyChannel, EpollPoller.modifyRegistered,
    EpollPoller.deregisterChannel, EpollPoller.epollCtl, epollEntry, hregistered, hinterest,
    hevents, setRegistered, put, hchannels]

theorem modifyChannel_eq_add (hregistered : r.isRegistered channel = false)
    (hchannels : r.channels (fd channel) = some channel)
    (hinterest : r.interest (fd channel) = none) :
    r.modifyChannel fd channel true =
      (true, r.put fd channel true (some channel) (some (entryOf channel r))) := by
  simp [modifyChannel, EpollPoller.modifyChannel, EpollPoller.addChannel, EpollPoller.epollCtl,
    epollEntry, hregistered, hinterest, setRegistered, put, entryOf, hchannels]

theorem deregisterChannel_eq :
    r.deregisterChannel fd channel true = r.put fd channel false none none := by
  rcases hinterest : r.interest (fd channel) with _ | entry <;>
    simp [deregisterChannel, EpollPoller.deregisterChannel, EpollPoller.epollCtl, epollEntry,
      hinterest, setRegistered, put]

theorem put_of_ne (hfd : Function.Injective fd) {other : χ} (hne : other ≠ channel)
    (registered : Bool) (owned : Option χ) (entry : Option (χ × EpollEvents)) :
    (r.put fd channel registered owned entry).isRegistered other = r.isRegistered other ∧
      (r.put fd channel registered owned entry).channels (fd other) = r.channels (fd other) ∧
      (r.put fd channel registered owned entry).interest (fd other) = r.interest (fd other) := by
  simp [put, hne, hfd.ne hne]

/-! ## The places of a channel -/

/-- A `modifyChannel` that found the channel registered and without events. -/
def muting : Request := ⟨true, kNoneEvent⟩

/-- Where a channel is, and its last request. -/
inductive Place (fd : χ → FdType) (s : History χ) (channel : χ) : Prop where
  | registered (request : Request) (hlast : s.lastRequest channel = some request)
      (hmuting : request ≠ muting) (hregistered : s.isRegistered channel = true)
      (hchannels : s.channels (fd channel) = some channel)
      (hinterest : s.interest (fd channel) = some (channel, epollEvents request.events))
  | muted (hlast : s.lastRequest channel = some muting)
      (hregistered : s.isRegistered channel = false)
      (hchannels : s.channels (fd channel) = some channel)
      (hinterest : s.interest (fd channel) = none)
  | outside (hregistered : s.isRegistered channel = false)
      (hchannels : s.channels (fd channel) = none)
      (hinterest : s.interest (fd channel) = none)

/-- What holds in every state: each channel has its place, and the maps have no other entries. -/
structure Placed (fd : χ → FdType) (s : History χ) : Prop where
  place : ∀ channel, Place fd s channel
  owner : ∀ f channel, s.channels f = some channel → fd channel = f
  target : ∀ f channel mask, s.interest f = some (channel, mask) → fd channel = f

omit [DecidableEq χ] in
theorem placed_empty : Placed fd (⟨empty, fun _ => none⟩ : History χ) where
  place _ := .outside rfl rfl rfl
  owner _ _ h := by cases h
  target _ _ _ h := by cases h

/-- Only the place of the channel of a call changes. -/
theorem Placed.put (hs : Placed fd s) (hfd : Function.Injective fd) {registered : Bool}
    {owned : Option χ} {entry : Option (χ × EpollEvents)} {last : χ → Option Request}
    (howned : ∀ c ∈ owned, c = channel) (hentry : ∀ e ∈ entry, e.1 = channel)
    (hlast : ∀ other, other ≠ channel → last other = s.lastRequest other)
    (hplace : Place fd ⟨s.put fd channel registered owned entry, last⟩ channel) :
    Placed fd ⟨s.put fd channel registered owned entry, last⟩ where
  place other := by
    by_cases hne : other = channel
    · exact hne ▸ hplace
    · obtain ⟨hregistered, hchannels, hinterest⟩ :=
        put_of_ne (r := s.toRegistry) hfd hne registered owned entry
      cases hs.place other with
      | registered request h hm hr hc hi =>
          exact .registered request ((hlast other hne).trans h) hm (hregistered.trans hr)
            (hchannels.trans hc) (hinterest.trans hi)
      | muted h hr hc hi =>
          exact .muted ((hlast other hne).trans h) (hregistered.trans hr) (hchannels.trans hc)
            (hinterest.trans hi)
      | outside hr hc hi =>
          exact .outside (hregistered.trans hr) (hchannels.trans hc) (hinterest.trans hi)
  owner f other h := by
    by_cases hf : f = fd channel
    · rw [hf, howned other (by simpa [Registry.put, hf] using h)]
    · exact hs.owner f other (by simpa [Registry.put, hf] using h)
  target f other mask h := by
    by_cases hf : f = fd channel
    · rw [hf, show other = channel from
        hentry (other, mask) (by simpa [Registry.put, hf] using h)]
    · exact hs.target f other mask (by simpa [Registry.put, hf] using h)

/-- The channel is registered with its events, by a request that does not mute it. -/
theorem Placed.enter (hs : Placed fd s) (hfd : Function.Injective fd)
    (hmuting : ¬ (s.isRegistered channel = true ∧ s.events channel = kNoneEvent)) :
    Placed fd
      ⟨s.put fd channel true (some channel) (some (entryOf channel s.1)), request channel s⟩ := by
  refine hs.put hfd (by simp) (by simp [entryOf]) (fun other hne => by simp [request, hne]) ?_
  refine .registered ⟨s.isRegistered channel, s.events channel⟩ (by simp [request]) ?_
    (by simp [Registry.put]) (by simp [Registry.put]) (by simp [Registry.put, entryOf])
  simpa [muting] using hmuting

theorem Placed.setEvents (hs : Placed fd s) (events : ℕ) (channel : χ) :
    Placed fd ⟨s.setEvents events channel, s.lastRequest⟩ where
  place other := by
    cases hs.place other with
    | registered request h hm hr hc hi => exact .registered request h hm hr hc hi
    | muted h hr hc hi => exact .muted h hr hc hi
    | outside hr hc hi => exact .outside hr hc hi
  owner := hs.owner
  target := hs.target

theorem Placed.registerChannel (hs : Placed fd s) (hfd : Function.Injective fd)
    (hout : s.channels (fd channel) ≠ some channel) :
    Placed fd (act fd s (.registerChannel channel true)) := by
  cases hs.place channel with
  | registered _ _ _ _ hc _ => exact absurd hc hout
  | muted _ _ hc _ => exact absurd hc hout
  | outside hr hc hi =>
      rw [act, registerChannel_eq hr hi]
      exact hs.enter hfd (by simp [hr])

theorem Placed.modifyChannel (hs : Placed fd s) (hfd : Function.Injective fd)
    (hin : s.channels (fd channel) = some channel) :
    Placed fd (act fd s (.modifyChannel channel true)) := by
  cases hs.place channel with
  | outside _ hc _ =>
      rw [hin] at hc
      cases hc
  | muted _ hr hc hi =>
      rw [act, modifyChannel_eq_add hr hc hi]
      exact hs.enter hfd (by simp [hr])
  | registered last _ _ hr hc hi =>
      by_cases hevents : s.events channel = kNoneEvent
      · rw [act, modifyChannel_eq_del hr hc hi hevents]
        refine hs.put hfd (by simp) (by simp) (fun other hne => by simp [request, hne]) ?_
        exact .muted (by simp [request, hr, hevents, muting]) (by simp [Registry.put])
          (by simp [Registry.put]) (by simp [Registry.put])
      · rw [act, modifyChannel_eq_mod hr hc hi hevents]
        exact hs.enter hfd (by simp [hevents])

theorem Placed.deregisterChannel (hs : Placed fd s) (hfd : Function.Injective fd) (channel : χ) :
    Placed fd (act fd s (.deregisterChannel channel true)) := by
  rw [act, deregisterChannel_eq]
  refine hs.put hfd (by simp) (by simp) (fun _ _ => rfl) ?_
  exact .outside (by simp [Registry.put]) (by simp [Registry.put]) (by simp [Registry.put])

theorem placed_of_reachable (hfd : Function.Injective fd)
    (hs : (system fd).ReachableUnder (InOrder fd) s) : Placed fd s := by
  refine hs.invariant ?_ ?_
  · rintro s rfl
    exact placed_empty
  · intro s action t hs hok h
    rw [← Option.some.inj h]
    cases action with
    | setEvents channel events => exact hs.setEvents events channel
    | addEvent channel event => exact hs.setEvents _ channel
    | registerChannel channel epoll =>
        obtain ⟨hout, rfl⟩ := hok
        exact hs.registerChannel hfd hout
    | modifyChannel channel epoll =>
        obtain ⟨hin, rfl⟩ := hok
        exact hs.modifyChannel hfd hin
    | deregisterChannel channel epoll =>
        obtain ⟨-, rfl⟩ := hok
        exact hs.deregisterChannel hfd channel

/-! ## The views -/

/-- The three views hold the same channels. -/
def SameViews (fd : χ → FdType) (r : Registry χ) : Prop :=
  ∀ channel, (r.channels (fd channel) = some channel ↔ r.isRegistered channel = true) ∧
    (r.isRegistered channel = true ↔ ∃ mask, r.interest (fd channel) = some (channel, mask))

/-- How the views are related: the channels with `isRegistered()` are those in the interest list,
with the events of the last request; they are in `channels_`, and what else is there was muted by
its last request. -/
structure Agree (fd : χ → FdType) (s : History χ) : Prop where
  registered_iff : ∀ channel, s.isRegistered channel = true ↔
    ∃ mask, s.interest (fd channel) = some (channel, mask)
  target : ∀ f channel mask, s.interest f = some (channel, mask) →
    fd channel = f ∧ s.channels f = some channel ∧
      ∃ request, s.lastRequest channel = some request ∧ mask = epollEvents request.events
  owner : ∀ f channel, s.channels f = some channel → fd channel = f ∧
    (s.isRegistered channel = false ↔ s.lastRequest channel = some muting)

omit [DecidableEq χ] in
theorem agree_of_placed (hs : Placed fd s) : Agree fd s where
  registered_iff channel := by
    cases hs.place channel with
    | registered request _ _ hr _ hi => simp [hr, hi]
    | muted _ hr _ hi => simp [hr, hi]
    | outside hr _ hi => simp [hr, hi]
  target f channel mask h := by
    obtain rfl := hs.target f channel mask h
    cases hs.place channel with
    | registered request hlast _ _ hc hi =>
        rw [hi] at h
        exact ⟨rfl, hc, request, hlast, by cases h; rfl⟩
    | muted _ _ _ hi => simp [hi] at h
    | outside _ _ hi => simp [hi] at h
  owner f channel h := by
    obtain rfl := hs.owner f channel h
    refine ⟨rfl, ?_⟩
    cases hs.place channel with
    | registered request hlast hmuting hr _ _ => simp [hr, hlast, hmuting]
    | muted hlast hr _ _ => simp [hr, hlast]
    | outside _ hc _ => simp [hc] at h

omit [DecidableEq χ] in
theorem sameViews_iff (hs : Placed fd s) : SameViews fd s.toRegistry ↔
    ∀ channel, s.channels (fd channel) = some channel → s.lastRequest channel ≠ some muting := by
  refine forall_congr' fun channel => ?_
  cases hs.place channel with
  | registered request hlast hmuting hr hc hi => simp [hr, hc, hi, hlast, hmuting]
  | muted hlast hr hc hi => simp [hr, hc, hlast]
  | outside hr hc hi => simp [hr, hc, hi]

/-- In every state reached by calls in order of channels with descriptors of their own; the views
are the same as long as no channel of the loop is muted. -/
theorem views_agree (hfd : Function.Injective fd)
    (hs : (system fd).ReachableUnder (InOrder fd) s) :
    Agree fd s ∧ (SameViews fd s.toRegistry ↔
      ∀ channel, s.channels (fd channel) = some channel →
        s.lastRequest channel ≠ some muting) := by
  have hplaced := placed_of_reachable hfd hs
  exact ⟨agree_of_placed hplaced, sameViews_iff hplaced⟩

/-- Two channels; the first is muted, registered again by its next request, and muted again. -/
def mutedRun : List (Action FdType) :=
  [.addEvent 0 kReadEvent, .registerChannel 0 true, .addEvent 1 kWriteEvent,
    .registerChannel 1 true, .setEvents 0 kNoneEvent, .modifyChannel 0 true,
    .modifyChannel 0 true, .modifyChannel 0 true]

theorem views_agree_two : ∃ s : History FdType,
    s.isRegistered 1 = true ∧ s.interest 1 = some (1, epollEvents kWriteEvent) ∧ Agree id s := by
  have hinitial : (system id).ReachableUnder (InOrder id) (⟨empty, fun _ => none⟩ : History FdType) :=
    .initial rfl
  obtain ⟨s, hs, hregistered, hinterest⟩ := hinitial.exists_of_runUnder _
    (P := fun s => s.isRegistered 1 = true ∧ s.interest 1 = some (1, epollEvents kWriteEvent))
    mutedRun (by decide)
  exact ⟨s, hregistered, hinterest, (views_agree Function.injective_id hs).1⟩

/-- A muted channel is in `channels_` only. -/
theorem not_sameViews : ∃ s : History FdType,
    (system id).ReachableUnder (InOrder id) s ∧ ¬ SameViews id s.toRegistry := by
  have hinitial : (system id).ReachableUnder (InOrder id) (⟨empty, fun _ => none⟩ : History FdType) :=
    .initial rfl
  obtain ⟨s, hs, hchannels, hregistered⟩ := hinitial.exists_of_runUnder _
    (P := fun s => s.channels 0 = some 0 ∧ s.isRegistered 0 = false) mutedRun (by decide)
  refine ⟨s, hs, fun hsame => ?_⟩
  have hiff := (hsame 0).1
  simp [hchannels, hregistered] at hiff

end Nets.Registry
