import Nets.Program.Dispatch
import Nets.Verification.EpollPoller.Agreement
import Nets.Verification.SocketChannel.Ended

/-! What registering and deregistering one channel of a loop does to the maps of all of them. -/

namespace Nets.Dispatch

open Library

variable {β : Type} {d : Dispatch β} {i : ℕ} {f : FdType}

theorem fd_eq {kind : ChannelKind β} (h : d.objects i = some ⟨f, kind⟩) : d.fd i = f := by
  simp [fd, h]

/-- The loop and the kernel have the channel now. -/
def enter (i : ℕ) (d : Dispatch β) : Dispatch β :=
  { d with
    registry := d.registry.put d.fd i true (some i) (some (Registry.entryOf i d.registry)) }

/-- No one has the descriptor of the channel any more. -/
def leave (i : ℕ) (d : Dispatch β) : Dispatch β :=
  { d with registry := d.registry.put d.fd i false none none }

theorem deregister_eq (i : ℕ) (d : Dispatch β) : d.deregister i = d.leave i := by
  rw [deregister, Registry.deregisterChannel_eq, leave]

theorem setRegistered_self {r : Registry ℕ} {registered : Bool}
    (h : r.isRegistered i = registered) : r.setRegistered registered i = r := by
  simp [Registry.setRegistered, ← h]

/-- When the kernel does not watch the descriptor, a registration succeeds or changes nothing but
perhaps the flag of the channel. -/
theorem registerTo_eq (epoll : Bool) (h : d.registry.interest (d.fd i) = none) :
    d.registerTo i epoll = (true, d.enter i) ∨ ∃ registered,
      d.registerTo i epoll =
        (false, { d with registry := d.registry.setRegistered registered i }) := by
  cases hregistered : d.registry.isRegistered i with
  | false =>
      cases epoll with
      | true =>
          left
          rw [registerTo, Registry.registerChannel_eq hregistered h, enter]
      | false =>
          right
          refine ⟨false, ?_⟩
          rw [setRegistered_self hregistered]
          simp [registerTo, Registry.registerChannel, EpollPoller.registerChannel,
            EpollPoller.addChannel, EpollPoller.epollCtl, Registry.epollEntry, h, hregistered]
  | true =>
      right
      by_cases hevents : d.registry.events i = kNoneEvent
      · refine ⟨false, ?_⟩
        simp [registerTo, Registry.registerChannel, EpollPoller.registerChannel,
          EpollPoller.modifyRegistered, EpollPoller.deregisterChannel, EpollPoller.epollCtl,
          Registry.epollEntry, h, hregistered, hevents, Registry.setRegistered]
      · refine ⟨true, ?_⟩
        rw [setRegistered_self hregistered]
        simp [registerTo, Registry.registerChannel, EpollPoller.registerChannel,
          EpollPoller.modifyRegistered, EpollPoller.epollCtl, Registry.epollEntry, h,
          hregistered, hevents]

/-! ## The part of the session -/

@[simp] theorem epollEvents_eventsOf (events : EpollEvents) :
    epollEvents (eventsOf events) = events := by
  rcases events with ⟨_ | _, _ | _⟩ <;> rfl

/-- What `modify` makes of the flag and the entry of a channel. -/
theorem modify_views (epoll : Bool) (u : Session β) :
    (u.modify epoll).events = u.events ∧
      ((u.modify epoll).isRegistered, (u.modify epoll).interest) =
        if u.isRegistered = true then
          if u.events ≠ kNoneEvent then
            (true, if epoll = true ∧ u.interest ≠ none then some u.events else u.interest)
          else (false, if epoll then none else u.interest)
        else if epoll = true ∧ u.interest = none then (true, some u.events)
        else (false, u.interest) := by
  obtain ⟨h₁, h₂, h₃, -⟩ := Session.assertThat_registration .modifyChannel u.inLoop u
  unfold Session.modify
  generalize u.assertThat .modifyChannel u.inLoop = v at h₁ h₂ h₃ ⊢
  rw [← h₁, ← h₂, ← h₃]
  simp only
  split
  · split
    · rw [Session.epollMod]
      split <;> simp_all
    · simp [Session.epollDel]
  · rw [Session.epollAdd]
    split <;> simp_all

/-- What `modify` does to the session of a channel is what `modifyChannel` does to the maps, as long
as the entry of the descriptor is the channel's own. -/
theorem store_modify {s : Socket β} (h : d.objects i = some ⟨f, .socketChannel s⟩)
    (hown : ∀ entry, d.registry.interest f = some entry → entry.1 = i) (epoll : Bool) :
    (d.store i f ((d.session i f s).modify epoll)).registry =
      (d.registry.modifyChannel d.fd i epoll).2 := by
  have hfd := fd_eq h
  obtain ⟨⟨events, isRegistered, channels, interest⟩, objects, count, tasks, new, phase⟩ := d
  generalize hd : Dispatch.mk _ objects count tasks new phase = d at *
  obtain ⟨hevents, hviews⟩ := modify_views epoll (d.session i f s)
  rw [Registry.modifyChannel, EpollPoller.modifyChannel]
  generalize (d.session i f s).modify epoll = u at hevents hviews ⊢
  subst hd
  simp only [session, interestOf, store] at hown hevents hviews ⊢
  rw [hevents]
  cases hregistered : isRegistered i with
  | false =>
      rcases Option.eq_none_or_eq_some (interest f) with hentry | ⟨⟨j, mask⟩, hentry⟩
      · cases epoll <;> simp_all [EpollPoller.addChannel, EpollPoller.epollCtl,
          Registry.epollEntry, Registry.setRegistered]
      · cases epoll <;> simp_all [EpollPoller.addChannel, EpollPoller.epollCtl,
          Registry.epollEntry]
  | true =>
      rcases Option.eq_none_or_eq_some (interest f) with hentry | ⟨⟨j, mask⟩, hentry⟩
      · by_cases hnone : events i = kNoneEvent <;>
        cases epoll <;> simp_all [EpollPoller.modifyRegistered, EpollPoller.deregisterChannel,
          EpollPoller.epollCtl, Registry.epollEntry, Registry.setRegistered]
      · by_cases hnone : events i = kNoneEvent <;>
        cases epoll <;> simp_all [EpollPoller.modifyRegistered, EpollPoller.deregisterChannel,
          EpollPoller.epollCtl, Registry.epollEntry, Registry.setRegistered]

/-! ## Ready events -/

theorem eventsOf_and_read {events : EpollEvents} (h : events.epollIn = false) :
    eventsOf events &&& kReadEvent = 0 := by
  rcases events with ⟨_ | _, _ | _⟩
  · decide
  · decide
  · cases h
  · cases h

theorem readyEventsOf_write {events : ℕ} (h : events &&& kReadEvent = 0) (report : Report) :
    Connection.readyEventsOf events report.input report.error report.output = [] ∨
      Connection.readyEventsOf events report.input report.error report.output = [.write] := by
  simp only [Connection.readyEventsOf, h]
  cases report.output <;> cases decide (events &&& kWriteEvent ≠ 0) <;> simp

end Nets.Dispatch
