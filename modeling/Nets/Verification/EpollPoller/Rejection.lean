import Nets.Program.Registration

/-! # Rejected registrations

The poller never changes `channels_`. So after it has refused a channel the second assertion of
`registerChannel` asks for the entry whose absence the first one has checked, and no call with
assertions returns false. -/

namespace Nets.Registry

variable {χ σ : Type} [DecidableEq χ] {fd : χ → FdType} {r s : Registry χ} {channel : χ}
  {epoll : Bool}

/-- The kernel rejects `EPOLL_CTL_ADD` for a channel whose descriptor is not in `channels_`. -/
structure Rejected (fd : χ → FdType) (channel : χ) (epoll : Bool) (r : Registry χ) : Prop where
  isAbsent : r.channels (fd channel) = none
  isRegistered : r.isRegistered channel = false
  epollCtl : (EpollPoller.epollCtl fd .add channel epoll r).1 = false

/-- `registerChannel` returns false and changes nothing, and its callers go on to handle
`ChannelRegisterException` in the state they were in. -/
structure Reported (fd : χ → FdType) (channel : χ) (epoll : Bool) (r : Registry χ) : Prop where
  registerChannel : ∃ s, registerChannelAsserting fd channel epoll r = .ok (false, s) ∧
    s.channels = r.channels ∧ s.isRegistered channel = r.isRegistered channel
  channelActive : ∃ s, channelActive fd channel epoll .inactive r = .ok (.inactive, s)
  waitConnect : ∃ s, waitConnect fd channel epoll .disconnected r = .ok (.disconnected, s)

/-! ## The poller -/

omit [DecidableEq χ] in
theorem epollCtl_channels (opt : EpollOpt) :
    (EpollPoller.epollCtl fd opt channel epoll r).2.channels = r.channels := by
  simp only [EpollPoller.epollCtl]
  cases epollEntry opt (channel, epollEvents (r.events channel)) (r.interest (fd channel)) with
  | none => rfl
  | some entry => cases epoll <;> rfl

omit [DecidableEq χ] in
theorem epollCtl_of_false {opt : EpollOpt}
    (h : (EpollPoller.epollCtl fd opt channel epoll r).1 = false) :
    EpollPoller.epollCtl fd opt channel epoll r = (false, r) := by
  simp only [EpollPoller.epollCtl] at h ⊢
  cases hentry : epollEntry opt (channel, epollEvents (r.events channel))
      (r.interest (fd channel)) with
  | none => rfl
  | some entry =>
      rw [hentry] at h
      cases epoll with
      | false => rfl
      | true => cases h

/-- The events of the channel do not decide what the kernel does. -/
theorem epollCtl_addEvent (opt : EpollOpt) (event : ℕ) :
    (EpollPoller.epollCtl fd opt channel epoll (r.addEvent event channel)).1 =
      (EpollPoller.epollCtl fd opt channel epoll r).1 := by
  change (EpollPoller.epollCtl fd opt channel epoll
    { r with events := (r.addEvent event channel).events }).1 = _
  simp only [EpollPoller.epollCtl]
  cases opt <;> cases r.interest (fd channel) <;> cases epoll <;> rfl

theorem addChannel_channels :
    (EpollPoller.addChannel fd channel epoll r).2.channels = r.channels := by
  have hkept : (EpollPoller.epollCtl fd .add channel epoll r).2.channels = r.channels :=
    epollCtl_channels .add
  rcases hadd : EpollPoller.epollCtl fd .add channel epoll r with ⟨_ | _, s⟩
  · rw [hadd] at hkept
    simpa only [EpollPoller.addChannel, hadd] using hkept
  · rw [hadd] at hkept
    simpa only [EpollPoller.addChannel, hadd, setRegistered] using hkept

theorem modifyRegistered_channels :
    (EpollPoller.modifyRegistered fd channel epoll r).2.channels = r.channels := by
  rw [EpollPoller.modifyRegistered]
  split
  · exact epollCtl_channels .mod
  · exact epollCtl_channels .del

theorem pollerRegisterChannel_channels :
    (EpollPoller.registerChannel fd channel epoll r).2.channels = r.channels := by
  rw [EpollPoller.registerChannel]
  split
  · exact addChannel_channels
  · exact modifyRegistered_channels

/-! ## The loop -/

/-- A call with assertions returns only for a new descriptor that the poller has accepted. -/
theorem registerChannelAsserting_eq_ok_iff {registered : Bool} :
    registerChannelAsserting fd channel epoll r = .ok (registered, s) ↔
      r.channels (fd channel) = none ∧ registered = true ∧
        r.registerChannel fd channel epoll = (true, s) := by
  have hkept : (EpollPoller.registerChannel fd channel epoll r).2.channels = r.channels :=
    pollerRegisterChannel_channels
  cases hchannels : r.channels (fd channel) with
  | some other => simp [registerChannelAsserting, hchannels]
  | none =>
      rcases hpoller : EpollPoller.registerChannel fd channel epoll r with ⟨_ | _, t⟩
      · -- the poller has refused, and the descriptor is still not there
        have hnone : t.channels (fd channel) = none := by
          rw [hpoller] at hkept
          rw [← hchannels]
          exact congrFun hkept (fd channel)
        simp [registerChannelAsserting, Registry.registerChannel, hchannels, hpoller, hnone]
      · simp [registerChannelAsserting, Registry.registerChannel, hchannels, hpoller,
          @eq_comm _ true registered]

theorem Rejected.pollerRegisterChannel_eq (h : Rejected fd channel epoll r) :
    EpollPoller.registerChannel fd channel epoll r = (false, r) := by
  simp [EpollPoller.registerChannel, h.isRegistered, EpollPoller.addChannel,
    epollCtl_of_false h.epollCtl]

/-- What a rejected registration returns and leaves where assertions are compiled out. -/
theorem Rejected.registerChannel_eq (h : Rejected fd channel epoll r) :
    r.registerChannel fd channel epoll = (false, r) := by
  rw [Registry.registerChannel, h.pollerRegisterChannel_eq]

theorem Rejected.registerChannelAsserting_eq (h : Rejected fd channel epoll r) :
    registerChannelAsserting fd channel epoll r = .error .isPresent := by
  simp [registerChannelAsserting, h.pollerRegisterChannel_eq, h.isAbsent]

theorem Rejected.addEvent (h : Rejected fd channel epoll r) (event : ℕ) :
    Rejected fd channel epoll (r.addEvent event channel) where
  isAbsent := h.isAbsent
  isRegistered := h.isRegistered
  epollCtl := (epollCtl_addEvent .add event).trans h.epollCtl

/-- Neither caller gets as far as its `catch`. -/
theorem Rejected.activate_eq (h : Rejected fd channel epoll r) (event : ℕ) (registered state : σ) :
    activate fd event registered channel epoll state r = .error .isPresent := by
  rw [activate, (h.addEvent event).registerChannelAsserting_eq]

/-- A rejected registration ends the program, in `registerChannel` and so in both callers. -/
theorem not_reported_of_rejected (h : Rejected fd channel epoll r) :
    ¬ Reported fd channel epoll r ∧
      registerChannelAsserting fd channel epoll r = .error .isPresent ∧
      (∀ state, channelActive fd channel epoll state r = .error .isPresent) ∧
      ∀ state, waitConnect fd channel epoll state r = .error .isPresent := by
  refine ⟨fun hreported => ?_, h.registerChannelAsserting_eq,
    h.activate_eq kReadEvent _, h.activate_eq kWriteEvent _⟩
  obtain ⟨s, hreturns, -⟩ := hreported.registerChannel
  cases h.registerChannelAsserting_eq.symm.trans hreturns

/-- A new channel and a kernel out of memory. -/
theorem rejected_new : Rejected (fun _ => 4) () false (empty : Registry Unit) := ⟨rfl, rfl, rfl⟩

theorem not_reported_of_rejected_new : ¬ Reported (fun _ => 4) () false (empty : Registry Unit) :=
  (not_reported_of_rejected rejected_new).1

/-- With assertions, no registration is ever reported as failed. -/
theorem not_reported_new :
    Rejected (fun _ => 4) () false (empty : Registry Unit) ∧
      ¬ Reported (fun _ => 4) () false (empty : Registry Unit) := by
  refine ⟨rejected_new, fun hreported => ?_⟩
  obtain ⟨s, hreturns, -⟩ := hreported.registerChannel
  cases (registerChannelAsserting_eq_ok_iff.mp hreturns).2.1

end Nets.Registry
