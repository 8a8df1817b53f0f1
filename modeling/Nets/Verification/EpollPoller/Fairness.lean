import Nets.Library.Progress
import Nets.Program.Polling
import Mathlib.Tactic.Ring

/-! # No ready channel is passed over

Each poll reports every channel once at most, with the events there are; the array grows with what is reported
and always has room; and a channel that stays ready comes to its turn, however many others do. -/

namespace Nets

open Library

/-! ## The array -/

namespace Poller

variable {χ : Type} [DecidableEq χ]

/-- What `prepareChannelReadyEvents` makes of `revents`. -/
def readyEventsOf (revents : ℕ) : ℕ :=
  (if revents &&& EPOLLIN ≠ 0 ∧ revents &&& (EPOLLERR ||| EPOLLHUP) ≠ 0 then kErrorEvent else kNoneEvent) |||
    (if revents &&& (EPOLLIN ||| EPOLLPRI ||| EPOLLRDHUP) ≠ 0 then kReadEvent else kNoneEvent) |||
    (if revents &&& EPOLLOUT ≠ 0 then kWriteEvent else kNoneEvent)

theorem prepareReadyEvent_eq (revents : ℕ) (channel : χ) (p : Poller χ) :
    p.prepareReadyEvent ⟨revents, some channel⟩ = some { p with
      activeChannels := p.activeChannels ++ [channel]
      readyEvents := Function.update p.readyEvents channel (readyEventsOf revents) } := by
  rw [prepareReadyEvent, Option.map_some, Option.some.injEq]
  dsimp only
  split_ifs <;> simp [readyEventsOf, setReadyEvents, addReadyEvent, kNoneEvent, *]

theorem prepareFrom_eq (revents : χ → ℕ) (channels : List χ) (p : Poller χ) {i : ℕ}
    (h : (channels.map fun channel => ⟨revents channel, some channel⟩) <+: p.events.drop i) :
    p.prepareFrom i channels.length = some { p with
      activeChannels := p.activeChannels ++ channels
      readyEvents := fun channel =>
        if channel ∈ channels then readyEventsOf (revents channel) else p.readyEvents channel } := by
  induction channels generalizing p i with
  | nil => simp [prepareFrom]
  | cons channel channels ih =>
      obtain ⟨rest, hrest⟩ := h
      have hget : p.events[i]? = some ⟨revents channel, some channel⟩ := by
        rw [← List.head?_drop, ← hrest]
        rfl
      have htail : (channels.map fun channel => (⟨revents channel, some channel⟩ : EpollEvent χ)) <+:
          p.events.drop (i + 1) := by
        refine ⟨rest, ?_⟩
        rw [← List.tail_drop, ← hrest]
        rfl
      rw [List.length_cons, prepareFrom, hget, Option.bind_some, prepareReadyEvent_eq, Option.bind_some]
      refine (ih { p with
        activeChannels := p.activeChannels ++ [channel]
        readyEvents := Function.update p.readyEvents channel (readyEventsOf (revents channel)) }
          htail).trans ?_
      simp only [List.append_assoc, List.singleton_append, Option.some.injEq, Poller.mk.injEq, true_and]
      funext other
      obtain rfl | hne := eq_or_ne other channel
      · simp
      · simp [hne]

theorem maxevents_eq {size : ℕ} (h : size < kMaxEpollEventSize) : maxevents size = size := by
  have hlt : size < 2 ^ 31 := h.trans (by decide)
  rw [maxevents, BitVec.toInt_eq_toNat_of_lt] <;> simp <;> omega

theorem grownSize_spec {size : ℕ} (h : kEpollEventInitialSize ≤ size) (hlt : size < kMaxEpollEventSize) :
    size ≤ grownSize size ∧ grownSize size < kMaxEpollEventSize ∧ 2 * grownSize size ≤ 3 * size := by
  have hmax : kMaxEpollEventSize = 2147483647 := rfl
  have hinitial : kEpollEventInitialSize = 12 := rfl
  have hgrown : addSize size (size >>> 1) = size + size / 2 := by
    rw [Nat.shiftRight_eq_div_pow, addSize, Nat.mod_eq_of_lt (by omega)]
  by_cases hfull : kMaxEpollEventSize ≤ size + size / 2
  · simp only [grownSize, hgrown, if_pos hfull]
    omega
  · simp only [grownSize, hgrown, if_neg hfull]
    omega

/-- A poll with the events of the given channels at the front of the array. -/
theorem poll_eq (revents : χ → ℕ) (channels : List χ) (p : Poller χ)
    (hfit : channels.length ≤ p.events.length) :
    ∃ p', { p with activeChannels := [] }.poll
        (some (channels.map fun channel => ⟨revents channel, some channel⟩)) = some p' ∧
      p'.activeChannels = channels ∧
      (∀ channel ∈ channels, p'.readyEvents channel = readyEventsOf (revents channel)) ∧
      (p'.events.length = p.events.length ∨
        p.events.length ≤ channels.length ∧ p'.events.length = grownSize p.events.length) := by
  by_cases hpos : 0 < channels.length
  · have hprepare := prepareFrom_eq (i := 0) revents channels
      ⟨(channels.map fun channel => ⟨revents channel, some channel⟩) ++ p.events.drop channels.length, [],
        p.readyEvents⟩ (List.prefix_append _ _)
    simp only [poll, List.length_map, if_pos hpos, prepareChannelReadyEvents, hprepare, Option.map_some,
      List.nil_append]
    by_cases hfull : p.events.length ≤ channels.length
    · simp only [if_pos hfull]
      refine ⟨_, rfl, rfl, fun channel hmem => if_pos hmem, .inr ⟨hfull, ?_⟩⟩
      simp only [resize, List.length_append, List.length_take, List.length_map, List.length_drop,
        List.length_replicate]
      omega
    · simp only [if_neg hfull]
      refine ⟨_, rfl, rfl, fun channel hmem => if_pos hmem, .inl ?_⟩
      simp only [List.length_append, List.length_map, List.length_drop]
      omega
  · obtain rfl : channels = [] := by simpa using hpos
    exact ⟨_, rfl, rfl, nofun, .inl rfl⟩

end Poller

/-! ## Runs -/

namespace Polling

open RoundRobin

variable {χ : Type} [DecidableEq χ] {s t : Polling χ} {channel : χ} {action : Action χ}

/-- `events_.size()`. -/
def size (s : Polling χ) : ℕ := s.poller.events.length

/-- The array has room, and is no larger than what was reported asked for. -/
structure Sound (s : Polling χ) : Prop where
  nodup : s.kernel.queue.Nodup
  initial_le : kEpollEventInitialSize ≤ s.size
  lt_max : s.size < kMaxEpollEventSize
  asked : s.size = kEpollEventInitialSize ∨ ∃ batch ∈ s.batches, 2 * s.size ≤ 3 * batch.length

omit [DecidableEq χ] in
theorem sound_create : Sound (create : Polling χ) where
  nodup := List.nodup_nil
  initial_le := (List.length_replicate ..).ge
  lt_max := (List.length_replicate ..).trans_lt (by decide)
  asked := .inl (List.length_replicate ..)

/-- The channels a poll reports. -/
def reported (s : Polling χ) : List χ := served s.kernel.isReady s.size s.kernel.queue

/-- A poll hands over what is reported, and the array grows where it was full. -/
theorem Sound.poll (hs : s.Sound) :
    ∃ t, s.step .poll = some t ∧ t.Sound ∧ s.size ≤ t.size ∧
      t.kernel = { s.kernel with queue := next s.kernel.isReady s.size s.kernel.queue } ∧
      t.batches = s.batches ++
        [s.reported.map fun channel => (channel, Poller.readyEventsOf (s.kernel.revents channel))] := by
  have hpos : 0 < s.size := (show 0 < kEpollEventInitialSize by decide).trans_le hs.initial_le
  have hmax : Poller.maxevents s.poller.events.length = s.size := Poller.maxevents_eq hs.lt_max
  have hroom : ¬ ((s.size : ℤ) ≤ 0) := by omega
  have hfit : s.reported.length ≤ s.size := length_served_le
  obtain ⟨poller, hpoll, hactive, hready, hlength⟩ := Poller.poll_eq s.kernel.revents s.reported
    s.poller hfit
  have hsize : s.size ≤ poller.events.length ∧ poller.events.length < kMaxEpollEventSize ∧
      (poller.events.length = s.size ∨ 2 * poller.events.length ≤ 3 * s.reported.length) := by
    obtain hsame | ⟨hfull, hgrown⟩ := hlength
    · rw [hsame]
      exact ⟨le_rfl, hs.lt_max, .inl rfl⟩
    · obtain ⟨hle, hlt, hasked⟩ := Poller.grownSize_spec hs.initial_le hs.lt_max
      rw [hgrown]
      exact ⟨hle, hlt, .inr (hasked.trans (Nat.mul_le_mul_left 3 hfull))⟩
  have hbatch : (poller.activeChannels.map fun channel => (channel, poller.readyEvents channel)) =
      s.reported.map fun channel => (channel, Poller.readyEventsOf (s.kernel.revents channel)) := by
    rw [hactive]
    refine List.map_congr_left fun channel hmem => ?_
    rw [hready channel hmem]
  refine ⟨⟨poller, { s.kernel with queue := next s.kernel.isReady s.size s.kernel.queue },
    s.batches ++ [s.reported.map fun channel =>
      (channel, Poller.readyEventsOf (s.kernel.revents channel))]⟩, ?_, ?_, ?_, rfl, rfl⟩
  · simp only [step, hmax, ReadyList.epollWait, if_neg hroom, handle, Int.toNat_natCast]
    rw [show served s.kernel.isReady s.size s.kernel.queue = s.reported from rfl, hpoll,
      Option.map_some, hbatch]
  · refine ⟨nodup_next hs.nodup, hs.initial_le.trans hsize.1, hsize.2.1, ?_⟩
    obtain hsame | hasked := hsize.2.2
    · obtain hinitial | ⟨batch, hbatch, hasked⟩ := hs.asked
      · exact .inl (hsame.trans hinitial)
      · exact .inr ⟨batch, List.mem_append_left _ hbatch, hsame.symm ▸ hasked⟩
    · exact .inr ⟨_, List.mem_append_right _ (List.mem_singleton_self _), by rwa [List.length_map]⟩
  · exact hsize.1

theorem Sound.fail (hs : s.Sound) : ∃ t, s.step .fail = some t ∧ t.Sound ∧ s.size ≤ t.size ∧
    t.kernel = s.kernel ∧ t.batches = s.batches ++ [[]] :=
  ⟨_, rfl, ⟨hs.nodup, hs.initial_le, hs.lt_max,
    hs.asked.imp_right fun ⟨batch, hbatch, hasked⟩ => ⟨batch, List.mem_append_left _ hbatch, hasked⟩⟩,
      le_rfl, rfl, rfl⟩

theorem Sound.step (hs : s.Sound) (h : s.step action = some t) :
    t.Sound ∧ s.size ≤ t.size ∧ s.batches <+: t.batches := by
  cases action with
  | report channel revents =>
      obtain rfl := Option.some.inj h
      refine ⟨⟨?_, hs.initial_le, hs.lt_max, hs.asked⟩, le_rfl, List.prefix_rfl⟩
      dsimp only
      split
      · exact hs.nodup
      · exact nodup_join hs.nodup
  | remove channel =>
      obtain rfl := Option.some.inj h
      exact ⟨⟨hs.nodup.erase channel, hs.initial_le, hs.lt_max, hs.asked⟩, le_rfl, List.prefix_rfl⟩
  | poll =>
      obtain ⟨u, hu, hsound, hsize, -, hbatches⟩ := hs.poll
      obtain rfl := Option.some.inj (h.symm.trans hu)
      exact ⟨hsound, hsize, hbatches ▸ List.prefix_append _ _⟩
  | fail =>
      obtain ⟨u, hu, hsound, hsize, -, hbatches⟩ := hs.fail
      obtain rfl := Option.some.inj (h.symm.trans hu)
      exact ⟨hsound, hsize, hbatches ▸ List.prefix_append _ _⟩

theorem sound_of_reachable (hs : system.Reachable s) : s.Sound := by
  refine hs.invariant ?_ fun _ _ _ h hstep => (h.step hstep).1
  rintro s rfl
  exact sound_create

/-- In every run the array has room for an event at least and one and a half times as many as were ever
reported together at most, or its first size; and a poll always succeeds, and reports no channel twice, only
channels with something to report, each with its own ready events, and all of them where there is room. -/
theorem poll_reports_ready (hs : system.Reachable s) :
    (kEpollEventInitialSize ≤ s.size ∧ s.size < kMaxEpollEventSize ∧
      (s.size = kEpollEventInitialSize ∨ ∃ batch ∈ s.batches, 2 * s.size ≤ 3 * batch.length)) ∧
    ∃ t batch, s.step .poll = some t ∧ t.batches = s.batches ++ [batch] ∧ (batch.map Prod.fst).Nodup ∧
      (∀ channel events, (channel, events) ∈ batch → channel ∈ s.kernel.queue ∧
        s.kernel.revents channel ≠ 0 ∧ events = Poller.readyEventsOf (s.kernel.revents channel)) ∧
      (batch.length < s.size → ∀ channel ∈ s.kernel.queue, s.kernel.revents channel ≠ 0 →
        channel ∈ batch.map Prod.fst) := by
  have hsound := sound_of_reachable hs
  obtain ⟨t, ht, -, -, -, hbatches⟩ := hsound.poll
  have hchannels : (s.reported.map fun channel =>
      (channel, Poller.readyEventsOf (s.kernel.revents channel))).map Prod.fst = s.reported := by
    simp [Function.comp_def]
  refine ⟨⟨hsound.initial_le, hsound.lt_max, hsound.asked⟩, t, _, ht, hbatches, ?_, ?_, ?_⟩
  · rw [hchannels]
    exact nodup_served hsound.nodup
  · intro channel events hmem
    obtain ⟨reported, hreported, heq⟩ := List.mem_map.mp hmem
    obtain ⟨rfl, rfl⟩ := Prod.mk.inj heq
    refine ⟨?_, by simpa [ReadyList.isReady] using ready_of_mem_served hreported, rfl⟩
    exact ((List.sublist_append_left _ _).trans (scan_sublist _ _ _)).subset hreported
  · intro hroom channel hmem hready
    rw [hchannels]
    rw [List.length_map] at hroom
    exact mem_served_of_room hmem (by simpa [ReadyList.isReady] using hready) hroom

/-- Thirteen channels have something to read, and the first poll has reported twelve of them. -/
theorem poll_reports_ready_thirteen :
    ∃ s : Polling ℕ, s.size = 18 ∧ ∃ t batch, s.step .poll = some t ∧ t.batches = s.batches ++ [batch] ∧
      (batch.map Prod.fst).Nodup := by
  let actions : List (Action ℕ) := (List.range 13).map (fun channel => .report channel EPOLLIN) ++ [.poll]
  have hrun : (system.run create actions).any (fun s => decide (s.size = 18)) = true := by
    decide +kernel
  obtain ⟨s, hs, hsize⟩ := (Option.any_eq_true ..).mp hrun
  obtain ⟨-, t, batch, ht, hbatches, hnodup, -⟩ := poll_reports_ready (System.Reachable.run _ (.initial rfl) hs)
  exact ⟨s, of_decide_eq_true hsize, t, batch, ht, hbatches, hnodup⟩

/-! ## Fairness -/

/-- The channel is not taken out of the interest list and has something to report. -/
def KeepsReady (channel : χ) : Action χ → Prop
  | .report other revents => other = channel → revents ≠ 0
  | .remove other => other ≠ channel
  | .poll | .fail => True

def isPoll : Action χ → Bool
  | .poll => true
  | _ => false

/-- The channel waits for its turn, after `done` batches and with room for `room` events in a poll. -/
structure Waits (channel : χ) (done room : ℕ) (s : Polling χ) : Prop where
  sound : s.Sound
  queued : channel ∈ s.kernel.queue
  ready : s.kernel.revents channel ≠ 0
  done_le : done ≤ s.batches.length
  room_le : room ≤ s.size

def HandledAfter (channel : χ) (done : ℕ) (s : Polling χ) : Prop :=
  ∃ batch ∈ s.batches.drop done, channel ∈ batch.map Prod.fst

variable {done room : ℕ}

theorem prefix_of_handle {answer : Option (List (EpollEvent χ))} {kernel : ReadyList χ}
    (h : s.handle answer kernel = some t) : s.batches <+: t.batches := by
  obtain ⟨poller, -, rfl⟩ := Option.map_eq_some_iff.mp h
  exact List.prefix_append _ _

theorem HandledAfter.step (h : HandledAfter channel done s) (hs : s.step action = some t) :
    HandledAfter channel done t := by
  obtain ⟨batch, hbatch, hmem⟩ := h
  have hprefix : s.batches <+: t.batches := by
    cases action with
    | report => exact Option.some.inj hs ▸ List.prefix_rfl
    | remove => exact Option.some.inj hs ▸ List.prefix_rfl
    | poll => exact prefix_of_handle hs
    | fail => exact prefix_of_handle hs
  obtain ⟨more, hmore⟩ := hprefix
  refine ⟨batch, ?_, hmem⟩
  rw [← hmore, List.drop_append]
  exact List.mem_append_left _ hbatch

/-- A step does not take the channel further from the front, and a poll brings it closer or reports it. -/
theorem Waits.step (hs : Waits channel done room s) (hkeeps : KeepsReady channel action)
    (h : s.step action = some t) :
    HandledAfter channel done t ∨ Waits channel done room t ∧
      t.kernel.queue.idxOf channel + (if isPoll action then room else 0) ≤ s.kernel.queue.idxOf channel := by
  obtain ⟨hsound, hsize, hbatches⟩ := hs.sound.step h
  have hdone : done ≤ t.batches.length := hs.done_le.trans hbatches.length_le
  have hroom : room ≤ t.size := hs.room_le.trans hsize
  cases action with
  | report other revents =>
      obtain rfl := Option.some.inj h
      right
      refine ⟨⟨hsound, ?_, ?_, hdone, hroom⟩, ?_⟩
      · dsimp only
        split
        · exact hs.queued
        · exact mem_join.mpr (.inr hs.queued)
      · dsimp only
        obtain rfl | hne := eq_or_ne channel other
        · rw [Function.update_self]
          exact hkeeps rfl
        · rw [Function.update_of_ne hne]
          exact hs.ready
      · dsimp only
        split
        · exact le_rfl
        · exact (idxOf_join hs.queued).le
  | remove other =>
      obtain rfl := Option.some.inj h
      have hne : channel ≠ other := Ne.symm hkeeps
      right
      refine ⟨⟨hsound, (List.mem_erase_of_ne hne).mpr hs.queued, ?_, hdone, hroom⟩, idxOf_erase_le hkeeps⟩
      dsimp only
      rw [Function.update_of_ne hne]
      exact hs.ready
  | poll =>
      obtain ⟨u, hu, -, -, hkernel, hbatch⟩ := hs.sound.poll
      obtain rfl := Option.some.inj (h.symm.trans hu)
      have hready : s.kernel.isReady channel = true := by simpa [ReadyList.isReady] using hs.ready
      obtain hserved | ⟨hmem, hcloser⟩ := served_or_closer (n := s.size) hs.queued hready
      · left
        have hreported : channel ∈ (s.reported.map fun channel =>
            (channel, Poller.readyEventsOf (s.kernel.revents channel))).map Prod.fst :=
          List.mem_map.mpr ⟨(channel, _), List.mem_map_of_mem hserved, rfl⟩
        refine ⟨_, ?_, hreported⟩
        rw [hbatch, List.drop_append_of_le_length hs.done_le]
        exact List.mem_append_right _ (List.mem_singleton_self _)
      · right
        refine ⟨⟨hsound, ?_, ?_, hdone, hroom⟩, ?_⟩
        · rw [hkernel]
          exact hmem
        · rw [hkernel]
          exact hs.ready
        · rw [hkernel]
          exact (Nat.add_le_add_left hs.room_le _).trans hcloser
  | fail =>
      obtain ⟨u, hu, -, -, hkernel, -⟩ := hs.sound.fail
      obtain rfl := Option.some.inj (h.symm.trans hu)
      right
      exact ⟨⟨hsound, hkernel ▸ hs.queued, hkernel ▸ hs.ready, hdone, hroom⟩, by rw [hkernel]; exact le_rfl⟩

/-- No channel starves: one that stays ready has been handled before as many polls as have room for all those
that were in front of it, whatever becomes ready meanwhile and however often. -/
theorem ready_channel_handled {actions : List (Action χ)} (hs : system.Reachable s)
    (hqueued : channel ∈ s.kernel.queue) (hready : s.kernel.revents channel ≠ 0)
    (hkeeps : ∀ a ∈ actions, KeepsReady channel a) (hrun : system.run s actions = some t)
    (hpolls : s.kernel.queue.idxOf channel < actions.countP isPoll * s.size) :
    ∃ batch ∈ t.batches.drop s.batches.length, channel ∈ batch.map Prod.fst := by
  have hgain : (actions.map fun a => if isPoll a then s.size else 0).sum = actions.countP isPoll * s.size := by
    clear hkeeps hrun hpolls
    induction actions with
    | nil => simp
    | cons a rest ih =>
        rw [List.map_cons, List.sum_cons, List.countP_cons, ih]
        split <;> ring
  refine System.run_reaches (S := system) (KeepsReady channel)
    (Waits channel s.batches.length s.size) (HandledAfter channel s.batches.length)
    (fun t => t.kernel.queue.idxOf channel) (fun a => if isPoll a then s.size else 0)
    (fun _ _ _ h hstep => h.step hstep) (fun _ _ _ h hok hstep => h.step hok hstep) ?_ hkeeps hrun
    (hgain ▸ hpolls)
  exact ⟨sound_of_reachable hs, hqueued, hready, le_rfl, le_rfl⟩

/-- The thirteenth channel is handled after two polls, one more of which is interrupted. -/
theorem ready_channel_handled_thirteenth :
    ∃ s t : Polling ℕ, s.kernel.queue.idxOf 12 = 12 ∧ s.size = 12 ∧
      ∃ batch ∈ t.batches.drop s.batches.length, 12 ∈ batch.map Prod.fst := by
  let reports : List (Action ℕ) := (List.range 13).map fun channel => .report channel EPOLLIN
  let polls : List (Action ℕ) := [.poll, .fail, .report 3 EPOLLOUT, .poll]
  have hrun : (system.run create reports).any (fun s =>
      decide (12 ∈ s.kernel.queue ∧ s.kernel.revents 12 ≠ 0 ∧ s.kernel.queue.idxOf 12 = 12 ∧ s.size = 12) &&
        (system.run s polls).isSome) = true := by
    decide +kernel
  obtain ⟨s, hs, hboth⟩ := (Option.any_eq_true ..).mp hrun
  obtain ⟨hwaits, hsome⟩ := (Bool.and_eq_true ..).mp hboth
  obtain ⟨hqueued, hready, hposition, hsize⟩ := of_decide_eq_true hwaits
  obtain ⟨t, ht⟩ := Option.isSome_iff_exists.mp hsome
  have hkeeps : ∀ a ∈ polls, KeepsReady 12 a := by
    simp [polls, KeepsReady]
  have hpolls : s.kernel.queue.idxOf 12 < polls.countP isPoll * s.size := by
    rw [hposition, hsize]
    decide
  exact ⟨s, t, hposition, hsize,
    ready_channel_handled (System.Reachable.run _ (.initial rfl) hs) hqueued hready hkeeps ht hpolls⟩

end Polling

end Nets
