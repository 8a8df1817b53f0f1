import Nets.Verification.SocketChannel.Sending

/-! # Write-complete callbacks

A callback is queued once, in the order of the write calls, and after every byte of its message
has been accepted. -/

namespace Nets.Session

open Library

variable {α β : Type}

/-! ## Dropping what is pending -/

theorem Output.Sound.discard {o : Output β} (ho : o.Sound) (hwaiting : o.waiting = []) :
    Output.Sound { o with pending := [] } := by
  refine ⟨ho.truthful, ho.ordered, ho.numbered, fun n hn => ?_⟩
  rw [hwaiting] at hn
  cases hn

/-- What orderly runs keep: the callbacks of a live channel are sound, and the trace of a dead
one stays truthful. -/
def Tells (s : Session β) : Prop := (s.Dead ∧ Truthful s.log) ∨ s.Live ∧ s.output.Sound

theorem Tells.truthful {s : Session β} (h : s.Tells) : Truthful s.log := by
  rcases h with ⟨-, h⟩ | ⟨-, h⟩
  · exact h
  · exact h.truthful

theorem tells_of_outcome {s t : Session β} (hs : s.output.Sound) (h : Outcome s t) :
    t.Tells := by
  rcases h with ⟨hlive, hsteps⟩ | ⟨hdead, o, hsteps, hlog⟩
  · exact .inr ⟨hlive, hs.of_steps hsteps⟩
  · exact .inl ⟨hdead, hlog ▸ (hs.of_steps hsteps).truthful⟩

section

variable [Inhabited β] {label : ℕ → List α → List β}

theorem tells_shutdownWrite {s t : Session β} (hs : s.Live) (hsound : s.output.Sound)
    (hok : s.Orderly (.shutdownWrite : Action α β))
    (h : (system label).step s .shutdownWrite = some t) : t.Tells := by
  obtain ⟨hlive, houtput⟩ := live_shutdownWrite hs hok.2
  have hresume : s.shutdownWrite.resume = some t := h
  rw [resume, unwind_handlers hlive.handlers] at hresume
  obtain rfl := Option.some.inj hresume
  refine .inr ⟨hlive, ?_⟩
  have hnote : Output.Step { s.output with pending := [] } s.shutdownWrite.output := by
    rw [houtput]
    exact .note rfl
  exact hnote.sound (hsound.discard hok.2)

theorem tells_step {s t : Session β} {action : Action α β} (hs : s.Tells)
    (hok : s.Orderly action) (h : (system label).step s action = some t) : t.Tells := by
  rcases hs with ⟨hdead, htruthful⟩ | ⟨hlive, hsound⟩
  · obtain ⟨hdead', events, hevents, hlog⟩ := dead_step hdead hok h
    exact .inl ⟨hdead', hlog ▸ truthful_append htruthful hevents⟩
  · by_cases hwrite : action = .shutdownWrite
    · subst hwrite
      exact tells_shutdownWrite hlive hsound hok h
    · exact tells_of_outcome hsound (live_step hlive hok hwrite h)

omit [Inhabited β] in
theorem sound_channelActive : (fresh.channelActive : Session β).output.Sound := by
  refine ⟨truthful_append truthful_nil rfl, List.Pairwise.nil, ?_, ?_⟩
  · exact fun n hn => absurd hn List.not_mem_nil
  · exact fun n hn => absurd hn List.not_mem_nil

theorem tells_of_reachable {s : Session β} (hs : (system label).ReachableUnder Orderly s) :
    s.Tells := by
  refine System.ReachableUnder.invariant ?_ (fun _ _ _ h hok => tells_step h hok) hs
  rintro s rfl
  exact .inr ⟨live_channelActive, sound_channelActive⟩

end

/-! ## Bytes with their origin

The channel never looks at the bytes it sends, so each byte can carry the number of its write
call and its position in the message. -/

/-- The bytes of the `n`-th message, each with its origin. -/
def stamp (n : ℕ) (data : List UInt8) : List (UInt8 × ℕ × ℕ) :=
  data.zipIdx.map fun (byte, i) => (byte, n, i)

/-- In orderly runs a callback is queued at most once, in the order of the write calls, and after
every byte of its own message has been accepted. -/
theorem stamped_callbacks_truthful {s : Session (UInt8 × ℕ × ℕ)}
    (hs : (system stamp).ReachableUnder Orderly s) : Truthful s.log :=
  (tells_of_reachable hs).truthful

/-- A message of one byte that the kernel takes at the second attempt. -/
theorem stamped_callbacks_truthful_retry :
    ∃ s, (system stamp).run fresh.channelActive [.handlerReturns,
        .write [7] true (.failed EAGAIN) default true, .handleWriteEvent [.accepted 1] true] =
          some s ∧ Truthful s.log := by
  obtain ⟨s, hrun⟩ : ∃ s, (system stamp).run fresh.channelActive [.handlerReturns,
      .write [7] true (.failed EAGAIN) default true, .handleWriteEvent [.accepted 1] true] =
        some s := ⟨_, rfl⟩
  refine ⟨s, hrun, stamped_callbacks_truthful
    (System.ReachableUnder.run _ (.initial rfl) ?_ hrun)⟩
  exact List.forall_mem_cons.mpr ⟨fun _ => trivial, List.forall_mem_cons.mpr ⟨fun _ => trivial,
    List.forall_mem_singleton.mpr fun _ => contiguous_singleton _ _⟩⟩

/-- `shutdownWrite` drops a message, and the next write event queues its callback. -/
theorem not_stamped_callbacks_truthful :
    ¬ ∀ s, (system stamp).Reachable s → Truthful s.log := by
  intro h
  obtain ⟨s, hrun⟩ : ∃ s, (system stamp).run fresh.channelActive [.handlerReturns,
      .write [7] true (.failed EAGAIN) default true, .shutdownWrite, .handleWriteEvent [] true] =
        some s := ⟨_, rfl⟩
  have hlog : ((system stamp).run fresh.channelActive [.handlerReturns,
      .write [7] true (.failed EAGAIN) default true, .shutdownWrite,
      .handleWriteEvent [] true]).map (fun s => s.log) =
        some ([.connect, .write [(7, 0, 0)] (some 0), .shutdown .wr, .accepted []] ++
          .addTask (.writeComplete 0) :: [.disconnect]) := rfl
  rw [hrun] at hlog
  obtain ⟨data, hdata, haccepted⟩ := ((h s (System.Reachable.run _ (.initial rfl) hrun)) _ _ _
    (Option.some.inj hlog)).accepted
  obtain rfl : [(7, 0, 0)] = data := (Prod.mk.inj (Option.some.inj hdata)).1
  exact absurd (haccepted (7, 0, 0) (List.mem_singleton.mpr rfl)) (by decide)

end Nets.Session
