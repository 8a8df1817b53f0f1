import Nets.Verification.AcceptLoop.Accounting

/-! # What becomes of a connection

Connections are accepted in the order in which they arrived, and every one that was accepted is in one
place. -/

namespace Nets.ServerSocketChannel

open Library

variable {s t : ServerSocketChannel} {action : Action}

def connectionOf : Option OpenFile → Option ℕ
  | some (.connection n) => some n
  | _ => none

/-- The connections whose descriptors are closed. -/
def ended (s : ServerSocketChannel) : List ℕ := s.finished ++ (s.refused ++ s.failed)

/-- The connections that are open, in the hand of the main loop or with a loop. -/
def live (s : ServerSocketChannel) : List ℕ :=
  (inHand s.serving).map Prod.snd ++ s.channels.map Prod.snd

/-- Nothing that arrived is lost or served twice, and a connection is closed once. -/
structure Conserved (s : ServerSocketChannel) : Prop where
  order : s.taken ++ s.backlog = List.range s.arrived
  places : (live s ++ ended s).Perm s.taken
  closings : (s.closed.filterMap connectionOf).Perm (ended s)

theorem conserved_create (limit : ℕ) : Conserved (create limit) := ⟨rfl, .refl _, .refl _⟩

/-- A change of the table and of the thread that has nothing to do with connections. -/
theorem Conserved.of_eq (hs : Conserved s) (htaken : t.taken = s.taken) (hbacklog : t.backlog = s.backlog)
    (harrived : t.arrived = s.arrived) (hlive : live t = live s) (hended : ended t = ended s)
    (hclosed : t.closed.filterMap connectionOf = s.closed.filterMap connectionOf) : Conserved t := by
  refine ⟨?_, ?_, ?_⟩
  · rw [htaken, hbacklog, harrived, hs.order]
  · rw [htaken, hlive, hended]
    exact hs.places
  · rw [hclosed, hended]
    exact hs.closings

/-- A connection that is taken from the queue is the oldest one, and in hand. -/
theorem Conserved.take (hs : Conserved s) {n : ℕ} {backlog : List ℕ} (hbacklog : s.backlog = n :: backlog)
    (htaken : t.taken = s.taken ++ [n]) (hrest : t.backlog = backlog) (harrived : t.arrived = s.arrived)
    (hlive : live t = n :: live s) (hended : ended t = ended s) (hclosed : t.closed = s.closed) :
    Conserved t := by
  refine ⟨?_, ?_, ?_⟩
  · rw [htaken, hrest, harrived, ← hs.order, hbacklog, List.append_assoc, List.singleton_append]
  · rw [htaken, hlive, hended, List.cons_append]
    exact (hs.places.cons n).trans (List.perm_append_singleton n s.taken).symm
  · rw [hclosed, hended]
    exact hs.closings

/-- A connection that is closed was open, and has ended. -/
theorem Conserved.close (hs : Conserved s) {n : ℕ} {fd : FdType} (hfd : 0 ≤ fd)
    (htaken : t.taken = s.taken) (hbacklog : t.backlog = s.backlog) (harrived : t.arrived = s.arrived)
    (hlive : (live s).Perm (n :: live t)) (hended : (ended t).Perm (n :: ended s))
    (hclosed : t.closed = s.closed ++ if 0 ≤ fd then [some (.connection n)] else []) :
    Conserved t := by
  refine ⟨?_, ?_, ?_⟩
  · rw [htaken, hbacklog, harrived, hs.order]
  · rw [htaken]
    refine .trans ?_ hs.places
    exact (hended.append_left _).trans (List.perm_middle.trans (hlive.append_right _).symm)
  · rw [hclosed, if_pos hfd, List.filterMap_append]
    exact (List.perm_append_singleton n _).trans ((hs.closings.cons n).trans hended.symm)

/-! ## Every step -/

/-- Closing the socket or the reserve closes no connection. -/
theorem filterMap_closed (closed : List (Option OpenFile)) (fd : FdType) {file : OpenFile}
    (h : connectionOf (some file) = none) :
    (closed ++ if 0 ≤ fd then [some file] else []).filterMap connectionOf =
      closed.filterMap connectionOf := by
  split <;> simp [h]

/-- Where no connection is in hand, the live ones are those of the loops. -/
theorem live_of_inHand (h : inHand s.serving = []) : live s = s.channels.map Prod.snd := by
  rw [live, h]
  rfl

theorem Conserved.construct (hs : Conserved s) (h : s.serving = .constructing) (allowed : Bool) :
    Conserved (s.construct allowed) := by
  obtain ⟨fd, descriptors, hnew⟩ := newFile_fields .idle allowed s
  simp only [ServerSocketChannel.construct, hnew]
  refine hs.of_eq rfl rfl rfl ?_ rfl rfl
  rw [live_of_inHand (s := s) (by rw [h]; rfl), live_of_inHand]
  split <;> rfl

theorem Conserved.createSocket (hs : Conserved s) (h : s.serving = .creatingSocket) (allowed : Bool) :
    Conserved (s.createSocket allowed) := by
  obtain ⟨fd, descriptors, hnew⟩ := newFile_fields .listener allowed s
  simp only [ServerSocketChannel.createSocket, hnew]
  refine hs.of_eq rfl rfl rfl ?_ rfl rfl
  rw [live_of_inHand (s := s) (by rw [h]; rfl), live_of_inHand]
  split <;> rfl

theorem Conserved.bind (hs : Conserved s) (h : s.serving = .binding) (succeeds : Bool) :
    Conserved (s.bind succeeds) := by
  refine hs.of_eq rfl rfl rfl ?_ rfl rfl
  rw [live_of_inHand (s := s) (by rw [h]; rfl), live_of_inHand]
  · rfl
  · cases succeeds <;> rfl

theorem Conserved.handleReadEvent (hs : Conserved s) (hacc : Accounted s) (h : s.serving = .polling)
    (answer : AcceptAnswer) : Conserved (s.handleReadEvent answer) := by
  have hlive := live_of_inHand (s := s) (by rw [h]; rfl)
  cases haccept : s.accept answer with
  | error errNum =>
      simp only [ServerSocketChannel.handleReadEvent, haccept]
      refine hs.of_eq rfl rfl rfl ?_ rfl rfl
      rw [hlive, live_of_inHand]
      rcases handleAcceptError_cases errNum with hnext | hnext | hnext
      · rw [hnext]
        rfl
      · rw [hnext]
        rfl
      · rw [hnext]
        rfl
  | ok result =>
      obtain ⟨connFd, n, t⟩ := result
      obtain ⟨descriptors, backlog, hbacklog, rfl, -⟩ := accept_spec hacc.holds haccept
      simp only [ServerSocketChannel.handleReadEvent, haccept]
      exact hs.take hbacklog rfl rfl rfl (by rw [hlive]; rfl) rfl rfl

theorem Conserved.acceptSpare (hs : Conserved s) (hacc : Accounted s) (h : s.serving = .acceptingSpare)
    (answer : AcceptAnswer) : Conserved (s.acceptSpare answer) := by
  have hlive := live_of_inHand (s := s) (by rw [h]; rfl)
  cases haccept : s.accept answer with
  | error errNum =>
      simp only [ServerSocketChannel.acceptSpare, haccept]
      exact hs.of_eq rfl rfl rfl (by rw [hlive]; rfl) rfl rfl
  | ok result =>
      obtain ⟨connFd, n, t⟩ := result
      obtain ⟨descriptors, backlog, hbacklog, rfl, -⟩ := accept_spec hacc.holds haccept
      simp only [ServerSocketChannel.acceptSpare, haccept]
      exact hs.take hbacklog rfl rfl rfl (by rw [hlive]; rfl) rfl rfl

/-- The connection in hand has a descriptor, which is closed where no loop takes it. -/
theorem hand_nonneg (hacc : Accounted s) {connFd : FdType} {n : ℕ}
    (h : inHand s.serving = [(connFd, n)]) : 0 ≤ connFd := by
  have hholds := hacc.holds
  rw [held_eq, h] at hholds
  exact ((hholds.perm (perm_third ..).symm).valid _ _ List.mem_cons_self).1

theorem Conserved.initSocketChannel (hs : Conserved s) (hacc : Accounted s) {connFd : FdType} {n : ℕ}
    (h : s.serving = .initializing connFd n) (outcome : Initialization) :
    Conserved (s.initSocketChannel connFd n outcome) := by
  have hin : inHand s.serving = [(connFd, n)] := by rw [h]; rfl
  have hlive : live s = n :: s.channels.map Prod.snd := by
    rw [live, hin]
    rfl
  have hnonneg := hand_nonneg hacc hin
  have hended : (s.finished ++ (s.refused ++ (s.failed ++ [n]))).Perm (n :: ended s) := by
    rw [← List.append_assoc, ← List.append_assoc, ended, ← List.append_assoc]
    exact List.perm_append_singleton n _
  cases outcome with
  | registered =>
      refine ⟨hs.order, .trans (.append_right _ ?_) hs.places, hs.closings⟩
      rw [hlive, live_of_inHand rfl]
      simp only [ServerSocketChannel.initSocketChannel, List.map_append, List.map_cons, List.map_nil]
      exact List.perm_append_singleton n _
  | rejected =>
      obtain ⟨descriptors, hclose, -⟩ := closeFd_spec (holds_hand hacc hin)
      simp only [ServerSocketChannel.initSocketChannel, hclose]
      exact hs.close hnonneg rfl rfl rfl (by rw [hlive]; rfl) hended rfl
  | thrown =>
      obtain ⟨descriptors, hclose, -⟩ := closeFd_spec (holds_hand hacc hin)
      simp only [ServerSocketChannel.initSocketChannel, hclose]
      exact hs.close hnonneg rfl rfl rfl (by rw [hlive]; rfl) hended rfl

theorem Conserved.closeSpare (hs : Conserved s) (hacc : Accounted s) {spare : Option (FdType × ℕ)}
    (h : s.serving = .closingSpare spare) : Conserved (s.closeSpare spare) := by
  cases spare with
  | none =>
      refine hs.of_eq rfl rfl rfl ?_ rfl rfl
      rw [live_of_inHand (s := s) (by rw [h]; rfl)]
      rfl
  | some spare =>
      obtain ⟨connFd, n⟩ := spare
      have hin : inHand s.serving = [(connFd, n)] := by rw [h]; rfl
      have hlive : live s = n :: s.channels.map Prod.snd := by
        rw [live, hin]
        rfl
      have hended : (s.finished ++ (s.refused ++ [n] ++ s.failed)).Perm (n :: ended s) := by
        rw [List.append_assoc, ended, List.singleton_append, ← List.append_assoc, ← List.append_assoc]
        exact List.perm_middle
      obtain ⟨descriptors, hclose, -⟩ := closeFd_spec (holds_hand hacc hin)
      simp only [ServerSocketChannel.closeSpare, hclose]
      exact hs.close (hand_nonneg hacc hin) rfl rfl rfl (by rw [hlive]; rfl) hended rfl

theorem Conserved.closeIdle (hs : Conserved s) (hacc : Accounted s) (h : s.serving = .closingIdle) :
    Conserved s.closeIdle := by
  have hholds := hacc.holds
  rw [held_eq, h] at hholds
  obtain ⟨descriptors, hclose, -⟩ := closeFd_spec (hholds.perm (perm_second ..))
  simp only [ServerSocketChannel.closeIdle, hclose]
  refine hs.of_eq rfl rfl rfl ?_ rfl (filterMap_closed _ _ rfl)
  rw [live_of_inHand (s := s) (by rw [h]; rfl)]
  rfl

theorem Conserved.reopen (hs : Conserved s) (h : s.serving = .reopening) (allowed : Bool) :
    Conserved (s.reopen allowed) := by
  obtain ⟨fd, descriptors, hnew⟩ := newFile_fields .idle allowed s
  simp only [ServerSocketChannel.reopen, hnew]
  refine hs.of_eq rfl rfl rfl ?_ rfl rfl
  rw [live_of_inHand (s := s) (by rw [h]; rfl)]
  rfl

theorem Conserved.destroy (hs : Conserved s) (h : s.serving = .polling ∨ s.serving = .stopped) :
    Conserved { s with serving := .destroying } := by
  refine hs.of_eq rfl rfl rfl ?_ rfl rfl
  rw [live_of_inHand (s := s)]
  · rfl
  · rcases h with h | h
    · rw [h]
      rfl
    · rw [h]
      rfl

theorem Conserved.closeSocket (hs : Conserved s) (hacc : Accounted s) (h : s.serving = .destroying) :
    Conserved { s.closeFd s.sockFd with serving := .destroyingIdle, listening := false } := by
  have hholds := hacc.holds
  rw [held_eq, h] at hholds
  obtain ⟨descriptors, hclose, -⟩ := closeFd_spec hholds
  simp only [hclose]
  refine hs.of_eq rfl rfl rfl ?_ rfl (filterMap_closed _ _ rfl)
  rw [live_of_inHand (s := s) (by rw [h]; rfl)]
  rfl

theorem Conserved.closeLast (hs : Conserved s) (hacc : Accounted s) (h : s.serving = .destroyingIdle) :
    Conserved { s.closeFd s.idleFd with serving := .destroyed } := by
  have hholds := hacc.holds
  rw [held_eq, h] at hholds
  obtain ⟨descriptors, hclose, -⟩ := closeFd_spec hholds
  simp only [hclose]
  refine hs.of_eq rfl rfl rfl ?_ rfl (filterMap_closed _ _ rfl)
  rw [live_of_inHand (s := s) (by rw [h]; rfl)]
  rfl

theorem Conserved.connect (hs : Conserved s) :
    Conserved { s with backlog := s.backlog ++ [s.arrived], arrived := s.arrived + 1 } := by
  refine ⟨?_, hs.places, hs.closings⟩
  simp only
  rw [← List.append_assoc, hs.order, List.range_succ]

theorem Conserved.destroyChannel (hs : Conserved s) (hacc : Accounted s) {i : ℕ} {fd : FdType} {n : ℕ}
    (h : s.channels[i]? = some (fd, n)) :
    Conserved
      { s.closeFd fd with channels := s.channels.eraseIdx i, finished := s.finished ++ [n] } := by
  obtain ⟨hnonneg, hholds⟩ := holds_channel hacc h
  obtain ⟨descriptors, hclose, -⟩ := closeFd_spec hholds
  simp only [hclose]
  refine hs.close hnonneg rfl rfl rfl ?_ ?_ rfl
  · exact (((perm_of_getElem? h).map Prod.snd).append_left _).trans List.perm_middle
  · simp only [ended, List.append_assoc, List.singleton_append]
    exact List.perm_middle

/-! ## Every run -/

theorem Conserved.step (hs : Conserved s) (hacc : Accounted s) (h : s.step action = some t) :
    Conserved t := by
  cases moves_of_step h with
  | construct allowed hmove => exact hs.construct hmove allowed
  | createSocket allowed hmove => exact hs.createSocket hmove allowed
  | bind succeeds hmove => exact hs.bind hmove succeeds
  | handleReadEvent answer hmove => exact hs.handleReadEvent hacc hmove answer
  | initSocketChannel connFd n outcome hmove => exact hs.initSocketChannel hacc hmove outcome
  | closeIdle hmove => exact hs.closeIdle hacc hmove
  | acceptSpare answer hmove => exact hs.acceptSpare hacc hmove answer
  | closeSpare spare hmove => exact hs.closeSpare hacc hmove
  | reopen allowed hmove => exact hs.reopen hmove allowed
  | destroy hmove => exact hs.destroy hmove
  | closeSocket hmove => exact hs.closeSocket hacc hmove
  | closeLast hmove => exact hs.closeLast hacc hmove
  | connect _ => exact hs.connect
  | destroyChannel i fd n hmove => exact hs.destroyChannel hacc hmove
  | openOther fd _ => exact hs.of_eq rfl rfl rfl rfl rfl rfl
  | closeOther i fd _ => exact hs.of_eq rfl rfl rfl rfl rfl rfl

/-- At any time the connections accepted so far, followed by those that wait, are all that arrived, in
their order; each accepted one is in the hand of the main loop, a channel of a loop, or closed, and never
two of these; and the closed ones are those whose descriptor was closed, once. -/
theorem connections_conserved (h : system.Reachable s) :
    s.taken ++ s.backlog = List.range s.arrived ∧ (live s ++ ended s).Perm s.taken ∧
      (live s ++ ended s).Nodup ∧ (s.closed.filterMap connectionOf).Perm (ended s) := by
  have hboth : Accounted s ∧ Conserved s := by
    refine h.invariant (I := fun s => Accounted s ∧ Conserved s) ?_ fun _ _ _ hs ht =>
      ⟨hs.1.step ht, hs.2.step hs.1 ht⟩
    rintro _ ⟨limit, rfl⟩
    exact ⟨accounted_create limit, conserved_create limit⟩
  obtain ⟨-, hs⟩ := hboth
  have hnodup : (s.taken ++ s.backlog).Nodup := hs.order ▸ List.nodup_range
  exact ⟨hs.order, hs.places, hs.places.nodup_iff.mpr (List.nodup_append.mp hnodup).1, hs.closings⟩

/-- Three clients of a process of three descriptors: the first is served, the second refused. -/
theorem connections_conserved_three :
    ∃ s, system.Reachable s ∧ s.taken = [0, 1] ∧ s.backlog = [2] ∧ live s = [0] ∧ ended s = [1] ∧
      (s.closed.filterMap connectionOf).Perm (ended s) := by
  have hinitial : system.ReachableUnder (fun _ _ => True) (create 3) := .initial ⟨3, rfl⟩
  obtain ⟨s, hs, htaken, hbacklog, hlive, hended⟩ := hinitial.exists_of_runUnder _
    (P := fun s => s.taken = [0, 1] ∧ s.backlog = [2] ∧ live s = [0] ∧ ended s = [1])
    [.construct true, .createSocket true, .bind true, .connect, .connect, .handleReadEvent .ready,
      .initSocketChannel .registered, .handleReadEvent .ready, .closeIdle, .acceptSpare .ready,
      .connect, .closeSpare] (by decide)
  exact ⟨s, hs, htaken, hbacklog, hlive, hended, (connections_conserved hs).2.2.2⟩

end Nets.ServerSocketChannel
