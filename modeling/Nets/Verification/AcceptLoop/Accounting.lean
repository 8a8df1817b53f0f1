import Mathlib.Data.List.Range
import Nets.Program.AcceptLoop

/-! # Who holds which descriptor

Every open file of the process is held by the listening socket, the reserve, the connection in hand, a
channel or the rest of the process, and a channel closes only what it holds. -/

namespace Nets.ServerSocketChannel

open Library

variable {s t : ServerSocketChannel} {action : Action}

/-! ## Steps -/

/-- What each action does, and where. -/
inductive Moves (s : ServerSocketChannel) : Action → ServerSocketChannel → Prop where
  | construct (allowed : Bool) (h : s.serving = .constructing) :
      Moves s (.construct allowed) (s.construct allowed)
  | createSocket (allowed : Bool) (h : s.serving = .creatingSocket) :
      Moves s (.createSocket allowed) (s.createSocket allowed)
  | bind (succeeds : Bool) (h : s.serving = .binding) : Moves s (.bind succeeds) (s.bind succeeds)
  | handleReadEvent (answer : AcceptAnswer) (h : s.serving = .polling) :
      Moves s (.handleReadEvent answer) (s.handleReadEvent answer)
  | initSocketChannel (connFd : FdType) (n : ℕ) (outcome : Initialization)
      (h : s.serving = .initializing connFd n) :
      Moves s (.initSocketChannel outcome) (s.initSocketChannel connFd n outcome)
  | closeIdle (h : s.serving = .closingIdle) : Moves s .closeIdle s.closeIdle
  | acceptSpare (answer : AcceptAnswer) (h : s.serving = .acceptingSpare) :
      Moves s (.acceptSpare answer) (s.acceptSpare answer)
  | closeSpare (spare : Option (FdType × ℕ)) (h : s.serving = .closingSpare spare) :
      Moves s .closeSpare (s.closeSpare spare)
  | reopen (allowed : Bool) (h : s.serving = .reopening) :
      Moves s (.reopen allowed) (s.reopen allowed)
  | destroy (h : s.serving = .polling ∨ s.serving = .stopped) :
      Moves s .destroy { s with serving := .destroying }
  | closeSocket (h : s.serving = .destroying) :
      Moves s .closeSocket { s.closeFd s.sockFd with serving := .destroyingIdle, listening := false }
  | closeLast (h : s.serving = .destroyingIdle) :
      Moves s .closeLast { s.closeFd s.idleFd with serving := .destroyed }
  | connect (h : s.listening = true) :
      Moves s .connect { s with backlog := s.backlog ++ [s.arrived], arrived := s.arrived + 1 }
  | destroyChannel (i : ℕ) (fd : FdType) (n : ℕ) (h : s.channels[i]? = some (fd, n)) :
      Moves s (.destroyChannel i)
        { s.closeFd fd with channels := s.channels.eraseIdx i, finished := s.finished ++ [n] }
  | openOther (fd : FdType) (h : s.descriptors.lowestFree = some fd) :
      Moves s .openOther
        { s with descriptors := s.descriptors.put fd .other, others := s.others ++ [fd] }
  | closeOther (i : ℕ) (fd : FdType) (h : s.others[i]? = some fd) :
      Moves s (.closeOther i)
        { s with descriptors := s.descriptors.closeFile fd, others := s.others.eraseIdx i }

theorem moves_of_stepOther (h : s.stepOther action = some t) : Moves s action t := by
  cases action with
  | connect =>
      rw [stepOther] at h
      split at h
      case isTrue hlistening =>
          rw [← Option.some.inj h]
          exact .connect hlistening
      · cases h
  | destroyChannel i =>
      obtain ⟨⟨fd, n⟩, hchannel, rfl⟩ := Option.map_eq_some_iff.mp h
      exact .destroyChannel i fd n hchannel
  | openOther =>
      obtain ⟨⟨fd, descriptors⟩, hopen, rfl⟩ := Option.map_eq_some_iff.mp h
      obtain ⟨fd', hfree, heq⟩ := Option.map_eq_some_iff.mp hopen
      obtain ⟨rfl, rfl⟩ := Prod.mk.inj heq
      exact .openOther fd' hfree
  | closeOther i =>
      obtain ⟨fd, hother, rfl⟩ := Option.map_eq_some_iff.mp h
      exact .closeOther i fd hother
  | _ => cases h

theorem moves_of_step (h : s.step action = some t) : Moves s action t := by
  unfold step at h
  split at h
  case h_1 _ allowed hserving => exact Option.some.inj h ▸ .construct allowed hserving
  case h_2 _ allowed hserving => exact Option.some.inj h ▸ .createSocket allowed hserving
  case h_3 _ succeeds hserving => exact Option.some.inj h ▸ .bind succeeds hserving
  case h_4 _ answer hserving => exact Option.some.inj h ▸ .handleReadEvent answer hserving
  case h_5 _ connFd n outcome hserving =>
      exact Option.some.inj h ▸ .initSocketChannel connFd n outcome hserving
  case h_6 _ hserving => exact Option.some.inj h ▸ .closeIdle hserving
  case h_7 _ answer hserving => exact Option.some.inj h ▸ .acceptSpare answer hserving
  case h_8 _ spare hserving => exact Option.some.inj h ▸ .closeSpare spare hserving
  case h_9 _ allowed hserving => exact Option.some.inj h ▸ .reopen allowed hserving
  case h_10 _ hserving => exact Option.some.inj h ▸ .destroy (.inl hserving)
  case h_11 _ hserving => exact Option.some.inj h ▸ .destroy (.inr hserving)
  case h_12 _ hserving => exact Option.some.inj h ▸ .closeSocket hserving
  case h_13 _ hserving => exact Option.some.inj h ▸ .closeLast hserving
  case h_14 => exact moves_of_stepOther h

/-! ## Holders -/

/-- A descriptor that a variable has, unless the variable has `kInvalidFd`. -/
def entry (fd : FdType) (file : OpenFile) : List (FdType × OpenFile) :=
  if 0 ≤ fd then [(fd, file)] else []

def holdsSocket : Serving → Bool
  | .constructing | .creatingSocket | .destroyingIdle | .destroyed => false
  | .binding | .polling | .initializing .. | .closingIdle | .acceptingSpare | .closingSpare _
  | .reopening | .stopped | .destroying => true

/-- Inside `dealwithEMFILE` the reserve is closed, but `idleFd_` still has its number. -/
def holdsIdle : Serving → Bool
  | .constructing | .acceptingSpare | .closingSpare _ | .reopening | .destroyed => false
  | .creatingSocket | .binding | .polling | .initializing .. | .closingIdle | .stopped | .destroying
  | .destroyingIdle => true

/-- The connection that is neither waiting nor a channel of a loop. -/
def inHand : Serving → List (FdType × ℕ)
  | .initializing connFd n => [(connFd, n)]
  | .closingSpare (some (connFd, n)) => [(connFd, n)]
  | _ => []

def asConnection (channel : FdType × ℕ) : FdType × OpenFile := (channel.1, .connection channel.2)

/-- Who holds what, in the order socket, reserve, connection in hand, channels, others. -/
def held (s : ServerSocketChannel) : List (FdType × OpenFile) :=
  (if holdsSocket s.serving then entry s.sockFd .listener else []) ++
    ((if holdsIdle s.serving then entry s.idleFd .idle else []) ++
      ((inHand s.serving).map asConnection ++
        (s.channels.map asConnection ++ s.others.map fun fd => (fd, .other))))

/-- The table has what its holders hold, and what was closed by a channel was open, and its own. -/
structure Accounted (s : ServerSocketChannel) : Prop where
  holds : s.descriptors.Holds (held s)
  closed : ∀ file ∈ s.closed, file ≠ none ∧ file ≠ some .other

/-! ## System calls -/

/-- Only the table changes when a file is opened. -/
theorem newFile_fields (file : OpenFile) (allowed : Bool) (s : ServerSocketChannel) :
    ∃ fd descriptors, s.newFile file allowed = (fd, { s with descriptors }) := by
  unfold newFile
  split
  · exact ⟨_, _, rfl⟩
  · exact ⟨_, _, rfl⟩

theorem newFile_spec (file : OpenFile) (allowed : Bool) {rest : List (FdType × OpenFile)}
    (h : s.descriptors.Holds rest) :
    ∃ fd descriptors, s.newFile file allowed = (fd, { s with descriptors }) ∧
      descriptors.Holds (entry fd file ++ rest) := by
  cases hfree : s.descriptors.lowestFree with
  | none =>
      refine ⟨kInvalidFd, s.descriptors, ?_, by simpa [entry, kInvalidFd] using h⟩
      simp [newFile, Descriptors.openFile, hfree]
  | some fd =>
      cases allowed with
      | false =>
          refine ⟨kInvalidFd, s.descriptors, ?_, by simpa [entry, kInvalidFd] using h⟩
          simp [newFile, Descriptors.openFile, hfree]
      | true =>
          have hnonneg := (Descriptors.lowestFree_eq_some hfree).2.1
          refine ⟨fd, s.descriptors.put fd file, ?_, by simpa [entry, hnonneg] using h.put hfree⟩
          simp [newFile, Descriptors.openFile, hfree]

/-- Closing what a variable has takes it from its holder, and what is closed was open. -/
theorem closeFd_spec {fd : FdType} {file : OpenFile} {rest : List (FdType × OpenFile)}
    (h : s.descriptors.Holds (entry fd file ++ rest)) :
    ∃ descriptors, s.closeFd fd =
        { s with descriptors, closed := s.closed ++ if 0 ≤ fd then [some file] else [] } ∧
      descriptors.Holds rest := by
  by_cases hfd : 0 ≤ fd
  · rw [entry, if_pos hfd] at h
    have hfile := h.files_eq List.mem_cons_self
    exact ⟨_, by simp [closeFd, hfd, hfile], h.closeFile⟩
  · rw [entry, if_neg hfd] at h
    exact ⟨_, by simp [closeFd, hfd], h⟩

/-- An accepted connection is the oldest one. -/
theorem accept_spec {answer : AcceptAnswer} {connFd : FdType} {n : ℕ} {rest : List (FdType × OpenFile)}
    (h : s.descriptors.Holds rest) (ht : s.accept answer = .ok (connFd, n, t)) :
    ∃ descriptors backlog, s.backlog = n :: backlog ∧
      t = { s with descriptors, backlog, taken := s.taken ++ [n] } ∧
      descriptors.Holds ((connFd, .connection n) :: rest) := by
  cases answer with
  | failed errNum hne => cases ht
  | ready =>
      cases hfree : s.descriptors.lowestFree with
      | none => simp [accept, hfree] at ht
      | some fd =>
          cases hbacklog : s.backlog with
          | nil => simp [accept, hfree, hbacklog] at ht
          | cons m backlog =>
              simp only [accept, hfree, hbacklog, Except.ok.injEq, Prod.mk.injEq] at ht
              obtain ⟨rfl, rfl, rfl⟩ := ht
              exact ⟨_, backlog, rfl, rfl, h.put hfree⟩

/-! ## Every step -/

/-- The channels of the loops and the rest of the process. -/
def heldElsewhere (s : ServerSocketChannel) : List (FdType × OpenFile) :=
  s.channels.map asConnection ++ s.others.map fun fd => (fd, .other)

theorem held_eq (s : ServerSocketChannel) :
    held s = (if holdsSocket s.serving then entry s.sockFd .listener else []) ++
      ((if holdsIdle s.serving then entry s.idleFd .idle else []) ++
        ((inHand s.serving).map asConnection ++ heldElsewhere s)) := rfl

theorem entry_of_lt {fd : FdType} (h : fd < 0) (file : OpenFile) : entry fd file = [] :=
  if_neg (not_le.mpr h)

/-- What a channel closes is added to what was closed before. -/
theorem closed_append {fd : FdType} {file : OpenFile}
    (h : ∀ file ∈ s.closed, file ≠ none ∧ file ≠ some .other) (hfile : file ≠ .other) :
    ∀ file' ∈ s.closed ++ (if 0 ≤ fd then [some file] else []),
      file' ≠ none ∧ file' ≠ some .other := by
  intro file' hmem
  rcases List.mem_append.mp hmem with hmem | hmem
  · exact h file' hmem
  · split at hmem
    · obtain rfl := List.mem_singleton.mp hmem
      exact ⟨Option.some_ne_none file, fun heq => hfile (Option.some.inj heq)⟩
    · cases hmem

theorem Accounted.construct (hs : Accounted s) (h : s.serving = .constructing) (allowed : Bool) :
    Accounted (s.construct allowed) := by
  have hholds := hs.holds
  rw [held_eq, h] at hholds
  obtain ⟨fd, descriptors, hnew, hopen⟩ := newFile_spec .idle allowed hholds
  simp only [ServerSocketChannel.construct, hnew]
  refine ⟨?_, hs.closed⟩
  rw [held_eq]
  by_cases hfd : fd < 0
  · simpa [hfd, holdsSocket, holdsIdle, inHand, entry_of_lt, heldElsewhere] using hopen
  · simpa [hfd, holdsSocket, holdsIdle, inHand, heldElsewhere] using hopen

theorem Accounted.createSocket (hs : Accounted s) (h : s.serving = .creatingSocket) (allowed : Bool) :
    Accounted (s.createSocket allowed) := by
  have hholds := hs.holds
  rw [held_eq, h] at hholds
  obtain ⟨fd, descriptors, hnew, hopen⟩ := newFile_spec .listener allowed hholds
  simp only [ServerSocketChannel.createSocket, hnew]
  refine ⟨?_, hs.closed⟩
  rw [held_eq]
  by_cases hfd : fd < 0
  · simpa [hfd, holdsSocket, holdsIdle, inHand, heldElsewhere] using hopen
  · simpa [hfd, holdsSocket, holdsIdle, inHand, heldElsewhere] using hopen

theorem Accounted.bind (hs : Accounted s) (h : s.serving = .binding) (succeeds : Bool) :
    Accounted (s.bind succeeds) := by
  have hholds := hs.holds
  rw [held_eq, h] at hholds
  refine ⟨?_, hs.closed⟩
  rw [held_eq]
  cases succeeds with
  | false => exact hholds
  | true => exact hholds

theorem handleAcceptError_cases (errNum : ℕ) :
    handleAcceptError errNum = .polling ∨ handleAcceptError errNum = .closingIdle ∨
      handleAcceptError errNum = .stopped := by
  unfold handleAcceptError
  split_ifs
  · exact .inl rfl
  · exact .inr (.inl rfl)
  · exact .inr (.inr rfl)

/-- The connection in hand comes third in the list of what is held. -/
theorem perm_third {α : Type} (x : α) (xs ys zs : List α) :
    (x :: (xs ++ (ys ++ zs))).Perm (xs ++ (ys ++ x :: zs)) :=
  List.perm_middle.symm.trans (List.perm_middle.symm.append_left xs)

/-- Whatever `accept` says, the thread holds no more than before, or the connection besides. -/
theorem Accounted.handleReadEvent (hs : Accounted s) (h : s.serving = .polling)
    (answer : AcceptAnswer) : Accounted (s.handleReadEvent answer) := by
  have hholds := hs.holds
  rw [held_eq, h] at hholds
  cases haccept : s.accept answer with
  | error errNum =>
      simp only [ServerSocketChannel.handleReadEvent, haccept]
      refine ⟨?_, hs.closed⟩
      rw [held_eq]
      rcases handleAcceptError_cases errNum with hnext | hnext | hnext
      · simp only [hnext]
        exact hholds
      · simp only [hnext]
        exact hholds
      · simp only [hnext]
        exact hholds
  | ok result =>
      obtain ⟨connFd, n, t⟩ := result
      obtain ⟨descriptors, backlog, -, rfl, hopen⟩ := accept_spec hholds haccept
      simp only [ServerSocketChannel.handleReadEvent, haccept]
      exact ⟨hopen.perm (perm_third ..), hs.closed⟩

/-- What is known of the list while a connection is in hand. -/
theorem holds_hand (hs : Accounted s) {connFd : FdType} {n : ℕ}
    (h : inHand s.serving = [(connFd, n)]) :
    s.descriptors.Holds (entry connFd (.connection n) ++
      ((if holdsSocket s.serving then entry s.sockFd .listener else []) ++
        ((if holdsIdle s.serving then entry s.idleFd .idle else []) ++ heldElsewhere s))) := by
  have hholds := hs.holds
  rw [held_eq, h] at hholds
  have hperm := hholds.perm (perm_third ..).symm
  have hnonneg := (hperm.valid _ _ List.mem_cons_self).1
  rwa [entry, if_pos hnonneg]

/-- A connection in hand goes to a loop, or its descriptor is closed. -/
theorem Accounted.initSocketChannel (hs : Accounted s) {connFd : FdType} {n : ℕ}
    (h : s.serving = .initializing connFd n) (outcome : Initialization) :
    Accounted (s.initSocketChannel connFd n outcome) := by
  have hhand := holds_hand hs (show inHand s.serving = [(connFd, n)] by rw [h]; rfl)
  rw [h] at hhand
  cases outcome with
  | registered =>
      have hholds := hs.holds
      rw [held_eq, h] at hholds
      refine ⟨hholds.perm ?_, hs.closed⟩
      rw [held_eq]
      refine List.Perm.append_left _ (List.Perm.append_left _ ?_)
      simp only [ServerSocketChannel.initSocketChannel, inHand, heldElsewhere, List.map_append,
        List.map_cons, List.map_nil, List.nil_append, List.cons_append, List.append_assoc]
      exact List.perm_middle.symm
  | rejected =>
      obtain ⟨descriptors, hclose, hholds⟩ := closeFd_spec hhand
      simp only [ServerSocketChannel.initSocketChannel, hclose]
      exact ⟨hholds, closed_append hs.closed nofun⟩
  | thrown =>
      obtain ⟨descriptors, hclose, hholds⟩ := closeFd_spec hhand
      simp only [ServerSocketChannel.initSocketChannel, hclose]
      exact ⟨hholds, closed_append hs.closed nofun⟩

/-- The reserve stands second in the list of what is held. -/
theorem perm_second {α : Type} (xs ys zs : List α) :
    (xs ++ (ys ++ zs)).Perm (ys ++ (xs ++ zs)) := by
  rw [← List.append_assoc, ← List.append_assoc]
  exact List.perm_append_comm.append_right zs

theorem Accounted.closeIdle (hs : Accounted s) (h : s.serving = .closingIdle) :
    Accounted s.closeIdle := by
  have hholds := hs.holds
  rw [held_eq, h] at hholds
  obtain ⟨descriptors, hclose, hholds⟩ := closeFd_spec (hholds.perm (perm_second ..))
  simp only [ServerSocketChannel.closeIdle, hclose]
  exact ⟨hholds, closed_append hs.closed nofun⟩

theorem Accounted.acceptSpare (hs : Accounted s) (h : s.serving = .acceptingSpare)
    (answer : AcceptAnswer) : Accounted (s.acceptSpare answer) := by
  have hholds := hs.holds
  rw [held_eq, h] at hholds
  cases haccept : s.accept answer with
  | error errNum =>
      simp only [ServerSocketChannel.acceptSpare, haccept]
      exact ⟨hholds, hs.closed⟩
  | ok result =>
      obtain ⟨connFd, n, t⟩ := result
      obtain ⟨descriptors, backlog, -, rfl, hopen⟩ := accept_spec hholds haccept
      simp only [ServerSocketChannel.acceptSpare, haccept]
      exact ⟨hopen.perm (perm_third ..), hs.closed⟩

theorem Accounted.closeSpare (hs : Accounted s) {spare : Option (FdType × ℕ)}
    (h : s.serving = .closingSpare spare) : Accounted (s.closeSpare spare) := by
  cases spare with
  | none =>
      have hholds := hs.holds
      rw [held_eq, h] at hholds
      exact ⟨hholds, hs.closed⟩
  | some spare =>
      obtain ⟨connFd, n⟩ := spare
      have hhand := holds_hand hs (show inHand s.serving = [(connFd, n)] by rw [h]; rfl)
      rw [h] at hhand
      obtain ⟨descriptors, hclose, hholds⟩ := closeFd_spec hhand
      simp only [ServerSocketChannel.closeSpare, hclose]
      exact ⟨hholds, closed_append hs.closed nofun⟩

theorem Accounted.reopen (hs : Accounted s) (h : s.serving = .reopening) (allowed : Bool) :
    Accounted (s.reopen allowed) := by
  have hholds := hs.holds
  rw [held_eq, h] at hholds
  obtain ⟨fd, descriptors, hnew, hopen⟩ := newFile_spec .idle allowed hholds
  simp only [ServerSocketChannel.reopen, hnew]
  exact ⟨hopen.perm (perm_second ..), hs.closed⟩

theorem Accounted.destroy (hs : Accounted s) (h : s.serving = .polling ∨ s.serving = .stopped) :
    Accounted { s with serving := .destroying } := by
  have hholds := hs.holds
  rw [held_eq] at hholds
  refine ⟨?_, hs.closed⟩
  rcases h with h | h
  · rwa [h] at hholds
  · rwa [h] at hholds

theorem Accounted.closeSocket (hs : Accounted s) (h : s.serving = .destroying) :
    Accounted { s.closeFd s.sockFd with serving := .destroyingIdle, listening := false } := by
  have hholds := hs.holds
  rw [held_eq, h] at hholds
  obtain ⟨descriptors, hclose, hholds⟩ := closeFd_spec hholds
  simp only [hclose]
  exact ⟨hholds, closed_append hs.closed nofun⟩

theorem Accounted.closeLast (hs : Accounted s) (h : s.serving = .destroyingIdle) :
    Accounted { s.closeFd s.idleFd with serving := .destroyed } := by
  have hholds := hs.holds
  rw [held_eq, h] at hholds
  obtain ⟨descriptors, hclose, hholds⟩ := closeFd_spec hholds
  simp only [hclose]
  exact ⟨hholds, closed_append hs.closed nofun⟩

/-! ### The other threads -/

/-- What the thread of the main loop holds. -/
def heldHere (s : ServerSocketChannel) : List (FdType × OpenFile) :=
  (if holdsSocket s.serving then entry s.sockFd .listener else []) ++
    ((if holdsIdle s.serving then entry s.idleFd .idle else []) ++
      (inHand s.serving).map asConnection)

theorem held_perm (s : ServerSocketChannel) : (held s).Perm (heldElsewhere s ++ heldHere s) := by
  have hheld : held s = heldHere s ++ heldElsewhere s := by
    simp only [held_eq, heldHere, List.append_assoc]
  rw [hheld]
  exact List.perm_append_comm

/-- What is at a position, and the rest of the list. -/
theorem perm_of_getElem? {α : Type} {xs : List α} {i : ℕ} {x : α} (h : xs[i]? = some x) :
    xs.Perm (x :: xs.eraseIdx i) := by
  obtain ⟨hlt, rfl⟩ := List.getElem?_eq_some_iff.mp h
  exact (List.getElem_cons_eraseIdx_perm hlt).symm

/-- What is known of the list with a channel of a loop in front. -/
theorem holds_channel (hs : Accounted s) {i : ℕ} {fd : FdType} {n : ℕ}
    (h : s.channels[i]? = some (fd, n)) :
    0 ≤ fd ∧ s.descriptors.Holds (entry fd (.connection n) ++
      (heldElsewhere { s with channels := s.channels.eraseIdx i } ++ heldHere s)) := by
  have hchannels : (s.channels.map asConnection).Perm
      ((fd, .connection n) :: (s.channels.eraseIdx i).map asConnection) :=
    (perm_of_getElem? h).map asConnection
  have hholds := hs.holds.perm ((held_perm s).trans ((hchannels.append_right _).append_right _))
  have hnonneg := (hholds.valid _ _ List.mem_cons_self).1
  rw [entry, if_pos hnonneg]
  exact ⟨hnonneg, hholds⟩

theorem Accounted.destroyChannel (hs : Accounted s) {i : ℕ} {fd : FdType} {n : ℕ}
    (h : s.channels[i]? = some (fd, n)) :
    Accounted
      { s.closeFd fd with channels := s.channels.eraseIdx i, finished := s.finished ++ [n] } := by
  obtain ⟨descriptors, hclose, hrest⟩ := closeFd_spec (holds_channel hs h).2
  simp only [hclose]
  refine ⟨.perm ?_ (held_perm _).symm, closed_append hs.closed nofun⟩
  exact hrest

theorem Accounted.openOther (hs : Accounted s) {fd : FdType}
    (h : s.descriptors.lowestFree = some fd) :
    Accounted { s with descriptors := s.descriptors.put fd .other, others := s.others ++ [fd] } := by
  have hopen : (s.descriptors.put fd .other).Holds ((fd, .other) :: (heldElsewhere s ++ heldHere s)) :=
    (hs.holds.perm (held_perm s)).put h
  refine ⟨hopen.perm (.trans ?_ (held_perm _).symm), hs.closed⟩
  rw [← List.cons_append]
  refine List.Perm.append_right _ ?_
  simp only [heldElsewhere, List.map_append, List.map_cons, List.map_nil]
  rw [← List.append_assoc]
  exact List.perm_append_singleton _ _ |>.symm

theorem Accounted.closeOther (hs : Accounted s) {i : ℕ} {fd : FdType} (h : s.others[i]? = some fd) :
    Accounted
      { s with descriptors := s.descriptors.closeFile fd, others := s.others.eraseIdx i } := by
  have hothers : (s.others.map fun fd => (fd, OpenFile.other)).Perm
      ((fd, .other) :: (s.others.eraseIdx i).map fun fd => (fd, OpenFile.other)) :=
    (perm_of_getElem? h).map _
  have helsewhere : (heldElsewhere s).Perm ((fd, .other) :: (s.channels.map asConnection ++
      (s.others.eraseIdx i).map fun fd => (fd, OpenFile.other))) :=
    (hothers.append_left _).trans List.perm_middle
  have hholds := hs.holds.perm ((held_perm s).trans (helsewhere.append_right _))
  refine ⟨.perm ?_ (held_perm _).symm, hs.closed⟩
  exact hholds.closeFile

/-! ## Every run -/

theorem accounted_create (limit : ℕ) : Accounted (create limit) :=
  ⟨Descriptors.holds_empty limit, nofun⟩

theorem Accounted.step (hs : Accounted s) (h : s.step action = some t) : Accounted t := by
  cases moves_of_step h with
  | construct allowed hmove => exact hs.construct hmove allowed
  | createSocket allowed hmove => exact hs.createSocket hmove allowed
  | bind succeeds hmove => exact hs.bind hmove succeeds
  | handleReadEvent answer hmove => exact hs.handleReadEvent hmove answer
  | initSocketChannel connFd n outcome hmove => exact hs.initSocketChannel hmove outcome
  | closeIdle hmove => exact hs.closeIdle hmove
  | acceptSpare answer hmove => exact hs.acceptSpare hmove answer
  | closeSpare spare hmove => exact hs.closeSpare hmove
  | reopen allowed hmove => exact hs.reopen hmove allowed
  | destroy hmove => exact hs.destroy hmove
  | closeSocket hmove => exact hs.closeSocket hmove
  | closeLast hmove => exact hs.closeLast hmove
  | connect _ => exact ⟨hs.holds, hs.closed⟩
  | destroyChannel i fd n hmove => exact hs.destroyChannel hmove
  | openOther fd hmove => exact hs.openOther hmove
  | closeOther i fd hmove => exact hs.closeOther hmove

theorem accounted_of_reachable (h : system.Reachable s) : Accounted s := by
  refine h.invariant (I := Accounted) ?_ fun _ _ _ hs ht => hs.step ht
  rintro _ ⟨limit, rfl⟩
  exact accounted_create limit

/-- At any time every open file of the process is held by exactly one of the listening socket, the
reserve, the main loop, a channel of a loop and the rest of the process, and every holder's descriptor is
open on its file; whatever a channel has closed was open and was not of the rest of the process; and a
channel that is destroyed leaves neither its socket nor its reserve open. -/
theorem descriptors_accounted (h : system.Reachable s) :
    s.descriptors.Holds (held s) ∧ (∀ file ∈ s.closed, file ≠ none ∧ file ≠ some .other) ∧
      (s.serving = .destroyed →
        ∀ fd, s.descriptors.files fd ≠ some .listener ∧ s.descriptors.files fd ≠ some .idle) := by
  have hs := accounted_of_reachable h
  refine ⟨hs.holds, hs.closed, fun hdestroyed fd => ?_⟩
  have hheld : held s = heldElsewhere s := by
    rw [held_eq, hdestroyed]
    rfl
  have hnot : ∀ file, (∀ n, file ≠ .connection n) → file ≠ .other →
      s.descriptors.files fd ≠ some file := by
    intro file hconnection hother hfile
    have hmem := (hs.holds.mem_iff fd file).mp hfile
    rw [hheld, heldElsewhere, List.mem_append, List.mem_map, List.mem_map] at hmem
    rcases hmem with ⟨channel, -, heq⟩ | ⟨other, -, heq⟩
    · exact hconnection channel.2 (Prod.mk.inj heq).2.symm
    · exact hother (Prod.mk.inj heq).2.symm
  exact ⟨hnot .listener nofun nofun, hnot .idle nofun nofun⟩

/-- A server with a connection is destroyed: the connection is its loop's, and nothing else is left. -/
theorem descriptors_accounted_destroyed :
    ∃ s, system.Reachable s ∧ s.serving = .destroyed ∧ held s = [(2, .connection 0)] ∧
      s.descriptors.Holds [(2, .connection 0)] := by
  have hinitial : system.ReachableUnder (fun _ _ => True) (create 3) := .initial ⟨3, rfl⟩
  obtain ⟨s, hs, hserving, hheld⟩ := hinitial.exists_of_runUnder _
    (P := fun s => s.serving = .destroyed ∧ held s = [(2, .connection 0)])
    [.construct true, .createSocket true, .bind true, .connect, .handleReadEvent .ready,
      .initSocketChannel .registered, .destroy, .closeSocket, .closeLast] (by decide)
  exact ⟨s, hs, hserving, hheld, hheld ▸ (descriptors_accounted hs).1⟩

end Nets.ServerSocketChannel
