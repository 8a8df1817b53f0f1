import Nets.Verification.AcceptLoop.Accounting

/-! # The reserve

`idleFd_` is there for the moment at which the process has no descriptor left: `dealwithEMFILE` gives it up
to accept the oldest connection and close it. -/

namespace Nets.ServerSocketChannel

open Library

variable {s t : ServerSocketChannel} {action : Action}

/-! ## Keeping the reserve -/

/-- Between the first and the last call of `dealwithEMFILE`. -/
def isDealing : Serving → Bool
  | .acceptingSpare | .closingSpare _ | .reopening => true
  | _ => false

/-- Nobody else takes a descriptor while the reserve is closed, and opening it again fails only where no
descriptor is left. -/
def Undisturbed (s : ServerSocketChannel) : Action → Prop
  | .openOther => isDealing s.serving = false
  | .reopen allowed => allowed = true
  | _ => True

instance (s : ServerSocketChannel) (action : Action) : Decidable (Undisturbed s action) := by
  unfold Undisturbed
  split <;> infer_instance

/-- A descriptor is left for the reserve, once the connection in hand is closed. -/
def awaitsRoom : Serving → Bool
  | .acceptingSpare | .closingSpare none | .reopening => true
  | _ => false

structure Reserved (s : ServerSocketChannel) : Prop where
  idle : holdsIdle s.serving = true → 0 ≤ s.idleFd
  room : awaitsRoom s.serving = true → s.descriptors.lowestFree ≠ none

theorem awaitsRoom_of_not_isDealing {serving : Serving} (h : isDealing serving = false) :
    awaitsRoom serving = false := by
  cases serving with
  | acceptingSpare | closingSpare _ | reopening => cases h
  | _ => rfl

theorem reserved_create (limit : ℕ) : Reserved (create limit) := ⟨nofun, nofun⟩

/-- A descriptor that is free stays free when another one is closed. -/
theorem lowestFree_closeFile_ne_none {descriptors : Descriptors OpenFile} (fd : FdType)
    (h : descriptors.lowestFree ≠ none) : (descriptors.closeFile fd).lowestFree ≠ none := by
  obtain ⟨fd', hfd'⟩ := Option.ne_none_iff_exists'.mp h
  obtain ⟨hfree, hnonneg, hlimit⟩ := Descriptors.lowestFree_eq_some hfd'
  have hstill : (descriptors.closeFile fd).files fd' = none := by
    by_cases heq : fd' = fd
    · rw [heq, Descriptors.closeFile_self]
    · rw [Descriptors.closeFile_of_ne heq, hfree]
  obtain ⟨fd'', hfd''⟩ := Descriptors.lowestFree_isSome hstill hnonneg hlimit
  rw [hfd'']
  exact Option.some_ne_none fd''

theorem lowestFree_closeFd_ne_none (fd : FdType) (h : s.descriptors.lowestFree ≠ none) :
    (s.closeFd fd).descriptors.lowestFree ≠ none := by
  rw [closeFd]
  split
  · exact lowestFree_closeFile_ne_none fd h
  · exact h

/-- Whoever closes a descriptor of its own has one afterwards. -/
theorem closeFd_room {fd : FdType} {file : OpenFile} {rest : List (FdType × OpenFile)}
    (h : s.descriptors.Holds (entry fd file ++ rest)) (hfd : 0 ≤ fd) :
    (s.closeFd fd).descriptors.lowestFree ≠ none := by
  rw [entry, if_pos hfd] at h
  obtain ⟨fd', hfree⟩ := h.exists_free
  rw [closeFd, if_pos hfd, hfree]
  exact Option.some_ne_none fd'

theorem Reserved.construct (allowed : Bool) : Reserved (s.construct allowed) := by
  obtain ⟨fd, descriptors, hnew⟩ := newFile_fields .idle allowed s
  simp only [ServerSocketChannel.construct, hnew]
  by_cases hfd : fd < 0
  · rw [if_pos hfd]
    exact ⟨(absurd · Bool.false_ne_true), (absurd · Bool.false_ne_true)⟩
  · rw [if_neg hfd]
    exact ⟨fun _ => not_lt.mp hfd, (absurd · Bool.false_ne_true)⟩

/-- A step after which no descriptor is waited for. -/
theorem Reserved.of_eq (hs : Reserved s) (hfd : t.idleFd = s.idleFd)
    (hidle : holdsIdle t.serving = true → holdsIdle s.serving = true)
    (hroom : awaitsRoom t.serving = false) : Reserved t := by
  refine ⟨fun h => ?_, fun h => ?_⟩
  · rw [hfd]
    exact hs.idle (hidle h)
  · rw [hroom] at h
    cases h

theorem Reserved.createSocket (hs : Reserved s) (h : s.serving = .creatingSocket) (allowed : Bool) :
    Reserved (s.createSocket allowed) := by
  obtain ⟨fd, descriptors, hnew⟩ := newFile_fields .listener allowed s
  simp only [ServerSocketChannel.createSocket, hnew]
  refine hs.of_eq rfl (fun _ => by rw [h]; rfl) ?_
  split <;> rfl

theorem Reserved.handleReadEvent (hs : Reserved s) (hacc : Accounted s) (h : s.serving = .polling)
    (answer : AcceptAnswer) : Reserved (s.handleReadEvent answer) := by
  cases haccept : s.accept answer with
  | error errNum =>
      simp only [ServerSocketChannel.handleReadEvent, haccept]
      refine hs.of_eq rfl (fun _ => by rw [h]; rfl) ?_
      rcases handleAcceptError_cases errNum with hnext | hnext | hnext
      · rw [hnext]
        rfl
      · rw [hnext]
        rfl
      · rw [hnext]
        rfl
  | ok result =>
      obtain ⟨connFd, n, t⟩ := result
      obtain ⟨descriptors, backlog, -, rfl, -⟩ := accept_spec hacc.holds haccept
      simp only [ServerSocketChannel.handleReadEvent, haccept]
      exact hs.of_eq rfl (fun _ => by rw [h]; rfl) rfl

theorem closeFd_idleFd (fd : FdType) (s : ServerSocketChannel) : (s.closeFd fd).idleFd = s.idleFd := by
  rw [closeFd]
  split <;> rfl

theorem closeFd_serving (fd : FdType) (s : ServerSocketChannel) : (s.closeFd fd).serving = s.serving := by
  rw [closeFd]
  split <;> rfl

theorem Reserved.initSocketChannel (hs : Reserved s) {connFd : FdType} {n : ℕ}
    (h : s.serving = .initializing connFd n) (outcome : Initialization) :
    Reserved (s.initSocketChannel connFd n outcome) := by
  have hidle : holdsIdle s.serving = true := by rw [h]; rfl
  cases outcome with
  | registered => exact hs.of_eq rfl (fun _ => hidle) rfl
  | rejected => exact hs.of_eq (closeFd_idleFd connFd s) (fun _ => hidle) rfl
  | thrown => exact hs.of_eq (closeFd_idleFd connFd s) (fun _ => hidle) rfl

/-- Giving up the reserve makes room. -/
theorem Reserved.closeIdle (hs : Reserved s) (hacc : Accounted s) (h : s.serving = .closingIdle) :
    Reserved s.closeIdle := by
  have hholds := hacc.holds
  rw [held_eq, h] at hholds
  have hnonneg : 0 ≤ s.idleFd := hs.idle (by rw [h]; rfl)
  exact ⟨nofun, fun _ => closeFd_room (hholds.perm (perm_second ..)) hnonneg⟩

theorem Reserved.acceptSpare (hs : Reserved s) (h : s.serving = .acceptingSpare)
    (answer : AcceptAnswer) : Reserved (s.acceptSpare answer) := by
  cases haccept : s.accept answer with
  | error errNum =>
      simp only [ServerSocketChannel.acceptSpare, haccept]
      exact ⟨(absurd · Bool.false_ne_true), fun _ => hs.room (by rw [h]; rfl)⟩
  | ok result =>
      obtain ⟨connFd, n, t⟩ := result
      simp only [ServerSocketChannel.acceptSpare, haccept]
      exact ⟨(absurd · Bool.false_ne_true), (absurd · Bool.false_ne_true)⟩

theorem Reserved.closeSpare (hs : Reserved s) (hacc : Accounted s) {spare : Option (FdType × ℕ)}
    (h : s.serving = .closingSpare spare) : Reserved (s.closeSpare spare) := by
  cases spare with
  | none => exact ⟨nofun, fun _ => hs.room (by rw [h]; rfl)⟩
  | some spare =>
      obtain ⟨connFd, n⟩ := spare
      have hhand := holds_hand hacc (show inHand s.serving = [(connFd, n)] by rw [h]; rfl)
      have hholds := hacc.holds
      rw [held_eq, h] at hholds
      have hnonneg := ((hholds.perm (perm_third ..).symm).valid _ _ List.mem_cons_self).1
      exact ⟨nofun, fun _ => closeFd_room hhand hnonneg⟩

theorem Reserved.reopen (hs : Reserved s) (h : s.serving = .reopening) : Reserved (s.reopen true) := by
  obtain ⟨fd, hfree⟩ := Option.ne_none_iff_exists'.mp (hs.room (by rw [h]; rfl))
  have hnonneg := (Descriptors.lowestFree_eq_some hfree).2.1
  have hnew : s.newFile .idle true = (fd, { s with descriptors := s.descriptors.put fd .idle }) := by
    simp [newFile, Descriptors.openFile, hfree]
  simp only [ServerSocketChannel.reopen, hnew]
  exact ⟨fun _ => hnonneg, (absurd · Bool.false_ne_true)⟩

theorem Reserved.step (hs : Reserved s) (hacc : Accounted s) (hquiet : Undisturbed s action)
    (h : s.step action = some t) : Reserved t := by
  cases moves_of_step h with
  | construct allowed _ => exact .construct allowed
  | createSocket allowed hmove => exact hs.createSocket hmove allowed
  | bind succeeds hmove =>
      refine hs.of_eq rfl (fun _ => by rw [hmove]; rfl) ?_
      cases succeeds <;> rfl
  | handleReadEvent answer hmove => exact hs.handleReadEvent hacc hmove answer
  | initSocketChannel connFd n outcome hmove => exact hs.initSocketChannel hmove outcome
  | closeIdle hmove => exact hs.closeIdle hacc hmove
  | acceptSpare answer hmove => exact hs.acceptSpare hmove answer
  | closeSpare spare hmove => exact hs.closeSpare hacc hmove
  | reopen allowed hmove =>
      obtain rfl : allowed = true := hquiet
      exact hs.reopen hmove
  | destroy hmove =>
      refine hs.of_eq rfl (fun _ => ?_) rfl
      rcases hmove with hmove | hmove
      · rw [hmove]
        rfl
      · rw [hmove]
        rfl
  | closeSocket hmove => exact hs.of_eq (closeFd_idleFd _ s) (fun _ => by rw [hmove]; rfl) rfl
  | closeLast _ => exact ⟨nofun, nofun⟩
  | connect _ => exact ⟨hs.idle, hs.room⟩
  | destroyChannel i fd n _ =>
      refine ⟨fun hidle => ?_, fun hroom => ?_⟩
      · exact (closeFd_idleFd fd s).symm ▸ hs.idle (closeFd_serving fd s ▸ hidle)
      · exact lowestFree_closeFd_ne_none fd (hs.room (closeFd_serving fd s ▸ hroom))
  | openOther fd _ =>
      refine ⟨hs.idle, fun hroom => ?_⟩
      rw [awaitsRoom_of_not_isDealing hquiet] at hroom
      cases hroom
  | closeOther i fd _ => exact ⟨hs.idle, fun hroom => lowestFree_closeFile_ne_none fd (hs.room hroom)⟩

theorem reserved_of_reachableUnder (h : system.ReachableUnder Undisturbed s) : Reserved s := by
  have hboth : Accounted s ∧ Reserved s := by
    refine h.invariant (I := fun s => Accounted s ∧ Reserved s) ?_ fun _ _ _ hs hquiet ht =>
      ⟨hs.1.step ht, hs.2.step hs.1 hquiet ht⟩
    rintro _ ⟨limit, rfl⟩
    exact ⟨accounted_create limit, reserved_create limit⟩
  exact hboth.2

/-- Where nobody else takes a descriptor while the reserve is given up, the server has its reserve
whenever it is not inside `dealwithEMFILE`, and there it has room to open it again. -/
theorem reserve_kept (h : system.ReachableUnder Undisturbed s) :
    (holdsIdle s.serving = true → s.descriptors.files s.idleFd = some .idle) ∧
      (s.serving = .reopening → (s.reopen true).descriptors.files (s.reopen true).idleFd = some .idle) := by
  have hacc := accounted_of_reachable h.reachable
  have hs := reserved_of_reachableUnder h
  have hheld : ∀ t, Accounted t → Reserved t → holdsIdle t.serving = true →
      t.descriptors.files t.idleFd = some .idle := by
    intro t hacc hs hidle
    refine hacc.holds.files_eq (List.mem_append_right _ (List.mem_append_left _ ?_))
    rw [if_pos hidle, entry, if_pos (hs.idle hidle)]
    exact List.mem_cons_self
  exact ⟨hheld s hacc hs, fun hserving => hheld _ (hacc.reopen hserving true) (hs.reopen hserving) rfl⟩

/-- The last descriptor is given up for a second client and taken again. -/
theorem reserve_kept_full :
    ∃ s, system.ReachableUnder Undisturbed s ∧ s.refused = [1] ∧
      s.descriptors.files s.idleFd = some .idle := by
  have hinitial : system.ReachableUnder Undisturbed (create 3) := .initial ⟨3, rfl⟩
  obtain ⟨s, hs, hidle, hrefused⟩ := hinitial.exists_of_runUnder _
    (P := fun s => holdsIdle s.serving = true ∧ s.refused = [1])
    [.construct true, .createSocket true, .bind true, .connect, .handleReadEvent .ready,
      .initSocketChannel .registered, .connect, .handleReadEvent .ready, .closeIdle,
      .acceptSpare .ready, .closeSpare, .reopen true] (by decide)
  exact ⟨s, hs, hrefused, (reserve_kept hs).1 hidle⟩

-- another thread takes the descriptor of the reserve
example : ((system.run (create 2) [.construct true, .createSocket true, .bind true,
    .handleReadEvent .ready, .closeIdle, .openOther, .acceptSpare .ready, .closeSpare,
    .reopen true]).map ServerSocketChannel.idleFd) = some kInvalidFd := by decide

/-! ## Rounds without a descriptor left -/

/-- One event of the socket while the process has no descriptor left, with nobody else at work. -/
def emfileRound : List Action :=
  [.handleReadEvent .ready, .closeIdle, .acceptSpare .ready, .closeSpare, .reopen true]

/-- What a round leaves as it was. -/
structure SameAfterRound (s t : ServerSocketChannel) : Prop where
  descriptors : t.descriptors = s.descriptors
  idleFd : 0 ≤ t.idleFd ↔ 0 ≤ s.idleFd
  polling : t.serving = .polling

theorem step_handleReadEvent_of_full (hpolling : s.serving = .polling)
    (hfull : s.descriptors.lowestFree = none) :
    s.step (.handleReadEvent .ready) = some { s with serving := .closingIdle } := by
  have haccept : s.accept .ready = .error EMFILE := by simp [accept, hfull]
  simp [step, hpolling, handleReadEvent, haccept, handleAcceptError, EMFILE, EAGAIN, EINTR, EPROTO,
    ECONNABORTED]

/-- The rest of the round once `dealwithEMFILE` has accepted what it could. -/
theorem run_closeSpare_reopen {spare : Option (FdType × ℕ)} (h : s.serving = .closingSpare spare) :
    system.run s [.closeSpare, .reopen true] = some ((s.closeSpare spare).reopen true) := by
  have hserving : (s.closeSpare spare).serving = .reopening := by
    cases spare <;> rfl
  have hclose : s.step .closeSpare = some (s.closeSpare spare) := by simp [step, h]
  have hreopen : (s.closeSpare spare).step (.reopen true) = some ((s.closeSpare spare).reopen true) := by
    simp [step, hserving]
  simp [System.run_cons, system, hclose, hreopen]

/-- A round comes down to its four calls. -/
theorem run_emfileRound (spare : Option (FdType × ℕ)) (hpolling : s.serving = .polling)
    (hfull : s.descriptors.lowestFree = none)
    (hspare : (s.closeIdle.acceptSpare .ready).serving = .closingSpare spare) :
    system.run s emfileRound = some (((s.closeIdle.acceptSpare .ready).closeSpare spare).reopen true) := by
  have haccept : ({ s with serving := .closingIdle } : ServerSocketChannel).step .closeIdle =
      some s.closeIdle := by
    by_cases hidle : 0 ≤ s.idleFd
    · simp [step, closeIdle, closeFd, hidle]
    · simp [step, closeIdle, closeFd, hidle]
  have hspareStep : s.closeIdle.step (.acceptSpare .ready) = some (s.closeIdle.acceptSpare .ready) := by
    simp [step, closeIdle]
  have hrest := run_closeSpare_reopen hspare
  simp only [emfileRound, System.run_cons, system, step_handleReadEvent_of_full hpolling hfull, haccept,
    hspareStep, Option.bind_some] at hrest ⊢
  exact hrest

theorem reopen_of_free (fd : FdType) (h : s.descriptors.lowestFree = some fd) :
    s.reopen true =
      { s with descriptors := s.descriptors.put fd .idle, idleFd := fd, serving := .polling } := by
  simp [reopen, newFile, Descriptors.openFile, h]

theorem reopen_of_full (h : s.descriptors.lowestFree = none) :
    s.reopen true = { s with idleFd := kInvalidFd, serving := .polling } := by
  simp [reopen, newFile, Descriptors.openFile, h]

@[simp] theorem closeFd_kInvalidFd (s : ServerSocketChannel) : s.closeFd kInvalidFd = s := by
  simp [closeFd, kInvalidFd]

theorem closeIdle_of_reserve (h : 0 ≤ s.idleFd) :
    s.closeIdle =
      { s with
        descriptors := s.descriptors.closeFile s.idleFd
        closed := s.closed ++ [s.descriptors.files s.idleFd]
        serving := .acceptingSpare } := by
  simp [closeIdle, closeFd, h]

theorem closeIdle_of_none (h : ¬ 0 ≤ s.idleFd) : s.closeIdle = { s with serving := .acceptingSpare } := by
  simp [closeIdle, closeFd, h]

/-- The number of the reserve is the only one that is free inside the round, so that the connection and
the new reserve both get it. -/
theorem run_emfileRound_of_reserve (hacc : Accounted s) (hpolling : s.serving = .polling)
    (hfull : s.descriptors.lowestFree = none) (hidle : 0 ≤ s.idleFd) :
    ∃ t, system.run s emfileRound = some t ∧ SameAfterRound s t ∧ t.backlog = s.backlog.drop 1 ∧
      t.refused = s.refused ++ s.backlog.take 1 := by
  have hentry : (s.idleFd, OpenFile.idle) ∈ held s := by
    refine List.mem_append_right _ (List.mem_append_left _ ?_)
    rw [hpolling, entry, if_pos hidle]
    exact List.mem_cons_self
  have hfile := hacc.holds.files_eq hentry
  have hlimit := (hacc.holds.valid _ _ hentry).2
  have hfree := Descriptors.lowestFree_closeFile hfull hidle hlimit
  have hback : (s.descriptors.closeFile s.idleFd).put s.idleFd .idle = s.descriptors := by
    rw [Descriptors.put_closeFile, Descriptors.put_eq_self hfile]
  cases hbacklog : s.backlog with
  | nil =>
      have hspare : s.closeIdle.acceptSpare .ready =
          { s.closeIdle with serving := .closingSpare none } := by
        simp [closeIdle_of_reserve hidle, acceptSpare, accept, hfree, hbacklog]
      have hrun := run_emfileRound none hpolling hfull (by rw [hspare])
      rw [hspare, closeIdle_of_reserve hidle] at hrun
      simp only [closeSpare, closeFd_kInvalidFd] at hrun
      rw [reopen_of_free s.idleFd hfree] at hrun
      exact ⟨_, hrun, ⟨hback, Iff.rfl, rfl⟩, hbacklog, (List.append_nil _).symm⟩
  | cons n backlog =>
      have hspare : s.closeIdle.acceptSpare .ready =
          { s.closeIdle with
            descriptors := (s.descriptors.closeFile s.idleFd).put s.idleFd (.connection n)
            backlog
            taken := s.taken ++ [n]
            serving := .closingSpare (some (s.idleFd, n)) } := by
        simp [closeIdle_of_reserve hidle, acceptSpare, accept, hfree, hbacklog]
      have hagain : ((s.descriptors.closeFile s.idleFd).put s.idleFd (.connection n)).closeFile s.idleFd =
          s.descriptors.closeFile s.idleFd := by
        rw [Descriptors.closeFile_put, Descriptors.closeFile_closeFile]
      have hrun := run_emfileRound (some (s.idleFd, n)) hpolling hfull (by rw [hspare])
      rw [hspare, closeIdle_of_reserve hidle] at hrun
      simp only [closeSpare, closeFd, if_pos hidle, hagain] at hrun
      rw [reopen_of_free s.idleFd hfree] at hrun
      exact ⟨_, hrun, ⟨hback, Iff.rfl, rfl⟩, rfl, rfl⟩

/-- Without a reserve nothing is accepted, and none can be opened. -/
theorem run_emfileRound_of_none (hpolling : s.serving = .polling)
    (hfull : s.descriptors.lowestFree = none) (hidle : ¬ 0 ≤ s.idleFd) :
    ∃ t, system.run s emfileRound = some t ∧ SameAfterRound s t ∧ t.backlog = s.backlog ∧
      t.refused = s.refused := by
  have hspare : s.closeIdle.acceptSpare .ready = { s with serving := .closingSpare none } := by
    simp [closeIdle_of_none hidle, acceptSpare, accept, hfull]
  have hrun := run_emfileRound none hpolling hfull (by rw [hspare])
  rw [hspare] at hrun
  simp only [closeSpare, closeFd_kInvalidFd] at hrun
  rw [reopen_of_full (s := { s with serving := .reopening }) hfull] at hrun
  refine ⟨_, hrun, ⟨rfl, ?_, rfl⟩, rfl, rfl⟩
  simp [kInvalidFd, hidle]

/-- With no descriptor left, `k` events of the socket refuse the `k` oldest of the waiting connections if
the server has its reserve, and otherwise none at all: the socket stays readable. -/
theorem run_emfileRounds (hs : system.Reachable s) (hpolling : s.serving = .polling)
    (hfull : s.descriptors.lowestFree = none) (k : ℕ) :
    ∃ t, system.run s (List.replicate k emfileRound).flatten = some t ∧ SameAfterRound s t ∧
      t.backlog = (if 0 ≤ s.idleFd then s.backlog.drop k else s.backlog) ∧
      t.refused = s.refused ++ if 0 ≤ s.idleFd then s.backlog.take k else [] := by
  induction k generalizing s with
  | zero => exact ⟨s, rfl, ⟨rfl, Iff.rfl, hpolling⟩, by simp, by simp⟩
  | succ k ih =>
      obtain ⟨u, hround, hsame, hbacklog, hrefused⟩ : ∃ u, system.run s emfileRound = some u ∧
          SameAfterRound s u ∧ u.backlog = (if 0 ≤ s.idleFd then s.backlog.drop 1 else s.backlog) ∧
          u.refused = s.refused ++ if 0 ≤ s.idleFd then s.backlog.take 1 else [] := by
        by_cases hidle : 0 ≤ s.idleFd
        · simpa only [if_pos hidle] using
            run_emfileRound_of_reserve (accounted_of_reachable hs) hpolling hfull hidle
        · simpa only [if_neg hidle, List.append_nil] using
            run_emfileRound_of_none hpolling hfull hidle
      obtain ⟨t, hrest, hsame', hbacklog', hrefused'⟩ :=
        ih (hs.run system hround) hsame.polling (hsame.descriptors ▸ hfull)
      simp only [hsame.idleFd] at hbacklog' hrefused'
      refine ⟨t, ?_, ⟨hsame'.descriptors.trans hsame.descriptors, hsame'.idleFd.trans hsame.idleFd,
        hsame'.polling⟩, ?_, ?_⟩
      · rw [List.replicate_succ, List.flatten_cons, System.run_append, hround, Option.bind_some, hrest]
      · rw [hbacklog', hbacklog, Nat.add_comm]
        split
        · exact List.drop_drop
        · rfl
      · rw [hrefused', hrefused, hbacklog, List.append_assoc, Nat.add_comm]
        split
        · rw [List.take_add]
        · rfl

/-- A process of three descriptors serves one client and refuses the next. -/
theorem run_emfileRounds_one :
    ∃ s t, system.Reachable s ∧ system.run s emfileRound = some t ∧ t.backlog = [] ∧
      t.refused = [1] := by
  have hinitial : system.ReachableUnder (fun _ _ => True) (create 3) := .initial ⟨3, rfl⟩
  obtain ⟨s, hs, hserving, hfull, hidle, hbacklog, hrefused⟩ := hinitial.exists_of_runUnder _
    (P := fun s => s.serving = .polling ∧ s.descriptors.lowestFree = none ∧ 0 ≤ s.idleFd ∧
      s.backlog = [1] ∧ s.refused = [])
    [.construct true, .createSocket true, .bind true, .connect, .handleReadEvent .ready,
      .initSocketChannel .registered, .connect] (by decide)
  obtain ⟨t, ht, -, hback, href⟩ := run_emfileRounds hs hserving hfull 1
  refine ⟨s, t, hs, ?_, ?_, ?_⟩
  · simpa using ht
  · rw [hback, if_pos hidle, hbacklog]
    rfl
  · rw [href, if_pos hidle, hbacklog, hrefused]
    rfl

end Nets.ServerSocketChannel
