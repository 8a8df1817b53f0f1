import Nets.Program.SocketChannel

/-! # The batches of `writev`

The blocks are offered in batches of `kMaxCountOfWriteVOnce`. Only the first batch is compared
with its own length, so only there does a partial acceptance end the loop; a later call may
accept bytes behind a batch that was cut short. -/

namespace Nets.Session

open Library

variable {β : Type}

/-- What each call offers. -/
def batches (blocks : List (List β)) : List (List β) :=
  if blocks = [] then []
  else (blocks.take kMaxCountOfWriteVOnce).flatten :: batches (blocks.drop kMaxCountOfWriteVOnce)
termination_by blocks.length
decreasing_by
  rename_i h
  have hpos := List.length_pos_iff.mpr h
  simp only [List.length_drop, kMaxCountOfWriteVOnce]
  omega

@[simp] theorem batches_nil : batches ([] : List (List β)) = [] := by
  rw [batches, if_pos rfl]

theorem batches_of_ne_nil {blocks : List (List β)} (h : blocks ≠ []) :
    batches blocks = (blocks.take kMaxCountOfWriteVOnce).flatten ::
      batches (blocks.drop kMaxCountOfWriteVOnce) := by
  rw [batches, if_neg h]

/-- The calls that follow accept no byte, up to the first that fails. -/
def Silent : List (List β) → List Answer → Prop
  | batch :: batches, .accepted bytes :: answers => batch.take bytes = [] ∧ Silent batches answers
  | _, _ => True

/-- No call accepts bytes after one that was cut short. -/
def NoGap : List (List β) → List Answer → Prop
  | batch :: batches, .accepted bytes :: answers =>
    (bytes < batch.length → Silent batches answers) ∧ NoGap batches answers
  | _, _ => True

/-- The first call ends the loop when it is cut short; after it there is no gap. -/
def Contiguous : List (List β) → List Answer → Prop
  | batch :: batches, .accepted bytes :: answers => batch.length ≤ bytes → NoGap batches answers
  | _, _ => True

theorem contiguous_singleton (batches : List (List β)) (answer : Answer) :
    Contiguous batches [answer] := by
  cases batches with
  | nil => trivial
  | cons batch batches =>
      cases answer with
      | accepted bytes => exact fun _ => by cases batches <;> trivial
      | failed errNum => trivial

/-- The blocks the loop can reach from `writtenBlocks` on. -/
def left (iovecs : List (List β)) (count writtenBlocks : ℕ) : List (List β) :=
  (iovecs.take count).drop writtenBlocks

theorem left_ne_nil {iovecs : List (List β)} {count writtenBlocks : ℕ}
    (hcount : count ≤ iovecs.length) (h : writtenBlocks < count) :
    left iovecs count writtenBlocks ≠ [] := by
  rw [← List.length_pos_iff]
  simp only [left, List.length_drop, List.length_take]
  omega

theorem batchSize_pos {n : ℕ} (h : 0 < n) : 0 < batchSize n := by
  unfold batchSize kMaxCountOfWriteVOnce
  split <;> omega

theorem batchSize_le (n : ℕ) : batchSize n ≤ n := by
  unfold batchSize
  split <;> omega

theorem batchSize_le_max (n : ℕ) : batchSize n ≤ kMaxCountOfWriteVOnce := by
  unfold batchSize
  split <;> omega

/-- What the next call offers is the first batch of what is left. -/
theorem offered_eq (iovecs : List (List β)) (count : ℕ) (w : WriteV β) :
    w.offered iovecs (batchSize (count - w.writtenBlocks)) =
      ((left iovecs count w.writtenBlocks).take
        (batchSize (count - w.writtenBlocks))).flatten := by
  rw [WriteV.offered, left, List.drop_take, List.take_take, Nat.min_eq_left (batchSize_le _)]

theorem left_next (iovecs : List (List β)) (count writtenBlocks blocks : ℕ) :
    left iovecs count (writtenBlocks + blocks) = (left iovecs count writtenBlocks).drop blocks := by
  rw [left, left, List.drop_drop]

theorem flatten_left (iovecs : List (List β)) (count : ℕ) (w : WriteV β) :
    (left iovecs count w.writtenBlocks).flatten =
      w.offered iovecs (batchSize (count - w.writtenBlocks)) ++
        (left iovecs count (w.writtenBlocks + batchSize (count - w.writtenBlocks))).flatten := by
  rw [offered_eq, left_next, ← List.flatten_append, List.take_append_drop]

theorem batches_left {iovecs : List (List β)} {count : ℕ} {w : WriteV β}
    (hcount : count ≤ iovecs.length) (h : w.writtenBlocks < count) :
    batches (left iovecs count w.writtenBlocks) =
      w.offered iovecs (batchSize (count - w.writtenBlocks)) ::
        batches (left iovecs count (w.writtenBlocks + batchSize (count - w.writtenBlocks))) := by
  have hlength : (left iovecs count w.writtenBlocks).length = count - w.writtenBlocks := by
    simp only [left, List.length_drop, List.length_take]
    omega
  rw [batches_of_ne_nil (left_ne_nil hcount h), offered_eq, left_next]
  by_cases hlast : count - w.writtenBlocks < kMaxCountOfWriteVOnce
  · rw [batchSize, if_pos hlast, List.take_of_length_le (by omega),
      List.drop_of_length_le (by omega), List.take_of_length_le (by omega),
      List.drop_of_length_le (by omega)]
  · rw [batchSize, if_neg hlast]

/-! ## The loop -/

theorem writevBatch_done {iovecs : List (List β)} {count : ℕ} {w : WriteV β}
    (h : ¬ w.writtenBlocks < count) :
    writevBatch iovecs count w = .inr (w.sent, .ok w.writtenBytes) := by
  rw [writevBatch, if_neg h]

theorem writevBatch_failed (iovecs : List (List β)) {count : ℕ} {w : WriteV β}
    (h : w.writtenBlocks < count) {errNum : ℕ}
    (hanswer : w.answers.headD (.failed EAGAIN) = .failed errNum) :
    ∃ result, writevBatch iovecs count w = .inr (w.sent, result) ∧
      ∀ n, result = .ok n → n = w.writtenBytes := by
  rw [writevBatch, if_pos h]
  simp only [hanswer]
  refine ⟨_, rfl, fun n hn => ?_⟩
  split at hn
  · exact (Except.ok.inj hn).symm
  · cases hn

/-- The first batch is compared with its own length. -/
theorem writevBatch_first (iovecs : List (List β)) {count : ℕ} {w : WriteV β}
    (h : w.writtenBlocks < count) (hzero : w.writtenBlocks = 0) {bytes : ℕ}
    (hanswer : w.answers.headD (.failed EAGAIN) = .accepted bytes) {offered : List β}
    (hoffered : w.offered iovecs (batchSize (count - w.writtenBlocks)) = offered) :
    writevBatch iovecs count w =
      if bytes < offered.length then
        .inr (w.sent ++ offered.take bytes, .ok (w.writtenBytes + (offered.take bytes).length))
      else .inl (w.next (batchSize (count - w.writtenBlocks)) (offered.take bytes)) := by
  have hlength : w.expectedWriteLen iovecs (batchSize (count - w.writtenBlocks)) =
      offered.length := by
    rw [← hoffered, WriteV.offered, WriteV.expectedWriteLen, List.length_flatten, hzero]
    rfl
  have hshort : (offered.take bytes).length < offered.length ↔ bytes < offered.length := by
    rw [List.length_take]
    omega
  rw [writevBatch, if_pos h]
  simp only [hanswer, hoffered, hlength]
  exact if_congr hshort rfl rfl

/-- A later batch is compared with nothing. -/
theorem writevBatch_later (iovecs : List (List β)) {count : ℕ} {w : WriteV β}
    (h : w.writtenBlocks < count) (hlater : kMaxCountOfWriteVOnce ≤ w.writtenBlocks) {bytes : ℕ}
    (hanswer : w.answers.headD (.failed EAGAIN) = .accepted bytes) {offered : List β}
    (hoffered : w.offered iovecs (batchSize (count - w.writtenBlocks)) = offered) :
    writevBatch iovecs count w =
      .inl (w.next (batchSize (count - w.writtenBlocks)) (offered.take bytes)) := by
  have hzero : w.expectedWriteLen iovecs (batchSize (count - w.writtenBlocks)) = 0 := by
    have hle := batchSize_le_max (count - w.writtenBlocks)
    have hnil : (iovecs.take (batchSize (count - w.writtenBlocks))).drop w.writtenBlocks = [] := by
      rw [List.drop_eq_nil_iff, List.length_take]
      omega
    rw [WriteV.expectedWriteLen, hnil]
    rfl
  rw [writevBatch, if_pos h]
  simp only [hanswer, hoffered, hzero, Nat.not_lt_zero, if_false]

theorem writevBatch_continue {iovecs : List (List β)} {count : ℕ} {w w' : WriteV β}
    (h : writevBatch iovecs count w = .inl w') :
    w.writtenBlocks < count ∧
      w'.writtenBlocks = w.writtenBlocks + batchSize (count - w.writtenBlocks) := by
  unfold writevBatch at h
  split at h
  · rename_i hlt
    refine ⟨hlt, ?_⟩
    simp only at h
    split at h
    · cases h
    · split at h
      · cases h
      · obtain rfl := Sum.inl.inj h
        rfl
  · cases h

/-- Every round that goes on moves to a later block, so the loop ends. -/
theorem writev_terminates (iovecs : List (List β)) (count : ℕ) {fuel : ℕ} {w : WriteV β}
    (hle : w.writtenBlocks ≤ count) (hfuel : count < w.writtenBlocks + fuel) :
    ∃ r, Loop.run (writevBatch iovecs count) fuel w = some r := by
  induction fuel generalizing w with
  | zero => omega
  | succ fuel ih =>
      cases hround : writevBatch iovecs count w with
      | inr r => exact ⟨r, Loop.run_succ_of_leave hround fuel⟩
      | inl w' =>
          obtain ⟨hlt, hnext⟩ := writevBatch_continue hround
          have hpos := batchSize_pos (Nat.sub_pos_of_lt hlt)
          have hbatch := batchSize_le (count - w.writtenBlocks)
          rw [Loop.run_succ_of_continue hround]
          exact ih (by omega) (by omega)

theorem exists_answers {answers : List Answer} {bytes : ℕ}
    (h : answers.headD (.failed EAGAIN) = .accepted bytes) :
    ∃ rest, answers = .accepted bytes :: rest := by
  cases answers with
  | nil => cases h
  | cons answer rest => exact ⟨rest, congrArg (· :: rest) h⟩

/-- After a batch was cut short, silent calls leave the result as it is. -/
theorem run_silent {iovecs : List (List β)} {count fuel : ℕ} {w : WriteV β} {sent : List β}
    {result : Except ℕ ℕ} (hcount : count ≤ iovecs.length)
    (hlater : kMaxCountOfWriteVOnce ≤ w.writtenBlocks)
    (hsilent : Silent (batches (left iovecs count w.writtenBlocks)) w.answers)
    (h : Loop.run (writevBatch iovecs count) fuel w = some (sent, result)) :
    sent = w.sent ∧ ∀ n, result = .ok n → n = w.writtenBytes := by
  induction fuel generalizing w with
  | zero => cases h
  | succ fuel ih =>
      by_cases hlt : w.writtenBlocks < count
      · cases hanswer : w.answers.headD (.failed EAGAIN) with
        | failed errNum =>
            obtain ⟨result', hround, hresult⟩ := writevBatch_failed iovecs hlt hanswer
            rw [Loop.run_succ_of_leave hround] at h
            obtain ⟨rfl, rfl⟩ := Prod.mk.inj (Option.some.inj h)
            exact ⟨rfl, hresult⟩
        | accepted bytes =>
            obtain ⟨answers, hanswers⟩ := exists_answers hanswer
            rw [batches_left hcount hlt, hanswers] at hsilent
            obtain ⟨hnone, hrest⟩ := hsilent
            have hround := writevBatch_later iovecs hlt hlater hanswer rfl
            rw [hnone] at hround
            rw [Loop.run_succ_of_continue hround] at h
            have hnext := ih (hlater.trans (Nat.le_add_right _ _))
              (by simpa [WriteV.next, hanswers] using hrest) h
            simpa [WriteV.next] using hnext
      · rw [Loop.run_succ_of_leave (writevBatch_done hlt)] at h
        obtain ⟨rfl, rfl⟩ := Prod.mk.inj (Option.some.inj h)
        exact ⟨rfl, fun n hn => (Except.ok.inj hn).symm⟩

/-- The bytes taken are the first `m` of `offered`, and `m` is what is reported. -/
def Prefix (offered : List β) (w : WriteV β) (sent : List β) (result : Except ℕ ℕ) : Prop :=
  ∃ m ≤ offered.length, sent = w.sent ++ offered.take m ∧
    ∀ n, result = .ok n → n = w.writtenBytes + m

theorem prefix_of_stop (offered : List β) (w : WriteV β) {result : Except ℕ ℕ}
    (h : ∀ n, result = .ok n → n = w.writtenBytes) : Prefix offered w w.sent result :=
  ⟨0, Nat.zero_le _, by simp, h⟩

/-- A call cut short, after which nothing is taken. -/
theorem prefix_of_short {offered rest : List β} {w : WriteV β} {bytes : ℕ} {sent : List β}
    {result : Except ℕ ℕ} (hshort : bytes < offered.length)
    (hsent : sent = w.sent ++ offered.take bytes)
    (hresult : ∀ n, result = .ok n → n = w.writtenBytes + (offered.take bytes).length) :
    Prefix (offered ++ rest) w sent result := by
  refine ⟨bytes, by simp; omega, ?_, fun n hn => ?_⟩
  · rw [hsent, List.take_append_of_le_length (Nat.le_of_lt hshort)]
  · rw [hresult n hn, List.length_take, Nat.min_eq_left (Nat.le_of_lt hshort)]

/-- A call that took everything, followed by the rest of the loop. -/
theorem prefix_of_full {offered rest : List β} {w : WriteV β} {blocks : ℕ} {sent : List β}
    {result : Except ℕ ℕ} (h : Prefix rest (w.next blocks offered) sent result) :
    Prefix (offered ++ rest) w sent result := by
  obtain ⟨m, hm, hsent, hresult⟩ := h
  refine ⟨offered.length + m, by simpa using hm, ?_, fun n hn => ?_⟩
  · rw [hsent, List.take_length_add_append]
    simp [WriteV.next]
  · rw [hresult n hn]
    simp only [WriteV.next]
    omega

/-- From the second batch on: without a gap the calls take a prefix of what is left. -/
theorem run_noGap {iovecs : List (List β)} {count fuel : ℕ} {w : WriteV β} {sent : List β}
    {result : Except ℕ ℕ} (hcount : count ≤ iovecs.length)
    (hlater : kMaxCountOfWriteVOnce ≤ w.writtenBlocks)
    (hnoGap : NoGap (batches (left iovecs count w.writtenBlocks)) w.answers)
    (h : Loop.run (writevBatch iovecs count) fuel w = some (sent, result)) :
    Prefix (left iovecs count w.writtenBlocks).flatten w sent result := by
  induction fuel generalizing w with
  | zero => cases h
  | succ fuel ih =>
      by_cases hlt : w.writtenBlocks < count
      · cases hanswer : w.answers.headD (.failed EAGAIN) with
        | failed errNum =>
            obtain ⟨result', hround, hresult⟩ := writevBatch_failed iovecs hlt hanswer
            rw [Loop.run_succ_of_leave hround] at h
            obtain ⟨rfl, rfl⟩ := Prod.mk.inj (Option.some.inj h)
            exact prefix_of_stop _ w hresult
        | accepted bytes =>
            obtain ⟨answers, hanswers⟩ := exists_answers hanswer
            have hnext := hlater.trans
              (Nat.le_add_right w.writtenBlocks (batchSize (count - w.writtenBlocks)))
            rw [batches_left hcount hlt, hanswers] at hnoGap
            obtain ⟨hsilent, hrest⟩ := hnoGap
            rw [Loop.run_succ_of_continue (writevBatch_later iovecs hlt hlater hanswer rfl)] at h
            rw [flatten_left]
            by_cases hshort : bytes < (w.offered iovecs (batchSize (count - w.writtenBlocks))).length
            · obtain ⟨hsent, hresult⟩ := run_silent hcount hnext
                (by simpa [WriteV.next, hanswers] using hsilent hshort) h
              exact prefix_of_short hshort hsent hresult
            · rw [List.take_of_length_le (Nat.le_of_not_lt hshort)] at h
              exact prefix_of_full (ih hnext (by simpa [WriteV.next, hanswers] using hrest) h)
      · rw [Loop.run_succ_of_leave (writevBatch_done hlt)] at h
        obtain ⟨rfl, rfl⟩ := Prod.mk.inj (Option.some.inj h)
        exact prefix_of_stop _ w fun n hn => (Except.ok.inj hn).symm

/-- The blocks that `writev` can reach, as the kernel is offered them. -/
def offers (iovecs : List (List β)) : List (List β) :=
  batches (iovecs.take (blockCount iovecs.length))

theorem blockCount_le (size : ℕ) : blockCount size ≤ size := by
  have hmod : (BitVec.ofNat 32 size).toNat ≤ size := by
    rw [BitVec.toNat_ofNat]
    exact Nat.mod_le _ _
  rw [blockCount, BitVec.toInt_eq_toNat_cond]
  split
  · rw [Int.toNat_natCast]
    exact hmod
  · have hlt := (BitVec.ofNat 32 size).isLt
    omega

/-- `writev` does not report `EAGAIN` or `EINTR`. -/
theorem writev_error {iovecs : List (List β)} {answers : List Answer} {sent : List β}
    {errNum : ℕ} (h : writev iovecs answers = some (sent, .error errNum)) :
    ¬ (errNum = EAGAIN ∨ errNum = EINTR) := by
  have hfatal : ∀ e, Except.error (ε := ℕ) (α := ℕ) errNum = .error e →
      ¬ (e = EAGAIN ∨ e = EINTR) := by
    refine Loop.Returns.of_invariant (I := fun _ => True)
      (Q := fun r : List β × Except ℕ ℕ => ∀ e, r.2 = .error e → ¬ (e = EAGAIN ∨ e = EINTR))
      (fun _ _ _ _ => trivial) ?_ trivial ⟨_, h⟩
    intro w r _ hr e he
    unfold writevBatch at hr
    split at hr
    · simp only at hr
      split at hr
      · obtain rfl := Sum.inr.inj hr
        simp only at he
        split at he
        · cases he
        · rename_i hne
          obtain rfl := Except.error.inj he
          exact hne
      · split at hr
        · obtain rfl := Sum.inr.inj hr
          cases he
        · cases hr
    · obtain rfl := Sum.inr.inj hr
      cases he
  exact hfatal errNum rfl

/-- The loop that has reached the last block is done. -/
theorem run_done {iovecs : List (List β)} {count fuel : ℕ} {w : WriteV β} {sent : List β}
    {result : Except ℕ ℕ} (hdone : count ≤ w.writtenBlocks) (offered : List β)
    (h : Loop.run (writevBatch iovecs count) fuel w = some (sent, result)) :
    Prefix offered w sent result := by
  cases fuel with
  | zero => cases h
  | succ fuel =>
      rw [Loop.run_succ_of_leave (writevBatch_done (Nat.not_lt.mpr hdone))] at h
      obtain ⟨rfl, rfl⟩ := Prod.mk.inj (Option.some.inj h)
      exact prefix_of_stop _ w fun n hn => (Except.ok.inj hn).symm

/-- The whole loop: the first call ends it when cut short, the others must leave no gap. -/
theorem run_contiguous {iovecs : List (List β)} {count fuel : ℕ} {w : WriteV β} {sent : List β}
    {result : Except ℕ ℕ} (hcount : count ≤ iovecs.length) (hzero : w.writtenBlocks = 0)
    (hok : Contiguous (batches (left iovecs count w.writtenBlocks)) w.answers)
    (h : Loop.run (writevBatch iovecs count) fuel w = some (sent, result)) :
    Prefix (left iovecs count w.writtenBlocks).flatten w sent result := by
  by_cases hlt : w.writtenBlocks < count
  · cases fuel with
    | zero => cases h
    | succ fuel =>
        cases hanswer : w.answers.headD (.failed EAGAIN) with
        | failed errNum =>
            obtain ⟨result', hround, hresult⟩ := writevBatch_failed iovecs hlt hanswer
            rw [Loop.run_succ_of_leave hround] at h
            obtain ⟨rfl, rfl⟩ := Prod.mk.inj (Option.some.inj h)
            exact prefix_of_stop _ w hresult
        | accepted bytes =>
            obtain ⟨answers, hanswers⟩ := exists_answers hanswer
            rw [batches_left hcount hlt, hanswers] at hok
            have hround := writevBatch_first iovecs hlt hzero hanswer rfl
            rw [flatten_left]
            by_cases hshort : bytes < (w.offered iovecs (batchSize (count - w.writtenBlocks))).length
            · rw [if_pos hshort] at hround
              rw [Loop.run_succ_of_leave hround] at h
              obtain ⟨rfl, rfl⟩ := Prod.mk.inj (Option.some.inj h)
              exact prefix_of_short hshort rfl
                fun n hn => (Except.ok.inj hn).symm
            · rw [if_neg hshort, List.take_of_length_le (Nat.le_of_not_lt hshort)] at hround
              rw [Loop.run_succ_of_continue hround] at h
              by_cases hlast : count - w.writtenBlocks < kMaxCountOfWriteVOnce
              · refine prefix_of_full (run_done ?_ _ h)
                simp only [WriteV.next, batchSize, hlast, if_true]
                omega
              · refine prefix_of_full (run_noGap hcount ?_ ?_ h)
                · simp only [WriteV.next, batchSize, hlast, if_false]
                  omega
                · simpa [WriteV.next, hanswers] using hok (Nat.le_of_not_lt hshort)
  · exact run_done (Nat.le_of_not_lt hlt) _ h

/-- Without a gap the calls of one `writev` take a prefix of all blocks, of the length that
`writev` reports. -/
theorem writev_spec {iovecs : List (List β)} {answers : List Answer} {sent : List β}
    {result : Except ℕ ℕ} (hok : Contiguous (offers iovecs) answers)
    (h : writev iovecs answers = some (sent, result)) :
    ∃ m ≤ iovecs.flatten.length, sent = iovecs.flatten.take m ∧ ∀ n, result = .ok n → n = m := by
  have hcount := blockCount_le iovecs.length
  have hrun : Prefix (left iovecs (blockCount iovecs.length) 0).flatten
      { writtenBlocks := 0, writtenBytes := 0, answers, sent := [] } sent result :=
    run_contiguous (w := ⟨0, 0, answers, []⟩) hcount rfl hok h
  obtain ⟨m, hm, hsent, hresult⟩ := hrun
  have hsplit : iovecs.flatten = (left iovecs (blockCount iovecs.length) 0).flatten ++
      (iovecs.drop (blockCount iovecs.length)).flatten := by
    rw [left, List.drop_zero, ← List.flatten_append, List.take_append_drop]
  refine ⟨m, ?_, ?_, fun n hn => (hresult n hn).trans (Nat.zero_add m)⟩
  · rw [hsplit, List.length_append]
    omega
  · rw [hsent, hsplit, List.take_append_of_le_length hm, List.nil_append]

/-! ## Counting -/

/-- What is reported so far is what was taken, from the blocks offered so far. -/
structure WriteV.Counts (iovecs : List (List β)) (w : WriteV β) : Prop where
  reported : w.writtenBytes = w.sent.length
  reached : w.sent.length ≤ (iovecs.take w.writtenBlocks).flatten.length

theorem WriteV.Counts.next {iovecs : List (List β)} {w : WriteV β} (hw : w.Counts iovecs)
    (blocks bytes : ℕ) : (w.next blocks ((w.offered iovecs blocks).take bytes)).Counts iovecs := by
  have hreported := hw.reported
  have hreached := hw.reached
  refine ⟨by simp [WriteV.next, hreported], ?_⟩
  simp only [WriteV.next, List.take_add, List.flatten_append, List.length_append]
  have htake := List.length_take_le' bytes (w.offered iovecs blocks)
  rw [WriteV.offered] at htake ⊢
  omega

theorem WriteV.Counts.le {iovecs : List (List β)} {w : WriteV β} (hw : w.Counts iovecs) :
    w.sent.length ≤ iovecs.flatten.length := by
  have hsplit := congrArg List.length
    (congrArg List.flatten (List.take_append_drop w.writtenBlocks iovecs))
  rw [List.flatten_append, List.length_append] at hsplit
  have hreached := hw.reached
  omega

theorem WriteV.Counts.round {iovecs : List (List β)} {count : ℕ} {w w' : WriteV β}
    (hw : w.Counts iovecs) (h : writevBatch iovecs count w = .inl w') : w'.Counts iovecs := by
  rw [writevBatch] at h
  split at h
  · simp only at h
    split at h
    · cases h
    · split at h
      · cases h
      · rw [← Sum.inl.inj h]
        exact hw.next _ _
  · cases h

theorem WriteV.Counts.leave {iovecs : List (List β)} {count : ℕ} {w : WriteV β}
    {r : List β × Except ℕ ℕ} (hw : w.Counts iovecs) (h : writevBatch iovecs count w = .inr r)
    {n : ℕ} (hn : r.2 = .ok n) : n = r.1.length ∧ n ≤ iovecs.flatten.length := by
  have hdone : ∀ w' : WriteV β, w'.Counts iovecs → r = (w'.sent, .ok w'.writtenBytes) →
      n = r.1.length ∧ n ≤ iovecs.flatten.length := by
    rintro w' hw' rfl
    obtain rfl := Except.ok.inj hn
    exact ⟨hw'.reported, hw'.reported ▸ hw'.le⟩
  rw [writevBatch] at h
  split at h
  · simp only at h
    split at h
    · obtain rfl := Sum.inr.inj h
      simp only at hn
      split at hn
      case isTrue hmild => exact hdone w hw (by simp [hmild])
      case isFalse => cases hn
    · split at h
      · exact hdone _ (hw.next _ _) (Sum.inr.inj h).symm
      · cases h
  · exact hdone w hw (Sum.inr.inj h).symm

/-- What `writev` reports is what was taken, and no more than there is. -/
theorem writev_count {iovecs : List (List β)} {answers : List Answer} {sent : List β} {n : ℕ}
    (h : writev iovecs answers = some (sent, .ok n)) :
    n = sent.length ∧ n ≤ iovecs.flatten.length :=
  Loop.Returns.of_invariant (I := fun w => WriteV.Counts iovecs w)
    (Q := fun r : List β × Except ℕ ℕ => ∀ k, r.2 = .ok k →
      k = r.1.length ∧ k ≤ iovecs.flatten.length)
    (fun _ _ hw hround => hw.round hround) (fun _ _ hw hround _ hk => hw.leave hround hk)
    ⟨rfl, Nat.zero_le _⟩ ⟨_, h⟩ n rfl

end Nets.Session
