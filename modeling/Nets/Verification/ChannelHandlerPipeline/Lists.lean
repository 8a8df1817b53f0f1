import Nets.Verification.ChannelHandlerPipeline.Sharing

/-! # Pipelines refine lists

The operations of one pipeline against those of a list. Handlers outside the list are linked to nothing,
so that a handler that was removed comes back as it was constructed. -/

namespace Nets.ChannelHandlerPipeline

open Library

variable {η : Type} [DecidableEq η] {fuel : ℕ} {names : η → String} {next next' : Links η}
  {pipeline pipeline' : ChannelHandlerPipeline η} {xs ys : List η} {a b : η}

/-! ## Lists -/

def listExecute (names : η → String) (xs : List η) : Operation η → Option (List η × Output η)
  | .addFirst channelHandler => some (channelHandler.toList ++ xs, .done)
  | .addLast channelHandler => some (xs ++ channelHandler.toList, .done)
  | .removeFirst => some (xs.tail, .handler xs.head?)
  | .removeLast => some (xs.dropLast, .handler xs.getLast?)
  | .removeName name =>
    if name = "" then some (xs, .handler none)
    else
      some (xs.eraseP fun handler => names handler = name,
        .handler (xs.find? fun handler => names handler = name))
  | .removeHandler none => some (xs, .removed false)
  | .removeHandler (some channelHandler) =>
    some (xs.erase channelHandler, .removed (channelHandler ∈ xs))

def listMachine (names : η → String) : Machine (List η) (Operation η) (Output η) :=
  ⟨listExecute names⟩

/-- A handler that is added is not in the list. -/
def AddsFree (xs : List η) : Operation η → Prop
  | .addFirst (some channelHandler) | .addLast (some channelHandler) => channelHandler ∉ xs
  | _ => True

/-! ## Removing from the links -/

theorem Holds.addFirst (h : Holds next pipeline xs) (ha : a ∉ xs) :
    Holds (addFirst (some a) next pipeline).1 (addFirst (some a) next pipeline).2 (a :: xs) := by
  cases xs with
  | nil =>
      have hhead : pipeline.headChannelHandler = none := h.linked.eq_none_of_nil
      simpa [ChannelHandlerPipeline.addFirst, hhead] using h.single
  | cons b xs =>
      have hhead : pipeline.headChannelHandler = some b := h.linked.eq_some_of_cons.1
      simp only [ChannelHandlerPipeline.addFirst, hhead, Option.isSome_some, if_true]
      refine ⟨.cons ?_, fun c hc => ?_⟩
      · rw [Function.update_self, ← hhead]
        apply h.linked.congr
        intro c hc
        exact Function.update_of_ne (ne_of_mem_of_not_mem hc ha) _ _
      · rw [List.mem_cons, not_or] at hc
        rw [Function.update_of_ne hc.1]
        exact h.free c hc.2

/-- A handler is taken out: the others are linked as before, and the handler is linked to nothing. -/
structure TakesOut (next next' : Links η) (pipeline' : ChannelHandlerPipeline η) (a : η)
    (others : List η) : Prop where
  linked : Linked next' pipeline'.headChannelHandler others
  unlinked : next' a = none
  outside : ∀ c, c ≠ a → c ∉ others → next' c = next c

omit [DecidableEq η] in
theorem TakesOut.holds {others : List η} (ht : TakesOut next next' pipeline' a others)
    (h : Holds next pipeline xs) (hxs : ∀ c ∈ xs, c ≠ a → c ∈ others) :
    Holds next' pipeline' others := by
  refine ⟨ht.linked, fun c hc => ?_⟩
  by_cases hca : c = a
  · rw [hca, ht.unlinked]
  · rw [ht.outside c hca hc]
    exact h.free c fun hmem => hc (hxs c hmem hca)

theorem takesOut_unlinkHead (h : Linked next (some a) (a :: xs)) (ha : a ∉ xs) :
    TakesOut next (unlinkHead a next).1 (unlinkHead a next).2 a xs := by
  have htail : Linked next (next a) xs := h.eq_some_of_cons.2
  cases hnext : next a with
  | none =>
      simp only [ChannelHandlerPipeline.unlinkHead, hnext]
      exact ⟨hnext ▸ htail, hnext, fun _ _ _ => rfl⟩
  | some b =>
      simp only [ChannelHandlerPipeline.unlinkHead, hnext]
      refine ⟨?_, Function.update_self .., fun c hca _ => Function.update_of_ne hca ..⟩
      rw [hnext] at htail
      apply htail.congr
      intro c hc
      exact Function.update_of_ne (ne_of_mem_of_not_mem hc ha) _ _

omit [DecidableEq η] in
/-- What the links look like after the handler behind `a` is taken out. -/
theorem takesOut_behind (h : Linked next pipeline.headChannelHandler (xs ++ a :: b :: ys))
    (hnodup : (xs ++ a :: b :: ys).Nodup) (ha : next' a = next b) (hb : next' b = none)
    (hsame : ∀ c, c ≠ a → c ≠ b → next' c = next c) :
    TakesOut next next' pipeline b (xs ++ a :: ys) := by
  have hapart : ∀ c ∈ xs ++ ys, c ≠ a ∧ c ≠ b := by
    have hperm : (xs ++ a :: b :: ys).Perm (a :: b :: (xs ++ ys)) :=
      List.perm_middle.trans (List.perm_middle.cons a)
    obtain ⟨ha, hrest⟩ := List.nodup_cons.mp (hperm.nodup_iff.mp hnodup)
    obtain ⟨hb, -⟩ := List.nodup_cons.mp hrest
    intro c hc
    exact ⟨ne_of_mem_of_not_mem (List.mem_cons_of_mem b hc) ha, ne_of_mem_of_not_mem hc hb⟩
  refine ⟨h.remove ha fun c hc => hsame c (hapart c hc).1 (hapart c hc).2, hb, fun c hcb hc => ?_⟩
  have hca : c ≠ a := by
    rintro rfl
    simp at hc
  exact hsame c hca hcb

theorem unlinkChannelHandler_spec (next : Links η) (hne : a ≠ b) :
    unlinkChannelHandler a b next a = next b ∧ unlinkChannelHandler a b next b = none ∧
      ∀ c, c ≠ a → c ≠ b → unlinkChannelHandler a b next c = next c := by
  cases hb : next b with
  | none =>
      simp only [unlinkChannelHandler, hb]
      refine ⟨Function.update_self .., ?_, fun c hca _ => Function.update_of_ne hca ..⟩
      rw [Function.update_of_ne hne.symm, hb]
  | some c =>
      simp only [unlinkChannelHandler, hb]
      refine ⟨?_, Function.update_self .., fun d hda hdb => ?_⟩
      · rw [Function.update_of_ne hne, Function.update_self]
      · rw [Function.update_of_ne hdb, Function.update_of_ne hda]

theorem takesOut_removeFirst (h : Linked next pipeline.headChannelHandler (a :: xs))
    (hnodup : (a :: xs).Nodup) :
    (removeFirst next pipeline).2 = some a ∧
      TakesOut next (removeFirst next pipeline).1.1 (removeFirst next pipeline).1.2 a xs := by
  have hhead : pipeline.headChannelHandler = some a := h.eq_some_of_cons.1
  simp only [ChannelHandlerPipeline.removeFirst, hhead, true_and]
  exact takesOut_unlinkHead (hhead ▸ h) (List.nodup_cons.mp hnodup).1

theorem takesOut_removeLast (h : Linked next pipeline.headChannelHandler (xs ++ [b]))
    (hnodup : (xs ++ [b]).Nodup) (hfuel : xs.length ≤ fuel) :
    ∃ next' pipeline', removeLast fuel next pipeline = some ((next', pipeline'), some b) ∧
      TakesOut next next' pipeline' b xs := by
  have hlast : next b = none := h.next_last
  rcases List.eq_nil_or_concat' xs with rfl | ⟨ys, a, rfl⟩
  · -- the head is the last one
    have hhead : pipeline.headChannelHandler = some b := h.eq_some_of_cons.1
    refine ⟨_, _, ?_, takesOut_unlinkHead (hhead ▸ h) List.not_mem_nil⟩
    simp [ChannelHandlerPipeline.removeLast, hhead, hlast]
  · have hsplit : ys ++ [a] ++ [b] = ys ++ a :: b :: [] := by simp
    rw [hsplit] at h hnodup
    obtain ⟨c, hhead⟩ : ∃ c, pipeline.headChannelHandler = some c :=
      (hsplit ▸ h : Linked next pipeline.headChannelHandler (ys ++ [a] ++ [b])).exists_eq_some
    have hlinked : Linked next (some c) (ys ++ [a, b]) := hhead ▸ h
    obtain ⟨d, hd⟩ : ∃ d, next c = some d := by
      have hmem : c ∈ ys ++ [a] := by
        cases ys with
        | nil => simpa using hlinked.eq_some_of_cons.1
        | cons e ys => simp [Option.some.inj hlinked.eq_some_of_cons.1]
      have hlinked' : Linked next (some c) (ys ++ [a] ++ [b]) := hsplit ▸ hlinked
      obtain ⟨d, -, hd⟩ := hlinked'.next_mem hmem
      exact ⟨d, hd⟩
    have hwalk : findLastPrev fuel next c = some a := by
      rw [findLastPrev, hd]
      apply hlinked.run_seekLastPrev hd
      simp only [List.length_append, List.length_singleton] at hfuel
      omega
    have hba : b ≠ a := by
      rintro rfl
      exact (List.nodup_cons.mp (List.Nodup.of_append_right hnodup)).1 (by simp)
    refine ⟨Function.update next a none, pipeline, ?_, takesOut_behind h hnodup ?_ ?_ ?_⟩
    · simp [ChannelHandlerPipeline.removeLast, hhead, hd, hwalk, h.next_of_append]
    · rw [Function.update_self, hlast]
    · rw [Function.update_of_ne hba, hlast]
    · intro e hea _
      exact Function.update_of_ne hea ..

/-- The first handler that is meant is taken out, wherever it is. -/
theorem takesOut_removeThe (is : η → Bool)
    (h : Linked next pipeline.headChannelHandler (xs ++ b :: ys)) (hnodup : (xs ++ b :: ys).Nodup)
    (hfuel : xs.length ≤ fuel) (hxs : ∀ c ∈ xs, is c = false) (hb : is b = true) :
    ∃ next' pipeline', removeThe fuel is next pipeline = some ((next', pipeline'), some b) ∧
      TakesOut next next' pipeline' b (xs ++ ys) := by
  rcases List.eq_nil_or_concat' xs with rfl | ⟨us, a, rfl⟩
  · rw [List.nil_append] at h hnodup
    have hhead : pipeline.headChannelHandler = some b := h.eq_some_of_cons.1
    refine ⟨_, _, ?_, takesOut_unlinkHead (hhead ▸ h) (List.nodup_cons.mp hnodup).1⟩
    simp [ChannelHandlerPipeline.removeThe, hhead, hb]
  · have hsplit : us ++ [a] ++ b :: ys = us ++ a :: b :: ys := by simp
    have hsplit' : us ++ [a] ++ ys = us ++ a :: ys := by simp
    obtain ⟨c, hhead⟩ : ∃ c, pipeline.headChannelHandler = some c := by
      rw [hsplit] at h
      cases us with
      | nil => exact ⟨a, h.eq_some_of_cons.1⟩
      | cons c us => exact ⟨c, h.eq_some_of_cons.1⟩
    have hc : is c = false := by
      apply hxs
      cases us with
      | nil => simp [Option.some.inj (hhead.symm.trans h.eq_some_of_cons.1)]
      | cons e us => simp [Option.some.inj (hhead.symm.trans h.eq_some_of_cons.1)]
    rw [hsplit] at h hnodup
    rw [hsplit']
    have hwalk : findChannelHandlerPrev fuel is next c = some (some a) := by
      apply Linked.run_seekPrev (hhead ▸ h) (fun d hd => hxs d (List.mem_of_mem_tail hd)) hb
      simp only [List.length_append, List.length_singleton] at hfuel
      omega
    have hnext : next a = some b := h.next_of_append
    have hab : a ≠ b := by
      rintro rfl
      exact (List.nodup_cons.mp (List.Nodup.of_append_right hnodup)).1 (by simp)
    obtain ⟨ha', hb', hsame⟩ := unlinkChannelHandler_spec next hab
    refine ⟨unlinkChannelHandler a b next, pipeline, ?_, takesOut_behind h hnodup ha' hb' hsame⟩
    simp [ChannelHandlerPipeline.removeThe, hhead, hc, hwalk, hnext]

theorem Holds.removeFirst (h : Holds next pipeline xs) (hnodup : xs.Nodup) :
    (removeFirst next pipeline).2 = xs.head? ∧
      Holds (removeFirst next pipeline).1.1 (removeFirst next pipeline).1.2 xs.tail := by
  cases xs with
  | nil =>
      have hhead : pipeline.headChannelHandler = none := h.linked.eq_none_of_nil
      simp only [ChannelHandlerPipeline.removeFirst, hhead]
      exact ⟨rfl, h⟩
  | cons a xs =>
      obtain ⟨hfirst, htaken⟩ := takesOut_removeFirst h.linked hnodup
      exact ⟨hfirst, htaken.holds h fun c hc hca => List.mem_of_ne_of_mem hca hc⟩

theorem Holds.removeLast (h : Holds next pipeline xs) (hnodup : xs.Nodup) (hfuel : xs.length ≤ fuel) :
    ∃ next' pipeline', removeLast fuel next pipeline = some ((next', pipeline'), xs.getLast?) ∧
      Holds next' pipeline' xs.dropLast := by
  rcases List.eq_nil_or_concat' xs with rfl | ⟨ys, b, rfl⟩
  · have hhead : pipeline.headChannelHandler = none := h.linked.eq_none_of_nil
    exact ⟨next, pipeline, by simp [ChannelHandlerPipeline.removeLast, hhead], h⟩
  · rw [List.length_append] at hfuel
    obtain ⟨next', pipeline', hremove, htaken⟩ :=
      takesOut_removeLast h.linked hnodup (Nat.le_of_add_right_le hfuel)
    rw [List.getLast?_concat, List.dropLast_concat]
    refine ⟨next', pipeline', hremove, htaken.holds h fun c hc hcb => ?_⟩
    exact (List.mem_append.mp hc).resolve_right fun hmem => hcb (List.mem_singleton.mp hmem)

/-- Both overloads of `remove`. -/
theorem Holds.removeThe (h : Holds next pipeline xs) (hnodup : xs.Nodup) (hfuel : xs.length ≤ fuel)
    (is : η → Bool) :
    ∃ next' pipeline', removeThe fuel is next pipeline = some ((next', pipeline'), xs.find? is) ∧
      Holds next' pipeline' (xs.eraseP is) := by
  cases hfind : xs.find? is with
  | none =>
      have hnone : ∀ c ∈ xs, is c = false := by simpa using hfind
      rw [List.eraseP_of_forall_not fun c hc => by simp [hnone c hc]]
      refine ⟨next, pipeline, ?_, h⟩
      cases xs with
      | nil =>
          have hhead : pipeline.headChannelHandler = none := h.linked.eq_none_of_nil
          simp [ChannelHandlerPipeline.removeThe, hhead]
      | cons a xs =>
          obtain ⟨hhead, htail⟩ := h.linked.eq_some_of_cons
          obtain ⟨ha, hxs⟩ := List.forall_mem_cons.mp hnone
          have hwalk : findChannelHandlerPrev fuel is next a = some none :=
            htail.run_seekPrev_none hxs hfuel
          simp [ChannelHandlerPipeline.removeThe, hhead, ha, hwalk]
  | some b =>
      obtain ⟨hb, as, bs, rfl, has⟩ := List.find?_eq_some_iff_append.mp hfind
      have has' : ∀ c ∈ as, is c = false := fun c hc => by simpa using has c hc
      rw [List.eraseP_append_right _ fun c hc => by simp [has' c hc], List.eraseP_cons_of_pos hb]
      rw [List.length_append] at hfuel
      obtain ⟨next', pipeline', hremove, htaken⟩ :=
        takesOut_removeThe is h.linked hnodup (Nat.le_of_add_right_le hfuel) has' hb
      refine ⟨next', pipeline', hremove, htaken.holds h fun c hc hcb => ?_⟩
      simp only [List.mem_append, List.mem_cons] at hc ⊢
      exact hc.imp_right fun hmem => hmem.resolve_left hcb

theorem Holds.removeHandler (h : Holds next pipeline xs) (hnodup : xs.Nodup)
    (hfuel : xs.length ≤ fuel) (a : η) :
    ∃ next' pipeline',
      removeHandler fuel (some a) next pipeline = some ((next', pipeline'), decide (a ∈ xs)) ∧
        Holds next' pipeline' (xs.erase a) := by
  obtain ⟨next', pipeline', hremove, hholds⟩ := h.removeThe hnodup hfuel fun handler => handler = a
  have hfound : (xs.find? fun handler => decide (handler = a)).isSome = decide (a ∈ xs) := by
    rw [Bool.eq_iff_iff]
    simp
  have herase : (xs.eraseP fun handler => decide (handler = a)) = xs.erase a := by
    rw [List.erase_eq_eraseP']
    congr 1
  refine ⟨next', pipeline', ?_, herase ▸ hholds⟩
  simp [ChannelHandlerPipeline.removeHandler, hremove, hfound]

/-! ## Runs -/

/-- The pipeline holds the list, which the operations to come do not make longer than the walks. -/
structure Represents (fuel remaining : ℕ) (s : Links η × ChannelHandlerPipeline η) (xs : List η) :
    Prop where
  holds : Holds s.1 s.2 xs
  nodup : xs.Nodup
  length : xs.length + remaining ≤ fuel

/-- One operation: what it returns and what it leaves are those of the list. -/
theorem Represents.execute {remaining : ℕ} {s : Links η × ChannelHandlerPipeline η}
    {operation : Operation η} (h : Represents fuel (remaining + 1) s xs)
    (hfree : AddsFree xs operation) :
    ∃ s' xs' output, execute fuel names s operation = some (s', output) ∧
      listExecute names xs operation = some (xs', output) ∧ Represents fuel remaining s' xs' := by
  obtain ⟨next, pipeline⟩ := s
  obtain ⟨hholds, hnodup, hlength⟩ := h
  replace hholds : Holds next pipeline xs := hholds
  have hfuel : xs.length ≤ fuel := by omega
  -- a part of the list still has room
  have hpart : ∀ {ys : List η}, ys.Sublist xs → ys.length + remaining ≤ fuel := by
    intro ys hys
    have := hys.length_le
    omega
  cases operation with
  | addFirst channelHandler =>
      cases channelHandler with
      | none => exact ⟨_, _, _, rfl, rfl, hholds, hnodup, hpart (.refl xs)⟩
      | some a =>
          refine ⟨_, _, _, rfl, rfl, hholds.addFirst hfree, List.nodup_cons.mpr ⟨hfree, hnodup⟩, ?_⟩
          simp only [Option.toList_some, List.cons_append, List.nil_append, List.length_cons]
          omega
  | addLast channelHandler =>
      cases channelHandler with
      | none =>
          refine ⟨_, _, _, rfl, rfl, ?_, ?_, ?_⟩
          · simpa using hholds
          · simpa using hnodup
          · simpa using hpart (.refl xs)
      | some a =>
          obtain ⟨hadd, hends⟩ := hholds.of_addLast fuel hnodup hfree
          obtain ⟨⟨next', pipeline'⟩, hresult⟩ := Option.isSome_iff_exists.mp (hends hfuel)
          refine ⟨(next', pipeline'), _, _, by simp [ChannelHandlerPipeline.execute, hresult], rfl,
            hadd next' pipeline' hresult, ?_, ?_⟩
          · exact List.nodup_append_comm.mpr (List.nodup_cons.mpr ⟨hfree, hnodup⟩)
          · simp only [Option.toList_some, List.length_append, List.length_singleton]
            omega
  | removeFirst =>
      obtain ⟨hfirst, htail⟩ := hholds.removeFirst hnodup
      refine ⟨(removeFirst next pipeline).1, xs.tail, .handler xs.head?, ?_, rfl, htail, hnodup.tail,
        hpart (List.tail_sublist xs)⟩
      rw [← hfirst]
      rfl
  | removeLast =>
      obtain ⟨next', pipeline', hremove, hholds'⟩ := hholds.removeLast hnodup hfuel
      refine ⟨(next', pipeline'), _, _, by simp [ChannelHandlerPipeline.execute, hremove], rfl, hholds',
        hnodup.sublist (List.dropLast_sublist xs), hpart (List.dropLast_sublist xs)⟩
  | removeName name =>
      by_cases hname : name = ""
      · refine ⟨(next, pipeline), xs, .handler none, ?_, ?_, hholds, hnodup, hpart (.refl xs)⟩
        · simp [ChannelHandlerPipeline.execute, removeName, hname]
        · simp [listExecute, hname]
      · obtain ⟨next', pipeline', hremove, hholds'⟩ :=
          hholds.removeThe hnodup hfuel fun handler => names handler = name
        refine ⟨(next', pipeline'), _, _, ?_, by rw [listExecute, if_neg hname], hholds',
          hnodup.sublist List.eraseP_sublist, hpart List.eraseP_sublist⟩
        simp [ChannelHandlerPipeline.execute, removeName, hname, hremove]
  | removeHandler channelHandler =>
      cases channelHandler with
      | none => exact ⟨_, _, _, rfl, rfl, hholds, hnodup, hpart (.refl xs)⟩
      | some a =>
          obtain ⟨next', pipeline', hremove, hholds'⟩ := hholds.removeHandler hnodup hfuel a
          refine ⟨(next', pipeline'), _, _, by simp [ChannelHandlerPipeline.execute, hremove], rfl,
            hholds', hnodup.sublist List.erase_sublist, hpart List.erase_sublist⟩

/-- In every run in which a handler is added only while it is not in the pipeline, the operations return
what they return on a list; afterwards the links hold that list, so that an event reaches each of its
handlers once and in order, and every other handler is as constructed. The walks take no more rounds
than there are operations. -/
theorem operations_refine_list {operations : List (Operation η)}
    (hfree : (listMachine names).Guarded AddsFree [] operations)
    (hfuel : operations.length ≤ fuel) :
    ∃ next pipeline xs outputs,
      (machine fuel names).run (unlinked, empty) operations = some ((next, pipeline), outputs) ∧
        (listMachine names).run [] operations = some (xs, outputs) ∧
          Linked next pipeline.headChannelHandler xs ∧ xs.Nodup ∧ Reaches next pipeline xs ∧
            ∀ a, a ∉ xs → next a = none := by
  have hinitial : Represents fuel operations.length (unlinked, empty) ([] : List η) :=
    ⟨holds_empty, List.nodup_nil, by simpa using hfuel⟩
  obtain ⟨⟨next, pipeline⟩, xs, outputs, hrun, hlist, hholds, hnodup, -⟩ :=
    (machine fuel names).run_simulates (fun _ _ _ _ h hok => h.execute hok) hinitial hfree
  exact ⟨next, pipeline, xs, outputs, hrun, hlist, hholds.linked, hnodup, hholds.reaches, hholds.free⟩

/-- A handler is taken out of the middle and added again at the end. -/
theorem operations_refine_list_again : ∃ next pipeline xs outputs,
    (machine 5 fun a : ℕ => toString a).run (unlinked, empty)
        [.addLast (some 0), .addLast (some 1), .addLast (some 2), .removeName "1",
          .addLast (some 1)] = some ((next, pipeline), outputs) ∧
      (listMachine fun a : ℕ => toString a).run []
        [.addLast (some 0), .addLast (some 1), .addLast (some 2), .removeName "1",
          .addLast (some 1)] = some (xs, outputs) ∧
        Linked next pipeline.headChannelHandler xs ∧ xs.Nodup ∧ Reaches next pipeline xs ∧
          ∀ a, a ∉ xs → next a = none := by
  apply operations_refine_list _ (by decide)
  refine ⟨by simp [AddsFree], ?_⟩
  rintro _ _ ⟨⟩
  refine ⟨by simp [AddsFree], ?_⟩
  rintro _ _ ⟨⟩
  refine ⟨by simp [AddsFree], ?_⟩
  rintro _ _ ⟨⟩
  refine ⟨trivial, ?_⟩
  rintro _ _ ⟨⟩
  refine ⟨?_, fun _ _ _ => trivial⟩
  have hrest : [0, 1, 2].eraseP (fun a : ℕ => toString a = "1") = [0, 2] := by decide
  change 1 ∉ [0, 1, 2].eraseP fun a : ℕ => toString a = "1"
  rw [hrest]
  decide

end Nets.ChannelHandlerPipeline
