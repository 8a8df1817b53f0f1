import Mathlib.Logic.Relation
import Nets.Library.Histories
import Nets.Program.SocketChannel

/-! # The output of a channel, abstractly

Messages are submitted, the kernel takes bytes from the front of what is pending, and when
nothing is pending the callbacks that wait are queued, oldest first. -/

namespace Nets.Session

open Library Relation

variable {β : Type}

/-! ## Reading the trace -/

def acceptedBytes (log : List (Event β)) : List β :=
  log.flatMap fun
    | .accepted bytes => bytes
    | _ => []

/-- The write calls, in order: the position of a message is the number of its callback. -/
def messages (log : List (Event β)) : List (List β × Option ℕ) :=
  log.filterMap fun
    | .write data callback => some (data, callback)
    | _ => none

def queuedCallbacks (log : List (Event β)) : List ℕ :=
  log.filterMap fun
    | .addTask (.writeComplete callback) => some callback
    | _ => none

/-- All bytes of all messages, in order. -/
def writtenBytes (log : List (Event β)) : List β := (messages log).flatMap Prod.fst

@[simp] theorem acceptedBytes_append (xs ys : List (Event β)) :
    acceptedBytes (xs ++ ys) = acceptedBytes xs ++ acceptedBytes ys := List.flatMap_append

@[simp] theorem messages_append (xs ys : List (Event β)) :
    messages (xs ++ ys) = messages xs ++ messages ys := List.filterMap_append

@[simp] theorem queuedCallbacks_append (xs ys : List (Event β)) :
    queuedCallbacks (xs ++ ys) = queuedCallbacks xs ++ queuedCallbacks ys := List.filterMap_append

@[simp] theorem writtenBytes_append (xs ys : List (Event β)) :
    writtenBytes (xs ++ ys) = writtenBytes xs ++ writtenBytes ys := by
  simp [writtenBytes]

@[simp] theorem acceptedBytes_write (data : List β) (callback : Option ℕ) :
    acceptedBytes [.write data callback] = [] := rfl

@[simp] theorem acceptedBytes_accepted (bytes : List β) :
    acceptedBytes [.accepted bytes] = bytes := List.append_nil bytes

@[simp] theorem acceptedBytes_addTask (task : Task) :
    acceptedBytes [(.addTask task : Event β)] = [] := rfl

@[simp] theorem messages_write (data : List β) (callback : Option ℕ) :
    messages [.write data callback] = [(data, callback)] := rfl

@[simp] theorem messages_accepted (bytes : List β) : messages [.accepted bytes] = [] := rfl

@[simp] theorem messages_addTask (task : Task) : messages [(.addTask task : Event β)] = [] := rfl

@[simp] theorem queuedCallbacks_write (data : List β) (callback : Option ℕ) :
    queuedCallbacks [.write data callback] = [] := rfl

@[simp] theorem queuedCallbacks_accepted (bytes : List β) :
    queuedCallbacks [.accepted bytes] = [] := rfl

@[simp] theorem queuedCallbacks_writeComplete (callback : ℕ) :
    queuedCallbacks [(.addTask (.writeComplete callback) : Event β)] = [callback] := rfl

/-- Events that are not about output. -/
def isNote : Event β → Bool
  | .write .. | .accepted _ | .addTask (.writeComplete _) => false
  | _ => true

theorem acceptedBytes_note {event : Event β} (h : isNote event = true) :
    acceptedBytes [event] = [] := by
  cases event with
  | write | accepted => cases h
  | _ => rfl

theorem messages_note {event : Event β} (h : isNote event = true) : messages [event] = [] := by
  cases event with
  | write | accepted => cases h
  | _ => rfl

theorem messages_notes {events : List (Event β)} (h : ∀ event ∈ events, isNote event = true) :
    messages events = [] := by
  induction events with
  | nil => rfl
  | cons event events ih =>
      obtain ⟨hevent, hevents⟩ := List.forall_mem_cons.mp h
      rw [← List.singleton_append, messages_append, messages_note hevent, ih hevents,
        List.append_nil]

theorem queuedCallbacks_note {event : Event β} (h : isNote event = true) :
    queuedCallbacks [event] = [] := by
  cases event with
  | addTask task =>
      cases task with
      | writeComplete callback => cases h
      | deregister => rfl
  | _ => rfl

theorem queuedCallbacks_notes {events : List (Event β)}
    (h : ∀ event ∈ events, isNote event = true) : queuedCallbacks events = [] := by
  induction events with
  | nil => rfl
  | cons event events ih =>
      obtain ⟨hevent, hevents⟩ := List.forall_mem_cons.mp h
      rw [← List.singleton_append, queuedCallbacks_append, queuedCallbacks_note hevent,
        ih hevents, List.append_nil]

theorem messages_tasks (tasks : List Task) :
    messages (tasks.map (Event.addTask (β := β))) = [] := by
  induction tasks with
  | nil => rfl
  | cons task tasks ih => exact ih

/-! ## The abstract output -/

/-- `waiting` are the callbacks that are not `nullptr`. -/
structure Output (β : Type) where
  pending : List β
  waiting : List ℕ
  log : List (Event β)

inductive Output.Step : Output β → Output β → Prop where
  | note {o : Output β} {event : Event β} (h : isNote event = true) :
      Step o { o with log := o.log ++ [event] }
  | ignore {o : Output β} (callback : Option ℕ) :
      Step o { o with log := o.log ++ [.write [] callback] }
  | submit {o : Output β} (data : List β) {callback : Option ℕ}
      (h : callback = none ∨ callback = some (messages o.log).length) :
      Step o {
        pending := o.pending ++ data
        waiting := o.waiting ++ callback.toList
        log := o.log ++ [.write data callback] }
  | accept {o : Output β} {now later : List β} (h : o.pending = now ++ later) :
      Step o { o with pending := later, log := o.log ++ [.accepted now] }
  | complete {o : Output β} {callback : ℕ} {waiting : List ℕ} (hpending : o.pending = [])
      (hwaiting : o.waiting = callback :: waiting) :
      Step o { o with waiting, log := o.log ++ [.addTask (.writeComplete callback)] }

abbrev Output.Steps : Output β → Output β → Prop := ReflTransGen Step

theorem Output.steps_complete (waiting : List ℕ) (log : List (Event β)) :
    Steps { pending := [], waiting, log }
      { pending := [], waiting := [],
        log := log ++ (waiting.map .writeComplete).map .addTask } := by
  induction waiting generalizing log with
  | nil => simpa using ReflTransGen.refl
  | cons callback waiting ih =>
      rw [List.map_cons, List.map_cons, List.append_cons]
      exact .head (.complete rfl rfl) (ih _)

theorem Output.steps_notes (o : Output β) {events : List (Event β)}
    (h : ∀ event ∈ events, isNote event = true) :
    Steps o { o with log := o.log ++ events } := by
  induction events generalizing o with
  | nil => simpa using ReflTransGen.refl
  | cons event events ih =>
      obtain ⟨hevent, hevents⟩ := List.forall_mem_cons.mp h
      rw [List.append_cons]
      exact .head (.note hevent) (ih { o with log := o.log ++ [event] } hevents)

/-! ## No byte is lost, duplicated or reordered -/

def Output.Intact (o : Output β) : Prop := acceptedBytes o.log ++ o.pending = writtenBytes o.log

theorem Output.Step.intact {o o' : Output β} (h : Step o o') (ho : o.Intact) : o'.Intact := by
  unfold Output.Intact writtenBytes at ho ⊢
  cases h with
  | note h => simpa [acceptedBytes_note h, messages_note h] using ho
  | ignore callback => simpa using ho
  | submit data h => simp [← ho]
  | accept h => simp [← ho, h]
  | complete hpending hwaiting => simpa using ho

theorem Output.Intact.of_steps {o o' : Output β} (ho : o.Intact) (h : Steps o o') :
    o'.Intact := by
  induction h with
  | refl => exact ho
  | tail _ hstep ih => exact hstep.intact ih

/-! ## Callbacks tell the truth -/

/-- When the callback of message `n` is queued after `log`, all bytes of the message have been
accepted, and no callback of this or a later message has been queued. -/
structure Complete (log : List (Event β)) (n : ℕ) : Prop where
  accepted : ∃ data, (messages log)[n]? = some (data, some n) ∧
    ∀ byte ∈ data, byte ∈ acceptedBytes log
  later : ∀ m ∈ queuedCallbacks log, m < n

def Truthful (log : List (Event β)) : Prop :=
  ∀ before n after, log = before ++ .addTask (.writeComplete n) :: after → Complete before n

theorem truthful_iff_eachAfter {log : List (Event β)} : Truthful log ↔
    EachAfter (fun before event => ∀ n, event = .addTask (.writeComplete n) → Complete before n) log :=
  ⟨fun h before _ after hlog n hevent => h before n after (hevent ▸ hlog),
    fun h before n after hlog => h before _ after hlog n rfl⟩

theorem truthful_nil : Truthful ([] : List (Event β)) := truthful_iff_eachAfter.mpr .nil

theorem truthful_concat {log : List (Event β)} {event : Event β} (h : Truthful log)
    (hevent : ∀ n, event = .addTask (.writeComplete n) → Complete log n) :
    Truthful (log ++ [event]) :=
  truthful_iff_eachAfter.mpr ((truthful_iff_eachAfter.mp h).concat hevent)

/-- Events that queue no callback change nothing. -/
theorem truthful_append {log events : List (Event β)} (h : Truthful log)
    (hevents : queuedCallbacks events = []) : Truthful (log ++ events) := by
  induction events generalizing log with
  | nil => rwa [List.append_nil]
  | cons event events ih =>
      rw [← List.singleton_append, queuedCallbacks_append, List.append_eq_nil_iff] at hevents
      rw [List.append_cons]
      refine ih (truthful_concat h fun n hn => ?_) hevents.2
      rw [hn] at hevents
      exact absurd hevents.1 (List.cons_ne_nil _ _)

/-- The queued and the waiting callbacks are in the order of the messages, and no byte of a
message whose callback waits is gone: it has been accepted or is pending. -/
structure Output.Sound (o : Output β) : Prop where
  truthful : Truthful o.log
  ordered : (queuedCallbacks o.log ++ o.waiting).Pairwise (· < ·)
  numbered : ∀ n ∈ queuedCallbacks o.log ++ o.waiting, n < (messages o.log).length
  kept : ∀ n ∈ o.waiting, ∃ data, (messages o.log)[n]? = some (data, some n) ∧
    ∀ byte ∈ data, byte ∈ acceptedBytes o.log ∨ byte ∈ o.pending

theorem getElem?_append_some {γ : Type*} {xs : List γ} {n : ℕ} {x : γ} (h : xs[n]? = some x)
    (ys : List γ) : (xs ++ ys)[n]? = some x := by
  rw [List.getElem?_append_left (List.getElem?_eq_some_iff.mp h).1, h]

theorem Output.Step.sound {o o' : Output β} (h : Step o o') (ho : o.Sound) : o'.Sound := by
  have htruthful := ho.truthful
  have hordered := ho.ordered
  have hnumbered := ho.numbered
  cases h with
  | note h =>
      refine ⟨truthful_append htruthful (queuedCallbacks_note h), ?_, ?_, fun n hn => ?_⟩
      · simpa [queuedCallbacks_note h] using hordered
      · simpa [queuedCallbacks_note h, messages_note h] using hnumbered
      · simpa [messages_note h, acceptedBytes_note h] using ho.kept n hn
  | ignore callback =>
      refine ⟨truthful_append htruthful rfl, ?_, fun n hn => ?_, fun n hn => ?_⟩
      · simpa [queuedCallbacks] using hordered
      · have hlt := hnumbered n (by simpa [queuedCallbacks] using hn)
        simp only [messages_append, List.length_append]
        omega
      · obtain ⟨data, hdata, hkept⟩ := ho.kept n hn
        exact ⟨data, by simpa using getElem?_append_some hdata _,
          by simpa [acceptedBytes] using hkept⟩
  | submit data h =>
      refine ⟨truthful_append htruthful rfl, ?_, fun n hn => ?_, fun n hn => ?_⟩
      · rw [queuedCallbacks_append, queuedCallbacks_write, List.append_nil, ← List.append_assoc]
        refine List.pairwise_append.mpr ⟨hordered, ?_, fun m hm n hn => ?_⟩
        · rcases h with rfl | rfl <;> simp
        · rcases h with rfl | rfl
          · cases hn
          · rw [List.mem_singleton.mp hn]
            exact hnumbered m hm
      · rw [messages_append, List.length_append, messages_write, List.length_singleton]
        rw [queuedCallbacks_append, queuedCallbacks_write, List.append_nil, ← List.append_assoc]
          at hn
        rcases List.mem_append.mp hn with hn | hn
        · exact (hnumbered n hn).trans (Nat.lt_succ_self _)
        · rcases h with rfl | rfl
          · cases hn
          · rw [List.mem_singleton.mp hn]
            exact Nat.lt_succ_self _
      · rcases List.mem_append.mp hn with hn | hn
        · obtain ⟨bytes, hmessage, hkept⟩ := ho.kept n hn
          refine ⟨bytes, by simpa using getElem?_append_some hmessage _, fun byte hbyte => ?_⟩
          rcases hkept byte hbyte with hin | hin
          · exact .inl (by simpa using hin)
          · exact .inr (List.mem_append_left _ hin)
        · rcases h with rfl | rfl
          · cases hn
          · rw [List.mem_singleton.mp hn]
            exact ⟨data, by simp, fun byte hbyte => .inr (List.mem_append_right _ hbyte)⟩
  | accept h =>
      refine ⟨truthful_append htruthful rfl, by simpa using hordered, by simpa using hnumbered,
        fun n hn => ?_⟩
      obtain ⟨bytes, hmessage, hkept⟩ := ho.kept n hn
      refine ⟨bytes, by simpa using hmessage, fun byte hbyte => ?_⟩
      rw [acceptedBytes_append, acceptedBytes_accepted, List.mem_append]
      rcases hkept byte hbyte with hin | hin
      · exact .inl (.inl hin)
      · rw [h, List.mem_append] at hin
        rcases hin with hin | hin
        · exact .inl (.inr hin)
        · exact .inr hin
  | @complete callback waiting hpending hwaiting =>
      rw [hwaiting] at hordered hnumbered
      have hcomplete : Complete o.log callback := by
        obtain ⟨bytes, hmessage, hkept⟩ := ho.kept callback (hwaiting ▸ List.mem_cons_self)
        refine ⟨⟨bytes, hmessage, fun byte hbyte => ?_⟩, fun m hm => ?_⟩
        · rcases hkept byte hbyte with hin | hin
          · exact hin
          · rw [hpending] at hin
            cases hin
        · exact (List.pairwise_append.mp hordered).2.2 m hm callback List.mem_cons_self
      refine ⟨truthful_concat htruthful fun n hn => ?_, by simpa using hordered,
        by simpa using hnumbered, fun n hn => ?_⟩
      · obtain rfl : callback = n := by simpa using hn
        exact hcomplete
      · obtain ⟨bytes, hmessage, hkept⟩ := ho.kept n (hwaiting ▸ List.mem_cons_of_mem _ hn)
        exact ⟨bytes, by simpa using hmessage, by simpa using hkept⟩

theorem Output.Sound.of_steps {o o' : Output β} (ho : o.Sound) (h : Steps o o') : o'.Sound := by
  induction h with
  | refl => exact ho
  | tail _ hstep ih => exact hstep.sound ih

end Nets.Session
