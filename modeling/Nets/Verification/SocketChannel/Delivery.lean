import Nets.Verification.SocketChannel.Equations
import Nets.Verification.SocketChannel.Reading

/-! # What becomes of what is read

`doRead` returns one number for the data, for the end of the stream, for a read that would block and
for an error. No data at all is the end of the stream for `handleReadEvent`, also when the first read
would block, and an error drops the data read before it. -/

namespace Nets.Session

open Library

variable {α β : Type}

/-! ## The calls of a read event -/

/-- What the calls of `::read` answer that are made; a call returns as many bytes as it asks for at
most. -/
def reads (expectedReadLen : ℕ) : List (ReadAnswer β) → List (ReadAnswer β)
  | [] => [.failed EAGAIN]
  | .failed errNum :: _ => [.failed errNum]
  | .data bytes :: answers =>
    let readBytes := (bytes.take expectedReadLen).length
    if readBytes = 0 then [.data []]
    else
      let adjustment := expectedReadLen - readBytes
      .data (bytes.take expectedReadLen) ::
        reads (if 0 < adjustment then adjustment else expectedReadLen) answers

/-- The read is to be tried again. -/
def WouldBlock : ReadAnswer β → Prop
  | .data _ => False
  | .failed errNum => errNum = EAGAIN ∨ errNum = EINTR

def IsFatal : ReadAnswer β → Prop
  | .data _ => False
  | .failed errNum => ¬ (errNum = EAGAIN ∨ errNum = EINTR)

def IsEndOfStream : ReadAnswer β → Prop
  | .data bytes => bytes = []
  | .failed _ => False

def bytesRead : ReadAnswer β → List β
  | .data bytes => bytes
  | .failed _ => []

/-- The bytes the kernel returns in a read event. -/
def returned (answers : List (ReadAnswer β)) : List β :=
  (reads kRecvBufferSize answers).flatMap bytesRead

/-- Only an error that is fatal keeps back what the kernel returned. -/
theorem received_cases (expectedReadLen : ℕ) (answers : List (ReadAnswer β)) :
    (∃ errNum, received expectedReadLen answers = .error errNum ∧
      ∃ answer ∈ reads expectedReadLen answers, IsFatal answer) ∨
    (received expectedReadLen answers = .ok ((reads expectedReadLen answers).flatMap bytesRead) ∧
      ∀ answer ∈ reads expectedReadLen answers, ¬ IsFatal answer) := by
  induction answers generalizing expectedReadLen with
  | nil =>
      refine .inr ⟨rfl, fun answer hmem hfatal => ?_⟩
      obtain rfl := List.mem_singleton.mp hmem
      exact hfatal (.inl rfl)
  | cons answer answers ih =>
      cases answer with
      | failed errNum =>
          by_cases hmild : errNum = EAGAIN ∨ errNum = EINTR
          · refine .inr ⟨by simp [received, reads, hmild, bytesRead], fun answer hmem hfatal => ?_⟩
            obtain rfl := List.mem_singleton.mp hmem
            exact hfatal hmild
          · exact .inl ⟨errNum, by simp [received, hmild], _, List.mem_singleton.mpr rfl, hmild⟩
      | data bytes =>
          rw [received, reads]
          dsimp only
          split
          · refine .inr ⟨rfl, fun answer hmem hfatal => ?_⟩
            obtain rfl := List.mem_singleton.mp hmem
            exact hfatal
          · generalize (if 0 < expectedReadLen - (bytes.take expectedReadLen).length then _ else _) =
              adjusted
            rcases ih adjusted with ⟨errNum, hreceived, answer, hmem, hfatal⟩ | ⟨hreceived, hnone⟩
            · refine .inl ⟨errNum, ?_, answer, List.mem_cons_of_mem _ hmem, hfatal⟩
              rw [hreceived]
              rfl
            · refine .inr ⟨?_, List.forall_mem_cons.mpr ⟨id, hnone⟩⟩
              rw [hreceived]
              rfl

/-! ## The end of the stream -/

/-- The answer to the first call. -/
def firstRead (answers : List (ReadAnswer β)) : ReadAnswer β :=
  (reads kRecvBufferSize answers).headD (.failed EAGAIN)

/-- Without data the first read would block, or something ended the reads. -/
theorem of_returned_nil {answers : List (ReadAnswer β)} (h : returned answers = []) :
    reads kRecvBufferSize answers = [firstRead answers] ∧
      (WouldBlock (firstRead answers) ∨ IsFatal (firstRead answers) ∨
        IsEndOfStream (firstRead answers)) := by
  rw [returned] at h
  cases answers with
  | nil => exact ⟨rfl, .inl (.inl rfl)⟩
  | cons answer answers =>
      cases answer with
      | failed errNum => exact ⟨rfl, (em _).imp_right .inl⟩
      | data bytes =>
          rw [firstRead]
          rw [reads] at h ⊢
          dsimp only at h ⊢
          split at h
          case isTrue hnil =>
              rw [if_pos hnil]
              exact ⟨rfl, .inr (.inr rfl)⟩
          case isFalse hne =>
              rw [List.flatMap_cons] at h
              exact absurd (congrArg List.length (List.append_eq_nil_iff.mp h).1) hne

def isEnd : Event β → Bool
  | .shutdown _ | .disconnect => true
  | .write _ _ | .accepted _ | .connect | .read _ | .addTask _ => false

/-- Between `s` and `t` the channel is shut down, half-closed or disconnected. -/
def Closes (s t : Session β) : Prop := ∃ event ∈ t.log.drop s.log.length, isEnd event = true

theorem closes_of_log {s t : Session β} {events : List (Event β)} (h : t.log = s.log ++ events) :
    Closes s t ↔ ∃ event ∈ events, isEnd event = true := by
  rw [Closes, h, List.drop_left]

theorem closes_endOfStream (epoll : Bool) (s : Session β) :
    Closes s (if s.writeBuffer.isEmpty then s.shutdown
      else (s.shutdownRead.setEvents kWriteEvent).modify epoll) := by
  split
  · have hlog : s.shutdown.log = s.log ++ [.shutdown .rdwr, .disconnect] := List.append_assoc ..
    exact (closes_of_log hlog).mpr ⟨.disconnect, by simp, rfl⟩
  · have hlog := (modify_kept epoll (s.shutdownRead.setEvents kWriteEvent)).1.log
    exact (closes_of_log (hlog.trans rfl)).mpr ⟨.shutdown .rd, List.mem_singleton.mpr rfl, rfl⟩

variable [Inhabited β]

theorem readInto_failed (errNum : ℕ) :
    readInto (.failed errNum) kRecvBufferSize (ByteBuffer.ofCapacity (β := β) kRecvBufferSize) =
      .ok (.error errNum) (ByteBuffer.ofCapacity kRecvBufferSize) := by
  have hroom : ByteBuffer.ensureWritable kRecvBufferSize
      (ByteBuffer.ofCapacity (β := β) kRecvBufferSize) =
        .ok () (ByteBuffer.ofCapacity kRecvBufferSize) := by
    rw [ByteBuffer.ensureWritable, ByteBuffer.get_bind_apply]
    simp [ByteBuffer.ofCapacity, ByteBuffer.writableBytes, subSize]
  rw [readInto, ByteBuffer.bind_ok hroom]
  rfl

/-- A first read that would block does not fail in the buffer. -/
theorem doRead_of_wouldBlock {answers : List (ReadAnswer β)} (h : WouldBlock (firstRead answers)) :
    doRead kRecvBufferSize answers (ByteBuffer.ofCapacity kRecvBufferSize) =
      .ok (.ok 0) (ByteBuffer.ofCapacity kRecvBufferSize) := by
  cases answers with
  | nil =>
      rw [doRead, ByteBuffer.bind_ok (readInto_failed EAGAIN)]
      rfl
  | cons answer answers =>
      cases answer with
      | failed errNum =>
          have hmild : ¬ (errNum ≠ EAGAIN ∧ errNum ≠ EINTR) := by
            have hagain : errNum = EAGAIN ∨ errNum = EINTR := h
            tauto
          rw [doRead, ByteBuffer.bind_ok (readInto_failed errNum)]
          simp only [if_neg hmild]
          rfl
      | data bytes =>
          rw [firstRead, reads] at h
          dsimp only at h
          split at h <;> cases h

/-- `handleReadEvent` takes a first read that would block for the end of the stream. -/
theorem handleReadEvent_of_wouldBlock {answers : List (ReadAnswer β)} {epoll : Bool} {s : Session β}
    (halive : s.state ≠ .inactive) (h : WouldBlock (firstRead answers)) :
    s.handleReadEvent answers epoll = some (if s.writeBuffer.isEmpty then s.shutdown
      else (s.shutdownRead.setEvents kWriteEvent).modify epoll) := by
  rw [handleReadEvent, if_neg halive, doRead_of_wouldBlock h]
  simp only [lt_irrefl, if_false]
  split <;> rfl

/-- A read event closes a channel only for a reason, and leaves it alone when there is nothing to
read. -/
structure ClosesForReason (answers : List (ReadAnswer β)) (s t : Session β) : Prop where
  reason : Closes s t →
    ∃ answer ∈ reads kRecvBufferSize answers, IsEndOfStream answer ∨ IsFatal answer
  unchanged : WouldBlock (firstRead answers) → t = s

/-- A read event closes a channel without a reason exactly when its first read would block. -/
theorem closesForReason_iff (answers : List (ReadAnswer β)) (epoll : Bool) (s : Session β)
    (halive : s.state ≠ .inactive) :
    (∀ t, s.handleReadEvent answers epoll = some t → ClosesForReason answers s t) ↔
      ¬ WouldBlock (firstRead answers) := by
  constructor
  · intro hreason hblock
    obtain ⟨-, hsame⟩ := hreason _ (handleReadEvent_of_wouldBlock halive hblock)
    have hcloses := closes_endOfStream epoll s
    rw [hsame hblock, Closes, List.drop_length] at hcloses
    obtain ⟨event, hmem, -⟩ := hcloses
    cases hmem
  · intro hready t ht
    refine ⟨fun hcloses => ?_, fun hblock => absurd hblock hready⟩
    rcases handleReadEvent_eq halive ht with ⟨errNum, hreceived, -⟩ | ⟨message, -, -, rfl⟩ | ⟨hnil, -⟩
    · rcases received_cases kRecvBufferSize answers with ⟨-, -, answer, hmem, hfatal⟩ | ⟨hok, -⟩
      · exact ⟨answer, hmem, .inr hfatal⟩
      · cases hreceived.symm.trans hok
    · have hlog : (s.fireRead message).log = s.log ++ [.read message] := rfl
      obtain ⟨event, hmem, hend⟩ := (closes_of_log hlog).mp hcloses
      obtain rfl := List.mem_singleton.mp hmem
      cases hend
    · rcases received_cases kRecvBufferSize answers with ⟨errNum, herror, -⟩ | ⟨hok, -⟩
      · cases hnil.symm.trans herror
      · obtain ⟨hreads, hfirst⟩ := of_returned_nil (Except.ok.inj (hok.symm.trans hnil))
        refine ⟨firstRead answers, by simp [hreads], ?_⟩
        exact (hfirst.resolve_left hready).symm

/-- The stream ends after two bytes. -/
theorem closesForReason_data :
    ∃ t, (fresh : Session UInt8).channelActive.handleReadEvent [.data [1, 2], .data []] true = some t ∧
      ClosesForReason [.data [1, 2], .data []] fresh.channelActive t := by
  have halive : (fresh : Session UInt8).channelActive.state ≠ .inactive := by decide
  have hread : ((fresh : Session UInt8).channelActive.handleReadEvent [.data [1, 2], .data []]
      true).isSome = true := by decide +kernel
  obtain ⟨t, ht⟩ := Option.isSome_iff_exists.mp hread
  have hready : ¬ WouldBlock (firstRead ([.data [1, 2], .data []] : List (ReadAnswer UInt8))) := by
    simp [firstRead, reads, kRecvBufferSize, WouldBlock]
  exact ⟨t, ht, (closesForReason_iff _ true _ halive).mpr hready t ht⟩

/-- An interrupted read closes a channel that has just been connected. -/
theorem not_closesForReason_interrupted :
    ¬ ∀ (answers : List (ReadAnswer UInt8)) (epoll : Bool) (s t : Session UInt8),
      s.state ≠ .inactive → s.handleReadEvent answers epoll = some t → ClosesForReason answers s t := by
  intro h
  have halive : (fresh : Session UInt8).channelActive.state ≠ .inactive := by decide
  have hread : (fresh : Session UInt8).channelActive.handleReadEvent [.failed EINTR] true =
      some fresh.channelActive.shutdown := handleReadEvent_of_wouldBlock halive (.inr rfl)
  have hsame := (h _ _ _ _ halive hread).unchanged (.inr rfl)
  have hstate : (fresh : Session UInt8).channelActive.shutdown.state = .inactive := rfl
  rw [hsame] at hstate
  exact halive hstate

/-! ## What is handed to the application -/

section

omit [Inhabited β]

def deliveredBytes (log : List (Event β)) : List β :=
  log.flatMap fun
    | .read message => message.contents
    | _ => []

@[simp] theorem deliveredBytes_append (xs ys : List (Event β)) :
    deliveredBytes (xs ++ ys) = deliveredBytes xs ++ deliveredBytes ys := List.flatMap_append

theorem deliveredBytes_tasks (tasks : List Task) :
    deliveredBytes (tasks.map (Event.addTask (β := β))) = [] := by
  induction tasks with
  | nil => rfl
  | cons task tasks ih => exact ih

theorem deliveredBytes_queueCallbacks (callbacks : List (Option ℕ)) (s : Session β) :
    deliveredBytes (queueCallbacks callbacks s).log = deliveredBytes s.log := by
  simp [queueCallbacks_eq, deliveredBytes_tasks]

theorem deliveredBytes_channelInActive (s : Session β) :
    deliveredBytes s.channelInActive.log = deliveredBytes s.log := by
  rw [channelInActive, deliveredBytes_append]
  exact List.append_nil _

theorem deliveredBytes_shutdownHow (how : How) (s : Session β) :
    deliveredBytes (s.shutdownHow how).log = deliveredBytes s.log := by
  cases how <;> exact (deliveredBytes_append ..).trans (List.append_nil _)

theorem deliveredBytes_shutdown (s : Session β) :
    deliveredBytes s.shutdown.log = deliveredBytes s.log := by
  rw [shutdown, deliveredBytes_channelInActive, deliveredBytes_shutdownHow]

theorem deliveredBytes_handleReadError (errNum : ℕ) (s : Session β) :
    deliveredBytes (s.handleReadError errNum).log = deliveredBytes s.log := by
  rw [handleReadError]
  split
  · rfl
  · exact deliveredBytes_channelInActive s

theorem deliveredBytes_handleWriteError (errNum : ℕ) (s : Session β) :
    deliveredBytes (s.handleWriteError errNum).log = deliveredBytes s.log := by
  rw [handleWriteError]
  split
  · rfl
  · exact deliveredBytes_channelInActive s

theorem deliveredBytes_finishWriteEvent (totalBytes : ℕ) (result : Except ℕ ℕ) (epoll : Bool)
    (s : Session β) :
    deliveredBytes (s.finishWriteEvent totalBytes result epoll).log = deliveredBytes s.log := by
  have hdrain : deliveredBytes s.drain.log = deliveredBytes s.log := deliveredBytes_queueCallbacks _ _
  rw [finishWriteEvent.eq_def]
  split
  · exact deliveredBytes_handleWriteError _ s
  split
  · dsimp only
    split
    · rw [deliveredBytes_channelInActive, hdrain]
    · rw [(modify_kept epoll _).1.log]
      exact hdrain
  · rfl

theorem deliveredBytes_handleWriteEvent {answers : List Answer} {epoll : Bool} {s t : Session β}
    (h : s.handleWriteEvent answers epoll = some t) : deliveredBytes t.log = deliveredBytes s.log := by
  rw [handleWriteEvent] at h
  split at h
  · rw [← Option.some.inj h]
  · obtain ⟨iovecs, -, h⟩ := Option.bind_eq_some_iff.mp h
    obtain ⟨⟨sent, result⟩, -, rfl⟩ := Option.map_eq_some_iff.mp h
    have hlog := (assertThat_kept .handleWriteEvent (!s.writeBuffer.isEmpty) s).1.log
    dsimp only
    rw [deliveredBytes_finishWriteEvent, emit, hlog, deliveredBytes_append]
    exact List.append_nil _

end

theorem deliveredBytes_finishWrite {remaining : List β} {callback : Option ℕ} {epoll : Bool}
    {s t : Session β} (h : s.finishWrite remaining callback epoll = some t) :
    deliveredBytes t.log = deliveredBytes s.log := by
  rcases finishWrite_eq h with ⟨-, rfl⟩ | ⟨-, u, hu, rfl⟩
  · exact deliveredBytes_queueCallbacks _ s
  · exact congrArg deliveredBytes (appendBuffer_kept hu).1.log

theorem deliveredBytes_unwind {stack : List (Frame β)} {s t : Session β}
    (h : unwind stack s = some t) : deliveredBytes t.log = deliveredBytes s.log := by
  induction stack generalizing s with
  | nil => rw [← Option.some.inj h]
  | cons frame stack ih =>
      cases frame with
      | handler => rw [← Option.some.inj h]
      | deregister => exact (ih h).trans ((deliveredBytes_append ..).trans (List.append_nil _))
      | finishWrite remaining callback epoll =>
          obtain ⟨u, hu, hrest⟩ := Option.bind_eq_some_iff.mp h
          exact (ih hrest).trans (deliveredBytes_finishWrite hu)

theorem deliveredBytes_doWrite {data : List β} {callback : Option ℕ} {answer : Answer} {before : β}
    {epoll : Bool} {s t : Session β} (h : s.doWrite data callback answer before epoll = some t) :
    deliveredBytes t.log = deliveredBytes s.log := by
  rw [doWrite] at h
  split at h
  · rw [← Option.some.inj h]
  split at h
  · rw [← Option.some.inj h]
  split at h
  · cases answer with
    | accepted bytes =>
        rw [deliveredBytes_finishWrite h, emit, deliveredBytes_append]
        exact List.append_nil _
    | failed errNum =>
        rw [doWriteDirectly] at h
        split at h
        · exact deliveredBytes_finishWrite h
        · rw [← Option.some.inj h]
          exact deliveredBytes_handleWriteError _ _
  · obtain ⟨u, hu, rfl⟩ := Option.map_eq_some_iff.mp h
    exact congrArg deliveredBytes (appendBuffer_kept hu).1.log

/-- A read event hands over all that the kernel returned, unless an error ended it. -/
theorem deliveredBytes_handleReadEvent {answers : List (ReadAnswer β)} {epoll : Bool}
    {s t : Session β} (halive : s.state ≠ .inactive) (h : s.handleReadEvent answers epoll = some t) :
    (∃ answer ∈ reads kRecvBufferSize answers, IsFatal answer) ∧
        deliveredBytes t.log = deliveredBytes s.log ∨
      (∀ answer ∈ reads kRecvBufferSize answers, ¬ IsFatal answer) ∧
        deliveredBytes t.log = deliveredBytes s.log ++ returned answers := by
  rcases received_cases kRecvBufferSize answers with ⟨errNum, herror, hfatal⟩ | ⟨hok, hmild⟩
  · rcases handleReadEvent_eq halive h with ⟨_, -, rfl⟩ | ⟨_, hreceived, -, -⟩ | ⟨hreceived, -⟩
    · exact .inl ⟨hfatal, deliveredBytes_handleReadError _ s⟩
    · cases herror.symm.trans hreceived
    · cases herror.symm.trans hreceived
  · refine .inr ⟨hmild, ?_⟩
    rcases handleReadEvent_eq halive h with ⟨_, herror, -⟩ | ⟨message, hreceived, -, rfl⟩ |
      ⟨hreceived, rfl⟩
    · cases herror.symm.trans hok
    · have hcontents : message.contents = returned answers :=
        Except.ok.inj (hreceived.symm.trans hok)
      rw [fireRead, deliveredBytes_append, ← hcontents]
      exact congrArg _ (List.append_nil _)
    · have hnil : returned answers = [] := Except.ok.inj (hok.symm.trans hreceived)
      rw [hnil, List.append_nil]
      split
      · exact deliveredBytes_shutdown s
      · rw [(modify_kept epoll _).1.log]
        exact deliveredBytes_shutdownHow .rd s

/-! ## Runs -/

/-- The bytes the kernel returns in a step; an `INACTIVE` channel does not read. -/
def bytesReturned (s : Session β) : Action α β → List β
  | .handleReadEvent answers _ => if s.state = .inactive then [] else returned answers
  | .write .. | .shutdown | .shutdownRead | .shutdownWrite | .handlerReturns | .handleWriteEvent ..
  | .handleErrorEvent | .runTask _ => []

/-- No read event ends with an error after it has got data. -/
def Delivers (s : Session β) : Action α β → Prop
  | .handleReadEvent answers _ =>
    s.state = .inactive ∨ returned answers = [] ∨
      ∀ answer ∈ reads kRecvBufferSize answers, ¬ IsFatal answer
  | .write .. | .shutdown | .shutdownRead | .shutdownWrite | .handlerReturns | .handleWriteEvent ..
  | .handleErrorEvent | .runTask _ => True

/-- The bytes the kernel returns in a run. -/
def kernelBytes (label : ℕ → List α → List β) : Session β → List (Action α β) → List β
  | _, [] => []
  | s, action :: actions =>
    s.bytesReturned action ++
      match (system label).step s action with
      | none => []
      | some t => kernelBytes label t actions

theorem deliveredBytes_act {label : ℕ → List α → List β} {action : Action α β} {s t : Session β}
    (h : s.act label action = some t) :
    s.Delivers action ∧ deliveredBytes t.log = deliveredBytes s.log ++ s.bytesReturned action ∨
      ¬ s.Delivers action ∧ s.bytesReturned action ≠ [] ∧
        deliveredBytes t.log = deliveredBytes s.log := by
  have hsame (hbytes : s.bytesReturned action = []) (hdelivers : s.Delivers action)
      (heq : deliveredBytes t.log = deliveredBytes s.log) :
      s.Delivers action ∧ deliveredBytes t.log = deliveredBytes s.log ++ s.bytesReturned action ∨
        ¬ s.Delivers action ∧ s.bytesReturned action ≠ [] ∧
          deliveredBytes t.log = deliveredBytes s.log :=
    .inl ⟨hdelivers, by rw [heq, hbytes, List.append_nil]⟩
  cases action with
  | write data callback answer before epoll =>
      refine hsame rfl trivial ((deliveredBytes_doWrite h).trans ?_)
      exact (deliveredBytes_append ..).trans (List.append_nil _)
  | shutdown =>
      obtain rfl := Option.some.inj h
      exact hsame rfl trivial (deliveredBytes_shutdown s)
  | shutdownRead =>
      obtain rfl := Option.some.inj h
      exact hsame rfl trivial (deliveredBytes_shutdownHow .rd s)
  | shutdownWrite =>
      obtain rfl := Option.some.inj h
      exact hsame rfl trivial (deliveredBytes_shutdownHow .wr s)
  | handlerReturns =>
      refine hsame rfl trivial ?_
      rw [act] at h
      split at h
      · rw [← Option.some.inj h]
      · cases h
  | handleReadEvent answers epoll =>
      obtain ⟨-, h⟩ := Option.ite_none_right_eq_some.mp h
      by_cases hstate : s.state = .inactive
      · rw [handleReadEvent, if_pos hstate] at h
        obtain rfl := Option.some.inj h
        exact hsame (if_pos hstate) (.inl hstate) rfl
      · have hbytes : s.bytesReturned (.handleReadEvent answers epoll : Action α β) =
            returned answers := if_neg hstate
        rw [hbytes]
        rcases deliveredBytes_handleReadEvent hstate h with ⟨hfatal, hlog⟩ | ⟨hmild, hlog⟩
        · by_cases hnil : returned answers = []
          · exact .inl ⟨.inr (.inl hnil), by rw [hlog, hnil, List.append_nil]⟩
          · refine .inr ⟨?_, hnil, hlog⟩
            rintro (hinactive | hempty | hmild)
            · exact hstate hinactive
            · exact hnil hempty
            · obtain ⟨answer, hmem, herror⟩ := hfatal
              exact hmild answer hmem herror
        · exact .inl ⟨.inr (.inr hmild), hlog⟩
  | handleWriteEvent answers epoll =>
      obtain ⟨-, h⟩ := Option.ite_none_right_eq_some.mp h
      exact hsame rfl trivial (deliveredBytes_handleWriteEvent h)
  | handleErrorEvent =>
      obtain ⟨-, h⟩ := Option.ite_none_right_eq_some.mp h
      obtain rfl := Option.some.inj h
      refine hsame rfl trivial ?_
      rw [handleErrorEvent]
      split
      · rfl
      · exact deliveredBytes_channelInActive s
  | runTask epoll =>
      obtain ⟨-, h⟩ := Option.ite_none_right_eq_some.mp h
      refine hsame rfl trivial ?_
      rw [runTask] at h
      split at h
      · cases h
      · rw [← Option.some.inj h]
      · rw [← Option.some.inj h]
        exact congrArg deliveredBytes (assertThat_kept .deregisterChannel _ _).1.log

/-- A run hands over what the kernel returned in it, or less. -/
theorem deliveredBytes_run {label : ℕ → List α → List β} {actions : List (Action α β)}
    {s t : Session β} (h : (system label).run s actions = some t) :
    ∃ bytes, deliveredBytes t.log = deliveredBytes s.log ++ bytes ∧
      ((system label).StepsMeet Delivers s actions ∧ bytes = kernelBytes label s actions ∨
        ¬ (system label).StepsMeet Delivers s actions ∧
          bytes.length < (kernelBytes label s actions).length) := by
  induction actions generalizing s with
  | nil =>
      obtain rfl := Option.some.inj h
      exact ⟨[], (List.append_nil _).symm, .inl ⟨trivial, rfl⟩⟩
  | cons action actions ih =>
      obtain ⟨u, hu, hrest⟩ := Option.bind_eq_some_iff.mp h
      obtain ⟨bytes, hbytes, hmeet⟩ := ih hrest
      obtain ⟨v, hv, hresume⟩ := Option.bind_eq_some_iff.mp hu
      have hlog : deliveredBytes u.log = deliveredBytes v.log := deliveredBytes_unwind hresume
      have hkernel : kernelBytes label s (action :: actions) =
          s.bytesReturned action ++ kernelBytes label u actions := by
        rw [kernelBytes, hu]
      rw [hkernel, System.stepsMeet_cons hu]
      rcases deliveredBytes_act hv with ⟨hok, hstep⟩ | ⟨hlost, hne, hstep⟩
      · refine ⟨s.bytesReturned action ++ bytes, ?_, ?_⟩
        · rw [hbytes, hlog, hstep, List.append_assoc]
        · rcases hmeet with ⟨hmeet, rfl⟩ | ⟨hnot, hlt⟩
          · exact .inl ⟨⟨hok, hmeet⟩, rfl⟩
          · exact .inr ⟨fun hboth => hnot hboth.2, by simpa using hlt⟩
      · refine ⟨bytes, by rw [hbytes, hlog, hstep], .inr ⟨fun hboth => hlost hboth.1, ?_⟩⟩
        have hpos := List.length_pos_iff.mpr hne
        have hle : bytes.length ≤ (kernelBytes label u actions).length := by
          rcases hmeet with ⟨-, rfl⟩ | ⟨-, hlt⟩
          · exact le_rfl
          · exact hlt.le
        rw [List.length_append]
        omega

/-- A run hands over what the kernel returned in it exactly when no read event in it ends with an
error after it has got data. -/
theorem deliveredBytes_iff (label : ℕ → List α → List β) (s t : Session β)
    (actions : List (Action α β)) (h : (system label).run s actions = some t) :
    deliveredBytes t.log = deliveredBytes s.log ++ kernelBytes label s actions ↔
      (system label).StepsMeet Delivers s actions := by
  obtain ⟨bytes, hbytes, ⟨hmeet, rfl⟩ | ⟨hnot, hlt⟩⟩ := deliveredBytes_run h
  · exact iff_of_true hbytes hmeet
  · refine iff_of_false (fun hall => ?_) hnot
    have hsame := List.append_cancel_left (hbytes.symm.trans hall)
    rw [hsame] at hlt
    exact lt_irrefl _ hlt

/-- Two reads in one event, and the end of the stream after another one. -/
theorem deliveredBytes_endOfStream :
    ∃ t : Session UInt8, deliveredBytes t.log = [1, 2, 3] := by
  let actions : List (Action UInt8 UInt8) :=
    [.handlerReturns, .handleReadEvent [.data [1], .data [2], .failed EAGAIN] true, .handlerReturns,
      .handleReadEvent [.data [3], .data []] true]
  have hrun : ((system fun _ data => data).run (fresh : Session UInt8).channelActive actions).isSome =
      true ∧ deliveredBytes (fresh : Session UInt8).channelActive.log ++
        kernelBytes (fun _ data => data) fresh.channelActive actions = [1, 2, 3] := by decide +kernel
  obtain ⟨t, ht⟩ := Option.isSome_iff_exists.mp hrun.1
  refine ⟨t, ((deliveredBytes_iff _ _ t actions ht).mpr ?_).trans hrun.2⟩
  have hmild : ∀ answers : List (ReadAnswer UInt8),
      (∀ answer ∈ reads kRecvBufferSize answers, ¬ IsFatal answer) → ∀ s : Session UInt8,
        s.Delivers (.handleReadEvent answers true : Action UInt8 UInt8) :=
    fun answers h s => .inr (.inr h)
  refine fun u _ => ⟨trivial, fun v _ => ⟨hmild _ ?_ u, fun w _ => ⟨trivial, fun x _ => ⟨hmild _ ?_ w, ?_⟩⟩⟩⟩
  · simp [reads, kRecvBufferSize, IsFatal]
  · simp [reads, kRecvBufferSize, IsFatal]
  · trivial

/-- A connection that is reset after two bytes. -/
theorem not_deliveredBytes_reset :
    ¬ ∀ (s t : Session UInt8) (actions : List (Action UInt8 UInt8)),
      (system fun _ data => data).Reachable s →
        (system fun _ data => data).run s actions = some t →
          deliveredBytes t.log = deliveredBytes s.log ++ kernelBytes (fun _ data => data) s actions := by
  intro h
  let actions : List (Action UInt8 UInt8) :=
    [.handlerReturns, .handleReadEvent [.data [1, 2], .failed 104] true]
  have hrun : ((system fun _ data => data).run (fresh : Session UInt8).channelActive actions).any
      (fun t => decide (deliveredBytes t.log = [])) = true := by decide +kernel
  obtain ⟨t, ht, hnone⟩ := (Option.any_eq_true ..).mp hrun
  have hall := h _ t actions (.initial rfl) ht
  rw [of_decide_eq_true hnone] at hall
  exact absurd hall (by decide +kernel)

end Nets.Session
