import Nets.Program.SocketChannel
import Nets.Verification.ByteBuffer.RoundTrip

/-! # What a read event reads

The answers of `::read` are handed over up to the end of the stream, to `EAGAIN` or `EINTR`, or to
another error, which drops them. -/

namespace Nets.Session

open Library

variable {β : Type}

/-- What the calls of `::read` hand over, or the error that ends them. -/
def received (expectedReadLen : ℕ) : List (ReadAnswer β) → Except ℕ (List β)
  | [] => .ok []
  | .failed errNum :: _ => if errNum = EAGAIN ∨ errNum = EINTR then .ok [] else .error errNum
  | .data bytes :: answers =>
    let readBytes := (bytes.take expectedReadLen).length
    if readBytes = 0 then .ok []
    else
      let adjustment := expectedReadLen - readBytes
      (received (if 0 < adjustment then adjustment else expectedReadLen) answers).map
        (bytes.take expectedReadLen ++ ·)

variable [Inhabited β]

theorem of_readInto_failed {errNum length : ℕ} {b b' : ByteBuffer β} (hb : b.Valid)
    {result : Except ℕ ℕ} (h : readInto (.failed errNum) length b = .ok result b') :
    result = .error errNum ∧ b'.Valid ∧ b'.contents = b.contents := by
  obtain ⟨⟨⟩, b₁, hensure, hresult⟩ := ByteBuffer.exists_of_bind_ok h
  cases hresult
  exact ⟨rfl, hb.of_ensureWritable hensure⟩

theorem of_readInto_data {bytes : List β} {length : ℕ} {b b' : ByteBuffer β} (hb : b.Valid)
    {result : Except ℕ ℕ} (h : readInto (.data bytes) length b = .ok result b') :
    result = .ok (bytes.take length).length ∧ b'.Valid ∧
      b'.contents = b.contents ++ bytes.take length := by
  obtain ⟨⟨⟩, b₁, hensure, hstore⟩ := ByteBuffer.exists_of_bind_ok h
  obtain ⟨hvalid, hsame⟩ := hb.of_ensureWritable hensure
  simp only [ByteBuffer.get_bind_apply] at hstore
  obtain ⟨buffer, b₂, hbuffer, hset⟩ := ByteBuffer.exists_of_bind_ok hstore
  obtain ⟨hbuffer, rfl⟩ := ByteBuffer.of_orFault_ok hbuffer
  obtain ⟨hvalid', hcontents⟩ := hvalid.append_of_store hbuffer
  cases hset
  exact ⟨rfl, hvalid', by rw [hcontents, hsame]⟩

/-- A read that returns has appended what was handed over and reports the size of it all, or
reports the error. -/
theorem of_doRead_ok {expectedReadLen : ℕ} {answers : List (ReadAnswer β)} {b b' : ByteBuffer β}
    {result : Except ℕ ℕ} (hb : b.Valid)
    (h : doRead expectedReadLen answers b = .ok result b') :
    match received expectedReadLen answers with
    | .error errNum => result = .error errNum
    | .ok bytes => result = .ok b'.contents.length ∧ b'.Valid ∧ b'.contents = b.contents ++ bytes := by
  induction answers generalizing expectedReadLen b with
  | nil =>
      obtain ⟨r, b₁, hread, hrest⟩ := ByteBuffer.exists_of_bind_ok h
      obtain ⟨-, hvalid, hsame⟩ := of_readInto_failed hb hread
      cases hrest
      exact ⟨by rw [hvalid.readableBytes_eq_length], hvalid, by simp [hsame]⟩
  | cons answer answers ih =>
      obtain ⟨r, b₁, hread, hrest⟩ := ByteBuffer.exists_of_bind_ok h
      cases answer with
      | failed errNum =>
          obtain ⟨rfl, hvalid, hsame⟩ := of_readInto_failed hb hread
          by_cases hmild : errNum = EAGAIN ∨ errNum = EINTR
          · simp only [received, hmild, if_true]
            have hguard : ¬ (errNum ≠ EAGAIN ∧ errNum ≠ EINTR) := by tauto
            simp only [hguard, if_false] at hrest
            cases hrest
            exact ⟨by rw [hvalid.readableBytes_eq_length], hvalid, by simp [hsame]⟩
          · simp only [received, hmild, if_false]
            have hguard : errNum ≠ EAGAIN ∧ errNum ≠ EINTR := by tauto
            simp only [hguard, ne_eq, not_false_eq_true, and_self, if_true] at hrest
            cases hrest
            rfl
      | data bytes =>
          obtain ⟨rfl, hvalid, happend⟩ := of_readInto_data hb hread
          cases hcount : (bytes.take expectedReadLen).length with
          | zero =>
              simp only [hcount] at hrest
              cases hrest
              simp only [received, hcount, if_true]
              refine ⟨by rw [hvalid.readableBytes_eq_length], hvalid, ?_⟩
              rw [happend, List.length_eq_zero_iff.mp hcount]
          | succ readBytes =>
              simp only [hcount] at hrest
              have hread' := ih hvalid hrest
              simp only [received, hcount, Nat.succ_ne_zero, if_false]
              split at hread'
              · rename_i errNum hreceived
                simp only [hreceived]
                exact hread'
              · rename_i more hreceived
                obtain ⟨hresult, hvalid', hcontents⟩ := hread'
                simp only [hreceived]
                exact ⟨hresult, hvalid', by rw [hcontents, happend, List.append_assoc]⟩

/-- What a read event comes to, by what it received. -/
theorem handleReadEvent_eq {answers : List (ReadAnswer β)} {epoll : Bool} {s t : Session β}
    (halive : s.state ≠ .inactive) (h : s.handleReadEvent answers epoll = some t) :
    (∃ errNum, received kRecvBufferSize answers = .error errNum ∧ t = s.handleReadError errNum) ∨
    (∃ byteBuffer, received kRecvBufferSize answers = .ok byteBuffer.contents ∧
      byteBuffer.contents ≠ [] ∧ t = s.fireRead byteBuffer) ∨
    (received kRecvBufferSize answers = .ok [] ∧
      t = if s.writeBuffer.isEmpty then s.shutdown
        else (s.shutdownRead.setEvents kWriteEvent).modify epoll) := by
  have hlt : kRecvBufferSize < 2 ^ 64 := by decide
  obtain ⟨hvalid, hempty⟩ := ByteBuffer.ofCapacity_spec (β := β) hlt
  rw [handleReadEvent, if_neg halive] at h
  split at h
  · cases h
  · rename_i errNum _ hread
    have hok := of_doRead_ok hvalid hread
    split at hok
    · rename_i hreceived
      obtain rfl := Except.error.inj hok
      exact .inl ⟨errNum, hreceived, (Option.some.inj h).symm⟩
    · cases hok.1
  · rename_i bytes byteBuffer hread
    have hok := of_doRead_ok hvalid hread
    split at hok
    · cases hok
    · rename_i hreceived
      obtain ⟨hbytes, -, hcontents⟩ := hok
      obtain rfl := Except.ok.inj hbytes
      rw [hempty, List.nil_append] at hcontents
      rw [← hcontents] at hreceived
      split at h
      · rename_i hpos
        exact .inr (.inl ⟨byteBuffer, hreceived, List.length_pos_iff.mp hpos,
          (Option.some.inj h).symm⟩)
      · rename_i hnone
        have hnil : byteBuffer.contents = [] := by simpa using hnone
        refine .inr (.inr ⟨hnil ▸ hreceived, ?_⟩)
        split at h
        · rename_i hsent
          rw [if_pos hsent]
          exact (Option.some.inj h).symm
        · rename_i hunsent
          rw [if_neg hunsent]
          exact (Option.some.inj h).symm

end Nets.Session
