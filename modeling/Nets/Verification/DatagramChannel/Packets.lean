import Nets.Program.DatagramChannel
import Nets.Verification.ByteBuffer.RoundTrip

/-! # What datagram channels receive

The packets that the handlers are given are what channels have written, whatever the network loses, repeats
and delays, cut to the size of the buffer. -/

namespace Nets.DatagramChannel

open Library

/-! ## One read event -/

theorem ensureWritable_recvPacket :
    ByteBuffer.ensureWritable kRecvPacketSize (ByteBuffer.ofCapacity kRecvPacketSize : ByteBuffer UInt8) =
      .ok () (ByteBuffer.ofCapacity kRecvPacketSize) := by
  rw [ByteBuffer.ensureWritable, ByteBuffer.get_bind_apply]
  simp [ByteBuffer.ofCapacity, ByteBuffer.writableBytes, subSize]

theorem handleReadEvent_failed (errNum : ℕ) : handleReadEvent (.failed errNum) = some none := by
  have hread : Session.readInto (.failed errNum) kRecvPacketSize (ByteBuffer.ofCapacity (β := UInt8)
      kRecvPacketSize) = .ok (.error errNum) (ByteBuffer.ofCapacity kRecvPacketSize) := by
    rw [Session.readInto, ByteBuffer.bind_ok ensureWritable_recvPacket]
    rfl
  have hwritable : (ByteBuffer.ofCapacity kRecvPacketSize : ByteBuffer UInt8).writableBytes =
      kRecvPacketSize := rfl
  simp only [handleReadEvent, hwritable, RecvAnswer.read, hread]

theorem readInto_datagram (data : List UInt8) :
    ∃ byteBuffer : ByteBuffer UInt8,
      Session.readInto (.data data) kRecvPacketSize (ByteBuffer.ofCapacity kRecvPacketSize) =
        .ok (.ok (data.take kRecvPacketSize).length) byteBuffer ∧
      byteBuffer.Valid ∧ byteBuffer.contents = data.take kRecvPacketSize := by
  obtain ⟨hvalid, hempty⟩ := ByteBuffer.ofCapacity_spec (β := UInt8) (show kRecvPacketSize < 2 ^ 64 by decide)
  have hroom : (ByteBuffer.ofCapacity kRecvPacketSize : ByteBuffer UInt8).writerIndex +
      (data.take kRecvPacketSize).length ≤ kRecvPacketSize := by
    simp [ByteBuffer.ofCapacity]
  obtain ⟨buffer, hbuffer, hvalid', hcontents⟩ := ByteBuffer.append_spec hvalid _ hroom
  refine ⟨_, ?_, hvalid', by rw [hcontents, hempty, List.nil_append]⟩
  rw [Session.readInto, ByteBuffer.bind_ok ensureWritable_recvPacket]
  simp only [ByteBuffer.get_bind_apply, hbuffer, ByteBuffer.orFault_some]
  rfl

/-- A datagram with bytes becomes a packet of them that goes by the address it came from. -/
theorem handleReadEvent_datagram (data : List UInt8) (srcAddr : InetSockAddress) :
    ∃ packet, handleReadEvent (.datagram data srcAddr) = some packet ∧
      ∀ p ∈ packet, p.byteBuffer.Valid ∧ p.byteBuffer.contents = data.take kRecvPacketSize ∧
        data ≠ [] ∧ p.recipient = srcAddr.copy := by
  obtain ⟨byteBuffer, hread, hvalid, hcontents⟩ := readInto_datagram data
  have hwritable : (ByteBuffer.ofCapacity kRecvPacketSize : ByteBuffer UInt8).writableBytes =
      kRecvPacketSize := rfl
  simp only [handleReadEvent, hwritable, RecvAnswer.read, hread]
  refine ⟨_, rfl, fun p hp => ?_⟩
  obtain ⟨hpos, hp⟩ := Option.mem_ite_none_right.mp hp
  obtain rfl := Option.some.inj hp
  exact ⟨hvalid, hcontents, by rintro rfl; simp at hpos, rfl⟩

/-! ## Several channels -/

namespace World

variable {ι : Type} {network : Network ι} {s t : World ι} {w : Write ι} {i : ι}

/-- The write call that `packet` of the channel `i` comes from. -/
structure Carries (network : Network ι) (w : Write ι) (i : ι) (packet : DatagramPacket) : Prop where
  heard : network.hears i w.recipient = true
  valid : w.recipient.isInValid = false
  nonempty : w.data ≠ []
  contents : packet.byteBuffer.contents = w.data.take kRecvPacketSize
  recipient : packet.recipient = (network.address w.sender).copy

/-- Nothing is on its way, and nothing was received, that was not written. -/
structure Genuine (network : Network ι) (s : World ι) : Prop where
  sent : ∀ w ∈ s.sent, w ∈ s.written ∧ w.recipient.isInValid = false
  received : ∀ i, ∀ packet ∈ s.received i, packet.byteBuffer.Valid ∧
    ∃ w ∈ s.written, Carries network w i packet

theorem genuine_empty : Genuine network empty where
  sent := nofun
  received := nofun

theorem Genuine.write (hs : Genuine network s) (w : Write ι) (sent : Bool) :
    Genuine network (s.write w sent) where
  sent := by
    intro v hv
    by_cases hsent : (doWrite w.data w.recipient sent).2 = true
    · rw [World.write, if_pos hsent] at hv
      obtain hv | hv := List.mem_append.mp hv
      · obtain ⟨hwritten, hvalid⟩ := hs.sent v hv
        exact ⟨List.mem_append_left _ hwritten, hvalid⟩
      · obtain rfl := List.mem_singleton.mp hv
        refine ⟨List.mem_append_right _ hv, ?_⟩
        by_contra hinvalid
        rw [doWrite, if_pos (.inr (by simpa using hinvalid))] at hsent
        cases hsent
    · rw [World.write, if_neg hsent] at hv
      obtain ⟨hwritten, hvalid⟩ := hs.sent v hv
      exact ⟨List.mem_append_left _ hwritten, hvalid⟩
  received := by
    intro i packet hpacket
    obtain ⟨hvalid, v, hv, hcarries⟩ := hs.received i packet hpacket
    exact ⟨hvalid, v, List.mem_append_left _ hv, hcarries⟩

variable [DecidableEq ι]

theorem Genuine.read (hs : Genuine network s) {answer : RecvAnswer} (h : s.read i answer = some t)
    (hanswer : ∀ packet, handleReadEvent answer = some packet → ∀ p ∈ packet, p.byteBuffer.Valid ∧
      ∃ w ∈ s.written, Carries network w i p) : Genuine network t := by
  obtain ⟨packet, hpacket, rfl⟩ := Option.map_eq_some_iff.mp h
  refine ⟨hs.sent, fun j p hp => ?_⟩
  obtain rfl | hj := eq_or_ne j i
  · simp only [Function.update_self, List.mem_append, Option.mem_toList] at hp
    obtain hp | hp := hp
    · exact hs.received j p hp
    · exact hanswer packet hpacket p hp
  · simp only [Function.update_of_ne hj] at hp
    exact hs.received j p hp

theorem genuine_step {a : Action ι} (hs : Genuine network s) (h : step network s a = some t) :
    Genuine network t := by
  cases a with
  | write w sent =>
      obtain rfl := Option.some.inj h
      exact hs.write w sent
  | reply i packet sent =>
      obtain ⟨message, -, h⟩ := Option.bind_eq_some_iff.mp h
      obtain ⟨data, -, rfl⟩ := Option.map_eq_some_iff.mp h
      exact hs.write _ sent
  | receive i datagram =>
      obtain ⟨w, hw, h⟩ := Option.bind_eq_some_iff.mp h
      obtain ⟨hheard, h⟩ := Option.ite_none_right_eq_some.mp h
      obtain ⟨hwritten, hvalid⟩ := hs.sent w (List.mem_of_getElem? hw)
      refine hs.read h fun packet hpacket p hp => ?_
      obtain ⟨packet', hpacket', hall⟩ := handleReadEvent_datagram w.data (network.address w.sender)
      obtain rfl := Option.some.inj (hpacket.symm.trans hpacket')
      obtain ⟨hbuffer, hcontents, hnonempty, hrecipient⟩ := hall p hp
      exact ⟨hbuffer, w, hwritten, hheard, hvalid, hnonempty, hcontents, hrecipient⟩
  | fail i errNum =>
      refine hs.read h fun packet hpacket p hp => ?_
      obtain rfl := Option.some.inj (hpacket.symm.trans (handleReadEvent_failed errNum))
      cases hp

/-- No read event leaves the buffer. -/
theorem read_isSome (i : ι) (answer : RecvAnswer) (s : World ι) : (s.read i answer).isSome := by
  rw [World.read, Option.isSome_map]
  cases answer with
  | datagram data srcAddr =>
      obtain ⟨packet, hpacket, -⟩ := handleReadEvent_datagram data srcAddr
      rw [hpacket]
      rfl
  | failed errNum =>
      rw [handleReadEvent_failed]
      rfl

/-- Whatever the channels write and reply, and whatever of it the network loses, repeats or delays: a packet
that a handler is given has the bytes of one datagram that was written to an address its channel hears, up
to the size of the receiving buffer, and replying to it writes these bytes to where the datagram came from. -/
theorem received_packets_written (hs : (system network).Reachable s) {packet : DatagramPacket}
    (hpacket : packet ∈ s.received i) :
    ∃ w ∈ s.written, Carries network w i packet ∧
      ∀ n, (s.received i)[n]? = some packet → ∀ sent,
        step network s (.reply i n sent) =
          some (s.write ⟨i, w.data.take kRecvPacketSize, (network.address w.sender).copy⟩ sent) := by
  have hgenuine : Genuine network s := by
    refine hs.invariant (I := Genuine network) ?_ fun _ _ _ h hstep => genuine_step h hstep
    rintro _ rfl
    exact genuine_empty
  obtain ⟨hvalid, w, hw, hcarries⟩ := hgenuine.received i packet hpacket
  refine ⟨w, hw, hcarries, fun n hn sent => ?_⟩
  have hdata : Session.iovec packet.byteBuffer = some (w.data.take kRecvPacketSize) := by
    rw [Session.iovec, hvalid.readableBytes_eq_length, hvalid.load_contents le_rfl, List.take_length,
      hcarries.contents]
  simp only [step, hn, Option.bind_some, hdata, Option.map_some, hcarries.recipient]

/-- `false` and `true` are at two addresses of one host. -/
def echoNetwork : Network Bool where
  address i := { InetSockAddress.zero with family := 2, sinPort := if i then 7 else 8 }
  hears i recipient := recipient.sinPort = if i then 7 else 8

/-- One channel and its echo, where the network repeats the first datagram. -/
theorem received_packets_written_echo :
    ∃ (s : World Bool) (packet : DatagramPacket), packet ∈ s.received false ∧
      packet.byteBuffer.contents = [1, 2] ∧ ∃ w ∈ s.written, Carries echoNetwork w false packet := by
  let actions : List (Action Bool) := [.write ⟨false, [1, 2], echoNetwork.address true⟩ true,
    .receive true 0, .receive true 0, .reply true 1 true, .fail false 11, .receive false 1]
  have hrun : ((system echoNetwork).run empty actions).any
      (fun s => (s.received false)[0]?.any fun packet => decide (packet.byteBuffer.contents = [1, 2])) =
        true := by
    decide +kernel
  obtain ⟨s, hs, hfirst⟩ := (Option.any_eq_true ..).mp hrun
  obtain ⟨packet, hpacket, hcontents⟩ := (Option.any_eq_true ..).mp hfirst
  have hreached : (system echoNetwork).Reachable s := System.Reachable.run _ (.initial rfl) hs
  have hmem := List.mem_of_getElem? hpacket
  obtain ⟨w, hw, hcarries, -⟩ := received_packets_written hreached hmem
  exact ⟨s, packet, hmem, of_decide_eq_true hcontents, w, hw, hcarries⟩

end World

end Nets.DatagramChannel
