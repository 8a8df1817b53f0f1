import Nets.Library.System
import Nets.Program.InetSockAddress
import Nets.Program.SocketChannel

/-! # Datagram channels

`net/channel/DatagramChannel.cpp`, `net/core/DatagramPacket.cpp` and `ByteBuffer::writeBytes` from a
`DatagramChannel`, in a network that loses, repeats and delays datagrams as it likes. `bind` is with the
settings of a bootstrap. -/

namespace Nets

open Library

/-- `1024 << 4`. -/
def kRecvPacketSize : ℕ := 16384

structure DatagramPacket where
  byteBuffer : ByteBuffer UInt8
  recipient : InetSockAddress

/-- `addr_.sa_family == AF_UNSPEC`. -/
def InetSockAddress.isInValid (a : InetSockAddress) : Bool := decide (a.family = 0)

/-- What `::recvfrom` answers: a datagram and where it comes from, or `-1` and `errno`. -/
inductive RecvAnswer where
  | datagram (data : List UInt8) (srcAddr : InetSockAddress)
  | failed (errNum : ℕ)

namespace RecvAnswer

/-- The bytes; what does not fit into the buffer is gone. -/
def read : RecvAnswer → ReadAnswer UInt8
  | .datagram data _ => .data data
  | .failed errNum => .failed errNum

def srcAddr : RecvAnswer → InetSockAddress
  | .datagram _ srcAddr => srcAddr
  | .failed _ => .zero

end RecvAnswer

namespace DatagramChannel

/-- The packet that the first handler is given, if any. An error is logged, and so is a read of no bytes. No
result is an access outside the buffer. -/
def handleReadEvent (answer : RecvAnswer) : Option (Option DatagramPacket) :=
  let byteBuffer := ByteBuffer.ofCapacity kRecvPacketSize
  match Session.readInto answer.read byteBuffer.writableBytes byteBuffer with
  | .error _ _ => none
  | .ok (.error _) _ => some none
  | .ok (.ok bytes) byteBuffer =>
    some (if 0 < bytes then
      some { byteBuffer := byteBuffer.move.1, recipient := answer.srcAddr.move.1 } else none)

/-- What `doWrite` returns, and whether a datagram is on its way. `sent` tells whether `::sendto` takes it. -/
def doWrite (data : List UInt8) (recipient : InetSockAddress) (sent : Bool) : ℤ × Bool :=
  if data.length = 0 ∨ recipient.isInValid = true then (0, false)
  else if sent then (data.length, true) else (-1, false)

/-! ## Several channels -/

/-- What one write call was given, by the channel `sender`. -/
structure Write (ι : Type) where
  sender : ι
  data : List UInt8
  recipient : InetSockAddress

/-- Every datagram that was ever sent may still arrive. `written` and `received` are records of the run. -/
structure World (ι : Type) where
  sent : List (Write ι)
  written : List (Write ι)
  received : ι → List DatagramPacket

/-- `address` is where the datagrams of a channel come from, and `hears` tells which channels get what is
sent to an address: one, or several of a group. -/
structure Network (ι : Type) where
  address : ι → InetSockAddress
  hears : ι → InetSockAddress → Bool

namespace World

variable {ι : Type} [DecidableEq ι]

def empty : World ι where
  sent := []
  written := []
  received _ := []

/-- `write` of the channel with bytes; `reply` with a packet the channel has received, which goes back to
where it came from. -/
inductive Action (ι : Type) where
  | write (w : Write ι) (sent : Bool)
  | reply (i : ι) (packet : ℕ) (sent : Bool)
  | receive (i : ι) (datagram : ℕ)
  | fail (i : ι) (errNum : ℕ)

def write (w : Write ι) (sent : Bool) (s : World ι) : World ι :=
  { s with
    written := s.written ++ [w]
    sent := if (doWrite w.data w.recipient sent).2 then s.sent ++ [w] else s.sent }

/-- A read event of the channel `i`. -/
def read (i : ι) (answer : RecvAnswer) (s : World ι) : Option (World ι) :=
  (handleReadEvent answer).map fun packet =>
    { s with received := Function.update s.received i (s.received i ++ packet.toList) }

def step (network : Network ι) (s : World ι) : Action ι → Option (World ι)
  | .write w sent => some (s.write w sent)
  | .reply i packet sent =>
    (s.received i)[packet]?.bind fun message =>
      (Session.iovec message.byteBuffer).map fun data => s.write ⟨i, data, message.recipient⟩ sent
  | .receive i datagram =>
    s.sent[datagram]?.bind fun w =>
      if network.hears i w.recipient then
        s.read i (.datagram w.data (network.address w.sender)) else none
  | .fail i errNum => s.read i (.failed errNum)

def system (network : Network ι) : System (World ι) (Action ι) where
  initial s := s = empty
  step := step network

end World

end DatagramChannel

end Nets
