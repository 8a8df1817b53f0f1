import Nets.Library.Vectors
import Nets.Program.SocketChannel

/-! # The vector of the blocks to be sent

`SocketChannel::removeSentBuffer` as it works on the vector, and the calls that change
`writeBuffer_`. -/

namespace Nets.Session

open Library

variable {β : Type}

/-- The variables of the loop. The iterator is a position: what `erase` moves comes to stand under
it. -/
structure Removal (β : Type) where
  writeBuffer : List (ByteBuffer β)
  it : ℕ
  writtenBytes : ℕ

def removeSentRound (r : Removal β) : Removal β ⊕ List (ByteBuffer β) :=
  match r.writeBuffer[r.it]? with
  | some b =>
    if 0 < r.writtenBytes then
      let bytes := b.readableBytes
      if bytes ≤ r.writtenBytes then
        .inl { r with
          writeBuffer := Vectors.erase ByteBuffer.move r.it r.writeBuffer
          writtenBytes := r.writtenBytes - bytes }
      else
        .inl {
          writeBuffer := r.writeBuffer.set r.it (b.setReaderIndex (addSize b.readerIndex r.writtenBytes))
          it := r.it + 1
          writtenBytes := 0 }
    else .inr r.writeBuffer
  -- `it == writeBuffer_.end()`
  | none => .inr r.writeBuffer

/-- Every round but the last two erases a block. -/
def removeSent (writeBuffer : List (ByteBuffer β)) (writtenBytes : ℕ) :
    Option (List (ByteBuffer β)) :=
  Loop.run removeSentRound (writeBuffer.length + 2) { writeBuffer, it := 0, writtenBytes }

/-- The readable bytes of all blocks together. -/
def totalBytes (writeBuffer : List (ByteBuffer β)) : ℕ :=
  (writeBuffer.map ByteBuffer.readableBytes).sum

/-- A call that adds bytes, or one that removes bytes that are there. -/
inductive Call (β : Type) where
  | appendBuffer (data : List β) (epoll : Bool)
  | removeSentBuffer (writtenBytes : ℕ)

/-- The write list of a channel, from an empty one on. -/
def writeList [Inhabited β] : System (Session β) (Call β) where
  initial s := s.writeBuffer = []
  step s
    | .appendBuffer data epoll => if data.isEmpty then none else s.appendBuffer data epoll
    | .removeSentBuffer writtenBytes =>
      if writtenBytes ≤ totalBytes s.writeBuffer then
        (removeSent s.writeBuffer writtenBytes).map fun writeBuffer => { s with writeBuffer }
      else none

end Nets.Session
