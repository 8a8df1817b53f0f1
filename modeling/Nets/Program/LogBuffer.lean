import Nets.Program.StackBuffer

/-! # The buffer of a log message

`base/log/LogBuffer.cpp`. Each operator hands its argument to one function of the buffer. -/

namespace Nets

/-- Log length limit: 4K. -/
def kLogBufferSize : ℕ := 4096

instance : NeZero kLogBufferSize := ⟨by decide⟩

abbrev LogBuffer := StackBuffer kLogBufferSize UInt8

/-- The same buffer where its bytes are written as characters. -/
abbrev LogTextBuffer := StackBuffer kLogBufferSize Char

structure LogBufferStream where
  buffer : LogTextBuffer

namespace LogBufferStream

/-- `operator<<` for the eight integer types. -/
def putInteger (value : StackBuffer.Integer) (stream : LogBufferStream) : Option LogBufferStream :=
  (stream.buffer.write value).map fun buffer => ⟨buffer⟩

end LogBufferStream

end Nets
