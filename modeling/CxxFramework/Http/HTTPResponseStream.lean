import CxxFramework.Http.HTTPRequestStream
import CxxFramework.Http.ResponseBuffer

/-!
# The response stream

`HTTPResponseStream` buffers what is put into it and sends it over the socket of the session. Its
`Flush` makes one send of all that is buffered, where the client's stream sends it in pieces.
-/

namespace CxxFramework.Net

open CxxFramework.Core Buffer
open ResponseBuffer (slice_pending length_pending)

def kOutputBufferSizeInBytes : Nat := 2048

structure HTTPResponseStream extends ResponseBuffer where
  formatter := { size := kOutputBufferSizeInBytes }
deriving DecidableEq, Repr

namespace HTTPResponseStream

/-- `HTTPResponseStream::WriteV` -/
def writeV (o : HTTPResponseStream) (fSocket : Socket) (inVec : List Bytes)
    (inTotalLength : Nat) (inSendType : SendType) :
    Option (CF_Error × Option Nat × HTTPResponseStream × Socket) :=
  (o.toResponseBuffer.writeV fSocket inVec inTotalLength inSendType).map
    fun (theErr, outLengthSent, toResponseBuffer, fSocket) =>
      (theErr, outLengthSent, { toResponseBuffer }, fSocket)

/-- `Flush`. Whatever keeps the socket from taking all bytes is reported as `EAGAIN`. -/
def flush (o : HTTPResponseStream) (fSocket : Socket) : CF_Error × HTTPResponseStream × Socket :=
  let amtInBuffer := o.formatter.getCurrentOffset - o.fBytesSentInBuffer
  if amtInBuffer > 0 then
    let result := fSocket.send (slice o.formatter.content o.fBytesSentInBuffer amtInBuffer)
    if result.sent = amtInBuffer then
      (CF_NoErr, { formatter := o.formatter.reset, fBytesSentInBuffer := 0 }, result.socket)
    else
      (EAGAIN, { o with fBytesSentInBuffer := o.fBytesSentInBuffer + result.sent }, result.socket)
  else (CF_NoErr, o, fSocket)

/-- What one flush does: it sends a start of the pending bytes, and empties the buffer if
that is all of them. -/
inductive Flushed (o : HTTPResponseStream) (fSocket : Socket) :
    CF_Error × HTTPResponseStream × Socket → Prop
  | all {socket} : (fSocket.send o.pending).sent = o.pending.length →
      socket.wire = fSocket.wire ++ o.pending →
      Flushed o fSocket
        (CF_NoErr, { formatter := o.formatter.reset, fBytesSentInBuffer := 0 }, socket)
  | part {n socket} : n < o.pending.length → n = (fSocket.send o.pending).sent →
      socket.wire = fSocket.wire ++ o.pending.take n →
      Flushed o fSocket
        (EAGAIN, { o with fBytesSentInBuffer := o.fBytesSentInBuffer + n }, socket)

theorem flush_flushed {o : HTTPResponseStream} (fSocket : Socket) (hpending : o.pending ≠ []) :
    Flushed o fSocket (o.flush fSocket) := by
  obtain ⟨hwire, hle⟩ := fSocket.send_wire o.pending
  unfold flush
  dsimp only
  rw [slice_pending, ← length_pending, if_pos (List.length_pos_of_ne_nil hpending)]
  split_ifs with hall
  · rw [hall, List.take_length] at hwire
    exact .all hall hwire
  · exact .part (lt_of_le_of_ne hle hall) rfl hwire

end HTTPResponseStream

end CxxFramework.Net
