import CxxFramework.Http.ResponseBuffer
import CxxFramework.Library.PendingCopy
import CxxFramework.Library.Transition
import CxxFramework.Socket.ClientSocket

/-!
# The client's response stream

`HTTPClientResponseStream` buffers what is put into it and sends it over a
`TCPClientSocket`. Of the bytes in its buffer, the first `fBytesSentInBuffer` count as
sent. `Flush` hands at most 2048 bytes at a time to the socket, which copies them into
its own send buffer; while that copy is not sent in full, they stay in both.

`Ok` is the condition under which the two buffers agree: a `Flush` over a pending copy
asks for exactly the bytes of that copy, and no `WriteV` sends past it. In every run that
meets it, the bytes on the wire are a start of all bytes accepted, and a successful
`Flush` leaves none behind.
-/

namespace CxxFramework.Net

open CxxFramework.Core Buffer PendingCopy Transition ResizeableStringFormatter
open ResponseBuffer (pending length_pending)

def CF_MAX_RESPONSE_BUFFER_SIZE : Nat := 2048

structure HTTPClientResponseStream extends ResponseBuffer where
  fSocket : TCPClientSocket := {}
deriving DecidableEq, Repr

namespace HTTPClientResponseStream

/-- `ResetResponseBuffer` -/
def resetResponseBuffer (h : HTTPClientResponseStream) : HTTPClientResponseStream :=
  { h with formatter := h.formatter.reset, fBytesSentInBuffer := 0 }

/-- The bytes that one pass of the loop of `Flush` asks to send. -/
def amtInBuffer (h : HTTPClientResponseStream) : Nat :=
  min (h.formatter.getCurrentOffset - h.fBytesSentInBuffer) CF_MAX_RESPONSE_BUFFER_SIZE

/-- `HTTPClientResponseStream::Flush` -/
def flush (h : HTTPClientResponseStream) (outcome : ConnectOutcome) :
    Option (OS_Error × HTTPClientResponseStream) :=
  if _h : h.amtInBuffer > 0 then
    let data := slice h.formatter.content h.fBytesSentInBuffer h.amtInBuffer
    match h.fSocket.send data outcome with
    | none => none
    | some (theErr, fSocket) =>
      if theErr ≠ OS_NoErr then some (theErr, { h with fSocket })
      else
        let h' := { h with fSocket, fBytesSentInBuffer := h.fBytesSentInBuffer + h.amtInBuffer }
        if h'.fBytesSentInBuffer < h.formatter.getCurrentOffset then flush h' outcome
        else some (OS_NoErr, h'.resetResponseBuffer)
  else some (OS_NoErr, h.resetResponseBuffer)
termination_by h.formatter.content.length - h.fBytesSentInBuffer
decreasing_by
  simp only [amtInBuffer, StringFormatter.getCurrentOffset] at *
  omega

/-- `HTTPClientResponseStream::WriteV`, over the socket of the client socket -/
def writeV (h : HTTPClientResponseStream) (inVec : List Bytes) (inTotalLength : Nat)
    (inSendType : SendType) : Option (OS_Error × Option Nat × HTTPClientResponseStream) :=
  (h.toResponseBuffer.writeV h.fSocket.fSocket inVec inTotalLength inSendType).map
    fun (theErr, outLengthSent, toResponseBuffer, fSocket) =>
      (theErr, outLengthSent, { h with toResponseBuffer, fSocket.fSocket := fSocket })

/-! ## Runs -/

/-- A stream, all the bytes it has accepted, and what the last call returned if it was
`Flush`. -/
structure State where
  stream : HTTPClientResponseStream
  accepted : Bytes := []
  flushErr : Option OS_Error := none
deriving DecidableEq, Repr

/-- The bytes on the wire. -/
def State.wire (s : State) : Bytes := s.stream.fSocket.fSocket.wire

/-- The calls of the stream's users. `outgoing` is what the kernel answers to the sends
of a call. The callers of `WriteV` pass the total length of the vectors. -/
inductive Action where
  | put (buffer : Bytes)
  | putFmtStr (text : Bytes)
  | writeV (inVec : List Bytes) (inSendType : SendType) (outgoing : List SendOutcome)
  | flush (outcome : ConnectOutcome) (outgoing : List SendOutcome)
deriving DecidableEq, Repr

/-- The stream, with what its socket answers next. -/
def answer (h : HTTPClientResponseStream) (outgoing : List SendOutcome) :
    HTTPClientResponseStream :=
  { h with fSocket.fSocket.outgoing := outgoing }

/-- `WriteV` has accepted the bytes it reports as sent. -/
def next (s : State) : Action → Option State
  | .put buffer => (put s.stream.formatter buffer).map fun formatter =>
    { stream := { s.stream with formatter }, accepted := s.accepted ++ buffer }
  | .putFmtStr text => (putFmtStr s.stream.formatter text).map fun formatter =>
    { stream := { s.stream with formatter }, accepted := s.accepted ++ text }
  | .writeV inVec inSendType outgoing =>
    ((answer s.stream outgoing).writeV inVec inVec.flatten.length inSendType).map
      fun (_, outLengthSent, stream) =>
        { stream, accepted := s.accepted ++ inVec.flatten.take (outLengthSent.getD 0) }
  | .flush outcome outgoing =>
    ((answer s.stream outgoing).flush outcome).map fun (theErr, stream) =>
      { s with stream, flushErr := some theErr }

/-- A new stream over a new client socket. -/
def Fresh (s : State) : Prop :=
  s.accepted = [] ∧ s.wire = [] ∧ s.stream.formatter.content = [] ∧ Valid s.stream.formatter ∧
    s.stream.fBytesSentInBuffer = 0 ∧ s.stream.fSocket.client = {}

abbrev system : System State Action := .ofPartial Fresh next

/-- The wire carries a start of what was accepted, and all of it after a successful
`Flush`. -/
def InOrder (s : State) : Prop :=
  s.wire <+: s.accepted ∧ (s.flushErr = some OS_NoErr → s.wire = s.accepted)

/-- The call does not go against a send that is pending in the socket: a `Flush` asks for
the pending bytes, and a `WriteV` sends nothing. -/
def Ok (s : State) : Action → Prop
  | .put _ | .putFmtStr _ => True
  | .writeV _ _ outgoing =>
    s.stream.fSocket.client.sendBufferLen = 0 ∨ Socket.refuses outgoing = true
  | .flush _ _ =>
    s.stream.fSocket.client.sendBufferLen = 0 ∨
      s.stream.fSocket.client.sendBufferLen = s.stream.amtInBuffer

instance (s : State) : Decidable (InOrder s) := inferInstanceAs (Decidable (_ ∧ _))

instance (s : State) : (a : Action) → Decidable (Ok s a)
  | .put _ | .putFmtStr _ => inferInstanceAs (Decidable True)
  | .writeV _ _ _ | .flush _ _ => inferInstanceAs (Decidable (_ ∨ _))

/-! ## The two buffers -/

/-- The socket's pending copy. -/
def copied (h : HTTPClientResponseStream) : Bytes :=
  h.fSocket.client.fSendBuf.take h.fSocket.client.sendBufferLen

/-- The buffers are inside their arrays, and the buffered data, the socket's copy and the
wire account for what was accepted. -/
structure Inv (h : HTTPClientResponseStream) (accepted : Bytes) : Prop where
  formatter : Valid h.formatter
  counted : h.fBytesSentInBuffer ≤ h.formatter.content.length
  sendBuf : h.fSocket.client.fSendBuf.length = kSendBufferLen + 1
  sendBufferLen : h.fSocket.client.sendBufferLen ≤ h.fSocket.client.fSendBuf.length
  agree : Agree accepted h.fSocket.fSocket.wire h.pending h.copied h.fSocket.client.fSentLength

variable {h : HTTPClientResponseStream} {accepted : Bytes}

theorem copied_length (hi : Inv h accepted) : h.copied.length = h.fSocket.client.sendBufferLen := by
  rw [copied, List.length_take, Nat.min_eq_left hi.sendBufferLen]

theorem copied_eq_nil (hlen : h.fSocket.client.sendBufferLen = 0) :
    h.copied = [] := by
  rw [copied, hlen, List.take_zero]

theorem amtInBuffer_le (h : HTTPClientResponseStream) :
    h.amtInBuffer ≤ h.pending.length ∧ h.amtInBuffer ≤ kSendBufferLen := by
  rw [length_pending]
  exact ⟨Nat.min_le_left _ _, Nat.min_le_right _ _⟩

theorem amtInBuffer_eq_zero (hzero : ¬ h.amtInBuffer > 0) : h.pending = [] := by
  rw [← List.length_eq_zero_iff, length_pending]
  simp only [amtInBuffer, CF_MAX_RESPONSE_BUFFER_SIZE] at hzero
  omega

/-- Data put into the buffer is accepted. -/
theorem Inv.append (hi : Inv h accepted) {formatter : StringFormatter} {bytes : Bytes}
    (hc : formatter.content = h.formatter.content ++ bytes) (hv : Valid formatter) :
    Inv { h with formatter } (accepted ++ bytes) := by
  have hbuf : ResponseBuffer.pending { h.toResponseBuffer with formatter } =
      h.pending ++ bytes := by
    simp only [pending, hc, List.drop_append_of_le_length hi.counted]
  refine ⟨hv, ?_, hi.sendBuf, hi.sendBufferLen, hbuf ▸ hi.agree.append bytes⟩
  simp only [hc, List.length_append]
  exact Nat.le_add_right_of_le hi.counted

/-- With nothing buffered, everything is on the wire, and the buffer can be reset. -/
theorem Inv.of_empty (hi : Inv h accepted) (hb : h.pending = []) :
    h.fSocket.fSocket.wire = accepted ∧ Inv h.resetResponseBuffer accepted := by
  have hagree := hi.agree
  rw [hb] at hagree
  refine ⟨hagree.of_nil.2.symm, hi.formatter.reset, Nat.zero_le _, hi.sendBuf, hi.sendBufferLen, ?_⟩
  exact hagree

/-! ## Flush -/

/-- The stream after its socket has copied the data to send, none being pending. -/
theorem Inv.copyVec (hi : Inv h accepted) (hlen : h.fSocket.client.sendBufferLen = 0) :
    ∃ client, h.fSocket.client.copyVec
        [slice h.formatter.content h.fBytesSentInBuffer h.amtInBuffer] = some client ∧
      client.sendBufferLen = h.amtInBuffer ∧
      Inv { h with fSocket.client := client } accepted := by
  have hdata : slice h.formatter.content h.fBytesSentInBuffer h.amtInBuffer =
      h.pending.take h.amtInBuffer := rfl
  have hlength : (h.pending.take h.amtInBuffer).length = h.amtInBuffer := by
    rw [List.length_take, Nat.min_eq_left (amtInBuffer_le h).1]
  have hroom : 0 + (h.pending.take h.amtInBuffer).length ≤ h.fSocket.client.fSendBuf.length := by
    have := (amtInBuffer_le h).2
    rw [hlength, hi.sendBuf]
    omega
  obtain ⟨fSendBuf, hwrite⟩ := Option.isSome_iff_exists.mp
    (show (write h.fSocket.client.fSendBuf 0 (h.pending.take h.amtInBuffer)).isSome by
      rw [write_of_le hroom]; rfl)
  have hsent : h.fSocket.client.fSentLength = 0 := by
    have := hi.agree.sent_le
    rw [copied_length hi] at this
    omega
  have htake : fSendBuf.take h.amtInBuffer = h.pending.take h.amtInBuffer := by
    simpa [hlength] using take_write hwrite
  have hbuflen := (length_write hwrite).trans hi.sendBuf
  refine ⟨{ h.fSocket.client with fSendBuf, sendBufferLen := h.amtInBuffer }, ?_, rfl, ?_⟩
  · simp [ClientSocket.copyVec, hdata, hlen, hwrite, hlength]
  · refine ⟨hi.formatter, hi.counted, hbuflen, ?_, ?_⟩
    · have := (amtInBuffer_le h).2
      simp only [hbuflen]
      omega
    · have hagree := hi.agree
      rw [copied_eq_nil hlen] at hagree
      simp only [HTTPClientResponseStream.copied, htake, hsent]
      exact hagree.copyOut (List.take_prefix _ _)

/-- One pass of the loop of `Flush` that finds the pending copy to be the bytes it asks
to send. -/
theorem Inv.connectAndSend (hi : Inv h accepted) (hpos : 0 < h.amtInBuffer)
    (hlen : h.fSocket.client.sendBufferLen = h.amtInBuffer) (outcome : ConnectOutcome)
    {theErr : OS_Error} {fSocket : TCPClientSocket}
    (hr : h.fSocket.connectAndSend outcome = (theErr, fSocket)) :
    (theErr ≠ OS_NoErr ∧ Inv { h with fSocket } accepted) ∨
      (theErr = OS_NoErr ∧ fSocket.client.sendBufferLen = 0 ∧
        Inv { h with fSocket, fBytesSentInBuffer := h.fBytesSentInBuffer + h.amtInBuffer }
          accepted) := by
  obtain ⟨hbuf, hsend⟩ := h.fSocket.connectAndSend_spec (by omega) outcome fSocket (by rw [hr])
  rw [hr] at hsend
  have hunsent : h.fSocket.client.unsent = h.copied.drop h.fSocket.client.fSentLength := rfl
  rcases hsend with ⟨herr, hl, hs, hw⟩ | ⟨herr, hl, j, hj, hs, hw⟩
  · refine .inr ⟨herr, hl, hi.formatter, ?_, by rw [hbuf]; exact hi.sendBuf, ?_, ?_⟩
    · have := (amtInBuffer_le h).1
      rw [length_pending, StringFormatter.getCurrentOffset] at this
      have := hi.counted
      simp only
      omega
    · simp [hl]
    · have hall := hi.agree.sendAll
      rw [copied_length hi, hlen] at hall
      simpa [HTTPClientResponseStream.copied, pending, hl, hs, hw,
        hunsent, List.drop_drop] using hall
  · refine .inl ⟨herr, hi.formatter, hi.counted, by rw [hbuf]; exact hi.sendBuf, ?_, ?_⟩
    · rw [hl, hbuf]; exact hi.sendBufferLen
    · have hpart := hi.agree.sendPart (hunsent ▸ hj)
      simpa [HTTPClientResponseStream.copied, pending, hl, hs, hw, hbuf,
        hunsent] using hpart

/-- The socket's part of one pass: the data is copied if none was pending, and sent. -/
theorem Inv.send (hi : Inv h accepted) (hpos : 0 < h.amtInBuffer)
    (hok : h.fSocket.client.sendBufferLen = 0 ∨
      h.fSocket.client.sendBufferLen = h.amtInBuffer) (outcome : ConnectOutcome) :
    ∃ theErr fSocket, h.fSocket.send
        (slice h.formatter.content h.fBytesSentInBuffer h.amtInBuffer) outcome =
          some (theErr, fSocket) ∧
      ((theErr ≠ OS_NoErr ∧ Inv { h with fSocket } accepted) ∨
        (theErr = OS_NoErr ∧ fSocket.client.sendBufferLen = 0 ∧
          Inv { h with fSocket, fBytesSentInBuffer := h.fBytesSentInBuffer + h.amtInBuffer }
            accepted)) := by
  unfold TCPClientSocket.send TCPClientSocket.sendV
  by_cases hlen : h.fSocket.client.sendBufferLen = 0
  · obtain ⟨client, hcopy, hclen, hci⟩ := hi.copyVec hlen
    rcases hr : TCPClientSocket.connectAndSend { h.fSocket with client } outcome with
      ⟨theErr, fSocket⟩
    refine ⟨theErr, fSocket, ?_, hci.connectAndSend hpos hclen outcome hr⟩
    simp [hlen, hcopy, hr]
  · rcases hr : h.fSocket.connectAndSend outcome with ⟨theErr, fSocket⟩
    exact ⟨theErr, fSocket, by rw [if_neg hlen],
      hi.connectAndSend hpos (hok.resolve_left hlen) outcome hr⟩

/-- A `Flush` that asks for the pending bytes keeps the buffers in agreement, and leaves
nothing behind if it succeeds. -/
theorem flush_spec (hi : Inv h accepted)
    (hok : h.fSocket.client.sendBufferLen = 0 ∨
      h.fSocket.client.sendBufferLen = h.amtInBuffer) (outcome : ConnectOutcome) :
    ∃ theErr h', h.flush outcome = some (theErr, h') ∧ Inv h' accepted ∧
      (theErr = OS_NoErr → h'.fSocket.fSocket.wire = accepted) := by
  induction hn : h.formatter.content.length - h.fBytesSentInBuffer using Nat.strongRecOn
    generalizing h with
  | _ n ih =>
    rw [flush]
    by_cases hpos : h.amtInBuffer > 0
    · obtain ⟨theErr, fSocket, hsend, hcase⟩ := hi.send hpos hok outcome
      simp only [hpos, dif_pos, hsend]
      rcases hcase with ⟨herr, hi'⟩ | ⟨herr, hlen, hi'⟩
      · exact ⟨theErr, _, if_pos herr, hi', fun h0 => absurd h0 herr⟩
      · simp only [herr, ne_eq, not_true, if_false]
        by_cases hmore : h.fBytesSentInBuffer + h.amtInBuffer < h.formatter.getCurrentOffset
        · simp only [hmore, if_true]
          have hcount : h.fBytesSentInBuffer + h.amtInBuffer < h.formatter.content.length := hmore
          exact ih (h.formatter.content.length - (h.fBytesSentInBuffer + h.amtInBuffer))
            (by omega) hi' (.inl hlen) rfl
        · simp only [hmore, if_false]
          refine ⟨OS_NoErr, _, rfl, ?_⟩
          have hempty := hi'.of_empty (List.length_eq_zero_iff.mp ?_)
          · exact ⟨hempty.2, fun _ => hempty.1⟩
          · rw [length_pending]
            simp only
            omega
    · simp only [hpos, dif_neg, not_false_iff]
      have hempty := hi.of_empty (amtInBuffer_eq_zero hpos)
      exact ⟨OS_NoErr, _, rfl, hempty.2, fun _ => hempty.1⟩

/-! ## WriteV -/

/-- The stream after a call has left it this buffer and this socket. -/
def leftWith (h : HTTPClientResponseStream) (buffer : ResponseBuffer) (fSocket : Socket) :
    HTTPClientResponseStream :=
  { h with toResponseBuffer := buffer, fSocket.fSocket := fSocket }

/-- With nothing pending, all of the buffered data and some of the vectors are sent. -/
theorem Inv.wroteAll (hi : Inv h accepted) (hlen : h.fSocket.client.sendBufferLen = 0)
    (payload : Bytes) {socket : Socket}
    (hw : socket.wire = h.fSocket.fSocket.wire ++ (h.pending ++ payload)) :
    Inv (h.leftWith h.emptied socket) (accepted ++ payload) where
  formatter := hi.formatter.reset
  counted := Nat.zero_le _
  sendBuf := hi.sendBuf
  sendBufferLen := hi.sendBufferLen
  agree := by
    have hagree := hi.agree
    rw [copied_eq_nil hlen] at hagree
    have hsent : h.fSocket.client.fSentLength = 0 := Nat.le_zero.mp hagree.sent_le
    have hall := (hagree.append payload).sendFront (h.pending ++ payload).length
    rw [List.take_length, List.drop_length, ← hw] at hall
    simpa [leftWith, ResponseBuffer.emptied, HTTPClientResponseStream.copied, hlen, hsent,
      pending, StringFormatter.reset] using hall

/-- With nothing pending, some of the buffered data is sent. -/
theorem Inv.wroteSome (hi : Inv h accepted) (hlen : h.fSocket.client.sendBufferLen = 0) {m : Nat}
    (hm : m ≤ h.pending.length) {socket : Socket}
    (hw : socket.wire = h.fSocket.fSocket.wire ++ h.pending.take m) :
    Inv (h.leftWith { h.toResponseBuffer with fBytesSentInBuffer := h.fBytesSentInBuffer + m }
      socket) accepted where
  formatter := hi.formatter
  counted := by
    rw [length_pending, StringFormatter.getCurrentOffset] at hm
    have := hi.counted
    simp only [leftWith]
    omega
  sendBuf := hi.sendBuf
  sendBufferLen := hi.sendBufferLen
  agree := by
    have hagree := hi.agree
    rw [copied_eq_nil hlen] at hagree
    have hsent : h.fSocket.client.fSentLength = 0 := Nat.le_zero.mp hagree.sent_le
    have hsome := hagree.sendFront m
    rw [← hw] at hsome
    simpa [leftWith, HTTPClientResponseStream.copied, hlen, hsent, pending, List.drop_drop]
      using hsome

/-- A socket with the same wire is as good. -/
theorem Inv.sameWire (hi : Inv h accepted) {socket : Socket}
    (hw : socket.wire = h.fSocket.fSocket.wire) :
    Inv { h with fSocket.fSocket := socket } accepted :=
  ⟨hi.formatter, hi.counted, hi.sendBuf, hi.sendBufferLen, hw ▸ hi.agree⟩

/-- Sending keeps the buffers in agreement, if nothing is pending or the socket takes
nothing; with an error none of the vectors is sent. -/
theorem writeNow_spec (hi : Inv h accepted) (inVec : List Bytes)
    (hok : h.fSocket.client.sendBufferLen = 0 ∨
      Socket.refuses h.fSocket.fSocket.outgoing = true) :
    ∃ err n buffer fSocket,
      h.toResponseBuffer.writeNow h.fSocket.fSocket inVec = (err, n, buffer, fSocket) ∧
      Inv (h.leftWith buffer fSocket) (accepted ++ inVec.flatten.take n) ∧
      (err ≠ OS_NoErr → n = 0) := by
  obtain ⟨hwire, hle⟩ := h.fSocket.fSocket.send_wire (h.pending ++ inVec.flatten)
  have herr := h.fSocket.fSocket.send_err (h.pending ++ inVec.flatten)
  rcases ResponseBuffer.writeNow_cases h.toResponseBuffer h.fSocket.fSocket inVec with
    ⟨hall, hne, hw⟩ | ⟨hsome, hw⟩ | ⟨hempty, -, hw⟩ | ⟨hempty, rfl, hw⟩ <;>
    refine ⟨_, _, _, _, hw, ?_⟩
  · -- all of the buffered data is sent, so the socket took something and none was pending
    have hlen : h.fSocket.client.sendBufferLen = 0 := by
      refine hok.resolve_right fun hrefused => hne ?_
      rw [h.fSocket.fSocket.send_refused _ hrefused] at hall
      exact List.length_eq_zero_iff.mp (Nat.le_zero.mp hall)
    refine ⟨hi.wroteAll hlen _ ?_, fun hbad => ?_⟩
    · rw [hwire, List.take_append, List.take_of_length_le hall]
    · have := (herr.resolve_left fun hgood => hbad hgood.1).2
      omega
  · refine ⟨?_, fun _ => rfl⟩
    rw [List.take_zero, List.append_nil]
    rcases hok with hlen | hrefused
    · refine hi.wroteSome hlen hsome.le ?_
      rw [hwire, List.take_append_of_le_length hsome.le]
    · have hzero := h.fSocket.fSocket.send_refused (h.pending ++ inVec.flatten) hrefused
      rw [hzero, List.take_zero, List.append_nil] at hwire
      simpa [hzero, leftWith] using hi.sameWire hwire
  · refine ⟨?_, fun hbad => (herr.resolve_left fun hgood => hbad hgood.1).2⟩
    rw [hempty, List.nil_append] at hwire ⊢
    refine ⟨hi.formatter, hi.counted, hi.sendBuf, hi.sendBufferLen, ?_⟩
    have hagree := hi.agree
    rw [hempty] at hagree
    change Agree _ _ h.pending h.copied _
    rw [hempty]
    simp only [leftWith, hwire]
    exact hagree.sendPast _
  · exact ⟨by simpa [leftWith] using hi, fun hbad => absurd rfl hbad⟩

theorem Inv.countBytes (hi : Inv h accepted) (fBytesWritten : Nat) :
    Inv { h with formatter.fBytesWritten := fBytesWritten } accepted :=
  ⟨⟨hi.formatter.fits, hi.formatter.pos, hi.formatter.lt⟩, hi.counted, hi.sendBuf,
    hi.sendBufferLen, hi.agree⟩

theorem accounts_inv (h : HTTPClientResponseStream) :
    ResponseBuffer.Accounts fun buffer fSocket => Inv (h.leftWith buffer fSocket) where
  countBytes hi := hi.countBytes
  put hi hput := hi.append (put_eq_some hi.formatter hput).1 (put_eq_some hi.formatter hput).2

theorem writeV_spec (hi : Inv h accepted) (inVec : List Bytes) (inSendType : SendType)
    (hok : h.fSocket.client.sendBufferLen = 0 ∨
      Socket.refuses h.fSocket.fSocket.outgoing = true)
    {theErr : OS_Error} {outLengthSent : Option Nat} {h' : HTTPClientResponseStream}
    (hw : h.writeV inVec inVec.flatten.length inSendType = some (theErr, outLengthSent, h')) :
    Inv h' (accepted ++ inVec.flatten.take (outLengthSent.getD 0)) := by
  obtain ⟨err, n, buffer, fSocket, hnow, hinv, hzero⟩ := writeNow_spec hi inVec hok
  obtain ⟨⟨theErr', outLengthSent', buffer', fSocket'⟩, hcall, heq⟩ :=
    Option.map_eq_some_iff.mp hw
  obtain ⟨rfl, rfl, rfl⟩ := by simpa only [Prod.mk.injEq] using heq
  exact (accounts_inv h).writeV hnow hinv hzero hcall

/-! ## Any run -/

theorem Fresh.inv {s : State} (h : Fresh s) : Inv s.stream s.accepted := by
  obtain ⟨hacc, hwire, hcontent, hvalid, hcount, hclient⟩ := h
  refine ⟨hvalid, by rw [hcount]; exact Nat.zero_le _, by rw [hclient]; exact List.length_replicate,
    by rw [hclient]; exact Nat.zero_le _, ?_⟩
  have hcopied : s.stream.copied = [] := copied_eq_nil (by rw [hclient])
  rw [hcopied]
  refine ⟨List.nil_prefix, by rw [hclient]; exact Nat.le_refl _, ?_⟩
  simp only [State.wire] at hwire
  simp [hacc, hwire, pending, hcontent]

/-- One step that meets the condition. -/
theorem next_inv {s t : State} {a : Action} (hi : Inv s.stream s.accepted)
    (hs : next s a = some t) (hok : Ok s a) : InOrder t ∧ Inv t.stream t.accepted := by
  cases a with
  | put buffer =>
    obtain ⟨formatter, hput, rfl⟩ := Option.map_eq_some_iff.mp hs
    obtain ⟨hc, hv⟩ := put_eq_some hi.formatter hput
    have hi' := hi.append hc hv
    exact ⟨⟨hi'.agree.start, nofun⟩, hi'⟩
  | putFmtStr text =>
    obtain ⟨formatter, hput, rfl⟩ := Option.map_eq_some_iff.mp hs
    obtain ⟨hc, hv⟩ := putFmtStr_eq_some hi.formatter hput
    have hi' := hi.append hc hv
    exact ⟨⟨hi'.agree.start, nofun⟩, hi'⟩
  | writeV inVec inSendType outgoing =>
    obtain ⟨⟨theErr, outLengthSent, stream⟩, hw, rfl⟩ := Option.map_eq_some_iff.mp hs
    have hi' :=
      writeV_spec (h := answer s.stream outgoing) (hi.sameWire rfl) inVec inSendType hok hw
    exact ⟨⟨hi'.agree.start, nofun⟩, hi'⟩
  | flush outcome outgoing =>
    obtain ⟨⟨theErr, stream⟩, hf, rfl⟩ := Option.map_eq_some_iff.mp hs
    obtain ⟨err, h', hflush, hi', hwire⟩ :=
      flush_spec (h := answer s.stream outgoing) (hi.sameWire rfl) hok outcome
    rw [hf] at hflush
    obtain ⟨rfl, rfl⟩ := by simpa using hflush
    exact ⟨⟨hi'.agree.start, fun hsucc => hwire (by simpa using hsucc)⟩, hi'⟩

/-- In every run that meets the condition throughout, the wire carries a start of what was
accepted after every call, and all of it after every successful `Flush`. -/
theorem inOrder_of_ok (s : State) (h : Fresh s) (as : List Action) (hok : system.Meets Ok s as) :
    system.Keeps (fun _ _ => InOrder) s as :=
  hok.keeps (fun s => Inv s.stream s.accepted) (fun _ _ _ hi hs ho => next_inv hi hs ho) h.inv

/-- A new stream with a buffer of 4 bytes. -/
def freshState : State := { stream := { formatter := { size := 4 } } }

theorem freshState_fresh : Fresh freshState :=
  ⟨rfl, rfl, rfl, ⟨Nat.zero_le _, by decide, by decide⟩, rfl, rfl⟩

/-- A `Flush` that blocks is taken up again, then a `WriteV` is sent in part. -/
def flushTwice : List Action :=
  [.put [1, 2, 3], .flush {} [.sent 0], .flush {} [.sent 9],
    .writeV [[4, 5], [6]] .kAlwaysBuffer [.sent 1], .flush {} [.sent 9]]

theorem inOrder_of_ok_flushTwice : system.Keeps (fun _ _ => InOrder) freshState flushTwice :=
  inOrder_of_ok freshState freshState_fresh flushTwice (by decide +kernel)

/-- A `Flush` blocks with the copy of two bytes pending, a third byte is put, and the next
`Flush` sends the copy only, but counts all three bytes as sent. -/
def putWhilePending : List Action :=
  [.put [1, 2], .flush {} [], .put [3], .flush {} [.sent 9]]

theorem putWhilePending_not_inOrder :
    ¬ system.Keeps (fun _ _ => InOrder) freshState putWhilePending := by
  decide +kernel

end HTTPClientResponseStream

end CxxFramework.Net
