import CxxFramework.Http.HTTPClientResponseStream
import CxxFramework.Socket.HTTPClientSend

/-!
# The bounds of the client's send buffer

`Flush` hands up to 2048 bytes at a time to `TCPClientSocket::SendV`, whose buffer the
assertion wants to be shorter than that. The vectors that `HTTPClientSocket::SendV` gets grow
by a third, and the URL of the tunnel stands before them.
-/

namespace CxxFramework.Net

open CxxFramework.Core Buffer

namespace HTTPClientResponseStream

/-- The bytes in the buffer that do not count as sent. -/
def backlog (h : HTTPClientResponseStream) : Nat :=
  h.formatter.getCurrentOffset - h.fBytesSentInBuffer

/-- What a pass of `Flush` asks to send. -/
def chunk (h : HTTPClientResponseStream) : Bytes :=
  slice h.formatter.content h.fBytesSentInBuffer h.amtInBuffer

/-- The streams with which the passes of `Flush` call `Send`. -/
inductive Sends (outcome : ConnectOutcome) :
    HTTPClientResponseStream → HTTPClientResponseStream → Prop
  | here {h} : h.amtInBuffer > 0 → Sends outcome h h
  | next {h x fSocket} : h.amtInBuffer > 0 →
      h.fSocket.send h.chunk outcome = some (OS_NoErr, fSocket) →
      h.fBytesSentInBuffer + h.amtInBuffer < h.formatter.getCurrentOffset →
      Sends outcome
        { h with fSocket, fBytesSentInBuffer := h.fBytesSentInBuffer + h.amtInBuffer } x →
      Sends outcome h x

/-- Whatever the kernel answers, each `Send` of `Flush` that copies its bytes stays inside the
send buffer and meets the assertion. -/
def FlushesWithin (h : HTTPClientResponseStream) : Prop :=
  ∀ outcome outgoing x, Sends outcome (answer h outgoing) x →
    x.fSocket.client.sendBufferLen = 0 → x.fSocket.client.CopiesWithin [x.chunk]

/-- The bytes that `Flush` copies are less than the send buffer: all of the backlog, or what
is behind the first 2048 bytes of it if an earlier copy is pending. -/
def BacklogFits (h : HTTPClientResponseStream) : Prop :=
  if h.fSocket.client.sendBufferLen = 0 then h.backlog < kSendBufferLen
  else h.backlog < 2 * kSendBufferLen

variable {h x : HTTPClientResponseStream} {outcome : ConnectOutcome}

theorem amtInBuffer_eq (h : HTTPClientResponseStream) :
    h.amtInBuffer = min h.backlog kSendBufferLen := rfl

theorem length_chunk (h : HTTPClientResponseStream) : h.chunk.length = h.amtInBuffer := by
  have hle : h.amtInBuffer ≤ h.formatter.content.length - h.fBytesSentInBuffer := min_le_left _ _
  rw [chunk, length_slice, min_eq_left hle]

/-- A copy of a chunk fits if the chunk is shorter than the buffer. -/
theorem copiesWithin_chunk (hlen : x.fSocket.client.fSendBuf.length = kSendBufferLen + 1)
    (hempty : x.fSocket.client.sendBufferLen = 0) :
    x.fSocket.client.CopiesWithin [x.chunk] ↔ x.backlog < kSendBufferLen := by
  have hamt := amtInBuffer_eq x
  rw [ClientSocket.copiesWithin_iff hlen, hempty, List.flatten_singleton, length_chunk]
  constructor
  · rintro (hnil | hlt)
    · cases hnil
    · omega
  · exact fun hlt => .inr (by omega)

/-- With nothing pending, a short backlog is copied in one pass. -/
theorem Sends.within_of_idle (hx : Sends outcome h x)
    (hlen : h.fSocket.client.fSendBuf.length = kSendBufferLen + 1)
    (hempty : h.fSocket.client.sendBufferLen = 0) (hshort : h.backlog < kSendBufferLen) :
    x.fSocket.client.CopiesWithin [x.chunk] := by
  cases hx with
  | here hpos => exact (copiesWithin_chunk hlen hempty).mpr hshort
  | next hpos hsend hmore _ =>
    have hamt := amtInBuffer_eq h
    unfold backlog at hamt hshort
    omega

/-- With a copy pending, the first pass copies nothing, and leaves the socket idle. -/
theorem Sends.within_of_pending (hx : Sends outcome h x)
    (hlen : h.fSocket.client.fSendBuf.length = kSendBufferLen + 1)
    (hpending : h.fSocket.client.sendBufferLen ≠ 0) (hshort : h.backlog < 2 * kSendBufferLen)
    (hempty : x.fSocket.client.sendBufferLen = 0) :
    x.fSocket.client.CopiesWithin [x.chunk] := by
  cases hx with
  | here hpos => exact absurd hempty hpending
  | @next _ _ fSocket hpos hsend hmore hrest =>
    rw [TCPClientSocket.send, TCPClientSocket.sendV, if_neg hpending] at hsend
    have hpair := Option.some.inj hsend
    obtain ⟨hbuf, hcase⟩ := h.fSocket.connectAndSend_spec hpending outcome fSocket
      (congrArg Prod.snd hpair).symm
    have hok : (h.fSocket.connectAndSend outcome).1 = OS_NoErr := congrArg Prod.fst hpair
    rcases hcase with ⟨-, hidle, -⟩ | ⟨hbad, -⟩
    · refine hrest.within_of_idle ?_ hidle ?_
      · rw [hbuf]
        exact hlen
      · have hamt := amtInBuffer_eq h
        unfold backlog at hamt hshort ⊢
        simp only
        omega
    · exact absurd hok hbad

/-- A pending copy that goes out is followed by a copy of what is behind its chunk. -/
theorem sends_behind_pending (hpending : h.fSocket.client.sendBufferLen ≠ 0)
    (hlong : 2 * kSendBufferLen ≤ h.backlog) :
    ∃ outcome outgoing x, Sends outcome (answer h outgoing) x ∧
      x.fSocket.client.sendBufferLen = 0 ∧ kSendBufferLen ≤ x.backlog ∧
      x.fSocket.client.fSendBuf = h.fSocket.client.fSendBuf := by
  have hamt := amtInBuffer_eq h
  have hsize : kSendBufferLen = 2048 := rfl
  let asked := answer h [.sent h.fSocket.client.unsent.length]
  have hok : (asked.fSocket.connectAndSend {}).1 = OS_NoErr :=
    TCPClientSocket.connectAndSend_all rfl (Nat.le_succ _)
  obtain ⟨hbuf, hcase⟩ := asked.fSocket.connectAndSend_spec hpending {} _ rfl
  have hidle : (asked.fSocket.connectAndSend {}).2.client.sendBufferLen = 0 := by
    rcases hcase with ⟨-, hidle, -⟩ | ⟨hbad, -⟩
    · exact hidle
    · exact absurd hok hbad
  have hsend : asked.fSocket.send asked.chunk {} =
      some (OS_NoErr, (asked.fSocket.connectAndSend {}).2) := by
    rw [TCPClientSocket.send, TCPClientSocket.sendV]
    exact (if_neg hpending).trans (congrArg some (Prod.ext hok rfl))
  let x : HTTPClientResponseStream :=
    { asked with
      fSocket := (asked.fSocket.connectAndSend {}).2
      fBytesSentInBuffer := asked.fBytesSentInBuffer + asked.amtInBuffer }
  have hfirst : asked.amtInBuffer = kSendBufferLen := hamt.trans (min_eq_right (by omega))
  have hbacklog : x.backlog = h.backlog - kSendBufferLen := by
    simp only [backlog, x, hfirst, Nat.sub_sub]
    rfl
  have hmore : kSendBufferLen ≤ x.backlog := by omega
  have hpos : asked.amtInBuffer > 0 := by
    rw [hfirst]
    decide
  refine ⟨{}, _, x, .next hpos hsend ?_ (.here ?_), hidle, hmore, hbuf⟩
  · have hbehind : x.backlog = h.formatter.getCurrentOffset -
        (asked.fBytesSentInBuffer + asked.amtInBuffer) := rfl
    change asked.fBytesSentInBuffer + asked.amtInBuffer < h.formatter.getCurrentOffset
    omega
  · have hnext := amtInBuffer_eq x
    rw [min_eq_right hmore] at hnext
    exact hnext ▸ Nat.succ_pos _

/-- `Flush` stays inside the send buffer exactly if what it copies is short enough. -/
theorem flushesWithin_iff (hlen : h.fSocket.client.fSendBuf.length = kSendBufferLen + 1) :
    h.FlushesWithin ↔ h.BacklogFits := by
  unfold BacklogFits
  constructor
  · intro hwithin
    split_ifs with hempty
    · by_contra hlong
      have hpos : h.amtInBuffer > 0 := by
        have hamt := amtInBuffer_eq h
        have hsize : kSendBufferLen = 2048 := rfl
        omega
      have hcopies := hwithin {} h.fSocket.fSocket.outgoing h (.here hpos) hempty
      exact hlong ((copiesWithin_chunk hlen hempty).mp hcopies)
    · by_contra hlong
      obtain ⟨outcome, outgoing, x, hx, hidle, hmore, hbuf⟩ :=
        sends_behind_pending hempty (not_lt.mp hlong)
      have hcopies := hwithin outcome outgoing x hx hidle
      have hshort := (copiesWithin_chunk (hbuf ▸ hlen) hidle).mp hcopies
      omega
  · intro hfits outcome outgoing x hx hidle
    split_ifs at hfits with hempty
    · exact hx.within_of_idle hlen hempty hfits
    · exact hx.within_of_pending hlen hempty hfits hidle

/-- The client's send buffer is written inside its bounds, with its assertions met, exactly if
what `Flush` copies and what goes over the tunnel are short enough. -/
theorem sendBuffer_within_iff (hlen : h.fSocket.client.fSendBuf.length = kSendBufferLen + 1)
    {tunnel : HTTPTunnelSocket} (htunnel : tunnel.client.fSendBuf.length = kSendBufferLen + 1)
    (inVec : List Bytes) :
    (h.FlushesWithin ↔ h.BacklogFits) ∧
      ((∀ outcome, tunnel.SendsWithin inVec outcome) ↔ tunnel.RequestFits inVec) :=
  ⟨flushesWithin_iff hlen, HTTPTunnelSocket.sendsWithin_iff htunnel⟩

/-- A new stream, of which the buffer holds some bytes. -/
def holding (n : Nat) : HTTPClientResponseStream :=
  { formatter := { content := List.replicate n 0, size := 65535 } }

theorem sendBuffer_within_iff_holding :
    ((holding 2047).FlushesWithin ↔ (holding 2047).BacklogFits) ∧
      ((∀ outcome, HTTPTunnelSocket.SendsWithin {} [ascii "abc"] outcome) ↔
        HTTPTunnelSocket.RequestFits {} [ascii "abc"]) :=
  sendBuffer_within_iff List.length_replicate List.length_replicate [ascii "abc"]

theorem backlog_holding (n : Nat) : (holding n).backlog = n := List.length_replicate

/-- The text of the POST is longer than its URL. -/
theorem lt_length_postText (tunnel : HTTPTunnelSocket) (h : 0 ∉ tunnel.fURL) :
    tunnel.fURL.length < tunnel.postText.length := by
  have hverb : 0 < (ascii "POST ").length := by decide
  simp only [HTTPTunnelSocket.postText, cString_of_noZero h, List.length_append]
  omega

/-- A backlog of exactly the size of the send buffer trips the assertion; so do 1536 bytes for
a tunnel that is up, and a URL of 2048 bytes leaves the array. -/
theorem exactFit_not_within :
    ¬ (holding 2048).FlushesWithin ∧
      (¬ ∀ outcome, HTTPTunnelSocket.SendsWithin { fPostSocket := some {} }
        [List.replicate 1536 0] outcome) ∧
      ¬ ∀ outcome, HTTPTunnelSocket.SendsWithin { fURL := List.replicate 2048 47 } [] outcome := by
  refine ⟨?_, ?_, ?_⟩
  · rw [flushesWithin_iff List.length_replicate, BacklogFits,
      if_pos (show (holding 2048).fSocket.client.sendBufferLen = 0 from rfl), backlog_holding]
    decide
  · rw [HTTPTunnelSocket.sendsWithin_iff List.length_replicate, HTTPTunnelSocket.RequestFits,
      if_pos (by decide)]
    have hlong : ClientSocket.encodedLength [List.replicate 1536 0] = 2048 := by
      rw [ClientSocket.encodedLength, List.map_singleton, List.length_replicate]
      rfl
    rw [hlong]
    rintro (hpending | hnone | hfits)
    · exact hpending rfl
    · cases hnone
    · exact absurd hfits (by decide)
  · rw [HTTPTunnelSocket.sendsWithin_iff List.length_replicate, HTTPTunnelSocket.RequestFits,
      if_neg (by decide)]
    rintro ⟨hfits, -⟩
    have hurl := lt_length_postText { fURL := List.replicate 2048 47 }
      (fun hmem => absurd (List.eq_of_mem_replicate hmem) (by decide))
    rw [List.length_replicate] at hurl
    exact absurd hfits (not_le.mpr hurl)

end HTTPClientResponseStream

end CxxFramework.Net
