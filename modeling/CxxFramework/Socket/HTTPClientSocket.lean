import CxxFramework.Core.Base64
import CxxFramework.Socket.ClientSocket

/-!
# The HTTP tunnel client

`HTTPClientSocket::Read`: the client sends a GET, receives the answer to it into
`fSendBuf`, whose content it has sent before, up to the blank line that ends the header,
and hands over what follows. From then on it reads from the connection.

`none` stands for an access outside a buffer and for an `Assert` that fails. Of the POST
connection, which only `SendV` uses, there is `encodeVec` only.
-/

namespace CxxFramework.Net

open CxxFramework.Core Buffer

structure HTTPClientSocket where
  client : ClientSocket := {}
  fURL : Bytes := []
  fCookie : Nat := 0
  fGetReceived : Nat := 0
  fGetSocket : Socket := { bound := false, connected := false }
deriving DecidableEq, Repr

namespace HTTPClientSocket

/-- `"\r\n\r\n"` -/
def blankLine : Bytes := [13, 10, 13, 10]

/-- The text of the GET. -/
def getText (h : HTTPClientSocket) : Bytes :=
  ascii "GET " ++ cString h.fURL ++ ascii " HTTP/1.0\r\nX-SessionCookie: " ++ decimal h.fCookie ++
    ascii ("\r\nAccept: application/x-rtsp-rtp-interleaved\r\nUser-Agent: QTSS/2.0\r\n\r\n")

/-- Writing the GET into the send buffer. -/
def formatGet (h : HTTPClientSocket) : Option HTTPClientSocket :=
  (write h.client.fSendBuf 0 (h.getText ++ [0])).map fun fSendBuf =>
    { h with client.fSendBuf := fSendBuf, client.sendBufferLen := h.getText.length }

/-- `Connect` and `SendSendBuffer`. After the GET is sent, `fSentLength` says that its
answer is to be received. -/
def sendGet (h : HTTPClientSocket) (outcome : ConnectOutcome) : OS_Error × HTTPClientSocket :=
  let connected := h.client.connect h.fGetSocket outcome
  let h := { h with client := connected.2.1, fGetSocket := connected.2.2 }
  if connected.1 ≠ OS_NoErr then (connected.1, h)
  else if h.client.sendBufferLen > 0 then
    let sent := h.client.sendSendBuffer h.fGetSocket
    let h := { h with client := sent.2.1, fGetSocket := sent.2.2 }
    if sent.1 ≠ OS_NoErr then (sent.1, h)
    else (OS_NoErr, { h with client.fSentLength := 1 })
  else (OS_NoErr, h)

/-- The first part of `Read`: bring up the GET connection if needed. -/
def bringUp (h : HTTPClientSocket) (outcome : ConnectOutcome) :
    Option (OS_Error × HTTPClientSocket) :=
  (if h.fGetSocket.connected then some h else h.formatGet).map (sendGet · outcome)

/-- The first part of the loop: receive behind what has been received, count it, and put a
zero behind it. A failed read leaves `*outRcvLen` as it is. -/
def receive (h : HTTPClientSocket) (outRcvLen : Nat) :
    Option (OS_Error × Nat × HTTPClientSocket) :=
  let r := h.fGetSocket.read (kSendBufferLen - h.fGetReceived)
  let outRcvLen := (r.data.map List.length).getD outRcvLen
  let fGetReceived := h.fGetReceived + outRcvLen
  (write h.client.fSendBuf h.fGetReceived (r.data.getD [])).bind fun received =>
    (write received fGetReceived [0]).map fun fSendBuf =>
      (r.err, outRcvLen,
        { h with client.fSendBuf := fSendBuf, fGetReceived, fGetSocket := r.socket })

/-- The buffer has room for the zero behind the count. -/
theorem receive_count {h h' : HTTPClientSocket} {outRcvLen outRcvLen' : Nat} {theErr : OS_Error}
    (hr : h.receive outRcvLen = some (theErr, outRcvLen', h')) :
    h'.fGetReceived = h.fGetReceived + outRcvLen' ∧
      h'.client.fSendBuf.length = h.client.fSendBuf.length ∧
      h'.fGetReceived < h'.client.fSendBuf.length := by
  obtain ⟨received, hdata, hr⟩ := Option.bind_eq_some_iff.mp hr
  obtain ⟨fSendBuf, hzero, hr⟩ := Option.map_eq_some_iff.mp hr
  obtain ⟨rfl, rfl, rfl⟩ := by simpa only [Prod.mk.injEq] using hr
  refine ⟨rfl, (length_write hzero).trans (length_write hdata), ?_⟩
  have hfits := (write_eq_some_iff.mp hzero).1
  rw [List.length_singleton] at hfits
  rw [length_write hzero]
  exact hfits

/-- The loop that receives the answer to the GET. The result is the error, `*outRcvLen`,
the caller's buffer and the socket. -/
def receiveLoop (h : HTTPClientSocket) (inBuffer : Bytes) (outRcvLen : Nat) :
    Option (OS_Error × Nat × Bytes × HTTPClientSocket) :=
  match _hr : h.receive outRcvLen with
  | none => none
  | some (theErr, outRcvLen, h') =>
    match strstr h'.client.fSendBuf blankLine with
    | some pos =>
      let theGetEnd := pos + 4
      let outRcvLen := h'.fGetReceived - theGetEnd
      (write inBuffer 0 (slice h'.client.fSendBuf theGetEnd outRcvLen)).map fun inBuffer =>
        (OS_NoErr, outRcvLen, inBuffer, { h' with fGetReceived := 0, client.fSentLength := 0 })
    | none =>
      if inBuffer.length ≤ h'.fGetReceived then none
      else if outRcvLen > 0 then receiveLoop h' inBuffer outRcvLen
      else if theErr = OS_NoErr then none
      else some (theErr, outRcvLen, inBuffer, { h' with client.fEventMask := EV_RE })
termination_by h.client.fSendBuf.length - h.fGetReceived
decreasing_by
  obtain ⟨hcount, hlength, hfits⟩ := receive_count _hr
  omega

/-- The last part of `Read`, once the answer to the GET is received. -/
def readData (h : HTTPClientSocket) (inBuffer : Bytes) (outRcvLen : Nat) :
    Option (OS_Error × Nat × Bytes × HTTPClientSocket) :=
  let r := h.fGetSocket.read (inBuffer.length - h.fGetReceived)
  (write inBuffer h.fGetReceived (r.data.getD [])).map fun inBuffer =>
    let fEventMask := if r.err ≠ OS_NoErr then EV_RE else h.client.fEventMask
    (r.err, (r.data.map List.length).getD outRcvLen, inBuffer,
      { h with fGetSocket := r.socket, client.fEventMask := fEventMask })

/-- `HTTPClientSocket::Read` into a buffer of `inLength` bytes. The assert in `Connect` is on
the opening of the socket. -/
def read (h : HTTPClientSocket) (inBuffer : Bytes) (outRcvLen : Nat) (outcome : ConnectOutcome) :
    Option (OS_Error × Nat × Bytes × HTTPClientSocket) :=
  if h.fGetSocket.connected = false ∧ h.client.fSentLength ≠ 0 then none
  else if (ClientSocket.openSocket h.fGetSocket outcome).1 ≠ OS_NoErr then none
  else
    (h.bringUp outcome).bind fun (theErr, h) =>
      if theErr ≠ OS_NoErr then some (theErr, outRcvLen, inBuffer, h)
      else if h.client.fSentLength > 0 then h.receiveLoop inBuffer 0
      else h.readData inBuffer outRcvLen

/-! ## Encoding what is sent -/

/-- `encodeVec`: the string in `fSendBuffer`, which is as long as `strlen` says, once each
vector is encoded behind it. The array has no end here; the code asserts that it suffices. -/
def encodeVec (fSendBuffer : Bytes) (inVec : List Bytes) : Bytes :=
  inVec.foldl (fun sent iov => cString (sent ++ base64encode iov)) fSendBuffer

theorem encodeVec_eq {fSendBuffer : Bytes} (h : 0 ∉ fSendBuffer) (inVec : List Bytes) :
    encodeVec fSendBuffer inVec = fSendBuffer ++ (inVec.map encodeChars).flatten := by
  induction inVec generalizing fSendBuffer with
  | nil => exact (List.append_nil _).symm
  | cons iov inVec ih =>
    have hnone : 0 ∉ fSendBuffer ++ encodeChars iov := by
      rw [List.mem_append, not_or]
      exact ⟨h, zero_notMem_encodeChars iov⟩
    have hstring : cString (fSendBuffer ++ base64encode iov) = fSendBuffer ++ encodeChars iov := by
      rw [base64encode, ← List.append_assoc, cString_append_zero, cString_of_noZero hnone]
    rw [encodeVec, List.foldl_cons, hstring]
    refine (ih hnone).trans ?_
    rw [List.map_cons, List.flatten_cons, List.append_assoc]

/-- The characters sent are groups that stand for the bytes of the vectors. -/
theorem encodeVec_groups (inVec : List Bytes) :
    Encoded (encodeVec [] inVec) ∧ 4 ∣ (encodeVec [] inVec).length ∧
      plaintext (encodeVec [] inVec) = inVec.flatten := by
  rw [encodeVec_eq List.not_mem_nil, List.nil_append]
  induction inVec with
  | nil => exact ⟨trivial, ⟨0, rfl⟩, rfl⟩
  | cons iov inVec ih =>
    obtain ⟨henc, hlen, hplain⟩ := ih
    obtain ⟨henc', hplain'⟩ := encodeChars_groups iov
    have hlen' := length_encodeChars_dvd iov
    rw [List.map_cons, List.flatten_cons]
    refine ⟨henc'.append hlen' henc, ?_, ?_⟩
    · rw [List.length_append]
      exact Nat.dvd_add hlen' hlen
    · rw [plaintext_append hlen', hplain, hplain', List.flatten_cons]

end HTTPClientSocket

end CxxFramework.Net
