import CxxFramework.Library.Buffer
import CxxFramework.Socket.Epoll
import CxxFramework.Socket.Socket

/-!
# Client sockets

`ClientSocket` keeps the data of an unfinished send in `fSendBuffer`, with the number of
bytes sent so far in `fSentLength`. `TCPClientSocket::SendV` copies its vectors there
only when no send is pending; otherwise it goes on with the pending one.
-/

namespace CxxFramework.Net

open CxxFramework.Core Buffer

def kSendBufferLen : Nat := 2048

structure ClientSocket where
  /-- The array `fSendBuf`, where `fSendBuffer` starts. -/
  fSendBuf : Bytes := List.replicate (kSendBufferLen + 1) 0
  /-- `fSendBuffer.Len` -/
  sendBufferLen : Nat := 0
  fSentLength : Nat := 0
  fEventMask : Bits := 0
deriving DecidableEq, Repr

/-- How opening a socket and `connect` end, where they are tried. -/
structure ConnectOutcome where
  openErr : OS_Error := OS_NoErr
  connectErr : OS_Error := OS_NoErr
deriving DecidableEq, Repr

namespace ClientSocket

/-- `ClientSocket::Open` -/
def openSocket (inSocket : Socket) (outcome : ConnectOutcome) : OS_Error × Socket :=
  if inSocket.bound then (OS_NoErr, inSocket)
  else if outcome.openErr ≠ OS_NoErr then (outcome.openErr, inSocket)
  else (OS_NoErr, { inSocket with bound := true })

/-- `ClientSocket::Connect`. `TCPSocket::Connect` turns the connected state on even if
`connect` fails. -/
def connect (c : ClientSocket) (inSocket : Socket) (outcome : ConnectOutcome) :
    OS_Error × ClientSocket × Socket :=
  let opened := openSocket inSocket outcome
  if opened.1 ≠ OS_NoErr then (opened.1, c, opened.2)
  else if opened.2.connected then (OS_NoErr, c, opened.2)
  else
    let theErr := outcome.connectErr
    let inSocket := { opened.2 with connected := true }
    if theErr = EINPROGRESS ∨ theErr = EAGAIN then
      (theErr, { c with fEventMask := EV_RE ||| EV_WR }, inSocket)
    else (theErr, c, inSocket)

/-- The part of the send buffer that is still to be sent. -/
def unsent (c : ClientSocket) : Bytes := (c.fSendBuf.take c.sendBufferLen).drop c.fSentLength

/-- The loop of `SendSendBuffer`: send until nothing goes out any more. -/
def sendLoop (c : ClientSocket) (inSocket : Socket) : OS_Error × ClientSocket × Socket :=
  let r := inSocket.send c.unsent
  let c' := { c with fSentLength := c.fSentLength + r.sent }
  if _h : r.sent > 0 then sendLoop c' r.socket else (r.err, c', r.socket)
termination_by c.sendBufferLen - c.fSentLength
decreasing_by
  have hle : r.sent ≤ c.unsent.length := (inSocket.send_wire c.unsent).2
  simp only [unsent, List.length_drop, List.length_take] at hle
  change c.sendBufferLen - (c.fSentLength + r.sent) < c.sendBufferLen - c.fSentLength
  omega

/-- `ClientSocket::SendSendBuffer` -/
def sendSendBuffer (c : ClientSocket) (inSocket : Socket) : OS_Error × ClientSocket × Socket :=
  if c.sendBufferLen = 0 then (OS_NoErr, c, inSocket)
  else
    let (theErr, c, inSocket) := sendLoop c inSocket
    if theErr = OS_NoErr then
      (theErr, { c with sendBufferLen := 0, fSentLength := 0 }, inSocket)
    else (theErr, { c with fEventMask := EV_WR }, inSocket)

/-- The copy loop of `SendV`. A copy past the end of the array is a fault. The assertion on the
new length, which ends the program if it fails, is left out: `CopiesWithin` says when it holds. -/
def copyVec (c : ClientSocket) (inVec : List Bytes) : Option ClientSocket :=
  inVec.foldlM (fun c v => (write c.fSendBuf c.sendBufferLen v).map fun fSendBuf =>
    { c with fSendBuf, sendBufferLen := c.sendBufferLen + v.length }) c

/-! ## What is sent -/

/-- The loop puts a start of the unsent data on the wire, and all of it if it ends
without error. -/
theorem sendLoop_spec (c : ClientSocket) (s : Socket) :
    ∃ j, (sendLoop c s).2.1 = { c with fSentLength := c.fSentLength + j } ∧
      j ≤ c.unsent.length ∧ (sendLoop c s).2.2.wire = s.wire ++ c.unsent.take j ∧
      ((sendLoop c s).1 = OS_NoErr → j = c.unsent.length) := by
  fun_induction sendLoop c s with
  | case1 c s r c' hpos ih =>
    have hwire : r.socket.wire = s.wire ++ c.unsent.take r.sent := (s.send_wire c.unsent).1
    have hle : r.sent ≤ c.unsent.length := (s.send_wire c.unsent).2
    obtain ⟨j, hc, hj, hw, hall⟩ := ih
    have hdrop : c'.unsent = c.unsent.drop r.sent := by
      simp only [unsent, c', List.drop_drop]
    rw [hdrop, List.length_drop] at hj hall
    refine ⟨r.sent + j, ?_, by omega, ?_, fun herr => ?_⟩
    · rw [hc]; simp only [c', Nat.add_assoc]
    · rw [hw, hwire, hdrop, List.append_assoc, List.take_add]
    · have := hall herr; omega
  | case2 c s r c' hpos =>
    obtain ⟨hwire, hle⟩ := s.send_wire c.unsent
    refine ⟨r.sent, rfl, hle, hwire, ?_⟩
    intro herr
    have hzero : r.sent = 0 := Nat.eq_zero_of_not_pos hpos
    rcases s.send_err c.unsent with ⟨_, hnil⟩ | ⟨hne, _⟩
    · rw [hzero, hnil hzero, List.length_nil]
    · exact absurd herr hne

/-- A pending send goes on: part of the unsent data is sent and stays counted, or all of
it is sent and the buffer is free again. -/
theorem sendSendBuffer_spec (c : ClientSocket) (s : Socket) (hlen : c.sendBufferLen ≠ 0) :
    ((sendSendBuffer c s).1 = OS_NoErr ∧
        (sendSendBuffer c s).2.1 = { c with sendBufferLen := 0, fSentLength := 0 } ∧
        (sendSendBuffer c s).2.2.wire = s.wire ++ c.unsent) ∨
      ((sendSendBuffer c s).1 ≠ OS_NoErr ∧ ∃ j, j ≤ c.unsent.length ∧
        (sendSendBuffer c s).2.1 =
          { c with fSentLength := c.fSentLength + j, fEventMask := EV_WR } ∧
        (sendSendBuffer c s).2.2.wire = s.wire ++ c.unsent.take j) := by
  obtain ⟨j, hc, hj, hw, hall⟩ := sendLoop_spec c s
  by_cases herr : (sendLoop c s).1 = OS_NoErr
  · have hj' := hall herr
    refine .inl ⟨?_, ?_, ?_⟩
    · simp [sendSendBuffer, hlen, herr]
    · simp [sendSendBuffer, hlen, herr, hc]
    · simp [sendSendBuffer, hlen, herr, hw, hj']
  · refine .inr ⟨?_, j, hj, ?_, ?_⟩
    · simp [sendSendBuffer, hlen, herr]
    · simp [sendSendBuffer, hlen, herr, hc]
    · simp [sendSendBuffer, hlen, herr, hw]

/-- If the kernel takes all that is unsent, the loop ends without error. -/
theorem sendLoop_all {c : ClientSocket} {s : Socket} {k : Nat} {outgoing : List SendOutcome}
    (hconnected : s.connected = true) (hout : s.outgoing = .sent k :: outgoing)
    (hle : c.unsent.length ≤ k + 1) : (sendLoop c s).1 = OS_NoErr := by
  have hnone : ∀ (c : ClientSocket) (s : Socket), s.connected = true → c.unsent = [] →
      (sendLoop c s).1 = OS_NoErr := by
    intro c s hconnected hempty
    rw [sendLoop, hempty, Socket.send_nil hconnected]
    rfl
  rcases eq_or_ne c.unsent [] with hempty | hne
  · exact hnone c s hconnected hempty
  · have hsend := Socket.send_all hconnected hout hne hle
    have hpos : (s.send c.unsent).sent > 0 := by
      rw [hsend]
      exact List.length_pos_of_ne_nil hne
    rw [sendLoop, dif_pos hpos]
    refine hnone _ _ ?_ ?_
    · rw [hsend]
      exact hconnected
    · have hsent : (s.send c.unsent).sent = c.unsent.length := by
        rw [hsend]
        rfl
      rw [hsent]
      simp only [unsent, List.length_drop, List.drop_eq_nil_iff]
      omega

/-- A connection that comes up sends nothing by itself, and the kernel's answers stay. -/
theorem connect_up (c : ClientSocket) (s : Socket) :
    (c.connect s {}).1 = OS_NoErr ∧ (c.connect s {}).2.1 = c ∧
      (c.connect s {}).2.2.connected = true ∧ (c.connect s {}).2.2.outgoing = s.outgoing := by
  have hwait : ¬ (OS_NoErr = EINPROGRESS ∨ OS_NoErr = EAGAIN) := by decide
  cases hbound : s.bound <;> cases hconnected : s.connected <;>
    simp [connect, openSocket, hbound, hconnected, hwait]

theorem openSocket_wire (s : Socket) (outcome : ConnectOutcome) :
    (openSocket s outcome).2.wire = s.wire := by
  unfold openSocket
  split_ifs <;> rfl

/-- Connecting sends nothing. -/
theorem connect_spec (c : ClientSocket) (s : Socket) (outcome : ConnectOutcome) :
    (c.connect s outcome).2.2.wire = s.wire ∧
      ∃ fEventMask, (c.connect s outcome).2.1 = { c with fEventMask } := by
  have hwire := openSocket_wire s outcome
  dsimp only [connect]
  split_ifs <;> exact ⟨hwire, _, rfl⟩

/-! ## What is left to receive -/

theorem openSocket_sameInput (s : Socket) (outcome : ConnectOutcome) :
    s.SameInput (openSocket s outcome).2 := by
  unfold openSocket
  split_ifs <;> exact ⟨rfl, rfl⟩

theorem connect_sameInput (c : ClientSocket) (s : Socket) (outcome : ConnectOutcome) :
    s.SameInput (c.connect s outcome).2.2 := by
  obtain ⟨hin, hrec⟩ := openSocket_sameInput s outcome
  dsimp only [connect]
  split_ifs <;> exact ⟨hin, hrec⟩

theorem sendLoop_sameInput (c : ClientSocket) (s : Socket) :
    s.SameInput (sendLoop c s).2.2 := by
  fun_induction sendLoop c s with
  | case1 c s r c' hpos ih =>
    obtain ⟨hin, hrec⟩ := s.send_sameInput c.unsent
    exact ⟨ih.1.trans hin, ih.2.trans hrec⟩
  | case2 c s r c' hpos => exact s.send_sameInput c.unsent

theorem sendSendBuffer_sameInput (c : ClientSocket) (s : Socket) :
    s.SameInput (sendSendBuffer c s).2.2 := by
  have hloop := sendLoop_sameInput c s
  dsimp only [sendSendBuffer]
  split_ifs
  · exact ⟨rfl, rfl⟩
  · exact hloop
  · exact hloop

end ClientSocket

/-- A client of one TCP connection. -/
structure TCPClientSocket where
  client : ClientSocket := {}
  fSocket : Socket := {}
deriving DecidableEq, Repr

namespace TCPClientSocket

/-- The part of `SendV` after the copy loop: connect, then send the send buffer. -/
def connectAndSend (t : TCPClientSocket) (outcome : ConnectOutcome) : OS_Error × TCPClientSocket :=
  let connected := t.client.connect t.fSocket outcome
  if connected.1 ≠ OS_NoErr then (connected.1, ⟨connected.2.1, connected.2.2⟩)
  else
    let sent := connected.2.1.sendSendBuffer connected.2.2
    (sent.1, ⟨sent.2.1, sent.2.2⟩)

/-- `TCPClientSocket::SendV` -/
def sendV (t : TCPClientSocket) (inVec : List Bytes) (outcome : ConnectOutcome) :
    Option (OS_Error × TCPClientSocket) :=
  if t.client.sendBufferLen = 0 then
    (t.client.copyVec inVec).map fun client => connectAndSend { t with client } outcome
  else some (connectAndSend t outcome)

/-- Pending data is sent in full, or in part; the part sent stays counted. -/
theorem connectAndSend_spec (t : TCPClientSocket) (hlen : t.client.sendBufferLen ≠ 0)
    (outcome : ConnectOutcome) (t' : TCPClientSocket) (ht' : t' = (connectAndSend t outcome).2) :
    t'.client.fSendBuf = t.client.fSendBuf ∧
      (((connectAndSend t outcome).1 = OS_NoErr ∧ t'.client.sendBufferLen = 0 ∧
          t'.client.fSentLength = 0 ∧ t'.fSocket.wire = t.fSocket.wire ++ t.client.unsent) ∨
        ((connectAndSend t outcome).1 ≠ OS_NoErr ∧
          t'.client.sendBufferLen = t.client.sendBufferLen ∧
          ∃ j, j ≤ t.client.unsent.length ∧
            t'.client.fSentLength = t.client.fSentLength + j ∧
            t'.fSocket.wire = t.fSocket.wire ++ t.client.unsent.take j)) := by
  obtain ⟨hwire, fEventMask, hconn⟩ := t.client.connect_spec t.fSocket outcome
  by_cases herr : (t.client.connect t.fSocket outcome).1 = OS_NoErr
  · simp only [connectAndSend, herr, ne_eq, not_true, if_false, hconn] at ht' ⊢
    subst ht'
    rcases ClientSocket.sendSendBuffer_spec { t.client with fEventMask }
        (t.client.connect t.fSocket outcome).2.2 hlen with ⟨hok, hc, hw⟩ | ⟨hbad, j, hj, hc, hw⟩
    · exact ⟨by rw [hc], .inl ⟨hok, by rw [hc], by rw [hc], by rw [hw, hwire]; rfl⟩⟩
    · exact ⟨by rw [hc], .inr ⟨hbad, by rw [hc], j, hj, by rw [hc], by rw [hw, hwire]; rfl⟩⟩
  · simp only [connectAndSend, herr, ne_eq, not_false_iff, if_true, hconn] at ht' ⊢
    subst ht'
    exact ⟨rfl, .inr ⟨trivial, rfl, 0, Nat.zero_le _, rfl, by simpa using hwire⟩⟩

/-- The pending data goes out if the connection comes up and the kernel takes it. -/
theorem connectAndSend_all {t : TCPClientSocket} {k : Nat} {outgoing : List SendOutcome}
    (hout : t.fSocket.outgoing = .sent k :: outgoing) (hle : t.client.unsent.length ≤ k + 1) :
    (connectAndSend t {}).1 = OS_NoErr := by
  obtain ⟨hok, hclient, hconnected, hanswers⟩ := t.client.connect_up t.fSocket
  unfold connectAndSend
  dsimp only
  rw [if_neg (not_not.mpr hok), hclient, ClientSocket.sendSendBuffer]
  split_ifs
  · rfl
  · have hloop := ClientSocket.sendLoop_all hconnected (hanswers.trans hout) hle
    dsimp only
    rw [if_pos hloop]
    exact hloop

end TCPClientSocket

/-- `ClientSocket::Send` -/
def TCPClientSocket.send (t : TCPClientSocket) (inData : Bytes) (outcome : ConnectOutcome) :
    Option (OS_Error × TCPClientSocket) :=
  t.sendV [inData] outcome

end CxxFramework.Net
