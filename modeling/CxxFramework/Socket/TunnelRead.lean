import CxxFramework.Socket.HTTPClientHandshake

/-!
# Reading from the tunnel

Calls of `HTTPClientSocket::Read` between which nothing but would-block results comes: a call
waits, or it receives the header of the answer with what has arrived behind it, or it reads from
the connection.

## Main definitions

* `HTTPClientSocket.answer` — what arrives behind the answer to the GET, in one call.
* `HTTPClientSocket.Waiting`, `HTTPClientSocket.Open` — before and after the answer.
-/

namespace CxxFramework.Net

open CxxFramework.Core Buffer Search

/-! ## Results that would block -/

/-- A send takes bytes, or would block. -/
def SendOutcome.Calm : SendOutcome → Prop
  | .sent _ => True
  | .failed errno => errno = .eagain

instance : ∀ o : SendOutcome, Decidable o.Calm
  | .sent _ => isTrue trivial
  | .failed errno => inferInstanceAs (Decidable (errno = .eagain))

/-- The socket is opened, and connects at once or would block. -/
def ConnectOutcome.Calm (outcome : ConnectOutcome) : Prop :=
  outcome.openErr = OS_NoErr ∧ (outcome.connectErr = OS_NoErr ∨ outcome.connectErr = EAGAIN)

instance (outcome : ConnectOutcome) : Decidable outcome.Calm := inferInstanceAs (Decidable (_ ∧ _))

/-- A connected socket, from which no send fails. -/
structure Socket.Up (s : Socket) : Prop where
  bound : s.bound = true
  connected : s.connected = true
  outgoing : ∀ o ∈ s.outgoing, o.Calm

theorem Socket.Up.send {s : Socket} (hs : s.Up) (inData : Bytes) :
    (s.send inData).socket.Up ∧
      ((s.send inData).err = OS_NoErr ∨ (s.send inData).err = EAGAIN) := by
  have hout := hs.outgoing
  unfold Socket.send
  rw [hs.connected, if_neg (by decide)]
  split_ifs
  · exact ⟨hs, .inl rfl⟩
  · cases hevents : s.outgoing with
    | nil => exact ⟨hs, .inr rfl⟩
    | cons event outgoing =>
      rw [hevents] at hout
      obtain ⟨hevent, hrest⟩ := List.forall_mem_cons.mp hout
      cases event with
      | sent k => exact ⟨⟨hs.bound, rfl, hrest⟩, .inl rfl⟩
      | failed errno =>
        obtain rfl : errno = .eagain := hevent
        exact ⟨⟨hs.bound, rfl, hrest⟩, .inr rfl⟩

namespace ClientSocket

theorem sendLoop_up (c : ClientSocket) (s : Socket) (hs : s.Up) :
    (c.sendLoop s).2.2.Up ∧ ((c.sendLoop s).1 = OS_NoErr ∨ (c.sendLoop s).1 = EAGAIN) := by
  fun_induction sendLoop c s with
  | case1 c s r c' hpos ih => exact ih (hs.send c.unsent).1
  | case2 c s r c' hpos => exact hs.send c.unsent

theorem sendSendBuffer_up (c : ClientSocket) (s : Socket) (hs : s.Up) :
    (c.sendSendBuffer s).2.2.Up ∧
      ((c.sendSendBuffer s).1 = OS_NoErr ∨ (c.sendSendBuffer s).1 = EAGAIN) := by
  have hloop := sendLoop_up c s hs
  dsimp only [sendSendBuffer]
  split_ifs
  · exact ⟨hs, .inl rfl⟩
  · exact hloop
  · exact hloop

theorem connect_calm (c : ClientSocket) {s : Socket} {outcome : ConnectOutcome}
    (hcalm : outcome.Calm) (hout : ∀ o ∈ s.outgoing, o.Calm) :
    (c.connect s outcome).2.2.Up ∧
      ((c.connect s outcome).1 = OS_NoErr ∨ (c.connect s outcome).1 = EAGAIN) := by
  obtain ⟨hopen, hconnect⟩ := hcalm
  have hopened : (openSocket s outcome).1 = OS_NoErr ∧ (openSocket s outcome).2.bound = true ∧
      (openSocket s outcome).2.outgoing = s.outgoing := by
    unfold openSocket
    split_ifs with hbound herr
    · exact ⟨rfl, hbound, rfl⟩
    · exact absurd hopen herr
    · exact ⟨rfl, rfl, rfl⟩
  obtain ⟨hnoerr, hbound, hsame⟩ := hopened
  rw [← hsame] at hout
  dsimp only [connect]
  rw [if_neg (not_not.mpr hnoerr)]
  split_ifs with hconnected
  · exact ⟨⟨hbound, hconnected, hout⟩, .inl rfl⟩
  · exact ⟨⟨hbound, rfl, hout⟩, hconnect⟩
  · exact ⟨⟨hbound, rfl, hout⟩, hconnect⟩

end ClientSocket

namespace HTTPClientSocket

variable {h h' : HTTPClientSocket} {got L inBuffer : Bytes} {outRcvLen : Nat}
  {incoming X : List RecvEvent} {outcome : ConnectOutcome}

/-! ## The answer in one call -/

/-- Behind `got`, segments come without a would-block result between them up to the one with
which the header ends: what arrives behind the header with it, and what comes then. -/
def answer (got : Bytes) : List RecvEvent → Option (Bytes × List RecvEvent)
  | .segment first rest :: incoming =>
    match strstr (got ++ taken got (first :: rest)) blankLine with
    | some pos =>
      some ((got ++ taken got (first :: rest)).drop (pos + 4), left got (first :: rest) incoming)
    | none => answer (got ++ taken got (first :: rest)) incoming
  | _ => none

/-- The end of what is found is not in the part in which nothing is found. -/
theorem strstr_append_lt {s t : Bytes} {pos : Nat} (hnone : strstr s blankLine = none)
    (hpos : strstr (s ++ t) blankLine = some pos) : s.length < pos + 4 := by
  by_contra hle
  by_cases hzero : 0 ∈ s
  · obtain ⟨front, back, rfl⟩ := List.mem_iff_append.mp hzero
    rw [strstr, cString_append_zero] at hnone
    rw [strstr, List.append_assoc, List.cons_append, cString_append_zero, hnone] at hpos
    cases hpos
  · have hsplit : cString (s ++ t) = s ++ cString t :=
      List.takeWhile_append_of_pos fun c hc => by simpa using ne_of_mem_of_not_mem hc hzero
    rw [strstr, hsplit] at hpos
    rw [strstr, cString_of_noZero hzero, find_of_front hpos (Nat.le_of_not_lt hle)] at hnone
    cases hnone

/-- Nothing arrives in a full buffer. -/
theorem answer_full (hfull : got.length = kSendBufferLen) (hnone : strstr got blankLine = none) :
    answer got incoming = none := by
  induction incoming with
  | nil => rfl
  | cons event incoming ih =>
    cases event with
    | segment first rest =>
      have htaken : got ++ taken got (first :: rest) = got := by
        rw [taken, hfull, Nat.sub_self, List.take_zero, List.append_nil]
      rw [answer, htaken, hnone]
      exact ih
    | failed errno => rfl
    | closed => rfl

/-- Before the header ends, segments fit into the buffer. -/
theorem length_le_of_answer {segment : Bytes} (hgot : got.length ≤ kSendBufferLen)
    (hnone : strstr (got ++ taken got segment) blankLine = none)
    (h : answer (got ++ taken got segment) incoming = some (L, X)) :
    segment.length ≤ kSendBufferLen - got.length := by
  have hle := length_taken_le hgot segment
  have hroom : (got ++ taken got segment).length ≠ kSendBufferLen := by
    intro hfull
    rw [answer_full hfull hnone] at h
    cases h
  rw [List.length_append, taken, List.length_take] at hroom hle
  omega

/-- Before the header ends, a byte of the buffer is not used, for what comes behind it. -/
theorem length_lt_of_answer (h : answer got incoming = some (L, X))
    (hgot : got.length ≤ kSendBufferLen) (hnone : strstr got blankLine = none) (hL : L ≠ []) :
    got.length < kSendBufferLen - 1 := by
  induction incoming generalizing got with
  | nil => cases h
  | cons event incoming ih =>
    cases event with
    | segment first rest =>
      have hle := length_taken_le hgot (first :: rest)
      rw [answer] at h
      cases hfound : strstr (got ++ taken got (first :: rest)) blankLine with
      | some pos =>
        rw [hfound] at h
        cases h
        have hlt := strstr_append_lt hnone hfound
        have hmore := List.length_pos_of_ne_nil hL
        rw [List.length_drop] at hmore
        omega
      | none =>
        rw [hfound] at h
        have hlt := ih h hle hfound
        rw [List.length_append] at hlt
        omega
    | failed errno => cases h
    | closed => cases h

/-- What arrives behind the header fits into a buffer of one byte less. -/
theorem length_answer_lt (h : answer got incoming = some (L, X))
    (hgot : got.length ≤ kSendBufferLen) : L.length < kSendBufferLen := by
  induction incoming generalizing got with
  | nil => cases h
  | cons event incoming ih =>
    cases event with
    | segment first rest =>
      have hle := length_taken_le hgot (first :: rest)
      rw [answer] at h
      cases hfound : strstr (got ++ taken got (first :: rest)) blankLine with
      | some pos =>
        rw [hfound] at h
        cases h
        have hpos : 0 < kSendBufferLen := by decide
        rw [List.length_drop]
        omega
      | none =>
        rw [hfound] at h
        exact ih h hle
    | failed errno => cases h
    | closed => cases h

/-! ## Bringing up the connection -/

theorem sendGet_up (h : HTTPClientSocket) (hcalm : outcome.Calm)
    (hout : ∀ o ∈ h.fGetSocket.outgoing, o.Calm) :
    (h.sendGet outcome).2.fGetSocket.Up ∧
      ((h.sendGet outcome).1 = OS_NoErr ∨ (h.sendGet outcome).1 = EAGAIN) := by
  obtain ⟨hup, herr⟩ := h.client.connect_calm hcalm hout
  dsimp only [sendGet]
  split_ifs with hconnect hlen hsend
  · exact ⟨hup, herr⟩
  · exact ClientSocket.sendSendBuffer_up _ _ hup
  · exact ⟨(ClientSocket.sendSendBuffer_up _ _ hup).1, .inl rfl⟩
  · exact ⟨hup, .inl rfl⟩

theorem bringUp_up {theErr : OS_Error} (hcalm : outcome.Calm)
    (hout : ∀ o ∈ h.fGetSocket.outgoing, o.Calm) (hbring : h.bringUp outcome = some (theErr, h')) :
    h'.fGetSocket.Up ∧ (theErr = OS_NoErr ∨ theErr = EAGAIN) := by
  obtain ⟨h₁, hget, heq⟩ := Option.map_eq_some_iff.mp hbring
  have hsocket : h₁.fGetSocket = h.fGetSocket := by
    split_ifs at hget
    · cases hget
      rfl
    · obtain ⟨fSendBuf, -, rfl⟩ := Option.map_eq_some_iff.mp hget
      rfl
  have hup := h₁.sendGet_up hcalm (hsocket ▸ hout)
  rwa [heq] at hup

/-- The GET is not sent, or its answer has not arrived. -/
structure Waiting (h : HTTPClientSocket) : Prop where
  holds : Holds h []
  started : h.fGetSocket.connected = true → Handshaking h
  fresh : h.fGetSocket.connected = false → h.client.fSentLength = 0

/-- While the answer has not arrived, a call would block, or comes to receive it. -/
theorem Waiting.bringUp (hw : Waiting h)
    (htext : h.fGetSocket.connected = false → h.getText.length ≤ kSendBufferLen)
    (hcalm : outcome.Calm) (hout : ∀ o ∈ h.fGetSocket.outgoing, o.Calm) :
    ∃ theErr h', h.bringUp outcome = some (theErr, h') ∧ Waiting h' ∧ h'.fGetSocket.Up ∧
      h.fGetSocket.SameInput h'.fGetSocket ∧
      (theErr = EAGAIN ∨
        theErr = OS_NoErr ∧ h'.client.sendBufferLen = 0 ∧ 0 < h'.client.fSentLength) := by
  obtain ⟨theErr, h', hbring, hh', hinput, hshake, hsent⟩ := bringUp_spec hw.holds htext outcome
  obtain ⟨hup, herr⟩ := bringUp_up hcalm hout hbring
  have hhand : Handshaking h' := by
    rw [hshake]
    cases hconnected : h.fGetSocket.connected with
    | false => exact .inl rfl
    | true => exact .inr (hw.started hconnected)
  refine ⟨theErr, h', hbring, ⟨hh', fun _ => hhand, fun hdown => ?_⟩, hup, hinput, ?_⟩
  · cases hup.connected.symm.trans hdown
  · rcases herr with hok | hagain
    · have hlen := hsent hok
      exact .inr ⟨hok, hlen, hhand.resolve_left (by omega)⟩
    · exact .inl hagain

/-! ## Once the answer has arrived -/

/-- The connection is up, and the answer to the GET received. -/
structure Open (h : HTTPClientSocket) : Prop where
  holds : Holds h []
  bound : h.fGetSocket.bound = true
  connected : h.fGetSocket.connected = true
  sendBufferLen : h.client.sendBufferLen = 0
  fSentLength : h.client.fSentLength = 0

/-- No data is ready, and the next read would block. -/
def NoData (incoming : List RecvEvent) : Prop :=
  incoming = [] ∨ ∃ X, incoming = .failed .eagain :: X

/-- A read that would block takes at most the would-block result. -/
def Later (incoming incoming' : List RecvEvent) : Prop :=
  incoming' = incoming ∨ incoming = .failed .eagain :: incoming'

theorem readSocket_noData {s : Socket} (hconnected : s.connected = true) (h : NoData s.incoming)
    (length : Nat) :
    ∃ incoming, s.read length = ⟨EAGAIN, none, { s with incoming }⟩ ∧
      Later s.incoming incoming := by
  obtain ⟨bound, connected, wire, outgoing, incoming, received⟩ := s
  obtain rfl : connected = true := hconnected
  rcases h with hnil | ⟨X, hX⟩
  · exact ⟨incoming, Socket.read_nil rfl hnil length, .inl rfl⟩
  · exact ⟨X, Socket.read_wouldBlock rfl hX length, .inr hX⟩

/-- The loop that finds nothing to receive would block. -/
theorem receiveLoop_noData (hh : Holds h []) (hconnected : h.fGetSocket.connected = true)
    (hnone : NoData h.fGetSocket.incoming) (hsize : 0 < inBuffer.length) :
    ∃ fSendBuf incoming, h.receiveLoop inBuffer 0 = some (EAGAIN, 0, inBuffer,
        { h with
          client.fSendBuf := fSendBuf
          client.fEventMask := EV_RE
          fGetSocket.incoming := incoming }) ∧
      fSendBuf.length = kSendBufferLen + 1 ∧ Later h.fGetSocket.incoming incoming := by
  obtain ⟨incoming, hread, hlater⟩ :=
    readSocket_noData hconnected hnone (kSendBufferLen - h.fGetReceived)
  obtain ⟨fSendBuf, hr, hh', hempty⟩ := hh.receive_none hread
  refine ⟨fSendBuf, incoming, ?_, hh'.length, hlater⟩
  have hcount : h.fGetReceived = 0 := hh.count
  rw [receiveLoop_eq hr]
  dsimp only
  rw [hempty]
  dsimp only
  rw [hcount, if_neg (by omega), if_neg (Nat.lt_irrefl 0), if_neg (by decide)]

/-- The loop finds the header of the answer, and hands over what has arrived behind it. -/
theorem receiveLoop_answer (hh : Holds h got) (hbound : h.fGetSocket.bound = true)
    (hconnected : h.fGetSocket.connected = true) (hsent : h.client.sendBufferLen = 0)
    (hanswer : answer got h.fGetSocket.incoming = some (L, X))
    (hnone : strstr got blankLine = none) (hL : L ≠ [])
    (hsize : inBuffer.length = kSendBufferLen - 1) (outRcvLen : Nat) :
    ∃ h', h.receiveLoop inBuffer outRcvLen =
        some (OS_NoErr, L.length, L ++ inBuffer.drop L.length, h') ∧
      Open h' ∧ h'.fGetSocket.incoming = X ∧ L.length ≤ h'.fGetSocket.received.length := by
  generalize hin : h.fGetSocket.incoming = incoming at hanswer
  induction incoming generalizing h got outRcvLen with
  | nil => cases hanswer
  | cons event incoming ih =>
    have hlt := length_lt_of_answer hanswer hh.fits hnone hL
    cases event with
    | segment first rest =>
      obtain ⟨fSendBuf, hr, hh', hstrstr, hpos⟩ :=
        hh.receive_segment hconnected hin (by omega) outRcvLen
      rw [answer] at hanswer
      cases hfound : strstr (got ++ taken got (first :: rest)) blankLine with
      | some pos =>
        rw [hfound] at hanswer hstrstr
        cases hanswer
        have hend := strstr_append_lt hnone hfound
        have hfits : ((got ++ taken got (first :: rest)).drop (pos + 4)).length ≤
            (taken got (first :: rest)).length := by
          rw [List.length_drop, List.length_append]
          omega
        have hroom : ((got ++ taken got (first :: rest)).drop (pos + 4)).length ≤
            inBuffer.length := by
          have hlen := hh'.fits
          rw [List.length_drop, hsize]
          omega
        rw [receiveLoop_found hh' hr hstrstr hroom]
        refine ⟨_, rfl, ⟨⟨rfl, hh'.length, Nat.zero_le _, rfl⟩, hbound, hconnected, hsent, rfl⟩,
          rfl, hfits.trans ?_⟩
        change _ ≤ (h.fGetSocket.received ++ taken got (first :: rest)).length
        rw [List.length_append]
        exact Nat.le_add_left _ _
      | none =>
        rw [hfound] at hanswer hstrstr
        have hlt' := length_lt_of_answer hanswer hh'.fits hfound hL
        rw [receiveLoop_more hh' hr hstrstr (by omega) hpos]
        refine ih hh' hbound hconnected hsent hfound _ ?_ hanswer
        exact left_of_fits (length_le_of_answer hh.fits hfound hanswer)
    | failed errno => cases hanswer
    | closed => cases hanswer

/-- A call that would block still waits for the answer. -/
theorem Waiting.read_noData (hw : Waiting h)
    (htext : h.fGetSocket.connected = false → h.getText.length ≤ kSendBufferLen)
    (hcalm : outcome.Calm) (hout : ∀ o ∈ h.fGetSocket.outgoing, o.Calm)
    (hnone : ∀ r ∈ h.bringUp outcome, r.1 = OS_NoErr → NoData h.fGetSocket.incoming)
    (hsize : 0 < inBuffer.length) (outRcvLen : Nat) :
    ∃ n h', h.read inBuffer outRcvLen outcome = some (EAGAIN, n, inBuffer, h') ∧
      Waiting h' ∧ Later h.fGetSocket.incoming h'.fGetSocket.incoming := by
  obtain ⟨theErr, h₁, hbring, hw₁, hup, hinput, herr⟩ := hw.bringUp htext hcalm hout
  rw [read_of_bringUp (.inr hcalm.1) hw.fresh hbring]
  rcases herr with rfl | ⟨rfl, -, hphase⟩
  · exact ⟨outRcvLen, h₁, if_pos (by decide), hw₁, .inl hinput.1⟩
  · have hnodata : NoData h₁.fGetSocket.incoming := hinput.1 ▸ hnone _ hbring rfl
    obtain ⟨fSendBuf, incoming, hloop, hlen, hlater⟩ :=
      receiveLoop_noData hw₁.holds hup.connected hnodata hsize
    rw [if_neg (by decide), if_pos hphase, hloop]
    refine ⟨0, _, rfl, ⟨⟨hw₁.holds.count, hlen, Nat.zero_le _, rfl⟩, fun _ => .inr hphase, ?_⟩,
      hinput.1 ▸ hlater⟩
    exact fun hdown => by cases hup.connected.symm.trans hdown

/-- The call that receives the answer. -/
theorem Waiting.read_answer (hw : Waiting h)
    (htext : h.fGetSocket.connected = false → h.getText.length ≤ kSendBufferLen)
    (hcalm : outcome.Calm) (hout : ∀ o ∈ h.fGetSocket.outgoing, o.Calm)
    (hok : ∃ h', h.bringUp outcome = some (OS_NoErr, h'))
    (hanswer : answer [] h.fGetSocket.incoming = some (L, X)) (hL : L ≠ [])
    (hsize : inBuffer.length = kSendBufferLen - 1) (outRcvLen : Nat) :
    ∃ h', h.read inBuffer outRcvLen outcome =
        some (OS_NoErr, L.length, L ++ inBuffer.drop L.length, h') ∧
      Open h' ∧ h'.fGetSocket.incoming = X ∧ L.length ≤ h'.fGetSocket.received.length := by
  obtain ⟨theErr, h₁, hbring, hw₁, hup, hinput, herr⟩ := hw.bringUp htext hcalm hout
  rw [read_of_bringUp (.inr hcalm.1) hw.fresh hbring]
  obtain ⟨h₂, hok⟩ := hok
  cases hbring.symm.trans hok
  obtain ⟨-, hlen, hphase⟩ := herr.resolve_left (by decide)
  rw [if_neg (by decide), if_pos hphase]
  refine receiveLoop_answer hw₁.holds hup.bound hup.connected hlen ?_ (by decide) hL hsize 0
  rw [hinput.1]
  exact hanswer

/-- Once the answer has arrived, a call reads from the connection. -/
theorem Open.read (ho : Open h) (hcalm : outcome.Calm) (inBuffer : Bytes)
    (outRcvLen : Nat) :
    h.read inBuffer outRcvLen outcome = h.readData inBuffer outRcvLen := by
  have hconnect : h.client.connect h.fGetSocket outcome = (OS_NoErr, h.client, h.fGetSocket) := by
    simp [ClientSocket.connect, ClientSocket.openSocket, ho.bound, ho.connected]
  have hbring : h.bringUp outcome = some (OS_NoErr, h) := by
    rw [HTTPClientSocket.bringUp, if_pos ho.connected, Option.map_some, sendGet]
    simp [hconnect, ho.sendBufferLen]
  rw [read_of_bringUp (.inr hcalm.1) (fun _ => ho.fSentLength) hbring, if_neg (by decide),
    if_neg (by rw [ho.fSentLength]; decide)]

theorem Open.read_segment (ho : Open h) (hcalm : outcome.Calm) {first : UInt8}
    {rest : Bytes} (hin : h.fGetSocket.incoming = .segment first rest :: incoming)
    (inBuffer : Bytes) (hsize : inBuffer.length ≠ 0) (outRcvLen : Nat) :
    h.read inBuffer outRcvLen outcome =
      some (OS_NoErr, ((first :: rest).take inBuffer.length).length,
        (first :: rest).take inBuffer.length ++
          inBuffer.drop ((first :: rest).take inBuffer.length).length,
        { h with
          fGetSocket.incoming :=
            Socket.putBack ((first :: rest).drop inBuffer.length) incoming
          fGetSocket.received :=
            h.fGetSocket.received ++ (first :: rest).take inBuffer.length }) := by
  have hcount : h.fGetReceived = 0 := ho.holds.count
  have hread := Socket.read_segment ho.connected hin hsize
  rw [ho.read hcalm]
  simp only [readData, hcount, Nat.sub_zero, hread, Option.map_some, Option.getD_some]
  rw [write_of_le (by rw [Nat.zero_add]; exact List.length_take_le _ _), List.take_zero,
    List.nil_append, Nat.zero_add]
  simp

theorem Open.read_noData (ho : Open h) (hcalm : outcome.Calm)
    (hnone : NoData h.fGetSocket.incoming) (inBuffer : Bytes) (outRcvLen : Nat) :
    ∃ incoming, h.read inBuffer outRcvLen outcome =
        some (EAGAIN, outRcvLen, inBuffer,
          { h with fGetSocket.incoming := incoming, client.fEventMask := EV_RE }) ∧
      Later h.fGetSocket.incoming incoming := by
  have hcount : h.fGetReceived = 0 := ho.holds.count
  obtain ⟨incoming, hread, hlater⟩ := readSocket_noData ho.connected hnone inBuffer.length
  refine ⟨incoming, ?_, hlater⟩
  have hne : EAGAIN ≠ OS_NoErr := by decide
  rw [ho.read hcalm]
  simp only [readData, hcount, Nat.sub_zero, hread, Option.map_none, Option.getD_none]
  rw [write_of_le (Nat.zero_le _)]
  simp [hne]

end HTTPClientSocket

end CxxFramework.Net
