import CxxFramework.Library.Transition
import CxxFramework.Socket.HTTPClientSocket
import Mathlib.Data.Nat.Find

/-!
# The answer to the GET

Runs of `HTTPClientSocket::Read`: what has arrived since the GET was brought up is either
counted in `fGetReceived` and stands in the receive buffer, or its header is dropped and
the rest handed over to the callers.

The loop of `Read` does not give up its count of a successful read when the next one
fails, so that a `Read` that has received a part of the header must not run out of data
before its end. The part must also be shorter than the caller's buffer, which an assert says.
-/

namespace CxxFramework.Net

open CxxFramework.Core Buffer Search Transition

/-- The segments that can be received before the next failure. -/
def ready : List RecvEvent → List Bytes
  | .segment first rest :: incoming => (first :: rest) :: ready incoming
  | _ => []

/-- What arrives in the receive buffer, which holds `got`, with the first `k` segments. -/
def arrived (got : Bytes) (segments : List Bytes) (k : Nat) : Bytes :=
  (got ++ (segments.take k).flatten).take kSendBufferLen

namespace HTTPClientSocket

/-- The end of the header is found when the `k`-th segment arrives, not before, and what
follows it fits into the caller's buffer. What arrives before is shorter than that buffer. -/
def EndsWith (got : Bytes) (segments : List Bytes) (inLength k : Nat) : Prop :=
  (∃ pos ∈ strstr (arrived got segments k) blankLine,
      (arrived got segments k).length - (pos + 4) ≤ inLength) ∧
    ∀ j < k, strstr (arrived got segments j) blankLine = none ∧
      (0 < j → (arrived got segments j).length < inLength)

instance (got : Bytes) (segments : List Bytes) (inLength k : Nat) :
    Decidable (EndsWith got segments inLength k) := inferInstanceAs (Decidable (_ ∧ _))

/-- No data is ready, or all of the header is, for a caller's buffer of some bytes. -/
def Answered (incoming : List RecvEvent) (inLength : Nat) : Prop :=
  0 < inLength ∧ (ready incoming = [] ∨
    ∃ k ≤ (ready incoming).length, EndsWith [] (ready incoming) inLength k)

instance (incoming : List RecvEvent) (inLength : Nat) : Decidable (Answered incoming inLength) :=
  inferInstanceAs (Decidable (_ ∧ _))

/-- The receive buffer holds `got`. -/
structure Holds (h : HTTPClientSocket) (got : Bytes) : Prop where
  count : h.fGetReceived = got.length
  length : h.client.fSendBuf.length = kSendBufferLen + 1
  fits : got.length ≤ kSendBufferLen
  content : h.client.fSendBuf.take got.length = got

variable {h h' : HTTPClientSocket} {got data inBuffer : Bytes} {outRcvLen : Nat}

/-- A read that brings data adds it to what the buffer holds. -/
theorem Holds.receive (hh : Holds h got) {err : OS_Error} {socket : Socket}
    (hread : h.fGetSocket.read (kSendBufferLen - h.fGetReceived) = ⟨err, some data, socket⟩)
    (hfits : got.length + data.length ≤ kSendBufferLen) (outRcvLen : Nat) :
    ∃ fSendBuf, h.receive outRcvLen = some (err, data.length,
        { h with
          client.fSendBuf := fSendBuf
          fGetReceived := h.fGetReceived + data.length
          fGetSocket := socket }) ∧
      Holds { h with
        client.fSendBuf := fSendBuf
        fGetReceived := h.fGetReceived + data.length
        fGetSocket := socket } (got ++ data) ∧
      cString fSendBuf = cString (got ++ data) := by
  have hcount := hh.count
  have hlength := hh.length
  obtain ⟨received, hdata⟩ := Option.isSome_iff_exists.mp
    (show (write h.client.fSendBuf h.fGetReceived data).isSome by
      rw [write_of_le (by omega)]; rfl)
  have hlen := length_write hdata
  obtain ⟨fSendBuf, hzero⟩ := Option.isSome_iff_exists.mp
    (show (write received (h.fGetReceived + data.length) [0]).isSome by
      rw [write_of_le (by rw [List.length_singleton]; omega)]; rfl)
  have htake := take_write hzero
  rw [take_write hdata, hcount, hh.content, List.length_singleton, ← List.length_append] at htake
  refine ⟨fSendBuf, ?_, ⟨?_, ?_, ?_, ?_⟩, cString_of_take htake⟩
  · simp [HTTPClientSocket.receive, hread, hdata, hzero]
  · simp [hcount]
  · rw [length_write hzero, hlen, hlength]
  · simpa using hfits
  · have := congrArg (List.take (got ++ data).length) htake
    rwa [List.take_take, Nat.min_eq_left (Nat.le_succ _), List.take_left] at this

/-- What a read behind `got` takes of a segment. -/
def taken (got segment : Bytes) : Bytes := segment.take (kSendBufferLen - got.length)

/-- What it leaves of the segment, and what comes then. -/
def left (got segment : Bytes) (incoming : List RecvEvent) : List RecvEvent :=
  Socket.putBack (segment.drop (kSendBufferLen - got.length)) incoming

theorem length_taken_le (hgot : got.length ≤ kSendBufferLen) (segment : Bytes) :
    (got ++ taken got segment).length ≤ kSendBufferLen := by
  rw [List.length_append, taken, List.length_take]
  omega

theorem taken_of_fits {segment : Bytes} (h : segment.length ≤ kSendBufferLen - got.length) :
    taken got segment = segment :=
  List.take_of_length_le h

theorem left_of_fits {segment : Bytes} {incoming : List RecvEvent}
    (h : segment.length ≤ kSendBufferLen - got.length) : left got segment incoming = incoming := by
  rw [left, List.drop_of_length_le h]
  rfl

/-- The socket once it has received of a segment what there is room for behind `got`. -/
def filled (h : HTTPClientSocket) (got segment : Bytes) (incoming : List RecvEvent)
    (fSendBuf : Bytes) : HTTPClientSocket :=
  { h with
    client.fSendBuf := fSendBuf
    fGetReceived := h.fGetReceived + (taken got segment).length
    fGetSocket.incoming := left got segment incoming
    fGetSocket.received := h.fGetSocket.received ++ taken got segment }

/-- A segment is received behind what the buffer holds, which is then searched. -/
theorem Holds.receive_segment (hh : Holds h got) (hconn : h.fGetSocket.connected = true)
    {first : UInt8} {rest : Bytes} {incoming : List RecvEvent}
    (hin : h.fGetSocket.incoming = .segment first rest :: incoming)
    (hlt : got.length < kSendBufferLen) (outRcvLen : Nat) :
    ∃ fSendBuf, h.receive outRcvLen = some (OS_NoErr, (taken got (first :: rest)).length,
        h.filled got (first :: rest) incoming fSendBuf) ∧
      Holds (h.filled got (first :: rest) incoming fSendBuf) (got ++ taken got (first :: rest)) ∧
      strstr fSendBuf blankLine = strstr (got ++ taken got (first :: rest)) blankLine ∧
      0 < (taken got (first :: rest)).length := by
  have hroom : kSendBufferLen - h.fGetReceived ≠ 0 := by
    rw [hh.count]
    omega
  have hread := Socket.read_segment hconn hin hroom
  rw [hh.count] at hread
  have hle := length_taken_le hh.fits (first :: rest)
  rw [List.length_append] at hle
  obtain ⟨fSendBuf, hr, hh', hstring⟩ := hh.receive (by rw [hh.count]; exact hread) hle outRcvLen
  refine ⟨fSendBuf, hr, hh', ?_, ?_⟩
  · rw [strstr, hstring]
    rfl
  · rw [taken, List.length_take, List.length_cons]
    omega

/-- What the buffer holds from a position on is handed over. -/
theorem Holds.write_behind (hh : Holds h got) {pos : Nat}
    (hroom : (got.drop pos).length ≤ inBuffer.length) :
    write inBuffer 0 (slice h.client.fSendBuf pos (h.fGetReceived - pos)) =
      some (got.drop pos ++ inBuffer.drop (got.drop pos).length) := by
  have hslice : slice h.client.fSendBuf pos (h.fGetReceived - pos) = got.drop pos := by
    rw [slice, ← List.drop_take, hh.count, hh.content]
  rw [hslice, write_of_le (by simpa using hroom), List.take_zero, List.nil_append, Nat.zero_add]

/-- One pass of the loop. -/
theorem receiveLoop_eq {theErr : OS_Error} {n : Nat}
    (hr : h.receive outRcvLen = some (theErr, n, h')) (inBuffer : Bytes) :
    h.receiveLoop inBuffer outRcvLen =
      match strstr h'.client.fSendBuf blankLine with
      | some pos =>
        (write inBuffer 0 (slice h'.client.fSendBuf (pos + 4) (h'.fGetReceived - (pos + 4)))).map
          fun inBuffer => (OS_NoErr, h'.fGetReceived - (pos + 4), inBuffer,
            { h' with fGetReceived := 0, client.fSentLength := 0 })
      | none =>
        if inBuffer.length ≤ h'.fGetReceived then none
        else if n > 0 then receiveLoop h' inBuffer n
        else if theErr = OS_NoErr then none
        else some (theErr, n, inBuffer, { h' with client.fEventMask := EV_RE }) := by
  rw [receiveLoop]
  split
  next hnone => cases hnone.symm.trans hr
  next hsome =>
    cases hsome.symm.trans hr
    rfl

/-! ## The header arrives -/

variable {segment : Bytes} {segments : List Bytes} {k inLength : Nat}

theorem arrived_zero (hfits : got.length ≤ kSendBufferLen) : arrived got segments 0 = got := by
  simp [arrived, List.take_of_length_le hfits]

/-- A full buffer stays as it is. -/
theorem arrived_full (hfull : got.length = kSendBufferLen) (k : Nat) :
    arrived got segments k = got := by
  rw [arrived, ← hfull, List.take_left]

/-- What the buffer holds is the start of what arrives. -/
theorem arrived_start (hfits : got.length ≤ kSendBufferLen) (k : Nat) :
    got <+: arrived got segments k := by
  rw [arrived, List.take_append, List.take_of_length_le hfits]
  exact List.prefix_append _ _

/-- To find the end of the header needs a segment and room for it. -/
theorem arrived_found {pos : Nat} (hfits : got.length ≤ kSendBufferLen)
    (hnone : strstr got blankLine = none)
    (hpos : strstr (arrived got segments k) blankLine = some pos) :
    k ≠ 0 ∧ got.length < kSendBufferLen := by
  constructor
  · rintro rfl
    rw [arrived_zero hfits, hnone] at hpos
    cases hpos
  · refine Nat.lt_of_le_of_ne hfits ?_
    intro hfull
    rw [arrived_full hfull, hnone] at hpos
    cases hpos

/-- The first segment is received as far as there is room. -/
theorem arrived_cons (hfits : got.length ≤ kSendBufferLen) (k : Nat) :
    arrived got (segment :: segments) (k + 1) = arrived (got ++ taken got segment) segments k := by
  rw [taken]
  rcases Nat.le_total segment.length (kSendBufferLen - got.length) with hle | hge
  · rw [List.take_of_length_le hle]
    simp [arrived]
  · have hfull : (got ++ segment.take (kSendBufferLen - got.length)).length = kSendBufferLen := by
      simp only [List.length_append, List.length_take]
      omega
    rw [arrived_full hfull]
    simp only [arrived, List.take_succ_cons, List.flatten_cons, ← List.append_assoc]
    rw [List.take_append_of_le_length (by simp; omega), List.take_append,
      List.take_of_length_le hfits]

theorem EndsWith.cons (h : EndsWith got (segment :: segments) inLength (k + 1))
    (hfits : got.length ≤ kSendBufferLen) :
    EndsWith (got ++ taken got segment) segments inLength k := by
  obtain ⟨hend, hbefore⟩ := h
  rw [arrived_cons hfits] at hend
  refine ⟨hend, ?_⟩
  intro j hj
  rw [← arrived_cons hfits]
  obtain ⟨hnone, hshort⟩ := hbefore (j + 1) (by omega)
  exact ⟨hnone, fun _ => hshort (Nat.succ_pos j)⟩

theorem ready_eq_cons {incoming : List RecvEvent} (h : ready incoming = segment :: segments) :
    ∃ first rest incoming', segment = first :: rest ∧
      incoming = .segment first rest :: incoming' ∧ ready incoming' = segments := by
  rcases incoming with _ | ⟨⟨first, rest⟩ | _ | _, incoming'⟩
  · cases h
  · obtain ⟨rfl, hrest⟩ := List.cons.inj h
    exact ⟨first, rest, incoming', rfl, rfl, hrest⟩
  · cases h
  · cases h

/-- The end of the header is in the buffer: what follows it is handed over. -/
theorem receiveLoop_found (hh : Holds h' got) {theErr : OS_Error} {n pos : Nat}
    (hr : h.receive outRcvLen = some (theErr, n, h'))
    (hfound : strstr h'.client.fSendBuf blankLine = some pos)
    (hroom : (got.drop (pos + 4)).length ≤ inBuffer.length) :
    h.receiveLoop inBuffer outRcvLen =
      some (OS_NoErr, (got.drop (pos + 4)).length,
        got.drop (pos + 4) ++ inBuffer.drop (got.drop (pos + 4)).length,
        { h' with fGetReceived := 0, client.fSentLength := 0 }) := by
  simp only [receiveLoop_eq hr, hfound, hh.write_behind hroom, Option.map_some]
  rw [List.length_drop, hh.count]

/-- The end of the header is not in the buffer, and the loop goes on. -/
theorem receiveLoop_more (hh : Holds h' got) {theErr : OS_Error} {n : Nat}
    (hr : h.receive outRcvLen = some (theErr, n, h'))
    (hnone : strstr h'.client.fSendBuf blankLine = none) (hshort : got.length < inBuffer.length)
    (hpos : 0 < n) : h.receiveLoop inBuffer outRcvLen = h'.receiveLoop inBuffer n := by
  rw [receiveLoop_eq hr, hnone]
  dsimp only
  rw [hh.count, if_neg (not_le.mpr hshort), if_pos hpos]

/-- If the end of the header is among the segments that are ready, the loop finds it and
hands over what follows. -/
theorem receiveLoop_ends (hh : Holds h got) (hconn : h.fGetSocket.connected = true)
    (hready : ready h.fGetSocket.incoming = segments) (hnone : strstr got blankLine = none)
    (hends : EndsWith got segments inBuffer.length k) (hk : k ≤ segments.length)
    (outRcvLen : Nat) :
    ∃ n inBuffer' h', receiveLoop h inBuffer outRcvLen = some (OS_NoErr, n, inBuffer', h') ∧
      after blankLine (arrived got segments k) = some (inBuffer'.take n) ∧
      h'.fGetReceived = 0 ∧ h'.client.fSentLength = 0 ∧
      h'.client.sendBufferLen = h.client.sendBufferLen ∧
      h'.client.fSendBuf.length = kSendBufferLen + 1 ∧ h'.fGetSocket.connected = true ∧
      h'.fGetSocket.received = h.fGetSocket.received ++
        (arrived got segments k).drop got.length := by
  induction segments generalizing h got k outRcvLen with
  | nil =>
    obtain ⟨pos, hpos, -⟩ := hends.1
    exact absurd (Nat.le_zero.mp hk) (arrived_found hh.fits hnone hpos).1
  | cons segment segments ih =>
    obtain ⟨pos, hpos, hroom⟩ := hends.1
    obtain ⟨hne, hlt⟩ := arrived_found hh.fits hnone hpos
    obtain ⟨k, rfl⟩ := Nat.exists_eq_succ_of_ne_zero hne
    obtain ⟨first, rest, incoming, rfl, hin, hrest⟩ := ready_eq_cons hready
    obtain ⟨fSendBuf, hr, hh', hstrstr, hdata⟩ := hh.receive_segment hconn hin hlt outRcvLen
    have hends' := hends.cons hh.fits
    rw [Nat.succ_eq_add_one, arrived_cons hh.fits] at hpos hroom ⊢
    cases hfound : strstr (got ++ taken got (first :: rest)) blankLine with
    | some pos' =>
      obtain rfl : k = 0 := by
        by_contra hk0
        have := (hends'.2 0 (Nat.pos_of_ne_zero hk0)).1
        rw [arrived_zero hh'.fits, hfound] at this
        cases this
      rw [arrived_zero hh'.fits] at hpos hroom ⊢
      obtain rfl : pos' = pos := Option.some.inj (hfound.symm.trans hpos)
      rw [← List.length_drop] at hroom
      refine ⟨_, _, _, receiveLoop_found hh' hr (hstrstr.trans hfound) hroom, ?_, rfl, rfl, rfl,
        hh'.length, hconn, ?_⟩
      · rw [List.take_left]
        exact after_of_start (cString_start _) hfound rfl
      · rw [List.drop_left]
        rfl
    | none =>
      have hfits : (first :: rest).length ≤ kSendBufferLen - got.length := by
        by_contra hover
        have hfull : (got ++ taken got (first :: rest)).length = kSendBufferLen := by
          rw [List.length_append, taken, List.length_take]
          omega
        rw [arrived_full hfull, hfound] at hpos
        cases hpos
      have hshort : (got ++ taken got (first :: rest)).length < inBuffer.length := by
        have hk0 : k ≠ 0 := (arrived_found hh'.fits hfound hpos).1
        have hone := (hends.2 1 (by omega)).2 Nat.one_pos
        rwa [arrived_cons hh.fits, arrived_zero hh'.fits] at hone
      have hrest' : ready (h.filled got (first :: rest) incoming fSendBuf).fGetSocket.incoming =
          segments := (congrArg ready (left_of_fits hfits)).trans hrest
      obtain ⟨n, inBuffer', h', hloop, hafter, hcount, hsent, hsend, hlen, hconn', hrec⟩ :=
        ih hh' hconn hrest' hfound hends' (by simpa using hk) _
      refine ⟨n, inBuffer', h', ?_, hafter, hcount, hsent, hsend, hlen, hconn', ?_⟩
      · rw [receiveLoop_more hh' hr (hstrstr.trans hfound) hshort hdata]
        exact hloop
      · obtain ⟨more, hmore⟩ := (arrived_start hh'.fits k : _ <+: arrived _ segments k)
        rw [hrec, ← hmore, List.drop_left, List.append_assoc got, List.drop_left]
        exact List.append_assoc ..

/-- Only a connected socket with a segment that is ready brings data. -/
theorem read_ready {s : Socket} {length : Nat} (hdata : (s.read length).data ≠ none) :
    s.connected = true ∧ ready s.incoming ≠ [] := by
  cases hconn : s.connected with
  | false => simp [Socket.read, hconn] at hdata
  | true =>
    rcases hin : s.incoming with _ | ⟨⟨first, rest⟩ | errno | _, incoming⟩
    · simp [Socket.read, hconn, hin] at hdata
    · simp [ready]
    · simp [Socket.read, hconn, hin] at hdata
    · simp [Socket.read, hconn, hin] at hdata

/-- A read that brings no data leaves the buffer empty. -/
theorem Holds.receive_none (hh : Holds h []) {err : OS_Error} {socket : Socket}
    (hread : h.fGetSocket.read (kSendBufferLen - h.fGetReceived) = ⟨err, none, socket⟩) :
    ∃ fSendBuf, h.receive 0 =
        some (err, 0, { h with client.fSendBuf := fSendBuf, fGetSocket := socket }) ∧
      Holds { h with client.fSendBuf := fSendBuf, fGetSocket := socket } [] ∧
      strstr fSendBuf blankLine = none := by
  obtain ⟨hcount, hlength, -, -⟩ := hh
  rw [List.length_nil] at hcount
  obtain ⟨fSendBuf, hzero⟩ := Option.isSome_iff_exists.mp
    (show (write h.client.fSendBuf h.fGetReceived [0]).isSome by
      rw [write_of_le (by rw [List.length_singleton]; omega)]; rfl)
  have hdata : write h.client.fSendBuf h.fGetReceived [] = some h.client.fSendBuf := by
    rw [hcount, write_of_le (Nat.zero_le _)]
    simp
  refine ⟨fSendBuf, ?_, ⟨hcount, (length_write hzero).trans hlength, Nat.zero_le _, rfl⟩, ?_⟩
  · simp only [HTTPClientSocket.receive, hread, Option.map_none, Option.getD_none, hdata,
      Option.bind_some, Nat.add_zero, hzero, Option.map_some]
  · have htake := take_write hzero
    rw [hcount] at htake
    have hstring : cString fSendBuf = cString [] := cString_of_take htake
    rw [strstr, hstring]
    rfl

/-- The first read fails: nothing has changed. -/
theorem receiveLoop_fails (hh : Holds h [])
    (hnone : (h.fGetSocket.read (kSendBufferLen - h.fGetReceived)).data = none)
    (hroom : 0 < inBuffer.length) :
    ∃ theErr h', receiveLoop h inBuffer 0 = some (theErr, 0, inBuffer, h') ∧ theErr ≠ OS_NoErr ∧
      Holds h' [] ∧ h'.client.sendBufferLen = h.client.sendBufferLen ∧
      h'.client.fSentLength = h.client.fSentLength ∧
      h'.fGetSocket.received = h.fGetSocket.received := by
  have hcases := h.fGetSocket.read_cases (kSendBufferLen - h.fGetReceived)
  cases hread : h.fGetSocket.read (kSendBufferLen - h.fGetReceived) with
  | mk err data socket =>
    rw [hread] at hnone hcases
    obtain rfl : data = none := hnone
    obtain ⟨fSendBuf, hr, hh', hempty⟩ := hh.receive_none hread
    rcases hcases with ⟨herr, -, hrec⟩ | ⟨data, -, hsome, -⟩
    · have hloop := receiveLoop_eq hr inBuffer
      have hcount : ¬ inBuffer.length ≤ h.fGetReceived := by
        rw [hh.count]
        exact Nat.not_le.mpr hroom
      simp only [hempty, hcount, herr, gt_iff_lt, Nat.lt_irrefl, if_false] at hloop
      exact ⟨_, _, hloop, herr, ⟨hh'.count, hh'.length, Nat.zero_le _, rfl⟩, rfl, rfl, hrec⟩
    · cases hsome

/-! ## Bringing up the connection -/

/-- The GET is not sent in full, or its answer has not been received. -/
def Handshaking (h : HTTPClientSocket) : Prop :=
  0 < h.client.sendBufferLen ∨ 0 < h.client.fSentLength

/-- What `Connect` and `SendSendBuffer` leave as it is. -/
structure Brought (h h' : HTTPClientSocket) : Prop where
  count : h'.fGetReceived = h.fGetReceived
  length : h'.client.fSendBuf.length = h.client.fSendBuf.length
  input : h.fGetSocket.SameInput h'.fGetSocket
  handshaking : Handshaking h' ↔ Handshaking h

theorem Brought.holds {h h' : HTTPClientSocket} (hb : Brought h h') (hh : Holds h []) :
    Holds h' [] :=
  ⟨hb.count.trans hh.count, hb.length.trans hh.length, Nat.zero_le _, rfl⟩

/-- After the GET is sent, its send buffer is empty. -/
theorem sendGet_spec (h : HTTPClientSocket) (outcome : ConnectOutcome) :
    Brought h (h.sendGet outcome).2 ∧
      ((h.sendGet outcome).1 = OS_NoErr → (h.sendGet outcome).2.client.sendBufferLen = 0) := by
  obtain ⟨-, fEventMask, hclient⟩ := h.client.connect_spec h.fGetSocket outcome
  have hinput := h.client.connect_sameInput h.fGetSocket outcome
  dsimp only [sendGet]
  rw [hclient]
  generalize h.client.connect h.fGetSocket outcome = connected at hclient hinput
  split_ifs with hconn hlen hsent
  · exact ⟨⟨rfl, rfl, hinput, Iff.rfl⟩, fun herr => absurd herr hconn⟩
  · obtain ⟨hin, hrec⟩ :=
      ClientSocket.sendSendBuffer_sameInput { h.client with fEventMask } connected.2.2
    rcases ClientSocket.sendSendBuffer_spec { h.client with fEventMask } connected.2.2
      (Nat.ne_of_gt hlen) with ⟨hok, -⟩ | ⟨-, j, -, hc, -⟩
    · exact absurd hok hsent
    · refine ⟨⟨rfl, ?_, ⟨hin.trans hinput.1, hrec.trans hinput.2⟩, ?_⟩,
        fun herr => absurd herr hsent⟩
      · simp only [hc]
      · simp only [Handshaking, hc]
        exact ⟨fun _ => .inl hlen, fun _ => .inl hlen⟩
  · obtain ⟨hin, hrec⟩ :=
      ClientSocket.sendSendBuffer_sameInput { h.client with fEventMask } connected.2.2
    rcases ClientSocket.sendSendBuffer_spec { h.client with fEventMask } connected.2.2
      (Nat.ne_of_gt hlen) with ⟨-, hc, -⟩ | ⟨hbad, -⟩
    · refine ⟨⟨rfl, ?_, ⟨hin.trans hinput.1, hrec.trans hinput.2⟩, ?_⟩, fun _ => ?_⟩
      · simp only [hc]
      · exact ⟨fun _ => .inl hlen, fun _ => .inr Nat.zero_lt_one⟩
      · simp only [hc]
    · exact absurd hbad hsent
  · exact ⟨⟨rfl, rfl, hinput, Iff.rfl⟩, fun _ => Nat.eq_zero_of_not_pos hlen⟩

/-- Bringing up the connection starts a handshake if the socket was not connected. -/
theorem bringUp_spec (hh : Holds h [])
    (htext : h.fGetSocket.connected = false → h.getText.length ≤ kSendBufferLen)
    (outcome : ConnectOutcome) :
    ∃ theErr h', h.bringUp outcome = some (theErr, h') ∧ Holds h' [] ∧
      h.fGetSocket.SameInput h'.fGetSocket ∧
      (Handshaking h' ↔ h.fGetSocket.connected = false ∨ Handshaking h) ∧
      (theErr = OS_NoErr → h'.client.sendBufferLen = 0) := by
  cases hconn : h.fGetSocket.connected with
  | true =>
    obtain ⟨hb, hsent⟩ := h.sendGet_spec outcome
    refine ⟨_, _, ?_, hb.holds hh, hb.input, ?_, hsent⟩
    · rw [bringUp, hconn]
      rfl
    · simpa using hb.handshaking
  | false =>
    have hroom : 0 + (h.getText ++ [0]).length ≤ h.client.fSendBuf.length := by
      rw [List.length_append, List.length_singleton, hh.length]
      have := htext hconn
      omega
    obtain ⟨fSendBuf, hwrite⟩ := Option.isSome_iff_exists.mp
      (show (write h.client.fSendBuf 0 (h.getText ++ [0])).isSome by rw [write_of_le hroom]; rfl)
    obtain ⟨hb, hsent⟩ := sendGet_spec { h with
      client.fSendBuf := fSendBuf, client.sendBufferLen := h.getText.length } outcome
    have hpos : 0 < h.getText.length := by
      simp only [getText, List.length_append]
      exact Nat.lt_of_lt_of_le (by decide : 0 < (ascii "GET ").length) (by omega)
    refine ⟨_, _, ?_,
      hb.holds ⟨hh.count, (length_write hwrite).trans hh.length, Nat.zero_le _, rfl⟩,
      hb.input, ?_, hsent⟩
    · rw [bringUp, hconn, formatGet, hwrite]
      rfl
    · rw [hb.handshaking]
      simp [Handshaking, hpos]

/-- After the answer to the GET, what is received is handed over. -/
theorem readData_spec (hh : Holds h []) (inBuffer : Bytes) (outRcvLen : Nat) :
    ∃ theErr n inBuffer' h', h.readData inBuffer outRcvLen = some (theErr, n, inBuffer', h') ∧
      Holds h' [] ∧ (Handshaking h' ↔ Handshaking h) ∧
      h'.fGetSocket.received = h.fGetSocket.received ++
        if theErr = OS_NoErr then inBuffer'.take n else [] := by
  obtain ⟨hcount, hlength, -, -⟩ := hh
  rw [List.length_nil] at hcount
  have hcases := h.fGetSocket.read_cases inBuffer.length
  simp only [readData, hcount, Nat.sub_zero]
  generalize h.fGetSocket.read inBuffer.length = r at hcases
  rcases hcases with ⟨herr, hnone, hrec⟩ | ⟨data, herr, hdata, -, hle, hrec⟩
  · refine ⟨r.err, outRcvLen, inBuffer,
      { h with fGetSocket := r.socket, client.fEventMask := EV_RE },
      ?_, ⟨hcount, hlength, Nat.zero_le _, rfl⟩, Iff.rfl, ?_⟩
    · simp [hnone, write_of_le, herr, hcount]
    · rw [if_neg herr, List.append_nil]
      exact hrec
  · obtain ⟨inBuffer', hwrite⟩ := Option.isSome_iff_exists.mp
      (show (write inBuffer 0 data).isSome by rw [write_of_le (by omega)]; rfl)
    have htake := take_write hwrite
    rw [Nat.zero_add, List.take_zero, List.nil_append] at htake
    refine ⟨OS_NoErr, data.length, inBuffer', { h with fGetSocket := r.socket }, ?_,
      ⟨hcount, hlength, Nat.zero_le _, rfl⟩, Iff.rfl, ?_⟩
    · simp [hdata, hwrite, herr, hcount]
    · rw [if_pos rfl, htake]
      exact hrec

/-! ## A call -/

/-- What a call does while the GET is to be sent or its answer to be received: it brings
nothing, or the whole header with what follows it. -/
inductive Progress (h : HTTPClientSocket) (theErr : OS_Error) (out new : Bytes) : Prop
  | blocked (failed : theErr ≠ OS_NoErr) (nothing : new = []) (waits : Handshaking h)
  | answered (ok : theErr = OS_NoErr) (header : after blankLine new = some out)
      (done : ¬ Handshaking h)

/-- What `Read` does once its asserts before the receive loop hold. -/
theorem read_of_bringUp {outcome : ConnectOutcome} {theErr : OS_Error}
    (hopens : h.fGetSocket.bound = true ∨ outcome.openErr = OS_NoErr)
    (hfresh : h.fGetSocket.connected = false → h.client.fSentLength = 0)
    (hbring : h.bringUp outcome = some (theErr, h')) (inBuffer : Bytes) (outRcvLen : Nat) :
    h.read inBuffer outRcvLen outcome =
      if theErr ≠ OS_NoErr then some (theErr, outRcvLen, inBuffer, h')
      else if h'.client.fSentLength > 0 then h'.receiveLoop inBuffer 0
      else h'.readData inBuffer outRcvLen := by
  have hopened : (ClientSocket.openSocket h.fGetSocket outcome).1 = OS_NoErr := by
    unfold ClientSocket.openSocket
    rcases hopens with hbound | hok
    · rw [if_pos hbound]
    · rw [if_neg (not_not.mpr hok)]
      split_ifs <;> rfl
  unfold read
  rw [if_neg fun hboth => hboth.2 (hfresh hboth.1), if_neg (not_not.mpr hopened), hbring,
    Option.bind_some]

theorem receiveLoop_spec (hh : Holds h []) (hshake : Handshaking h)
    (hsent : h.client.sendBufferLen = 0)
    (hanswered : Answered h.fGetSocket.incoming inBuffer.length) :
    ∃ theErr n inBuffer' h' new, receiveLoop h inBuffer 0 = some (theErr, n, inBuffer', h') ∧
      Holds h' [] ∧ h'.fGetSocket.received = h.fGetSocket.received ++ new ∧
      Progress h' theErr (inBuffer'.take n) new := by
  cases hdata : (h.fGetSocket.read (kSendBufferLen - h.fGetReceived)).data with
  | none =>
    obtain ⟨theErr, h', hloop, herr, hh', hlen, hsentLen, hrec⟩ :=
      receiveLoop_fails hh hdata hanswered.1
    refine ⟨theErr, 0, inBuffer, h', [], hloop, hh', by rw [hrec, List.append_nil], ?_⟩
    refine .blocked herr rfl ?_
    rwa [Handshaking, hlen, hsentLen]
  | some data =>
    obtain ⟨hconn, hready⟩ := read_ready (hdata ▸ Option.some_ne_none data)
    obtain ⟨k, hk, hends⟩ := hanswered.2.resolve_left hready
    obtain ⟨n, inBuffer', h', hloop, hafter, hcount, hsentLen, hlen, hbuf, -, hrec⟩ :=
      receiveLoop_ends hh hconn rfl (by decide) hends hk 0
    refine ⟨OS_NoErr, n, inBuffer', h', _, hloop, ⟨hcount, hbuf, Nat.zero_le _, rfl⟩, hrec,
      .answered rfl hafter ?_⟩
    rw [Handshaking, hsentLen, hlen, hsent]
    decide

/-- `Read` makes progress with the handshake, or hands over what it receives. -/
theorem read_spec (hh : Holds h []) (outcome : ConnectOutcome)
    (htext : h.fGetSocket.connected = false →
      h.getText.length ≤ kSendBufferLen ∧ h.client.fSentLength = 0)
    (hopens : h.fGetSocket.bound = true ∨ outcome.openErr = OS_NoErr)
    (inBuffer : Bytes) (outRcvLen : Nat)
    (hanswered : ∀ r ∈ h.bringUp outcome, r.1 = OS_NoErr → 0 < r.2.client.fSentLength →
      Answered h.fGetSocket.incoming inBuffer.length) :
    ∃ theErr n inBuffer' h' new,
      h.read inBuffer outRcvLen outcome = some (theErr, n, inBuffer', h') ∧
      Holds h' [] ∧ h'.fGetSocket.received = h.fGetSocket.received ++ new ∧
      (h.fGetSocket.connected = false ∨ Handshaking h →
        Progress h' theErr (inBuffer'.take n) new) ∧
      (¬ (h.fGetSocket.connected = false ∨ Handshaking h) →
        ¬ Handshaking h' ∧ new = if theErr = OS_NoErr then inBuffer'.take n else []) := by
  obtain ⟨theErr, h₁, hbring, hh₁, ⟨hin, hrec₁⟩, hshake, hsent⟩ :=
    bringUp_spec hh (fun hdown => (htext hdown).1) outcome
  have hread := read_of_bringUp hopens (fun hdown => (htext hdown).2) hbring inBuffer outRcvLen
  cases herr : decide (theErr = OS_NoErr) with
  | false =>
    have herr : theErr ≠ OS_NoErr := by simpa using herr
    refine ⟨theErr, outRcvLen, inBuffer, h₁, [], ?_, hh₁, by rw [hrec₁, List.append_nil], ?_, ?_⟩
    · rw [hread, if_pos herr]
    · exact fun hwait => .blocked herr rfl (hshake.mpr hwait)
    · exact fun hdone => ⟨fun hh => hdone (hshake.mp hh), by rw [if_neg herr]⟩
  | true =>
    have herr : theErr = OS_NoErr := by simpa using herr
    subst herr
    have hlen := hsent rfl
    cases hphase : decide (0 < h₁.client.fSentLength) with
    | true =>
      have hphase : 0 < h₁.client.fSentLength := by simpa using hphase
      have hanswered' : Answered h₁.fGetSocket.incoming inBuffer.length :=
        hin ▸ hanswered _ hbring rfl hphase
      obtain ⟨theErr, n, inBuffer', h', new, hloop, hh', hrec, hprogress⟩ :=
        receiveLoop_spec hh₁ (.inr hphase) hlen hanswered'
      refine ⟨theErr, n, inBuffer', h', new, ?_, hh', by rw [hrec, hrec₁], fun _ => hprogress, ?_⟩
      · rw [hread, if_neg (not_not.mpr rfl), if_pos hphase, hloop]
      · exact fun hdone => absurd (hshake.mp (.inr hphase)) hdone
    | false =>
      have hphase : ¬ 0 < h₁.client.fSentLength := by simpa using hphase
      have hover : ¬ Handshaking h₁ := by
        rw [Handshaking, hlen]
        exact fun hh => hh.elim (absurd · (Nat.lt_irrefl 0)) hphase
      obtain ⟨theErr, n, inBuffer', h', hdata, hh', hshake', hrec⟩ :=
        readData_spec hh₁ inBuffer outRcvLen
      refine ⟨theErr, n, inBuffer', h', _, ?_, hh', by rw [hrec, hrec₁], ?_, ?_⟩
      · rw [hread, if_neg (not_not.mpr rfl), if_neg hphase, hdata]
      · exact fun hwait => absurd (hshake.mpr hwait) hover
      · exact fun _ => ⟨fun hh => hover (hshake'.mp hh), rfl⟩

end HTTPClientSocket

/-! ## Runs -/

namespace HTTPTunnel

open HTTPClientSocket

/-- A client, what has arrived since the GET was brought up, what the callers of `Read`
got since then, and whether the last call returned. -/
structure State where
  socket : HTTPClientSocket
  answer : Bytes := []
  delivered : Bytes := []
  returned : Bool := true
deriving DecidableEq, Repr

/-- A call of `Read`, with what the kernel answers to `connect` and to the sends. -/
structure Action where
  inBuffer : Bytes
  outRcvLen : Nat := 0
  outcome : ConnectOutcome := {}
  outgoing : List SendOutcome := []
deriving DecidableEq, Repr

/-- The state in which a call starts. A new GET starts a new answer. -/
def start (s : State) (a : Action) : State :=
  let s := { s with socket.fGetSocket.outgoing := a.outgoing }
  if s.socket.fGetSocket.connected then s else { s with answer := [], delivered := [] }

/-- A call that does not return leaves no state to go on from. -/
def next (s : State) (a : Action) : Option State :=
  if s.returned then
    let s := start s a
    match s.socket.read a.inBuffer a.outRcvLen a.outcome with
    | none => some { s with returned := false }
    | some (theErr, outRcvLen, inBuffer, socket) =>
      let arrived := socket.fGetSocket.received.drop s.socket.fGetSocket.received.length
      some
        { socket
          answer := s.answer ++ arrived
          delivered := s.delivered ++ if theErr = OS_NoErr then inBuffer.take outRcvLen else [] }
  else none

/-- A client that has not connected yet. -/
def Fresh (s : State) : Prop :=
  s.socket.client = {} ∧ s.socket.fGetReceived = 0 ∧ s.socket.fGetSocket.connected = false ∧
    s.answer = [] ∧ s.delivered = [] ∧ s.returned = true

abbrev system : System State Action := .ofPartial Fresh next

/-- A GET that is to be written fits into the send buffer, and none is half sent; the socket
can be opened; and the header of the answer arrives in one call: a call that comes to receive it
finds nothing of it, or all. -/
def Ok (s : State) (a : Action) : Prop :=
  (s.socket.fGetSocket.connected = false →
      s.socket.getText.length ≤ kSendBufferLen ∧ s.socket.client.fSentLength = 0) ∧
    (s.socket.fGetSocket.bound = true ∨ a.outcome.openErr = OS_NoErr) ∧
    ∀ r ∈ (start s a).socket.bringUp a.outcome, r.1 = OS_NoErr → 0 < r.2.client.fSentLength →
      Answered s.socket.fGetSocket.incoming a.inBuffer.length

instance (s : State) (a : Action) : Decidable (Ok s a) := inferInstanceAs (Decidable (_ ∧ _))

/-- Between two calls the receive buffer is empty. A handshake that is not over has
brought nothing, one that is over has handed over what followed the header. -/
structure Inv (s : State) : Prop where
  returned : s.returned = true
  holds : Holds s.socket []
  delivered : (s.answer = [] ∧ s.delivered = []) ∨ after blankLine s.answer = some s.delivered
  waiting : s.socket.fGetSocket.connected = true → Handshaking s.socket →
    s.answer = [] ∧ s.delivered = []
  done : s.socket.fGetSocket.connected = true → ¬ Handshaking s.socket →
    after blankLine s.answer = some s.delivered

theorem start_socket (s : State) (a : Action) :
    (start s a).socket = { s.socket with fGetSocket.outgoing := a.outgoing } := by
  unfold start
  dsimp only
  split <;> rfl

/-- A call starts with a handshake under way and nothing arrived, or after one. -/
theorem Inv.start {s : State} (hi : Inv s) (a : Action) :
    (s.socket.fGetSocket.connected = false ∨ Handshaking s.socket →
        (start s a).answer = [] ∧ (start s a).delivered = []) ∧
      (¬ (s.socket.fGetSocket.connected = false ∨ Handshaking s.socket) →
        after blankLine (HTTPTunnel.start s a).answer = some (HTTPTunnel.start s a).delivered) := by
  have hwaiting := hi.waiting
  have hdone := hi.done
  cases hconn : s.socket.fGetSocket.connected <;> simp_all [HTTPTunnel.start]

theorem next_inv {s t : State} {a : Action} (hi : Inv s) (hs : next s a = some t) (hok : Ok s a) :
    Inv t := by
  have hsocket := start_socket s a
  obtain ⟨hwaiting, hdone⟩ := hi.start a
  have hholds : Holds (start s a).socket [] := by
    obtain ⟨hcount, hlength, -, -⟩ := hi.holds
    rw [hsocket]
    exact ⟨hcount, hlength, Nat.zero_le _, rfl⟩
  have hincoming : (start s a).socket.fGetSocket.incoming = s.socket.fGetSocket.incoming := by
    rw [hsocket]
  have hconnected : (start s a).socket.fGetSocket.connected = false ∨
      Handshaking (start s a).socket ↔
        s.socket.fGetSocket.connected = false ∨ Handshaking s.socket := by
    rw [hsocket]
    exact Iff.rfl
  obtain ⟨theErr, n, inBuffer, socket, new, hread, hh, hrec, hprogress, hdata⟩ :=
    read_spec hholds a.outcome (by rw [hsocket]; exact hok.1) (by rw [hsocket]; exact hok.2.1)
      a.inBuffer a.outRcvLen (by rw [hincoming]; exact hok.2.2)
  rw [hconnected] at hprogress hdata
  have hdrop : socket.fGetSocket.received.drop (start s a).socket.fGetSocket.received.length =
      new := by
    rw [hrec, List.drop_left]
  simp only [next, hi.returned, if_true, hread, hdrop, Option.some.injEq] at hs
  subst hs
  rcases Classical.em (s.socket.fGetSocket.connected = false ∨ Handshaking s.socket) with
    hwait | hover
  · obtain ⟨hanswer, hdel⟩ := hwaiting hwait
    rcases hprogress hwait with ⟨herr, rfl, hshake⟩ | ⟨herr, hafter, hdone⟩
    · have hnone : (start s a).answer ++ [] = [] ∧ ((start s a).delivered ++
          if theErr = OS_NoErr then inBuffer.take n else []) = [] := by
        simp [hanswer, hdel, herr]
      exact ⟨rfl, hh, .inl hnone, fun _ _ => hnone, fun _ hdone => absurd hshake hdone⟩
    · have hall : after blankLine ((start s a).answer ++ new) = some ((start s a).delivered ++
          if theErr = OS_NoErr then inBuffer.take n else []) := by
        rw [hanswer, hdel, if_pos herr]
        exact hafter
      exact ⟨rfl, hh, .inr hall, fun _ hshake => absurd hshake hdone, fun _ _ => hall⟩
  · obtain ⟨hdone', rfl⟩ := hdata hover
    have hall := after_append (hdone hover) (if theErr = OS_NoErr then inBuffer.take n else [])
    exact ⟨rfl, hh, .inr hall, fun _ hshake => absurd hshake hdone', fun _ _ => hall⟩

/-- The answer of a server that sends a header and five bytes after it, then three more,
in four segments, with failures that would block. -/
def tunnel : State where
  socket :=
    { fURL := ascii "/rtsp"
      fCookie := 7
      fGetSocket :=
        { bound := false
          connected := false
          incoming :=
            [.failed .eagain, .segment 72 (ascii "TTP/1.0 200 OK\r\n\r"), .segment 10 (ascii "ab"),
              .failed .eagain, .segment 99 (ascii "def")] } }

end HTTPTunnel

end CxxFramework.Net
