import CxxFramework.Core.StringParser
import CxxFramework.Http.HTTPPacket
import CxxFramework.Socket.Socket

/-!
# The request stream

`HTTPRequestStream` receives requests into a buffer of 2048 bytes. Behind the header of a
request stand the bytes received with it, `fRetreatBytes` of them not used yet; `Read`
hands them over first, and the next `ReadRequest` moves what is left to the front.

`none` stands for an access outside a buffer. Base64 decoding is left out.
-/

namespace CxxFramework.Net

open CxxFramework.Core Buffer

def E2BIG : CF_Error := 7

/-- `CF_MAX_REQUEST_BUFFER_SIZE` -/
def kRequestBufferSizeInBytes : Nat := 2048

structure HTTPRequestStream where
  fRequestBuffer : Bytes
  fRetreatBytes : Nat := 0
  /-- What `Read` has used of the bytes behind the header. -/
  fRetreatBytesRead : Nat := 0
  /-- The bytes received into the buffer. -/
  fCurOffset : Nat := 0
  /-- `fRequest.Len`; `fRequest.Ptr` is the buffer. -/
  requestLen : Nat := 0
  /-- `fRequestPtr` is set. -/
  complete : Bool := false
  fIsDataPacket : Bool := false
deriving DecidableEq, Repr

namespace HTTPRequestStream

/-- The bytes that `fRequest` denotes. -/
def fRequest (r : HTTPRequestStream) : Bytes := r.fRequestBuffer.take r.requestLen

/-- `GetRequestBuffer`, with the memory behind it. -/
def getRequestBuffer (r : HTTPRequestStream) : Option (Bytes × Bytes) :=
  if r.complete then some (r.fRequest, r.fRequestBuffer.drop r.requestLen) else none

/-- The start of `ReadRequest`: the bytes left from the last request move to the front. -/
def takeLeftover (r : HTTPRequestStream) : Option (Nat × HTTPRequestStream) :=
  if r.complete then
    let source := r.requestLen + r.fRetreatBytesRead
    (if r.fRetreatBytes > 0 ∧ r.requestLen > 0 then
      if source + r.fRetreatBytes ≤ r.fRequestBuffer.length then
        write r.fRequestBuffer 0 (slice r.fRequestBuffer source r.fRetreatBytes)
      else none
    else some r.fRequestBuffer).map fun fRequestBuffer =>
      (r.fRetreatBytes,
        { r with
          fRequestBuffer
          complete := false
          fCurOffset := r.fRetreatBytes
          requestLen := r.fRetreatBytes
          fRetreatBytes := 0
          fRetreatBytesRead := 0 })
  else some (0, r)

/-- What the search for the end of the header finds. -/
inductive Found where
  | incomplete
  | weAreDone (dataRemaining : Nat)
deriving DecidableEq, Repr

/-- The loop over the lines of the header. A blank line ends it, unless its line end may
still be received in full; so does the end of a first line without blanks, if no blank
has been received at all. -/
def findHeaderEnd (fRequest : Bytes) (headerParser : StringParser) (lcount : Nat) : Found :=
  match _hline : headerParser.getThruEOL with
  | (false, _, _) => .incomplete
  | (true, _, afterLine) =>
    match _hend : afterLine.expectEOL with
    | (true, afterEnd) =>
      if afterEnd.getDataParsedLen > 2 ∧ afterEnd.parsed.take 3 = [13, 10, 13] then
        findHeaderEnd fRequest afterEnd (lcount + 1)
      else .weAreDone afterEnd.getDataRemaining
    | (false, afterEnd) =>
      if lcount + 1 = 1 ∧ 32 ∉ fRequest then .weAreDone afterEnd.getDataRemaining
      else findHeaderEnd fRequest afterEnd (lcount + 1)
termination_by headerParser.rest.length
decreasing_by
  · exact (StringParser.expectEOL_lt _hend).trans (StringParser.getThruEOL_lt _hline)
  · exact (StringParser.expectEOL_le _hend).trans_lt (StringParser.getThruEOL_lt _hline)

/-- What stands at the front of the buffer. -/
inductive Content where
  | incomplete
  | dataPacket (interleavedPacketLen : Nat)
  | header (dataRemaining : Nat)
deriving DecidableEq, Repr

/-- An interleaved data packet begins with `$` and has its length in its third and fourth
byte; everything else is a header. -/
def content (r : HTTPRequestStream) : Content :=
  match r.fRequestBuffer with
  | 36 :: _ =>
    if r.requestLen < 4 then .incomplete
    else
      let dataLen := (r.fRequestBuffer.getD 2 0).toNat * 256 + (r.fRequestBuffer.getD 3 0).toNat
      if dataLen + 4 > r.requestLen then .incomplete else .dataPacket (dataLen + 4)
  | _ =>
    let headerParser := StringParser.ofString (some r.fRequest) (r.fRequestBuffer.drop r.requestLen)
    match findHeaderEnd r.fRequest headerParser 0 with
    | .incomplete => .incomplete
    | .weAreDone dataRemaining => .header dataRemaining

/-- The request ends `dataRemaining` bytes before the bytes received. -/
def requestArrived (r : HTTPRequestStream) (dataRemaining : Nat) : HTTPRequestStream :=
  { r with
    requestLen := r.requestLen - dataRemaining
    fRetreatBytes := r.fRetreatBytes + dataRemaining
    complete := true }

/-- The part of the loop of `ReadRequest` that looks at the bytes received: the result,
unless more bytes are needed. An incomplete data packet goes on without a look at the room
left. -/
def examine (r : HTTPRequestStream) : Option CF_Error × HTTPRequestStream :=
  let isPacket := r.fRequestBuffer.head? = some 36
  match r.content with
  | .dataPacket len =>
    (some CF_RequestArrived, { r.requestArrived (r.requestLen - len) with fIsDataPacket := true })
  | .header dataRemaining =>
    (some CF_RequestArrived, { r.requestArrived dataRemaining with fIsDataPacket := false })
  | .incomplete =>
    if isPacket then (none, r)
    else if r.fCurOffset = kRequestBufferSizeInBytes - 1 then
      (some E2BIG, { r with complete := true, fIsDataPacket := false })
    else (none, { r with fIsDataPacket := false })

/-- The part of the loop of `ReadRequest` that gets new data: the bytes a snarfed stream
has left, else what the socket has. An error is the result of `ReadRequest`. -/
def receive (r : HTTPRequestStream) (fSocket : Socket) :
    Option (Except CF_Error HTTPRequestStream × Socket) :=
  if r.fRetreatBytes > 0 then
    some (.ok
      { r with
        fRetreatBytes := 0
        requestLen := r.requestLen + r.fRetreatBytes
        fCurOffset := r.fCurOffset + r.fRetreatBytes }, fSocket)
  else
    let result := fSocket.read (kRequestBufferSizeInBytes - r.fCurOffset - 1)
    if result.err = EAGAIN then some (.error CF_NoErr, result.socket)
    else if result.err ≠ OS_NoErr then some (.error result.err, result.socket)
    else
      let data := result.data.getD []
      (write r.fRequestBuffer r.fCurOffset data).map fun fRequestBuffer =>
        (.ok
          { r with
            fRequestBuffer
            requestLen := r.requestLen + data.length
            fCurOffset := r.fCurOffset + data.length }, result.socket)

/-- New data brings the buffer closer to its end. -/
theorem receive_lt {r r' : HTTPRequestStream} {fSocket fSocket' : Socket}
    (h : r.receive fSocket = some (.ok r', fSocket')) :
    r'.fRetreatBytes + (kRequestBufferSizeInBytes - 1 - r'.fCurOffset) <
      r.fRetreatBytes + (kRequestBufferSizeInBytes - 1 - r.fCurOffset) := by
  unfold receive at h
  dsimp only at h
  split_ifs at h with hleft hagain herr
  · cases h
    dsimp only
    omega
  · cases h
  · cases h
  · obtain ⟨fRequestBuffer, -, heq⟩ := Option.map_eq_some_iff.mp h
    rcases fSocket.read_cases (kRequestBufferSizeInBytes - r.fCurOffset - 1) with
      ⟨hfail, -, -⟩ | ⟨data, -, hdata, hne, hle, -⟩
    · exact absurd hfail herr
    · have hpos := List.length_pos_of_ne_nil hne
      cases heq
      simp only [hdata, Option.getD_some]
      omega

/-- What `examine` leaves as it is. -/
theorem examine_keeps (r : HTTPRequestStream) {r' : HTTPRequestStream}
    (h : r.examine = (none, r')) : r'.fRetreatBytes = r.fRetreatBytes ∧
      r'.fCurOffset = r.fCurOffset ∧ r'.requestLen = r.requestLen := by
  unfold examine at h
  cases hcontent : r.content with
  | incomplete =>
    simp only [hcontent] at h
    split_ifs at h <;> cases h <;> exact ⟨rfl, rfl, rfl⟩
  | dataPacket len => simp [hcontent] at h
  | header dataRemaining => simp [hcontent] at h

/-- The loop of `ReadRequest`, where it needs new data. -/
def readLoop (r : HTTPRequestStream) (fSocket : Socket) :
    Option (CF_Error × HTTPRequestStream × Socket) :=
  match _hreceive : r.receive fSocket with
  | none => none
  | some (.error err, fSocket) => some (err, r, fSocket)
  | some (.ok received, fSocket) =>
    match _hexamine : received.examine with
    | (some err, r) => some (err, r, fSocket)
    | (none, r) => readLoop r fSocket
termination_by r.fRetreatBytes + (kRequestBufferSizeInBytes - 1 - r.fCurOffset)
decreasing_by
  obtain ⟨hretreat, hoffset, -⟩ := examine_keeps _ _hexamine
  rw [hretreat, hoffset]
  exact receive_lt _hreceive

theorem readLoop_error {r : HTTPRequestStream} {fSocket fSocket' : Socket} {err : CF_Error}
    (h : r.receive fSocket = some (.error err, fSocket')) :
    r.readLoop fSocket = some (err, r, fSocket') := by
  rw [readLoop]
  split
  next h' => cases h'.symm.trans h
  next h' =>
    cases h'.symm.trans h
    rfl
  next h' => cases h'.symm.trans h

theorem readLoop_ok {r x : HTTPRequestStream} {fSocket fSocket' : Socket}
    (h : r.receive fSocket = some (.ok x, fSocket')) :
    r.readLoop fSocket =
      match x.examine with
      | (some err, r') => some (err, r', fSocket')
      | (none, r') => r'.readLoop fSocket' := by
  rw [readLoop]
  split
  next h' => cases h'.symm.trans h
  next h' => cases h'.symm.trans h
  next h' =>
    cases h'.symm.trans h
    split
    next hexamine => rw [hexamine]
    next hexamine => rw [hexamine]

/-- `ReadRequest` -/
def readRequest (r : HTTPRequestStream) (fSocket : Socket) :
    Option (CF_Error × HTTPRequestStream × Socket) :=
  r.takeLeftover.bind fun (newOffset, r) =>
    if newOffset = 0 then r.readLoop fSocket
    else
      match r.examine with
      | (some err, r) => some (err, r, fSocket)
      | (none, r) => r.readLoop fSocket

/-- `Read`: the error and the bytes read. -/
def read (r : HTTPRequestStream) (fSocket : Socket) (inBufLen : Nat) :
    Option (CF_Error × Bytes × HTTPRequestStream × Socket) :=
  let theLengthRead := min r.fRetreatBytes inBufLen
  let source := r.requestLen + r.fRetreatBytesRead
  if r.fRetreatBytes > 0 ∧ source + theLengthRead > r.fRequestBuffer.length then none
  else
    let data := slice r.fRequestBuffer source theLengthRead
    let r :=
      { r with
        fRetreatBytes := r.fRetreatBytes - theLengthRead
        fRetreatBytesRead := r.fRetreatBytesRead + theLengthRead }
    if theLengthRead = inBufLen then some (CF_NoErr, data, r, fSocket)
    else
      let result := fSocket.read (inBufLen - theLengthRead)
      some (result.err, data ++ result.data.getD [], r, result.socket)

/-- `SnarfRetreat`: the bytes behind the header of another stream replace what this one
holds. -/
def snarfRetreat (r fromRequest : HTTPRequestStream) : Option HTTPRequestStream :=
  if fromRequest.requestLen + fromRequest.fRetreatBytes ≤ fromRequest.fRequestBuffer.length then
    (write r.fRequestBuffer 0
      (slice fromRequest.fRequestBuffer fromRequest.requestLen fromRequest.fRetreatBytes)).map
        fun fRequestBuffer =>
          { r with
            fRequestBuffer
            complete := false
            fRetreatBytes := fromRequest.fRetreatBytes
            fCurOffset := 0
            requestLen := 0 }
  else none

/-! ## Reading sends nothing -/

theorem receive_wire {r : HTTPRequestStream} {fSocket fSocket' : Socket}
    {result : Except CF_Error HTTPRequestStream}
    (h : r.receive fSocket = some (result, fSocket')) : fSocket'.wire = fSocket.wire := by
  unfold receive at h
  dsimp only at h
  split_ifs at h
  · cases h
    rfl
  · cases h
    exact fSocket.read_wire _
  · cases h
    exact fSocket.read_wire _
  · obtain ⟨fRequestBuffer, -, heq⟩ := Option.map_eq_some_iff.mp h
    cases heq
    exact fSocket.read_wire _

theorem readLoop_wire (r : HTTPRequestStream) (fSocket : Socket)
    {err : CF_Error} {r' : HTTPRequestStream} {fSocket' : Socket}
    (h : r.readLoop fSocket = some (err, r', fSocket')) : fSocket'.wire = fSocket.wire := by
  fun_induction readLoop r fSocket with
  | case1 r fSocket hreceive => simp at h
  | case2 r fSocket err socket hreceive =>
    cases h
    exact receive_wire hreceive
  | case3 r fSocket received socket hreceive err r hexamine =>
    cases h
    exact receive_wire hreceive
  | case4 r fSocket received socket hreceive r hexamine ih =>
    exact (ih h).trans (receive_wire hreceive)

theorem readRequest_wire {r r' : HTTPRequestStream} {fSocket fSocket' : Socket} {err : CF_Error}
    (h : r.readRequest fSocket = some (err, r', fSocket')) : fSocket'.wire = fSocket.wire := by
  obtain ⟨⟨newOffset, taken⟩, -, h⟩ := Option.bind_eq_some_iff.mp h
  dsimp only at h
  split_ifs at h
  · exact readLoop_wire _ _ h
  · cases hexamine : taken.examine with
    | mk result examined =>
      simp only [hexamine] at h
      cases result with
      | none => exact readLoop_wire _ _ h
      | some err =>
        cases h
        rfl

theorem read_wire {r r' : HTTPRequestStream} {fSocket fSocket' : Socket} {inBufLen : Nat}
    {err : CF_Error} {data : Bytes} (h : r.read fSocket inBufLen = some (err, data, r', fSocket')) :
    fSocket'.wire = fSocket.wire := by
  unfold read at h
  dsimp only at h
  split_ifs at h
  · cases h
    rfl
  · cases h
    exact fSocket.read_wire _

end HTTPRequestStream

end CxxFramework.Net
