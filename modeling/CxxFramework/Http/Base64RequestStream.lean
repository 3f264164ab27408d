import CxxFramework.Core.Base64
import CxxFramework.Http.HTTPRequestStream

/-!
# The request stream of a tunnel

`HTTPRequestStream` with decoding on, from its first call on. The characters are received
into `fRequestBuffer`, and `DecodeIncomingData` appends what they stand for to the memory at
`fRequest.Ptr`, which it allocates. Up to three characters, which are no whole group, stay
behind until the next ones are received.

`none` stands for an access outside a buffer.
-/

namespace CxxFramework.Net

open CxxFramework.Core Buffer

structure Base64RequestStream where
  /-- `fRequestBuffer`, where the characters are received. -/
  fRequestBuffer : Bytes
  /-- The other fields. The buffer of this stream is the memory at `fRequest.Ptr`, once that
  is allocated; `fCurOffset` is a position in `fRequestBuffer`. -/
  decoded : HTTPRequestStream
  /-- `fRequest.Ptr` is not `fRequestBuffer`. -/
  allocated : Bool := false
  fEncodedBytesRemaining : Nat := 0
  /-- What `DecodeIncomingData` has appended. -/
  appended : Bytes := []
deriving DecidableEq, Repr

namespace Base64RequestStream

/-- The loop of `DecodeIncomingData`: the error, the memory at `fRequest.Ptr` and
`fRequest.Len`. -/
def decodeLoop (inSrcData : Bytes) (bytesToDecode : Nat) (mem : Bytes)
    (requestLen encodedBytesConsumed : Nat) : Option (CF_Error × Bytes × Nat) :=
  if _hmore : encodedBytesConsumed < bytesToDecode then
    match base64decode (inSrcData.drop encodedBytesConsumed) with
    | none => none
    | some (bytesDecoded, bufplain) =>
      match write mem requestLen bufplain with
      | none => none
      | some mem =>
        if _hzero : bytesDecoded = 0 then some (CF_BadArgument, mem, requestLen)
        else
          decodeLoop inSrcData bytesToDecode mem (requestLen + bytesDecoded)
            (encodedBytesConsumed +
              (bytesDecoded / 3 * 4 + if bytesDecoded % 3 > 0 then 4 else 0))
  else some (CF_NoErr, mem, requestLen)
termination_by bytesToDecode - encodedBytesConsumed
decreasing_by
  split_ifs <;> omega

/-- `DecodeIncomingData`, of `inSrcDataLen` characters at `pos` in `fRequestBuffer`. A NUL
takes the place of the character behind the whole groups meanwhile. -/
def decodeIncomingData (r : Base64RequestStream) (pos inSrcDataLen : Nat) :
    Option (CF_Error × Base64RequestStream) :=
  let requestLen := if r.allocated then r.decoded.requestLen else 0
  let fEncodedBytesRemaining := inSrcDataLen % 4
  let bytesToDecode := inSrcDataLen - fEncodedBytesRemaining
  r.fRequestBuffer[pos + bytesToDecode]?.bind fun endChar =>
    let terminated := r.fRequestBuffer.set (pos + bytesToDecode) 0
    (decodeLoop (terminated.drop pos) bytesToDecode r.decoded.fRequestBuffer requestLen 0).map
      fun (err, mem, len) =>
        (err,
          { fRequestBuffer :=
              if err = CF_NoErr then terminated.set (pos + bytesToDecode) endChar else terminated
            decoded := { r.decoded with fRequestBuffer := mem, requestLen := len }
            allocated := true
            fEncodedBytesRemaining
            appended := r.appended ++ slice mem requestLen (len - requestLen) })

/-- Decoding `newOffset` new characters, with those that were left. -/
def decodeNewData (r : Base64RequestStream) (newOffset : Nat) : Option Base64RequestStream :=
  if r.decoded.fCurOffset < r.fEncodedBytesRemaining then none
  else
    (r.decodeIncomingData (r.decoded.fCurOffset - r.fEncodedBytesRemaining)
      (newOffset + r.fEncodedBytesRemaining)).map fun (_, r) =>
        { r with decoded.fCurOffset := r.decoded.fCurOffset + newOffset }

/-- The start of `ReadRequest`: the bytes left from the last request move to the front, and
the characters left to their end in `fRequestBuffer`. -/
def takeLeftover (r : Base64RequestStream) : Option (Nat × Base64RequestStream) :=
  r.decoded.takeLeftover.bind fun (newOffset, decoded) =>
    if r.decoded.complete ∧ r.fEncodedBytesRemaining > 0 then
      let source := r.decoded.fCurOffset - r.fEncodedBytesRemaining
      if r.fEncodedBytesRemaining ≤ r.decoded.fCurOffset ∧
          r.decoded.fCurOffset ≤ r.fRequestBuffer.length then
        (write r.fRequestBuffer newOffset
          (slice r.fRequestBuffer source r.fEncodedBytesRemaining)).map fun fRequestBuffer =>
            (newOffset,
              { r with
                fRequestBuffer
                decoded :=
                  { decoded with fCurOffset := newOffset + r.fEncodedBytesRemaining } })
      else none
    else some (newOffset, { r with decoded })

/-- The part of the loop of `ReadRequest` that gets new data. -/
def receive (r : Base64RequestStream) (fSocket : Socket) :
    Option (Except CF_Error Base64RequestStream × Socket) :=
  if r.decoded.fRetreatBytes > 0 then
    ({ r with decoded.fRetreatBytes := 0 } : Base64RequestStream).decodeNewData
      r.decoded.fRetreatBytes |>.map fun r => (.ok r, fSocket)
  else
    let result := fSocket.read (kRequestBufferSizeInBytes - r.decoded.fCurOffset - 1)
    if result.err = EAGAIN then some (.error CF_NoErr, result.socket)
    else if result.err ≠ OS_NoErr then some (.error result.err, result.socket)
    else
      let data := result.data.getD []
      (write r.fRequestBuffer r.decoded.fCurOffset data).bind fun fRequestBuffer =>
        ({ r with fRequestBuffer }.decodeNewData data.length).map fun r =>
          (.ok r, result.socket)

/-- What decoding leaves as it is. -/
theorem decodeIncomingData_keeps {r r' : Base64RequestStream} {pos inSrcDataLen : Nat}
    {err : CF_Error} (h : r.decodeIncomingData pos inSrcDataLen = some (err, r')) :
    r'.decoded.fCurOffset = r.decoded.fCurOffset ∧
      r'.decoded.fRetreatBytes = r.decoded.fRetreatBytes := by
  obtain ⟨endChar, -, h⟩ := Option.bind_eq_some_iff.mp h
  obtain ⟨⟨err, mem, len⟩, -, h⟩ := Option.map_eq_some_iff.mp h
  cases h
  exact ⟨rfl, rfl⟩

theorem decodeNewData_keeps {r r' : Base64RequestStream} {newOffset : Nat}
    (h : r.decodeNewData newOffset = some r') :
    r'.decoded.fCurOffset = r.decoded.fCurOffset + newOffset ∧
      r'.decoded.fRetreatBytes = r.decoded.fRetreatBytes := by
  unfold decodeNewData at h
  split_ifs at h
  obtain ⟨⟨err, decoded⟩, hdecode, h⟩ := Option.map_eq_some_iff.mp h
  cases h
  obtain ⟨hoffset, hretreat⟩ := decodeIncomingData_keeps hdecode
  exact ⟨congrArg (· + newOffset) hoffset, hretreat⟩

/-- New data brings the buffer closer to its end. -/
theorem receive_lt {r r' : Base64RequestStream} {fSocket fSocket' : Socket}
    (h : r.receive fSocket = some (.ok r', fSocket')) :
    r'.decoded.fRetreatBytes + (kRequestBufferSizeInBytes - 1 - r'.decoded.fCurOffset) <
      r.decoded.fRetreatBytes + (kRequestBufferSizeInBytes - 1 - r.decoded.fCurOffset) := by
  unfold receive at h
  dsimp only at h
  split_ifs at h with hleft hagain herr
  · obtain ⟨decoded, hdecode, h⟩ := Option.map_eq_some_iff.mp h
    cases h
    obtain ⟨hoffset, hretreat⟩ := decodeNewData_keeps hdecode
    simp only at hoffset hretreat
    omega
  · cases h
  · cases h
  · obtain ⟨fRequestBuffer, -, h⟩ := Option.bind_eq_some_iff.mp h
    obtain ⟨decoded, hdecode, h⟩ := Option.map_eq_some_iff.mp h
    cases h
    obtain ⟨hoffset, hretreat⟩ := decodeNewData_keeps hdecode
    rcases fSocket.read_cases (kRequestBufferSizeInBytes - r.decoded.fCurOffset - 1) with
      ⟨hfail, -, -⟩ | ⟨data, -, hdata, hne, hle, -⟩
    · exact absurd hfail herr
    · have hpos := List.length_pos_of_ne_nil hne
      simp only [hdata, Option.getD_some] at hoffset hretreat
      omega

/-- The loop of `ReadRequest`, where it needs new data. -/
def readLoop (r : Base64RequestStream) (fSocket : Socket) :
    Option (CF_Error × Base64RequestStream × Socket) :=
  match _hreceive : r.receive fSocket with
  | none => none
  | some (.error err, fSocket) => some (err, r, fSocket)
  | some (.ok received, fSocket) =>
    match _hexamine : received.decoded.examine with
    | (some err, decoded) => some (err, { received with decoded }, fSocket)
    | (none, decoded) => readLoop { received with decoded } fSocket
termination_by r.decoded.fRetreatBytes +
  (kRequestBufferSizeInBytes - 1 - r.decoded.fCurOffset)
decreasing_by
  obtain ⟨hretreat, hoffset, -⟩ := HTTPRequestStream.examine_keeps _ _hexamine
  rw [hretreat, hoffset]
  exact receive_lt _hreceive

/-- `ReadRequest` -/
def readRequest (r : Base64RequestStream) (fSocket : Socket) :
    Option (CF_Error × Base64RequestStream × Socket) :=
  r.takeLeftover.bind fun (newOffset, r) =>
    if newOffset = 0 then r.readLoop fSocket
    else
      match r.decoded.examine with
      | (some err, decoded) => some (err, { r with decoded }, fSocket)
      | (none, decoded) => ({ r with decoded } : Base64RequestStream).readLoop fSocket

end Base64RequestStream

end CxxFramework.Net
