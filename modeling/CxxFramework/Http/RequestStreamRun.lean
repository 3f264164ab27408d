import CxxFramework.Http.HTTPRequestStream
import CxxFramework.Library.Transition

/-!
# The request stream over any run

A run of `ReadRequest` and `Read` on one stream, over a socket that hands over the bytes in
any pieces. The packets made available and the bytes read, in the order of the calls, and
then the bytes the stream still holds, are the bytes received.

## Main definitions

* `HTTPRequestStream.held` — the bytes received that are not handed over yet.
* `HTTPRequestStream.Examines` — the streams that a `ReadRequest` looks at.
* `HTTPRequestStream.Conserved` — nothing is lost, and no access leaves the buffer.
-/

namespace CxxFramework.Net

open CxxFramework.Core Buffer Transition

namespace HTTPRequestStream

/-- The bytes received that were not handed over: what stands behind the header of a
complete request, or else the start of the next request. -/
def held (r : HTTPRequestStream) : Bytes :=
  if r.complete then slice r.fRequestBuffer (r.requestLen + r.fRetreatBytesRead) r.fRetreatBytes
  else r.fRequest

/-- The packet that a `ReadRequest` with this result makes available. -/
def madeAvailable (err : CF_Error) (r : HTTPRequestStream) : Bytes :=
  if (err = CF_RequestArrived ∨ err = E2BIG) ∧ r.complete then r.fRequest else []

/-- The loop of `ReadRequest` looks at a stream after it has received new data. -/
inductive LoopExamines : HTTPRequestStream → Socket → HTTPRequestStream → Prop
  | here {r x fSocket fSocket'} : r.receive fSocket = some (.ok x, fSocket') →
      LoopExamines r fSocket x
  | next {r x r' y fSocket fSocket'} : r.receive fSocket = some (.ok x, fSocket') →
      x.examine = (none, r') → LoopExamines r' fSocket' y → LoopExamines r fSocket y

/-- `ReadRequest` looks at the bytes left from the last request, and then at those its loop
receives. -/
inductive Examines (r : HTTPRequestStream) (fSocket : Socket) (x : HTTPRequestStream) : Prop
  | leftover {newOffset} : r.takeLeftover = some (newOffset, x) → newOffset ≠ 0 →
      Examines r fSocket x
  | first {newOffset r'} : r.takeLeftover = some (newOffset, r') → newOffset = 0 →
      LoopExamines r' fSocket x → Examines r fSocket x
  | later {newOffset r' r''} : r.takeLeftover = some (newOffset, r') → newOffset ≠ 0 →
      r'.examine = (none, r'') → LoopExamines r'' fSocket x → Examines r fSocket x

/-! ## Runs -/

/-- A stream, its socket, and what the calls have handed over. -/
structure State where
  stream : HTTPRequestStream
  fSocket : Socket := {}
  delivered : Bytes := []
deriving DecidableEq, Repr

inductive Action where
  | readRequest
  | read (inBufLen : Nat)
deriving DecidableEq, Repr

/-- One call. -/
def next (s : State) : Action → Option State
  | .readRequest => (s.stream.readRequest s.fSocket).map fun (err, stream, fSocket) =>
    { stream, fSocket, delivered := s.delivered ++ madeAvailable err stream }
  | .read inBufLen => (s.stream.read s.fSocket inBufLen).map fun (_, data, stream, fSocket) =>
    { stream, fSocket, delivered := s.delivered ++ data }

/-- A new stream, over a socket that has received nothing. -/
def Fresh (s : State) : Prop :=
  s.stream = { fRequestBuffer := s.stream.fRequestBuffer } ∧
    s.stream.fRequestBuffer.length = kRequestBufferSizeInBytes ∧ s.fSocket.received = [] ∧
    s.delivered = []

/-- Calls on a stream, until one of them fails. -/
abbrev system : System (Option State) Action :=
  .ofPartial (fun state => ∃ s, state = some s ∧ Fresh s) fun state a =>
    some (state.bind fun s => next s a)

/-- `Read` is called between complete messages: not while a part of one is held. -/
def Between : Option State → Action → Prop
  | some s, .read _ => s.stream.complete = true ∨ s.stream.fCurOffset = 0
  | _, _ => True

/-- The call does not leave the buffer, nor does the search for the end of the header, which
looks at most one byte behind the bytes received; and what is handed over and what is held
make up what was received. -/
def Conserved : Option State → Action → Option State → Prop
  | some s, a, some t =>
    (a = .readRequest → ∀ x, Examines s.stream s.fSocket x →
      x.requestLen < x.fRequestBuffer.length) ∧
    t.delivered ++ t.stream.held = t.fSocket.received
  | _, _, _ => False

/-! ## The invariant -/

/-- All bytes received into the buffer belong to the request, or to what stands behind it; a
part of a request has nothing behind it. -/
structure Inv (r : HTTPRequestStream) : Prop where
  size : r.fRequestBuffer.length = kRequestBufferSizeInBytes
  total : r.requestLen + r.fRetreatBytesRead + r.fRetreatBytes ≤ kRequestBufferSizeInBytes - 1
  nonempty : r.complete = true → 0 < r.requestLen
  whole : r.complete = false →
    r.fRetreatBytes = 0 ∧ r.fRetreatBytesRead = 0 ∧ r.fCurOffset = r.requestLen

variable {r r' x : HTTPRequestStream} {fSocket fSocket' : Socket} {err : CF_Error}

theorem Inv.held_of_incomplete (h : r.complete = false) : r.held = r.fRequest := by
  simp [held, h]

theorem Inv.inBounds (hi : Inv r) : r.requestLen < r.fRequestBuffer.length := by
  have htotal := hi.total
  have hsize := hi.size
  unfold kRequestBufferSizeInBytes at *
  omega

theorem Inv.length_fRequest (hi : Inv r) : r.fRequest.length = r.requestLen :=
  List.length_take_of_le hi.inBounds.le

theorem Inv.length_held (hi : Inv r) (hcomplete : r.complete = true) :
    r.held.length = r.fRetreatBytes := by
  have hsize := hi.size
  have htotal := hi.total
  rw [held, if_pos hcomplete, length_slice]
  unfold kRequestBufferSizeInBytes at *
  omega

theorem newOffset_of_takeLeftover {newOffset : Nat} (h : r.takeLeftover = some (newOffset, r'))
    (hcomplete : r.complete = true) : newOffset = r.fRetreatBytes := by
  rw [HTTPRequestStream.takeLeftover, if_pos hcomplete] at h
  obtain ⟨mem, -, heq⟩ := Option.map_eq_some_iff.mp h
  exact (congrArg Prod.fst heq).symm

/-- The bytes left from the last request are moved, and not changed. -/
theorem takeLeftover_spec (hi : Inv r) :
    ∃ newOffset r', r.takeLeftover = some (newOffset, r') ∧ Inv r' ∧ r'.complete = false ∧
      r'.held = r.held ∧ (newOffset ≠ 0 → 0 < r'.requestLen) := by
  have hsize := hi.size
  have htotal := hi.total
  unfold kRequestBufferSizeInBytes at hsize htotal
  unfold takeLeftover
  by_cases hcomplete : r.complete = true
  · have hnonempty := hi.nonempty hcomplete
    have hheld : r.held = slice r.fRequestBuffer (r.requestLen + r.fRetreatBytesRead)
        r.fRetreatBytes := by simp [held, hcomplete]
    rw [if_pos hcomplete]
    by_cases hleft : r.fRetreatBytes > 0
    · have hlen := length_slice r.fRequestBuffer (r.requestLen + r.fRetreatBytesRead)
        r.fRetreatBytes
      rw [min_eq_left (by omega)] at hlen
      obtain ⟨mem, hwrite⟩ : ∃ mem, write r.fRequestBuffer 0
          (slice r.fRequestBuffer (r.requestLen + r.fRetreatBytesRead) r.fRetreatBytes) =
            some mem := ⟨_, write_of_le (by omega)⟩
      simp only [if_pos (And.intro hleft hnonempty), if_pos (show r.requestLen +
        r.fRetreatBytesRead + r.fRetreatBytes ≤ r.fRequestBuffer.length by omega), hwrite,
        Option.map_some]
      refine ⟨_, _, rfl, ⟨?_, ?_, nofun, fun _ => ⟨rfl, rfl, rfl⟩⟩, rfl, ?_, fun _ => hleft⟩
      · exact (length_write hwrite).trans hi.size
      · simp only [kRequestBufferSizeInBytes]
        omega
      · rw [hheld, Inv.held_of_incomplete rfl, fRequest]
        have htake := take_write hwrite
        rw [hlen, Nat.zero_add, List.take_zero, List.nil_append] at htake
        exact htake
    · have hzero : r.fRetreatBytes = 0 := by omega
      simp only [if_neg (show ¬ (r.fRetreatBytes > 0 ∧ r.requestLen > 0) from fun h => hleft h.1),
        Option.map_some]
      refine ⟨_, _, rfl, ⟨hi.size, ?_, nofun, fun _ => ⟨rfl, rfl, rfl⟩⟩, rfl, ?_,
        fun hne => absurd hzero hne⟩
      · simp only [kRequestBufferSizeInBytes]
        omega
      · rw [hheld, Inv.held_of_incomplete rfl, fRequest, hzero]
        simp [slice]
  · have hfalse : r.complete = false := by simpa using hcomplete
    rw [if_neg hcomplete]
    exact ⟨0, r, rfl, hi, hfalse, rfl, fun hne => absurd rfl hne⟩

/-- The search for the end of the header passes a line end before it finds one. -/
theorem findHeaderEnd_lt {fRequest : Bytes} {headerParser : StringParser} {lcount n : Nat}
    (h : findHeaderEnd fRequest headerParser lcount = .weAreDone n) :
    n < headerParser.rest.length := by
  fun_induction findHeaderEnd fRequest headerParser lcount with
  | case1 => cases h
  | case2 parser lcount line afterLine hline afterEnd hend hmore ih =>
    have hlt := StringParser.getThruEOL_lt hline
    have hlt' := StringParser.expectEOL_lt hend
    have := ih h
    omega
  | case3 parser lcount line afterLine hline afterEnd hend hmore =>
    have hlt := StringParser.getThruEOL_lt hline
    have hlt' := StringParser.expectEOL_lt hend
    cases h
    unfold StringParser.getDataRemaining
    omega
  | case4 parser lcount line afterLine hline afterEnd hend hpassword =>
    have hlt := StringParser.getThruEOL_lt hline
    have hle := StringParser.expectEOL_le hend
    cases h
    unfold StringParser.getDataRemaining
    omega
  | case5 parser lcount line afterLine hline afterEnd hend hpassword ih =>
    have hlt := StringParser.getThruEOL_lt hline
    have hle := StringParser.expectEOL_le hend
    have := ih h
    omega

/-- A message that is found is not empty and inside the bytes received. -/
theorem content_le (r : HTTPRequestStream) :
    (∀ len, r.content = .dataPacket len → 0 < len ∧ len ≤ r.requestLen) ∧
      ∀ n, r.content = .header n → n < r.requestLen := by
  unfold content
  constructor
  · intro len h
    split at h
    · dsimp only at h
      split_ifs at h
      cases h
      omega
    · dsimp only at h
      split at h <;> cases h
  · intro n h
    split at h
    · dsimp only at h
      split_ifs at h
    · dsimp only at h
      split at h
      next => cases h
      next dataRemaining hfound =>
        cases h
        have hlt := findHeaderEnd_lt hfound
        have hle : r.fRequest.length ≤ r.requestLen := List.length_take_le _ _
        exact hlt.trans_le hle

/-- What one look at the bytes received can do: it finds a message, or hands over a full
buffer, or goes on. -/
theorem examine_cases (r : HTTPRequestStream) :
    (∃ n fIsDataPacket, n < r.requestLen ∧
        r.examine = (some CF_RequestArrived, { r.requestArrived n with fIsDataPacket })) ∨
      (r.fCurOffset = kRequestBufferSizeInBytes - 1 ∧
        r.examine = (some E2BIG, { r with complete := true, fIsDataPacket := false })) ∨
      ∃ fIsDataPacket, r.examine = (none, { r with fIsDataPacket }) := by
  obtain ⟨hpacket, hheader⟩ := content_le r
  unfold examine
  cases hcontent : r.content with
  | dataPacket len =>
    obtain ⟨hlen, hle⟩ := hpacket len hcontent
    exact .inl ⟨_, true, Nat.sub_lt (hlen.trans_le hle) hlen, rfl⟩
  | header n => exact .inl ⟨n, false, hheader n hcontent, rfl⟩
  | incomplete =>
    dsimp only
    split_ifs with hdollar hfull
    · exact .inr (.inr ⟨_, rfl⟩)
    · exact .inr (.inl ⟨hfull, rfl⟩)
    · exact .inr (.inr ⟨_, rfl⟩)

/-- A complete message is the start of the bytes received, and what is behind it is held. -/
theorem fRequest_append_held (hcomplete : r.complete = false) (hretreat : r.fRetreatBytes = 0)
    (hread : r.fRetreatBytesRead = 0) {n : Nat} (hn : n ≤ r.requestLen) (fIsDataPacket : Bool) :
    HTTPRequestStream.fRequest { r.requestArrived n with fIsDataPacket } ++
      held { r.requestArrived n with fIsDataPacket } = r.held := by
  have hslice := slice_add r.fRequestBuffer 0 (r.requestLen - n) n
  simp only [held, requestArrived, if_true, HTTPRequestStream.fRequest, hretreat, hread,
    hcomplete, Bool.false_eq_true, if_false, Nat.zero_add, Nat.add_zero] at hslice ⊢
  rw [Nat.sub_add_cancel hn] at hslice
  exact hslice.symm

/-- The first `n` bytes behind the request count as used. -/
theorem held_used (hcomplete : r.complete = true) {n : Nat} (hn : n ≤ r.fRetreatBytes) :
    slice r.fRequestBuffer (r.requestLen + r.fRetreatBytesRead) n ++
        held { r with
          fRetreatBytes := r.fRetreatBytes - n
          fRetreatBytesRead := r.fRetreatBytesRead + n } = r.held := by
  simp only [held, hcomplete, if_true, ← Nat.add_assoc]
  exact (slice_split r.fRequestBuffer (r.requestLen + r.fRetreatBytesRead) hn).symm

/-- A full buffer is handed over as a whole. -/
theorem fRequest_append_held_of_full (hcomplete : r.complete = false)
    (hretreat : r.fRetreatBytes = 0) (fIsDataPacket : Bool) :
    HTTPRequestStream.fRequest { r with complete := true, fIsDataPacket } ++
      held { r with complete := true, fIsDataPacket } = r.held := by
  simp [held, HTTPRequestStream.fRequest, hretreat, hcomplete, slice]

theorem requestArrived_spec (hi : Inv r) (hcomplete : r.complete = false) {n : Nat}
    (hn : n < r.requestLen) (fIsDataPacket : Bool) :
    Inv { r.requestArrived n with fIsDataPacket } ∧
      HTTPRequestStream.fRequest { r.requestArrived n with fIsDataPacket } ++
        held { r.requestArrived n with fIsDataPacket } = r.held := by
  obtain ⟨hretreat, hread, hoffset⟩ := hi.whole hcomplete
  have htotal := hi.total
  refine ⟨⟨hi.size, ?_, fun _ => ?_, nofun⟩,
    fRequest_append_held hcomplete hretreat hread hn.le fIsDataPacket⟩
  · simp only [requestArrived]
    omega
  · simp only [requestArrived]
    omega

/-- `examine` hands over the start of what is held, if it hands over anything. -/
theorem examine_spec (hi : Inv r) (hcomplete : r.complete = false) (hpos : 0 < r.requestLen) :
    (∃ err r', r.examine = (some err, r') ∧ Inv r' ∧ r'.complete = true ∧
        (err = CF_RequestArrived ∨ err = E2BIG) ∧ r'.fRequest ++ r'.held = r.held) ∨
      ∃ r', r.examine = (none, r') ∧ Inv r' ∧ r'.complete = false ∧ r'.held = r.held := by
  obtain ⟨hretreat, -, -⟩ := hi.whole hcomplete
  rcases examine_cases r with
    ⟨n, fIsDataPacket, hn, hexamine⟩ | ⟨-, hexamine⟩ | ⟨fIsDataPacket, hexamine⟩
  · obtain ⟨hi', hsplit⟩ := requestArrived_spec hi hcomplete hn fIsDataPacket
    exact .inl ⟨_, _, hexamine, hi', rfl, .inl rfl, hsplit⟩
  · exact .inl ⟨_, _, hexamine, ⟨hi.size, hi.total, fun _ => hpos, nofun⟩, rfl, .inr rfl,
      fRequest_append_held_of_full hcomplete hretreat false⟩
  · exact .inr ⟨_, hexamine, ⟨hi.size, hi.total, hi.nonempty, hi.whole⟩, hcomplete, rfl⟩

/-- Bytes that are put behind what is held belong to it. -/
theorem Inv.received (hi : Inv r) (hcomplete : r.complete = false) {data mem : Bytes}
    (hwrite : write r.fRequestBuffer r.fCurOffset data = some mem) (hne : data ≠ [])
    (hle : data.length ≤ kRequestBufferSizeInBytes - r.fCurOffset - 1) :
    Inv
        { r with
          fRequestBuffer := mem
          requestLen := r.requestLen + data.length
          fCurOffset := r.fCurOffset + data.length } ∧
      0 < r.requestLen + data.length ∧
      held
        { r with
          fRequestBuffer := mem
          requestLen := r.requestLen + data.length
          fCurOffset := r.fCurOffset + data.length } = r.held ++ data := by
  obtain ⟨hretreat, hreadzero, hoffset⟩ := hi.whole hcomplete
  have htotal := hi.total
  have hpos := List.length_pos_of_ne_nil hne
  have htake := take_write hwrite
  refine ⟨⟨(length_write hwrite).trans hi.size, ?_, ?_, ?_⟩, Nat.add_pos_right _ hpos, ?_⟩
  · simp only
    omega
  · exact fun hbad => absurd hbad (by simp [hcomplete])
  · exact fun _ => ⟨hretreat, hreadzero, by simp only; omega⟩
  · simp only [held, hcomplete, Bool.false_eq_true, if_false, HTTPRequestStream.fRequest]
    rw [hoffset] at htake
    exact htake

/-- What the socket hands over is put behind what is held. -/
theorem receive_data (fSocket : Socket) (hi : Inv r) (hcomplete : r.complete = false) {data : Bytes}
    (hgood : (fSocket.read (kRequestBufferSizeInBytes - r.fCurOffset - 1)).err = OS_NoErr)
    (hdata : (fSocket.read (kRequestBufferSizeInBytes - r.fCurOffset - 1)).data = some data)
    (hne : data ≠ []) (hle : data.length ≤ kRequestBufferSizeInBytes - r.fCurOffset - 1) :
    ∃ x, r.receive fSocket =
        some (.ok x, (fSocket.read (kRequestBufferSizeInBytes - r.fCurOffset - 1)).socket) ∧
      Inv x ∧ x.complete = false ∧ 0 < x.requestLen ∧ x.held = r.held ++ data := by
  obtain ⟨hretreat, -, -⟩ := hi.whole hcomplete
  have hsize := hi.size
  have hpos := List.length_pos_of_ne_nil hne
  have hnot : ¬ (fSocket.read (kRequestBufferSizeInBytes - r.fCurOffset - 1)).err = EAGAIN := by
    rw [hgood]
    decide
  obtain ⟨mem, hwrite⟩ : ∃ mem, write r.fRequestBuffer r.fCurOffset data = some mem :=
    ⟨_, write_of_le (by omega)⟩
  obtain ⟨hix, hlen, hheld⟩ := hi.received hcomplete hwrite hne hle
  unfold receive
  rw [if_neg (by omega)]
  dsimp only
  rw [if_neg hnot, if_neg (not_not.mpr hgood), hdata, Option.getD_some, hwrite, Option.map_some]
  exact ⟨_, rfl, hix, hcomplete, hlen, hheld⟩

/-- An error of the socket is the result, but for one that says to try again. -/
theorem receive_failed (fSocket : Socket) (hi : Inv r) (hcomplete : r.complete = false)
    (hbad : (fSocket.read (kRequestBufferSizeInBytes - r.fCurOffset - 1)).err ≠ OS_NoErr) :
    r.receive fSocket =
      some (.error
        (if (fSocket.read (kRequestBufferSizeInBytes - r.fCurOffset - 1)).err = EAGAIN then CF_NoErr
        else (fSocket.read (kRequestBufferSizeInBytes - r.fCurOffset - 1)).err),
        (fSocket.read (kRequestBufferSizeInBytes - r.fCurOffset - 1)).socket) := by
  obtain ⟨hretreat, -, -⟩ := hi.whole hcomplete
  unfold receive
  rw [if_neg (by omega)]
  dsimp only
  split_ifs <;> rfl

/-- What is received is put behind what is held. -/
theorem receive_spec (hi : Inv r) (hcomplete : r.complete = false) (fSocket : Socket) :
    (∃ err fSocket', r.receive fSocket = some (.error err, fSocket') ∧
        fSocket'.received = fSocket.received) ∨
      ∃ x fSocket' data, r.receive fSocket = some (.ok x, fSocket') ∧ Inv x ∧
        x.complete = false ∧ 0 < x.requestLen ∧ x.held = r.held ++ data ∧
        fSocket'.received = fSocket.received ++ data := by
  rcases fSocket.read_cases (kRequestBufferSizeInBytes - r.fCurOffset - 1) with
    ⟨hbad, -, hreceived⟩ | ⟨data, hgood, hdata, hne, hle, hreceived⟩
  · exact .inl ⟨_, _, receive_failed fSocket hi hcomplete hbad, hreceived⟩
  · obtain ⟨x, hreceive, hix, hcx, hpos, hheld⟩ :=
      receive_data fSocket hi hcomplete hgood hdata hne hle
    exact .inr ⟨x, _, data, hreceive, hix, hcx, hpos, hheld, hreceived⟩

/-- The bytes that a call receives, hands over and leaves held. -/
structure Passed (r : HTTPRequestStream) (fSocket : Socket) (out : Bytes)
    (r' : HTTPRequestStream) (fSocket' : Socket) : Prop where
  inv : Inv r'
  conserved : ∃ data, fSocket'.received = fSocket.received ++ data ∧
    out ++ r'.held = r.held ++ data

/-- What happens before a call is handed on to it. -/
theorem Passed.after {x : HTTPRequestStream} {out data : Bytes}
    {fSocket₁ : Socket} (h : Passed x fSocket₁ out r' fSocket')
    (hheld : x.held = r.held ++ data) (hreceived : fSocket₁.received = fSocket.received ++ data) :
    Passed r fSocket out r' fSocket' where
  inv := h.inv
  conserved := by
    obtain ⟨more, hmore, hout⟩ := h.conserved
    refine ⟨data ++ more, ?_, ?_⟩
    · rw [hmore, hreceived, List.append_assoc]
    · rw [hout, hheld, List.append_assoc]

/-- A result of `examine` makes the message available. -/
theorem passed_of_examine (hi : Inv r') (hcomplete : r'.complete = true)
    (herr : err = CF_RequestArrived ∨ err = E2BIG) (hsplit : r'.fRequest ++ r'.held = r.held) :
    Passed r fSocket (madeAvailable err r') r' fSocket where
  inv := hi
  conserved := by
    refine ⟨[], (List.append_nil _).symm, ?_⟩
    rw [madeAvailable, if_pos ⟨herr, hcomplete⟩, hsplit, List.append_nil]

/-- The loop of `ReadRequest`, by induction on its rounds. -/
theorem readLoop_spec (hi : Inv r) (hcomplete : r.complete = false) (fSocket : Socket) :
    ∃ err r' fSocket', r.readLoop fSocket = some (err, r', fSocket') ∧
      Passed r fSocket (madeAvailable err r') r' fSocket' := by
  fun_induction readLoop r fSocket with
  | case1 r fSocket hreceive =>
    rcases receive_spec hi hcomplete fSocket with ⟨err, socket, h, -⟩ | ⟨x, socket, data, h, -⟩ <;>
      cases hreceive.symm.trans h
  | case2 r fSocket err socket hreceive =>
    rcases receive_spec hi hcomplete fSocket with
      ⟨err, socket, h, hreceived⟩ | ⟨x, socket, data, h, -⟩
    · cases hreceive.symm.trans h
      refine ⟨_, _, _, rfl, hi, [], by rw [hreceived, List.append_nil], ?_⟩
      simp [madeAvailable, hcomplete]
    · cases hreceive.symm.trans h
  | case3 r fSocket received socket hreceive err r' hexamine =>
    rcases receive_spec hi hcomplete fSocket with
      ⟨err, socket, h, -⟩ | ⟨x, socket, data, h, hix, hcx, hpos, hheld, hreceived⟩
    · cases hreceive.symm.trans h
    · cases hreceive.symm.trans h
      rcases examine_spec hix hcx hpos with ⟨err, r', h, hi', hc', herr, hsplit⟩ | ⟨r', h, -⟩
      · cases hexamine.symm.trans h
        exact ⟨_, _, _, rfl, (passed_of_examine hi' hc' herr hsplit).after hheld hreceived⟩
      · cases hexamine.symm.trans h
  | case4 r fSocket received socket hreceive r' hexamine ih =>
    rcases receive_spec hi hcomplete fSocket with
      ⟨err, socket, h, -⟩ | ⟨x, socket, data, h, hix, hcx, hpos, hheld, hreceived⟩
    · cases hreceive.symm.trans h
    · cases hreceive.symm.trans h
      rcases examine_spec hix hcx hpos with ⟨err, r', h, -⟩ | ⟨r', h, hi', hc', hsame⟩
      · cases hexamine.symm.trans h
      · cases hexamine.symm.trans h
        obtain ⟨err, r'', fSocket', hloop, hpassed⟩ := ih hi' hc'
        exact ⟨err, r'', fSocket', hloop, hpassed.after (hsame.trans hheld) hreceived⟩

theorem readRequest_spec (hi : Inv r) (fSocket : Socket) :
    ∃ err r' fSocket', r.readRequest fSocket = some (err, r', fSocket') ∧
      Passed r fSocket (madeAvailable err r') r' fSocket' := by
  obtain ⟨newOffset, taken, htake, hit, hct, hheld, hpos⟩ := takeLeftover_spec hi
  have hnone : fSocket.received = fSocket.received ++ [] := (List.append_nil _).symm
  have hheld' : taken.held = r.held ++ [] := by rw [hheld, List.append_nil]
  rw [readRequest, htake, Option.bind_some]
  by_cases hzero : newOffset = 0
  · simp only [if_pos hzero]
    obtain ⟨err, r', fSocket', hloop, hpassed⟩ := readLoop_spec hit hct fSocket
    exact ⟨err, r', fSocket', hloop, hpassed.after hheld' hnone⟩
  · simp only [if_neg hzero]
    rcases examine_spec hit hct (hpos hzero) with
      ⟨err, r', h, hi', hc', herr, hsplit⟩ | ⟨r', h, hi', hc', hsame⟩
    · rw [h]
      exact ⟨_, _, _, rfl, (passed_of_examine hi' hc' herr hsplit).after hheld' hnone⟩
    · rw [h]
      obtain ⟨err, r'', fSocket', hloop, hpassed⟩ := readLoop_spec hi' hc' fSocket
      exact ⟨err, r'', fSocket', hloop, hpassed.after (by rw [hsame, hheld']) hnone⟩

/-- Bytes behind the header count as used. -/
theorem Inv.used (hi : Inv r) {n : Nat} (hn : n ≤ r.fRetreatBytes) :
    Inv { r with fRetreatBytes := r.fRetreatBytes - n,
                 fRetreatBytesRead := r.fRetreatBytesRead + n } := by
  have htotal := hi.total
  refine ⟨hi.size, ?_, hi.nonempty, fun hc => ?_⟩
  · simp only
    omega
  · obtain ⟨hretreat, hread, hoffset⟩ := hi.whole hc
    exact ⟨by simp only; omega, by simp only; omega, hoffset⟩

/-- `Read` does not leave the buffer. -/
theorem read_total (hi : Inv r) (fSocket : Socket) (inBufLen : Nat) :
    ∃ err data r' fSocket', r.read fSocket inBufLen = some (err, data, r', fSocket') := by
  have htotal := hi.total
  have hsize := hi.size
  unfold kRequestBufferSizeInBytes at htotal hsize
  unfold read
  dsimp only
  split_ifs with hfits hall
  · omega
  · exact ⟨_, _, _, _, rfl⟩
  · exact ⟨_, _, _, _, rfl⟩

theorem read_inv (hi : Inv r) {inBufLen : Nat} {data : Bytes}
    (h : r.read fSocket inBufLen = some (err, data, r', fSocket')) : Inv r' := by
  unfold read at h
  dsimp only at h
  split_ifs at h <;> cases h <;> exact hi.used (min_le_left _ _)

/-- `Read` hands over what is behind the header, and then new data. -/
theorem read_spec (hi : Inv r) (hbetween : r.complete = true ∨ r.fCurOffset = 0)
    (fSocket : Socket) (inBufLen : Nat) :
    ∃ err data r' fSocket', r.read fSocket inBufLen = some (err, data, r', fSocket') ∧
      Passed r fSocket data r' fSocket' := by
  have htotal := hi.total
  have hsize := hi.size
  unfold kRequestBufferSizeInBytes at htotal hsize
  have hfits : ¬ (r.fRetreatBytes > 0 ∧ r.requestLen + r.fRetreatBytesRead +
      min r.fRetreatBytes inBufLen > r.fRequestBuffer.length) := by omega
  generalize hn : min r.fRetreatBytes inBufLen = n at hfits
  have hle : n ≤ r.fRetreatBytes := hn ▸ min_le_left _ _
  let r' : HTTPRequestStream :=
    { r with fRetreatBytes := r.fRetreatBytes - n, fRetreatBytesRead := r.fRetreatBytesRead + n }
  have hi' : Inv r' := hi.used hle
  have hheld :
      slice r.fRequestBuffer (r.requestLen + r.fRetreatBytesRead) n ++ r'.held = r.held := by
    cases hc : r.complete with
    | true => exact held_used hc hle
    | false =>
      obtain ⟨hretreat, -, -⟩ := hi.whole hc
      obtain rfl : n = 0 := by omega
      simp [held, r', hc, slice, HTTPRequestStream.fRequest]
  unfold read
  simp only [hn, if_neg hfits]
  split_ifs with hall
  · exact ⟨_, _, _, _, rfl, hi', [], (List.append_nil _).symm, by rw [List.append_nil]; exact hheld⟩
  · -- the socket is read once nothing is held any more
    have hempty : r'.held = [] := by
      rcases hbetween with hc | hzero
      · have hzero : r.fRetreatBytes - n = 0 := by omega
        simp [held, r', hc, hzero, slice]
      · cases hc : r.complete with
        | true =>
          have hzero : r.fRetreatBytes - n = 0 := by omega
          simp [held, r', hc, hzero, slice]
        | false =>
          obtain ⟨-, -, hoffset⟩ := hi.whole hc
          have hlen : r.requestLen = 0 := by omega
          simp [held, r', hc, HTTPRequestStream.fRequest, hlen]
    rw [hempty, List.append_nil] at hheld
    rcases fSocket.read_cases (inBufLen - n) with
      ⟨-, hdata, hreceived⟩ | ⟨data, -, hdata, -, -, hreceived⟩
    · refine ⟨_, _, _, _, rfl, hi', [], ?_, ?_⟩
      · rw [hreceived, List.append_nil]
      · rw [hdata, hempty, hheld]
        simp
    · refine ⟨_, _, _, _, rfl, hi', data, hreceived, ?_⟩
      rw [hdata, hempty, hheld]
      simp

/-! ## What is looked at -/

theorem loopExamines_inBounds (hi : Inv r) (hcomplete : r.complete = false)
    (h : LoopExamines r fSocket x) : x.requestLen < x.fRequestBuffer.length := by
  induction h with
  | here hreceive =>
    rcases receive_spec hi hcomplete _ with ⟨_, _, h, -⟩ | ⟨x, socket, data, h, hix, -⟩
    · cases hreceive.symm.trans h
    · cases hreceive.symm.trans h
      exact hix.inBounds
  | next hreceive hexamine _ ih =>
    rcases receive_spec hi hcomplete _ with ⟨_, _, h, -⟩ | ⟨x, socket, data, h, hix, hcx, hpos, -⟩
    · cases hreceive.symm.trans h
    · cases hreceive.symm.trans h
      rcases examine_spec hix hcx hpos with ⟨err, r', h, -⟩ | ⟨r', h, hi', hc', -⟩
      · cases hexamine.symm.trans h
      · cases hexamine.symm.trans h
        exact ih hi' hc'

theorem examines_inBounds (hi : Inv r) (h : Examines r fSocket x) :
    x.requestLen < x.fRequestBuffer.length := by
  obtain ⟨newOffset, taken, htake, hit, hct, -, hpos⟩ := takeLeftover_spec hi
  cases h with
  | leftover h hne =>
    cases htake.symm.trans h
    exact hit.inBounds
  | first h hzero hloop =>
    cases htake.symm.trans h
    exact loopExamines_inBounds hit hct hloop
  | later h hne hexamine hloop =>
    cases htake.symm.trans h
    rcases examine_spec hit hct (hpos hne) with ⟨err, r', h, -⟩ | ⟨r', h, hi', hc', -⟩
    · cases hexamine.symm.trans h
    · cases hexamine.symm.trans h
      exact loopExamines_inBounds hi' hc' hloop

/-! ## Any run -/

/-- What holds of a stream between the calls. -/
structure Sound (s : State) : Prop where
  inv : Inv s.stream
  conserved : s.delivered ++ s.stream.held = s.fSocket.received

theorem Fresh.sound {s : State} (h : Fresh s) : Sound s := by
  obtain ⟨hstream, hsize, hreceived, hdelivered⟩ := h
  rw [hstream] at hsize
  refine ⟨?_, ?_⟩
  · rw [hstream]
    exact ⟨hsize, Nat.zero_le _, nofun, fun _ => ⟨rfl, rfl, rfl⟩⟩
  · rw [hdelivered, hreceived, hstream]
    simp [held, HTTPRequestStream.fRequest]

/-- In every state that calls of `ReadRequest` and `Read` lead to, in any order. -/
theorem inv_of_reachable {s : State} (h : system.Reachable (some s)) : Inv s.stream := by
  refine h.invariant (fun state => ∀ s, state = some s → Inv s.stream) ?_ ?_ s rfl
  · rintro _ ⟨s, rfl, hfresh⟩ _ ⟨⟩
    exact hfresh.sound.inv
  · rintro state a _ hinv hstep t rfl
    obtain ⟨s, rfl, hnext⟩ := Option.bind_eq_some_iff.mp (Option.some.inj hstep)
    have hi := hinv s rfl
    cases a with
    | readRequest =>
      obtain ⟨err, r', fSocket', hread, hpassed⟩ := readRequest_spec hi s.fSocket
      rw [next, hread] at hnext
      cases hnext
      exact hpassed.inv
    | read inBufLen =>
      obtain ⟨⟨err, data, r', fSocket'⟩, hread, rfl⟩ := Option.map_eq_some_iff.mp hnext
      exact read_inv hi hread

/-- What a call hands over goes on with what was delivered before it. -/
theorem Sound.passed {s : State} (h : Sound s) {out : Bytes} {stream : HTTPRequestStream}
    {socket : Socket} (hpassed : Passed s.stream s.fSocket out stream socket) :
    Sound { stream, fSocket := socket, delivered := s.delivered ++ out } where
  inv := hpassed.inv
  conserved := by
    obtain ⟨data, hreceived, hout⟩ := hpassed.conserved
    simp only [List.append_assoc, hout, hreceived, ← h.conserved]

/-- One call that is allowed. -/
theorem next_sound {s : State} (h : Sound s) {a : Action} (hbetween : Between (some s) a) :
    ∃ t, next s a = some t ∧ Sound t := by
  cases a with
  | readRequest =>
    obtain ⟨err, stream, socket, hread, hpassed⟩ := readRequest_spec h.inv s.fSocket
    exact ⟨_, by rw [next, hread]; rfl, h.passed hpassed⟩
  | read inBufLen =>
    obtain ⟨err, data, stream, socket, hread, hpassed⟩ :=
      read_spec h.inv hbetween s.fSocket inBufLen
    exact ⟨_, by rw [next, hread]; rfl, h.passed hpassed⟩

/-- In every run that reads between complete messages only, no call leaves the buffer, and
what is handed over and what is held make up what was received. -/
theorem conserved_of_between {s : State} (hs : Fresh s) {actions : List Action}
    (h : system.Meets Between (some s) actions) :
    system.Keeps Conserved (some s) actions := by
  refine System.Meets.keeps (fun state => ∃ s, state = some s ∧ Sound s) ?_ ⟨s, rfl, hs.sound⟩ h
  rintro _ a state ⟨s, rfl, hsound⟩ hstep hbetween
  obtain ⟨t, ht, hsound'⟩ := next_sound hsound hbetween
  obtain rfl : next s a = state := Option.some.inj hstep
  rw [ht]
  exact ⟨⟨fun _ x hx => examines_inBounds hsound.inv hx, hsound'.conserved⟩, t, rfl, hsound'⟩

/-! ## A run -/

instance : (state : Option State) → (a : Action) → Decidable (Between state a)
  | some _, .read _ => inferInstanceAs (Decidable (_ ∨ _))
  | some _, .readRequest => isTrue trivial
  | none, _ => isTrue trivial

/-- What arrives: a request cut inside its last line end, and two bytes behind it. -/
def cutRequest : State :=
  { stream := { fRequestBuffer := List.replicate kRequestBufferSizeInBytes 0 }
    fSocket.incoming :=
      [.segment 65 (ascii " B\r\n\r"), .failed .eagain, .segment 10 (ascii "xy"),
        .segment 122 []] }

theorem conserved_of_between_cutRequest :
    system.Keeps Conserved (some cutRequest)
      [.read 0, .readRequest, .readRequest, .read 1, .read 3, .readRequest] :=
  conserved_of_between ⟨rfl, List.length_replicate, rfl, rfl⟩ (by decide +kernel)

end HTTPRequestStream

end CxxFramework.Net
