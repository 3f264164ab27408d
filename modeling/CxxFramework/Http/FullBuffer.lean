import CxxFramework.Http.RequestSegments

/-!
# The full request buffer

A request buffer that is full without a message in it is to be reported as too long. The
check for it is behind the branch for data packets, which asks for more bytes while the
packet is not complete; a packet that announces more bytes than the buffer holds never is.
Then `ReadRequest` reads no bytes from the socket, which takes that for the end of the
connection.

## Main definitions

* `HTTPRequestStream.Turns` — where a `ReadRequest` asks its socket for more bytes.
* `HTTPRequestStream.Reports` — a full buffer is reported, and no live connection is lost.
* `HTTPRequestStream.Oversized` — the bytes of a packet that does not fit the buffer.
-/

namespace CxxFramework.Net

open CxxFramework.Core Buffer Transition

namespace Socket

/-- The bytes of the segments at the front of the queue. -/
def front : List RecvEvent → Bytes
  | .segment first rest :: incoming => first :: rest ++ front incoming
  | _ => []

/-- The bytes that the next reads hand over, up to the first one that fails. -/
def pending (s : Socket) : Bytes := if s.connected then front s.incoming else []

/-- The connection has come neither to its end nor to an error. -/
def Live (s : Socket) : Prop :=
  s.connected = true ∧ s.incoming.head? ≠ some .closed ∧
    ∀ errno, s.incoming.head? = some (.failed errno) → errno = Errno.eagain

theorem front_putBack (data : Bytes) (incoming : List RecvEvent) :
    front (putBack data incoming) = data ++ front incoming := by
  cases data <;> rfl

/-- A read takes the first of the pending bytes. -/
theorem read_pending (s : Socket) {length : Nat} (hlength : length ≠ 0) :
    ((s.read length).err ≠ OS_NoErr ∧ s.pending = []) ∨
      ∃ data, (s.read length).err = OS_NoErr ∧ (s.read length).data = some data ∧ data ≠ [] ∧
        data.length ≤ length ∧ s.pending = data ++ (s.read length).socket.pending := by
  unfold pending
  cases hconnected : s.connected with
  | false => exact .inl ⟨by simp [read, hconnected, ENOTCONN, OS_NoErr], rfl⟩
  | true =>
    rcases hincoming : s.incoming with _ | ⟨⟨first, rest⟩ | errno | _, incoming⟩
    · exact .inl ⟨by rw [read_nil hconnected hincoming]; exact Errno.eagain.property, rfl⟩
    · refine .inr ⟨(first :: rest).take length, ?_⟩
      rw [read_segment hconnected hincoming hlength]
      refine ⟨rfl, rfl, by simp [hlength], List.length_take_le _ _, ?_⟩
      simp only [if_true, hconnected, front, front_putBack, ← List.append_assoc,
        List.take_append_drop]
    · exact .inl ⟨by simp [read, hconnected, hincoming, errno.property], rfl⟩
    · exact .inl ⟨by simp [read, hconnected, hincoming, ENOTCONN, OS_NoErr], rfl⟩

/-- A read of some bytes does not take a live connection for a dead one. -/
theorem Live.read {s : Socket} (h : s.Live) {length : Nat} (hlength : length ≠ 0) :
    (s.read length).socket.connected = true := by
  obtain ⟨hconnected, hclosed, hfailed⟩ := h
  rcases hincoming : s.incoming with _ | ⟨⟨first, rest⟩ | errno | _, incoming⟩
  · rwa [read_nil hconnected hincoming]
  · rwa [read_segment hconnected hincoming hlength]
  · obtain rfl := hfailed errno (by rw [hincoming]; rfl)
    rw [read_wouldBlock hconnected hincoming]
  · simp [hincoming] at hclosed

end Socket

namespace HTTPRequestStream

/-- The loop of `ReadRequest` comes to ask a socket for more bytes. -/
inductive LoopTurns : HTTPRequestStream → Socket → HTTPRequestStream → Socket → Prop
  | here (r fSocket) : LoopTurns r fSocket r fSocket
  | next {r x r' y fSocket fSocket' t} : r.receive fSocket = some (.ok x, fSocket') →
      x.examine = (none, r') → LoopTurns r' fSocket' y t → LoopTurns r fSocket y t

/-- `ReadRequest` comes to ask a socket for more bytes. -/
inductive Turns (r : HTTPRequestStream) (fSocket : Socket) (y : HTTPRequestStream) (t : Socket) :
    Prop
  | first {newOffset r'} : r.takeLeftover = some (newOffset, r') → newOffset = 0 →
      LoopTurns r' fSocket y t → Turns r fSocket y t
  | later {newOffset r' r''} : r.takeLeftover = some (newOffset, r') → newOffset ≠ 0 →
      r'.examine = (none, r'') → LoopTurns r'' fSocket y t → Turns r fSocket y t

/-- The number of bytes that a stream asks its socket for. -/
def room (r : HTTPRequestStream) : Nat := kRequestBufferSizeInBytes - r.fCurOffset - 1

/-- A `ReadRequest` with the result `err` reports a full buffer without a message, asks for
some bytes whenever it asks its socket, and loses no live connection. -/
structure Reports (r : HTTPRequestStream) (fSocket : Socket) (err : CF_Error) : Prop where
  full : ∀ x, Examines r fSocket x → x.fCurOffset = kRequestBufferSizeInBytes - 1 →
    x.content = .incomplete → err = E2BIG
  asks : ∀ y t, Turns r fSocket y t → y.fRetreatBytes = 0 → y.room ≠ 0
  live : ∀ y t, Turns r fSocket y t → y.fRetreatBytes = 0 → t.Live →
    (t.read y.room).socket.connected = true

/-- Every `ReadRequest` of a run reports. -/
def FullReported : Option State → Action → Option State → Prop
  | some s, .readRequest, some _ =>
    ∃ err r' fSocket', s.stream.readRequest s.fSocket = some (err, r', fSocket') ∧
      Reports s.stream s.fSocket err
  | some _, .read _, some _ => True
  | _, _, _ => False

/-- The first 2047 bytes are the start of a data packet that is longer than that. -/
def Oversized (data : Bytes) : Prop :=
  kRequestBufferSizeInBytes - 1 ≤ data.length ∧ data.head? = some 36 ∧
    kRequestBufferSizeInBytes - 1 < interleavedPacketLen data

instance (data : Bytes) : Decidable (Oversized data) := inferInstanceAs (Decidable (_ ∧ _ ∧ _))

/-- What a `ReadRequest` holds and receives is not the start of an oversized packet. -/
def PacketsFit : Option State → Action → Prop
  | some s, .readRequest => ¬ Oversized (s.stream.held ++ s.fSocket.pending)
  | _, _ => True

variable {r r' x y : HTTPRequestStream} {fSocket fSocket' t : Socket} {err : CF_Error}

/-! ## One look at the bytes received -/

/-- What is received comes from the pending bytes. -/
theorem receive_pending (hi : Inv r) (hcomplete : r.complete = false)
    (hroom : r.held.length < kRequestBufferSizeInBytes - 1) (fSocket : Socket) :
    (∃ err fSocket', r.receive fSocket = some (.error err, fSocket') ∧ fSocket.pending = []) ∨
      ∃ x fSocket', r.receive fSocket = some (.ok x, fSocket') ∧ Inv x ∧ x.complete = false ∧
        0 < x.requestLen ∧ x.held ++ fSocket'.pending = r.held ++ fSocket.pending := by
  obtain ⟨-, -, hoffset⟩ := hi.whole hcomplete
  rw [Inv.held_of_incomplete hcomplete, hi.length_fRequest] at hroom
  have hlength : kRequestBufferSizeInBytes - r.fCurOffset - 1 ≠ 0 := by omega
  rcases fSocket.read_pending hlength with ⟨hbad, hnone⟩ | ⟨data, hgood, hdata, hne, hle, hpending⟩
  · exact .inl ⟨_, _, receive_failed fSocket hi hcomplete hbad, hnone⟩
  · obtain ⟨x, hreceive, hix, hcx, hpos, hheld⟩ :=
      receive_data fSocket hi hcomplete hgood hdata hne hle
    refine .inr ⟨x, _, hreceive, hix, hcx, hpos, ?_⟩
    rw [hheld, hpending, List.append_assoc]

/-- A full buffer that begins like a data packet, and is none, is oversized. -/
theorem oversized_of_full {s : Bytes} (hlength : x.held.length = kRequestBufferSizeInBytes - 1)
    (hdollar : x.held.head? = some 36) (hnone : messageEnd x.held = none) :
    Oversized (x.held ++ s) := by
  have hne : x.held ≠ [] := List.ne_nil_of_length_pos (by rw [hlength]; decide)
  have hfour : 4 ≤ x.held.length := by
    rw [hlength]
    decide
  have hshort : x.held.length < 4 ∨ x.held.length < interleavedPacketLen x.held := by
    by_contra hfits
    rw [messageEnd_packet hdollar, if_neg hfits] at hnone
    cases hnone
  refine ⟨?_, by rwa [List.head?_append_of_ne_nil _ hne], ?_⟩
  · rw [List.length_append]
    omega
  · rw [← interleavedPacketLen_of_isPrefix (List.prefix_append x.held s) hfour]
    omega

/-- One look at the start of bytes that are not oversized. -/
theorem examine_fits (hi : Inv x) (hcomplete : x.complete = false) (hpos : 0 < x.requestLen)
    {s : Bytes} (hfits : ¬ Oversized (x.held ++ s)) :
    (∃ err r', x.examine = (some err, r') ∧ Inv r' ∧ r'.complete = true ∧
        (x.fCurOffset = kRequestBufferSizeInBytes - 1 → x.content = .incomplete → err = E2BIG)) ∨
      ∃ r', x.examine = (none, r') ∧ Inv r' ∧ r'.complete = false ∧ r'.held = x.held ∧
        x.fCurOffset ≠ kRequestBufferSizeInBytes - 1 := by
  obtain ⟨-, -, hoffset⟩ := hi.whole hcomplete
  have hlength : x.held.length = x.requestLen := by
    rw [Inv.held_of_incomplete hcomplete, hi.length_fRequest]
  rcases examine_cases x with ⟨n, fIsDataPacket, hn, hexamine⟩ | ⟨-, hexamine⟩ |
    ⟨fIsDataPacket, hexamine⟩
  · -- a message is found, so the content is no part of one
    refine .inl ⟨_, _, hexamine, (requestArrived_spec hi hcomplete hn _).1, rfl,
      fun _ hcontent => ?_⟩
    simp only [examine, hcontent] at hexamine
    split_ifs at hexamine <;> simp [CF_RequestArrived, E2BIG] at hexamine
  · exact .inl ⟨_, _, hexamine, ⟨hi.size, hi.total, fun _ => hpos, nofun⟩, rfl, fun _ _ => rfl⟩
  · refine .inr ⟨_, hexamine, ⟨hi.size, hi.total, hi.nonempty, hi.whole⟩, hcomplete, rfl, ?_⟩
    intro hfull
    cases hend : messageEnd x.held with
    | some n =>
      obtain ⟨r', hfound, -⟩ := examine_found hi hcomplete hend
      cases hexamine.symm.trans hfound
    | none =>
      by_cases hdollar : x.held.head? = some 36
      · exact hfits (oversized_of_full (by omega) hdollar hend)
      · have hnone := examine_none hi hcomplete hpos hend
        rw [if_pos ⟨by omega, hdollar⟩] at hnone
        obtain ⟨r', hbig, -⟩ := hnone
        cases hexamine.symm.trans hbig

/-- An oversized packet is never complete, so more bytes are needed. -/
theorem examine_oversized (hi : Inv x) (hcomplete : x.complete = false) (hpos : 0 < x.requestLen)
    {s : Bytes} (hover : Oversized (x.held ++ s)) :
    ∃ r', x.examine = (none, r') ∧ Inv r' ∧ r'.complete = false ∧ r'.held = x.held := by
  obtain ⟨-, hdollar, hlong⟩ := hover
  have hlength : x.held.length = x.requestLen := by
    rw [Inv.held_of_incomplete hcomplete, hi.length_fRequest]
  have hle := hi.length_held_le
  rw [List.head?_append_of_ne_nil _ (List.ne_nil_of_length_pos (by omega))] at hdollar
  have hend : messageEnd x.held = none := by
    rw [messageEnd_packet hdollar, if_pos]
    by_cases hfour : x.held.length < 4
    · exact .inl hfour
    · rw [interleavedPacketLen_of_isPrefix (List.prefix_append x.held s) (by omega)]
      exact .inr (by omega)
  have hnone := examine_none hi hcomplete hpos hend
  rwa [if_neg fun h => h.2 hdollar] at hnone

/-! ## The loop -/

/-- A stream that goes on with its loop, with room for more bytes. -/
structure Roomy (r : HTTPRequestStream) : Prop where
  inv : Inv r
  incomplete : r.complete = false
  room : r.held.length < kRequestBufferSizeInBytes - 1

theorem Roomy.fCurOffset_lt (h : Roomy r) : r.fCurOffset < kRequestBufferSizeInBytes - 1 := by
  obtain ⟨-, -, hoffset⟩ := h.inv.whole h.incomplete
  have hroom := h.room
  rw [Inv.held_of_incomplete h.incomplete, h.inv.length_fRequest] at hroom
  omega

/-- What the loop comes to when no oversized packet is received. -/
structure LoopReports (r : HTTPRequestStream) (fSocket : Socket) (err : CF_Error)
    (r' : HTTPRequestStream) : Prop where
  inv : Inv r'
  room : r'.complete = false → Roomy r'
  full : ∀ x, LoopExamines r fSocket x → x.fCurOffset = kRequestBufferSizeInBytes - 1 →
    x.content = .incomplete → err = E2BIG
  turns : ∀ y t, LoopTurns r fSocket y t → Roomy y

/-- The loop of `ReadRequest`, by induction on its rounds. -/
theorem readLoop_reports (hr : Roomy r) (fSocket : Socket)
    (hfits : ¬ Oversized (r.held ++ fSocket.pending)) :
    ∃ err r' fSocket', r.readLoop fSocket = some (err, r', fSocket') ∧
      LoopReports r fSocket err r' := by
  fun_induction readLoop r fSocket with
  | case1 r fSocket hreceive =>
    rcases receive_pending hr.inv hr.incomplete hr.room fSocket with ⟨_, _, h, -⟩ | ⟨_, _, h, -⟩ <;>
      cases hreceive.symm.trans h
  | case2 r fSocket err socket hreceive =>
    refine ⟨_, _, _, rfl, hr.inv, fun _ => hr, fun x hx => ?_, fun y t hy => ?_⟩
    · cases hx with
      | here h => cases hreceive.symm.trans h
      | next h => cases hreceive.symm.trans h
    · cases hy with
      | here => exact hr
      | next h => cases hreceive.symm.trans h
  | case3 r fSocket received socket hreceive err r' hexamine =>
    rcases receive_pending hr.inv hr.incomplete hr.room fSocket with
      ⟨_, _, h, -⟩ | ⟨x, socket, h, hix, hcx, hpos, hdata⟩
    · cases hreceive.symm.trans h
    · cases hreceive.symm.trans h
      rcases examine_fits hix hcx hpos (hdata ▸ hfits) with
        ⟨err, r', h, hi', hc', hfull⟩ | ⟨r', h, -⟩
      · cases hexamine.symm.trans h
        refine ⟨_, _, _, rfl, hi', fun hfalse => by simp [hc'] at hfalse, fun x hx => ?_,
          fun y t hy => ?_⟩
        · cases hx with
          | here h =>
            cases hreceive.symm.trans h
            exact hfull
          | next h hmore =>
            cases hreceive.symm.trans h
            cases hexamine.symm.trans hmore
        · cases hy with
          | here => exact hr
          | next h hmore =>
            cases hreceive.symm.trans h
            cases hexamine.symm.trans hmore
      · cases hexamine.symm.trans h
  | case4 r fSocket received socket hreceive r' hexamine ih =>
    rcases receive_pending hr.inv hr.incomplete hr.room fSocket with
      ⟨_, _, h, -⟩ | ⟨x, socket, h, hix, hcx, hpos, hdata⟩
    · cases hreceive.symm.trans h
    · cases hreceive.symm.trans h
      rcases examine_fits hix hcx hpos (hdata ▸ hfits) with ⟨err, r', h, -⟩ |
        ⟨r', h, hi', hc', hheld, hnotfull⟩
      · cases hexamine.symm.trans h
      · cases hexamine.symm.trans h
        obtain ⟨-, -, hoffset⟩ := hix.whole hcx
        have hle := hix.length_held_le
        have hlength : received.held.length = received.requestLen := by
          rw [Inv.held_of_incomplete hcx, hix.length_fRequest]
        have hr' : Roomy r' := ⟨hi', hc', by rw [hheld]; omega⟩
        obtain ⟨err, r'', fSocket', hloop, hreports⟩ := ih hr' (by rwa [hheld, hdata])
        refine ⟨err, r'', fSocket', hloop, hreports.inv, hreports.room, fun x hx => ?_,
          fun y t hy => ?_⟩
        · cases hx with
          | here h =>
            cases hreceive.symm.trans h
            exact fun hfull => absurd hfull hnotfull
          | next h hmore hx =>
            cases hreceive.symm.trans h
            cases hexamine.symm.trans hmore
            exact hreports.full x hx
        · cases hy with
          | here => exact hr
          | next h hmore hy =>
            cases hreceive.symm.trans h
            cases hexamine.symm.trans hmore
            exact hreports.turns y t hy

/-- Once an oversized packet fills the buffer, the loop asks for no bytes. -/
theorem exists_turn_full (hr : Roomy r) (fSocket : Socket)
    (hover : Oversized (r.held ++ fSocket.pending)) :
    ∃ y t, LoopTurns r fSocket y t ∧ y.fRetreatBytes = 0 ∧ y.room = 0 := by
  fun_induction readLoop r fSocket with
  | case1 r fSocket hreceive =>
    rcases receive_pending hr.inv hr.incomplete hr.room fSocket with ⟨_, _, h, -⟩ | ⟨_, _, h, -⟩ <;>
      cases hreceive.symm.trans h
  | case2 r fSocket err socket hreceive =>
    rcases receive_pending hr.inv hr.incomplete hr.room fSocket with
      ⟨_, _, h, hnone⟩ | ⟨x, socket, h, -⟩
    · obtain ⟨hlength, -⟩ := hover
      rw [hnone, List.append_nil] at hlength
      exact absurd hr.room (not_lt.mpr hlength)
    · cases hreceive.symm.trans h
  | case3 r fSocket received socket hreceive err r' hexamine =>
    rcases receive_pending hr.inv hr.incomplete hr.room fSocket with
      ⟨_, _, h, -⟩ | ⟨x, socket, h, hix, hcx, hpos, hdata⟩
    · cases hreceive.symm.trans h
    · cases hreceive.symm.trans h
      obtain ⟨r', h, -⟩ := examine_oversized hix hcx hpos (hdata ▸ hover)
      cases hexamine.symm.trans h
  | case4 r fSocket received socket hreceive r' hexamine ih =>
    rcases receive_pending hr.inv hr.incomplete hr.room fSocket with
      ⟨_, _, h, -⟩ | ⟨x, socket, h, hix, hcx, hpos, hdata⟩
    · cases hreceive.symm.trans h
    · cases hreceive.symm.trans h
      obtain ⟨r', h, hi', hc', hheld⟩ := examine_oversized hix hcx hpos (hdata ▸ hover)
      cases hexamine.symm.trans h
      by_cases hroom : r'.held.length < kRequestBufferSizeInBytes - 1
      · obtain ⟨y, t, hturns, hretreat, hy⟩ := ih ⟨hi', hc', hroom⟩ (by rwa [hheld, hdata])
        exact ⟨y, t, .next hreceive hexamine hturns, hretreat, hy⟩
      · obtain ⟨hretreat, -, hoffset⟩ := hi'.whole hc'
        rw [Inv.held_of_incomplete hc', hi'.length_fRequest] at hroom
        refine ⟨r', socket, .next hreceive hexamine (.here _ _), hretreat, ?_⟩
        unfold HTTPRequestStream.room
        omega

/-! ## One call -/

/-- What is left from the last request leaves room for more. -/
theorem takeLeftover_roomy (hi : Inv r)
    (hroom : r.held.length < kRequestBufferSizeInBytes - 1) :
    ∃ newOffset r', r.takeLeftover = some (newOffset, r') ∧ Roomy r' ∧ r'.held = r.held ∧
      (newOffset ≠ 0 → 0 < r'.requestLen) := by
  obtain ⟨newOffset, r', htake, hi', hc', hheld, hpos⟩ := takeLeftover_spec hi
  exact ⟨newOffset, r', htake, ⟨hi', hc', by rwa [hheld]⟩, hheld, hpos⟩

/-- What holds of a stream between the calls. -/
structure Settled (r : HTTPRequestStream) : Prop where
  inv : Inv r
  room : r.held.length < kRequestBufferSizeInBytes - 1

/-- A complete request takes some of the buffer. -/
theorem settled_of_room (hi : Inv r) (hroom : r.complete = false → Roomy r) : Settled r where
  inv := hi
  room := by
    cases hcomplete : r.complete with
    | false => exact (hroom hcomplete).room
    | true =>
      have htotal := hi.total
      have hpos := hi.nonempty hcomplete
      rw [hi.length_held hcomplete]
      omega

/-- Where a call turns to the socket, after a look at what was left if there was any. -/
theorem Turns.cases {newOffset : Nat} (htake : r.takeLeftover = some (newOffset, r'))
    (h : Turns r fSocket y t) :
    newOffset = 0 ∧ LoopTurns r' fSocket y t ∨
      newOffset ≠ 0 ∧ ∃ r'', r'.examine = (none, r'') ∧ LoopTurns r'' fSocket y t := by
  cases h with
  | first h hzero hy =>
    cases htake.symm.trans h
    exact .inl ⟨hzero, hy⟩
  | later h hne hexamine hy =>
    cases htake.symm.trans h
    exact .inr ⟨hne, _, hexamine, hy⟩

/-- What a call looks at. -/
theorem Examines.cases {newOffset : Nat} (htake : r.takeLeftover = some (newOffset, r'))
    (h : Examines r fSocket x) :
    newOffset = 0 ∧ LoopExamines r' fSocket x ∨
      newOffset ≠ 0 ∧
        (x = r' ∨ ∃ r'', r'.examine = (none, r'') ∧ LoopExamines r'' fSocket x) := by
  cases h with
  | leftover h hne =>
    cases htake.symm.trans h
    exact .inr ⟨hne, .inl rfl⟩
  | first h hzero hx =>
    cases htake.symm.trans h
    exact .inl ⟨hzero, hx⟩
  | later h hne hexamine hx =>
    cases htake.symm.trans h
    exact .inr ⟨hne, .inr ⟨_, hexamine, hx⟩⟩

/-- A call that only turns to its socket with room for more. -/
theorem reports_of_roomy
    (hfull : ∀ x, Examines r fSocket x → x.fCurOffset = kRequestBufferSizeInBytes - 1 →
      x.content = .incomplete → err = E2BIG)
    (hroomy : ∀ y t, Turns r fSocket y t → Roomy y) : Reports r fSocket err := by
  have hasks : ∀ y t, Turns r fSocket y t → y.room ≠ 0 := by
    intro y t hy
    have hlt := (hroomy y t hy).fCurOffset_lt
    unfold HTTPRequestStream.room
    omega
  exact ⟨hfull, fun y t hy _ => hasks y t hy, fun y t hy _ hlive => hlive.read (hasks y t hy)⟩

theorem readRequest_reports (hs : Settled r) (fSocket : Socket)
    (hfits : ¬ Oversized (r.held ++ fSocket.pending)) :
    ∃ err r' fSocket', r.readRequest fSocket = some (err, r', fSocket') ∧ Settled r' ∧
      Reports r fSocket err := by
  obtain ⟨newOffset, taken, htake, hr, hheld, hpos⟩ := takeLeftover_roomy hs.inv hs.room
  rw [← hheld] at hfits
  rw [readRequest, htake, Option.bind_some]
  by_cases hzero : newOffset = 0
  · obtain ⟨err, r', fSocket', hloop, hreports⟩ := readLoop_reports hr fSocket hfits
    simp only [if_pos hzero]
    refine ⟨err, r', fSocket', hloop, settled_of_room hreports.inv hreports.room,
      reports_of_roomy (fun x hx => ?_) fun y t hy => ?_⟩
    · rcases hx.cases htake with ⟨-, hx⟩ | ⟨hne, -⟩
      · exact hreports.full x hx
      · exact absurd hzero hne
    · rcases hy.cases htake with ⟨-, hy⟩ | ⟨hne, -⟩
      · exact hreports.turns y t hy
      · exact absurd hzero hne
  · have hnotfull : taken.fCurOffset ≠ kRequestBufferSizeInBytes - 1 := hr.fCurOffset_lt.ne
    simp only [if_neg hzero]
    rcases examine_fits hr.inv hr.incomplete (hpos hzero) hfits with
      ⟨err, r', hexamine, hi', hc', -⟩ | ⟨r', hexamine, hi', hc', hheld', -⟩
    · simp only [hexamine]
      refine ⟨err, r', fSocket, rfl, settled_of_room hi' fun hfalse => by simp [hc'] at hfalse,
        reports_of_roomy (fun x hx hfull => ?_) fun y t hy => ?_⟩
      · rcases hx.cases htake with ⟨hnone, -⟩ | ⟨-, rfl | ⟨r'', hmore, -⟩⟩
        · exact absurd hnone hzero
        · exact absurd hfull hnotfull
        · cases hexamine.symm.trans hmore
      · rcases hy.cases htake with ⟨hnone, -⟩ | ⟨-, r'', hmore, -⟩
        · exact absurd hnone hzero
        · cases hexamine.symm.trans hmore
    · have hr' : Roomy r' := ⟨hi', hc', by rw [hheld']; exact hr.room⟩
      obtain ⟨err, r'', fSocket', hloop, hreports⟩ :=
        readLoop_reports hr' fSocket (by rwa [hheld'])
      simp only [hexamine]
      refine ⟨err, r'', fSocket', hloop, settled_of_room hreports.inv hreports.room,
        reports_of_roomy (fun x hx hfull => ?_) fun y t hy => ?_⟩
      · rcases hx.cases htake with ⟨hnone, -⟩ | ⟨-, rfl | ⟨r'', hmore, hx⟩⟩
        · exact absurd hnone hzero
        · exact absurd hfull hnotfull
        · cases hexamine.symm.trans hmore
          exact hreports.full x hx hfull
      · rcases hy.cases htake with ⟨hnone, -⟩ | ⟨-, r'', hmore, hy⟩
        · exact absurd hnone hzero
        · cases hexamine.symm.trans hmore
          exact hreports.turns y t hy

theorem not_reports (hs : Settled r) (fSocket : Socket)
    (hover : Oversized (r.held ++ fSocket.pending)) : ¬ Reports r fSocket err := by
  intro hreports
  obtain ⟨newOffset, taken, htake, hr, hheld, hpos⟩ := takeLeftover_roomy hs.inv hs.room
  rw [← hheld] at hover
  by_cases hzero : newOffset = 0
  · obtain ⟨y, t, hturns, hretreat, hnone⟩ := exists_turn_full hr fSocket hover
    exact hreports.asks y t (.first htake hzero hturns) hretreat hnone
  · obtain ⟨r', hexamine, hi', hc', hheld'⟩ :=
      examine_oversized hr.inv hr.incomplete (hpos hzero) hover
    have hr' : Roomy r' := ⟨hi', hc', by rw [hheld']; exact hr.room⟩
    obtain ⟨y, t, hturns, hretreat, hnone⟩ := exists_turn_full hr' fSocket (by rwa [hheld'])
    exact hreports.asks y t (.later htake hzero hexamine hturns) hretreat hnone

/-! ## Any run -/

theorem read_settled (hs : Settled r) (inBufLen : Nat) {data : Bytes}
    (h : r.read fSocket inBufLen = some (err, data, r', fSocket')) : Settled r' := by
  refine settled_of_room (read_inv hs.inv h) fun hfalse => ?_
  have hkept : r'.complete = r.complete ∧ r'.requestLen = r.requestLen := by
    unfold read at h
    dsimp only at h
    split_ifs at h <;> cases h <;> exact ⟨rfl, rfl⟩
  have hfalse' : r.complete = false := hkept.1 ▸ hfalse
  have hroom := hs.room
  refine ⟨read_inv hs.inv h, hfalse, ?_⟩
  rw [Inv.held_of_incomplete hfalse', hs.inv.length_fRequest] at hroom
  rwa [Inv.held_of_incomplete hfalse, (read_inv hs.inv h).length_fRequest, hkept.2]

/-- A full buffer is reported, and no live connection is taken for a dead one, throughout a
run exactly if no `ReadRequest` comes to the first 2047 bytes of a packet that is longer. -/
theorem fullReported_iff {s : State} (fresh : Fresh s) (actions : List Action) :
    system.Keeps FullReported (some s) actions ↔ system.Meets PacketsFit (some s) actions := by
  have hfirst : Settled s.stream := by
    have hsound := fresh.sound
    refine ⟨hsound.inv, ?_⟩
    rw [fresh.1]
    simp [held, HTTPRequestStream.fRequest, kRequestBufferSizeInBytes]
  refine System.keeps_iff_meets (fun state => ∃ s, state = some s ∧ Settled s.stream) ?_ ?_
    ⟨s, rfl, hfirst⟩ actions
  · rintro _ a state ⟨s, rfl, hs⟩ hstep hok
    obtain rfl : next s a = state := Option.some.inj hstep
    cases a with
    | readRequest =>
      obtain ⟨err, r', fSocket', hread, hs', hreports⟩ := readRequest_reports hs s.fSocket hok
      simp only [next, hread, Option.map_some]
      exact ⟨⟨err, r', fSocket', hread, hreports⟩, _, rfl, hs'⟩
    | read inBufLen =>
      obtain ⟨err, data, r', fSocket', hread⟩ := read_total hs.inv s.fSocket inBufLen
      simp only [next, hread, Option.map_some]
      exact ⟨trivial, _, rfl, read_settled hs inBufLen hread⟩
  · rintro _ a state ⟨s, rfl, hs⟩ hstep hreported
    obtain rfl : next s a = state := Option.some.inj hstep
    cases a with
    | readRequest =>
      intro hover
      cases hnext : next s .readRequest with
      | none => simp [hnext, FullReported] at hreported
      | some t =>
        rw [hnext] at hreported
        obtain ⟨err, r', fSocket', -, hreports⟩ := hreported
        exact not_reports hs s.fSocket hover hreports
    | read inBufLen => trivial

instance : (state : Option State) → (a : Action) → Decidable (PacketsFit state a)
  | some _, .readRequest => inferInstanceAs (Decidable (¬ _))
  | some _, .read _ => isTrue trivial
  | none, _ => isTrue trivial

/-- A new stream, with the given segment to receive. -/
def receiving (data : Bytes) : State where
  stream := { fRequestBuffer := List.replicate kRequestBufferSizeInBytes 0 }
  fSocket.incoming := Socket.putBack data []

theorem receiving_fresh (data : Bytes) : Fresh (receiving data) :=
  ⟨rfl, List.length_replicate, rfl, rfl⟩

/-- A request, and behind it bytes without a line end, which fill the buffer. -/
theorem fullReported_iff_long :
    system.Keeps FullReported
      (some (receiving (ascii "GET / HTTP/1.0\r\n\r\n" ++ List.replicate 2060 120)))
      [.readRequest, .readRequest] :=
  (fullReported_iff (receiving_fresh _) _).mpr (by decide +kernel)

theorem receiving_data (data : Bytes) :
    (receiving data).stream.held ++ (receiving data).fSocket.pending = data := by
  have hheld : (receiving data).stream.held = [] := rfl
  rw [hheld, List.nil_append, receiving, Socket.pending, if_pos rfl, Socket.front_putBack]
  exact List.append_nil data

/-- A data packet of 65539 bytes fills the buffer, and is not reported. -/
theorem oversizedPacket_not_reported :
    ¬ system.Keeps FullReported
      (some (receiving (36 :: 0 :: 255 :: 255 :: List.replicate 2043 0))) [.readRequest] := by
  rw [fullReported_iff (receiving_fresh _)]
  intro hmeets
  refine (hmeets _ rfl).1 ?_
  rw [receiving_data]
  refine ⟨?_, rfl, by decide +kernel⟩
  simp only [List.length_cons, List.length_replicate, kRequestBufferSizeInBytes]
  decide

end HTTPRequestStream

end CxxFramework.Net
