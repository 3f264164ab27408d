import CxxFramework.Http.RequestStreamRun

/-!
# Handing the input over to another stream

`SnarfRetreat` gives the bytes that a stream has received and not handed over to another
stream, which goes on with them and with the socket. The counter `fRetreatBytesRead` takes
no part in it: neither that of the source, which says where its bytes begin, nor that of
the target, which is not reset.

## Main definitions

* `HTTPRequestStream.left` — the bytes a stream still holds, also those it was given.
* `HTTPRequestStream.HandedOver` — what the target has handed over and still holds are the
  bytes the source held and those received since.
-/

namespace CxxFramework.Net

open CxxFramework.Core Buffer Transition

namespace HTTPRequestStream

/-- The bytes received that were not handed over: the part of a request that has no end
yet, and what `fRetreatBytes` counts. -/
def left (r : HTTPRequestStream) : Bytes :=
  (if r.complete then [] else r.fRequest) ++
    slice r.fRequestBuffer (r.requestLen + r.fRetreatBytesRead) r.fRetreatBytes

/-- `SnarfInputSocket`: the target goes on with the socket of the source. -/
def handOver (source : State) (target : HTTPRequestStream) : Option State :=
  (target.snarfRetreat source.stream).map fun stream => { stream, fSocket := source.fSocket }

/-- What the target has handed over and what it holds: what the source held, and then what
was received since. -/
def HandedOver (source t : State) : Prop :=
  ∃ data, t.fSocket.received = source.fSocket.received ++ data ∧
    t.delivered ++ t.stream.left = source.stream.held ++ data

/-- The source stands between messages. -/
def BetweenMessages (r : HTTPRequestStream) : Prop := r.complete = true ∨ r.fCurOffset = 0

instance (r : HTTPRequestStream) : Decidable (BetweenMessages r) :=
  inferInstanceAs (Decidable (_ ∨ _))

/-- No `Read` has used a part of the bytes that are to be copied, and the target has not
counted any either. -/
def Unread (source target : HTTPRequestStream) : Prop :=
  source.fRetreatBytes = 0 ∨ source.fRetreatBytesRead = 0 ∧ target.fRetreatBytesRead = 0

instance (source target : HTTPRequestStream) : Decidable (Unread source target) :=
  inferInstanceAs (Decidable (_ ∨ _ ∧ _))

/-- `Read` is called between messages, and a `ReadRequest` that begins a message finds that
no bytes are counted as used. -/
def Ordered : Option State → Action → Prop
  | some s, .read _ => BetweenMessages s.stream
  | some s, .readRequest => s.stream.complete = true ∨ s.stream.fRetreatBytesRead = 0
  | none, _ => True

/-! ## The invariant -/

variable {r r' x : HTTPRequestStream} {fSocket fSocket' : Socket} {err : CF_Error}

theorem Inv.left_eq (hi : Inv r) : r.left = r.held := by
  unfold left held
  cases hcomplete : r.complete with
  | true => simp
  | false =>
    obtain ⟨hretreat, -, -⟩ := hi.whole hcomplete
    simp [hretreat, slice]

/-- A stream that was given bytes and has begun no message. -/
structure Given (r : HTTPRequestStream) : Prop where
  size : r.fRequestBuffer.length = kRequestBufferSizeInBytes
  total : r.fRetreatBytes = 0 ∨
    r.fRetreatBytesRead + r.fRetreatBytes ≤ kRequestBufferSizeInBytes - 1
  complete : r.complete = false
  requestLen : r.requestLen = 0
  fCurOffset : r.fCurOffset = 0

theorem Given.left_eq (hg : Given r) :
    r.left = slice r.fRequestBuffer r.fRetreatBytesRead r.fRetreatBytes := by
  simp [left, hg.complete, hg.requestLen, HTTPRequestStream.fRequest]

/-- With nothing given and nothing used, the stream is as a new one. -/
theorem Given.inv (hg : Given r) (hnone : r.fRetreatBytes = 0) (hread : r.fRetreatBytesRead = 0) :
    Inv r where
  size := hg.size
  total := by simp [hg.requestLen, hnone, hread]
  nonempty := by simp [hg.complete]
  whole _ := ⟨hnone, hread, hg.fCurOffset.trans hg.requestLen.symm⟩

/-- What a call receives, hands over and leaves. -/
structure Moved (r : HTTPRequestStream) (fSocket : Socket) (out : Bytes)
    (r' : HTTPRequestStream) (fSocket' : Socket) : Prop where
  good : Inv r' ∨ Given r'
  conserved : ∃ data, fSocket'.received = fSocket.received ++ data ∧
    out ++ r'.left = r.left ++ data

theorem Passed.moved {out : Bytes} (h : Passed r fSocket out r' fSocket')
    (hleft : r.left = r.held) : Moved r fSocket out r' fSocket' where
  good := .inl h.inv
  conserved := by
    obtain ⟨data, hreceived, hout⟩ := h.conserved
    exact ⟨data, hreceived, by rw [h.inv.left_eq, hleft, hout]⟩

/-- The first `ReadRequest` takes what the stream was given for the front of a message. -/
theorem Given.receive (hg : Given r) (hread : r.fRetreatBytesRead = 0) (hpos : 0 < r.fRetreatBytes)
    (fSocket : Socket) :
    ∃ x, r.receive fSocket = some (.ok x, fSocket) ∧ Inv x ∧ x.complete = false ∧
      0 < x.requestLen ∧ x.held = r.left := by
  have htotal := hg.total
  rw [hread] at htotal
  let x : HTTPRequestStream :=
    { r with
      fRetreatBytes := 0
      requestLen := r.requestLen + r.fRetreatBytes
      fCurOffset := r.fCurOffset + r.fRetreatBytes }
  have hx : Inv x := by
    refine ⟨hg.size, ?_, ?_, ?_⟩
    · simp only [x, hg.requestLen, hread]
      omega
    · simp [x, hg.complete]
    · exact fun _ => ⟨rfl, hread, by simp [x, hg.fCurOffset, hg.requestLen]⟩
  refine ⟨x, by rw [HTTPRequestStream.receive, if_pos hpos], hx, hg.complete, ?_, ?_⟩
  · simp only [x]
    omega
  · rw [hg.left_eq, held, if_neg (by simp [x, hg.complete]), hread]
    simp [x, HTTPRequestStream.fRequest, hg.requestLen, slice]

theorem Given.readRequest_spec (hg : Given r) (hread : r.fRetreatBytesRead = 0) (fSocket : Socket) :
    ∃ err r' fSocket', r.readRequest fSocket = some (err, r', fSocket') ∧
      Moved r fSocket (madeAvailable err r') r' fSocket' := by
  rcases Nat.eq_zero_or_pos r.fRetreatBytes with hnone | hpos
  · have hi := hg.inv hnone hread
    obtain ⟨err, r', fSocket', h, hpassed⟩ := HTTPRequestStream.readRequest_spec hi fSocket
    exact ⟨err, r', fSocket', h, hpassed.moved hi.left_eq⟩
  · obtain ⟨x, hreceive, hix, hcx, hlen, hheld⟩ := hg.receive hread hpos fSocket
    have htake : r.takeLeftover = some (0, r) := by
      rw [takeLeftover, if_neg (by simp [hg.complete])]
    have hloop : r.readRequest fSocket = r.readLoop fSocket := by
      rw [readRequest, htake]
      rfl
    rw [hloop, readLoop_ok hreceive]
    rcases examine_spec hix hcx hlen with
      ⟨err, r', hexamine, hi', hc', herr, hsplit⟩ | ⟨r', hexamine, hi', hc', hsame⟩
    · refine ⟨err, r', fSocket, by rw [hexamine], .inl hi', [], (List.append_nil _).symm, ?_⟩
      rw [madeAvailable, if_pos ⟨herr, hc'⟩, hi'.left_eq, hsplit, hheld, List.append_nil]
    · obtain ⟨err, r'', fSocket', hrest, hpassed⟩ := readLoop_spec hi' hc' fSocket
      refine ⟨err, r'', fSocket', by rw [hexamine]; exact hrest, .inl hpassed.inv, ?_⟩
      obtain ⟨data, hreceived, hout⟩ := hpassed.conserved
      exact ⟨data, hreceived, by rw [hpassed.inv.left_eq, hout, hsame, hheld]⟩

/-- `Read` hands over what the stream was given, and then new data. -/
theorem Given.read_spec (hg : Given r) (fSocket : Socket) (inBufLen : Nat) :
    ∃ err data r' fSocket', r.read fSocket inBufLen = some (err, data, r', fSocket') ∧
      Moved r fSocket data r' fSocket' := by
  have htotal := hg.total
  have hsize := hg.size
  unfold kRequestBufferSizeInBytes at htotal hsize
  generalize hn : min r.fRetreatBytes inBufLen = n
  have hle : n ≤ r.fRetreatBytes := hn ▸ min_le_left _ _
  have hfits : ¬ (r.fRetreatBytes > 0 ∧
      r.requestLen + r.fRetreatBytesRead + n > r.fRequestBuffer.length) := by
    rw [hg.requestLen]
    omega
  let r' : HTTPRequestStream :=
    { r with fRetreatBytes := r.fRetreatBytes - n, fRetreatBytesRead := r.fRetreatBytesRead + n }
  have hg' : Given r' := by
    refine ⟨hg.size, ?_, hg.complete, hg.requestLen, hg.fCurOffset⟩
    simp only [r', kRequestBufferSizeInBytes]
    omega
  have hleft :
      slice r.fRequestBuffer (r.requestLen + r.fRetreatBytesRead) n ++ r'.left = r.left := by
    rw [hg.left_eq, hg'.left_eq, hg.requestLen, Nat.zero_add]
    exact (slice_split r.fRequestBuffer r.fRetreatBytesRead hle).symm
  unfold read
  simp only [hn, if_neg hfits]
  split_ifs with hall
  · exact ⟨_, _, _, _, rfl, .inr hg', [], (List.append_nil _).symm,
      by rw [List.append_nil]; exact hleft⟩
  · -- the socket is read once nothing is left
    have hempty : r'.left = [] := by
      have hzero : r.fRetreatBytes - n = 0 := by omega
      rw [hg'.left_eq]
      simp [r', hzero, slice]
    rw [hempty, List.append_nil] at hleft
    rcases fSocket.read_cases (inBufLen - n) with
      ⟨-, hdata, hreceived⟩ | ⟨data, -, hdata, -, -, hreceived⟩
    · refine ⟨_, _, _, _, rfl, .inr hg', [], ?_, ?_⟩
      · rw [hreceived, List.append_nil]
      · rw [hdata, hempty, hleft]
        simp
    · refine ⟨_, _, _, _, rfl, .inr hg', data, hreceived, ?_⟩
      rw [hdata, hempty, hleft]
      simp

/-! ## The hand-over and what follows it -/

theorem Inv.requestLen_of_between (hi : Inv r) (hbetween : BetweenMessages r)
    (hcomplete : r.complete = false) : r.requestLen = 0 := by
  obtain ⟨-, -, hoffset⟩ := hi.whole hcomplete
  rcases hbetween with hc | hzero
  · simp [hc] at hcomplete
  · exact hoffset.symm.trans hzero

theorem snarfRetreat_spec {source target : HTTPRequestStream} (hi : Inv source)
    (hbetween : BetweenMessages source)
    (hsize : target.fRequestBuffer.length = kRequestBufferSizeInBytes)
    (hunread : Unread source target) :
    ∃ r, target.snarfRetreat source = some r ∧ Given r ∧ r.left = source.held := by
  have htotal := hi.total
  have hlen := hi.size
  unfold kRequestBufferSizeInBytes at htotal hsize hlen
  have hcopied : (slice source.fRequestBuffer source.requestLen source.fRetreatBytes).length =
      source.fRetreatBytes := by
    rw [length_slice]
    omega
  obtain ⟨mem, hwrite⟩ : ∃ mem, write target.fRequestBuffer 0
      (slice source.fRequestBuffer source.requestLen source.fRetreatBytes) = some mem :=
    ⟨_, write_of_le (by omega)⟩
  have htake : mem.take source.fRetreatBytes =
      slice source.fRequestBuffer source.requestLen source.fRetreatBytes := by
    have h := take_write hwrite
    rwa [hcopied, Nat.zero_add, List.take_zero, List.nil_append] at h
  let r : HTTPRequestStream :=
    { target with
      fRequestBuffer := mem
      complete := false
      fRetreatBytes := source.fRetreatBytes
      fCurOffset := 0
      requestLen := 0 }
  have hg : Given r := by
    refine ⟨(length_write hwrite).trans hsize, ?_, rfl, rfl, rfl⟩
    rcases hunread with hnone | ⟨-, hread⟩
    · exact .inl hnone
    · refine .inr ?_
      simp only [r, hread, kRequestBufferSizeInBytes]
      omega
  refine ⟨r, ?_, hg, ?_⟩
  · rw [snarfRetreat, if_pos (by omega), hwrite, Option.map_some]
  · have hheld : source.held =
        slice source.fRequestBuffer (source.requestLen + source.fRetreatBytesRead)
          source.fRetreatBytes := by
      rw [← hi.left_eq, left]
      cases hc : source.complete with
      | true => rw [if_pos rfl, List.nil_append]
      | false => simp [HTTPRequestStream.fRequest, hi.requestLen_of_between hbetween hc]
    rw [hg.left_eq, hheld]
    rcases hunread with hnone | ⟨hsource, htarget⟩
    · simp [r, hnone, slice]
    · simp only [r, hsource, htarget, Nat.add_zero]
      rw [← htake]
      rfl

/-- What holds of the target between the calls. -/
structure Continues (source t : State) : Prop where
  good : Inv t.stream ∨ Given t.stream
  handedOver : HandedOver source t

theorem Continues.moved {source t : State} (h : Continues source t) {out : Bytes}
    {stream : HTTPRequestStream} {socket : Socket}
    (hmoved : Moved t.stream t.fSocket out stream socket) :
    Continues source { stream, fSocket := socket, delivered := t.delivered ++ out } where
  good := hmoved.good
  handedOver := by
    obtain ⟨before, hbefore, hleft⟩ := h.handedOver
    obtain ⟨data, hdata, hout⟩ := hmoved.conserved
    refine ⟨before ++ data, ?_, ?_⟩
    · simp only [hdata, hbefore, List.append_assoc]
    · rw [List.append_assoc, hout, ← List.append_assoc, hleft, List.append_assoc]

/-- One call on the target. -/
theorem next_continues {source s : State} (h : Continues source s) {a : Action}
    (hordered : Ordered (some s) a) : ∃ t, next s a = some t ∧ Continues source t := by
  cases a with
  | readRequest =>
    obtain ⟨err, stream, socket, hread, hmoved⟩ : ∃ err r' fSocket',
        s.stream.readRequest s.fSocket = some (err, r', fSocket') ∧
          Moved s.stream s.fSocket (madeAvailable err r') r' fSocket' := by
      rcases h.good with hi | hg
      · obtain ⟨err, r', fSocket', hread, hpassed⟩ := readRequest_spec hi s.fSocket
        exact ⟨err, r', fSocket', hread, hpassed.moved hi.left_eq⟩
      · rcases hordered with hcomplete | hzero
        · rw [hg.complete] at hcomplete
          cases hcomplete
        · exact hg.readRequest_spec hzero s.fSocket
    exact ⟨_, by rw [next, hread]; rfl, h.moved hmoved⟩
  | read inBufLen =>
    obtain ⟨err, data, stream, socket, hread, hmoved⟩ : ∃ err data r' fSocket',
        s.stream.read s.fSocket inBufLen = some (err, data, r', fSocket') ∧
          Moved s.stream s.fSocket data r' fSocket' := by
      rcases h.good with hi | hg
      · obtain ⟨err, data, r', fSocket', hread, hpassed⟩ :=
          read_spec hi hordered s.fSocket inBufLen
        exact ⟨err, data, r', fSocket', hread, hpassed.moved hi.left_eq⟩
      · exact hg.read_spec s.fSocket inBufLen
    exact ⟨_, by rw [next, hread]; rfl, h.moved hmoved⟩

/-- A source of which no byte behind the header was used hands its input over: in every run of
the target that does not begin a message with bytes counted as used, what it hands over and
still holds are the bytes of the source and those received since. -/
theorem handedOver_of_ordered {source : State} (hsource : system.Reachable (some source))
    (hbetween : BetweenMessages source.stream) {target : HTTPRequestStream}
    (hsize : target.fRequestBuffer.length = kRequestBufferSizeInBytes)
    (hunread : Unread source.stream target) :
    ∃ s, handOver source target = some s ∧ HandedOver source s ∧
      ∀ actions, system.Meets Ordered (some s) actions →
        system.Keeps (fun _ _ state => ∃ t, state = some t ∧ HandedOver source t) (some s)
          actions := by
  obtain ⟨r, hsnarf, hg, hleft⟩ :=
    snarfRetreat_spec (inv_of_reachable hsource) hbetween hsize hunread
  have hstart : Continues source { stream := r, fSocket := source.fSocket } := by
    refine ⟨.inr hg, [], (List.append_nil _).symm, ?_⟩
    simp [hleft]
  refine ⟨_, by rw [handOver, hsnarf]; rfl, hstart.handedOver, fun actions hmeets => ?_⟩
  refine System.Meets.keeps (fun state => ∃ t, state = some t ∧ Continues source t) ?_
    ⟨_, rfl, hstart⟩ hmeets
  rintro _ a state ⟨s, rfl, hs⟩ hstep hordered
  obtain ⟨t, ht, hcontinues⟩ := next_continues hs hordered
  obtain rfl : next s a = state := Option.some.inj hstep
  exact ⟨⟨t, ht, hcontinues.handedOver⟩, t, ht, hcontinues⟩

/-! ## Sources and targets -/

theorem reachable_next {s t : State} {a : Action} (hs : system.Reachable (some s))
    (h : next s a = some t) : system.Reachable (some t) :=
  .step hs (congrArg some h)

/-- A request and three bytes behind it, and then two more. -/
def fiveBehind : State :=
  { stream := { fRequestBuffer := List.replicate kRequestBufferSizeInBytes 0 }
    fSocket.incoming := [.segment 65 (ascii " B\r\n\r\nxyz"), .segment 49 (ascii "2")] }

theorem fiveBehind_fresh : Fresh fiveBehind := ⟨rfl, List.length_replicate, rfl, rfl⟩

theorem fiveBehind_arrives : (next fiveBehind .readRequest).isSome := by decide +kernel

/-- The request has arrived. -/
def arrived : State := (next fiveBehind .readRequest).get fiveBehind_arrives

theorem arrived_reachable : system.Reachable (some arrived) :=
  reachable_next (.init ⟨_, rfl, fiveBehind_fresh⟩) (Option.some_get _).symm

def newTarget : HTTPRequestStream :=
  { fRequestBuffer := List.replicate kRequestBufferSizeInBytes 0 }

theorem handedOver_of_ordered_arrived :
    ∃ s, handOver arrived newTarget = some s ∧ HandedOver arrived s ∧
      ∀ actions, system.Meets Ordered (some s) actions →
        system.Keeps (fun _ _ state => ∃ t, state = some t ∧ HandedOver arrived t) (some s)
          actions :=
  handedOver_of_ordered arrived_reachable (by decide +kernel) List.length_replicate
    (by decide +kernel)

theorem arrived_reads : (next arrived (.read 1)).isSome := by decide +kernel

/-- The first of the bytes behind the request was read. -/
def firstRead : State := (next arrived (.read 1)).get arrived_reads

theorem firstRead_reachable : system.Reachable (some firstRead) :=
  reachable_next arrived_reachable (Option.some_get _).symm

theorem firstRead_handsOver : (handOver firstRead newTarget).isSome := by decide +kernel

/-- The target that was given the rest. -/
def given : State := (handOver firstRead newTarget).get firstRead_handsOver

theorem given_reads : (next given (.read 2)).isSome := by decide +kernel

/-- The target hands over `xy` where the source was left with `yz`. -/
theorem firstRead_not_handedOver :
    system.Reachable (some firstRead) ∧ BetweenMessages firstRead.stream ∧
      firstRead.stream.held = ascii "yz" ∧ handOver firstRead newTarget = some given ∧
      ∃ t, next given (.read 2) = some t ∧ t.delivered = ascii "xy" ∧ ¬ HandedOver firstRead t := by
  refine ⟨firstRead_reachable, by decide +kernel, by decide +kernel, (Option.some_get _).symm,
    (next given (.read 2)).get given_reads, (Option.some_get _).symm, by decide +kernel, ?_⟩
  rintro ⟨data, hreceived, hleft⟩
  have hsame : ((next given (.read 2)).get given_reads).fSocket.received =
      firstRead.fSocket.received := by decide +kernel
  obtain rfl : data = [] := List.self_eq_append_right.mp (hsame.symm.trans hreceived)
  exact absurd hleft (by decide +kernel)

end HTTPRequestStream

end CxxFramework.Net
