import CxxFramework.Http.HTTPClientRequestStream

/-!
# Receiving over a tunnel

Calls of `ReadRequest` on a stream that reads from the tunnel client: until the answer to the
GET has arrived a call finds nothing, the call that receives it takes what has arrived behind
its header, and from then on the calls read from the connection.

## Main definitions

* `HTTPClientRequestStream.Messages` — bytes and the messages in them, which fit into the
  buffer.
* `HTTPClientRequestStream.AllClear` — every look that a call takes at the bytes received stays
  inside them.
* `HTTPClientRequestStream.Right` — no access leaves a buffer, no assert fails, and the calls
  find the messages.
-/

namespace CxxFramework.Net

open CxxFramework.Core Buffer Search Transition HTTPClientSocket

namespace HTTPClientRequestStream

open HTTPRequestStream (Inv Holds Ready Segmentation Unfinished Distinct messageEnd messageEnd_le)

/-! ## The looks of a call -/

/-- What stands in the buffer, which held `held`, with the first `k` segments. -/
def looked (held : Bytes) (segments : List Bytes) (k : Nat) : Bytes :=
  (held ++ (segments.take k).flatten).take (kRequestBufferSizeInBytes - 1)

/-- What is looked at until a message is found is clear. -/
def AllClear (held : Bytes) (segments : List Bytes) : Prop :=
  ∀ k ≤ segments.length, (∀ j < k, messageEnd (looked held segments j) = none) →
    Clear (looked held segments k)

instance (held : Bytes) (segments : List Bytes) : Decidable (AllClear held segments) :=
  inferInstanceAs (Decidable (∀ k, k ≤ segments.length → _))

variable {held s t p segment : Bytes} {segments : List Bytes} {ms left : List Bytes}

theorem looked_zero (hle : held.length ≤ kRequestBufferSizeInBytes - 1) (segments : List Bytes) :
    looked held segments 0 = held := by
  simp [looked, List.take_of_length_le hle]

theorem looked_one (hle : held.length ≤ kRequestBufferSizeInBytes - 1) (segment : Bytes)
    (segments : List Bytes) :
    looked held (segment :: segments) 1 =
      held ++ segment.take (kRequestBufferSizeInBytes - 1 - held.length) := by
  simp [looked, List.take_append, List.take_of_length_le hle]

theorem looked_cons (held segment : Bytes) (segments : List Bytes) (k : Nat) :
    looked held (segment :: segments) (k + 1) = looked (held ++ segment) segments k := by
  simp [looked]

theorem AllClear.now (h : AllClear held segments)
    (hle : held.length ≤ kRequestBufferSizeInBytes - 1) : Clear held := by
  have hclear := h 0 (Nat.zero_le _) nofun
  rwa [looked_zero hle] at hclear

theorem AllClear.next (h : AllClear held (segment :: segments))
    (hle : held.length ≤ kRequestBufferSizeInBytes - 1) (hnone : messageEnd held = none) :
    Clear (held ++ segment.take (kRequestBufferSizeInBytes - 1 - held.length)) := by
  rw [← looked_one hle segment segments]
  refine h 1 (by simp) fun j hj => ?_
  obtain rfl : j = 0 := by omega
  rwa [looked_zero hle]

theorem AllClear.tail (h : AllClear held (segment :: segments))
    (hle : held.length ≤ kRequestBufferSizeInBytes - 1) (hnone : messageEnd held = none) :
    AllClear (held ++ segment) segments := by
  intro k hk hbefore
  rw [← looked_cons]
  refine h (k + 1) (by simpa using hk) fun j hj => ?_
  cases j with
  | zero => rwa [looked_zero hle]
  | succ j =>
    rw [looked_cons]
    exact hbefore j (by omega)

/-! ## Messages -/

/-- Bytes and the messages in them. Each one fits into the buffer, and is told apart from what
has been received behind it; behind the last one, a part of a message may follow. -/
inductive Messages : Bytes → List Bytes → Prop
  | tail {s : Bytes} : Unfinished s → s.length < kRequestBufferSizeInBytes - 1 → Messages s []
  | message {m rest : Bytes} {ms : List Bytes} : m.length ≤ kRequestBufferSizeInBytes - 1 →
      Distinct m (rest.take (kRequestBufferSizeInBytes - 1 - m.length)) → Messages rest ms →
      Messages (m ++ rest) (m :: ms)

/-- A buffer without a message is not full. -/
theorem Messages.room (h : Messages s ms) (hp : p <+: s) (hnone : messageEnd p = none) :
    p.length ≠ kRequestBufferSizeInBytes - 1 := by
  intro hfull
  cases h with
  | tail _ hshort =>
    have hle := hp.length_le
    omega
  | message hm hd _ =>
    rw [hd.messageEnd_of_fits hm hp hfull.le, if_pos (by omega)] at hnone
    cases hnone

/-- Bytes without a message come to no message. -/
theorem Messages.eq_nil (h : Messages s ms) (hle : s.length ≤ kRequestBufferSizeInBytes - 1)
    (hnone : messageEnd s = none) : ms = [] := by
  cases h with
  | tail => rfl
  | message hm hd _ =>
    rw [hd.messageEnd_of_fits hm List.prefix_rfl hle, if_pos (by simp)] at hnone
    cases hnone

/-- What is found is the first message. -/
theorem Messages.found {n : Nat} (h : Messages s ms) (hp : p <+: s)
    (hle : p.length ≤ kRequestBufferSizeInBytes - 1) (hn : messageEnd p = some n) :
    ∃ ms', ms = s.take n :: ms' ∧ Messages (s.drop n) ms' := by
  cases h with
  | tail hopen =>
    rw [hopen.messageEnd_prefix hp] at hn
    cases hn
  | message hm hd hrest =>
    rw [hd.messageEnd_of_fits hm hp hle] at hn
    split_ifs at hn
    cases hn
    rw [List.take_left, List.drop_left]
    exact ⟨_, rfl, hrest⟩

/-! ## One call on an open tunnel -/

variable {r r' x : HTTPRequestStream} {fSocket fSocket' : HTTPClientSocket}
  {outcome : ConnectOutcome} {base : Nat}

/-- What a call comes to: it finds the first message, or it goes on to wait for more bytes. -/
def Found (left : List Bytes) (err : CF_Error) (r : HTTPRequestStream)
    (fSocket : HTTPClientSocket) : Prop :=
  ∃ base t left', Ready r fSocket.fGetSocket base t ∧ Messages t left' ∧
    left = (if err = CF_RequestArrived then [r.fRequest] else []) ++ left' ∧
    (err = CF_NoErr → fSocket.fGetSocket.incoming = [] → left' = [])

/-- One look at what is held. -/
theorem look (h : Holds x fSocket.fGetSocket base t) (hm : Messages t left)
    (hcomplete : x.complete = false) (hpos : 0 < x.requestLen) (hclear : Clear x.held) :
    (∃ r', examine x = some (some CF_RequestArrived, r') ∧
        Found left CF_RequestArrived r' fSocket) ∨
      ∃ r', examine x = some (none, r') ∧ r'.complete = false ∧ r'.held = x.held ∧
        messageEnd x.held = none ∧ x.held.length ≠ kRequestBufferSizeInBytes - 1 ∧
        Ready r' fSocket.fGetSocket base t := by
  have hexamine : examine x = some x.examine := by
    rw [examine_eq h.inv hpos, if_pos]
    rwa [Inv.held_of_incomplete hcomplete] at hclear
  cases hn : messageEnd x.held with
  | some n =>
    obtain ⟨r', hfound, hr', -, hrequest, -⟩ := h.examine_found hcomplete hn
    obtain ⟨left', rfl, hrest⟩ := hm.found h.prefix h.inv.length_held_le hn
    refine .inl ⟨r', by rw [hexamine, hfound], base + n, t.drop n, left', hr', hrest, ?_, ?_⟩
    · rw [if_pos rfl, hrequest]
      rfl
    · exact fun hbad => absurd hbad (by decide)
  | none =>
    have hroom := hm.room h.prefix hn
    obtain ⟨r', hmore, hc', hheld, hr'⟩ :=
      h.examine_more hcomplete hpos hn fun hfull => absurd hfull hroom
    exact .inr ⟨r', by rw [hexamine, hmore], hc', hheld, rfl, hroom, hr'⟩

/-- A call on an open tunnel receives a segment, as far as it fits. -/
theorem receive_segment {first : UInt8} {rest : Bytes} {incoming : List RecvEvent}
    (ho : Open fSocket) (hcalm : outcome.Calm) (h : Ready r fSocket.fGetSocket base t)
    (hcomplete : r.complete = false) (hroom : r.held.length ≠ kRequestBufferSizeInBytes - 1)
    (hincoming : fSocket.fGetSocket.incoming = .segment first rest :: incoming) :
    ∃ x fSocket', receive r fSocket outcome = some (.ok x, fSocket') ∧ Open fSocket' ∧
      Holds x fSocket'.fGetSocket base t ∧ x.complete = false ∧ 0 < x.requestLen ∧
      x.held = r.held ++ (first :: rest).take (kRequestBufferSizeInBytes - 1 - r.held.length) ∧
      fSocket'.fGetSocket.incoming = Socket.putBack
        ((first :: rest).drop (kRequestBufferSizeInBytes - 1 - r.held.length)) incoming := by
  obtain ⟨t, hseg, rfl⟩ := h.stream
  obtain ⟨-, -, hoffset⟩ := h.inv.whole hcomplete
  have hle := h.inv.length_held_le
  have hlen := h.inv.length_fRequest
  rw [← Inv.held_of_incomplete hcomplete] at hlen
  have hsize : (room r).length = kRequestBufferSizeInBytes - 1 - r.held.length := by
    rw [length_room h.inv]
    omega
  have hread := ho.read_segment hcalm hincoming (room r) (by omega) 0
  rw [hsize] at hread
  obtain ⟨x, hreceive, hix, hcx, hpos, hheld⟩ := receive_data h.inv hcomplete hread
    (by simp; omega) (by rw [List.length_take]; omega)
  refine ⟨x, _, hreceive,
    ⟨⟨ho.holds.count, ho.holds.length, ho.holds.fits, ho.holds.content⟩, ho.bound, ho.connected,
      ho.sendBufferLen, ho.fSentLength⟩,
    ⟨hix, ho.connected, ?_, ?_⟩, hcx, hpos, hheld, rfl⟩
  · rw [hincoming] at hseg
    cases hseg with
    | segment hseg =>
      refine ⟨_, hseg.putBack _, ?_⟩
      rw [hheld, List.append_assoc, ← List.append_assoc (List.take _ _), List.take_append_drop]
  · rw [hheld, List.length_append, List.length_append, h.base_eq, Nat.add_assoc]

/-- What has been received is looked at, and then what follows it; here nothing is ready. -/
theorem readLoop_noData (ho : Open fSocket) (hcalm : outcome.Calm)
    (h : Ready r fSocket.fGetSocket base t) (hm : Messages t left) (hcomplete : r.complete = false)
    (hnone : NoData fSocket.fGetSocket.incoming) :
    ∃ fSocket', readLoop r fSocket outcome = some (CF_NoErr, r, fSocket') ∧ Open fSocket' ∧
      Found left CF_NoErr r fSocket' := by
  obtain ⟨hretreat, -, -⟩ := h.inv.whole hcomplete
  obtain ⟨incoming, hread, hlater⟩ := ho.read_noData hcalm hnone (room r) 0
  obtain ⟨t, hseg, rfl⟩ := h.stream
  have hseg' : Segmentation incoming t := by
    rcases hlater with rfl | hlater
    · exact hseg
    · rw [hlater] at hseg
      cases hseg with
      | wouldBlock hseg => exact hseg
  refine ⟨_, readLoop_error (receive_again hretreat hread),
    ⟨⟨ho.holds.count, ho.holds.length, ho.holds.fits, ho.holds.content⟩, ho.bound, ho.connected,
      ho.sendBufferLen, ho.fSentLength⟩, base, r.held ++ t, left,
    ⟨⟨h.inv, ho.connected, ⟨t, hseg', rfl⟩, h.base_eq⟩, h.waiting⟩, hm, rfl, ?_⟩
  intro _ hnil
  obtain rfl : incoming = [] := hnil
  cases hseg'
  rw [List.append_nil] at hm
  exact hm.eq_nil h.inv.length_held_le (h.waiting hcomplete).1

/-- Before a segment, no data is ready. -/
theorem noData_of_ready {incoming : List RecvEvent} (hseg : Segmentation incoming s)
    (hready : ready incoming = []) : NoData incoming := by
  cases hseg with
  | nil => exact .inl rfl
  | segment => cases hready
  | wouldBlock => exact .inr ⟨_, rfl⟩

/-- The loop of `ReadRequest`, by induction on the segments that are ready. -/
theorem readLoop_open (ho : Open fSocket) (hcalm : outcome.Calm)
    (h : Ready r fSocket.fGetSocket base t) (hm : Messages t left) (hcomplete : r.complete = false)
    (hclear : AllClear r.held (ready fSocket.fGetSocket.incoming)) :
    ∃ err r' fSocket', readLoop r fSocket outcome = some (err, r', fSocket') ∧ Open fSocket' ∧
      Found left err r' fSocket' := by
  generalize hready : ready fSocket.fGetSocket.incoming = segments at hclear
  induction segments generalizing r fSocket with
  | nil =>
    obtain ⟨t', hseg, -⟩ := h.stream
    obtain ⟨fSocket', hloop, ho', hfound⟩ :=
      readLoop_noData ho hcalm h hm hcomplete (noData_of_ready hseg hready)
    exact ⟨_, _, _, hloop, ho', hfound⟩
  | cons segment segments ih =>
    have hle := h.inv.length_held_le
    have hnone := (h.waiting hcomplete).1
    obtain ⟨first, rest, incoming, rfl, hincoming, hrest⟩ := ready_eq_cons hready
    obtain ⟨x, socket, hreceive, hox, hx, hcx, hpos, hheld, hleft⟩ :=
      receive_segment ho hcalm h hcomplete (hm.room h.prefix hnone) hincoming
    rw [readLoop_ok hreceive]
    rcases look hx hm hcx hpos (hheld ▸ hclear.next hle hnone) with
      ⟨r', hexamine, hfound⟩ | ⟨r', hexamine, hc', hheld', hnone', hroom, hr'⟩
    · rw [hexamine]
      exact ⟨_, _, _, rfl, hox, hfound⟩
    · rw [hexamine]
      rw [hheld, List.length_append, List.length_take] at hroom
      have hfits : (first :: rest).length ≤ kRequestBufferSizeInBytes - 1 - r.held.length := by
        omega
      rw [List.drop_of_length_le hfits] at hleft
      rw [List.take_of_length_le hfits] at hheld
      refine ih hox hr' hc' ?_ ?_
      · rw [hleft]
        exact hrest
      · rw [hheld', hheld]
        exact hclear.tail hle hnone

/-- A call looks at the bytes left from the last message first, if there are any. -/
theorem readRequest_open (ho : Open fSocket) (hcalm : outcome.Calm)
    (h : Ready r fSocket.fGetSocket base t) (hm : Messages t left)
    (hclear : AllClear r.held (ready fSocket.fGetSocket.incoming)) :
    ∃ err r' fSocket', readRequest r fSocket outcome = some (err, r', fSocket') ∧ Open fSocket' ∧
      Found left err r' fSocket' := by
  obtain ⟨newOffset, taken, htake, hct, htaken, hheld, hcases⟩ := h.takeLeftover
  rw [← hheld] at hclear
  rw [readRequest, htake, Option.bind_some]
  dsimp only
  rcases hcases with ⟨rfl, hready⟩ | ⟨hne, hpos⟩
  · rw [if_pos rfl]
    exact readLoop_open ho hcalm hready hm hct hclear
  · rw [if_neg hne]
    rcases look htaken hm hct hpos (hclear.now htaken.inv.length_held_le) with
      ⟨r', hexamine, hfound⟩ | ⟨r', hexamine, hc', hheld', -, -, hr'⟩
    · rw [hexamine]
      exact ⟨_, _, _, rfl, ho, hfound⟩
    · rw [hexamine]
      exact readLoop_open ho hcalm hr' hm hc' (hheld' ▸ hclear)

/-! ## One call that waits for the answer -/

variable {incoming X : List RecvEvent} {got L bytes rest : Bytes}

/-- What arrives behind the answer is what follows its header. -/
theorem segmentation_of_answer (h : answer got incoming = some (L, X))
    (hgot : got.length ≤ kSendBufferLen) (hseg : Segmentation incoming s) :
    ∃ t, Segmentation X t ∧ after blankLine (got ++ s) = some (L ++ t) := by
  induction incoming generalizing got s with
  | nil => cases h
  | cons event incoming ih =>
    cases event with
    | segment first rest =>
      cases hseg with
      | @segment _ _ s _ hseg =>
        have hle := length_taken_le hgot (first :: rest)
        rw [answer] at h
        cases hfound : strstr (got ++ taken got (first :: rest)) blankLine with
        | some pos =>
          rw [hfound] at h
          cases h
          refine ⟨_, hseg.putBack _, ?_⟩
          have hafter : after blankLine (got ++ taken got (first :: rest)) =
              some ((got ++ taken got (first :: rest)).drop (pos + 4)) :=
            after_of_start (cString_start _) hfound rfl
          rw [← after_append hafter, taken, List.append_assoc got,
            ← List.append_assoc (List.take _ _), List.take_append_drop]
        | none =>
          rw [hfound] at h
          obtain ⟨t, hrest, hafter⟩ := ih h hle hseg
          rw [taken_of_fits (length_le_of_answer hgot hfound h), List.append_assoc] at hafter
          exact ⟨t, hrest, hafter⟩
    | failed errno => cases h
    | closed => cases h

/-- The answer is not ready, or all of its header is, with some bytes behind it that are
clear. -/
def AnswerClear (incoming : List RecvEvent) : Prop :=
  ready incoming = [] ∨
    ∃ arrived ∈ answer [] incoming, arrived.1 ≠ [] ∧ AllClear arrived.1 (ready arrived.2)

instance (incoming : List RecvEvent) : Decidable (AnswerClear incoming) :=
  inferInstanceAs (Decidable (_ ∨ _))

/-- A new stream that waits for the answer. -/
structure Idle (r : HTTPRequestStream) : Prop where
  inv : Inv r
  complete : r.complete = false
  held : r.held = []

theorem readRequest_of_incomplete (hcomplete : r.complete = false) :
    readRequest r fSocket outcome = readLoop r fSocket outcome := by
  simp [readRequest, HTTPRequestStream.takeLeftover, hcomplete]

theorem Idle.length_room (hr : Idle r) : (room r).length = kSendBufferLen - 1 := by
  obtain ⟨-, -, hoffset⟩ := hr.inv.whole hr.complete
  have hlen := hr.inv.length_fRequest
  rw [← Inv.held_of_incomplete hr.complete, hr.held] at hlen
  rw [HTTPClientRequestStream.length_room hr.inv, hoffset, ← hlen]
  rfl

/-- A call that waits for the answer finds nothing, or receives it. -/
theorem readRequest_waiting (hw : Waiting fSocket) (hr : Idle r)
    (htext : fSocket.fGetSocket.connected = false → fSocket.getText.length ≤ kSendBufferLen)
    (hcalm : outcome.Calm) (hout : ∀ o ∈ fSocket.fGetSocket.outgoing, o.Calm)
    (hseg : Segmentation fSocket.fGetSocket.incoming bytes)
    (hafter : after blankLine bytes = some rest) (hm : Messages rest left)
    (hclear : ∀ result ∈ fSocket.bringUp outcome, result.1 = OS_NoErr →
      AnswerClear fSocket.fGetSocket.incoming) :
    (∃ fSocket', readRequest r fSocket outcome = some (CF_NoErr, r, fSocket') ∧
        Waiting fSocket' ∧ Segmentation fSocket'.fGetSocket.incoming bytes) ∨
      ∃ err r' fSocket', readRequest r fSocket outcome = some (err, r', fSocket') ∧
        Open fSocket' ∧ Found left err r' fSocket' := by
  obtain ⟨hretreat, -, hoffset⟩ := hr.inv.whole hr.complete
  have hsize := hr.length_room
  rw [readRequest_of_incomplete hr.complete]
  by_cases hwait : ∀ result ∈ fSocket.bringUp outcome, result.1 = OS_NoErr →
      NoData fSocket.fGetSocket.incoming
  · obtain ⟨n, fSocket', hread, hw', hlater⟩ :=
      hw.read_noData htext hcalm hout hwait (by rw [hsize]; decide) 0
    refine .inl ⟨fSocket', readLoop_error (receive_again hretreat hread), hw', ?_⟩
    rcases hlater with hsame | hlater
    · rw [hsame]
      exact hseg
    · rw [hlater] at hseg
      cases hseg with
      | wouldBlock hseg => exact hseg
  · -- the call comes to the answer, which is ready
    push Not at hwait
    obtain ⟨⟨theErr, h₁⟩, hbring, rfl, hdata⟩ := hwait
    obtain ⟨⟨L, X⟩, hanswer, hL, hlooks⟩ := (hclear _ hbring rfl).resolve_left fun hnone =>
      hdata (noData_of_ready hseg hnone)
    obtain ⟨fSocket', hread, ho, hin, hreceived⟩ :=
      hw.read_answer htext hcalm hout ⟨h₁, hbring⟩ hanswer hL hsize 0
    obtain ⟨t, hrest, hafter'⟩ := segmentation_of_answer hanswer (Nat.zero_le _) hseg
    rw [List.nil_append, hafter, Option.some.injEq] at hafter'
    have hlt := length_answer_lt hanswer (Nat.zero_le _)
    obtain ⟨x, hreceive, hix, hcx, hpos, hheld⟩ := receive_data hr.inv hr.complete hread hL (by
      rw [← HTTPClientRequestStream.length_room hr.inv, hsize]
      omega)
    rw [hr.held, List.nil_append] at hheld
    have hx : Holds x fSocket'.fGetSocket (fSocket'.fGetSocket.received.length - L.length) rest :=
      ⟨hix, ho.connected, ⟨t, hin ▸ hrest, by rw [hheld]; exact hafter'⟩,
        by rw [hheld]; omega⟩
    have hle := hix.length_held_le
    rw [← hheld] at hlooks
    rw [readLoop_ok hreceive]
    rcases look hx hm hcx hpos (hlooks.now hle) with
      ⟨r', hexamine, hfound⟩ | ⟨r', hexamine, hc', hheld', -, -, hr'⟩
    · rw [hexamine]
      exact .inr ⟨_, _, _, rfl, ho, hfound⟩
    · rw [hexamine]
      exact .inr (readLoop_open ho hcalm hr' hm hc' (by rw [hheld', hin]; exact hlooks))

/-! ## Runs -/

/-- A stream, its socket, the messages that the calls found, whether the last one found none,
and whether all of them returned. -/
structure State where
  stream : HTTPRequestStream
  fSocket : HTTPClientSocket
  found : List Bytes := []
  idle : Bool := false
  returned : Bool := true
deriving DecidableEq, Repr

/-- A call of `ReadRequest`, with what the kernel answers to `connect` and to the sends. -/
structure Action where
  outcome : ConnectOutcome := {}
  outgoing : List SendOutcome := []
deriving DecidableEq, Repr

/-- The socket with which a call starts. -/
def start (s : State) (a : Action) : HTTPClientSocket :=
  { s.fSocket with fGetSocket.outgoing := a.outgoing }

/-- A call that does not return leaves no state to go on from. -/
def next (s : State) (a : Action) : Option State :=
  if s.returned then
    match readRequest s.stream (start s a) a.outcome with
    | none => some { s with returned := false }
    | some (err, stream, fSocket) =>
      some
        { stream
          fSocket
          found := s.found ++ if err = CF_RequestArrived then [stream.fRequest] else []
          idle := err = CF_NoErr }
  else none

/-- A new stream, and a client that has not connected yet. -/
def Fresh (s : State) : Prop :=
  s.stream = { fRequestBuffer := s.stream.fRequestBuffer } ∧
    s.stream.fRequestBuffer.length = kRequestBufferSizeInBytes ∧ s.fSocket.client = {} ∧
    s.fSocket.fGetReceived = 0 ∧ s.fSocket.fGetSocket.connected = false ∧ s.found = [] ∧
    s.returned = true

abbrev system : System State Action := .ofPartial Fresh next

/-- The server sends an answer to the GET, and behind its header the messages `ms`. -/
def Sends (s : State) (ms : List Bytes) : Prop :=
  ∃ bytes rest, Segmentation s.fSocket.fGetSocket.incoming bytes ∧
    after blankLine bytes = some rest ∧ Messages rest ms

/-- All calls have returned, and have found the first messages; if all bytes are received and
no message is found, they have found all of them. -/
def Right (ms : List Bytes) (s : State) : Prop :=
  s.returned = true ∧ s.found <+: ms ∧
    (s.idle = true → s.fSocket.fGetSocket.incoming = [] → s.found = ms)

instance (h : HTTPClientSocket) : Decidable (Handshaking h) := inferInstanceAs (Decidable (_ ∨ _))

/-- The text of the GET fits, the kernel does not fail, and the bytes looked at are clear. -/
def Ok (s : State) (a : Action) : Prop :=
  (s.fSocket.fGetSocket.connected = false → s.fSocket.getText.length ≤ kSendBufferLen) ∧
    a.outcome.Calm ∧ (∀ o ∈ a.outgoing, o.Calm) ∧
    if s.fSocket.fGetSocket.connected = true ∧ ¬ Handshaking s.fSocket then
      AllClear s.stream.held (ready s.fSocket.fGetSocket.incoming)
    else
      ∀ result ∈ (start s a).bringUp a.outcome, result.1 = OS_NoErr →
        AnswerClear s.fSocket.fGetSocket.incoming

instance (s : State) (a : Action) : Decidable (Ok s a) := inferInstanceAs (Decidable (_ ∧ _))

/-- The run waits for the answer, or some of the messages are found and the others are left. -/
inductive Phase (ms : List Bytes) (s : State) : Prop
  | waits {bytes rest : Bytes} : Waiting s.fSocket → Idle s.stream →
      Segmentation s.fSocket.fGetSocket.incoming bytes → after blankLine bytes = some rest →
      Messages rest ms → s.found = [] → Phase ms s
  | reads {base : Nat} {t : Bytes} {left : List Bytes} : Open s.fSocket →
      Ready s.stream s.fSocket.fGetSocket base t → Messages t left → ms = s.found ++ left →
      (s.idle = true → s.fSocket.fGetSocket.incoming = [] → left = []) → Phase ms s

theorem after_nil : after blankLine ([] : Bytes) = none := rfl

theorem Phase.right {s : State} (h : Phase ms s) (hreturned : s.returned = true) :
    Right ms s := by
  refine ⟨hreturned, ?_⟩
  cases h with
  | waits hw hr hseg hafter hm hfound =>
    rw [hfound]
    refine ⟨List.nil_prefix, fun _ hnil => ?_⟩
    rw [hnil] at hseg
    cases hseg
    cases after_nil.symm.trans hafter
  | reads ho hr hm hms hidle =>
    subst hms
    refine ⟨List.prefix_append _ _, fun hi hnil => ?_⟩
    rw [hidle hi hnil, List.append_nil]

/-- A call that returns on an open tunnel. -/
theorem Phase.of_found {s u : State} {err : CF_Error} (ho : Open u.fSocket)
    (hfound : Found left err u.stream u.fSocket) (hms : ms = s.found ++ left)
    (hu : u.found = s.found ++ if err = CF_RequestArrived then [u.stream.fRequest] else [])
    (hidle : u.idle = decide (err = CF_NoErr)) : Phase ms u := by
  obtain ⟨base, t, left', hr, hm, rfl, hrest⟩ := hfound
  refine .reads ho hr hm ?_ fun hi => hrest ?_
  · rw [hms, hu, List.append_assoc]
  · rw [hidle] at hi
    exact of_decide_eq_true hi

theorem next_phase {s u : State} {a : Action} (h : Phase ms s) (hreturned : s.returned = true)
    (hs : next s a = some u) (hok : Ok s a) : Phase ms u ∧ u.returned = true := by
  obtain ⟨htext, hcalm, hout, hlooks⟩ := hok
  rw [next, if_pos hreturned] at hs
  cases h with
  | waits hw hr hseg hafter hm hfound =>
    have hphase : ¬ (s.fSocket.fGetSocket.connected = true ∧ ¬ Handshaking s.fSocket) :=
      fun hboth => hboth.2 (hw.started hboth.1)
    rw [if_neg hphase] at hlooks
    have hw' : Waiting (start s a) :=
      ⟨⟨hw.holds.count, hw.holds.length, hw.holds.fits, hw.holds.content⟩, hw.started, hw.fresh⟩
    rcases readRequest_waiting hw' hr htext hcalm hout hseg hafter hm hlooks with
      ⟨fSocket, hread, hw'', hseg'⟩ | ⟨err, stream, fSocket, hread, ho, hfound'⟩
    · rw [hread] at hs
      cases hs
      exact ⟨.waits hw'' hr hseg' hafter hm (by simp [hfound, CF_NoErr, CF_RequestArrived]), rfl⟩
    · rw [hread] at hs
      cases hs
      exact ⟨.of_found ho hfound' (by rw [hfound, List.nil_append]) rfl rfl, rfl⟩
  | reads ho hr hm hms hidle =>
    have hphase : s.fSocket.fGetSocket.connected = true ∧ ¬ Handshaking s.fSocket := by
      refine ⟨ho.connected, ?_⟩
      rw [Handshaking, ho.sendBufferLen, ho.fSentLength]
      decide
    rw [if_pos hphase] at hlooks
    have ho' : Open (start s a) :=
      ⟨⟨ho.holds.count, ho.holds.length, ho.holds.fits, ho.holds.content⟩, ho.bound,
        ho.connected, ho.sendBufferLen, ho.fSentLength⟩
    have hr' : Ready s.stream (start s a).fGetSocket _ _ :=
      ⟨⟨hr.inv, hr.connected, hr.stream, hr.base_eq⟩, hr.waiting⟩
    obtain ⟨err, stream, fSocket, hread, ho'', hfound⟩ :=
      readRequest_open ho' hcalm hr' hm hlooks
    rw [hread] at hs
    cases hs
    exact ⟨.of_found ho'' hfound hms rfl rfl, rfl⟩

theorem Fresh.phase {s : State} (h : Fresh s) (hsends : Sends s ms) : Phase ms s := by
  obtain ⟨hstream, hsize, hclient, hcount, hconnected, hfound, -⟩ := h
  obtain ⟨bytes, rest, hseg, hafter, hm⟩ := hsends
  refine .waits ⟨⟨hcount, by rw [hclient]; exact List.length_replicate, Nat.zero_le _, rfl⟩,
    fun hup => ?_, fun _ => by rw [hclient]⟩ ?_ hseg hafter hm hfound
  · rw [hconnected] at hup
    cases hup
  · rw [hstream]
    exact ⟨⟨hsize, Nat.zero_le _, nofun, fun _ => ⟨rfl, rfl, rfl⟩⟩, rfl, rfl⟩

/-- In every run that meets the condition throughout, every call returns, and the calls find
the messages behind the header of the answer. -/
theorem right_of_ok (s : State) (h : Fresh s) (ms : List Bytes) (hsends : Sends s ms)
    (as : List Action) (hok : system.Meets Ok s as) :
    system.Keeps (fun _ _ => Right ms) s as := by
  refine hok.keeps (fun s => Phase ms s ∧ s.returned = true) (fun s a u hi hs ho => ?_)
    ⟨h.phase hsends, h.2.2.2.2.2.2⟩
  have hi' := next_phase hi.1 hi.2 hs ho
  exact ⟨hi'.1.right hi'.2, hi'⟩

/-- A data packet with one byte. -/
def packet : Bytes := [36, 0, 0, 1, 65]

theorem messages_packets : Messages (packet ++ (packet ++ [])) [packet, packet] :=
  .message (by decide) (.packet rfl (by decide) rfl)
    (.message (by decide) (.packet rfl (by decide) rfl)
      (.tail (.header nofun (.text nofun) (.inl nofun)) (by decide)))

/-- A client over which these events arrive. -/
def tunnelOver (incoming : List RecvEvent) : State where
  stream := { fRequestBuffer := List.replicate kRequestBufferSizeInBytes 0 }
  fSocket :=
    { fURL := ascii "/rtsp"
      fCookie := 7
      fGetSocket := { bound := false, connected := false, incoming } }

theorem tunnelOver_fresh (incoming : List RecvEvent) : Fresh (tunnelOver incoming) :=
  ⟨rfl, List.length_replicate, rfl, rfl, rfl, rfl, rfl⟩

/-- The answer with a packet and the start of a second one, in two segments. -/
def packetsBehind : State :=
  tunnelOver [.failed .eagain, .segment 72 (ascii "TTP/1.0 200 OK\r\n\r"),
    .segment 10 (packet ++ [36, 0]), .failed .eagain, .segment 0 [1, 65]]

theorem packetsBehind_sends : Sends packetsBehind [packet, packet] :=
  ⟨ascii "HTTP/1.0 200 OK\r\n\r\n" ++ (packet ++ (packet ++ [])), packet ++ (packet ++ []),
    .wouldBlock (.segment (.segment (.wouldBlock (.segment .nil)))), by decide +kernel,
    messages_packets⟩

/-- A call that sends all of the GET. -/
def sendsAll : Action := { outgoing := [.sent 4096] }

theorem right_of_ok_packetsBehind :
    system.Keeps (fun _ _ => Right [packet, packet]) packetsBehind
      [{ sendsAll with outcome.connectErr := EAGAIN }, sendsAll, sendsAll, sendsAll, sendsAll,
        sendsAll] :=
  right_of_ok packetsBehind (tunnelOver_fresh _) _ packetsBehind_sends _ (by decide +kernel)

/-- The header of the answer ends where a segment ends. `Read` hands over no byte, and the
assert that there is one fails. -/
def headerAlone : State :=
  tunnelOver [.segment 72 (ascii "TTP/1.0 200 OK\r\n\r\n"), .failed .eagain,
    .segment 36 [0, 0, 1, 65], .segment 36 [0, 0, 1, 65]]

theorem headerAlone_not_right :
    Fresh headerAlone ∧ Sends headerAlone [packet, packet] ∧
      ¬ system.Keeps (fun _ _ => Right [packet, packet]) headerAlone [sendsAll] := by
  refine ⟨tunnelOver_fresh _, ⟨ascii "HTTP/1.0 200 OK\r\n\r\n" ++ (packet ++ (packet ++ [])),
    packet ++ (packet ++ []), .segment (.wouldBlock (.segment (.segment .nil))),
    by decide +kernel, messages_packets⟩, fun hkeeps => ?_⟩
  have hrun : (next headerAlone sendsAll).map State.returned = some false := by decide +kernel
  obtain ⟨u, hu, hreturned⟩ := Option.map_eq_some_iff.mp hrun
  have hright : u.returned = true := (hkeeps u hu).1.1
  exact absurd (hreturned.symm.trans hright) (by decide)

end HTTPClientRequestStream

end CxxFramework.Net
