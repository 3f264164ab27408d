import CxxFramework.Http.ClientRequest
import CxxFramework.Http.SessionSteps
import Mathlib.Data.List.Forall2

/-!
# The requests that a session serves

The requests of a client arrive at a session in any segmentation, while other threads signal
the session and come and go as its holders. The session dispatches the requests in their order,
each of them once, with its own header and its own body.

## Main definitions

* `HTTPSession.InOrder` — the requests dispatched are the first ones of the client.
* `HTTPSession.Serving` — the invariant: where the session is in the requests.
-/

namespace CxxFramework.Net

open CxxFramework.Core Thread Transition HTTPRequestStream ClientRequest

/-- The packet is that of a request, with its body. -/
structure ClientRequest.Carries (q : ClientRequest) (packet : HTTPPacket) : Prop where
  reads : q.Reads packet
  body : packet.fHTTPBody.getD [] = q.body

namespace HTTPSession

variable {mapping : List HTTPMapping} {sDispatcher : HTTPDispatcher mapping}
  {qs : List ClientRequest} {s t : HTTPSession} {c d : Point × HTTPSession} {p : Point}
  {err : CF_Error} {env : Env}

/-- The requests dispatched so far are the first ones of the client, each with its header and its
body, in their order. -/
def Dispatched (qs : List ClientRequest) (s : HTTPSession) : Prop :=
  List.Forall₂ ClientRequest.Carries (qs.take s.dispatched.length) s.dispatched.reverse

/-- The requests are dispatched in their order, no more are handled than the client has sent, and
at most one function is called for each. -/
structure InOrder (qs : List ClientRequest) (s : HTTPSession) : Prop where
  dispatched : Dispatched qs s
  count : s.history.length ≤ qs.length
  once : ∀ x ∈ s.history, x.called.length ≤ 1

theorem InOrder.same (h : InOrder qs s) (hdispatched : t.dispatched = s.dispatched)
    (hhistory : t.history = s.history) : InOrder qs t where
  dispatched := by
    unfold Dispatched
    rw [hdispatched]
    exact h.dispatched
  count := hhistory ▸ h.count
  once := hhistory ▸ h.once

/-! ## The invariant -/

/-- All requests that are handled are dispatched. What is behind them is held or to come, unless
the connection is closed. -/
def Behind (qs : List ClientRequest) (s : HTTPSession) : Prop :=
  s.dispatched.length = s.history.length ∧ (s.fSocket.connected = true → ∃ base,
    Ready s.fInputStream s.fSocket base (stream (qs.drop s.history.length)))

/-- The header of the next request has arrived. -/
def HasArrived (qs : List ClientRequest) (s : HTTPSession) : Prop :=
  s.dispatched.length = s.history.length ∧ ∃ q base, qs[s.history.length]? = some q ∧ s.fInputStream.fRequest = q.header ∧
    s.fInputStream.complete = true ∧
    Holds s.fInputStream s.fSocket base (q.body ++ stream (qs.drop (s.history.length + 1)))

/-- The last request recorded is a request of the client. It is not dispatched, and those in front
of it are. -/
def Current (qs : List ClientRequest) (s : HTTPSession) (q : ClientRequest) : Prop :=
  ∃ x xs, s.history = x :: xs ∧ x.called = [] ∧ s.dispatched.length = xs.length ∧
    qs[xs.length]? = some q

/-- The header is not parsed, or it is and a part of the body is to come. -/
inductive Gathers (q : ClientRequest) (base : Nat) (rest : Bytes) (s : HTTPSession) : Prop
  | header {beyond : Bytes} : s.fRequest = some (.ofHeader q.header beyond) →
      s.fInputStream.complete = true → Holds s.fInputStream s.fSocket base (q.body ++ rest) →
      Gathers q base rest s
  | body {packet : HTTPPacket} {left : Bytes} : q.Reads packet →
      Collects (decimal q.body.length) base (q.body ++ rest) s packet left →
      (packet.fHTTPBody.getD []).length < q.body.length → Gathers q base rest s

/-- The request is being read. -/
def Gathering (qs : List ClientRequest) (s : HTTPSession) : Prop :=
  ∃ q base, Current qs s q ∧ Gathers q base (stream (qs.drop s.history.length)) s

/-- The request is there with its body. -/
def Gathered (qs : List ClientRequest) (s : HTTPSession) : Prop :=
  ∃ q packet base, Current qs s q ∧ s.fRequest = some packet ∧ q.Carries packet ∧
    Ready s.fInputStream s.fSocket base (stream (qs.drop s.history.length))

/-- Where a session is that may go on. -/
def Position (qs : List ClientRequest) (c : Point × HTTPSession) : Prop :=
  match c.2.fState with
  | .kReadingFirstRequest | .kReadingRequest =>
    (∀ err, c.1 = .switch err → c.2.fSocket.connected = true) ∧ Behind qs c.2
  | .kHaveCompleteMessage =>
    (c.1 = .loop CF_RequestArrived ∨ c.1 = .switch CF_RequestArrived) ∧ HasArrived qs c.2
  | .kFilteringRequest => Gathering qs c.2
  | .kPreprocessingRequest | .kProcessingRequest => Gathered qs c.2
  | .kSendingResponse | .kCleaningUp => Behind qs c.2

/-- A session that has come to its end, though holders may keep it. -/
structure Ended (c : Point × HTTPSession) : Prop where
  notLive : c.2.isLiveSession = false
  noSwitch : ∀ err, c.1 ≠ .switch err

structure Serving (qs : List ClientRequest) (c : Point × HTTPSession) : Prop where
  inOrder : InOrder qs c.2
  stage : Ended c ∨ Position qs c

/-- The client sends its requests to a new session. -/
def Sends (qs : List ClientRequest) (s : HTTPSession) : Prop :=
  s.fSocket.connected = true ∧ s.fSocket.received = [] ∧
    Segmentation s.fSocket.incoming (stream qs)

theorem Fresh.serving (fresh : Fresh c) (sends : Sends qs c.2) : Serving qs c := by
  obtain ⟨hconnected, hreceived, hseg⟩ := sends
  obtain ⟨fRequestBuffer, hsize, hinput⟩ := fresh.noInput
  have hreceives : Receives ⟨c.2.fInputStream, c.2.fSocket, []⟩ (stream qs) := by
    rw [hinput]
    exact ⟨⟨rfl, hsize, hreceived, rfl⟩, hconnected, hseg⟩
  have hready := hreceives.ready.1
  have hinOrder : InOrder qs c.2 := by
    refine ⟨?_, ?_, ?_⟩
    · unfold Dispatched
      rw [fresh.noneDispatched]
      exact .nil
    · rw [fresh.noHistory]
      exact Nat.zero_le _
    · rw [fresh.noHistory]
      exact List.forall_mem_nil _
  refine ⟨hinOrder, .inr ?_⟩
  unfold Position
  rw [fresh.reading]
  refine ⟨fun err hswitch => hconnected, ?_, fun _ => ⟨0, ?_⟩⟩
  · rw [fresh.noneDispatched, fresh.noHistory]
    rfl
  · rw [fresh.noHistory]
    exact hready

/-! ## Reading -/

/-- What a call of `ReadRequest` leaves of a session whose next request is to come. -/
theorem Behind.readRequest (h : Behind qs s) (hconnected : s.fSocket.connected = true) :
    ∃ err fInputStream fSocket,
      s.fInputStream.readRequest s.fSocket = some (err, fInputStream, fSocket) ∧
      (err = CF_NoErr ∧ Behind qs { s with fInputStream, fSocket } ∨
        err = CF_RequestArrived ∧ HasArrived qs { s with fInputStream, fSocket }) := by
  obtain ⟨hdispatched, hnext⟩ := h
  obtain ⟨base, hready⟩ := hnext hconnected
  obtain ⟨err, r, fSocket, hread, ⟨rfl, hr⟩ | ⟨q, rest, hqs, rfl, hcomplete, hheader, hholds⟩⟩ :=
    readRequest_stream hready
  · exact ⟨_, r, fSocket, hread, .inl ⟨rfl, hdispatched, fun _ => ⟨base, hr⟩⟩⟩
  · have hlt : s.history.length < qs.length := by
      have hlen := congrArg List.length hqs
      rw [List.length_drop, List.length_cons] at hlen
      omega
    rw [List.drop_eq_getElem_cons hlt, List.cons.injEq] at hqs
    obtain ⟨rfl, rfl⟩ := hqs
    exact ⟨_, r, fSocket, hread, .inr ⟨rfl, hdispatched, _, _, List.getElem?_eq_getElem hlt,
      hheader, hcomplete, hholds⟩⟩

/-- Reading the body leaves the rest of the packet as it is. -/
theorem readBody_request {packet : HTTPPacket} (hrequest : s.fRequest = some packet)
    (h : s.readBody packet = some (err, t)) :
    ∃ fHTTPBody, t.fRequest = some { packet with fHTTPBody } := by
  unfold readBody at h
  dsimp only at h
  split_ifs at h
  · cases h
    exact ⟨_, hrequest⟩
  · obtain ⟨⟨theErr, data, fInputStream, fSocket⟩, -, heq⟩ := Option.bind_eq_some_iff.mp h
    dsimp only at heq
    split_ifs at heq <;> cases heq <;> exact ⟨_, rfl⟩

/-- A request that is complete. -/
def Completes (q : ClientRequest) (rest : Bytes) (t : HTTPSession) : Prop :=
  ∃ packet base, t.fRequest = some packet ∧ q.Carries packet ∧
    Ready t.fInputStream t.fSocket base rest

theorem ready_of_complete {r : HTTPRequestStream} {fSocket : Socket} {base : Nat} {rest : Bytes}
    (h : Holds r fSocket base rest) (hcomplete : r.complete = true) : Ready r fSocket base rest :=
  ⟨h, fun hfalse => nomatch hcomplete.symm.trans hfalse⟩

/-- A body is read as far as it has arrived. -/
theorem Gathers.readBody {q : ClientRequest} {base : Nat} {rest left : Bytes} {packet : HTTPPacket}
    (hreads : q.Reads packet)
    (hcollects : Collects (decimal q.body.length) base (q.body ++ rest) s packet left)
    (hshort : (packet.fHTTPBody.getD []).length < q.body.length) :
    ∃ err t, s.readBody packet = some (err, t) ∧
      (err = CF_NoErr ∧ Completes q rest t ∨ err = CF_WouldBlock ∧ Gathers q base rest t) := by
  obtain ⟨err, t, hread, hcases⟩ :=
    hcollects.readBody q.contentLength_decimal q.fits (by omega) hshort
  obtain ⟨fHTTPBody, hpacket⟩ := readBody_request hcollects.request hread
  refine ⟨err, t, hread, ?_⟩
  rcases hcases with ⟨rfl, hdone⟩ | ⟨rfl, -, packet', left', hcollects', hshort', -⟩
  · have hbody := hdone.body_eq
    have hleft := hdone.left
    rw [List.take_left] at hbody
    rw [List.drop_left] at hleft
    rw [HTTPSession.body, hpacket, Option.bind_some] at hbody
    exact .inl ⟨rfl, _, _, hpacket, ⟨hreads.setBody _, hbody⟩,
      ready_of_complete hleft hdone.complete⟩
  · obtain rfl := Option.some.inj (hpacket.symm.trans hcollects'.request)
    exact .inr ⟨rfl, .body (hreads.setBody _) hcollects' hshort'⟩

/-- A request without a body is complete. -/
theorem readBody_empty {q : ClientRequest} {rest : Bytes} {base : Nat} {packet : HTTPPacket}
    (hrequest : s.fRequest = some packet) (hreads : q.Reads packet)
    (hnone : packet.fHTTPBody = none) (hempty : q.body = [])
    (hholds : Holds s.fInputStream s.fSocket base (q.body ++ rest))
    (hcomplete : s.fInputStream.complete = true) :
    s.readBody packet = some (CF_NoErr, s) ∧ Completes q rest s := by
  constructor
  · have hzero : (StringParser.ofString (packet.fFieldValues .httpContentLengthHeader)
        []).consumeWhitespace.consumeInteger.1 = 0 := by
      rcases hreads.length with hlength | ⟨-, hlength⟩
      · have hnumber := q.contentLength_decimal
        rw [hempty] at hnumber
        rw [hlength, hempty]
        exact hnumber
      · rw [hlength]
        decide
    simp only [HTTPSession.readBody, hzero, if_true]
  · rw [hempty, List.nil_append] at hholds
    exact ⟨packet, base, hrequest, ⟨hreads, by rw [hnone, hempty]; rfl⟩,
      ready_of_complete hholds hcomplete⟩

/-- `SetupRequest` has the request complete, or waits for the rest of its body. -/
theorem Gathers.setupRequest {q : ClientRequest} {base : Nat} {rest : Bytes}
    (h : Gathers q base rest s) :
    ∃ err t, s.setupRequest = some (err, t) ∧
      (err = CF_NoErr ∧ Completes q rest t ∨ err = CF_WouldBlock ∧ Gathers q base rest t) := by
  cases h with
  | @header beyond hrequest hcomplete hholds =>
    obtain ⟨packet, hparse, hreads, hnone⟩ := q.parse_header beyond
    let u : HTTPSession := { s with fRequest := some packet }.note fun x =>
      { x with parsed := some (CF_NoErr, packet.fVersion) }
    have hsetup : s.setupRequest = u.readBody packet := by
      have htype : (HTTPPacket.ofHeader q.header beyond).fHTTPType = .httpIllegalType := rfl
      simp [HTTPSession.setupRequest, hrequest, htype, hparse, u]
    rw [hsetup]
    by_cases hempty : q.body = []
    · obtain ⟨hread, hdone⟩ := readBody_empty (s := u) rfl hreads hnone hempty hholds hcomplete
      exact ⟨_, _, hread, .inl ⟨rfl, hdone⟩⟩
    · have hpos := List.length_pos_of_ne_nil hempty
      have hlength : packet.fFieldValues .httpContentLengthHeader =
          some (decimal q.body.length) := by
        rcases hreads.length with hlength | ⟨hbody, -⟩
        · exact hlength
        · exact absurd hbody hempty
      have hcollects : Collects (decimal q.body.length) base (q.body ++ rest) u packet
          (q.body ++ rest) :=
        ⟨rfl, by rw [hreads.fHTTPType]; decide, hlength, by rw [hnone]; rfl,
          by rw [hnone]; exact hholds, hcomplete⟩
      exact Gathers.readBody hreads hcollects (by rw [hnone]; exact hpos)
  | body hreads hcollects hshort =>
    rw [hcollects.setupRequest_eq]
    exact Gathers.readBody hreads hcollects hshort

/-! ## The other sections -/

/-- Nothing is dispatched. Of what is recorded, at most the last request is changed, and not the
functions called. -/
def Records (s t : HTTPSession) : Prop :=
  t.dispatched = s.dispatched ∧
    ∃ f, t.history = s.history.modifyHead f ∧ ∀ x, (f x).called = x.called

theorem Records.length (h : Records s t) : t.history.length = s.history.length := by
  obtain ⟨-, f, hhistory, -⟩ := h
  rw [hhistory, List.length_modifyHead]

theorem Records.once (h : Records s t) (once : ∀ x ∈ s.history, x.called.length ≤ 1) :
    ∀ x ∈ t.history, x.called.length ≤ 1 := by
  obtain ⟨-, f, hhistory, hf⟩ := h
  rw [hhistory]
  cases hs : s.history with
  | nil => exact List.forall_mem_nil _
  | cons x xs =>
    rw [hs, List.forall_mem_cons] at once
    exact List.forall_mem_cons.mpr ⟨(congrArg List.length (hf x)).trans_le once.1, once.2⟩

theorem Records.inOrder (h : Records s t) (hinOrder : InOrder qs s) : InOrder qs t where
  dispatched := by
    unfold Dispatched
    rw [h.1]
    exact hinOrder.dispatched
  count := h.length.trans_le hinOrder.count
  once := h.once hinOrder.once

theorem Records.current {q : ClientRequest} (h : Records s t) (hc : Current qs s q) :
    Current qs t q := by
  obtain ⟨hdispatched, f, hhistory, hf⟩ := h
  obtain ⟨x, xs, hs, hcalled, hlength, hq⟩ := hc
  exact ⟨f x, xs, by rw [hhistory, hs, List.modifyHead_cons], (hf x).trans hcalled,
    hdispatched ▸ hlength, hq⟩

/-- What was behind the requests stays there. -/
theorem Behind.of_input (h : Behind qs s) (hdispatched : t.dispatched = s.dispatched)
    (hlength : t.history.length = s.history.length) (hstream : t.fInputStream = s.fInputStream)
    (hincoming : t.fSocket.incoming = s.fSocket.incoming)
    (hreceived : t.fSocket.received = s.fSocket.received)
    (hconnected : t.fSocket.connected = true → s.fSocket.connected = true) : Behind qs t := by
  obtain ⟨hall, hnext⟩ := h
  refine ⟨by rw [hdispatched, hlength, hall], fun hopen => ?_⟩
  obtain ⟨base, hready⟩ := hnext (hconnected hopen)
  refine ⟨base, ⟨⟨?_, hopen, ?_, ?_⟩, ?_⟩⟩
  · rw [hstream]
    exact hready.inv
  · rw [hstream, hincoming, hlength]
    exact hready.stream
  · rw [hstream, hreceived]
    exact hready.base_eq
  · rw [hstream]
    exact hready.waiting

/-- The parts of a session that the invariant is about. -/
structure SameRequests (s t : HTTPSession) : Prop where
  fState : t.fState = s.fState
  fRequest : t.fRequest = s.fRequest
  fInputStream : t.fInputStream = s.fInputStream
  fSocket : t.fSocket = s.fSocket
  history : t.history = s.history
  dispatched : t.dispatched = s.dispatched
  live : t.isLiveSession = true → s.isLiveSession = true

/-- A step between the sections: of another thread, to the loop of a `Run`, or on to the
`switch` of a live session. -/
inductive Moves (s : HTTPSession) : Point → Point → Prop
  | stay (p : Point) : Moves s p p
  | begin {q : Point} : (∀ err, q ≠ .switch err) → Moves s .waiting q
  | enter {err : CF_Error} : s.isLiveSession = true → Moves s (.loop err) (.switch err)

variable {a : SessionAction} {q : Point}

theorem Behind.same (h : Behind qs s) (same : SameRequests s t) : Behind qs t :=
  h.of_input same.dispatched (congrArg _ same.history) same.fInputStream (congrArg _ same.fSocket)
    (congrArg _ same.fSocket) (same.fSocket ▸ id)

theorem Gathers.same {q : ClientRequest} {base : Nat} {rest : Bytes} (h : Gathers q base rest s)
    (same : SameRequests s t) : Gathers q base rest t := by
  obtain ⟨-, hrequest, hstream, hsocket, -⟩ := same
  cases h with
  | header hheader hcomplete hholds =>
    rw [← hrequest] at hheader
    rw [← hstream] at hcomplete hholds
    rw [← hsocket] at hholds
    exact .header hheader hcomplete hholds
  | body hreads hcollects hshort =>
    refine .body hreads ⟨hrequest.trans hcollects.request, hcollects.parsed, hcollects.length,
      hcollects.split, ?_, ?_⟩ hshort
    · rw [hstream, hsocket]
      exact hcollects.stream
    · rw [hstream]
      exact hcollects.complete

theorem Current.same {request : ClientRequest} (h : Current qs s request)
    (same : SameRequests s t) : Current qs t request := by
  unfold Current
  rw [same.history, same.dispatched]
  exact h

theorem Position.moves (h : Position qs (p, s)) (same : SameRequests s t) (moves : Moves s p q) :
    Position qs (q, t) := by
  unfold Position at h ⊢
  dsimp only at h ⊢
  rw [same.fState]
  cases hstate : s.fState with
  | kReadingFirstRequest | kReadingRequest =>
    rw [hstate] at h
    obtain ⟨hopen, hbehind⟩ := h
    refine ⟨fun err hswitch => ?_, hbehind.same same⟩
    rw [same.fSocket]
    cases moves with
    | stay => exact hopen err hswitch
    | begin hnot => exact absurd hswitch (hnot err)
    | enter hlive => exact (Bool.and_eq_true _ _ ▸ hlive).1
  | kHaveCompleteMessage =>
    rw [hstate] at h
    obtain ⟨hpoint, harrived⟩ := h
    constructor
    · cases moves with
      | stay => exact hpoint
      | begin => simp at hpoint
      | enter => exact .inr (by simpa using hpoint)
    · unfold HasArrived
      rw [same.history, same.dispatched, same.fInputStream, same.fSocket]
      exact harrived
  | kFilteringRequest =>
    rw [hstate] at h
    obtain ⟨request, base, hcurrent, hgathers⟩ := h
    exact ⟨request, base, hcurrent.same same, same.history ▸ hgathers.same same⟩
  | kPreprocessingRequest | kProcessingRequest =>
    rw [hstate] at h
    obtain ⟨request, packet, base, hcurrent, hpacket, hcarries, hready⟩ := h
    refine ⟨request, packet, base, hcurrent.same same, same.fRequest.trans hpacket, hcarries, ?_⟩
    rw [same.history, same.fInputStream, same.fSocket]
    exact hready
  | kSendingResponse | kCleaningUp =>
    rw [hstate] at h
    exact Behind.same h same

theorem Ended.moves (h : Ended (p, s)) (same : SameRequests s t) (moves : Moves s p q) :
    Ended (q, t) where
  notLive := by
    rw [← Bool.not_eq_true]
    intro hlive
    cases h.notLive.symm.trans (same.live hlive)
  noSwitch err := by
    cases moves with
    | stay => exact h.noSwitch err
    | begin hnot => exact hnot err
    | enter hlive => cases h.notLive.symm.trans hlive

end HTTPSession

end CxxFramework.Net
