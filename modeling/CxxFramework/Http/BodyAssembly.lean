import CxxFramework.Http.HTTPSession
import CxxFramework.Http.RequestSegments

/-!
# Assembling the body of a request

`SetupRequest` reads the body of a request behind its header: first what was received with
the header, then from the socket, in as many runs as it takes. How far it got is the length
of the body. The length that is to come is a 32-bit number, and so is the size of the array
for it, which has one byte more.

## Main definitions

* `Denotes` — a header text stands for a number.
* `HTTPSession.setupLoop` — `SetupRequest`, again as long as it would block.
* `HTTPSession.Assembles` — the body of that length is read, or it is rejected.
-/

namespace CxxFramework.Net

open CxxFramework.Core Buffer StringParser

/-! ## The length -/

/-- The number that decimal digits denote. -/
def decimalValue (digits : Bytes) : Nat :=
  digits.foldl (fun theValue c => theValue * 10 + (c.toNat - 48)) 0

/-- The text is a number in decimal digits, with blanks around it. -/
def Denotes (text : Bytes) (n : Nat) : Prop :=
  ∃ before digits after, text = before ++ (digits ++ after) ∧ (∀ c ∈ before, c = 32 ∨ c = 9) ∧
    digits ≠ [] ∧ (∀ c ∈ digits, sDigitMask c = true) ∧ (∀ c ∈ after, c = 32 ∨ c = 9) ∧
    decimalValue digits = n

theorem denotes_digits {digits : Bytes} (hne : digits ≠ [])
    (hdigits : ∀ c ∈ digits, sDigitMask c = true) : Denotes digits (decimalValue digits) :=
  ⟨[], digits, [], (List.append_nil _).symm, nofun, hne, hdigits, nofun, rfl⟩

theorem foldl_uint32 (digits : Bytes) (n : Nat) :
    digits.foldl (fun theValue c => (theValue * 10 + (c.toNat - 48)) % uint32Size)
        (n % uint32Size) =
      digits.foldl (fun theValue c => theValue * 10 + (c.toNat - 48)) n % uint32Size := by
  induction digits generalizing n with
  | nil => rfl
  | cons c digits ih =>
    rw [List.foldl_cons, List.foldl_cons, ← ih, Nat.add_mod, Nat.mul_mod, Nat.mod_mod,
      ← Nat.mul_mod, ← Nat.add_mod]

/-- The length of the body, as `SetupRequest` reads it from the header. -/
def contentLength (text : Bytes) : Nat :=
  (StringParser.ofString (some text) []).consumeWhitespace.consumeInteger.1

theorem digit_not_blank {c : UInt8} (hc : sDigitMask c = true) : sEOLWhitespaceMask c = false := by
  simp only [sDigitMask, sEOLWhitespaceMask] at *
  grind

/-- A number is read modulo `2 ^ 32`. -/
theorem Denotes.contentLength_eq {text : Bytes} {n : Nat} (h : Denotes text n) :
    contentLength text = n % uint32Size := by
  obtain ⟨before, digits, after, rfl, hbefore, hne, hdigits, hafter, rfl⟩ := h
  obtain ⟨first, rest, rfl⟩ := List.exists_cons_of_ne_nil hne
  have hblank : ∀ c ∈ before, sNonWhitespaceMask c = false := by
    intro c hc
    rcases hbefore c hc with rfl | rfl <;> rfl
  have hfirst : sNonWhitespaceMask first = true := by
    rw [sNonWhitespaceMask, digit_not_blank (hdigits first (List.mem_cons_self ..))]
    rfl
  have hstop : after.takeWhile sDigitMask = [] := by
    cases after with
    | nil => rfl
    | cons c after =>
      rcases hafter c (List.mem_cons_self ..) with rfl | rfl <;> rfl
  obtain ⟨q, hq, hat⟩ :=
    (at_ofString (before ++ (first :: (rest ++ after))) []).consumeText _ hblank hfirst
  have hwhile : q.rest.takeWhile sDigitMask = first :: rest := by
    rw [hat.rest_eq, ← List.cons_append, List.takeWhile_append_of_pos hdigits, hstop,
      List.append_nil]
  rw [List.cons_append, contentLength, consumeWhitespace, hq]
  simp only [consumeInteger, hat.notNull, Bool.false_eq_true, if_false, hwhile]
  exact foldl_uint32 (first :: rest) 0

/-! ## Reading from the stream -/

namespace HTTPRequestStream

variable {r : HTTPRequestStream} {fSocket : Socket} {base n : Nat} {s t : Bytes}

/-- What a call of the socket hands over is the start of the bytes to come. If it is less
than was asked for, an event is over, or all bytes are. -/
theorem Segmentation.read (h : Segmentation fSocket.incoming t)
    (hconnected : fSocket.connected = true) (hn : n ≠ 0) :
    ∃ data rest err fSocket', t = data ++ rest ∧ data.length ≤ n ∧
      ((fSocket.read n).err, (fSocket.read n).data.getD [], (fSocket.read n).socket) =
        (err, data, fSocket') ∧
      (err = OS_NoErr ∨ err = EAGAIN ∧ data = []) ∧ fSocket'.connected = true ∧
      Segmentation fSocket'.incoming rest ∧
      fSocket'.received.length = fSocket.received.length + data.length ∧
      (data.length < n → fSocket'.incoming.length < fSocket.incoming.length ∨ rest = []) := by
  unfold Socket.read
  simp only [hconnected, Bool.not_true, Bool.false_eq_true, if_false]
  generalize hincoming : fSocket.incoming = incoming at h
  cases h with
  | nil =>
    have hnil : Segmentation fSocket.incoming [] := by
      rw [hincoming]
      exact .nil
    exact ⟨[], [], _, _, rfl, Nat.zero_le _, rfl, .inr ⟨rfl, rfl⟩, hconnected, hnil, rfl,
      fun _ => .inr rfl⟩
  | @segment first rest s incoming hrest =>
    simp only [if_neg hn]
    refine ⟨(first :: rest).take n, (first :: rest).drop n ++ s, _, _, ?_, by simp, rfl, .inl rfl,
      rfl, hrest.putBack _, by simp, fun hlt => .inl ?_⟩
    · rw [← List.append_assoc, List.take_append_drop]
    · have hall : (first :: rest).length ≤ n := by
        rw [List.length_take] at hlt
        omega
      simp [List.drop_of_length_le hall, Socket.putBack]
  | @wouldBlock s incoming hrest =>
    exact ⟨[], t, _, _, rfl, Nat.zero_le _, rfl, .inr ⟨rfl, rfl⟩, rfl, hrest, rfl,
      fun _ => .inl (by simp)⟩

/-- What a call of `Read` hands over is the start of the bytes to come. -/
theorem Holds.read (h : Holds r fSocket base s) (hcomplete : r.complete = true) (n : Nat) :
    ∃ data rest err r' fSocket', r.read fSocket n = some (err, data, r', fSocket') ∧
      s = data ++ rest ∧ data.length ≤ n ∧ (err = CF_NoErr ∨ err = EAGAIN ∧ data.length < n) ∧
      Holds r' fSocket' (base + data.length) rest ∧ r'.complete = true ∧
      (data.length < n → r'.held = [] ∧
        (fSocket'.incoming.length < fSocket.incoming.length ∨ rest = [])) := by
  obtain ⟨hi, hconnected, ⟨t, hseg, rfl⟩, hbase⟩ := h
  have htotal := hi.total
  have hsize := hi.size
  unfold kRequestBufferSizeInBytes at htotal hsize
  generalize hm : min r.fRetreatBytes n = m
  have hle : m ≤ r.fRetreatBytes := by omega
  have hfits : ¬ (r.fRetreatBytes > 0 ∧ r.requestLen + r.fRetreatBytesRead + m >
      r.fRequestBuffer.length) := by omega
  have hheld := held_used hcomplete hle
  have hinv := hi.used hle
  have hlen : (slice r.fRequestBuffer (r.requestLen + r.fRetreatBytesRead) m).length = m := by
    rw [length_slice]
    omega
  unfold HTTPRequestStream.read
  simp only [hm, if_neg hfits]
  generalize hr' : ({ r with
    fRetreatBytes := r.fRetreatBytes - m
    fRetreatBytesRead := r.fRetreatBytesRead + m } : HTTPRequestStream) = r' at hheld hinv
  have hcomplete' : r'.complete = true := hr' ▸ hcomplete
  rw [← hheld, List.length_append, hlen] at hbase
  rw [← hheld, List.append_assoc]
  split_ifs with hall
  · refine ⟨_, r'.held ++ t, _, r', fSocket, rfl, rfl, by omega, .inl rfl, ?_, hcomplete', ?_⟩
    · exact ⟨hinv, hconnected, ⟨t, hseg, rfl⟩, by omega⟩
    · omega
  · have hempty : r'.held = [] := by
      rw [← List.length_eq_zero_iff, hinv.length_held hcomplete', ← hr']
      simp only
      omega
    obtain ⟨data, rest, err, fSocket', rfl, hlen', hread, herr, hconnected', hseg', hreceived,
      hover⟩ := hseg.read hconnected (n := n - m) (by omega)
    simp only [Prod.mk.injEq] at hread
    obtain ⟨herr', hdata, hsocket⟩ := hread
    rw [herr', hdata, hsocket]
    refine ⟨_, rest, err, r', fSocket', rfl, ?_, ?_, ?_, ⟨hinv, hconnected', ⟨rest, hseg', ?_⟩, ?_⟩,
      hcomplete', fun hlt => ⟨hempty, hover ?_⟩⟩
    · rw [hempty, List.nil_append, List.append_assoc]
    · rw [List.length_append, hlen]
      omega
    · refine herr.imp_right fun ⟨hagain, hnil⟩ => ⟨hagain, ?_⟩
      rw [List.length_append, hlen, hnil, List.length_nil]
      omega
    · rw [hempty, List.nil_append]
    · rw [hempty, List.length_nil] at hbase ⊢
      rw [List.length_append, hlen]
      omega
    · rw [List.length_append, hlen] at hlt
      omega

end HTTPRequestStream

/-! ## Parsing the header -/

namespace HTTPPacket

variable {h h' : HTTPPacket} {parser parser' : StringParser} {err : CF_Error}

theorem setField_type {theHeader : HTTPHeader} {theHeaderVal : StrPtrLen}
    (hset : h.setField theHeader theHeaderVal = some h') : h'.fHTTPType = h.fHTTPType := by
  obtain ⟨h₁, hkeep, rfl⟩ := Option.map_eq_some_iff.mp hset
  have htype : h₁.fHTTPType = h.fHTTPType := by
    split_ifs at hkeep
    · obtain ⟨keepAlive, rfl⟩ := setKeepAlive_cases hkeep
      rfl
    · cases hkeep
      rfl
  split_ifs <;> exact htype

theorem parseHeaders_type (hparse : h.parseHeaders parser = some (err, h')) :
    h'.fHTTPType = h.fHTTPType := by
  fun_induction parseHeaders h parser with
  | case1 | case3 | case6 =>
    cases hparse
    rfl
  | case2 | case4 | case5 | case7 => cases hparse
  | case8 h parser hend key afterKey hkey afterBlank hblank header hheader val afterVal hval h₁
      hset ih =>
    exact (ih hparse).trans (setField_type hset)

theorem parseRequestLines_type
    (hlines : h.parseRequestLines parser = some (CF_NoErr, h', parser')) :
    h'.fHTTPType ≠ .httpIllegalType := by
  fun_induction parseRequestLines h parser with
  | case1 => cases hlines
  | case2 h parser err h₁ parser₁ hline herr =>
    cases hlines
    exact absurd rfl herr
  | case3 h parser err h₁ parser₁ hline herr htype ih => exact ih hlines
  | case4 h parser err h₁ parser₁ hline herr htype =>
    cases hlines
    exact htype

/-- A packet that was parsed is a request or a response. -/
theorem parse_type (hparse : h.parse = some (CF_NoErr, h')) :
    h'.fHTTPType ≠ .httpIllegalType := by
  obtain ⟨⟨err, h₁, parser₁⟩, hlines, hrest⟩ := Option.bind_eq_some_iff.mp hparse
  dsimp only at hrest
  split_ifs at hrest with herr
  · cases hrest
    exact absurd rfl herr
  · obtain rfl := not_not.mp herr
    rw [parseHeaders_type hrest]
    exact parseRequestLines_type hlines

end HTTPPacket

/-! ## Runs of a session -/

namespace HTTPSession

open HTTPRequestStream

/-- `SetupRequest`, in as many more runs as it would block. -/
def setupLoop : (runs : Nat) → (s : HTTPSession) → Option (CF_Error × HTTPSession)
  | 0, s => s.setupRequest
  | runs + 1, s => s.setupRequest.bind fun (err, s) =>
    if err = CF_WouldBlock then s.setupLoop runs else some (err, s)

/-- The body of the request, as far as it is read. -/
def body (s : HTTPSession) : Bytes := (s.fRequest.bind HTTPPacket.fHTTPBody).getD []

/-- The request is a parsed packet, or one that is still to be parsed, without a body. -/
structure Awaits (s : HTTPSession) (fRequest : HTTPPacket) : Prop where
  request : ∃ packet, s.fRequest = some packet ∧
    (packet = fRequest ∧ packet.fHTTPType ≠ .httpIllegalType ∨
      packet.parse = some (CF_NoErr, fRequest) ∧ packet.fHTTPType = .httpIllegalType)
  noBody : fRequest.fHTTPBody = none

/-- Of the bytes behind the header, which stands at `base` in all bytes received, `n` have
arrived. They are the body, and the others are left in the stream. -/
structure Completed (n base : Nat) (following : Bytes) (s : HTTPSession) : Prop where
  arrived : base + n ≤ s.fSocket.received.length
  body_eq : s.body = following.take n
  length_body : s.body.length = n
  left : Holds s.fInputStream s.fSocket (base + n) (following.drop n)
  complete : s.fInputStream.complete = true

/-- Fewer than `n` bytes have arrived behind the header. They are all in the body. -/
structure Unfinished (n base : Nat) (following : Bytes) (s : HTTPSession) : Prop where
  arrived : s.fSocket.received.length < base + n
  body_eq : s.body = following.take (s.fSocket.received.length - base)
  left : Holds s.fInputStream s.fSocket s.fSocket.received.length
    (following.drop (s.fSocket.received.length - base))
  complete : s.fInputStream.complete = true

/-- The request with this length in its header is complete once that many bytes have arrived,
in any segmentation; if the length is not representable, it is rejected. -/
def Assembles (text : Bytes) (n : Nat) : Prop :=
  ∀ (s : HTTPSession) (fRequest : HTTPPacket) (base : Nat) (following : Bytes),
    s.Awaits fRequest → fRequest.fFieldValues .httpContentLengthHeader = some text →
    Holds s.fInputStream s.fSocket base following → s.fInputStream.complete = true →
    if n < uint32Size then
      (∀ runs, ∃ err t, s.setupLoop runs = some (err, t) ∧
        (err = CF_NoErr ∧ Completed n base following t ∨
          err = CF_WouldBlock ∧ Unfinished n base following t)) ∧
      (n ≤ following.length → ∃ runs, (s.setupLoop runs).map Prod.fst = some CF_NoErr)
    else
      ∀ runs, ∃ err t, s.setupLoop runs = some (err, t) ∧ err ≠ CF_NoErr ∧ err ≠ CF_WouldBlock

/-- Part of the body is read, and `rest` is to come. -/
structure Collects (text : Bytes) (base : Nat) (following : Bytes) (s : HTTPSession)
    (fRequest : HTTPPacket) (rest : Bytes) : Prop where
  request : s.fRequest = some fRequest
  parsed : fRequest.fHTTPType ≠ .httpIllegalType
  length : fRequest.fFieldValues .httpContentLengthHeader = some text
  split : following = fRequest.fHTTPBody.getD [] ++ rest
  stream : Holds s.fInputStream s.fSocket (base + (fRequest.fHTTPBody.getD []).length) rest
  complete : s.fInputStream.complete = true

variable {s : HTTPSession} {fRequest : HTTPPacket} {text following rest : Bytes} {n base : Nat}

theorem Collects.setupRequest_eq (h : Collects text base following s fRequest rest) :
    s.setupRequest = s.readBody fRequest := by
  rw [setupRequest, h.request, Option.bind_some, if_neg h.parsed]

/-- The first call parses the header and goes on with the body. -/
theorem Awaits.collects (h : s.Awaits fRequest)
    (hlength : fRequest.fFieldValues .httpContentLengthHeader = some text)
    (hstream : Holds s.fInputStream s.fSocket base following)
    (hcomplete : s.fInputStream.complete = true) :
    ∃ t, s.setupRequest = t.setupRequest ∧ t.fSocket = s.fSocket ∧
      Collects text base following t fRequest following := by
  obtain ⟨packet, hpacket, ⟨rfl, htype⟩ | ⟨hparse, htype⟩⟩ := h.request
  · exact ⟨s, rfl, rfl, hpacket, htype, hlength, by rw [h.noBody]; rfl,
      by rw [h.noBody]; exact hstream, hcomplete⟩
  · let t : HTTPSession := { s with fRequest := some fRequest }.note fun x =>
      { x with parsed := some (CF_NoErr, fRequest.fVersion) }
    have hcollects : Collects text base following t fRequest following :=
      ⟨rfl, HTTPPacket.parse_type hparse, hlength, by rw [h.noBody]; rfl,
        by rw [h.noBody]; exact hstream, hcomplete⟩
    refine ⟨t, ?_, rfl, hcollects⟩
    rw [hcollects.setupRequest_eq]
    simp [setupRequest, hpacket, htype, hparse, t]

theorem setupLoop_congr {t : HTTPSession} (h : s.setupRequest = t.setupRequest) (runs : Nat) :
    s.setupLoop runs = t.setupLoop runs := by
  cases runs with
  | zero => exact h
  | succ runs => rw [setupLoop, setupLoop, h]

/-- What a call adds to the body. -/
theorem Collects.add (h : Collects text base following s fRequest rest) {data rest' : Bytes}
    {fInputStream : HTTPRequestStream} {fSocket : Socket} (hrest : rest = data ++ rest')
    (hstream : Holds fInputStream fSocket
      (base + (fRequest.fHTTPBody.getD []).length + data.length) rest')
    (hcomplete : fInputStream.complete = true) :
    Collects text base following
      { s with
        fInputStream, fSocket
        fRequest := some { fRequest with
          fHTTPBody := some (fRequest.fHTTPBody.getD [] ++ data) } }
      { fRequest with fHTTPBody := some (fRequest.fHTTPBody.getD [] ++ data) } rest' where
  request := rfl
  parsed := h.parsed
  length := h.length
  split := by
    rw [h.split, hrest, ← List.append_assoc]
    rfl
  stream := by
    simp only [Option.getD_some, List.length_append, ← Nat.add_assoc]
    exact hstream
  complete := hcomplete

/-- The body is read as far as its length goes. -/
theorem Collects.completed (h : Collects text base following s fRequest rest)
    (hbody : (fRequest.fHTTPBody.getD []).length = n) : Completed n base following s := by
  have hbase := h.stream.base_eq
  have hsplit := h.split
  have hstream := h.stream
  generalize hread : fRequest.fHTTPBody.getD [] = data at *
  have hb : s.body = data := by simp [body, h.request, hread]
  subst hbody hsplit
  refine ⟨by omega, ?_, by rw [hb], ?_, h.complete⟩
  · rw [hb, List.take_left]
  · rwa [List.drop_left]

/-- All that has arrived is in the body. -/
theorem Collects.unfinished (h : Collects text base following s fRequest rest)
    (hbody : (fRequest.fHTTPBody.getD []).length < n) (hheld : s.fInputStream.held = []) :
    Unfinished n base following s := by
  have hbase := h.stream.base_eq
  have hsplit := h.split
  have hstream := h.stream
  rw [hheld, List.length_nil, Nat.add_zero] at hbase
  rw [← hbase] at hstream
  generalize hread : fRequest.fHTTPBody.getD [] = data at *
  have hb : s.body = data := by simp [body, h.request, hread]
  subst hsplit
  have hlen : s.fSocket.received.length - base = data.length := by omega
  refine ⟨by omega, ?_, ?_, h.complete⟩
  · rw [hb, hlen, List.take_left]
  · rwa [hlen, List.drop_left]

/-- A call reads the rest of the body, or all that has arrived of it. -/
theorem Collects.readBody (h : Collects text base following s fRequest rest)
    (hlength : contentLength text = n) (hfits : n + 1 < uint32Size) (hne : n ≠ 0)
    (hshort : (fRequest.fHTTPBody.getD []).length < n) :
    ∃ err t, s.readBody fRequest = some (err, t) ∧
      (err = CF_NoErr ∧ Completed n base following t ∨
        err = CF_WouldBlock ∧ Unfinished n base following t ∧
          ∃ fRequest' rest', Collects text base following t fRequest' rest' ∧
            (fRequest'.fHTTPBody.getD []).length < n ∧
            (t.fSocket.incoming.length < s.fSocket.incoming.length ∨ rest' = [])) := by
  obtain ⟨data, rest', err, fInputStream, fSocket, hread, hrest, hlen, herr, hstream, hcomplete,
    hover⟩ := h.stream.read h.complete (n - (fRequest.fHTTPBody.getD []).length)
  have hadd := h.add hrest hstream hcomplete
  have hnoFail : err ≠ CF_RequestFailed ∧ err ≠ CF_WouldBlock := by
    rcases herr with rfl | ⟨rfl, -⟩ <;> decide
  have hroom : ¬ (fRequest.fHTTPBody.getD []).length + data.length > (n + 1) % uint32Size := by
    rw [Nat.mod_eq_of_lt hfits]
    omega
  have hcontent : (StringParser.ofString (fRequest.fFieldValues .httpContentLengthHeader)
      []).consumeWhitespace.consumeInteger.1 = n := by
    rw [h.length]
    exact hlength
  simp only [HTTPSession.readBody, hcontent, if_neg hne, hread, Option.bind_some, if_neg hroom,
    if_neg hnoFail.1, hnoFail.2, false_or]
  split_ifs with hless
  · refine ⟨_, _, rfl, .inr ⟨rfl, hadd.unfinished ?_ (hover hless).1, _, rest', hadd, ?_,
      (hover hless).2⟩⟩ <;>
      · simp only [Option.getD_some, List.length_append]
        omega
  · refine ⟨_, _, rfl, .inl ⟨rfl, hadd.completed ?_⟩⟩
    simp only [Option.getD_some, List.length_append]
    omega

/-- In every number of runs, the request is complete or waits for bytes that have not
arrived. -/
theorem Collects.setupLoop (h : Collects text base following s fRequest rest)
    (hlength : contentLength text = n) (hfits : n + 1 < uint32Size) (hne : n ≠ 0)
    (hshort : (fRequest.fHTTPBody.getD []).length < n) (runs : Nat) :
    ∃ err t, s.setupLoop runs = some (err, t) ∧
      (err = CF_NoErr ∧ Completed n base following t ∨
        err = CF_WouldBlock ∧ Unfinished n base following t) := by
  obtain ⟨err, t, hread, hcases⟩ := h.readBody hlength hfits hne hshort
  rw [← h.setupRequest_eq] at hread
  induction runs generalizing s fRequest rest err t with
  | zero => exact ⟨err, t, hread, hcases.imp_right fun hwait => ⟨hwait.1, hwait.2.1⟩⟩
  | succ runs ih =>
    rw [HTTPSession.setupLoop, hread, Option.bind_some]
    rcases hcases with ⟨rfl, hdone⟩ | ⟨rfl, -, fRequest', rest', h', hshort', -⟩
    · exact ⟨CF_NoErr, t, rfl, .inl ⟨rfl, hdone⟩⟩
    · obtain ⟨err', t', hread', hcases'⟩ := h'.readBody hlength hfits hne hshort'
      rw [← h'.setupRequest_eq] at hread'
      exact ih h' hshort' err' t' hread' hcases'

/-- If the bytes of the body arrive, the request becomes complete. By induction on the events
to come: each call takes one, or there is nothing left to wait for. -/
theorem Collects.completes (h : Collects text base following s fRequest rest)
    (hlength : contentLength text = n) (hfits : n + 1 < uint32Size) (hne : n ≠ 0)
    (hshort : (fRequest.fHTTPBody.getD []).length < n) (hall : n ≤ following.length) :
    ∃ runs, (s.setupLoop runs).map Prod.fst = some CF_NoErr := by
  induction hevents : s.fSocket.incoming.length using Nat.strong_induction_on
    generalizing s fRequest rest with
  | _ events ih =>
    obtain ⟨err, t, hread, ⟨rfl, -⟩ | ⟨rfl, -, fRequest', rest', h', hshort', hless | hnil⟩⟩ :=
      h.readBody hlength hfits hne hshort
    · exact ⟨0, by rw [HTTPSession.setupLoop, h.setupRequest_eq, hread]; rfl⟩
    · obtain ⟨runs, hruns⟩ := ih _ (hevents ▸ hless) h' hshort' rfl
      refine ⟨runs + 1, ?_⟩
      rw [HTTPSession.setupLoop, h.setupRequest_eq, hread, Option.bind_some]
      exact hruns
    · have hlen := congrArg List.length h'.split
      rw [hnil, List.append_nil] at hlen
      omega

/-- Without a body, the request is complete at once. -/
theorem Collects.setupRequest_zero (h : Collects text base following s fRequest rest)
    (hlength : contentLength text = 0) : s.setupRequest = some (CF_NoErr, s) := by
  have hcontent : (StringParser.ofString (fRequest.fFieldValues .httpContentLengthHeader)
      []).consumeWhitespace.consumeInteger.1 = 0 := by
    rw [h.length]
    exact hlength
  rw [h.setupRequest_eq, HTTPSession.readBody]
  simp only [hcontent, if_true]

theorem setupLoop_of_noErr {t : HTTPSession} (h : s.setupRequest = some (CF_NoErr, t))
    (runs : Nat) : s.setupLoop runs = some (CF_NoErr, t) := by
  cases runs with
  | zero => exact h
  | succ runs =>
    rw [setupLoop, h]
    rfl

theorem assembles_of_lt (htext : Denotes text n) (hfits : n + 1 < uint32Size) :
    Assembles text n := by
  intro s fRequest base following hawaits hvalue hstream hcomplete
  rw [if_pos (by omega)]
  have hlength := htext.contentLength_eq
  rw [Nat.mod_eq_of_lt (by omega)] at hlength
  obtain ⟨t, hsetup, -, hcollects⟩ := hawaits.collects hvalue hstream hcomplete
  have hbody : (fRequest.fHTTPBody.getD []).length = 0 := by rw [hawaits.noBody]; rfl
  rcases Nat.eq_zero_or_pos n with rfl | hpos
  · have hzero := hsetup.trans (hcollects.setupRequest_zero hlength)
    have hdone := hcollects.completed hbody
    refine ⟨fun runs => ⟨_, t, setupLoop_of_noErr hzero runs, .inl ⟨rfl, hdone⟩⟩, fun _ => ⟨0, ?_⟩⟩
    rw [setupLoop_of_noErr hzero]
    rfl
  · have hne : n ≠ 0 := hpos.ne'
    simp only [setupLoop_congr hsetup]
    exact ⟨hcollects.setupLoop hlength hfits hne (by omega),
      hcollects.completes hlength hfits hne (by omega)⟩

/-! ## Lengths that are too large -/

/-- A parsed request with this length. -/
def lengthRequest (text : Bytes) : HTTPPacket where
  fHTTPType := .httpRequestType
  fFieldValues
    | .httpContentLengthHeader => some text
    | _ => none

/-- A session that has received such a request, and nothing behind it. -/
def requestOf (text : Bytes) (incoming : List RecvEvent) : HTTPSession where
  fRequest := some (lengthRequest text)
  fInputStream :=
    { fRequestBuffer := List.replicate kRequestBufferSizeInBytes 0
      requestLen := 1
      complete := true }
  fSocket := { incoming }

theorem requestOf_awaits (text : Bytes) (incoming : List RecvEvent) :
    (requestOf text incoming).Awaits (lengthRequest text) :=
  ⟨⟨_, rfl, .inl ⟨rfl, nofun⟩⟩, rfl⟩

theorem requestOf_holds (text : Bytes) {incoming : List RecvEvent}
    (h : Segmentation incoming following) :
    Holds (requestOf text incoming).fInputStream (requestOf text incoming).fSocket 0 following where
  inv := ⟨List.length_replicate, Nat.le_of_ble_eq_true rfl, fun _ => Nat.one_pos, nofun⟩
  connected := rfl
  stream := ⟨following, h, rfl⟩
  base_eq := rfl

theorem requestOf_collects (text : Bytes) {incoming : List RecvEvent}
    (h : Segmentation incoming following) :
    Collects text 0 following (requestOf text incoming) (lengthRequest text) following :=
  ⟨rfl, nofun, rfl, rfl, requestOf_holds text h, rfl⟩

/-- No request is rejected for the length of its body. -/
theorem Collects.not_rejected (h : Collects text base following s fRequest rest) {err : CF_Error}
    {t : HTTPSession} (hsetup : s.setupRequest = some (err, t)) :
    err = CF_NoErr ∨ err = CF_WouldBlock := by
  rw [h.setupRequest_eq] at hsetup
  unfold HTTPSession.readBody at hsetup
  dsimp only at hsetup
  split_ifs at hsetup
  · cases hsetup
    exact .inl rfl
  · obtain ⟨data, rest', err', fInputStream, fSocket, hread, -, -, herr, -⟩ :=
      h.stream.read h.complete (contentLength text - (fRequest.fHTTPBody.getD []).length)
    have hnoFail : err' ≠ CF_RequestFailed := by
      rcases herr with rfl | ⟨rfl, -⟩ <;> decide
    rw [h.length] at hsetup
    rw [contentLength] at hread
    simp only [hread, Option.bind_some, if_neg hnoFail] at hsetup
    split_ifs at hsetup <;> cases hsetup
    · exact .inr rfl
    · exact .inl rfl

theorem requestOf_read (text : Bytes) {length : Nat} (hlength : length ≠ 0) :
    (requestOf text [.segment 120 []]).fInputStream.read
        (requestOf text [.segment 120 []]).fSocket length =
      some (CF_NoErr, [120], (requestOf text []).fInputStream,
        { (requestOf text []).fSocket with received := [120] }) := by
  obtain ⟨length, rfl⟩ := Nat.exists_eq_succ_of_ne_zero hlength
  simp only [HTTPRequestStream.read, Socket.read, requestOf, Nat.zero_min, gt_iff_lt,
    Nat.lt_irrefl, false_and, if_false, (Nat.succ_ne_zero length).symm, Bool.not_true,
    Bool.false_eq_true, Nat.sub_zero, Nat.succ_ne_zero]
  simp [slice, Socket.putBack, OS_NoErr, CF_NoErr]

/-- The array for a body of `2 ^ 32 - 1` bytes has no room for the first one. -/
theorem requestOf_overrun (hlength : contentLength text + 1 = uint32Size) :
    (requestOf text [.segment 120 []]).setupRequest = none := by
  have hne : contentLength text ≠ 0 := by
    intro hzero
    rw [hzero] at hlength
    cases hlength
  have hcontent : (StringParser.ofString ((lengthRequest text).fFieldValues
      .httpContentLengthHeader) []).consumeWhitespace.consumeInteger.1 = contentLength text := rfl
  rw [(requestOf_collects text (.segment .nil)).setupRequest_eq, HTTPSession.readBody]
  simp only [hcontent, if_neg hne]
  have hbody : ((lengthRequest text).fHTTPBody.getD []).length = 0 := rfl
  rw [hbody, Nat.sub_zero, requestOf_read text hne, Option.bind_some, hlength]
  rfl

theorem Assembles.lt (h : Assembles text n) (htext : Denotes text n) : n + 1 < uint32Size := by
  by_contra hlarge
  rcases Nat.lt_or_ge n uint32Size with hlt | hge
  · have hsegment : Segmentation [.segment 120 []] [120] := .segment .nil
    have hruns := h _ _ 0 [120] (requestOf_awaits text _) rfl (requestOf_holds text hsegment) rfl
    rw [if_pos hlt] at hruns
    obtain ⟨err, t, hsetup, -⟩ := hruns.1 0
    have hlength := htext.contentLength_eq
    rw [Nat.mod_eq_of_lt hlt] at hlength
    rw [setupLoop, requestOf_overrun (by omega)] at hsetup
    cases hsetup
  · have hruns := h _ _ 0 [] (requestOf_awaits text _) rfl (requestOf_holds text .nil) rfl
    rw [if_neg (by omega)] at hruns
    obtain ⟨err, t, hsetup, hnoErr, hnoBlock⟩ := hruns 0
    rcases (requestOf_collects text .nil).not_rejected hsetup with rfl | rfl
    · exact hnoErr rfl
    · exact hnoBlock rfl

/-- The body is assembled, or rejected, if and only if its length leaves room for one more
byte in 32 bits. -/
theorem assembles_iff (htext : Denotes text n) : Assembles text n ↔ n + 1 < uint32Size :=
  ⟨fun h => h.lt htext, assembles_of_lt htext⟩

theorem assembles_iff_twelve : Assembles (ascii "12") 12 ↔ 12 + 1 < uint32Size :=
  assembles_iff (denotes_digits (by decide +kernel) (by decide +kernel))

/-- Of a length of `2 ^ 32` nothing is left, and of one less nothing of the array for the
body. -/
theorem largeLength_not_assembles :
    ¬ Assembles (ascii "4294967296") 4294967296 ∧
      ¬ Assembles (ascii "4294967295") 4294967295 := by
  constructor
  · intro h
    exact absurd (h.lt (denotes_digits (by decide +kernel) (by decide +kernel))) (by decide)
  · intro h
    exact absurd (h.lt (denotes_digits (by decide +kernel) (by decide +kernel))) (by decide)

end HTTPSession

end CxxFramework.Net
