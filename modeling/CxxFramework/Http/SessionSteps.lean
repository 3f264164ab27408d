import CxxFramework.Http.ResponseHeader

/-!
# What a section of a session does

For each section of `Run`, what it does to the requests recorded, the response stream and
the bytes on the wire.

## Main definitions

* `HTTPSession.Unchanged` — the parts of a session that reading leaves as they are.
* `HTTPSession.SetUp` — what `SetupResponse` does.
* `HTTPSession.Typed` — the response packet is one.
-/

namespace CxxFramework.Net.HTTPSession

open CxxFramework.Core Thread ResizeableStringFormatter

@[simp] theorem note_history (s : HTTPSession) (f : Exchange → Exchange) :
    (s.note f).history = s.history.modifyHead f := rfl

/-! ## Steps that leave the current request alone -/

/-- The requests and the output are the same. -/
structure Unchanged (s t : HTTPSession) : Prop where
  fRequest : t.fRequest = s.fRequest
  fResponse : t.fResponse = s.fResponse
  output : t.fOutputStream = s.fOutputStream
  wire : t.fSocket.wire = s.fSocket.wire
  history : t.history = s.history

variable {s t : HTTPSession} {p : Point} {err : CF_Error}

theorem readingFirstRequest_spec (h : s.readingFirstRequest = some (p, t)) :
    Unchanged s t ∧ (t.fState = s.fState ∨ t.fState = .kHaveCompleteMessage) := by
  obtain ⟨⟨theErr, fInputStream, fSocket⟩, hread, heq⟩ := Option.map_eq_some_iff.mp h
  have hwire := HTTPRequestStream.readRequest_wire hread
  dsimp only at heq
  split_ifs at heq <;> cases heq
  · exact ⟨⟨rfl, rfl, rfl, hwire, rfl⟩, .inl rfl⟩
  · exact ⟨⟨rfl, rfl, rfl, hwire, rfl⟩, .inl rfl⟩
  · exact ⟨⟨rfl, rfl, rfl, hwire, rfl⟩, .inr rfl⟩

/-- Where `kReadingRequest` goes on to the next section, it has the result of
`ReadRequest` in `err`. -/
theorem readingRequest_spec (h : s.readingRequest = some (p, t)) :
    Unchanged s t ∧ (t.fState = s.fState ∨
      t.fState = .kHaveCompleteMessage ∧ ∃ result, p = .switch result.1 ∧
        s.fInputStream.readRequest s.fSocket = some result ∧
        (result.1 = CF_RequestArrived ∨ result.1 = E2BIG ∨ result.1 = CF_BadArgument)) := by
  obtain ⟨⟨theErr, fInputStream, fSocket⟩, hread, heq⟩ := Option.map_eq_some_iff.mp h
  have hwire := HTTPRequestStream.readRequest_wire hread
  dsimp only at heq
  split_ifs at heq with hnone hother hconnected <;> cases heq
  · exact ⟨⟨rfl, rfl, rfl, hwire, rfl⟩, .inl rfl⟩
  · exact ⟨⟨rfl, rfl, rfl, hwire, rfl⟩, .inl rfl⟩
  · exact ⟨⟨rfl, rfl, rfl, hwire, rfl⟩, .inl rfl⟩
  · refine ⟨⟨rfl, rfl, rfl, hwire, rfl⟩, .inr ⟨rfl, _, rfl, hread, ?_⟩⟩
    tauto

/-! ## The stages of a request -/

theorem haveCompleteMessage_spec (h : s.haveCompleteMessage err = some (p, t)) :
    t.history = {} :: s.history ∧ t.fSocket = s.fSocket ∧
      t.fOutputStream = { s.fOutputStream with formatter.fBytesWritten := 0 } ∧
      (∃ fResponse, t.fResponse = some fResponse ∧ fResponse.fHTTPType = .httpResponseType ∧
        (t.fState = .kSendingResponse → fResponse.fStatusCode = .httpInternalServerError)) ∧
      (t.fState = .kSendingResponse ∨
        t.fState = .kFilteringRequest ∧ err ≠ E2BIG ∧ err ≠ CF_BadArgument) := by
  obtain ⟨⟨packet, beyond⟩, -, heq⟩ := Option.map_eq_some_iff.mp h
  dsimp only at heq
  split_ifs at heq with herr <;> cases heq
  · exact ⟨rfl, rfl, rfl, ⟨_, rfl, rfl, fun _ => rfl⟩, .inl rfl⟩
  · exact ⟨rfl, rfl, rfl, ⟨_, rfl, rfl, fun hstate => by cases hstate⟩,
      .inr ⟨rfl, not_or.mp herr⟩⟩

theorem readBody_spec {fRequest : HTTPPacket} (h : s.readBody fRequest = some (err, t)) :
    t.history = s.history ∧ t.fState = s.fState ∧ t.fResponse = s.fResponse ∧
      t.fOutputStream = s.fOutputStream ∧ t.fSocket.wire = s.fSocket.wire := by
  unfold readBody at h
  dsimp only at h
  split_ifs at h
  · cases h
    exact ⟨rfl, rfl, rfl, rfl, rfl⟩
  · obtain ⟨⟨theErr, data, fInputStream, fSocket⟩, hread, heq⟩ := Option.bind_eq_some_iff.mp h
    have hwire := HTTPRequestStream.read_wire hread
    dsimp only at heq
    split_ifs at heq <;> cases heq <;> exact ⟨rfl, rfl, rfl, rfl, hwire⟩

/-- At most the result of `Parse` is recorded. -/
def Parses (s t : HTTPSession) : Prop :=
  t.history = s.history ∨
    ∃ result, t.history = s.history.modifyHead fun x => { x with parsed := some result }

theorem Parses.modifies {s t : HTTPSession} (h : Parses s t) :
    ∃ f, t.history = s.history.modifyHead f ∧ ∀ x, ∃ parsed, f x = { x with parsed } := by
  rcases h with hsame | ⟨result, hparsed⟩
  · exact ⟨id, by rw [hsame, List.modifyHead_id, id], fun x => ⟨x.parsed, rfl⟩⟩
  · exact ⟨_, hparsed, fun x => ⟨some result, rfl⟩⟩

theorem setupRequest_spec (h : s.setupRequest = some (err, t)) :
    Parses s t ∧ t.fState = s.fState ∧ t.fResponse = s.fResponse ∧
      t.fOutputStream = s.fOutputStream ∧ t.fSocket.wire = s.fSocket.wire := by
  obtain ⟨fRequest, -, h⟩ := Option.bind_eq_some_iff.mp h
  split_ifs at h
  · obtain ⟨⟨theErr, parsed⟩, -, h⟩ := Option.bind_eq_some_iff.mp h
    dsimp only at h
    split_ifs at h
    · cases h
      exact ⟨.inr ⟨_, rfl⟩, rfl, rfl, rfl, rfl⟩
    · obtain ⟨hhistory, hrest⟩ := readBody_spec h
      exact ⟨.inr ⟨_, hhistory⟩, hrest⟩
  · obtain ⟨hhistory, hrest⟩ := readBody_spec h
    exact ⟨.inl hhistory, hrest⟩

theorem filteringRequest_spec (h : s.filteringRequest err = some (p, t)) :
    Parses s t ∧ (t.fState = s.fState ∨ t.fState = .kPreprocessingRequest) ∧
      t.fResponse = s.fResponse ∧ t.fOutputStream = s.fOutputStream ∧
        t.fSocket.wire = s.fSocket.wire := by
  obtain ⟨⟨theErr, u⟩, hsetup, heq⟩ := Option.map_eq_some_iff.mp h
  obtain ⟨hhistory, hstate, hrest⟩ := setupRequest_spec hsetup
  dsimp only at heq
  split_ifs at heq <;> cases heq
  · exact ⟨hhistory, .inl hstate, hrest⟩
  · exact ⟨hhistory, .inr rfl, hrest⟩

theorem preprocessingRequest_spec (h : s.preprocessingRequest err = some (p, t)) :
    t.fState = .kProcessingRequest ∧ t.history = s.history ∧
      t.fOutputStream = s.fOutputStream ∧ t.fSocket = s.fSocket ∧
      ∃ fResponse fStatusCode, s.fResponse = some fResponse ∧
        t.fResponse = some { fResponse with fStatusCode } := by
  simp only [preprocessingRequest, Option.bind_eq_bind, Option.bind_eq_some_iff] at h
  obtain ⟨fRequest, -, fResponse, hresponse, heq⟩ := h
  split_ifs at heq <;> cases heq
  · exact ⟨rfl, rfl, rfl, rfl, fResponse, _, hresponse, rfl⟩
  · exact ⟨rfl, rfl, rfl, rfl, fResponse, fResponse.fStatusCode, hresponse, hresponse⟩

@[simp] theorem setDispatchStatus_type (fResponse : HTTPPacket) (theErr : CF_Error) :
    (setDispatchStatus fResponse theErr).fHTTPType = fResponse.fHTTPType := by
  unfold setDispatchStatus
  split_ifs <;> rfl

theorem processingRequest_spec {mapping : List HTTPMapping} {sDispatcher : HTTPDispatcher mapping}
    {env : Env} (h : processingRequest sDispatcher env s err = some (p, t)) :
    ∃ fRequest fResponse, s.fRequest = some fRequest ∧ s.fResponse = some fResponse ∧
      t.fState = .kSendingResponse ∧ t.fOutputStream = s.fOutputStream ∧ t.fSocket = s.fSocket ∧
      (let dispatched := sDispatcher.dispatch env.cgi fRequest fResponse
      t.fResponse = some (setDispatchStatus dispatched.2.2.2 dispatched.2.1) ∧
        t.history = s.history.modifyHead fun x =>
          { x with called := dispatched.1.toList ++ x.called }) := by
  simp only [processingRequest, Option.bind_eq_bind, Option.bind_eq_some_iff] at h
  obtain ⟨fRequest, hrequest, fResponse, hresponse, heq⟩ := h
  cases heq
  exact ⟨fRequest, fResponse, hrequest, hresponse, rfl, rfl, rfl, rfl, rfl⟩

/-! ## Sending the response -/

/-- The response packet, if there is one, was made as a response. -/
def Typed (s : HTTPSession) : Prop :=
  ∀ fResponse ∈ s.fResponse, fResponse.fHTTPType = .httpResponseType

/-- `SetupResponse` builds the response `r`, and appends it to what the response stream
holds. -/
structure SetUp (s t : HTTPSession) (r : Response) : Prop where
  fState : t.fState = s.fState
  fSocket : t.fSocket = s.fSocket
  fBytesSentInBuffer : t.fOutputStream.fBytesSentInBuffer = s.fOutputStream.fBytesSentInBuffer
  history : t.history = s.history.modifyHead fun x => { x with response := x.response <|> some r }
  status : ∃ fResponse ∈ s.fResponse, fResponse.fStatusCode = r.status
  typed : ∀ fResponse ∈ t.fResponse,
    fResponse.fHTTPType = .httpResponseType ∧ fResponse.fStatusCode = r.status
  nonempty : r.header ≠ []
  content : Counted s.fOutputStream.formatter →
    t.fOutputStream.formatter.content = s.fOutputStream.formatter.content ++ r.bytes ∧
      Counted t.fOutputStream.formatter

theorem setupResponse_setUp {date : DateBuffer} (typed : Typed s)
    (h : s.setupResponse date = some t) : ∃ r, SetUp s t r := by
  simp only [setupResponse, Option.bind_eq_bind, Option.bind_eq_some_iff] at h
  obtain ⟨fRequest, -, fResponse, hresponse, ⟨header, fResponse'⟩, hbuild, f, hheader, g, hbody,
    heq⟩ := h
  obtain ⟨built, hzero, hne⟩ := buildHeader_built (typed fResponse hresponse) hbuild
  cases heq
  refine ⟨⟨fResponse'.fStatusCode, header, fResponse'.fHTTPBody.getD []⟩, rfl, rfl, rfl, rfl,
    ⟨fResponse, hresponse, built.fStatusCode.symm⟩, ?_, hne, fun hcounted =>
      putResponse_spec hcounted hzero hheader hbody⟩
  rintro _ ⟨⟩
  exact ⟨built.fHTTPType.trans (typed fResponse hresponse), rfl⟩

/-- What one attempt to send records, besides the response. -/
theorem sendingResponse_spec {env : Env} (typed : Typed s)
    (h : sendingResponse env s err = some (p, t)) :
    ∃ u r taken answered, SetUp s u r ∧ t.fResponse = u.fResponse ∧
      (t.fState = s.fState ∨ t.fState = .kCleaningUp) ∧
      t.history = u.history.modifyHead fun x =>
        { x with sent := x.sent ++ taken, answered := x.answered || answered } := by
  obtain ⟨u, hsetup, heq⟩ := Option.map_eq_some_iff.mp h
  obtain ⟨r, setUp⟩ := setupResponse_setUp typed hsetup
  let taken := (u.fOutputStream.flush u.fSocket).2.2.wire.drop u.fSocket.wire.length
  dsimp only at heq
  split_ifs at heq <;> cases heq
  · refine ⟨u, r, [], false, setUp, rfl, .inr rfl, ?_⟩
    cases u.history <;> simp
  · exact ⟨u, r, taken, false, setUp, rfl, .inl setUp.fState, by simp [taken]⟩
  · exact ⟨u, r, taken, false, setUp, rfl, .inl setUp.fState, by simp [taken]⟩
  · exact ⟨u, r, taken, true, setUp, rfl, .inr rfl, by simp [taken, Function.comp_def]⟩

/-! ## Cleaning up -/

@[simp] theorem cleanup_output (s : HTTPSession) :
    s.cleanupRequestAndResponse.fOutputStream = s.fOutputStream ∧
      s.cleanupRequestAndResponse.fSocket = s.fSocket ∧
      s.cleanupRequestAndResponse.fState = s.fState ∧
      s.cleanupRequestAndResponse.fRequest = none ∧
      s.cleanupRequestAndResponse.fResponse = none := by
  unfold cleanupRequestAndResponse
  dsimp only
  split_ifs <;> exact ⟨rfl, rfl, rfl, rfl, rfl⟩

/-- Cleaning up records at most that the connection is to be closed. -/
theorem cleanup_history (s : HTTPSession) :
    ∃ f, s.cleanupRequestAndResponse.history = s.history.modifyHead f ∧
      ∀ x, ∃ closed, f x = { x with closed } := by
  unfold cleanupRequestAndResponse
  dsimp only
  split_ifs
  · exact ⟨_, rfl, fun x => ⟨true, rfl⟩⟩
  · exact ⟨id, by rw [List.modifyHead_id, id], fun x => ⟨x.closed, rfl⟩⟩

/-- Where there is no request, there is none to close. -/
theorem cleanup_history_of_none (h : s.fRequest = none) :
    s.cleanupRequestAndResponse.history = s.history := by
  unfold cleanupRequestAndResponse
  rw [h]
  rfl

/-! ## All steps -/

variable {mapping : List HTTPMapping} {sDispatcher : HTTPDispatcher mapping}
  {c d : Point × HTTPSession} {a : SessionAction}

/-- A step executes a section, or leaves the requests alone, or ends a `Run`. -/
theorem next_cases (h : next sDispatcher c a = some d) :
    (∃ env err, a = .switch env ∧ c.1 = .switch err ∧ runSection sDispatcher env c.2 err = some d) ∨
      ((∀ env, a ≠ .switch env) ∧ Unchanged c.2 d.2 ∧ d.2.fState = c.2.fState ∧
        (d.1 = c.1 ∨ c.1 = .waiting ∨ ∃ err, c.1 = .loop err)) ∨
      ((∀ env, a ≠ .switch env) ∧ (∃ err, c.1 = .loop err) ∧ d = c.2.endRun) := by
  obtain ⟨p, s⟩ := c
  cases a with
  | signal events =>
    simp only [next, Option.ite_none_left_eq_some, Option.some.injEq] at h
    obtain ⟨-, rfl⟩ := h
    exact .inr (.inl ⟨nofun, ⟨rfl, rfl, rfl, rfl, rfl⟩, rfl, .inl rfl⟩)
  | incrementObjectHolderCount =>
    simp only [next, Option.ite_none_left_eq_some, Option.some.injEq] at h
    obtain ⟨-, rfl⟩ := h
    exact .inr (.inl ⟨nofun, ⟨rfl, rfl, rfl, rfl, rfl⟩, rfl, .inl rfl⟩)
  | decrementObjectHolderCount =>
    simp only [next, Option.ite_none_left_eq_some, Option.some.injEq] at h
    obtain ⟨-, rfl⟩ := h
    exact .inr (.inl ⟨nofun, ⟨rfl, rfl, rfl, rfl, rfl⟩, rfl, .inl rfl⟩)
  | run =>
    simp only [next, Option.ite_none_right_eq_some, Option.some.injEq] at h
    obtain ⟨hwaiting, rfl⟩ := h
    exact .inr (.inl ⟨nofun, ⟨rfl, rfl, rfl, rfl, rfl⟩, rfl, .inr (.inl hwaiting)⟩)
  | loop =>
    cases p with
    | loop err =>
      simp only [next, Option.some.injEq] at h
      split_ifs at h with hlive
      · subst h
        exact .inr (.inl ⟨nofun, ⟨rfl, rfl, rfl, rfl, rfl⟩, rfl, .inr (.inr ⟨err, rfl⟩)⟩)
      · exact .inr (.inr ⟨nofun, ⟨err, rfl⟩, h.symm⟩)
    | waiting | switch _ | deleted => cases h
  | switch env =>
    cases p with
    | switch err => exact .inl ⟨env, err, rfl, rfl, h⟩
    | waiting | loop _ | deleted => cases h

theorem runSection_typed {env : Env} (typed : Typed s)
    (h : runSection sDispatcher env s err = some d) : Typed d.2 := by
  obtain ⟨p, t⟩ := d
  unfold runSection at h
  cases hstate : s.fState with
  | kReadingFirstRequest =>
    rw [hstate] at h
    intro fResponse hr
    exact typed _ ((readingFirstRequest_spec h).1.fResponse ▸ hr)
  | kReadingRequest =>
    rw [hstate] at h
    intro fResponse hr
    exact typed _ ((readingRequest_spec h).1.fResponse ▸ hr)
  | kHaveCompleteMessage =>
    rw [hstate] at h
    obtain ⟨-, -, -, ⟨fResponse', hresponse, htype, -⟩, -⟩ := haveCompleteMessage_spec h
    intro fResponse hr
    cases hresponse.symm.trans hr
    exact htype
  | kFilteringRequest =>
    rw [hstate] at h
    intro fResponse hr
    exact typed _ ((filteringRequest_spec h).2.2.1 ▸ hr)
  | kPreprocessingRequest =>
    rw [hstate] at h
    obtain ⟨-, -, -, -, fResponse', status, hresponse, hset⟩ := preprocessingRequest_spec h
    intro fResponse hr
    cases hset.symm.trans hr
    exact typed fResponse' hresponse
  | kProcessingRequest =>
    rw [hstate] at h
    obtain ⟨fRequest, fResponse', -, hresponse, -, -, -, hset, -⟩ := processingRequest_spec h
    intro fResponse hr
    cases hset.symm.trans hr
    exact (setDispatchStatus_type _ _).trans
      ((sDispatcher.dispatch_type _ _ _).trans (typed fResponse' hresponse))
  | kSendingResponse =>
    rw [hstate] at h
    obtain ⟨u, r, -, -, setUp, hresponse, -⟩ := sendingResponse_spec typed h
    intro fResponse hr
    exact (setUp.typed fResponse (hresponse ▸ hr)).1
  | kCleaningUp =>
    rw [hstate] at h
    cases h
    intro fResponse hr
    cases (cleanup_output s).2.2.2.2.symm.trans hr

/-- No step makes anything else a response packet. -/
theorem next_typed (typed : Typed c.2) (h : next sDispatcher c a = some d) : Typed d.2 := by
  rcases next_cases h with ⟨env, err, -, -, hsection⟩ | ⟨-, hunchanged, -⟩ | ⟨-, -, rfl⟩
  · exact runSection_typed typed hsection
  · intro fResponse hr
    exact typed _ (hunchanged.fResponse ▸ hr)
  · intro fResponse hr
    cases (cleanup_output c.2).2.2.2.2.symm.trans hr

theorem Fresh.typed (fresh : Fresh c) : Typed c.2 := by
  intro fResponse hr
  cases fresh.noRequest.2.symm.trans hr

end CxxFramework.Net.HTTPSession
