import CxxFramework.Http.SessionSteps

/-!
# Closing a session

Once a request that does not keep the connection is answered, no further request of the
connection is to be parsed or dispatched. `CleanupRequestAndResponse` only signals the
session, which the `Run` that is going on does not see: it goes on with the next request
if that has been received. So a run keeps to the rule if `ReadRequest` does not come upon
a complete request after the close.

## Main definitions

* `HTTPSession.NoneAfterClose` — no request behind a close is parsed or dispatched.
* `HTTPSession.CloseOk` — the condition on reading after a close.
-/

namespace CxxFramework.Net.HTTPSession

open CxxFramework.Core Transition

variable {mapping : List HTTPMapping} {sDispatcher : HTTPDispatcher mapping}
  {s t : HTTPSession} {c d : Point × HTTPSession} {a : SessionAction} {p : Point}
  {err : CF_Error} {env : Env}

/-- No request behind one that closes the connection is parsed or dispatched. -/
def NoneAfterClose (s : HTTPSession) : Prop :=
  s.history.Pairwise fun newer older =>
    older.closed = true → newer.parsed = none ∧ newer.called = []

instance (s : HTTPSession) : Decidable s.NoneAfterClose :=
  inferInstanceAs (Decidable (List.Pairwise _ _))

/-- The connection is to be closed. -/
def AnyClosed (s : HTTPSession) : Prop := ∃ x ∈ s.history, x.closed = true

instance (s : HTTPSession) : Decidable s.AnyClosed := inferInstanceAs (Decidable (∃ _ ∈ _, _))

/-- When the next request is to be read after a close, no complete one has been received. -/
def CloseOk (c : Point × HTTPSession) : SessionAction → Prop
  | .switch _ => c.2.fState = .kReadingRequest → AnyClosed c.2 →
      ∀ result ∈ c.2.fInputStream.readRequest c.2.fSocket, result.1 ≠ CF_RequestArrived
  | _ => True

instance (c : Point × HTTPSession) : (a : SessionAction) → Decidable (CloseOk c a)
  | .switch _ => inferInstanceAs (Decidable (_ → _ → ∀ _ ∈ _, _))
  | .signal _ | .incrementObjectHolderCount | .decrementObjectHolderCount | .run | .loop =>
    inferInstanceAs (Decidable True)

/-! ## The invariant -/

/-- Where a session may be after a close. Behind the sections that read, it has no request
in the sections that would parse or dispatch one. -/
def AfterClose (c : Point × HTTPSession) : Prop :=
  match c.2.fState with
  | .kReadingFirstRequest => False
  | .kHaveCompleteMessage =>
    ∃ err, c.1 = .switch err ∧ (err = E2BIG ∨ err = CF_BadArgument)
  | .kFilteringRequest | .kPreprocessingRequest | .kProcessingRequest => c.2.fRequest = none
  | .kReadingRequest | .kSendingResponse | .kCleaningUp => True

/-- The states in which no request is being handled. -/
def Between (state : SessionState) : Prop :=
  state = .kReadingFirstRequest ∨ state = .kReadingRequest ∨ state = .kHaveCompleteMessage

structure Closing (c : Point × HTTPSession) : Prop where
  typed : Typed c.2
  ordered : NoneAfterClose c.2
  between : Between c.2.fState → c.2.fRequest = none
  after : AnyClosed c.2 → AfterClose c

theorem Fresh.closing (fresh : Fresh c) : Closing c where
  typed := fresh.typed
  ordered := by
    unfold NoneAfterClose
    rw [fresh.noHistory]
    exact List.Pairwise.nil
  between := fun _ => fresh.noRequest.1
  after := by
    rintro ⟨x, hx, -⟩
    rw [fresh.noHistory] at hx
    cases hx

/-! ## The history -/

/-- Recording anything but parsing and calls on the last request keeps the order. -/
theorem noneAfterClose_modifyHead {f : Exchange → Exchange} (ordered : NoneAfterClose s)
    (hhistory : t.history = s.history.modifyHead f)
    (hf : ∀ x, (f x).parsed = x.parsed ∧ (f x).called = x.called) : NoneAfterClose t := by
  unfold NoneAfterClose at *
  rw [hhistory]
  cases hs : s.history with
  | nil => exact List.Pairwise.nil
  | cons x xs =>
    rw [hs, List.pairwise_cons] at ordered
    rw [List.modifyHead_cons, List.pairwise_cons, (hf x).1, (hf x).2]
    exact ordered

/-- Where nothing is closed yet, anything may be recorded. -/
theorem noneAfterClose_of_open {f : Exchange → Exchange} (ordered : NoneAfterClose s)
    (hopen : ¬ AnyClosed s) (hhistory : t.history = s.history.modifyHead f) : NoneAfterClose t := by
  unfold NoneAfterClose AnyClosed at *
  rw [hhistory]
  cases hs : s.history with
  | nil => exact List.Pairwise.nil
  | cons x xs =>
    rw [hs] at ordered hopen
    rw [List.modifyHead_cons, List.pairwise_cons]
    refine ⟨fun older hmem hclosed => ?_, (List.pairwise_cons.mp ordered).2⟩
    exact absurd ⟨older, List.mem_cons_of_mem x hmem, hclosed⟩ hopen

theorem anyClosed_modifyHead {f : Exchange → Exchange}
    (hhistory : t.history = s.history.modifyHead f)
    (hf : ∀ x, (f x).closed = x.closed) : AnyClosed t ↔ AnyClosed s := by
  unfold AnyClosed
  rw [hhistory]
  cases s.history with
  | nil => rfl
  | cons x xs => simp [hf]

theorem Unchanged.ordered (h : Unchanged s t) (ordered : NoneAfterClose s) : NoneAfterClose t := by
  unfold NoneAfterClose
  rw [h.history]
  exact ordered

theorem Unchanged.anyClosed (h : Unchanged s t) : AnyClosed t ↔ AnyClosed s := by
  unfold AnyClosed
  rw [h.history]

theorem cleanup_ordered (ordered : NoneAfterClose s) :
    NoneAfterClose s.cleanupRequestAndResponse := by
  obtain ⟨f, hhistory, hclosed⟩ := cleanup_history s
  refine noneAfterClose_modifyHead ordered hhistory ?_
  intro x
  obtain ⟨closed, heq⟩ := hclosed x
  rw [heq]
  exact ⟨rfl, rfl⟩

/-! ## The sections -/

theorem haveCompleteMessage_closing (good : Closing (.switch err, s))
    (hstate : s.fState = .kHaveCompleteMessage) (typed : Typed t)
    (h : s.haveCompleteMessage err = some (p, t)) : Closing (p, t) := by
  obtain ⟨hhistory, -, -, -, hstate'⟩ := haveCompleteMessage_spec h
  have hclosed : AnyClosed t → err = E2BIG ∨ err = CF_BadArgument := by
    intro hclosed
    have hbefore : AnyClosed s := by
      unfold AnyClosed at hclosed ⊢
      rw [hhistory] at hclosed
      simpa using hclosed
    obtain ⟨err', heq, herr⟩ : ∃ err', Point.switch err = .switch err' ∧
        (err' = E2BIG ∨ err' = CF_BadArgument) := by
      simpa only [AfterClose, hstate] using good.after hbefore
    cases heq
    exact herr
  refine ⟨typed, ?_, ?_, ?_⟩
  · unfold NoneAfterClose
    rw [hhistory, List.pairwise_cons]
    exact ⟨fun _ _ _ => ⟨rfl, rfl⟩, good.ordered⟩
  · intro hbetween
    rcases hstate' with heq | ⟨heq, -⟩ <;>
      · rw [heq] at hbetween
        simp [Between] at hbetween
  · intro hany
    unfold AfterClose
    rcases hstate' with heq | ⟨heq, hbig, hbad⟩
    · rw [heq]
      trivial
    · rcases hclosed hany with rfl | rfl
      · exact absurd rfl hbig
      · exact absurd rfl hbad

/-- A section that has a request before any close. -/
theorem closing_of_open {f : Exchange → Exchange} (good : Closing c) (hopen : ¬ AnyClosed c.2)
    (typed : Typed t) (hhistory : t.history = c.2.history.modifyHead f)
    (hf : ∀ x, (f x).closed = x.closed) (hstate : ¬ Between t.fState) : Closing (p, t) where
  typed := typed
  ordered := noneAfterClose_of_open good.ordered hopen hhistory
  between := fun hbetween => absurd hbetween hstate
  after := fun hany => absurd ((anyClosed_modifyHead hhistory hf).mp hany) hopen

/-- A section that only sends. -/
theorem sendingResponse_closing (good : Closing (.switch err, s))
    (hstate : s.fState = .kSendingResponse) (typed : Typed t)
    (h : sendingResponse env s err = some (p, t)) : Closing (p, t) := by
  obtain ⟨u, r, taken, answered, setUp, -, hstate', hhistory⟩ := sendingResponse_spec good.typed h
  rw [setUp.history, List.modifyHead_modifyHead] at hhistory
  refine ⟨typed, noneAfterClose_modifyHead good.ordered hhistory fun x => ⟨rfl, rfl⟩, ?_, ?_⟩
  · intro hbetween
    rcases hstate' with heq | heq <;>
      · rw [heq] at hbetween
        simp [Between, hstate] at hbetween
  · intro _
    unfold AfterClose
    rcases hstate' with heq | heq <;> simp [heq, hstate]

theorem runSection_closing (good : Closing (.switch err, s))
    (hok : CloseOk (.switch err, s) (.switch env))
    (h : runSection sDispatcher env s err = some d) : Closing d := by
  have typed := runSection_typed good.typed h
  obtain ⟨q, t⟩ := d
  -- After a close, a section that needs a request has none.
  have hopen : s.fRequest ≠ none → (s.fState = .kFilteringRequest ∨
      s.fState = .kPreprocessingRequest ∨ s.fState = .kProcessingRequest) → ¬ AnyClosed s := by
    rintro hrequest (heq | heq | heq) hany <;>
      exact hrequest (by simpa only [AfterClose, heq] using good.after hany)
  unfold runSection at h
  cases hstate : s.fState with
  | kReadingFirstRequest =>
    rw [hstate] at h
    obtain ⟨hunchanged, hstate'⟩ := readingFirstRequest_spec h
    have hnone := good.between (.inl hstate)
    refine ⟨typed, hunchanged.ordered good.ordered, fun _ => hunchanged.fRequest.trans hnone, ?_⟩
    intro hany
    have hafter := good.after (hunchanged.anyClosed.mp hany)
    simp only [AfterClose, hstate] at hafter
  | kReadingRequest =>
    rw [hstate] at h
    obtain ⟨hunchanged, hstate'⟩ := readingRequest_spec h
    have hnone := good.between (.inr (.inl hstate))
    refine ⟨typed, hunchanged.ordered good.ordered, fun _ => hunchanged.fRequest.trans hnone, ?_⟩
    intro hany
    unfold AfterClose
    rcases hstate' with heq | ⟨heq, result, rfl, hread, hresult⟩
    · simp [heq, hstate]
    · have hnot := hok hstate (hunchanged.anyClosed.mp hany) result hread
      rw [heq]
      exact ⟨result.1, rfl, hresult.resolve_left hnot⟩
  | kHaveCompleteMessage =>
    rw [hstate] at h
    exact haveCompleteMessage_closing good hstate typed h
  | kFilteringRequest =>
    rw [hstate] at h
    have hrequest : s.fRequest ≠ none := by
      intro hnone
      simp [filteringRequest, setupRequest, hnone] at h
    obtain ⟨hparses, hstate', -⟩ := filteringRequest_spec h
    have hnot : ¬ Between t.fState := by
      rcases hstate' with heq | heq <;> simp [Between, heq, hstate]
    obtain ⟨f, hhistory, hparsed⟩ := hparses.modifies
    refine closing_of_open good (hopen hrequest (.inl hstate)) typed hhistory (fun x => ?_) hnot
    obtain ⟨parsed, heq⟩ := hparsed x
    rw [heq]
  | kPreprocessingRequest =>
    rw [hstate] at h
    have hrequest : s.fRequest ≠ none := by
      intro hnone
      simp [preprocessingRequest, hnone] at h
    obtain ⟨hstate', hhistory, -⟩ := preprocessingRequest_spec h
    have hhistory' : t.history = s.history.modifyHead id := by
      rw [hhistory, List.modifyHead_id, id]
    exact closing_of_open good (hopen hrequest (.inr (.inl hstate))) typed hhistory' (fun _ => rfl)
      (by simp [Between, hstate'])
  | kProcessingRequest =>
    rw [hstate] at h
    obtain ⟨fRequest, fResponse, hrequest, -, hstate', -, -, -, hhistory⟩ :=
      processingRequest_spec h
    exact closing_of_open good (hopen (by simp [hrequest]) (.inr (.inr hstate))) typed hhistory
      (fun _ => rfl) (by simp [Between, hstate'])
  | kSendingResponse =>
    rw [hstate] at h
    exact sendingResponse_closing good hstate typed h
  | kCleaningUp =>
    rw [hstate] at h
    cases h
    exact ⟨typed, cleanup_ordered good.ordered, fun _ => (cleanup_output s).2.2.2.1,
      fun _ => trivial⟩

/-! ## Runs -/

theorem endRun_closing (good : Closing (.loop err, s)) : Closing s.endRun := by
  obtain ⟨-, -, hstate, hrequest, hresponse⟩ := cleanup_output s
  refine ⟨?_, cleanup_ordered good.ordered, fun _ => hrequest, ?_⟩
  · intro fResponse hr
    cases hresponse.symm.trans hr
  · intro hany
    -- In a state between requests there is none to close.
    have hbefore : Between s.fState → AnyClosed s := by
      intro hbetween
      have hhistory := cleanup_history_of_none (good.between hbetween)
      unfold AnyClosed at hany ⊢
      rw [← hhistory]
      exact hany
    unfold AfterClose
    rw [show s.endRun.2.fState = s.fState from hstate]
    cases hs : s.fState with
    | kReadingFirstRequest =>
      have hafter := good.after (hbefore (.inl hs))
      simp only [AfterClose, hs] at hafter
    | kHaveCompleteMessage =>
      have hafter := good.after (hbefore (.inr (.inr hs)))
      simp only [AfterClose, hs] at hafter
      obtain ⟨_, heq, -⟩ := hafter
      cases heq
    | kFilteringRequest | kPreprocessingRequest | kProcessingRequest => exact hrequest
    | kReadingRequest | kSendingResponse | kCleaningUp => trivial

/-- A step that leaves the current request alone, outside of the sections. -/
theorem Unchanged.closing (h : Unchanged c.2 d.2) (good : Closing c) (typed : Typed d.2)
    (hstate : d.2.fState = c.2.fState)
    (hpoint : d.1 = c.1 ∨ c.1 = .waiting ∨ ∃ err, c.1 = .loop err) : Closing d where
  typed := typed
  ordered := h.ordered good.ordered
  between := fun hbetween => h.fRequest.trans (good.between (hstate ▸ hbetween))
  after := by
    intro hany
    have hafter := good.after (h.anyClosed.mp hany)
    unfold AfterClose at hafter ⊢
    rw [hstate, h.fRequest]
    cases hs : c.2.fState with
    | kHaveCompleteMessage =>
      rw [hs] at hafter
      obtain ⟨err, hswitch, herr⟩ := hafter
      rcases hpoint with heq | heq | ⟨err', heq⟩
      · exact ⟨err, heq.trans hswitch, herr⟩
      · cases hswitch.symm.trans heq
      · cases hswitch.symm.trans heq
    | kReadingFirstRequest | kReadingRequest | kFilteringRequest | kPreprocessingRequest
    | kProcessingRequest | kSendingResponse | kCleaningUp =>
      rw [hs] at hafter
      exact hafter

theorem next_closing (good : Closing c) (hok : CloseOk c a) (h : next sDispatcher c a = some d) :
    Closing d := by
  have typed := next_typed good.typed h
  obtain ⟨p, s⟩ := c
  rcases next_cases h with ⟨env, err, rfl, hpoint, hsection⟩ | ⟨-, hunchanged, hstate, hpoint⟩ |
    ⟨-, ⟨err, hpoint⟩, rfl⟩
  · dsimp only at hpoint
    subst hpoint
    exact runSection_closing good hok hsection
  · exact hunchanged.closing good typed hstate hpoint
  · dsimp only at hpoint
    subst hpoint
    exact endRun_closing good

/-- No request is parsed or dispatched after a close, throughout a run in which none is
received completely by the time it would be read. -/
theorem noneAfterClose_of_ok (sDispatcher : HTTPDispatcher mapping) {c : Point × HTTPSession}
    (fresh : Fresh c) (as : List SessionAction) (ok : (system sDispatcher).Meets CloseOk c as) :
    (system sDispatcher).Keeps (fun _ _ d => NoneAfterClose d.2) c as := by
  refine System.Meets.keeps Closing ?_ fresh.closing ok
  intro c a d good hstep hok
  have good' := next_closing good hok hstep
  exact ⟨good'.ordered, good'⟩

/-- A request that has just been received is parsed when it is filtered. -/
theorem filteringRequest_parsed {fRequest : HTTPPacket} (hrequest : s.fRequest = some fRequest)
    (htype : fRequest.fHTTPType = .httpIllegalType) (h : s.filteringRequest err = some (p, t)) :
    ∃ result, t.history = s.history.modifyHead fun x => { x with parsed := some result } := by
  obtain ⟨⟨theErr, u⟩, hsetup, heq⟩ := Option.map_eq_some_iff.mp h
  have hu : t.history = u.history := by
    dsimp only at heq
    split_ifs at heq <;> cases heq <;> rfl
  rw [hu]
  unfold setupRequest at hsetup
  rw [hrequest, Option.bind_some, if_pos htype] at hsetup
  obtain ⟨⟨parseErr, parsed⟩, -, hbody⟩ := Option.bind_eq_some_iff.mp hsetup
  dsimp only at hbody
  split_ifs at hbody
  · cases hbody
    exact ⟨_, rfl⟩
  · exact ⟨_, (readBody_spec hbody).1⟩

/-- A complete request that is received after a close is parsed. -/
theorem not_noneAfterClose_of_arrived {q : Point} {u : HTTPSession} (hany : AnyClosed s)
    (harrived : s.haveCompleteMessage CF_RequestArrived = some (p, t))
    (hfilter : t.filteringRequest err = some (q, u)) : ¬ NoneAfterClose u := by
  obtain ⟨hhistory, -⟩ := haveCompleteMessage_spec harrived
  obtain ⟨fRequest, hrequest, htype⟩ : ∃ fRequest, t.fRequest = some fRequest ∧
      fRequest.fHTTPType = .httpIllegalType := by
    obtain ⟨⟨packet, beyond⟩, -, heq⟩ := Option.map_eq_some_iff.mp harrived
    dsimp only at heq
    rw [if_neg (by decide)] at heq
    cases heq
    exact ⟨_, rfl, rfl⟩
  obtain ⟨result, hparsed⟩ := filteringRequest_parsed hrequest htype hfilter
  obtain ⟨older, hmem, hclosed⟩ := hany
  intro ordered
  unfold NoneAfterClose at ordered
  rw [hparsed, hhistory, List.modifyHead_cons, List.pairwise_cons] at ordered
  cases (ordered.1 older hmem hclosed).1

/-! ### Examples -/

/-- The steps behind the first attempt to send that clean up and read again. -/
def readAgain : List SessionAction := [.switch plainEnv, .loop, .switch plainEnv]

/-- After one request without keep-alive, nothing more is received. -/
theorem noneAfterClose_of_ok_single :
    (system defaultDispatcher).Keeps (fun _ _ d => NoneAfterClose d.2)
      (newSession (ascii "GET / HTTP/1.0\r\n\r\n") [.sent 4095]) (firstResponse ++ readAgain) :=
  noneAfterClose_of_ok defaultDispatcher (newSession_fresh _ _) (firstResponse ++ readAgain)
    (by decide +kernel)

/-- Of two requests in one segment, the first closes the connection and the second one is
parsed and dispatched. -/
theorem pipelined_not_noneAfterClose :
    ¬ (system defaultDispatcher).Keeps (fun _ _ d => NoneAfterClose d.2)
      (newSession (ascii "GET / HTTP/1.0\r\n\r\nGET / HTTP/1.0\r\n\r\n") [.sent 4095])
      (firstResponse ++ readAgain ++ [.switch plainEnv, .switch plainEnv]) := by
  decide +kernel

end CxxFramework.Net.HTTPSession
