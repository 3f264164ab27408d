import CxxFramework.Http.SessionSteps

/-!
# Malformed requests

A mapped function is to be called only for a request that was parsed without error and
has a known version, and every other request is to get an error response. `Run` looks at
the result of `Parse` nowhere, and overwrites the state that the illegal version sets; so
this holds of a run exactly if no other request that comes to `kProcessingRequest` has a
path that the table maps.

## Main definitions

* `HTTPSession.Screened` — malformed requests are kept from the mapped functions.
* `HTTPSession.DispatchOk` — the condition on the requests that are dispatched.
-/

namespace CxxFramework.Net

open CxxFramework.Core HTTPProtocol Transition HTTPDispatcher

namespace Exchange

/-- The request was parsed without error, and has a known version. -/
def accepted (x : Exchange) : Bool :=
  x.parsed.any fun result => result.1 = CF_NoErr ∧ result.2 ≠ .httpIllegalVersion

/-- A request that is not accepted leads to an error response only. -/
def Screened (x : Exchange) : Prop :=
  x.accepted = false → x.called = [] ∧ ∀ r ∈ x.response, 400 ≤ getStatusCode r.status

instance (x : Exchange) : Decidable x.Screened := inferInstanceAs (Decidable (_ → _))

end Exchange

namespace HTTPSession

def Screened (s : HTTPSession) : Prop := ∀ x ∈ s.history, x.Screened

instance (s : HTTPSession) : Decidable s.Screened := inferInstanceAs (Decidable (∀ _ ∈ _, _))

variable {mapping : List HTTPMapping} {sDispatcher : HTTPDispatcher mapping}
  {s t : HTTPSession} {c d : Point × HTTPSession} {a : SessionAction} {p : Point}
  {err : CF_Error} {env : Env}

/-- A request that comes to `kProcessingRequest` is accepted, or no mapping is for its
path. -/
def DispatchOk (mapping : List HTTPMapping) (c : Point × HTTPSession) : SessionAction → Prop
  | .switch _ => c.2.fState = .kProcessingRequest →
      c.2.history.head?.any Exchange.accepted ∨ ∀ fRequest ∈ c.2.fRequest, ¬ Mapped mapping fRequest
  | _ => True

instance (c : Point × HTTPSession) : (a : SessionAction) → Decidable (DispatchOk mapping c a)
  | .switch _ => inferInstanceAs (Decidable (_ → _ ∨ ∀ _ ∈ _, _))
  | .signal _ | .incrementObjectHolderCount | .decrementObjectHolderCount | .run | .loop =>
    inferInstanceAs (Decidable True)

/-! ## The invariant -/

/-- What is known of the current request in the states between its parts. -/
def Stage (s : HTTPSession) : Prop :=
  match s.fState with
  | .kFilteringRequest | .kPreprocessingRequest | .kProcessingRequest =>
    ∃ x xs, s.history = x :: xs ∧ x.called = [] ∧ x.response = none
  | .kSendingResponse =>
    ∃ x xs, s.history = x :: xs ∧ (x.accepted = false →
      ∀ fResponse ∈ s.fResponse, 400 ≤ getStatusCode fResponse.fStatusCode)
  | _ => True

structure Screening (s : HTTPSession) : Prop where
  typed : Typed s
  screened : Screened s
  stage : Stage s

theorem Fresh.screening (fresh : Fresh c) : Screening c.2 where
  typed := fresh.typed
  screened := by
    intro x hx
    rw [fresh.noHistory] at hx
    cases hx
  stage := by
    unfold Stage
    rw [fresh.reading]
    trivial

theorem Unchanged.screened (h : Unchanged s t) (screened : Screened s) : Screened t := by
  unfold Screened
  rw [h.history]
  exact screened

theorem Unchanged.stage (h : Unchanged s t) (hstate : t.fState = s.fState) (stage : Stage s) :
    Stage t := by
  unfold Stage at *
  rw [hstate, h.history, h.fResponse]
  exact stage

/-- Recording that the connection is to be closed changes nothing here. -/
theorem cleanup_screened (screened : Screened s) : Screened s.cleanupRequestAndResponse := by
  obtain ⟨f, hhistory, hf⟩ := cleanup_history s
  unfold Screened at screened ⊢
  rw [hhistory]
  cases hs : s.history with
  | nil => simp
  | cons x xs =>
    obtain ⟨closed, hx⟩ := hf x
    rw [hs, List.forall_mem_cons] at screened
    rw [List.modifyHead_cons, hx, List.forall_mem_cons]
    exact screened

theorem cleanup_stage (stage : Stage s) : Stage s.cleanupRequestAndResponse := by
  obtain ⟨-, -, hstate, -, hresponse⟩ := cleanup_output s
  obtain ⟨f, hclose, hf⟩ := cleanup_history s
  have hhead : ∀ x xs, s.history = x :: xs → ∃ closed,
      s.cleanupRequestAndResponse.history = { x with closed } :: xs := by
    intro x xs hs
    obtain ⟨closed, hx⟩ := hf x
    exact ⟨closed, by rw [hclose, hs, List.modifyHead_cons, hx]⟩
  unfold Stage at *
  rw [hstate, hresponse]
  cases hs : s.fState with
  | kFilteringRequest | kPreprocessingRequest | kProcessingRequest =>
    rw [hs] at stage
    obtain ⟨x, xs, hx, hcalled, hnone⟩ := stage
    obtain ⟨closed, hhistory⟩ := hhead x xs hx
    exact ⟨_, xs, hhistory, hcalled, hnone⟩
  | kSendingResponse =>
    rw [hs] at stage
    obtain ⟨x, xs, hx, -⟩ := stage
    obtain ⟨closed, hhistory⟩ := hhead x xs hx
    exact ⟨_, xs, hhistory, fun _ fResponse hr => by cases hr⟩
  | kReadingRequest | kCleaningUp | kReadingFirstRequest | kHaveCompleteMessage => trivial

/-! ## The sections -/

theorem haveCompleteMessage_screening (good : Screening s)
    (h : s.haveCompleteMessage err = some (p, t)) : Screened t ∧ Stage t := by
  obtain ⟨hhistory, -, -, ⟨fResponse, hresponse, -, hstatus⟩, hstate⟩ := haveCompleteMessage_spec h
  constructor
  · unfold Screened
    rw [hhistory, List.forall_mem_cons]
    refine ⟨fun _ => ⟨rfl, ?_⟩, good.screened⟩
    rintro r ⟨⟩
  · unfold Stage
    rcases hstate with hsending | ⟨hfiltering, -⟩
    · rw [hsending]
      refine ⟨_, _, hhistory, ?_⟩
      intro _ fResponse' hr
      cases hresponse.symm.trans hr
      rw [hstatus hsending]
      decide
    · rw [hfiltering]
      exact ⟨_, _, hhistory, rfl, rfl⟩

theorem filteringRequest_screening (good : Screening s) (hstate : s.fState = .kFilteringRequest)
    (h : s.filteringRequest err = some (p, t)) : Screened t ∧ Stage t := by
  obtain ⟨hparses, hstate', -⟩ := filteringRequest_spec h
  obtain ⟨x, xs, hx, hcalled, hnone⟩ : ∃ x xs, s.history = x :: xs ∧ x.called = [] ∧
      x.response = none := by simpa only [Stage, hstate] using good.stage
  obtain ⟨f, hmodify, hf⟩ := hparses.modifies
  obtain ⟨parsed, hhistory⟩ : ∃ parsed, t.history = { x with parsed } :: xs := by
    obtain ⟨parsed, heq⟩ := hf x
    exact ⟨parsed, by rw [hmodify, hx, List.modifyHead_cons, heq]⟩
  have screened := good.screened
  unfold Screened at screened
  rw [hx, List.forall_mem_cons] at screened
  constructor
  · unfold Screened
    rw [hhistory, List.forall_mem_cons]
    refine ⟨fun _ => ⟨hcalled, ?_⟩, screened.2⟩
    intro r hr
    cases hnone.symm.trans hr
  · unfold Stage
    rcases hstate' with heq | heq
    · rw [heq, hstate]
      exact ⟨_, xs, hhistory, hcalled, hnone⟩
    · rw [heq]
      exact ⟨_, xs, hhistory, hcalled, hnone⟩

/-- Dispatching screens the request exactly if it is accepted or calls no function. -/
theorem processingRequest_screening (good : Screening s) (hstate : s.fState = .kProcessingRequest)
    (h : processingRequest sDispatcher env s err = some (p, t)) :
    (Screened t ↔ (s.history.head?.any Exchange.accepted ∨
      ∀ fRequest ∈ s.fRequest, ¬ Mapped mapping fRequest)) ∧ (Screened t → Stage t) := by
  obtain ⟨fRequest, fResponse, hrequest, hresponse, hsending, -, -, hset, hhistory⟩ :=
    processingRequest_spec h
  obtain ⟨x, xs, hx, hcalled, hnone⟩ : ∃ x xs, s.history = x :: xs ∧ x.called = [] ∧
      x.response = none := by simpa only [Stage, hstate] using good.stage
  have hmapped := sDispatcher.dispatch_isSome_iff env.cgi fRequest fResponse
  rw [hx, List.modifyHead_cons, hcalled, List.append_nil] at hhistory
  have screened := good.screened
  unfold Screened at screened
  rw [hx, List.forall_mem_cons] at screened
  have hhead : Screened t ↔ (x.accepted = false →
      (sDispatcher.dispatch env.cgi fRequest fResponse).1 = none) := by
    unfold Screened
    rw [hhistory, List.forall_mem_cons]
    constructor
    · rintro ⟨hx', -⟩ hrejected
      exact Option.toList_eq_nil_iff.mp (hx' hrejected).1
    · intro hrejected
      refine ⟨fun hx' => ⟨Option.toList_eq_nil_iff.mpr (hrejected hx'), ?_⟩, screened.2⟩
      intro r hr
      cases hnone.symm.trans hr
  constructor
  · rw [hhead, hx, hrequest]
    simp only [List.head?_cons, Option.any_some, Option.mem_some_iff, forall_eq',
      ← hmapped, Option.not_isSome_iff_eq_none]
    cases x.accepted <;> simp
  · intro hscreened
    unfold Stage
    rw [hsending]
    refine ⟨_, xs, hhistory, ?_⟩
    intro hrejected fResponse' hr
    have hdispatch := dispatch_eq_of_none (hhead.mp hscreened hrejected)
    rw [hdispatch] at hset
    cases hset.symm.trans hr
    exact (by decide : 400 ≤ getStatusCode .httpNotFound)

theorem sendingResponse_screening (good : Screening s) (hstate : s.fState = .kSendingResponse)
    (h : sendingResponse env s err = some (p, t)) : Screened t ∧ Stage t := by
  obtain ⟨u, r, taken, answered, setUp, hresponse, hstate', hhistory⟩ :=
    sendingResponse_spec good.typed h
  obtain ⟨x, xs, hx, hstatus⟩ : ∃ x xs, s.history = x :: xs ∧ (x.accepted = false →
      ∀ fResponse ∈ s.fResponse, 400 ≤ getStatusCode fResponse.fStatusCode) := by
    simpa only [Stage, hstate] using good.stage
  obtain ⟨fResponse, hfResponse, heq⟩ := setUp.status
  have hr : x.accepted = false → 400 ≤ getStatusCode r.status := by
    intro hrejected
    rw [← heq]
    exact hstatus hrejected fResponse hfResponse
  rw [setUp.history, hx, List.modifyHead_cons, List.modifyHead_cons] at hhistory
  have screened := good.screened
  unfold Screened at screened
  rw [hx, List.forall_mem_cons] at screened
  constructor
  · unfold Screened
    rw [hhistory, List.forall_mem_cons]
    refine ⟨fun hrejected => ⟨(screened.1 hrejected).1, ?_⟩, screened.2⟩
    intro r' hr'
    cases hfirst : x.response with
    | none =>
      rw [hfirst] at hr'
      cases hr'
      exact hr hrejected
    | some first =>
      rw [hfirst] at hr'
      cases hr'
      exact (screened.1 hrejected).2 _ hfirst
  · unfold Stage
    rcases hstate' with hsame | hcleaning
    · rw [hsame, hstate]
      refine ⟨_, xs, hhistory, ?_⟩
      intro hrejected fResponse' hr'
      rw [hresponse] at hr'
      rw [(setUp.typed fResponse' hr').2]
      exact hr hrejected
    · rw [hcleaning]
      trivial

/-! ## Runs -/

/-- One section screens the requests exactly if it meets the condition. -/
theorem runSection_screening (good : Screening s)
    (h : runSection sDispatcher env s err = some d) :
    (Screened d.2 ↔ DispatchOk mapping (p, s) (.switch env)) ∧ (Screened d.2 → Stage d.2) := by
  obtain ⟨q, t⟩ := d
  have hother : s.fState ≠ .kProcessingRequest → Screened t ∧ Stage t →
      (Screened t ↔ DispatchOk mapping (p, s) (.switch env)) ∧ (Screened t → Stage t) := by
    intro hne ⟨hscreened, hstage⟩
    exact ⟨⟨fun _ hstate => absurd hstate hne, fun _ => hscreened⟩, fun _ => hstage⟩
  have hreading : Unchanged s t → (t.fState = s.fState ∨ t.fState = .kHaveCompleteMessage) →
      Screened t ∧ Stage t := by
    rintro hunchanged (heq | heq)
    · exact ⟨hunchanged.screened good.screened, hunchanged.stage heq good.stage⟩
    · refine ⟨hunchanged.screened good.screened, ?_⟩
      unfold Stage
      rw [heq]
      trivial
  unfold runSection at h
  cases hstate : s.fState with
  | kReadingFirstRequest =>
    rw [hstate] at h
    obtain ⟨hunchanged, hstate'⟩ := readingFirstRequest_spec h
    exact hother (by simp [hstate]) (hreading hunchanged hstate')
  | kReadingRequest =>
    rw [hstate] at h
    obtain ⟨hunchanged, hstate'⟩ := readingRequest_spec h
    exact hother (by simp [hstate]) (hreading hunchanged (hstate'.imp_right And.left))
  | kHaveCompleteMessage =>
    rw [hstate] at h
    exact hother (by simp [hstate]) (haveCompleteMessage_screening good h)
  | kFilteringRequest =>
    rw [hstate] at h
    exact hother (by simp [hstate]) (filteringRequest_screening good hstate h)
  | kPreprocessingRequest =>
    rw [hstate] at h
    obtain ⟨hstate', hhistory, -⟩ := preprocessingRequest_spec h
    refine hother (by simp [hstate]) ⟨?_, ?_⟩
    · unfold Screened
      rw [hhistory]
      exact good.screened
    · have hstage := good.stage
      unfold Stage at hstage ⊢
      rw [hstate] at hstage
      rw [hstate', hhistory]
      exact hstage
  | kProcessingRequest =>
    rw [hstate] at h
    obtain ⟨hiff, hstage⟩ := processingRequest_screening good hstate h
    refine ⟨hiff.trans ?_, hstage⟩
    exact ⟨fun hok _ => hok, fun hok => hok hstate⟩
  | kSendingResponse =>
    rw [hstate] at h
    exact hother (by simp [hstate]) (sendingResponse_screening good hstate h)
  | kCleaningUp =>
    rw [hstate] at h
    cases h
    exact hother (by simp [hstate]) ⟨cleanup_screened good.screened, trivial⟩

theorem dispatchOk_of_ne (h : ∀ env, a ≠ .switch env) : DispatchOk mapping c a := by
  cases a with
  | switch env => exact absurd rfl (h env)
  | signal _ | incrementObjectHolderCount | decrementObjectHolderCount | run | loop => trivial

theorem next_screening (good : Screening c.2) (h : next sDispatcher c a = some d) :
    (Screened d.2 ↔ DispatchOk mapping c a) ∧ (Screened d.2 → Screening d.2) := by
  have htyped := next_typed good.typed h
  rcases next_cases h with ⟨env, err, rfl, -, hsection⟩ | ⟨hother, hunchanged, hstate, -⟩ |
    ⟨hother, -, rfl⟩
  · obtain ⟨hiff, hstage⟩ := runSection_screening (p := c.1) good hsection
    exact ⟨hiff, fun hscreened => ⟨htyped, hscreened, hstage hscreened⟩⟩
  · have hscreened := hunchanged.screened good.screened
    exact ⟨iff_of_true hscreened (dispatchOk_of_ne hother), fun _ =>
      ⟨htyped, hscreened, hunchanged.stage hstate good.stage⟩⟩
  · have hscreened := cleanup_screened good.screened
    exact ⟨iff_of_true hscreened (dispatchOk_of_ne hother), fun _ =>
      ⟨htyped, hscreened, cleanup_stage good.stage⟩⟩

/-- Malformed requests are kept from the mapped functions, throughout a run, exactly if
every request that comes to `kProcessingRequest` is accepted or has a path that no mapping
is for. -/
theorem screened_iff (sDispatcher : HTTPDispatcher mapping) {c : Point × HTTPSession}
    (fresh : Fresh c) (as : List SessionAction) :
    (system sDispatcher).Keeps (fun _ _ d => Screened d.2) c as ↔
      (system sDispatcher).Meets (DispatchOk mapping) c as := by
  refine System.keeps_iff_meets (fun c => Screening c.2) ?_ ?_ fresh.screening as
  · intro c a d good hstep hok
    obtain ⟨hiff, hgood⟩ := next_screening good hstep
    exact ⟨hiff.mpr hok, hgood (hiff.mpr hok)⟩
  · intro c a d good hstep hscreened
    exact (next_screening good hstep).1.mp hscreened

/-! ### Examples -/

/-- A well-formed request is screened. -/
theorem screened_iff_wellFormed :
    (system defaultDispatcher).Keeps (fun _ _ d => Screened d.2)
      (newSession (ascii "GET / HTTP/1.0\r\n\r\n") []) firstDispatch :=
  (screened_iff defaultDispatcher (newSession_fresh _ _) firstDispatch).mpr (by decide +kernel)

/-- The line `GARBAGE` is no request, and the default function is called for it. -/
theorem garbage_not_screened :
    ¬ (system defaultDispatcher).Keeps (fun _ _ d => Screened d.2)
      (newSession (ascii "GARBAGE\r\n\r\n") []) firstDispatch := by
  decide +kernel

end HTTPSession

end CxxFramework.Net
