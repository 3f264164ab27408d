import CxxFramework.Http.SessionResponse

/-!
# The order of the responses

What a session has put on the wire, over all its requests: the responses one behind the
other, in the order of the requests, each of them complete but the last. This is so exactly
if no attempt to send the rest of a response goes beyond its first copy.

## Main definitions

* `HTTPSession.Replies` — what is on the wire, by the requests recorded.
* `HTTPSession.Wired` — the bytes sent for each request, in order, and which are answered.
-/

namespace CxxFramework.Net

open CxxFramework.Core Transition HTTPResponseStream

/-- The response, if one is built. -/
def Exchange.reply (x : Exchange) : Bytes := (x.response.map Response.bytes).getD []

/-- The response is built and sent. -/
def Exchange.Done (x : Exchange) : Prop := x.answered = true ∧ x.response.isSome = true

theorem Exchange.Done.sent_eq {x : Exchange} (done : x.Done) (delivered : x.Delivered) :
    x.sent = x.reply := by
  obtain ⟨r, hr⟩ := Option.isSome_iff_exists.mp done.2
  rw [(delivered r hr).2 done.1, Exchange.reply, hr]
  rfl

namespace HTTPSession

variable {mapping : List HTTPMapping} {sDispatcher : HTTPDispatcher mapping}
  {s t : HTTPSession} {c d : Point × HTTPSession} {a : SessionAction} {p : Point}
  {err : CF_Error} {env : Env} {x : Exchange} {xs : List Exchange} {wire : Bytes}

/-- The responses to these requests, the first one first. -/
def replies (history : List Exchange) : Bytes := history.reverse.flatMap Exchange.reply

/-- Behind what was on the wire stand the responses to all requests but the last, and a start
of the response to that, or all of it if it counts as sent. -/
structure Replies (wire : Bytes) (s : HTTPSession) : Prop where
  answered : ∀ x ∈ s.history.tail, x.answered = true
  earlier : wire ++ replies s.history.tail <+: s.fSocket.wire
  start : s.fSocket.wire <+: wire ++ replies s.history
  complete : (∀ x ∈ s.history.head?, x.answered = true) →
    s.fSocket.wire = wire ++ replies s.history

/-! ## The invariant -/

/-- All requests are answered before the next one is recorded. -/
def Settled (state : SessionState) : Prop :=
  state = .kReadingFirstRequest ∨ state = .kReadingRequest ∨ state = .kHaveCompleteMessage ∨
    state = .kCleaningUp

structure Wired (wire : Bytes) (s : HTTPSession) : Prop where
  wire_eq : s.fSocket.wire = wire ++ s.history.reverse.flatMap Exchange.sent
  done : ∀ x ∈ s.history.tail, Exchange.Done x ∧ x.Delivered
  settled : Settled s.fState → ∀ x ∈ s.history.head?, Exchange.Done x
  unbuilt : ∀ x ∈ s.history.head?, x.response = none → x.sent = []

theorem flatMap_reverse_cons (f : Exchange → Bytes) (x : Exchange) (xs : List Exchange) :
    (x :: xs).reverse.flatMap f = xs.reverse.flatMap f ++ f x := by
  rw [List.reverse_cons, List.flatMap_append, List.flatMap_singleton]

/-- The wire, by the last request and those before it. -/
theorem Wired.wire_cons (wired : Wired wire s) (hs : s.history = x :: xs) :
    s.fSocket.wire = wire ++ replies xs ++ x.sent := by
  have hdone := wired.done
  rw [hs, List.tail_cons] at hdone
  have hearlier : xs.reverse.flatMap Exchange.sent = replies xs :=
    List.flatMap_congr fun y hy =>
      have hy := hdone y (List.mem_reverse.mp hy)
      hy.1.sent_eq hy.2
  rw [wired.wire_eq, hs, flatMap_reverse_cons, hearlier, List.append_assoc]

/-- The wire is in order exactly if what is sent is a start of its response. -/
theorem Wired.replies_iff_delivered (wired : Wired wire s) : Replies wire s ↔ Delivered s := by
  cases hs : s.history with
  | nil =>
    have hwire := wired.wire_eq
    rw [hs, List.reverse_nil, List.flatMap_nil, List.append_nil] at hwire
    have hnil : replies s.history = [] := by
      rw [hs]
      rfl
    refine iff_of_true ⟨?_, ?_, ?_, fun _ => ?_⟩ ?_
    · simp [hs]
    · simp [hs, hwire, replies]
    · simp [hnil, hwire]
    · rw [hnil, hwire, List.append_nil]
    · simp [Delivered, hs]
  | cons x xs =>
    have hwire := wired.wire_cons hs
    have hdone := wired.done
    have hunbuilt := wired.unbuilt
    rw [hs, List.tail_cons] at hdone
    simp only [hs, List.head?_cons, Option.mem_some_iff, forall_eq'] at hunbuilt
    have hall : wire ++ replies s.history = wire ++ replies xs ++ x.reply := by
      rw [hs, replies, flatMap_reverse_cons, replies, List.append_assoc]
    constructor
    · intro h
      unfold Delivered
      rw [hs, List.forall_mem_cons]
      refine ⟨fun r hr => ?_, fun y hy => (hdone y hy).2⟩
      have hreply : x.reply = r.bytes := by
        rw [Exchange.reply, hr]
        rfl
      have hstart := h.start
      have hcomplete := h.complete
      simp only [hs, List.head?_cons, Option.mem_some_iff, forall_eq'] at hcomplete
      rw [hwire, hall, hreply, List.prefix_append_right_inj] at hstart
      refine ⟨hstart, fun hanswered => ?_⟩
      have hcomplete := hcomplete hanswered
      rw [← hs, hwire, hall, hreply] at hcomplete
      exact List.append_cancel_left hcomplete
    · intro h
      have hhead : x.sent <+: x.reply ∧ (x.answered = true → x.sent = x.reply) := by
        cases hresponse : x.response with
        | none =>
          have hnil := hunbuilt hresponse
          have hreply : x.reply = [] := by
            rw [Exchange.reply, hresponse]
            rfl
          rw [hnil, hreply]
          exact ⟨List.prefix_rfl, fun _ => rfl⟩
        | some r =>
          have hreply : x.reply = r.bytes := by
            rw [Exchange.reply, hresponse]
            rfl
          rw [hreply]
          exact h x (hs ▸ List.mem_cons_self) r hresponse
      refine ⟨?_, ?_, ?_, ?_⟩
      · rw [hs, List.tail_cons]
        exact fun y hy => (hdone y hy).1.1
      · rw [hs, List.tail_cons, hwire]
        exact List.prefix_append _ _
      · rw [hwire, hall]
        exact (List.prefix_append_right_inj _).mpr hhead.1
      · intro hanswered
        simp only [hs, List.head?_cons, Option.mem_some_iff, forall_eq'] at hanswered
        rw [hwire, hall, hhead.2 hanswered]

theorem Fresh.wired (fresh : Fresh c) : Wired c.2.fSocket.wire c.2 := by
  obtain ⟨-, -, -, -, -, hhistory⟩ := fresh
  constructor <;> simp [hhistory]

/-! ## Steps -/

/-- A step that sends nothing, and records of the last request only what is not sent. -/
theorem Wired.modify {f : Exchange → Exchange} (wired : Wired wire s)
    (hhistory : t.history = s.history.modifyHead f)
    (hf : ∀ x, (f x).response = x.response ∧ (f x).sent = x.sent ∧ (f x).answered = x.answered)
    (hwire : t.fSocket.wire = s.fSocket.wire) (hstate : Settled t.fState → Settled s.fState) :
    Wired wire t := by
  cases hs : s.history with
  | nil =>
    rw [hs, List.modifyHead_nil] at hhistory
    have hwired := wired.wire_eq
    rw [hs] at hwired
    constructor <;> simp [hhistory, hwire, hwired]
  | cons x xs =>
    rw [hs, List.modifyHead_cons] at hhistory
    obtain ⟨hresponse, hsent, hanswered⟩ := hf x
    have hdone := wired.done
    have hsettled := wired.settled
    have hunbuilt := wired.unbuilt
    simp only [hs, List.head?_cons, Option.mem_some_iff, forall_eq'] at hsettled hunbuilt
    rw [hs, List.tail_cons] at hdone
    refine ⟨?_, ?_, ?_, ?_⟩
    · rw [hwire, wired.wire_eq, hs, hhistory, flatMap_reverse_cons, flatMap_reverse_cons, hsent]
    · rwa [hhistory, List.tail_cons]
    · intro hsettle
      simp only [hhistory, List.head?_cons, Option.mem_some_iff, forall_eq', Exchange.Done,
        hresponse, hanswered]
      exact hsettled (hstate hsettle)
    · simp only [hhistory, List.head?_cons, Option.mem_some_iff, forall_eq', hresponse, hsent]
      exact hunbuilt

theorem Wired.unchanged (wired : Wired wire s) (h : Unchanged s t)
    (hstate : Settled t.fState → Settled s.fState) : Wired wire t := by
  refine wired.modify (f := id) ?_ (fun _ => ⟨rfl, rfl, rfl⟩) h.wire hstate
  rw [h.history, List.modifyHead_id, id]

theorem cleanup_wired (wired : Wired wire s) : Wired wire s.cleanupRequestAndResponse := by
  obtain ⟨-, hsocket, hstate, -⟩ := cleanup_output s
  obtain ⟨f, hhistory, hclosed⟩ := cleanup_history s
  refine wired.modify hhistory (fun x => ?_) (congrArg _ hsocket) (hstate ▸ id)
  obtain ⟨closed, heq⟩ := hclosed x
  rw [heq]
  exact ⟨rfl, rfl, rfl⟩

/-- A request is recorded behind those that are answered. -/
theorem haveCompleteMessage_wired (wired : Wired wire s) (delivered : Delivered s)
    (hstate : s.fState = .kHaveCompleteMessage) (h : s.haveCompleteMessage err = some (p, t)) :
    Wired wire t := by
  obtain ⟨hhistory, hsocket, -, -, hnext⟩ := haveCompleteMessage_spec h
  have hsettled := wired.settled (.inr (.inr (.inl hstate)))
  refine ⟨?_, ?_, ?_, ?_⟩
  · rw [hsocket, wired.wire_eq, hhistory, flatMap_reverse_cons, List.append_nil]
  · rw [hhistory, List.tail_cons]
    intro y hy
    refine ⟨?_, delivered y hy⟩
    cases hs : s.history with
    | nil =>
      rw [hs] at hy
      cases hy
    | cons x xs =>
      rw [hs] at hy
      rcases List.mem_cons.mp hy with rfl | hmem
      · exact hsettled y (by rw [hs]; rfl)
      · exact (wired.done y (by rw [hs]; exact hmem)).1
  · rintro (heq | heq | heq | heq) <;> rcases hnext with hnext | ⟨hnext, -⟩ <;>
      cases heq.symm.trans hnext
  · rw [hhistory]
    intro x hx
    obtain rfl : ({} : Exchange) = x := Option.some.inj hx
    exact fun _ => rfl

theorem flush_wire (o : HTTPResponseStream) (fSocket : Socket) :
    ∃ taken, (o.flush fSocket).2.2.wire = fSocket.wire ++ taken := by
  unfold HTTPResponseStream.flush
  dsimp only
  split_ifs
  · exact ⟨_, (fSocket.send_wire _).1⟩
  · exact ⟨_, (fSocket.send_wire _).1⟩
  · exact ⟨[], (List.append_nil _).symm⟩

/-- One attempt adds what it sends to the wire and to the last request. -/
theorem sendingResponse_wire (h : sendingResponse env s err = some (p, t))
    (hs : s.history = x :: xs) :
    ∃ taken y, t.fSocket.wire = s.fSocket.wire ++ taken ∧ t.history = y :: xs ∧
      y.sent = x.sent ++ taken := by
  obtain ⟨u, hsetup, heq⟩ := Option.map_eq_some_iff.mp h
  obtain ⟨hsocket, y, hu, hy⟩ : u.fSocket = s.fSocket ∧ ∃ y, u.history = y :: xs ∧
      y.sent = x.sent := by
    simp only [setupResponse, Option.bind_eq_bind, Option.bind_eq_some_iff] at hsetup
    obtain ⟨fRequest, -, fResponse, -, built, -, f, -, g, -, heq⟩ := hsetup
    cases heq
    exact ⟨rfl, _, congrArg (List.modifyHead _) hs, rfl⟩
  obtain ⟨taken, hwire⟩ := flush_wire u.fOutputStream u.fSocket
  dsimp only at heq
  rw [hwire, List.drop_left] at heq
  generalize u.fOutputStream.flush u.fSocket = flushed at heq hwire
  rw [hsocket] at hwire
  split_ifs at heq <;> cases heq
  · exact ⟨[], y, by rw [hsocket, List.append_nil], hu, by rw [hy, List.append_nil]⟩
  · exact ⟨taken, _, hwire, congrArg (List.modifyHead _) hu, congrArg (· ++ taken) hy⟩
  · exact ⟨taken, _, hwire, congrArg (List.modifyHead _) hu, congrArg (· ++ taken) hy⟩
  · exact ⟨taken, { y with sent := y.sent ++ taken, answered := true }, hwire,
      by simp only [note_history, hu, List.modifyHead_cons], congrArg (· ++ taken) hy⟩

/-- What an attempt finds in the response stream. -/
theorem Delivering.counted (good : Delivering s) (hstate : s.fState = .kSendingResponse) :
    Counted s.fOutputStream.formatter ∧
      s.fOutputStream.fBytesSentInBuffer ≤ s.fOutputStream.formatter.content.length := by
  obtain ⟨x, xs, hs, hprogress⟩ : ∃ x xs, s.history = x :: xs ∧
      (Unsent s.fOutputStream x ∨ ∃ r, Partial s.fOutputStream x r) := by
    simpa only [Progress, hstate] using good.progress
  rcases hprogress with unsent | ⟨r, rest⟩
  · refine ⟨⟨good.valid, ?_⟩, ?_⟩
    · rw [unsent.counted, unsent.flat.content, List.length_nil]
    · rw [unsent.flat.fBytesSentInBuffer]
      exact Nat.zero_le _
  · have hhead := good.delivered x (hs ▸ List.mem_cons_self) r rest.response
    refine ⟨⟨good.valid, rest.counted⟩, ?_⟩
    rw [← rest.sent]
    exact hhead.1.length_le.trans rest.content.length_le

theorem sendingResponse_wired (wired : Wired wire s) (good : Delivering s)
    (hstate : s.fState = .kSendingResponse) (h : sendingResponse env s err = some (p, t)) :
    Wired wire t := by
  obtain ⟨x, xs, hs, -⟩ : ∃ x xs, s.history = x :: xs ∧
      (Unsent s.fOutputStream x ∨ ∃ r, Partial s.fOutputStream x r) := by
    simpa only [Progress, hstate] using good.progress
  obtain ⟨hcounted, hsent⟩ := good.counted hstate
  obtain ⟨u, r, setUp, attempt⟩ := sendingResponse_attempt good.typed hcounted hsent h
  obtain ⟨taken, y, hwire, ht, hy⟩ := sendingResponse_wire h hs
  have hdone := wired.done
  have hwired := wired.wire_eq
  have hu := setUp.history
  rw [hs, List.tail_cons] at hdone
  rw [hs, flatMap_reverse_cons] at hwired
  rw [hs, List.modifyHead_cons] at hu
  have hbuilt : y.response.isSome = true ∧ (Settled t.fState → y.answered = true) := by
    cases attempt with
    | all _ _ _ hhistory =>
      rw [hu, List.modifyHead_cons, ht, List.cons.injEq] at hhistory
      obtain ⟨rfl, -⟩ := hhistory
      exact ⟨by simp, fun _ => rfl⟩
    | part n _ _ hsame _ hhistory =>
      rw [hu, List.modifyHead_cons, ht, List.cons.injEq] at hhistory
      obtain ⟨rfl, -⟩ := hhistory
      refine ⟨by simp, ?_⟩
      rw [hsame, setUp.fState, hstate]
      rintro (heq | heq | heq | heq) <;> cases heq
  refine ⟨?_, ?_, ?_, ?_⟩
  · rw [hwire, ht, flatMap_reverse_cons, hy, hwired]
    simp only [List.append_assoc]
  · rwa [ht, List.tail_cons]
  · intro hsettle
    rw [ht]
    rintro _ ⟨⟩
    exact ⟨hbuilt.2 hsettle, hbuilt.1⟩
  · rw [ht]
    rintro _ ⟨⟩ hnone
    rw [hnone] at hbuilt
    cases hbuilt.1

theorem runSection_wired (wired : Wired wire s) (good : Delivering s)
    (h : runSection sDispatcher env s err = some d) : Wired wire d.2 := by
  obtain ⟨q, t⟩ := d
  have hopen {state : SessionState} (hstate : t.fState = state)
      (hnot : state = .kFilteringRequest ∨ state = .kPreprocessingRequest ∨
        state = .kProcessingRequest ∨ state = .kSendingResponse) :
      Settled t.fState → Settled s.fState := by
    rw [hstate]
    rintro (rfl | rfl | rfl | rfl) <;> rcases hnot with heq | heq | heq | heq <;> cases heq
  unfold runSection at h
  cases hstate : s.fState with
  | kReadingFirstRequest =>
    rw [hstate] at h
    obtain ⟨hunchanged, -⟩ := readingFirstRequest_spec h
    exact wired.unchanged hunchanged fun _ => .inl hstate
  | kReadingRequest =>
    rw [hstate] at h
    obtain ⟨hunchanged, -⟩ := readingRequest_spec h
    exact wired.unchanged hunchanged fun _ => .inr (.inl hstate)
  | kHaveCompleteMessage =>
    rw [hstate] at h
    exact haveCompleteMessage_wired wired good.delivered hstate h
  | kFilteringRequest =>
    rw [hstate] at h
    obtain ⟨hparses, hnext, -, -, hwire⟩ := filteringRequest_spec h
    obtain ⟨f, hhistory, hparsed⟩ := hparses.modifies
    refine wired.modify hhistory (fun x => ?_) hwire ?_
    · obtain ⟨parsed, heq⟩ := hparsed x
      rw [heq]
      exact ⟨rfl, rfl, rfl⟩
    · rcases hnext with hnext | hnext
      · exact hnext ▸ id
      · exact hopen hnext (by simp)
  | kPreprocessingRequest =>
    rw [hstate] at h
    obtain ⟨hnext, hhistory, -, hsocket, -⟩ := preprocessingRequest_spec h
    refine wired.modify (f := id) ?_ (fun x => ⟨rfl, rfl, rfl⟩) (congrArg _ hsocket)
      (hopen hnext (by simp))
    rw [hhistory, List.modifyHead_id, id]
  | kProcessingRequest =>
    rw [hstate] at h
    obtain ⟨fRequest, fResponse, -, -, hnext, -, hsocket, -, hhistory⟩ := processingRequest_spec h
    exact wired.modify hhistory (fun x => ⟨rfl, rfl, rfl⟩) (congrArg _ hsocket)
      (hopen hnext (by simp))
  | kSendingResponse =>
    rw [hstate] at h
    exact sendingResponse_wired wired good hstate h
  | kCleaningUp =>
    rw [hstate] at h
    cases h
    have hcleaned := cleanup_wired wired
    refine ⟨hcleaned.wire_eq, hcleaned.done, fun _ => hcleaned.settled ?_, hcleaned.unbuilt⟩
    rw [(cleanup_output s).2.2.1]
    exact .inr (.inr (.inr hstate))

theorem next_wired (wired : Wired wire c.2) (good : Delivering c.2)
    (h : next sDispatcher c a = some d) : Wired wire d.2 := by
  rcases next_cases h with ⟨env, err, -, -, hsection⟩ | ⟨-, hunchanged, hstate, -⟩ | ⟨-, -, rfl⟩
  · exact runSection_wired wired good hsection
  · exact wired.unchanged hunchanged (hstate ▸ id)
  · exact cleanup_wired wired

/-- The responses are on the wire one behind the other, in the order of the requests, exactly if
no attempt to send the rest of a response finds the socket ready for more than that. -/
theorem replies_iff (sDispatcher : HTTPDispatcher mapping) (fresh : Fresh c)
    (as : List SessionAction) :
    (system sDispatcher).Keeps (fun _ _ d => Replies c.2.fSocket.wire d.2) c as ↔
      (system sDispatcher).Meets SendOk c as := by
  refine System.keeps_iff_meets (fun d => Delivering d.2 ∧ Wired c.2.fSocket.wire d.2) ?_ ?_
    ⟨fresh.delivering, fresh.wired⟩ as
  · rintro b a d ⟨good, wired⟩ hstep hok
    obtain ⟨hiff, hgood⟩ := next_delivering good hstep
    have delivered := hiff.mpr hok
    have wired' := next_wired wired good hstep
    exact ⟨wired'.replies_iff_delivered.mpr delivered, hgood delivered, wired'⟩
  · rintro b a d ⟨good, wired⟩ hstep hreplies
    have wired' := next_wired wired good hstep
    exact (next_delivering good hstep).1.mp (wired'.replies_iff_delivered.mp hreplies)

/-- The response to the first of two requests is sent at once, and that to the second one in two
parts. -/
theorem replies_iff_two :
    (system defaultDispatcher).Keeps (fun _ _ d => Replies [] d.2)
      (newSession
        (ascii "GET / HTTP/1.1\r\nConnection: keep-alive\r\n\r\nGET / HTTP/1.0\r\n\r\n")
        [.sent 4095, .sent 9, .sent 19])
      (secondDispatch ++ [.switch plainEnv, .run, .loop, .switch plainEnv]) :=
  (replies_iff defaultDispatcher (newSession_fresh _ _) _).mpr (by decide +kernel)

end HTTPSession

end CxxFramework.Net
