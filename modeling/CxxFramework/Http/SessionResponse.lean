import CxxFramework.Http.SessionSteps

/-!
# The delivery of responses

The bytes that the socket takes for a response are to be its header and its body, each
byte once and in order. But `kSendingResponse` builds the response anew each time it is
entered, also to send the rest of one, and appends it to what the response stream holds.
So a run delivers its responses exactly if no later attempt to send a response goes beyond
the first copy of it.

## Main definitions

* `HTTPSession.Delivered` — what is sent for each request is a start of its response, and
  all of it once the response counts as sent.
* `HTTPSession.SendOk` — the condition on the later attempts.
-/

namespace CxxFramework.Net

open CxxFramework.Core Transition HTTPResponseStream
open ResponseBuffer (pending)

namespace Exchange

/-- What is sent is a start of the response, and all of it once that is answered. -/
def Delivered (x : Exchange) : Prop :=
  ∀ r ∈ x.response, x.sent <+: r.bytes ∧ (x.answered = true → x.sent = r.bytes)

instance (x : Exchange) : Decidable x.Delivered := inferInstanceAs (Decidable (∀ _ ∈ _, _))

end Exchange

/-- The number of bytes that the socket is ready to take. -/
def Socket.takes (s : Socket) : Nat :=
  match s.connected, s.outgoing with
  | true, .sent k :: _ => k + 1
  | _, _ => 0

/-- A send takes as many bytes as the socket is ready to take, or all. -/
theorem Socket.sent_eq_takes (s : Socket) (inData : Bytes) :
    (s.send inData).sent = min s.takes inData.length := by
  unfold Socket.send Socket.takes
  cases s.connected with
  | false => simp [SendResult.sent]
  | true =>
    cases inData with
    | nil => simp [SendResult.sent]
    | cons b bs =>
      rcases s.outgoing with _ | ⟨k | errno, outgoing⟩ <;> simp [SendResult.sent]

namespace HTTPSession

def Delivered (s : HTTPSession) : Prop := ∀ x ∈ s.history, x.Delivered

instance (s : HTTPSession) : Decidable s.Delivered := inferInstanceAs (Decidable (∀ _ ∈ _, _))

variable {mapping : List HTTPMapping} {sDispatcher : HTTPDispatcher mapping}
  {s t u : HTTPSession} {c d : Point × HTTPSession} {a : SessionAction} {p : Point}
  {err : CF_Error} {env : Env} {x : Exchange} {xs : List Exchange}

/-- An attempt to send, after the first one for its response, finds the socket ready for no
more than the rest of the response. -/
def SendOk (c : Point × HTTPSession) : SessionAction → Prop
  | .switch _ => c.2.fState = .kSendingResponse → ∀ x ∈ c.2.history.head?, ∀ r ∈ x.response,
      x.sent.length + c.2.fSocket.takes ≤ r.bytes.length
  | _ => True

instance (c : Point × HTTPSession) : (a : SessionAction) → Decidable (SendOk c a)
  | .switch _ => inferInstanceAs (Decidable (_ → ∀ _ ∈ _, ∀ _ ∈ _, _))
  | .signal _ | .incrementObjectHolderCount | .decrementObjectHolderCount | .run | .loop =>
    inferInstanceAs (Decidable True)

/-! ## The invariant -/

/-- The response stream holds nothing. -/
structure Flat (o : HTTPResponseStream) : Prop where
  content : o.formatter.content = []
  fBytesSentInBuffer : o.fBytesSentInBuffer = 0

/-- Nothing is built or sent yet for the request. -/
structure Unsent (o : HTTPResponseStream) (x : Exchange) : Prop where
  flat : Flat o
  counted : o.formatter.fBytesWritten = 0
  response : x.response = none
  sent : x.sent = []
  answered : x.answered = false

/-- The stream holds the response, and copies of it, and a start of it is sent. -/
structure Partial (o : HTTPResponseStream) (x : Exchange) (r : Response) : Prop where
  content : r.bytes <+: o.formatter.content
  counted : o.formatter.fBytesWritten = o.formatter.content.length
  response : x.response = some r
  sent : x.sent.length = o.fBytesSentInBuffer
  answered : x.answered = false

/-- How far the response to the current request is, by the state. -/
def Progress (s : HTTPSession) : Prop :=
  match s.fState with
  | .kFilteringRequest | .kPreprocessingRequest | .kProcessingRequest =>
    ∃ x xs, s.history = x :: xs ∧ Unsent s.fOutputStream x
  | .kSendingResponse =>
    ∃ x xs, s.history = x :: xs ∧
      (Unsent s.fOutputStream x ∨ ∃ r, Partial s.fOutputStream x r)
  | _ => Flat s.fOutputStream

structure Delivering (s : HTTPSession) : Prop where
  typed : Typed s
  valid : ResizeableStringFormatter.Valid s.fOutputStream.formatter
  delivered : Delivered s
  progress : Progress s

theorem Fresh.delivering (fresh : Fresh c) : Delivering c.2 where
  typed := fresh.typed
  valid := by
    rw [fresh.noOutput]
    exact ⟨Nat.zero_le _, by decide, by decide⟩
  delivered := by
    intro x hx
    rw [fresh.noHistory] at hx
    cases hx
  progress := by
    unfold Progress
    rw [fresh.reading, fresh.noOutput]
    exact ⟨rfl, rfl⟩

/-! ## One attempt to send -/

/-- What `Flush` leaves of a session. -/
inductive Attempt (s t : HTTPSession) : Prop
  | all : (s.fSocket.send s.fOutputStream.pending).sent = s.fOutputStream.pending.length →
      t.fState = .kCleaningUp →
      t.fOutputStream = { formatter := s.fOutputStream.formatter.reset } →
      t.history = s.history.modifyHead (fun x =>
        { x with sent := x.sent ++ s.fOutputStream.pending, answered := true }) →
      Attempt s t
  | part (n : Nat) : n < s.fOutputStream.pending.length →
      n = (s.fSocket.send s.fOutputStream.pending).sent →
      t.fState = s.fState →
      t.fOutputStream =
        { s.fOutputStream with fBytesSentInBuffer := s.fOutputStream.fBytesSentInBuffer + n } →
      t.history = s.history.modifyHead (fun x =>
        { x with sent := x.sent ++ s.fOutputStream.pending.take n }) →
      Attempt s t

/-- `kSendingResponse` appends the response to what is counted, and makes one attempt. -/
theorem sendingResponse_attempt (typed : Typed s) (counted : Counted s.fOutputStream.formatter)
    (hsent : s.fOutputStream.fBytesSentInBuffer ≤ s.fOutputStream.formatter.content.length)
    (h : sendingResponse env s err = some (p, t)) : ∃ u r, SetUp s u r ∧ Attempt u t := by
  obtain ⟨u, hsetup, heq⟩ := Option.map_eq_some_iff.mp h
  obtain ⟨r, setUp⟩ := setupResponse_setUp typed hsetup
  obtain ⟨hcontent, hcounted⟩ := setUp.content counted
  have hheader := List.length_pos_of_ne_nil setUp.nonempty
  have hlength : u.fOutputStream.formatter.content.length =
      s.fOutputStream.formatter.content.length + (r.header.length + r.body.length) := by
    rw [hcontent, List.length_append, Response.bytes, List.length_append]
  have hpending : u.fOutputStream.pending ≠ [] := by
    refine List.ne_nil_of_length_pos ?_
    rw [pending, List.length_drop, setUp.fBytesSentInBuffer]
    omega
  have hwritten : u.fOutputStream.formatter.fBytesWritten ≠ 0 := by
    rw [hcounted.count]
    omega
  refine ⟨u, r, setUp, ?_⟩
  have hflush := flush_flushed u.fSocket hpending
  dsimp only at heq
  rw [if_neg hwritten] at heq
  generalize u.fOutputStream.flush u.fSocket = flushed at heq hflush
  cases hflush with
  | all htakes hwire =>
    simp only [hwire, List.drop_left] at heq
    rw [if_neg (by decide), if_neg (by decide)] at heq
    cases heq
    exact .all htakes rfl rfl (by simp [Function.comp_def])
  | part hlt htakes hwire =>
    simp only [hwire, List.drop_left, if_true] at heq
    cases heq
    exact .part _ hlt htakes rfl rfl rfl

/-- Of two starts of one text, the shorter is a start of the longer. -/
theorem start_iff_length {a b content : Bytes} (ha : a <+: content) (hb : b <+: content) :
    a <+: b ↔ a.length ≤ b.length :=
  ⟨List.IsPrefix.length_le, List.prefix_of_prefix_length_le ha hb⟩

/-- The first attempt delivers a start of the response, whatever the socket takes. -/
theorem attempt_first {r : Response} (hs : s.history = x :: xs) (unsent : Unsent s.fOutputStream x)
    (delivered : Delivered s) (setUp : SetUp s u r)
    (hcontent : u.fOutputStream.formatter.content = r.bytes)
    (counted : Counted u.fOutputStream.formatter) (hstate : u.fState = .kSendingResponse)
    (attempt : Attempt u t) : Delivered t ∧ Progress t := by
  have hu : u.history = { x with response := some r } :: xs := by
    rw [setUp.history, hs, List.modifyHead_cons, unsent.response]
    rfl
  have hpending : u.fOutputStream.pending = r.bytes := by
    rw [pending, hcontent, setUp.fBytesSentInBuffer, unsent.flat.fBytesSentInBuffer, List.drop_zero]
  unfold Delivered at delivered
  rw [hs, List.forall_mem_cons] at delivered
  cases attempt with
  | all _ hcleaning houtput hhistory =>
    rw [hu, List.modifyHead_cons, unsent.sent, hpending] at hhistory
    constructor
    · unfold Delivered
      rw [hhistory, List.forall_mem_cons]
      refine ⟨?_, delivered.2⟩
      rintro _ ⟨⟩
      exact ⟨List.prefix_rfl, fun _ => rfl⟩
    · unfold Progress
      rw [hcleaning, houtput]
      exact ⟨rfl, rfl⟩
  | part n hlt _ hsending houtput hhistory =>
    rw [hpending] at hlt
    rw [hu, List.modifyHead_cons, unsent.sent, hpending, List.nil_append] at hhistory
    constructor
    · unfold Delivered
      rw [hhistory, List.forall_mem_cons]
      refine ⟨?_, delivered.2⟩
      rintro _ ⟨⟩
      refine ⟨List.take_prefix n r.bytes, ?_⟩
      intro hanswered
      cases unsent.answered.symm.trans hanswered
    · unfold Progress
      rw [hsending, hstate, houtput]
      refine ⟨_, xs, hhistory, .inr ⟨r, ?_, counted.count, rfl, ?_, unsent.answered⟩⟩
      · exact hcontent ▸ List.prefix_rfl
      · have hzero := setUp.fBytesSentInBuffer.trans unsent.flat.fBytesSentInBuffer
        simp only [List.length_take, hzero]
        omega

/-- The session before a later attempt for the response `r`, of which a start is sent. The
stream holds more than the rest of it. -/
structure Resumed (u : HTTPSession) (x : Exchange) (xs : List Exchange) (r : Response) : Prop where
  history : u.history = x :: xs
  started : Partial u.fOutputStream x r
  sent : x.sent = u.fOutputStream.formatter.content.take x.sent.length
  more : r.bytes.length < x.sent.length + u.fOutputStream.pending.length
  others : ∀ x ∈ xs, x.Delivered

/-- Setting up another response leaves a response that is being sent as it is. -/
theorem resumed {r r' : Response} (hs : s.history = x :: xs)
    (rest : Partial s.fOutputStream x r) (delivered : Delivered s) (setUp : SetUp s u r')
    (hcontent : u.fOutputStream.formatter.content = s.fOutputStream.formatter.content ++ r'.bytes)
    (counted : Counted u.fOutputStream.formatter) : Resumed u x xs r := by
  unfold Delivered at delivered
  rw [hs, List.forall_mem_cons] at delivered
  have hsent : x.sent.length = u.fOutputStream.fBytesSentInBuffer :=
    rest.sent.trans setUp.fBytesSentInBuffer.symm
  have hr : r.bytes <+: u.fOutputStream.formatter.content :=
    rest.content.trans (hcontent ▸ List.prefix_append _ _)
  refine ⟨?_, ⟨hr, counted.count, rest.response, hsent, rest.answered⟩, ?_, ?_, delivered.2⟩
  · rw [setUp.history, hs, List.modifyHead_cons, rest.response]
    congr 1
    cases x
    cases rest.response
    rfl
  · exact List.prefix_iff_eq_take.mp ((delivered.1 r rest.response).1.trans hr)
  · have hheader := List.length_pos_of_ne_nil setUp.nonempty
    have hle := rest.content.length_le
    have hlength : u.fOutputStream.formatter.content.length =
        s.fOutputStream.formatter.content.length + (r'.header.length + r'.body.length) := by
      rw [hcontent, List.length_append, Response.bytes, List.length_append]
    rw [pending, List.length_drop, ← hsent]
    omega

theorem Resumed.length_pending {r : Response} (h : Resumed u x xs r) :
    u.fOutputStream.formatter.content.length = x.sent.length + u.fOutputStream.pending.length := by
  have hle := congrArg List.length h.sent
  rw [List.length_take] at hle
  rw [pending, List.length_drop, ← h.started.sent]
  omega

/-- What is sent in front of and in the attempt is a start of the stream. -/
theorem Resumed.join {r : Response} (h : Resumed u x xs r) (n : Nat) :
    x.sent ++ u.fOutputStream.pending.take n =
      u.fOutputStream.formatter.content.take (x.sent.length + n) := by
  conv => lhs; rw [h.sent, pending, ← h.started.sent]
  rw [List.take_add]

/-- Sending all of the stream sends more than the response. -/
theorem Resumed.not_delivered {r : Response} (h : Resumed u x xs r)
    (hhistory : t.history = u.history.modifyHead fun x =>
      { x with sent := x.sent ++ u.fOutputStream.pending, answered := true }) :
    ¬ Delivered t := by
  unfold Delivered
  rw [hhistory, h.history, List.modifyHead_cons, List.forall_mem_cons]
  rintro ⟨hdelivered, -⟩
  have hle := (hdelivered r h.started.response).1.length_le
  have hmore := h.more
  simp only [List.length_append] at hle
  omega

/-- Sending a part of the stream sends a start of the response exactly if it is no more than
the rest of it. -/
theorem Resumed.part_iff {r : Response} (h : Resumed u x xs r) {n : Nat}
    (hn : n ≤ u.fOutputStream.pending.length)
    (hhistory : t.history = u.history.modifyHead fun x =>
      { x with sent := x.sent ++ u.fOutputStream.pending.take n }) :
    Delivered t ↔ x.sent.length + n ≤ r.bytes.length := by
  have hlength : (u.fOutputStream.formatter.content.take (x.sent.length + n)).length =
      x.sent.length + n := by
    have htotal := h.length_pending
    rw [List.length_take]
    omega
  have hstart := start_iff_length (List.take_prefix (x.sent.length + n) _) h.started.content
  rw [hlength] at hstart
  unfold Delivered
  rw [hhistory, h.history, List.modifyHead_cons, h.join, List.forall_mem_cons, ← hstart]
  constructor
  · rintro ⟨hdelivered, -⟩
    exact (hdelivered r h.started.response).1
  · intro hstart'
    refine ⟨?_, h.others⟩
    intro r₁ hr₁
    cases h.started.response.symm.trans hr₁
    refine ⟨hstart', ?_⟩
    intro hanswered
    cases h.started.answered.symm.trans hanswered

/-- A later attempt delivers a start of the response exactly if the socket is ready for no
more than the rest of it. -/
theorem attempt_later {r r' : Response} (hs : s.history = x :: xs)
    (rest : Partial s.fOutputStream x r) (delivered : Delivered s) (setUp : SetUp s u r')
    (hcontent : u.fOutputStream.formatter.content = s.fOutputStream.formatter.content ++ r'.bytes)
    (counted : Counted u.fOutputStream.formatter) (hstate : u.fState = .kSendingResponse)
    (attempt : Attempt u t) :
    (Delivered t ↔ x.sent.length + s.fSocket.takes ≤ r.bytes.length) ∧
      (Delivered t → Progress t) := by
  have hresumed := resumed hs rest delivered setUp hcontent counted
  have hmore := hresumed.more
  have htakes := u.fSocket.sent_eq_takes u.fOutputStream.pending
  rw [setUp.fSocket] at htakes
  cases attempt with
  | all hall hcleaning houtput hhistory =>
    rw [setUp.fSocket] at hall
    have hnot : ¬ Delivered t := hresumed.not_delivered hhistory
    refine ⟨iff_of_false hnot ?_, fun hdelivered => absurd hdelivered hnot⟩
    omega
  | part n hlt hn hsending houtput hhistory =>
    rw [setUp.fSocket] at hn
    have hntakes : n = s.fSocket.takes := by omega
    rw [← hntakes]
    refine ⟨hresumed.part_iff hlt.le hhistory, ?_⟩
    intro _
    rw [hresumed.history, List.modifyHead_cons] at hhistory
    unfold Progress
    rw [hsending, hstate, houtput]
    refine ⟨_, xs, hhistory, .inr ⟨r, hresumed.started.content, counted.count, rest.response, ?_,
      rest.answered⟩⟩
    rw [List.length_append, List.length_take, min_eq_left hlt.le, hresumed.started.sent]

theorem Attempt.valid (attempt : Attempt u t)
    (hvalid : ResizeableStringFormatter.Valid u.fOutputStream.formatter) :
    ResizeableStringFormatter.Valid t.fOutputStream.formatter := by
  cases attempt with
  | all _ _ houtput _ =>
    rw [houtput]
    exact hvalid.reset
  | part n _ _ _ houtput _ =>
    rw [houtput]
    exact hvalid

theorem sendingResponse_delivering (good : Delivering s) (hstate : s.fState = .kSendingResponse)
    (h : sendingResponse env s err = some (p, t)) :
    (Delivered t ↔ ∀ x ∈ s.history.head?, ∀ r ∈ x.response,
      x.sent.length + s.fSocket.takes ≤ r.bytes.length) ∧
    (Delivered t → ResizeableStringFormatter.Valid t.fOutputStream.formatter ∧ Progress t) := by
  obtain ⟨x, xs, hs, hprogress⟩ : ∃ x xs, s.history = x :: xs ∧
      (Unsent s.fOutputStream x ∨ ∃ r, Partial s.fOutputStream x r) := by
    simpa only [Progress, hstate] using good.progress
  have hcounted : Counted s.fOutputStream.formatter := by
    refine ⟨good.valid, ?_⟩
    rcases hprogress with unsent | ⟨r, rest⟩
    · rw [unsent.counted, unsent.flat.content, List.length_nil]
    · exact rest.counted
  have hsent : s.fOutputStream.fBytesSentInBuffer ≤ s.fOutputStream.formatter.content.length := by
    rcases hprogress with unsent | ⟨r, rest⟩
    · rw [unsent.flat.fBytesSentInBuffer]
      exact Nat.zero_le _
    · have hhead := good.delivered x (hs ▸ List.mem_cons_self) r rest.response
      rw [← rest.sent]
      exact hhead.1.length_le.trans rest.content.length_le
  obtain ⟨u, r', setUp, attempt⟩ := sendingResponse_attempt good.typed hcounted hsent h
  obtain ⟨hcontent, hcounted'⟩ := setUp.content hcounted
  have hstate' := setUp.fState.trans hstate
  have hvalid := attempt.valid hcounted'.valid
  simp only [hs, List.head?_cons, Option.mem_some_iff, forall_eq']
  rcases hprogress with unsent | ⟨r, rest⟩
  · rw [unsent.flat.content, List.nil_append] at hcontent
    obtain ⟨hdelivered, hprogress'⟩ :=
      attempt_first hs unsent good.delivered setUp hcontent hcounted' hstate' attempt
    refine ⟨iff_of_true hdelivered ?_, fun _ => ⟨hvalid, hprogress'⟩⟩
    intro r hr
    cases unsent.response.symm.trans hr
  · obtain ⟨hiff, hprogress'⟩ :=
      attempt_later hs rest good.delivered setUp hcontent hcounted' hstate' attempt
    rw [rest.response]
    simp only [Option.mem_some_iff, forall_eq']
    exact ⟨hiff, fun hdelivered => ⟨hvalid, hprogress' hdelivered⟩⟩

/-! ## The other sections -/

/-- Recording anything but what is sent leaves the deliveries as they are. -/
theorem delivered_modifyHead {f : Exchange → Exchange} (delivered : Delivered s)
    (hf : ∀ x, (f x).response = x.response ∧ (f x).sent = x.sent ∧ (f x).answered = x.answered)
    (hhistory : t.history = s.history.modifyHead f) : Delivered t := by
  unfold Delivered at *
  rw [hhistory]
  cases hs : s.history with
  | nil => simp
  | cons x xs =>
    rw [hs, List.forall_mem_cons] at delivered
    rw [List.modifyHead_cons, List.forall_mem_cons]
    obtain ⟨hresponse, hsent, hanswered⟩ := hf x
    refine ⟨?_, delivered.2⟩
    unfold Exchange.Delivered
    rw [hresponse, hsent, hanswered]
    exact delivered.1

theorem Unsent.modify {o : HTTPResponseStream} {f : Exchange → Exchange} (unsent : Unsent o x)
    (hf : (f x).response = x.response ∧ (f x).sent = x.sent ∧ (f x).answered = x.answered) :
    Unsent o (f x) where
  flat := unsent.flat
  counted := unsent.counted
  response := hf.1.trans unsent.response
  sent := hf.2.1.trans unsent.sent
  answered := hf.2.2.trans unsent.answered

theorem Unchanged.delivering (h : Unchanged s t) (typed : Typed t)
    (hstate : t.fState = s.fState) (good : Delivering s) : Delivering t where
  typed := typed
  valid := by
    rw [h.output]
    exact good.valid
  delivered := by
    unfold Delivered
    rw [h.history]
    exact good.delivered
  progress := by
    have hprogress := good.progress
    unfold Progress at *
    rw [hstate, h.history, h.output]
    exact hprogress

/-- A request has arrived. -/
theorem Unchanged.arrived (h : Unchanged s t) (flat : Flat s.fOutputStream) (typed : Typed t)
    (hstate : t.fState = .kHaveCompleteMessage) (good : Delivering s) : Delivering t where
  typed := typed
  valid := by
    rw [h.output]
    exact good.valid
  delivered := by
    unfold Delivered
    rw [h.history]
    exact good.delivered
  progress := by
    unfold Progress
    rw [hstate, h.output]
    exact flat

theorem cleanup_delivering (good : Delivering s) : Delivering s.cleanupRequestAndResponse := by
  obtain ⟨houtput, -, hstate, -, hresponse⟩ := cleanup_output s
  obtain ⟨f, hhistory, hclosed⟩ := cleanup_history s
  have hf : ∀ x, (f x).response = x.response ∧ (f x).sent = x.sent ∧
      (f x).answered = x.answered := by
    intro x
    obtain ⟨closed, heq⟩ := hclosed x
    rw [heq]
    exact ⟨rfl, rfl, rfl⟩
  refine ⟨?_, ?_, delivered_modifyHead good.delivered hf hhistory, ?_⟩
  · intro fResponse hr
    cases hresponse.symm.trans hr
  · rw [houtput]
    exact good.valid
  · have hprogress := good.progress
    unfold Progress at *
    rw [hstate, houtput]
    cases hs : s.fState with
    | kFilteringRequest | kPreprocessingRequest | kProcessingRequest =>
      rw [hs] at hprogress
      obtain ⟨x, xs, hx, unsent⟩ := hprogress
      rw [hx, List.modifyHead_cons] at hhistory
      exact ⟨f x, xs, hhistory, unsent.modify (hf x)⟩
    | kSendingResponse =>
      rw [hs] at hprogress
      obtain ⟨x, xs, hx, hsending⟩ := hprogress
      rw [hx, List.modifyHead_cons] at hhistory
      refine ⟨f x, xs, hhistory, hsending.imp (·.modify (hf x)) ?_⟩
      rintro ⟨r, rest⟩
      obtain ⟨hresponse, hsent, hanswered⟩ := hf x
      exact ⟨r, rest.content, rest.counted, hresponse.trans rest.response,
        (congrArg List.length hsent).trans rest.sent, hanswered.trans rest.answered⟩
    | kReadingRequest | kCleaningUp | kReadingFirstRequest | kHaveCompleteMessage =>
      rw [hs] at hprogress
      exact hprogress

theorem haveCompleteMessage_delivering (good : Delivering s)
    (hstate : s.fState = .kHaveCompleteMessage) (typed : Typed t)
    (h : s.haveCompleteMessage err = some (p, t)) : Delivering t := by
  obtain ⟨hhistory, -, houtput, -, hstate'⟩ := haveCompleteMessage_spec h
  have flat : Flat s.fOutputStream := by simpa only [Progress, hstate] using good.progress
  have unsent : Unsent t.fOutputStream {} := by
    rw [houtput]
    exact ⟨⟨flat.content, flat.fBytesSentInBuffer⟩, rfl, rfl, rfl, rfl⟩
  refine ⟨typed, ?_, ?_, ?_⟩
  · rw [houtput]
    exact ⟨good.valid.fits, good.valid.pos, good.valid.lt⟩
  · unfold Delivered
    rw [hhistory, List.forall_mem_cons]
    refine ⟨?_, good.delivered⟩
    rintro r ⟨⟩
  · unfold Progress
    rcases hstate' with hsending | ⟨hfiltering, -⟩
    · rw [hsending]
      exact ⟨{}, s.history, hhistory, .inl unsent⟩
    · rw [hfiltering]
      exact ⟨{}, s.history, hhistory, unsent⟩

/-- A section that works on a request of which nothing is sent. -/
theorem unsent_delivering {f : Exchange → Exchange} (good : Delivering s) (typed : Typed t)
    (hx : ∃ x xs, s.history = x :: xs ∧ Unsent s.fOutputStream x)
    (hhistory : t.history = s.history.modifyHead f)
    (hf : ∀ x, (f x).response = x.response ∧ (f x).sent = x.sent ∧ (f x).answered = x.answered)
    (houtput : t.fOutputStream = s.fOutputStream)
    (hstate : t.fState = .kFilteringRequest ∨ t.fState = .kPreprocessingRequest ∨
      t.fState = .kProcessingRequest ∨ t.fState = .kSendingResponse) : Delivering t := by
  obtain ⟨x, xs, hs, unsent⟩ := hx
  have delivered := delivered_modifyHead good.delivered hf hhistory
  rw [hs, List.modifyHead_cons] at hhistory
  have unsent' : Unsent t.fOutputStream (f x) := houtput ▸ unsent.modify (hf x)
  refine ⟨typed, houtput ▸ good.valid, delivered, ?_⟩
  unfold Progress
  rcases hstate with heq | heq | heq | heq <;> rw [heq]
  · exact ⟨f x, xs, hhistory, unsent'⟩
  · exact ⟨f x, xs, hhistory, unsent'⟩
  · exact ⟨f x, xs, hhistory, unsent'⟩
  · exact ⟨f x, xs, hhistory, .inl unsent'⟩

/-! ## Runs -/

/-- One section delivers the responses exactly if it meets the condition. -/
theorem runSection_delivering (good : Delivering s)
    (h : runSection sDispatcher env s err = some d) :
    (Delivered d.2 ↔ SendOk (p, s) (.switch env)) ∧ (Delivered d.2 → Delivering d.2) := by
  have typed := runSection_typed good.typed h
  obtain ⟨q, t⟩ := d
  have hother : s.fState ≠ .kSendingResponse → Delivering t →
      (Delivered t ↔ SendOk (p, s) (.switch env)) ∧ (Delivered t → Delivering t) := by
    intro hne hgood
    exact ⟨⟨fun _ hstate => absurd hstate hne, fun _ => hgood.delivered⟩, fun _ => hgood⟩
  have hunsent : s.fState = .kFilteringRequest ∨ s.fState = .kPreprocessingRequest ∨
      s.fState = .kProcessingRequest → ∃ x xs, s.history = x :: xs ∧ Unsent s.fOutputStream x := by
    rintro (heq | heq | heq) <;> simpa only [Progress, heq] using good.progress
  have hflat : s.fState = .kReadingFirstRequest → Flat s.fOutputStream := by
    intro heq
    simpa only [Progress, heq] using good.progress
  have hflat' : s.fState = .kReadingRequest → Flat s.fOutputStream := by
    intro heq
    simpa only [Progress, heq] using good.progress
  unfold runSection at h
  cases hstate : s.fState with
  | kReadingFirstRequest =>
    rw [hstate] at h
    obtain ⟨hunchanged, hstate' | hstate'⟩ := readingFirstRequest_spec h
    · exact hother (by simp [hstate]) (hunchanged.delivering typed hstate' good)
    · exact hother (by simp [hstate]) (hunchanged.arrived (hflat hstate) typed hstate' good)
  | kReadingRequest =>
    rw [hstate] at h
    obtain ⟨hunchanged, hstate' | ⟨hstate', -⟩⟩ := readingRequest_spec h
    · exact hother (by simp [hstate]) (hunchanged.delivering typed hstate' good)
    · exact hother (by simp [hstate]) (hunchanged.arrived (hflat' hstate) typed hstate' good)
  | kHaveCompleteMessage =>
    rw [hstate] at h
    exact hother (by simp [hstate]) (haveCompleteMessage_delivering good hstate typed h)
  | kFilteringRequest =>
    rw [hstate] at h
    obtain ⟨hparses, hstate', -, houtput, -⟩ := filteringRequest_spec h
    have hin : t.fState = .kFilteringRequest ∨ t.fState = .kPreprocessingRequest ∨
        t.fState = .kProcessingRequest ∨ t.fState = .kSendingResponse :=
      hstate'.imp (·.trans hstate) Or.inl
    obtain ⟨f, hhistory, hparsed⟩ := hparses.modifies
    refine hother (by simp [hstate]) (unsent_delivering good typed (hunsent (.inl hstate))
      hhistory (fun x => ?_) houtput hin)
    obtain ⟨parsed, heq⟩ := hparsed x
    rw [heq]
    exact ⟨rfl, rfl, rfl⟩
  | kPreprocessingRequest =>
    rw [hstate] at h
    obtain ⟨hstate', hhistory, houtput, -⟩ := preprocessingRequest_spec h
    have hhistory' : t.history = s.history.modifyHead id := by rw [hhistory, List.modifyHead_id, id]
    exact hother (by simp [hstate]) (unsent_delivering good typed (hunsent (.inr (.inl hstate)))
      hhistory' (fun x => ⟨rfl, rfl, rfl⟩) houtput (.inr (.inr (.inl hstate'))))
  | kProcessingRequest =>
    rw [hstate] at h
    obtain ⟨fRequest, fResponse, -, -, hstate', houtput, -, -, hhistory⟩ := processingRequest_spec h
    exact hother (by simp [hstate]) (unsent_delivering good typed (hunsent (.inr (.inr hstate)))
      hhistory (fun x => ⟨rfl, rfl, rfl⟩) houtput (.inr (.inr (.inr hstate'))))
  | kSendingResponse =>
    rw [hstate] at h
    obtain ⟨hiff, hprogress⟩ := sendingResponse_delivering good hstate h
    refine ⟨hiff.trans ⟨fun hok _ => hok, fun hok => hok hstate⟩, ?_⟩
    intro hdelivered
    obtain ⟨hvalid, hprogress⟩ := hprogress hdelivered
    exact ⟨typed, hvalid, hdelivered, hprogress⟩
  | kCleaningUp =>
    rw [hstate] at h
    cases h
    have hcleaned := cleanup_delivering good
    refine hother (by simp [hstate]) ⟨typed, hcleaned.valid, hcleaned.delivered, ?_⟩
    have hprogress := hcleaned.progress
    unfold Progress at hprogress ⊢
    rw [(cleanup_output s).2.2.1, hstate] at hprogress
    exact hprogress

theorem sendOk_of_ne (h : ∀ env, a ≠ .switch env) : SendOk c a := by
  cases a with
  | switch env => exact absurd rfl (h env)
  | signal _ | incrementObjectHolderCount | decrementObjectHolderCount | run | loop => trivial

theorem next_delivering (good : Delivering c.2) (h : next sDispatcher c a = some d) :
    (Delivered d.2 ↔ SendOk c a) ∧ (Delivered d.2 → Delivering d.2) := by
  have typed := next_typed good.typed h
  rcases next_cases h with ⟨env, err, rfl, -, hsection⟩ | ⟨hother, hunchanged, hstate, -⟩ |
    ⟨hother, -, rfl⟩
  · exact runSection_delivering (p := c.1) good hsection
  · have hgood := hunchanged.delivering typed hstate good
    exact ⟨iff_of_true hgood.delivered (sendOk_of_ne hother), fun _ => hgood⟩
  · have hgood := cleanup_delivering good
    exact ⟨iff_of_true hgood.delivered (sendOk_of_ne hother), fun _ => hgood⟩

/-- The responses are delivered, throughout a run, exactly if no attempt to send the rest
of a response finds the socket ready for more than that. -/
theorem delivered_iff (sDispatcher : HTTPDispatcher mapping) {c : Point × HTTPSession}
    (fresh : Fresh c) (as : List SessionAction) :
    (system sDispatcher).Keeps (fun _ _ d => Delivered d.2) c as ↔
      (system sDispatcher).Meets SendOk c as := by
  refine System.keeps_iff_meets (fun c => Delivering c.2) ?_ ?_ fresh.delivering as
  · intro c a d good hstep hok
    obtain ⟨hiff, hgood⟩ := next_delivering good hstep
    exact ⟨hiff.mpr hok, hgood (hiff.mpr hok)⟩
  · intro c a d good hstep hdelivered
    exact (next_delivering good hstep).1.mp hdelivered

/-! ### Examples -/

/-- The first response, and one more attempt to send the rest of it. -/
def secondAttempt : List SessionAction := firstResponse ++ [.run, .loop, .switch plainEnv]

/-- Two sends that take ten and twenty bytes deliver the start of a response. -/
theorem delivered_iff_partial :
    (system defaultDispatcher).Keeps (fun _ _ d => Delivered d.2)
      (newSession (ascii "GET / HTTP/1.0\r\n\r\n") [.sent 9, .sent 19]) secondAttempt :=
  (delivered_iff defaultDispatcher (newSession_fresh _ _) secondAttempt).mpr (by decide +kernel)

/-- A second send that takes all it is given sends the response twice. -/
theorem secondAttempt_not_delivered :
    ¬ (system defaultDispatcher).Keeps (fun _ _ d => Delivered d.2)
      (newSession (ascii "GET / HTTP/1.0\r\n\r\n") [.sent 9, .sent 4095]) secondAttempt := by
  decide +kernel

end HTTPSession

end CxxFramework.Net
