import CxxFramework.Http.HTTPResponseStream
import CxxFramework.Library.Transition

/-!
# The response stream over any run

The bytes that `HTTPResponseStream` has sent, followed by those it still holds, are all the
bytes it has accepted. A `WriteV` accepts the bytes it reports as sent, which are all of
them where it has put the rest into the buffer.

The buffer grows by doubling, and the growth beyond `2 ^ 31` bytes overflows. A call that
needs it writes outside the buffer, and only such a call breaks the equation.

## Main definitions

* `HTTPResponseStream.Conserved` — the equation.
* `HTTPResponseStream.Room` — what the call puts into the buffer fits.
-/

namespace CxxFramework.Net

open CxxFramework.Core Buffer Transition ResizeableStringFormatter
open ResponseBuffer

namespace HTTPResponseStream

/-! ## Runs -/

/-- A stream, its socket, and all the bytes it has accepted. -/
structure State where
  stream : HTTPResponseStream := {}
  fSocket : Socket := {}
  accepted : Bytes := []
deriving DecidableEq, Repr

/-- The calls of the stream's users. `outgoing` is what the kernel answers to the sends of a
call. The callers of `WriteV` pass the total length of the vectors. -/
inductive Action where
  | put (buffer : Bytes)
  | putFmtStr (text : Bytes)
  | writeV (inVec : List Bytes) (inSendType : SendType) (outgoing : List SendOutcome)
  | flush (outgoing : List SendOutcome)
deriving DecidableEq, Repr

/-- The most bytes that `vsnprintf` makes, and one more. -/
def kFmtLimit : Nat := 2 ^ 31

/-- One call. A text that is too long for `vsnprintf` is not put. -/
def next (s : State) : Action → Option State
  | .put buffer => (put s.stream.formatter buffer).map fun formatter =>
    { s with stream.formatter := formatter, accepted := s.accepted ++ buffer }
  | .putFmtStr text =>
    if text.length ≥ kFmtLimit then some s
    else (putFmtStr s.stream.formatter text).map fun formatter =>
      { s with stream.formatter := formatter, accepted := s.accepted ++ text }
  | .writeV inVec inSendType outgoing =>
    (s.stream.writeV { s.fSocket with outgoing } inVec inVec.flatten.length inSendType).map
      fun (_, outLengthSent, stream, fSocket) =>
        { stream, fSocket, accepted := s.accepted ++ inVec.flatten.take (outLengthSent.getD 0) }
  | .flush outgoing =>
    let (_, stream, fSocket) := s.stream.flush { s.fSocket with outgoing }
    some { s with stream, fSocket }

/-- A new stream over a socket that has sent nothing. -/
def Fresh (s : State) : Prop := s.stream = {} ∧ s.fSocket.wire = [] ∧ s.accepted = []

/-- Calls on a stream, until one of them fails. -/
abbrev system : System (Option State) Action :=
  .ofPartial (fun state => ∃ s, state = some s ∧ Fresh s) fun state a =>
    some (state.bind fun s => next s a)

/-- The call does not fail, and what is sent and what is buffered make up what was
accepted. -/
def Conserved (_ : Option State) (_ : Action) : Option State → Prop
  | some s => s.fSocket.wire ++ s.stream.pending = s.accepted
  | none => False

/-- The vectors fit one after the other behind a content of a length. -/
def FitsAll : (length : Nat) → List Bytes → Prop
  | _, [] => True
  | length, v :: vs => Fits length v.length ∧ FitsAll (length + v.length) vs

/-- What `WriteV` has to buffer fits behind what it leaves in the buffer: the vectors from the
one on that the socket, asked for the buffered data and the vectors, has not taken in full. -/
def WriteVRoom (b : ResponseBuffer) (fSocket : Socket) (inVec : List Bytes)
    (inSendType : SendType) : Prop :=
  let r := fSocket.send (b.pending ++ inVec.flatten)
  let length := if b.pending.length ≤ r.sent then 0 else b.formatter.content.length
  (r.err = CF_NoErr ∨ r.err = EAGAIN) → inSendType ≠ .kDontBuffer →
    (inSendType = .kAllOrNothing → b.pending.length < r.sent) →
    ∀ rest ∈ skipSent inVec (r.sent - b.pending.length), FitsAll length rest

/-- What the call puts into the buffer fits. -/
def Room : Option State → Action → Prop
  | some s, .put buffer => Fits s.stream.formatter.content.length buffer.length
  | some s, .putFmtStr text =>
    text.length < kFmtLimit → s.stream.formatter.content.length + text.length < 2 ^ 31
  | some s, .writeV inVec inSendType outgoing =>
    WriteVRoom s.stream.toResponseBuffer { s.fSocket with outgoing } inVec inSendType
  | _, _ => True

/-! ## The invariant -/

/-- The buffer is a doubling of the first one, some of its bytes are not sent unless it is
empty, and the bytes sent and buffered are those accepted. -/
structure Inv (b : ResponseBuffer) (fSocket : Socket) (accepted : Bytes) : Prop where
  formatter : Valid b.formatter
  doubled : Doubled b.formatter
  unsent : b.fBytesSentInBuffer < b.formatter.content.length ∨
    b.fBytesSentInBuffer = 0 ∧ b.formatter.content = []
  conserved : fSocket.wire ++ b.pending = accepted

variable {b b' : ResponseBuffer} {fSocket fSocket' : Socket} {accepted : Bytes}
  {inVec : List Bytes} {inSendType : SendType}

theorem Inv.empty_of_pending (hi : Inv b fSocket accepted) (h : b.pending = []) :
    b.fBytesSentInBuffer = 0 ∧ b.formatter.content = [] := by
  refine hi.unsent.resolve_left fun hlt => ?_
  have hlen := length_pending b
  rw [h, StringFormatter.getCurrentOffset, List.length_nil] at hlen
  omega

/-- Bytes put into the buffer are accepted. -/
theorem Inv.append (hi : Inv b fSocket accepted) {formatter : StringFormatter} {bytes : Bytes}
    (hv : Valid formatter) (hd : Doubled formatter)
    (hc : formatter.content = b.formatter.content ++ bytes) :
    Inv { b with formatter } fSocket (accepted ++ bytes) where
  formatter := hv
  doubled := hd
  unsent := by
    simp only [hc, List.length_append, List.append_eq_nil_iff]
    rcases hi.unsent with hlt | ⟨hzero, hnil⟩
    · exact .inl (by omega)
    · rcases bytes with _ | ⟨b, bs⟩
      · exact .inr ⟨hzero, hnil, rfl⟩
      · exact .inl (by simp [hzero])
  conserved := by
    have hle : b.fBytesSentInBuffer ≤ b.formatter.content.length := by
      rcases hi.unsent with hlt | ⟨hzero, -⟩ <;> omega
    rw [← hi.conserved, pending, hc, List.drop_append_of_le_length hle, List.append_assoc,
      ← pending]

theorem Inv.put (hi : Inv b fSocket accepted) {formatter : StringFormatter} {buffer : Bytes}
    (hput : put b.formatter buffer = some formatter) :
    Inv { b with formatter } fSocket (accepted ++ buffer) :=
  hi.append (put_eq_some hi.formatter hput).2 (put_doubled hi.formatter hi.doubled hput)
    (put_eq_some hi.formatter hput).1

/-- All of the buffer is sent, and `items` after it. -/
theorem Inv.sendAll (hi : Inv b fSocket accepted) {items : Bytes}
    (hwire : fSocket'.wire = fSocket.wire ++ (b.pending ++ items)) :
    Inv b.emptied fSocket' (accepted ++ items) where
  formatter := hi.formatter.reset
  doubled := hi.doubled
  unsent := .inr ⟨rfl, rfl⟩
  conserved := by
    rw [hwire, ← hi.conserved, ← List.append_assoc]
    exact List.append_nil _

/-- A part of the buffer is sent. -/
theorem Inv.sendPart (hi : Inv b fSocket accepted) {n : Nat} (hn : n < b.pending.length)
    (hwire : fSocket'.wire = fSocket.wire ++ b.pending.take n) :
    Inv { b with fBytesSentInBuffer := b.fBytesSentInBuffer + n } fSocket' accepted where
  formatter := hi.formatter
  doubled := hi.doubled
  unsent := by
    rw [length_pending, StringFormatter.getCurrentOffset] at hn
    exact .inl (by simp only; omega)
  conserved := by
    rw [hwire, ← hi.conserved, List.append_assoc]
    congr 1
    simp only [pending, ← List.drop_drop]
    exact List.take_append_drop _ _

theorem Inv.countBytes (hi : Inv b fSocket accepted) (fBytesWritten : Nat) :
    Inv { b with formatter.fBytesWritten := fBytesWritten } fSocket accepted :=
  ⟨⟨hi.formatter.fits, hi.formatter.pos, hi.formatter.lt⟩, hi.doubled, hi.unsent, hi.conserved⟩

theorem accounts_inv : Accounts Inv := ⟨Inv.countBytes, fun h hput => h.put hput⟩

/-! ## WriteV -/

/-- Sending accepts the bytes of the vectors that are sent. -/
theorem writeNow_spec (hi : Inv b fSocket accepted) (inVec : List Bytes) :
    ∃ err b' fSocket', b.writeNow fSocket inVec =
        (err, b.lengthSent fSocket inVec, b', fSocket') ∧
      Inv b' fSocket' (accepted ++ inVec.flatten.take (b.lengthSent fSocket inVec)) ∧
      b.lengthSent fSocket inVec ≤ inVec.flatten.length ∧
      (err ≠ CF_NoErr → b.lengthSent fSocket inVec = 0) ∧
      (inVec ≠ [] → err = (fSocket.send (b.pending ++ inVec.flatten)).err) ∧
      b'.formatter.content.length =
        if b.pending.length ≤ (fSocket.send (b.pending ++ inVec.flatten)).sent then 0
        else b.formatter.content.length := by
  obtain ⟨hwire, hle⟩ := fSocket.send_wire (b.pending ++ inVec.flatten)
  have herr := fSocket.send_err (b.pending ++ inVec.flatten)
  rw [List.length_append] at hle
  unfold lengthSent
  rcases writeNow_cases b fSocket inVec with
    ⟨hall, hne, hw⟩ | ⟨hsome, hw⟩ | ⟨hempty, hvec, hw⟩ | ⟨hempty, rfl, hw⟩
  · refine ⟨_, _, _, hw, hi.sendAll ?_, by omega, fun hbad => ?_, fun _ => rfl, ?_⟩
    · rw [hwire, List.take_append, List.take_of_length_le hall]
    · have hzero := (herr.resolve_left fun hgood => hbad hgood.1).2
      omega
    · rw [if_pos hall]
      rfl
  · have hzero : (fSocket.send (b.pending ++ inVec.flatten)).sent - b.pending.length = 0 := by
      omega
    rw [hzero]
    refine ⟨_, _, _, hw, ?_, Nat.zero_le _, fun _ => rfl, fun _ => rfl, ?_⟩
    · rw [List.take_zero, List.append_nil]
      refine hi.sendPart hsome ?_
      rw [hwire, List.take_append_of_le_length hsome.le]
    · rw [if_neg (by omega)]
  · have hnil := (hi.empty_of_pending hempty).2
    simp only [hempty, List.nil_append, List.length_nil, Nat.sub_zero, Nat.zero_add]
      at hwire hle herr hw ⊢
    refine ⟨_, _, _, hw, ?_, hle, fun hbad => ?_, fun _ => rfl, ?_⟩
    · refine ⟨hi.formatter, hi.doubled, hi.unsent, ?_⟩
      rw [hempty, hwire, ← hi.conserved, hempty, List.append_nil, List.append_nil]
    · exact (herr.resolve_left fun hgood => hbad hgood.1).2
    · simp [hnil]
  · have hnil := (hi.empty_of_pending hempty).2
    simp only [hempty, List.flatten_nil, List.append_nil, List.length_nil, Nat.sub_zero] at hle ⊢
    have hzero : (fSocket.send []).sent = 0 := by omega
    rw [hzero]
    refine ⟨_, _, _, hw, by simpa using hi, Nat.zero_le _, fun hbad => absurd rfl hbad,
      fun hbad => absurd rfl hbad, ?_⟩
    simp [hnil]

/-- All vectors are put without a fault exactly if they fit. -/
theorem putAll_isSome_iff {f : StringFormatter} (hf : Valid f) (hd : Doubled f)
    (rest : List Bytes) :
    (rest.foldlM ResizeableStringFormatter.put f).isSome ↔ FitsAll f.content.length rest := by
  induction rest generalizing f with
  | nil => simp [FitsAll]
  | cons v vs ih =>
    rw [List.foldlM_cons, FitsAll, ← put_isSome_iff hf hd]
    cases hput : ResizeableStringFormatter.put f v with
    | none => simp
    | some g =>
      obtain ⟨hcontent, hg⟩ := put_eq_some hf hput
      have hrest := ih hg (put_doubled hf hd hput)
      rw [hcontent, List.length_append] at hrest
      simpa using hrest

theorem writeV_inv (hi : Inv b fSocket accepted) {theErr : CF_Error}
    {outLengthSent : Option Nat}
    (hw : b.writeV fSocket inVec inVec.flatten.length inSendType =
      some (theErr, outLengthSent, b', fSocket')) :
    Inv b' fSocket' (accepted ++ inVec.flatten.take (outLengthSent.getD 0)) := by
  obtain ⟨err, b₁, fSocket₁, hnow, hinv, -, hzero, -⟩ := writeNow_spec hi inVec
  exact accounts_inv.writeV hnow hinv hzero hw

/-- `WriteV` does not fault exactly if what it has to buffer fits. -/
theorem writeV_isSome_iff (hi : Inv b fSocket accepted) :
    (b.writeV fSocket inVec inVec.flatten.length inSendType).isSome ↔
      WriteVRoom b fSocket inVec inSendType := by
  obtain ⟨err, b₁, fSocket₁, hnow, hinv, hle, -, herr, hlength⟩ := writeNow_spec hi inVec
  have hsome := skipSent_isSome_iff inVec (b.lengthSent fSocket inVec)
  have hpositive : b.lengthSent fSocket inVec ≠ 0 ↔
      b.pending.length < (fSocket.send (b.pending ++ inVec.flatten)).sent := by
    unfold lengthSent
    omega
  simp only [ResponseBuffer.writeV, hnow, WriteVRoom, ← hpositive]
  change _ ↔ (_ → _ → _ → ∀ rest, skipSent inVec (b.lengthSent fSocket inVec) = some rest → _)
  rw [← hlength]
  by_cases htotal : b.lengthSent fSocket inVec = inVec.flatten.length
  · have hnone : skipSent inVec (b.lengthSent fSocket inVec) = none := by
      rw [← Option.not_isSome_iff_eq_none, hsome, htotal]
      exact lt_irrefl _
    refine iff_of_true ?_ fun _ _ _ rest hrest => ?_
    · simp only [if_pos htotal]
      split_ifs <;> rfl
    · rw [hnone] at hrest
      cases hrest
  · have hvec : inVec ≠ [] := by
      rintro rfl
      exact htotal (Nat.le_zero.mp hle)
    obtain ⟨rest, hrest⟩ := Option.isSome_iff_exists.mp (hsome.mpr (by omega))
    rw [← herr hvec, hrest]
    have hput := putAll_isSome_iff (hinv.countBytes
      ((b₁.formatter.fBytesWritten + b.lengthSent fSocket inVec) % uint32Size)).formatter
      hinv.doubled rest
    split_ifs with hbad hdont hall
    · exact iff_of_true rfl fun hgood => absurd hgood (not_or.mpr hbad)
    · exact iff_of_true rfl fun _ hne => absurd hdont hne
    · exact iff_of_true rfl fun _ _ hne => absurd hall.2 (hne hall.1)
    · rw [Option.bind_some, Option.isSome_map, hput]
      have hgood : err = CF_NoErr ∨ err = EAGAIN := by
        by_contra hno
        exact hbad (not_or.mp hno)
      have hpos : inSendType = .kAllOrNothing → b.lengthSent fSocket inVec ≠ 0 :=
        fun hkind hzero => hall ⟨hkind, hzero⟩
      constructor
      · intro hfits _ _ _ rest' hrest'
        obtain rfl := Option.some.inj hrest'
        exact hfits
      · exact fun h => h hgood hdont hpos rest rfl

/-! ## Any run -/

theorem Fresh.inv {s : State} (h : Fresh s) : Inv s.stream.toResponseBuffer s.fSocket s.accepted := by
  obtain ⟨hstream, hwire, haccepted⟩ := h
  rw [hstream]
  refine ⟨⟨Nat.zero_le _, by decide, by decide⟩, ⟨11, by decide, rfl⟩, .inr ⟨rfl, rfl⟩, ?_⟩
  rw [hwire, haccepted]
  rfl

/-- `Flush` sends a start of what is buffered. -/
theorem flush_inv {o : HTTPResponseStream} (hi : Inv o.toResponseBuffer fSocket accepted) :
    Inv (o.flush fSocket).2.1.toResponseBuffer (o.flush fSocket).2.2 accepted := by
  by_cases hempty : o.pending = []
  · have hzero : ¬ o.formatter.getCurrentOffset - o.fBytesSentInBuffer > 0 := by
      rw [← length_pending, hempty]
      simp
    simp only [flush, if_neg hzero]
    exact hi
  · have hflushed := flush_flushed fSocket hempty
    generalize o.flush fSocket = result at hflushed
    cases hflushed with
    | all _ hwire =>
      have hwire' := hwire
      rw [← List.append_nil o.pending] at hwire'
      rw [← List.append_nil accepted]
      exact hi.sendAll hwire'
    | part hn _ hwire => exact hi.sendPart hn hwire

/-- A call that has room for what it puts into the buffer keeps the invariant, and any other
fails. -/
theorem next_cases {s : State} (hi : Inv s.stream.toResponseBuffer s.fSocket s.accepted) (a : Action) :
    (Room (some s) a ↔ (next s a).isSome) ∧
      ∀ t, next s a = some t → Inv t.stream.toResponseBuffer t.fSocket t.accepted := by
  cases a with
  | put buffer =>
    refine ⟨?_, fun t ht => ?_⟩
    · rw [next, Option.isSome_map, put_isSome_iff hi.formatter hi.doubled]
      rfl
    · obtain ⟨formatter, hput, rfl⟩ := Option.map_eq_some_iff.mp ht
      exact hi.put hput
  | putFmtStr text =>
    rw [next]
    split_ifs with hlong
    · refine ⟨iff_of_true (fun hlt => absurd hlt (not_lt.mpr hlong)) rfl, fun t ht => ?_⟩
      obtain rfl := Option.some.inj ht
      exact hi
    · refine ⟨?_, fun t ht => ?_⟩
      · rw [Option.isSome_map, putFmtStr_isSome_iff hi.formatter hi.doubled]
        exact ⟨fun h => h (not_le.mp hlong), fun h _ => h⟩
      · obtain ⟨formatter, hput, rfl⟩ := Option.map_eq_some_iff.mp ht
        obtain ⟨hc, hv⟩ := putFmtStr_eq_some hi.formatter hput
        exact hi.append hv (putFmtStrLoop_room hi.doubled hi.formatter hput).1 hc
  | writeV inVec inSendType outgoing =>
    have hi' : Inv s.stream.toResponseBuffer { s.fSocket with outgoing } s.accepted :=
      ⟨hi.formatter, hi.doubled, hi.unsent, hi.conserved⟩
    refine ⟨?_, fun t ht => ?_⟩
    · rw [next, writeV, Option.isSome_map, Option.isSome_map, writeV_isSome_iff hi']
      rfl
    · obtain ⟨result, hcall, rfl⟩ := Option.map_eq_some_iff.mp ht
      obtain ⟨⟨theErr, outLengthSent, buffer, fSocket⟩, hw, rfl⟩ :=
        Option.map_eq_some_iff.mp hcall
      exact writeV_inv hi' hw
  | flush outgoing =>
    refine ⟨iff_of_true trivial rfl, fun t ht => ?_⟩
    obtain rfl := Option.some.inj ht
    exact flush_inv ⟨hi.formatter, hi.doubled, hi.unsent, hi.conserved⟩

/-- In every run from a new stream, what is sent and what is buffered make up what was
accepted, throughout exactly if every call has room for what it puts into the buffer. -/
theorem conserved_iff_room {s : State} (hs : Fresh s) (actions : List Action) :
    system.Keeps Conserved (some s) actions ↔ system.Meets Room (some s) actions := by
  refine System.keeps_iff_meets
    (fun state => ∃ s, state = some s ∧ Inv s.stream.toResponseBuffer s.fSocket s.accepted) ?_ ?_
    ⟨s, rfl, hs.inv⟩ actions
  · rintro _ a state ⟨s, rfl, hi⟩ hstep hroom
    obtain ⟨hiff, hinv⟩ := next_cases hi a
    obtain ⟨t, ht⟩ := Option.isSome_iff_exists.mp (hiff.mp hroom)
    obtain rfl : next s a = state := Option.some.inj hstep
    rw [ht]
    exact ⟨(hinv t ht).conserved, t, rfl, hinv t ht⟩
  · rintro _ a state ⟨s, rfl, hi⟩ hstep hconserved
    obtain rfl : next s a = state := Option.some.inj hstep
    rw [(next_cases hi a).1]
    cases hnext : next s a with
    | none => exact (hnext ▸ hconserved : Conserved (some s) a none).elim
    | some t => rfl

/-! ## Two runs -/

instance : (length : Nat) → (vs : List Bytes) → Decidable (FitsAll length vs)
  | _, [] => isTrue trivial
  | length, v :: vs =>
    have := instDecidableFitsAll (length + v.length) vs
    inferInstanceAs (Decidable (_ ∧ _))

instance (b : ResponseBuffer) (fSocket : Socket) (inVec : List Bytes)
    (inSendType : SendType) : Decidable (WriteVRoom b fSocket inVec inSendType) :=
  inferInstanceAs (Decidable (_ → _ → _ → ∀ _ ∈ _, _))

instance : (state : Option State) → (a : Action) → Decidable (Room state a)
  | some s, .put buffer =>
    inferInstanceAs (Decidable (Fits s.stream.formatter.content.length buffer.length))
  | some _, .putFmtStr _ => inferInstanceAs (Decidable (_ → _))
  | some s, .writeV inVec inSendType outgoing =>
    inferInstanceAs (Decidable
      (WriteVRoom s.stream.toResponseBuffer { s.fSocket with outgoing } inVec inSendType))
  | some _, .flush _ => isTrue trivial
  | none, _ => isTrue trivial

/-- A header that is sent in pieces, and bodies that are cut within their vectors. -/
def partialRun : List Action :=
  [.put (ascii "header"), .writeV [ascii "ab", [], ascii "cdef"] .kDontBuffer [.sent 3],
    .writeV [ascii "ab", [], ascii "cdef"] .kAlwaysBuffer [.sent 3], .flush [.failed .eagain],
    .flush [.sent 9], .writeV [ascii "gh", ascii "ijk"] .kAllOrNothing [],
    .writeV [ascii "gh", ascii "ijk"] .kAllOrNothing [.sent 2], .putFmtStr (ascii "end"),
    .flush [.sent 100]]

theorem conserved_iff_room_partialRun : system.Keeps Conserved (some {}) partialRun :=
  (conserved_iff_room ⟨rfl, rfl, rfl⟩ partialRun).mpr (by decide +kernel)

/-- A buffer that would have to grow beyond `2 ^ 31` bytes. -/
theorem put_not_conserved {buffer : Bytes} (hlong : 2 ^ 31 < buffer.length) :
    ¬ system.Keeps Conserved (some {}) [.put buffer] := by
  intro hkeeps
  obtain ⟨hconserved, -⟩ := hkeeps _ rfl
  have hinv : Inv ({} : State).stream.toResponseBuffer ({} : State).fSocket ({} : State).accepted :=
    Fresh.inv ⟨rfl, rfl, rfl⟩
  have hroom := (next_cases hinv (.put buffer)).1
  cases hnext : next {} (.put buffer) with
  | none =>
    rw [Option.bind_some, hnext] at hconserved
    exact hconserved
  | some t =>
    rw [hnext] at hroom
    have hfits : Fits 0 buffer.length := hroom.mpr rfl
    unfold Fits at hfits
    omega

theorem overflow_not_conserved :
    ¬ system.Keeps Conserved (some {}) [.put (List.replicate (2 ^ 31 + 1) 0)] :=
  put_not_conserved (by rw [List.length_replicate]; exact Nat.lt_succ_self _)

end HTTPResponseStream

end CxxFramework.Net
