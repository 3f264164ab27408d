import CxxFramework.Http.MessageEnd

/-!
# Requests over any segments

The messages that `ReadRequest` finds in a stream of bytes, where one stream arrives in any
segments, with would-block results between them.

## Main definitions

* `HTTPRequestStream.Segmentation` — the ways in which a stream of bytes arrives.
* `HTTPRequestStream.Produces` — the messages found, and where they end, once no call finds
  another one.
* `HTTPRequestStream.Independent` — every segmentation gives the same messages.
* `HTTPRequestStream.Separates` — the streams whose messages are told apart by their bytes.
-/

namespace CxxFramework.Net

open CxxFramework.Core Buffer StringParser

namespace HTTPRequestStream

variable {r r' x : HTTPRequestStream} {fSocket fSocket' : Socket} {err : CF_Error}

/-! ## One look at the bytes received -/

theorem content_packet (h : r.fRequestBuffer.head? = some 36) :
    r.content =
      if r.requestLen < 4 ∨ r.requestLen < interleavedPacketLen r.fRequestBuffer then .incomplete
      else .dataPacket (interleavedPacketLen r.fRequestBuffer) := by
  obtain ⟨mem, hmem⟩ : ∃ mem, r.fRequestBuffer = 36 :: mem := by
    cases hbuffer : r.fRequestBuffer with
    | nil => simp [hbuffer] at h
    | cons c mem => exact ⟨mem, by simp [hbuffer] at h; rw [h]⟩
  unfold content interleavedPacketLen
  simp only [hmem, gt_iff_lt]
  split_ifs <;> first | rfl | omega

theorem content_header (h : r.fRequestBuffer.head? ≠ some 36) :
    r.content =
      match findHeaderEnd r.fRequest (StringParser.ofString (some r.fRequest) []) 0 with
      | .incomplete => .incomplete
      | .weAreDone dataRemaining => .header dataRemaining := by
  have hsearch := findHeaderEnd_congr r.fRequest 0 (at_ofString r.fRequest [])
    (at_ofString r.fRequest (r.fRequestBuffer.drop r.requestLen))
  unfold content
  split
  next mem hmem => simp [hmem] at h
  next =>
    dsimp only
    cases hfound : findHeaderEnd r.fRequest (StringParser.ofString (some r.fRequest) []) 0 <;>
      rw [← hsearch, hfound]

/-- What `content` finds is the message at the front of the bytes received. -/
theorem content_of_messageEnd (hi : Inv r) (hpos : 0 < r.requestLen) :
    match messageEnd r.fRequest with
    | none => r.content = .incomplete
    | some n => r.content = .dataPacket n ∨ r.content = .header (r.requestLen - n) := by
  have hlen := hi.length_fRequest
  have hpre : r.fRequest <+: r.fRequestBuffer := List.take_prefix _ _
  have hhead : r.fRequest.head? = r.fRequestBuffer.head? :=
    head?_of_isPrefix hpre (List.ne_nil_of_length_pos (by omega))
  by_cases hdollar : r.fRequestBuffer.head? = some 36
  · rw [content_packet hdollar, messageEnd_packet (hhead.trans hdollar), hlen]
    by_cases hfour : r.requestLen < 4
    · rw [if_pos (.inl hfour), if_pos (.inl hfour)]
    · rw [interleavedPacketLen_of_isPrefix hpre (by omega)]
      split_ifs
      · rfl
      · exact .inl rfl
  · rw [content_header hdollar]
    cases hfound : findHeaderEnd r.fRequest (StringParser.ofString (some r.fRequest) []) 0 with
    | incomplete => rw [messageEnd_of_incomplete (hhead ▸ hdollar) hfound]
    | weAreDone dataRemaining =>
      have hlt : dataRemaining < r.fRequest.length := findHeaderEnd_lt hfound
      rw [messageEnd_of_weAreDone (hhead ▸ hdollar) hfound]
      refine .inr (congrArg Content.header ?_)
      omega

/-- A message at the front of the bytes received is made available, and what is behind it is
held. -/
theorem examine_found (hi : Inv r) (hcomplete : r.complete = false) {n : Nat}
    (hn : messageEnd r.held = some n) :
    ∃ r', r.examine = (some CF_RequestArrived, r') ∧ Inv r' ∧ r'.complete = true ∧
      r'.fRequest = r.held.take n ∧ r'.held = r.held.drop n := by
  rw [Inv.held_of_incomplete hcomplete] at hn ⊢
  obtain ⟨hpos, hle⟩ := messageEnd_le hn
  have hlen := hi.length_fRequest
  have hcontent := content_of_messageEnd hi (by omega)
  rw [hn] at hcontent
  obtain ⟨fIsDataPacket, hexamine⟩ : ∃ fIsDataPacket, r.examine =
      (some CF_RequestArrived, { r.requestArrived (r.requestLen - n) with fIsDataPacket }) := by
    unfold examine
    rcases hcontent with h | h
    · exact ⟨true, by rw [h]⟩
    · exact ⟨false, by rw [h]⟩
  obtain ⟨hi', hsplit⟩ := requestArrived_spec hi hcomplete
    (show r.requestLen - n < r.requestLen by omega) fIsDataPacket
  rw [Inv.held_of_incomplete hcomplete] at hsplit
  have htake : HTTPRequestStream.fRequest
      { r.requestArrived (r.requestLen - n) with fIsDataPacket } = r.fRequest.take n := by
    simp only [HTTPRequestStream.fRequest, requestArrived, List.take_take]
    congr 1
    omega
  refine ⟨_, hexamine, hi', rfl, htake, ?_⟩
  rw [← hsplit, htake, List.drop_left' (List.length_take_of_le hle)]

/-- Without a message, more bytes are needed. A full buffer is handed over, but not if it
begins like a data packet. -/
theorem examine_none (hi : Inv r) (hcomplete : r.complete = false) (hpos : 0 < r.requestLen)
    (hn : messageEnd r.held = none) :
    if r.held.length = kRequestBufferSizeInBytes - 1 ∧ r.held.head? ≠ some 36 then
      ∃ r', r.examine = (some E2BIG, r') ∧ Inv r' ∧ r'.held = []
    else ∃ r', r.examine = (none, r') ∧ Inv r' ∧ r'.complete = false ∧ r'.held = r.held := by
  have hlen := hi.length_fRequest
  obtain ⟨hretreat, hread, hoffset⟩ := hi.whole hcomplete
  have hhead : r.fRequest.head? = r.fRequestBuffer.head? :=
    head?_of_isPrefix (List.take_prefix _ _) (List.ne_nil_of_length_pos (by omega))
  rw [Inv.held_of_incomplete hcomplete] at hn ⊢
  have hcontent := content_of_messageEnd hi hpos
  rw [hn] at hcontent
  unfold examine
  rw [hcontent, hhead, hlen, hoffset]
  by_cases hdollar : r.fRequestBuffer.head? = some 36
  · rw [if_neg fun hboth => hboth.2 hdollar]
    simp only [if_pos hdollar]
    exact ⟨r, rfl, hi, hcomplete, Inv.held_of_incomplete hcomplete⟩
  · simp only [if_neg hdollar]
    by_cases hfull : r.requestLen = kRequestBufferSizeInBytes - 1
    · rw [if_pos ⟨hfull, hdollar⟩, if_pos hfull]
      refine ⟨_, rfl, ⟨hi.size, hi.total, fun _ => hpos, nofun⟩, ?_⟩
      simp [held, hretreat, slice]
    · rw [if_neg fun hboth => hfull hboth.1, if_neg hfull]
      exact ⟨_, rfl, ⟨hi.size, hi.total, hi.nonempty, fun _ => ⟨hretreat, hread, rfl⟩⟩, hcomplete,
        Inv.held_of_incomplete hcomplete⟩

/-! ## Segmentations -/

/-- The ways in which a stream of bytes arrives: in segments, with would-block results
between them. -/
inductive Segmentation : List RecvEvent → Bytes → Prop
  | nil : Segmentation [] []
  | segment {first : UInt8} {rest s : Bytes} {incoming : List RecvEvent} :
      Segmentation incoming s → Segmentation (.segment first rest :: incoming) (first :: rest ++ s)
  | wouldBlock {s : Bytes} {incoming : List RecvEvent} :
      Segmentation incoming s → Segmentation (.failed .eagain :: incoming) s

theorem Segmentation.putBack {s : Bytes} {incoming : List RecvEvent} (h : Segmentation incoming s)
    (data : Bytes) : Segmentation (Socket.putBack data incoming) (data ++ s) := by
  cases data with
  | nil => exact h
  | cons first rest => exact h.segment

theorem exists_segmentation (s : Bytes) : ∃ incoming, Segmentation incoming s :=
  ⟨Socket.putBack s [], by simpa using Segmentation.nil.putBack s⟩

theorem length_putBack_drop_le (first : UInt8) (rest : Bytes) (n : Nat)
    (incoming : List RecvEvent) :
    (Socket.putBack ((first :: rest).drop n) incoming).length ≤ incoming.length + 1 := by
  cases (first :: rest).drop n <;> simp [Socket.putBack]

/-- A stream and its socket hold and have yet to receive the bytes `s`, of which the first
one stands at `base` in all bytes received. -/
structure Holds (r : HTTPRequestStream) (fSocket : Socket) (base : Nat) (s : Bytes) : Prop where
  inv : Inv r
  connected : fSocket.connected = true
  stream : ∃ t, Segmentation fSocket.incoming t ∧ s = r.held ++ t
  base_eq : fSocket.received.length = base + r.held.length

/-- Between the calls, the part of a message that is held has been looked at. -/
structure Ready (r : HTTPRequestStream) (fSocket : Socket) (base : Nat) (s : Bytes) : Prop
    extends Holds r fSocket base s where
  waiting : r.complete = false → messageEnd r.held = none ∧
    (r.held.length = kRequestBufferSizeInBytes - 1 → r.held.head? = some 36)

variable {base n size : Nat} {s m p : Bytes}

theorem Inv.length_held_le (hi : Inv r) : r.held.length ≤ kRequestBufferSizeInBytes - 1 := by
  have htotal := hi.total
  cases hcomplete : r.complete with
  | true =>
    rw [hi.length_held hcomplete]
    omega
  | false =>
    rw [Inv.held_of_incomplete hcomplete, hi.length_fRequest]
    omega

theorem Holds.prefix (h : Holds r fSocket base s) : r.held <+: s := by
  obtain ⟨t, -, rfl⟩ := h.stream
  exact List.prefix_append _ _

theorem Holds.ready (h : Holds r fSocket base s) (hnil : r.held = []) : Ready r fSocket base s where
  toHolds := h
  waiting _ := by
    rw [hnil]
    exact ⟨messageEnd_nil, nofun⟩

/-- A socket from which no call gets an error other than that it is not connected. -/
def Mute (fSocket : Socket) : Prop :=
  fSocket.connected = false ∨ ∃ s, Segmentation fSocket.incoming s

/-- What a call of `ReadRequest` comes to, over a stream of bytes `s` of which `size` events
were left to receive. -/
inductive Outcome (base : Nat) (s : Bytes) (size : Nat) :
    CF_Error → HTTPRequestStream → Socket → Prop
  | waits {r : HTTPRequestStream} {fSocket : Socket} : Ready r fSocket base s →
      r.complete = false → fSocket.incoming.length < size ∨ fSocket.incoming = [] →
      Outcome base s size CF_NoErr r fSocket
  | stuck {err : CF_Error} {r : HTTPRequestStream} {fSocket : Socket} : Inv r →
      r.complete = false → r.held <+: s → messageEnd r.held = none →
      r.held.length = kRequestBufferSizeInBytes - 1 → r.held.head? = some 36 → Mute fSocket →
      err ≠ CF_RequestArrived → Outcome base s size err r fSocket
  | arrived {r : HTTPRequestStream} {fSocket : Socket} {p : Bytes} {n : Nat} : p <+: s →
      p.length ≤ kRequestBufferSizeInBytes - 1 → messageEnd p = some n →
      Ready r fSocket (base + n) (s.drop n) → r.complete = true → r.fRequest = s.take n →
      fSocket.incoming.length ≤ size → Outcome base s size CF_RequestArrived r fSocket
  | tooLong {r : HTTPRequestStream} {fSocket : Socket} :
      kRequestBufferSizeInBytes - 1 ≤ s.length →
      messageEnd (s.take (kRequestBufferSizeInBytes - 1)) = none → s.head? ≠ some 36 →
      Ready r fSocket (base + (kRequestBufferSizeInBytes - 1))
        (s.drop (kRequestBufferSizeInBytes - 1)) →
      fSocket.incoming.length ≤ size → Outcome base s size E2BIG r fSocket

/-! ## One call -/

/-- A message at the front of what is held is made available. -/
theorem Holds.examine_found (h : Holds x fSocket base s) (hcomplete : x.complete = false)
    (hn : messageEnd x.held = some n) :
    ∃ r', x.examine = (some CF_RequestArrived, r') ∧ Ready r' fSocket (base + n) (s.drop n) ∧
      r'.complete = true ∧ r'.fRequest = s.take n ∧ r'.held = x.held.drop n := by
  obtain ⟨t, hseg, rfl⟩ := h.stream
  have hbase := h.base_eq
  obtain ⟨hpos, hle⟩ := messageEnd_le hn
  obtain ⟨r', hexamine, hi', hcomplete', hrequest, hheld⟩ :=
    HTTPRequestStream.examine_found h.inv hcomplete hn
  refine ⟨r', hexamine, ⟨⟨hi', h.connected, ⟨t, hseg, ?_⟩, ?_⟩, ?_⟩, hcomplete', ?_, hheld⟩
  · rw [hheld, List.drop_append_of_le_length hle]
  · rw [hheld, hbase, List.length_drop]
    omega
  · intro hfalse
    simp [hcomplete'] at hfalse
  · rw [hrequest, List.take_append_of_le_length hle]

/-- A full buffer without a message is handed over. -/
theorem Holds.examine_full (h : Holds x fSocket base s) (hcomplete : x.complete = false)
    (hpos : 0 < x.requestLen) (hn : messageEnd x.held = none)
    (hfull : x.held.length = kRequestBufferSizeInBytes - 1) (hdollar : x.held.head? ≠ some 36) :
    ∃ r', x.examine = (some E2BIG, r') ∧ r'.held = [] ∧
      Ready r' fSocket (base + (kRequestBufferSizeInBytes - 1))
        (s.drop (kRequestBufferSizeInBytes - 1)) := by
  obtain ⟨t, hseg, rfl⟩ := h.stream
  have hnone := examine_none h.inv hcomplete hpos hn
  rw [if_pos ⟨hfull, hdollar⟩] at hnone
  obtain ⟨r', hexamine, hi', hheld⟩ := hnone
  refine ⟨r', hexamine, hheld, ?_⟩
  rw [List.drop_left' hfull]
  refine Holds.ready ⟨hi', h.connected, ⟨t, hseg, by rw [hheld, List.nil_append]⟩, ?_⟩ hheld
  rw [hheld, h.base_eq, hfull]
  rfl

/-- Otherwise more bytes are needed. -/
theorem Holds.examine_more (h : Holds x fSocket base s) (hcomplete : x.complete = false)
    (hpos : 0 < x.requestLen) (hn : messageEnd x.held = none)
    (hroom : x.held.length = kRequestBufferSizeInBytes - 1 → x.held.head? = some 36) :
    ∃ r', x.examine = (none, r') ∧ r'.complete = false ∧ r'.held = x.held ∧
      Ready r' fSocket base s := by
  have hnone := examine_none h.inv hcomplete hpos hn
  rw [if_neg fun hboth => hboth.2 (hroom hboth.1)] at hnone
  obtain ⟨r', hexamine, hi', hcomplete', hheld⟩ := hnone
  refine ⟨r', hexamine, hcomplete', hheld, ⟨hi', h.connected, ?_, ?_⟩, fun _ => ?_⟩
  · rw [hheld]
    exact h.stream
  · rw [hheld]
    exact h.base_eq
  · rw [hheld]
    exact ⟨hn, hroom⟩

/-- One look at what is held. -/
theorem Holds.examine (h : Holds x fSocket base s) (hcomplete : x.complete = false)
    (hpos : 0 < x.requestLen) (hsize : fSocket.incoming.length ≤ size) :
    (∃ err r', x.examine = (some err, r') ∧ Outcome base s size err r' fSocket) ∨
      ∃ r', x.examine = (none, r') ∧ r'.complete = false ∧ Ready r' fSocket base s := by
  have hle := h.inv.length_held_le
  cases hn : messageEnd x.held with
  | some n =>
    obtain ⟨r', hexamine, hr', hcomplete', hrequest, -⟩ := h.examine_found hcomplete hn
    exact .inl ⟨_, r', hexamine, .arrived h.prefix hle hn hr' hcomplete' hrequest hsize⟩
  | none =>
    by_cases hroom : x.held.length = kRequestBufferSizeInBytes - 1 → x.held.head? = some 36
    · obtain ⟨r', hexamine, hcomplete', -, hr'⟩ := h.examine_more hcomplete hpos hn hroom
      exact .inr ⟨r', hexamine, hcomplete', hr'⟩
    · obtain ⟨hfull, hdollar⟩ := Classical.not_imp.mp hroom
      obtain ⟨r', hexamine, -, hr'⟩ := h.examine_full hcomplete hpos hn hfull hdollar
      have hne : x.held ≠ [] := List.ne_nil_of_length_pos (by rw [hfull]; decide)
      obtain ⟨t, -, rfl⟩ := h.stream
      refine .inl ⟨_, r', hexamine, .tooLong ?_ ?_ ?_ hr' hsize⟩
      · rw [List.length_append, hfull]
        omega
      · rwa [List.take_left' hfull]
      · rwa [List.head?_append_of_ne_nil _ hne]

/-- An error that says to try again ends the call. -/
theorem receive_again (hi : Inv r) (hcomplete : r.complete = false)
    (hread : fSocket.read (kRequestBufferSizeInBytes - r.fCurOffset - 1) =
      ⟨EAGAIN, none, fSocket'⟩) : r.receive fSocket = some (.error CF_NoErr, fSocket') := by
  have hfailed := receive_failed fSocket hi hcomplete
  rw [hread] at hfailed
  exact hfailed (by decide : EAGAIN ≠ OS_NoErr)

theorem Mute.read_zero (h : Mute fSocket) :
    ∃ err fSocket', fSocket.read 0 = ⟨err, none, fSocket'⟩ ∧ Mute fSocket' ∧
      (err = EAGAIN ∨ err = ENOTCONN) := by
  cases hconnected : fSocket.connected with
  | false => exact ⟨_, fSocket, by simp [Socket.read, hconnected], h, .inr rfl⟩
  | true =>
    rcases h with hfalse | ⟨s, hseg⟩
    · cases hfalse.symm.trans hconnected
    · unfold Socket.read
      simp only [hconnected, Bool.not_true, Bool.false_eq_true, if_false]
      cases hincoming : fSocket.incoming with
      | nil => exact ⟨_, _, rfl, .inr ⟨_, hseg⟩, .inl rfl⟩
      | cons event incoming =>
        rw [hincoming] at hseg
        cases hseg with
        | segment => exact ⟨_, _, rfl, .inl rfl, .inr rfl⟩
        | wouldBlock hseg => exact ⟨_, _, rfl, .inr ⟨_, hseg⟩, .inl rfl⟩

/-- A full buffer cannot receive anything. -/
theorem receive_full (hi : Inv r) (hcomplete : r.complete = false)
    (hfull : r.held.length = kRequestBufferSizeInBytes - 1) (hmute : Mute fSocket) :
    ∃ err fSocket', r.receive fSocket = some (.error err, fSocket') ∧ Mute fSocket' ∧
      err ≠ CF_RequestArrived := by
  obtain ⟨-, -, hoffset⟩ := hi.whole hcomplete
  rw [Inv.held_of_incomplete hcomplete, hi.length_fRequest] at hfull
  have hroom : kRequestBufferSizeInBytes - r.fCurOffset - 1 = 0 := by omega
  obtain ⟨err, socket, hread, hmute', herr⟩ := hmute.read_zero
  have hfailed := receive_failed fSocket hi hcomplete (by
    rw [hroom, hread]
    show err ≠ OS_NoErr
    rcases herr with rfl | rfl <;> decide)
  rw [hroom, hread] at hfailed
  refine ⟨_, _, hfailed, hmute', ?_⟩
  show (if err = EAGAIN then CF_NoErr else err) ≠ CF_RequestArrived
  rcases herr with rfl | rfl <;> decide

/-- A segment is put behind what is held, as far as it fits. -/
theorem Ready.receive_segment {first : UInt8} {rest : Bytes} {incoming : List RecvEvent}
    (h : Ready r fSocket base s) (hcomplete : r.complete = false)
    (hroom : r.held.length ≠ kRequestBufferSizeInBytes - 1)
    (hincoming : fSocket.incoming = .segment first rest :: incoming) :
    ∃ x fSocket', r.receive fSocket = some (.ok x, fSocket') ∧ Holds x fSocket' base s ∧
      x.complete = false ∧ 0 < x.requestLen ∧
      x.held = r.held ++ (first :: rest).take (kRequestBufferSizeInBytes - 1 - r.held.length) ∧
      fSocket'.incoming = Socket.putBack
        ((first :: rest).drop (kRequestBufferSizeInBytes - 1 - r.held.length)) incoming := by
  obtain ⟨t, hseg, rfl⟩ := h.stream
  obtain ⟨-, -, hoffset⟩ := h.inv.whole hcomplete
  have hle := h.inv.length_held_le
  have hbase := h.base_eq
  have hlen := h.inv.length_fRequest
  rw [← Inv.held_of_incomplete hcomplete] at hlen
  have hspace : kRequestBufferSizeInBytes - r.fCurOffset - 1 =
      kRequestBufferSizeInBytes - 1 - r.held.length := by omega
  generalize hn : kRequestBufferSizeInBytes - 1 - r.held.length = n at *
  have hn0 : n ≠ 0 := by omega
  have hread := Socket.read_segment h.connected hincoming hn0
  obtain ⟨x, hreceive, hix, hcx, hpos, hheld⟩ :=
    receive_data fSocket h.inv hcomplete
      (by rw [hspace, hread]) (by rw [hspace, hread]) (by simp [hn0])
      (by rw [hspace]; exact List.length_take_le _ _)
  rw [hspace, hread] at hreceive
  refine ⟨x, _, hreceive, ⟨hix, h.connected, ?_, ?_⟩, hcx, hpos, hheld, rfl⟩
  · rw [hincoming] at hseg
    cases hseg with
    | segment hseg =>
      refine ⟨_, hseg.putBack _, ?_⟩
      rw [hheld, List.append_assoc, ← List.append_assoc (List.take n _), List.take_append_drop]
  · rw [hheld, List.length_append, List.length_append, hbase, Nat.add_assoc]

/-- What is received next is put behind what is held. -/
theorem Ready.receive (h : Ready r fSocket base s) (hcomplete : r.complete = false) :
    (∃ err fSocket', r.receive fSocket = some (.error err, fSocket') ∧
        Outcome base s fSocket.incoming.length err r fSocket') ∨
      ∃ x fSocket', r.receive fSocket = some (.ok x, fSocket') ∧ Holds x fSocket' base s ∧
        x.complete = false ∧ 0 < x.requestLen ∧
        fSocket'.incoming.length ≤ fSocket.incoming.length := by
  obtain ⟨t, hseg, rfl⟩ := h.stream
  obtain ⟨hnone, hdollar⟩ := h.waiting hcomplete
  by_cases hfull : r.held.length = kRequestBufferSizeInBytes - 1
  · obtain ⟨err, socket, hreceive, hmute, herr⟩ :=
      receive_full h.inv hcomplete hfull (.inr ⟨t, hseg⟩)
    exact .inl ⟨err, socket, hreceive, .stuck h.inv hcomplete (List.prefix_append _ _) hnone hfull
      (hdollar hfull) hmute herr⟩
  · cases hincoming : fSocket.incoming with
    | nil =>
      have hagain := receive_again h.inv hcomplete (Socket.read_nil h.connected hincoming _)
      exact .inl ⟨_, _, hagain, .waits h hcomplete (.inr hincoming)⟩
    | cons event incoming =>
      rw [hincoming] at hseg
      cases hseg with
      | segment hseg =>
        obtain ⟨x, socket, hreceive, hx, hcx, hpos, -, hrest⟩ :=
          h.receive_segment hcomplete hfull hincoming
        refine .inr ⟨x, socket, hreceive, hx, hcx, hpos, ?_⟩
        rw [hrest]
        exact length_putBack_drop_le _ _ _ _
      | wouldBlock hseg =>
        have hagain := receive_again h.inv hcomplete
          (Socket.read_wouldBlock h.connected hincoming _)
        refine .inl ⟨_, _, hagain, ?_⟩
        refine .waits ⟨⟨h.inv, rfl, ⟨t, hseg, rfl⟩, h.base_eq⟩, h.waiting⟩ hcomplete (.inl ?_)
        exact Nat.lt_succ_self _

theorem Outcome.of_le {size' : Nat} (h : Outcome base s size err r fSocket) (hle : size ≤ size') :
    Outcome base s size' err r fSocket := by
  cases h with
  | waits hr hc hfewer => exact .waits hr hc (hfewer.imp_left hle.trans_lt')
  | stuck hi hc hpre hn hfull hdollar hmute herr =>
    exact .stuck hi hc hpre hn hfull hdollar hmute herr
  | arrived hpre hfits hn hr hc hrequest hsize =>
    exact .arrived hpre hfits hn hr hc hrequest (hsize.trans hle)
  | tooLong hfull hn hdollar hr hsize => exact .tooLong hfull hn hdollar hr (hsize.trans hle)

/-- The loop of `ReadRequest`, by induction on its rounds. -/
theorem Ready.readLoop (h : Ready r fSocket base s) (hcomplete : r.complete = false) :
    ∃ err r' fSocket', r.readLoop fSocket = some (err, r', fSocket') ∧
      Outcome base s fSocket.incoming.length err r' fSocket' := by
  fun_induction HTTPRequestStream.readLoop r fSocket with
  | case1 r fSocket hreceive =>
    rcases h.receive hcomplete with ⟨_, _, h', -⟩ | ⟨_, _, h', -⟩ <;> cases hreceive.symm.trans h'
  | case2 r fSocket err socket hreceive =>
    rcases h.receive hcomplete with ⟨_, _, h', hout⟩ | ⟨_, _, h', -⟩
    · cases hreceive.symm.trans h'
      exact ⟨_, _, _, rfl, hout⟩
    · cases hreceive.symm.trans h'
  | case3 r fSocket received socket hreceive err r' hexamine =>
    rcases h.receive hcomplete with ⟨_, _, h', -⟩ | ⟨_, _, h', hx, hcx, hpos, hsize⟩
    · cases hreceive.symm.trans h'
    · cases hreceive.symm.trans h'
      rcases hx.examine hcx hpos hsize with ⟨_, _, h', hout⟩ | ⟨_, h', -⟩
      · cases hexamine.symm.trans h'
        exact ⟨_, _, _, rfl, hout⟩
      · cases hexamine.symm.trans h'
  | case4 r fSocket received socket hreceive r' hexamine ih =>
    rcases h.receive hcomplete with ⟨_, _, h', -⟩ | ⟨_, _, h', hx, hcx, hpos, hsize⟩
    · cases hreceive.symm.trans h'
    · cases hreceive.symm.trans h'
      rcases hx.examine hcx hpos le_rfl with ⟨_, _, h', -⟩ | ⟨_, h', hc', hr'⟩
      · cases hexamine.symm.trans h'
      · cases hexamine.symm.trans h'
        obtain ⟨err, r'', socket', hloop, hout⟩ := ih hr' hc'
        exact ⟨err, r'', socket', hloop, hout.of_le hsize⟩

/-- The bytes left from the last request are held, and looked at if there are any. -/
theorem Ready.takeLeftover (h : Ready r fSocket base s) :
    ∃ newOffset taken, r.takeLeftover = some (newOffset, taken) ∧ taken.complete = false ∧
      Holds taken fSocket base s ∧ taken.held = r.held ∧
      (newOffset = 0 ∧ Ready taken fSocket base s ∨ newOffset ≠ 0 ∧ 0 < taken.requestLen) := by
  obtain ⟨newOffset, taken, htake, hit, hct, hheld, hpos⟩ := takeLeftover_spec h.inv
  have htaken : Holds taken fSocket base s :=
    ⟨hit, h.connected, by rw [hheld]; exact h.stream, by rw [hheld]; exact h.base_eq⟩
  refine ⟨newOffset, taken, htake, hct, htaken, hheld, ?_⟩
  rcases eq_or_ne newOffset 0 with rfl | hne
  · cases hcomplete : r.complete with
    | true =>
      have hzero := newOffset_of_takeLeftover htake hcomplete
      rw [← h.inv.length_held hcomplete] at hzero
      exact .inl ⟨rfl, htaken.ready (hheld.trans (List.eq_nil_of_length_eq_zero hzero.symm))⟩
    | false => exact .inl ⟨rfl, htaken, fun _ => hheld ▸ h.waiting hcomplete⟩
  · exact .inr ⟨hne, hpos hne⟩

/-- One call over a segmentation. -/
theorem Ready.readRequest (h : Ready r fSocket base s) :
    ∃ err r' fSocket', r.readRequest fSocket = some (err, r', fSocket') ∧
      Outcome base s fSocket.incoming.length err r' fSocket' := by
  obtain ⟨newOffset, taken, htake, hct, htaken, -, ⟨rfl, hready⟩ | ⟨hne, hpos⟩⟩ := h.takeLeftover
  · rw [HTTPRequestStream.readRequest, htake, Option.bind_some]
    exact hready.readLoop hct
  · rw [HTTPRequestStream.readRequest, htake, Option.bind_some]
    simp only [if_neg hne]
    rcases htaken.examine hct hpos le_rfl with ⟨err, r', hexamine, hout⟩ | ⟨r', hexamine, hc', hr'⟩
    · rw [hexamine]
      exact ⟨_, _, _, rfl, hout⟩
    · rw [hexamine]
      exact hr'.readLoop hc'

/-! ## Repeated calls -/

/-- A message that a call has found: where it ends in all bytes received, and its bytes. -/
def arrival (err : CF_Error) (r : HTTPRequestStream) (fSocket : Socket) : List (Nat × Bytes) :=
  if err = CF_RequestArrived then [(fSocket.received.length - r.fRetreatBytes, r.fRequest)] else []

/-- The messages that a number of calls find. -/
def arrivals : Nat → HTTPRequestStream → Socket → List (Nat × Bytes)
  | 0, _, _ => []
  | calls + 1, r, fSocket =>
    match r.readRequest fSocket with
    | none => []
    | some (err, r, fSocket) => arrival err r fSocket ++ arrivals calls r fSocket

/-- From some number of calls on, the messages found are `ms`. -/
def Produces (r : HTTPRequestStream) (fSocket : Socket) (ms : List (Nat × Bytes)) : Prop :=
  ∃ calls, ∀ more, arrivals (calls + more) r fSocket = ms

variable {ms ms' : List (Nat × Bytes)}

theorem Produces.unique (h : Produces r fSocket ms) (h' : Produces r fSocket ms') : ms = ms' := by
  obtain ⟨calls, h⟩ := h
  obtain ⟨calls', h'⟩ := h'
  rw [← h calls', ← h' calls, Nat.add_comm]

theorem arrivals_succ {calls : Nat} (h : r.readRequest fSocket = some (err, r', fSocket')) :
    arrivals (calls + 1) r fSocket = arrival err r' fSocket' ++ arrivals calls r' fSocket' := by
  rw [arrivals, h]

/-- A call, and the calls after it. -/
theorem produces_iff (h : r.readRequest fSocket = some (err, r', fSocket')) :
    Produces r fSocket ms ↔ ∃ ms', Produces r' fSocket' ms' ∧
      ms = arrival err r' fSocket' ++ ms' := by
  constructor
  · rintro ⟨calls, hms⟩
    have hstep (more : Nat) :
        arrival err r' fSocket' ++ arrivals (calls + more) r' fSocket' = ms := by
      rw [← arrivals_succ h, Nat.add_assoc]
      exact hms (more + 1)
    refine ⟨arrivals calls r' fSocket', ⟨calls, fun more => ?_⟩, (hstep 0).symm⟩
    exact List.append_cancel_left ((hstep more).trans (hstep 0).symm)
  · rintro ⟨ms', ⟨calls, hms⟩, rfl⟩
    refine ⟨calls + 1, fun more => ?_⟩
    rw [Nat.add_right_comm, arrivals_succ h, hms]

theorem arrival_of_ne (h : err ≠ CF_RequestArrived) : arrival err r fSocket = [] := if_neg h

theorem Ready.arrival (h : Ready r fSocket (base + n) (s.drop n)) (hcomplete : r.complete = true)
    (hrequest : r.fRequest = s.take n) :
    arrival CF_RequestArrived r fSocket = [(base + n, s.take n)] := by
  have hbase := h.base_eq
  rw [h.inv.length_held hcomplete] at hbase
  rw [HTTPRequestStream.arrival, if_pos rfl, hrequest, hbase, Nat.add_sub_cancel]

theorem readRequest_of_incomplete (hcomplete : r.complete = false) :
    r.readRequest fSocket = r.readLoop fSocket := by
  simp [HTTPRequestStream.readRequest, HTTPRequestStream.takeLeftover, hcomplete]

/-- Nothing is found any more where nothing is left to receive. -/
theorem Ready.produces_nil (h : Ready r fSocket base s) (hcomplete : r.complete = false)
    (hincoming : fSocket.incoming = []) : Produces r fSocket [] := by
  have hagain := receive_again h.inv hcomplete (Socket.read_nil h.connected hincoming _)
  have hread : r.readRequest fSocket = some (CF_NoErr, r, fSocket) :=
    (readRequest_of_incomplete hcomplete).trans (readLoop_error hagain)
  refine ⟨0, fun calls => ?_⟩
  rw [Nat.zero_add]
  induction calls with
  | zero => rfl
  | succ calls ih => rw [arrivals_succ hread, ih, arrival_of_ne (by decide), List.nil_append]

/-- Nothing is found any more once the buffer is full. -/
theorem arrivals_of_full (hi : Inv r) (hcomplete : r.complete = false)
    (hfull : r.held.length = kRequestBufferSizeInBytes - 1) (hmute : Mute fSocket) (calls : Nat) :
    arrivals calls r fSocket = [] := by
  induction calls generalizing fSocket with
  | zero => rfl
  | succ calls ih =>
    obtain ⟨err, socket, hreceive, hmute', herr⟩ := receive_full hi hcomplete hfull hmute
    have hread := (readRequest_of_incomplete hcomplete).trans (readLoop_error hreceive)
    rw [arrivals_succ hread, ih hmute', arrival_of_ne herr, List.nil_append]

/-! ## Streams whose messages are told apart -/

/-- The bytes from `base` on, whose messages are told apart: each of them is `Distinct`, as
far as the bytes behind it fit into the buffer with it. What fills the buffer without a
message is handed over, but what begins like a data packet then stays there. -/
inductive Separates : Nat → Bytes → List (Nat × Bytes) → Prop
  | tail {base : Nat} {s : Bytes} : Unfinished s → s.length < kRequestBufferSizeInBytes - 1 →
      Separates base s []
  | packetTooLong {base : Nat} {s : Bytes} : Unfinished (s.take (kRequestBufferSizeInBytes - 1)) →
      kRequestBufferSizeInBytes - 1 ≤ s.length → s.head? = some 36 → Separates base s []
  | headerTooLong {base : Nat} {s : Bytes} {ms : List (Nat × Bytes)} :
      Unfinished (s.take (kRequestBufferSizeInBytes - 1)) →
      kRequestBufferSizeInBytes - 1 ≤ s.length → s.head? ≠ some 36 →
      Separates (base + (kRequestBufferSizeInBytes - 1)) (s.drop (kRequestBufferSizeInBytes - 1))
        ms → Separates base s ms
  | message {base : Nat} {m rest : Bytes} {ms : List (Nat × Bytes)} :
      m.length ≤ kRequestBufferSizeInBytes - 1 →
      Distinct m (rest.take (kRequestBufferSizeInBytes - 1 - m.length)) →
      Separates (base + m.length) rest ms →
      Separates base (m ++ rest) ((base + m.length, m) :: ms)

/-- What is found of a distinct message in bytes that fit into the buffer. -/
theorem Distinct.messageEnd_of_fits {rest : Bytes}
    (hd : Distinct m (rest.take (kRequestBufferSizeInBytes - 1 - m.length)))
    (hm : m.length ≤ kRequestBufferSizeInBytes - 1) (hp : p <+: m ++ rest)
    (hle : p.length ≤ kRequestBufferSizeInBytes - 1) :
    messageEnd p = if m.length ≤ p.length then some m.length else none := by
  refine hd.messageEnd_prefix ?_
  have htake := List.prefix_take_iff.mpr ⟨hp, hle⟩
  rwa [List.take_append, List.take_of_length_le hm] at htake

/-- Every segmentation of a stream whose messages are told apart gives these messages. -/
theorem Separates.produces (hs : Separates base s ms) (h : Ready r fSocket base s) :
    Produces r fSocket ms := by
  induction hsize : s.length + fSocket.incoming.length using Nat.strongRecOn
    generalizing base s ms r fSocket with
  | _ size ih =>
    obtain ⟨err, r', socket, hread, hout⟩ := h.readRequest
    rw [produces_iff hread]
    cases hout with
    | waits hr hc hfewer =>
      refine ⟨ms, ?_, by rw [arrival_of_ne (by decide), List.nil_append]⟩
      rcases hfewer with hfewer | hincoming
      · exact ih _ (by omega) hs hr rfl
      · have hnil := hr.produces_nil hc hincoming
        obtain ⟨hnone, hdollar⟩ := hr.waiting hc
        obtain ⟨t, hseg, hheld⟩ := hr.stream
        rw [hincoming] at hseg
        cases hseg
        rw [List.append_nil] at hheld
        have hle := hr.inv.length_held_le
        rw [← hheld] at hnone hdollar hle
        cases hs with
        | tail => exact hnil
        | packetTooLong => exact hnil
        | headerTooLong _ hlong hhead => exact absurd (hdollar (le_antisymm hle hlong)) hhead
        | message hm hd _ =>
          rw [hd.messageEnd_of_fits hm List.prefix_rfl hle, if_pos (by simp)] at hnone
          cases hnone
    | stuck hi hc hpre hnone hfull hhead hmute herr =>
      have hnil : Produces r' socket [] := ⟨0, fun more => arrivals_of_full hi hc hfull hmute _⟩
      refine ⟨ms, ?_, by rw [arrival_of_ne herr, List.nil_append]⟩
      cases hs with
      | tail => exact hnil
      | packetTooLong => exact hnil
      | headerTooLong _ _ hhead' =>
        rw [head?_of_isPrefix hpre (List.ne_nil_of_length_pos (by rw [hfull]; decide))] at hhead
        exact absurd hhead hhead'
      | message hm hd _ =>
        rw [hd.messageEnd_of_fits hm hpre hfull.le, if_pos (by rw [hfull]; exact hm)] at hnone
        cases hnone
    | arrived hpre hfits hn hr hc hrequest hsize' =>
      have hpos := (messageEnd_le hn).1
      rw [hr.arrival hc hrequest]
      cases hs with
      | tail hopen =>
        rw [hopen.messageEnd_prefix hpre] at hn
        cases hn
      | packetTooLong hopen =>
        rw [hopen.messageEnd_prefix (List.prefix_take_iff.mpr ⟨hpre, hfits⟩)] at hn
        cases hn
      | headerTooLong hopen =>
        rw [hopen.messageEnd_prefix (List.prefix_take_iff.mpr ⟨hpre, hfits⟩)] at hn
        cases hn
      | message hm hd hs =>
        rw [hd.messageEnd_of_fits hm hpre hfits] at hn
        split_ifs at hn
        cases hn
        rw [List.drop_left] at hr
        rw [List.take_left]
        rw [List.length_append] at hsize
        exact ⟨_, ih _ (by omega) hs hr rfl, rfl⟩
    | tooLong hlong hnone hhead hr hsize' =>
      refine ⟨ms, ?_, by rw [arrival_of_ne (by decide), List.nil_append]⟩
      cases hs with
      | tail _ hshort => omega
      | packetTooLong _ _ hhead' => exact absurd hhead' hhead
      | headerTooLong _ _ _ hs =>
        refine ih _ ?_ hs hr rfl
        rw [List.length_drop]
        unfold kRequestBufferSizeInBytes at hlong ⊢
        omega
      | message hm hd hs =>
        rw [hd.messageEnd_of_fits hm (List.take_prefix _ _) (List.length_take_le _ _),
          if_pos] at hnone
        · cases hnone
        · simp only [List.length_take, List.length_append]
          omega

/-! ## Streams that give the same messages in every segmentation -/

/-- Every segmentation of the bytes `s`, from `base` on, arrives at a stream that holds
nothing and from which the calls find `ms`. -/
def Runs (base : Nat) (s : Bytes) (ms : List (Nat × Bytes)) : Prop :=
  ∀ incoming, Segmentation incoming s → ∃ r fSocket, fSocket.incoming = incoming ∧
    Ready r fSocket base s ∧ r.held = [] ∧ Produces r fSocket ms

/-- A call finds messages behind `base` only. -/
theorem Ready.lt_of_mem_arrivals {calls : Nat} (h : Ready r fSocket base s) {x : Nat × Bytes}
    (hx : x ∈ arrivals calls r fSocket) : base < x.1 := by
  induction calls generalizing base s r fSocket with
  | zero => cases hx
  | succ calls ih =>
    obtain ⟨err, r', socket, hread, hout⟩ := h.readRequest
    rw [arrivals_succ hread, List.mem_append] at hx
    cases hout with
    | waits hr hc _ =>
      rw [arrival_of_ne (by decide)] at hx
      rcases hx with hx | hx
      · cases hx
      · exact ih hr hx
    | stuck hi hc _ _ hfull _ hmute herr =>
      rw [arrival_of_ne herr, arrivals_of_full hi hc hfull hmute] at hx
      rcases hx with hx | hx <;> cases hx
    | arrived hpre hfits hn hr hc hrequest hsize =>
      have hpos := (messageEnd_le hn).1
      rw [hr.arrival hc hrequest, List.mem_singleton] at hx
      rcases hx with rfl | hx
      · exact Nat.lt_add_of_pos_right hpos
      · have := ih hr hx
        omega
    | tooLong hlong hnone hhead hr hsize =>
      rw [arrival_of_ne (by decide)] at hx
      rcases hx with hx | hx
      · cases hx
      · have := ih hr hx
        omega

/-- A segment that fits into the buffer is looked at as a whole, if nothing is held. -/
theorem Ready.readRequest_segment {first : UInt8} {rest : Bytes} {incoming : List RecvEvent}
    (h : Ready r fSocket base s) (hnil : r.held = [])
    (hincoming : fSocket.incoming = .segment first rest :: incoming)
    (hle : (first :: rest).length ≤ kRequestBufferSizeInBytes - 1) :
    ∃ x fSocket', Holds x fSocket' base s ∧ x.complete = false ∧ 0 < x.requestLen ∧
      x.held = first :: rest ∧ fSocket'.incoming = incoming ∧
      r.readRequest fSocket =
        match x.examine with
        | (some err, r') => some (err, r', fSocket')
        | (none, r') => r'.readLoop fSocket' := by
  obtain ⟨newOffset, taken, htake, hct, htaken, hheld, hcases⟩ := h.takeLeftover
  rw [hnil] at hheld
  have hlen := htaken.inv.length_fRequest
  rw [← Inv.held_of_incomplete hct, hheld, List.length_nil] at hlen
  obtain ⟨rfl, hready⟩ : newOffset = 0 ∧ Ready taken fSocket base s := by
    rcases hcases with hzero | ⟨-, hpos⟩
    · exact hzero
    · omega
  obtain ⟨x, socket, hreceive, hx, hcx, hpos, hxheld, hrest⟩ :=
    hready.receive_segment hct (by rw [hheld]; decide) hincoming
  rw [hheld, List.nil_append, List.length_nil, Nat.sub_zero, List.take_of_length_le hle] at hxheld
  rw [hheld, List.length_nil, Nat.sub_zero, List.drop_of_length_le hle] at hrest
  refine ⟨x, socket, hx, hcx, hpos, hxheld, hrest, ?_⟩
  rw [HTTPRequestStream.readRequest, htake, Option.bind_some]
  exact readLoop_ok hreceive

/-- The first segment of a segmentation may be any start of the stream. -/
theorem Runs.first (h : Runs base s ms) (hp : p <+: s) (hne : p ≠ [])
    (hle : p.length ≤ kRequestBufferSizeInBytes - 1) {incoming : List RecvEvent}
    (hseg : Segmentation incoming (s.drop p.length)) :
    ∃ r fSocket x fSocket', Produces r fSocket ms ∧ Holds x fSocket' base s ∧
      x.complete = false ∧ 0 < x.requestLen ∧ x.held = p ∧ fSocket'.incoming = incoming ∧
      r.readRequest fSocket =
        match x.examine with
        | (some err, r') => some (err, r', fSocket')
        | (none, r') => r'.readLoop fSocket' := by
  obtain ⟨t, rfl⟩ := hp
  rw [List.drop_left] at hseg
  cases p with
  | nil => exact absurd rfl hne
  | cons first rest =>
    obtain ⟨r, fSocket, hincoming, hready, hnil, hms⟩ := h _ hseg.segment
    obtain ⟨x, socket, hx⟩ := hready.readRequest_segment hnil hincoming hle
    exact ⟨r, fSocket, x, socket, hms, hx⟩

/-- The message found in the first segment is the first one, and if the segment ends with it,
the other ones do not depend on the segmentation of the bytes behind it. -/
theorem Runs.arrived (h : Runs base s ms) (hp : p <+: s) (hne : p ≠ [])
    (hle : p.length ≤ kRequestBufferSizeInBytes - 1) (hn : messageEnd p = some n) :
    ∃ ms', ms = (base + n, s.take n) :: ms' ∧
      (n = p.length → Runs (base + n) (s.drop n) ms') := by
  have hfirst {incoming : List RecvEvent} (hseg : Segmentation incoming (s.drop p.length)) :
      ∃ r' fSocket' ms', ms = (base + n, s.take n) :: ms' ∧ fSocket'.incoming = incoming ∧
        Ready r' fSocket' (base + n) (s.drop n) ∧ r'.held = p.drop n ∧
        Produces r' fSocket' ms' := by
    obtain ⟨r, fSocket, x, socket, hms, hx, hcx, -, hheld, hincoming, hread⟩ :=
      h.first hp hne hle hseg
    obtain ⟨r', hexamine, hr', hcomplete', hrequest, hrest⟩ :=
      hx.examine_found hcx (by rw [hheld]; exact hn)
    rw [hexamine] at hread
    obtain ⟨ms', hms', heq⟩ := (produces_iff hread).mp hms
    rw [hr'.arrival hcomplete' hrequest] at heq
    exact ⟨r', socket, ms', heq, hincoming, hr', hheld ▸ hrest, hms'⟩
  obtain ⟨incoming, hseg⟩ := exists_segmentation (s.drop p.length)
  obtain ⟨-, -, ms', heq, -⟩ := hfirst hseg
  refine ⟨ms', heq, ?_⟩
  rintro rfl incoming hseg
  obtain ⟨r', socket, ms'', heq', hincoming, hr', hheld, hms⟩ := hfirst hseg
  obtain rfl : ms' = ms'' := (List.cons.inj (heq.symm.trans heq')).2
  exact ⟨r', socket, hincoming, hr', hheld.trans (List.drop_length), hms⟩

/-- What fills the buffer is handed over. -/
theorem Runs.tooLong (h : Runs base s ms) (hlong : kRequestBufferSizeInBytes - 1 ≤ s.length)
    (hnone : messageEnd (s.take (kRequestBufferSizeInBytes - 1)) = none)
    (hhead : s.head? ≠ some 36) :
    Runs (base + (kRequestBufferSizeInBytes - 1)) (s.drop (kRequestBufferSizeInBytes - 1)) ms := by
  intro incoming hseg
  have hlen : (s.take (kRequestBufferSizeInBytes - 1)).length = kRequestBufferSizeInBytes - 1 :=
    List.length_take_of_le hlong
  have hne : s.take (kRequestBufferSizeInBytes - 1) ≠ [] :=
    List.ne_nil_of_length_pos (by rw [hlen]; decide)
  have hpre := List.take_prefix (kRequestBufferSizeInBytes - 1) s
  rw [← hlen] at hseg
  obtain ⟨r, fSocket, x, socket, hms, hx, hcx, hpos, hheld, hincoming, hread⟩ :=
    h.first hpre hne hlen.le hseg
  obtain ⟨r', hexamine, hnil, hr'⟩ := hx.examine_full hcx hpos (hheld ▸ hnone) (hheld ▸ hlen)
    (by rw [hheld, head?_of_isPrefix hpre hne]; exact hhead)
  rw [hexamine] at hread
  obtain ⟨ms', hms', heq⟩ := (produces_iff hread).mp hms
  rw [arrival_of_ne (by decide), List.nil_append] at heq
  exact ⟨r', socket, hincoming, hr', hnil, heq ▸ hms'⟩

/-- Nothing is found in a stream without a message. -/
theorem Runs.nil (h : Runs base s ms) (hshort : s.length < kRequestBufferSizeInBytes - 1)
    (hne : s ≠ []) (hnone : messageEnd s = none) : ms = [] := by
  obtain ⟨r, fSocket, x, socket, hms, hx, hcx, hpos, hheld, hincoming, hread⟩ :=
    h.first List.prefix_rfl hne hshort.le (by rw [List.drop_length]; exact .nil :
      Segmentation [] (s.drop s.length))
  obtain ⟨r', hexamine, hcomplete', -, hr'⟩ := hx.examine_more hcx hpos (hheld ▸ hnone)
    (fun hfull => absurd (hheld ▸ hfull) hshort.ne)
  rw [hexamine] at hread
  have hagain := receive_again hr'.inv hcomplete' (Socket.read_nil hr'.connected hincoming _)
  obtain ⟨ms', hms', rfl⟩ := (produces_iff (hread.trans (readLoop_error hagain))).mp hms
  exact hms'.unique (hr'.produces_nil hcomplete' hincoming)

theorem Runs.lt_of_mem (h : Runs base s ms) {x : Nat × Bytes} (hx : x ∈ ms) : base < x.1 := by
  obtain ⟨incoming, hseg⟩ := exists_segmentation s
  obtain ⟨r, fSocket, -, hready, -, calls, hms⟩ := h incoming hseg
  rw [← hms 0] at hx
  exact hready.lt_of_mem_arrivals hx

/-- Two starts of the stream in which a message is found give the same message. -/
theorem Runs.end_unique {p' : Bytes} {n' : Nat} (h : Runs base s ms) (hp : p <+: s) (hp' : p' <+: s)
    (hle : p.length ≤ kRequestBufferSizeInBytes - 1)
    (hle' : p'.length ≤ kRequestBufferSizeInBytes - 1) (hn : messageEnd p = some n)
    (hn' : messageEnd p' = some n') : n = n' := by
  have hne {p : Bytes} {n : Nat} (hn : messageEnd p = some n) : p ≠ [] := by
    rintro rfl
    rw [messageEnd_nil] at hn
    cases hn
  obtain ⟨ms', heq, -⟩ := h.arrived hp (hne hn) hle hn
  obtain ⟨ms'', heq', -⟩ := h.arrived hp' (hne hn') hle' hn'
  have := congrArg Prod.fst (List.cons.inj (heq.symm.trans heq')).1
  simpa using this

/-- If a message is found in some start of the stream, one is found in what the buffer
takes of it. -/
theorem Runs.isSome (h : Runs base s ms) (hp : p <+: s)
    (hle : p.length ≤ kRequestBufferSizeInBytes - 1) (hn : messageEnd p = some n)
    (hhead : s.head? ≠ some 36) :
    messageEnd (s.take (kRequestBufferSizeInBytes - 1)) = some n := by
  have hne : p ≠ [] := by
    rintro rfl
    rw [messageEnd_nil] at hn
    cases hn
  obtain ⟨ms', rfl, -⟩ := h.arrived hp hne hle hn
  cases hwhole : messageEnd (s.take (kRequestBufferSizeInBytes - 1)) with
  | some n' =>
    rw [h.end_unique hp (List.take_prefix _ _) hle (List.length_take_le _ _) hn hwhole]
  | none =>
    exfalso
    have hnle := (messageEnd_le hn).2
    rcases lt_or_ge s.length (kRequestBufferSizeInBytes - 1) with hshort | hlong
    · rw [List.take_of_length_le hshort.le] at hwhole
      have hs : s ≠ [] := fun hs => hne (List.prefix_nil.mp (hs ▸ hp))
      cases h.nil hshort hs hwhole
    · have hlt := (h.tooLong hlong hwhole hhead).lt_of_mem List.mem_cons_self
      simp only at hlt
      omega

theorem Runs.eq_of_separates (h : Runs base s ms) (hs : Separates base s ms') : ms = ms' := by
  obtain ⟨incoming, hseg⟩ := exists_segmentation s
  obtain ⟨r, fSocket, -, hready, -, hms⟩ := h incoming hseg
  exact hms.unique (hs.produces hready)

/-- A stream that gives the same messages in every segmentation, up to its first message. -/
inductive Step (base : Nat) (s : Bytes) (ms : List (Nat × Bytes)) : Prop
  | last : Separates base s ms → Step base s ms
  | tooLong : Unfinished (s.take (kRequestBufferSizeInBytes - 1)) →
      kRequestBufferSizeInBytes - 1 ≤ s.length → s.head? ≠ some 36 → Step base s ms
  | message {m rest : Bytes} : s = m ++ rest → m.length ≤ kRequestBufferSizeInBytes - 1 →
      messageEnd m = some m.length →
      Distinct m (rest.take (kRequestBufferSizeInBytes - 1 - m.length)) → Step base s ms

theorem Runs.step_of_unfinished (h : Runs base s ms)
    (hopen : Unfinished (s.take (kRequestBufferSizeInBytes - 1))) : Step base s ms := by
  rcases lt_or_ge s.length (kRequestBufferSizeInBytes - 1) with hshort | hlong
  · rw [List.take_of_length_le hshort.le] at hopen
    have hs : Separates base s [] := .tail hopen hshort
    exact .last (h.eq_of_separates hs ▸ hs)
  · by_cases hhead : s.head? = some 36
    · have hs : Separates base s [] := .packetTooLong hopen hlong hhead
      exact .last (h.eq_of_separates hs ▸ hs)
    · exact .tooLong hopen hlong hhead

theorem take_prefix_split {t : Bytes} (h : s.take (kRequestBufferSizeInBytes - 1) = m ++ t) :
    ∃ rest, s = m ++ rest ∧ m.length ≤ kRequestBufferSizeInBytes - 1 ∧
      t = rest.take (kRequestBufferSizeInBytes - 1 - m.length) := by
  have hle : m.length ≤ kRequestBufferSizeInBytes - 1 := by
    have := congrArg List.length h
    simp only [List.length_take, List.length_append] at this
    omega
  obtain ⟨rest, rfl⟩ : m <+: s :=
    (List.prefix_append m t).trans (h ▸ List.take_prefix (kRequestBufferSizeInBytes - 1) s)
  refine ⟨rest, rfl, hle, ?_⟩
  rw [List.take_append, List.take_of_length_le hle] at h
  exact (List.append_cancel_left h).symm

/-- The first step, for a data packet. -/
theorem Runs.step_packet (h : Runs base s ms) (hhead : s.head? = some 36) : Step base s ms := by
  obtain ⟨x, hx⟩ : ∃ x, s.take (kRequestBufferSizeInBytes - 1) = x := ⟨_, rfl⟩
  have hdollar : x.head? = some 36 := by
    subst hx
    cases s with
    | nil => cases hhead
    | cons c s => exact hhead
  by_cases hshort : x.length < 4 ∨ x.length < interleavedPacketLen x
  · exact h.step_of_unfinished (hx ▸ .packet hdollar hshort)
  · obtain ⟨hfour, hlen⟩ := not_or.mp hshort
    have hpacket : 4 ≤ interleavedPacketLen x := Nat.le_add_left 4 _
    have hmlen : (x.take (interleavedPacketLen x)).length = interleavedPacketLen x :=
      List.length_take_of_le (by omega)
    have hsame := interleavedPacketLen_of_isPrefix (List.take_prefix (interleavedPacketLen x) x)
      (by omega)
    have hmdollar : (x.take (interleavedPacketLen x)).head? = some 36 := by
      rw [head?_of_isPrefix (List.take_prefix _ x) (List.ne_nil_of_length_pos (by omega)), hdollar]
    obtain ⟨rest, hs, hle, -⟩ :=
      take_prefix_split (hx.trans (List.take_append_drop (interleavedPacketLen x) x).symm)
    refine .message hs hle ?_ (.packet hmdollar (by omega) (hsame.trans hmlen.symm))
    rw [messageEnd_packet hmdollar, if_neg (by omega), hsame, hmlen]

/-- A first line without blanks. -/
theorem Runs.step_password {text rest : Bytes} {c : UInt8} (h : Runs base s ms)
    (hhead : s.head? ≠ some 36)
    (hx : s.take (kRequestBufferSizeInBytes - 1) = text ++ (c :: rest)) (htext : NoEOL text)
    (hblank : 32 ∉ text) (hc : c = 13 ∨ c = 10) : Step base s ms := by
  have hpre := List.take_prefix (kRequestBufferSizeInBytes - 1) s
  rw [List.append_cons] at hx
  obtain ⟨tail, hs, hle, hrest⟩ := take_prefix_split hx
  have htexthead : text.head? ≠ some 36 :=
    head?_ne_of_isPrefix hhead ⟨c :: tail, by rw [hs, List.append_cons]⟩
  have hno : 32 ∉ text ++ ([c] ++ []) := by
    rcases hc with rfl | rfl <;> simpa using hblank
  have hnil : StartsText [] := startsText_nil
  have hend : messageEnd (text ++ [c]) = some (text ++ [c]).length :=
    messageEnd_password htexthead htext (isEOL_singleton hc hnil) hnil hno
  have hwhole := h.isSome (hs ▸ List.prefix_append _ tail) hle hend hhead
  have hstart : StartsText rest := by
    rcases startsText_or_isEOL rest with hstart | ⟨e, more, rfl, he⟩
    · exact hstart
    · -- the blank line would be a part of the message
      obtain ⟨d, u, rfl, hd⟩ : ∃ d u, e = d :: u ∧ (d = 13 ∨ d = 10) := by
        cases he with
        | crlf => exact ⟨13, [10], rfl, .inl rfl⟩
        | lf => exact ⟨10, [], rfl, .inr rfl⟩
        | cr => exact ⟨13, [], rfl, .inl rfl⟩
      have hlonger : text ++ [c, d] <+: s.take (kRequestBufferSizeInBytes - 1) := by
        rw [hx]
        exact ⟨u ++ more, by simp⟩
      have hfits := hlonger.length_le.trans (List.length_take_le _ _)
      have hsame := h.end_unique (hs ▸ List.prefix_append _ tail) (hlonger.trans hpre) hle hfits
        hend (messageEnd_eol_eol htexthead htext hblank hc hd)
      simp at hsame
  refine .message hs hle hend (.password rfl htexthead htext hblank hc (hrest ▸ hstart) ?_)
  intro hmem
  rw [← hrest] at hmem
  rw [hx, List.append_assoc] at hwhole
  have hlt := lt_of_messageEnd_text htexthead htext (isEOL_singleton hc hstart) hstart
    (by simp [hmem]) hwhole
  omega

/-- A first line with a blank. -/
theorem Runs.step_blankFirst (h : Runs base s ms) (hhead : s.head? ≠ some 36)
    (hblank : BlankFirst (s.take (kRequestBufferSizeInBytes - 1))) : Step base s ms := by
  have hpre := List.take_prefix (kRequestBufferSizeInBytes - 1) s
  rcases openHeader_or_header (s.take (kRequestBufferSizeInBytes - 1)) with
    hopen | ⟨m, t, hx, hm⟩
  · exact h.step_of_unfinished (.header (head?_ne_of_isPrefix hhead hpre) hopen (.inr hblank))
  · obtain ⟨rest, hs, hle, ht⟩ := take_prefix_split hx
    have hfirst : BlankFirst m := by
      rcases hblank.of_isPrefix (hx ▸ List.prefix_append m t) with hnone | hfirst
      · exact absurd hnone hm.not_noEOL
      · exact hfirst
    have hmhead : m.head? ≠ some 36 := head?_ne_of_isPrefix hhead (hs ▸ List.prefix_append m rest)
    have hend := messageEnd_header hmhead hm hfirst.mem (left_nil m)
    rw [List.append_nil, List.length_nil, Nat.sub_zero] at hend
    have hwhole := h.isSome (hs ▸ List.prefix_append m rest) hle hend hhead
    refine .message hs hle hend (.header hmhead hm hfirst fun hcr hlf => ?_)
    -- with the LF the search would end one byte later
    obtain ⟨left, hleft⟩ : ∃ left, t = 10 :: left := by
      rw [← ht] at hlf
      cases t with
      | nil => cases hlf
      | cons c left => exact ⟨left, by rw [Option.some.inj hlf]⟩
    rw [hx, hleft, messageEnd_header hmhead hm hfirst.mem (.lf hcr)] at hwhole
    simp only [List.length_append, List.length_cons, Option.some.injEq] at hwhole
    omega

/-- The first step, for a header. -/
theorem Runs.step_header (h : Runs base s ms) (hhead : s.head? ≠ some 36) : Step base s ms := by
  have hxhead := head?_ne_of_isPrefix hhead (List.take_prefix (kRequestBufferSizeInBytes - 1) s)
  rcases noEOL_or_line (s.take (kRequestBufferSizeInBytes - 1)) with
    hnone | ⟨text, e, rest, hx, htext, he⟩
  · exact h.step_of_unfinished (.header hxhead (.text hnone) (.inl hnone))
  · by_cases hblank : 32 ∈ text
    · obtain ⟨a, b, rfl⟩ := List.append_of_mem hblank
      refine h.step_blankFirst hhead ⟨a, b ++ (e ++ rest), by rw [hx]; simp, ?_⟩
      exact htext.of_isPrefix (List.prefix_append a _)
    · cases he with
      | crlf => exact h.step_password hhead hx htext hblank (.inl rfl)
      | lf => exact h.step_password hhead hx htext hblank (.inr rfl)
      | cr => exact h.step_password hhead hx htext hblank (.inl rfl)

/-- A stream that gives the same messages in every segmentation has them told apart. -/
theorem Runs.separates (h : Runs base s ms) : Separates base s ms := by
  induction hsize : s.length using Nat.strongRecOn generalizing base s ms with
  | _ size ih =>
    have hstep : Step base s ms := by
      by_cases hhead : s.head? = some 36
      · exact h.step_packet hhead
      · exact h.step_header hhead
    cases hstep with
    | last hs => exact hs
    | tooLong hopen hlong hhead =>
      have hnone := hopen.messageEnd_prefix List.prefix_rfl
      refine .headerTooLong hopen hlong hhead (ih _ ?_ (h.tooLong hlong hnone hhead) rfl)
      rw [List.length_drop]
      unfold kRequestBufferSizeInBytes at hlong ⊢
      omega
    | @message m rest heq hle hend hd =>
      subst heq
      obtain ⟨hpos, -⟩ := messageEnd_le hend
      obtain ⟨ms', rfl, hruns⟩ := h.arrived (List.prefix_append m rest)
        (List.ne_nil_of_length_pos hpos) hle hend
      rw [List.take_left]
      refine .message hle hd (ih _ ?_ ?_ rfl)
      · rw [List.length_append] at hsize
        omega
      · have hrest := hruns rfl
        rwa [List.drop_left] at hrest

/-- The socket of a new stream, over which the bytes `s` arrive. -/
def Receives (state : State) (s : Bytes) : Prop :=
  Fresh state ∧ state.fSocket.connected = true ∧ Segmentation state.fSocket.incoming s

/-- Two segmentations of a stream of bytes give the same messages. -/
def Independent (s : Bytes) : Prop :=
  ∀ a b : State, Receives a s → Receives b s →
    ∃ ms, Produces a.stream a.fSocket ms ∧ Produces b.stream b.fSocket ms

theorem Receives.ready {state : State} (h : Receives state s) :
    Ready state.stream state.fSocket 0 s ∧ state.stream.held = [] := by
  obtain ⟨hfresh, hconnected, hseg⟩ := h
  obtain ⟨hi, hconserved⟩ := hfresh.sound
  obtain ⟨hstream, -, hreceived, hdelivered⟩ := hfresh
  rw [hdelivered, hreceived, List.nil_append] at hconserved
  refine ⟨Holds.ready ⟨hi, hconnected, ⟨s, hseg, ?_⟩, ?_⟩ hconserved, hconserved⟩
  · rw [hconserved, List.nil_append]
  · rw [hconserved, hreceived]
    rfl

theorem exists_receives {incoming : List RecvEvent} (hseg : Segmentation incoming s) :
    ∃ state, state.fSocket.incoming = incoming ∧ Receives state s :=
  ⟨{ stream := { fRequestBuffer := List.replicate kRequestBufferSizeInBytes 0 }
     fSocket := { incoming } }, rfl, ⟨rfl, List.length_replicate, rfl, rfl⟩, rfl, hseg⟩

/-- A stream of bytes gives the same messages in any two segmentations exactly if its messages
are told apart. -/
theorem independent_iff (s : Bytes) : Independent s ↔ ∃ ms, Separates 0 s ms := by
  constructor
  · intro h
    obtain ⟨incoming, hseg⟩ := exists_segmentation s
    obtain ⟨a, -, ha⟩ := exists_receives hseg
    obtain ⟨ms, hms, -⟩ := h a a ha ha
    refine ⟨ms, Runs.separates fun incoming hseg => ?_⟩
    obtain ⟨b, hincoming, hb⟩ := exists_receives hseg
    obtain ⟨ms', hms', hboth⟩ := h a b ha hb
    obtain rfl := hms.unique hms'
    exact ⟨b.stream, b.fSocket, hincoming, hb.ready.1, hb.ready.2, hboth⟩
  · rintro ⟨ms, hs⟩ a b ha hb
    exact ⟨ms, hs.produces ha.ready.1, hs.produces hb.ready.1⟩

/-! ## A password -/

theorem Produces.prefix (h : Produces r fSocket ms) (calls : Nat) :
    arrivals calls r fSocket <+: ms := by
  obtain ⟨calls', h⟩ := h
  rw [← h calls]
  clear h
  induction calls generalizing r fSocket with
  | zero => exact List.nil_prefix
  | succ calls ih =>
    rw [← Nat.add_assoc, arrivals, arrivals]
    cases r.readRequest fSocket with
    | none => exact List.prefix_rfl
    | some result => exact (List.prefix_append_right_inj _).mpr ih

/-- A new stream over which these events arrive. -/
def arriving (incoming : List RecvEvent) : State :=
  { stream := { fRequestBuffer := List.replicate kRequestBufferSizeInBytes 0 }
    fSocket := { incoming } }

/-- A password that arrives in one segment. -/
def wholePassword : State := arriving [.segment 115 (ascii "ecret\r\n")]

/-- The same password, cut inside its line end. -/
def cutPassword : State := arriving [.segment 115 (ascii "ecret\r"), .segment 10 []]

/-- The first call finds the password with its CR LF, but without the LF if it is cut there;
the LF is then a message of its own. -/
theorem password_not_independent :
    arrivals 3 wholePassword.stream wholePassword.fSocket = [(8, ascii "secret\r\n")] ∧
      arrivals 3 cutPassword.stream cutPassword.fSocket = [(7, ascii "secret\r"), (8, [10])] ∧
      ¬ Independent (ascii "secret\r\n") := by
  have hwhole : arrivals 3 wholePassword.stream wholePassword.fSocket =
      [(8, ascii "secret\r\n")] := by decide +kernel
  have hcut : arrivals 3 cutPassword.stream cutPassword.fSocket =
      [(7, ascii "secret\r"), (8, [10])] := by decide +kernel
  refine ⟨hwhole, hcut, fun h => ?_⟩
  obtain ⟨ms, hms, hms'⟩ := h wholePassword cutPassword
    ⟨⟨rfl, List.length_replicate, rfl, rfl⟩, rfl, .segment .nil⟩
    ⟨⟨rfl, List.length_replicate, rfl, rfl⟩, rfl, .segment (.segment .nil)⟩
  have hpre := hms.prefix 3
  have hpre' := hms'.prefix 3
  rw [hwhole] at hpre
  rw [hcut] at hpre'
  obtain ⟨more, rfl⟩ := hpre
  obtain ⟨more', heq⟩ := hpre'
  simp at heq

end HTTPRequestStream

end CxxFramework.Net
