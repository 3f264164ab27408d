import CxxFramework.Http.Base64RequestStream
import CxxFramework.Http.RequestStreamRun
import CxxFramework.Socket.HTTPClientSocket

/-!
# The tunnel over any run

The vectors that the client encodes, in any segments, over repeated calls of `ReadRequest`
with decoding on. What is decoded are the bytes of the vectors, as far as whole groups have
been received, and the messages and the bytes held are what is decoded.

## Main definitions

* `Base64RequestStream.Inv` — where the bytes and the characters stand in their buffers.
* `Base64RequestStream.Carries` — what a stream holds of the characters received.
* `Base64RequestStream.RoundTrip` — what is decoded and handed over is what was encoded.
-/

namespace CxxFramework.Net

open CxxFramework.Core Buffer HTTPRequestStream

namespace Base64RequestStream

/-- The characters that are left of an incomplete group. -/
def left (r : Base64RequestStream) : Bytes :=
  (r.fRequestBuffer.take r.decoded.fCurOffset).drop
    (r.decoded.fCurOffset - r.fEncodedBytesRemaining)

/-- No more bytes are decoded than characters received, and at least a quarter of them. -/
structure Inv (r : Base64RequestStream) : Prop where
  size : r.fRequestBuffer.length = kRequestBufferSizeInBytes
  memSize : r.decoded.fRequestBuffer.length = kRequestBufferSizeInBytes
  offset_le : r.decoded.fCurOffset ≤ kRequestBufferSizeInBytes - 1
  few : r.fEncodedBytesRemaining < 4
  total : r.decoded.requestLen + r.decoded.fRetreatBytes + r.fEncodedBytesRemaining ≤
    r.decoded.fCurOffset
  unread : r.decoded.fRetreatBytesRead = 0
  nonempty : r.decoded.complete = true → 0 < r.decoded.requestLen
  whole : r.decoded.complete = false → r.decoded.fRetreatBytes = 0 ∧
    r.decoded.fCurOffset ≤ 4 * r.decoded.requestLen + r.fEncodedBytesRemaining
  unallocated : r.allocated = false → r.decoded.requestLen = 0

/-- The characters `chars` are received: those of whole groups are decoded, and the others
left. -/
structure Carries (r : Base64RequestStream) (chars : Bytes) : Prop extends Inv r where
  remaining : ∃ front, chars = front ++ r.left ∧ 4 ∣ front.length
  decodes : r.appended = plaintext chars

variable {r r' : Base64RequestStream} {chars data s : Bytes} {fSocket fSocket' : Socket}
  {err : CF_Error}

/-! ## Decoding -/

/-- The loop decodes groups behind what is decoded already. -/
theorem decodeLoop_spec {inSrcData mem beyond : Bytes} {bytesToDecode requestLen consumed : Nat}
    (hs : Encoded s) (hlen : 4 ∣ s.length) (hcount : consumed + s.length = bytesToDecode)
    (hsrc : inSrcData.drop consumed = s ++ 0 :: beyond)
    (hroom : requestLen + (plaintext s).length < mem.length) :
    ∃ mem', decodeLoop inSrcData bytesToDecode mem requestLen consumed =
        some (CF_NoErr, mem', requestLen + (plaintext s).length) ∧ mem'.length = mem.length ∧
      mem'.take (requestLen + (plaintext s).length) = mem.take requestLen ++ plaintext s := by
  induction hn : s.length using Nat.strongRecOn generalizing s mem requestLen consumed with
  | _ n ih =>
    rcases eq_or_ne s [] with rfl | hne
    · have hdone : ¬ consumed < bytesToDecode := by
        rw [← hcount, List.length_nil]
        omega
      rw [decodeLoop, dif_neg hdone]
      exact ⟨mem, rfl, rfl, (List.append_nil _).symm⟩
    · obtain ⟨front, rest, rfl, hfront, hrest, hpos, hstep, hdecode⟩ :=
        base64decode_spec hs hlen hne beyond
      have hplain := List.length_pos_of_ne_nil hpos
      have hbound := (length_plaintext front).2
      rw [List.length_append] at hcount hlen hn
      rw [plaintext_append hfront] at hroom ⊢
      rw [List.length_append] at hroom ⊢
      obtain ⟨mem₁, hwrite⟩ : ∃ mem₁, write mem requestLen (plaintext front ++ [0]) = some mem₁ :=
        ⟨_, write_of_le (by rw [List.length_append, List.length_singleton]; omega)⟩
      have hmem₁ : mem₁.take (requestLen + (plaintext front).length) =
          mem.take requestLen ++ plaintext front := by
        have htake := congrArg (List.take (requestLen + (plaintext front).length))
          (take_write hwrite)
        rw [List.take_take, List.length_append, min_eq_left (by omega), ← List.append_assoc,
          List.take_left' (by simp; omega)] at htake
        exact htake
      have hsrc' : inSrcData.drop (consumed + front.length) = rest ++ 0 :: beyond := by
        rw [← List.drop_drop, hsrc, List.append_assoc, List.drop_left]
      obtain ⟨mem', hloop, hsize, htake⟩ := ih rest.length (by omega) hrest (by omega)
        (by omega : consumed + front.length + rest.length = bytesToDecode) hsrc'
        (by rw [length_write hwrite]; omega :
          requestLen + (plaintext front).length + (plaintext rest).length < mem₁.length) rfl
      rw [decodeLoop, dif_pos (by omega), hsrc]
      simp only [hdecode, hwrite, dif_neg hplain.ne', ← hstep]
      refine ⟨mem', ?_, hsize.trans (length_write hwrite), ?_⟩
      · rw [hloop, Nat.add_assoc]
      · rw [← Nat.add_assoc, htake, hmem₁, List.append_assoc]

/-- The buffer with a NUL behind the whole groups. -/
theorem drop_set_eq {mem : Bytes} {pos n : Nat} (h : pos + n < mem.length) :
    (mem.set (pos + n) 0).drop pos = (mem.drop pos).take n ++ 0 :: mem.drop (pos + n + 1) := by
  rw [List.drop_set, if_neg (by omega), Nat.add_sub_cancel_left, List.set_eq_take_append_cons_drop,
    if_pos (by rw [List.length_drop]; omega), List.drop_drop, Nat.add_assoc]

/-- Decoding characters that stand in the buffer: those of whole groups are appended, and the
buffer is as it was. -/
theorem decodeIncomingData_spec (hi : Inv r) {pos : Nat} (henc : Encoded chars)
    (hbuffer : (r.fRequestBuffer.drop pos).take chars.length = chars)
    (hfits : pos + chars.length < kRequestBufferSizeInBytes)
    (hroom : r.decoded.requestLen + chars.length < kRequestBufferSizeInBytes) :
    ∃ mem', mem'.length = kRequestBufferSizeInBytes ∧
      mem'.take (r.decoded.requestLen + (plaintext chars).length) =
        r.decoded.fRequestBuffer.take r.decoded.requestLen ++ plaintext chars ∧
      r.decodeIncomingData pos chars.length =
        some (CF_NoErr,
          { r with
            decoded :=
              { r.decoded with
                fRequestBuffer := mem'
                requestLen := r.decoded.requestLen + (plaintext chars).length }
            allocated := true
            fEncodedBytesRemaining := chars.length % 4
            appended := r.appended ++ plaintext chars }) := by
  have hlen : (if r.allocated then r.decoded.requestLen else 0) = r.decoded.requestLen := by
    cases hallocated : r.allocated with
    | true => rfl
    | false => exact (hi.unallocated hallocated).symm
  obtain ⟨n, hn⟩ : ∃ n, chars.length - chars.length % 4 = n := ⟨_, rfl⟩
  have hn4 : 4 ∣ n := by omega
  have hgroups : (chars.take n).length = n := List.length_take_of_le (by omega)
  have hplain : plaintext (chars.take n) = plaintext chars := by
    conv => rhs; rw [← List.take_append_drop n chars]
    rw [plaintext_append_of_lt (by rw [hgroups]; exact hn4) (by rw [List.length_drop]; omega)]
  have hbound := (length_plaintext (chars.take n)).2
  have hsize := hi.size
  obtain ⟨endChar, hendChar⟩ : ∃ c, r.fRequestBuffer[pos + n]? = some c :=
    ⟨_, List.getElem?_eq_getElem (by omega)⟩
  have hsrc : ((r.fRequestBuffer.set (pos + n) 0).drop pos).drop 0 =
      chars.take n ++ 0 :: r.fRequestBuffer.drop (pos + n + 1) := by
    rw [List.drop_zero, drop_set_eq (by omega), ← hbuffer, List.take_take, min_eq_left (by omega)]
  obtain ⟨mem', hloop, hmem', htake⟩ :=
    decodeLoop_spec (henc.of_isPrefix (List.take_prefix n chars))
    (by rw [hgroups]; exact hn4) (by omega : 0 + (chars.take n).length = n) hsrc
    (by rw [hi.memSize]; omega : r.decoded.requestLen + (plaintext (chars.take n)).length <
      r.decoded.fRequestBuffer.length)
  rw [hplain] at hloop htake
  refine ⟨mem', hmem'.trans hi.memSize, htake, ?_⟩
  have hslice : slice mem' r.decoded.requestLen (plaintext chars).length = plaintext chars := by
    have hdrop := congrArg (List.drop r.decoded.requestLen) htake
    rw [List.drop_take, Nat.add_sub_cancel_left, List.drop_left'
      (List.length_take_of_le (by rw [hi.memSize]; omega))] at hdrop
    exact hdrop
  have hrestore : (r.fRequestBuffer.set (pos + n) 0).set (pos + n) endChar =
      r.fRequestBuffer := by
    obtain ⟨hlt, rfl⟩ := List.getElem?_eq_some_iff.mp hendChar
    rw [List.set_set, List.set_getElem_self]
  unfold decodeIncomingData
  simp only [hlen, hn, hendChar, Option.bind_some, hloop, Option.map_some, if_true, hrestore,
    Nat.add_sub_cancel_left, hslice]

theorem Inv.length_left (hi : Inv r) : r.left.length = r.fEncodedBytesRemaining := by
  have hsize := hi.size
  have hle := hi.offset_le
  have htotal := hi.total
  rw [left, List.length_drop, List.length_take]
  omega

/-- Decoding what is left and `data` behind it. -/
theorem decodeNewData_spec (hi : Inv r) (hcomplete : r.decoded.complete = false)
    (henc : Encoded (r.left ++ data))
    (hbuffer : (r.fRequestBuffer.take (r.decoded.fCurOffset + data.length)).drop
      (r.decoded.fCurOffset - r.fEncodedBytesRemaining) = r.left ++ data)
    (hfits : r.decoded.fCurOffset + data.length ≤ kRequestBufferSizeInBytes - 1) :
    ∃ x, r.decodeNewData data.length = some x ∧ Inv x ∧ x.decoded.complete = false ∧
      x.appended = r.appended ++ plaintext (r.left ++ data) ∧
      x.decoded.held = r.decoded.held ++ plaintext (r.left ++ data) ∧
      ∃ groups, r.left ++ data = groups ++ x.left ∧ 4 ∣ groups.length := by
  have hleft := hi.length_left
  have htotal := hi.total
  have hsize := hi.size
  obtain ⟨hretreat, hdense⟩ := hi.whole hcomplete
  have hcount : data.length + r.fEncodedBytesRemaining = (r.left ++ data).length := by
    rw [List.length_append, hleft, Nat.add_comm]
  generalize hchars : r.left ++ data = chars at *
  obtain ⟨hlow, hhigh⟩ := length_plaintext chars
  have hdrop : (r.fRequestBuffer.drop (r.decoded.fCurOffset - r.fEncodedBytesRemaining)).take
      chars.length = chars := by
    rw [List.drop_take] at hbuffer
    rw [← hcount, ← hbuffer]
    congr 1
    omega
  unfold kRequestBufferSizeInBytes at hfits
  obtain ⟨mem', hmem', htake, hdecode⟩ := decodeIncomingData_spec hi henc hdrop
    (by unfold kRequestBufferSizeInBytes; omega) (by unfold kRequestBufferSizeInBytes; omega)
  rw [decodeNewData, if_neg (by omega), hcount, hdecode, Option.map_some]
  refine ⟨_, rfl, ⟨hi.size, hmem', ?_, ?_, ?_, hi.unread, ?_, ?_, nofun⟩, hcomplete, rfl, ?_, ?_⟩
  · simp only [kRequestBufferSizeInBytes]
    omega
  · exact Nat.mod_lt _ (by decide)
  · simp only
    omega
  · intro hbad
    cases hbad.symm.trans hcomplete
  · intro _
    refine ⟨hretreat, ?_⟩
    simp only
    omega
  · simp only [HTTPRequestStream.held, hcomplete, Bool.false_eq_true, if_false,
      HTTPRequestStream.fRequest]
    exact htake
  · refine ⟨chars.take (chars.length - chars.length % 4), ?_, ?_⟩
    · have hpos : r.decoded.fCurOffset + data.length - chars.length % 4 =
          r.decoded.fCurOffset - r.fEncodedBytesRemaining +
            (chars.length - chars.length % 4) := by omega
      simp only [left, hpos]
      rw [← List.drop_drop, hbuffer, List.take_append_drop]
    · rw [List.length_take_of_le (Nat.sub_le _ _)]
      omega

/-! ## One call -/

/-- The bytes that a call decodes, hands over and leaves held. -/
structure Passed (r : Base64RequestStream) (fSocket : Socket) (out : Bytes)
    (r' : Base64RequestStream) (fSocket' : Socket) : Prop where
  carries : Carries r' fSocket'.received
  total : fSocket'.received ++ Socket.queued fSocket'.incoming =
    fSocket.received ++ Socket.queued fSocket.incoming
  conserved : ∃ more, r'.appended = r.appended ++ more ∧
    out ++ r'.decoded.held = r.decoded.held ++ more

theorem Passed.trans {x : Base64RequestStream} {fSocket₁ : Socket} {out : Bytes}
    (h : Passed r fSocket [] x fSocket₁) (h' : Passed x fSocket₁ out r' fSocket') :
    Passed r fSocket out r' fSocket' where
  carries := h'.carries
  total := h'.total.trans h.total
  conserved := by
    obtain ⟨data, happended, hheld⟩ := h.conserved
    obtain ⟨more, happended', hout⟩ := h'.conserved
    rw [List.nil_append] at hheld
    exact ⟨data ++ more, by rw [happended', happended, List.append_assoc],
      by rw [hout, hheld, List.append_assoc]⟩

/-- What is received is put behind what is left, and whole groups of it are decoded. -/
theorem receive_spec (h : Carries r fSocket.received) (hcomplete : r.decoded.complete = false)
    (henc : Encoded (fSocket.received ++ Socket.queued fSocket.incoming)) :
    (∃ err fSocket', r.receive fSocket = some (.error err, fSocket') ∧
        Passed r fSocket [] r fSocket') ∨
      ∃ x fSocket', r.receive fSocket = some (.ok x, fSocket') ∧ x.decoded.complete = false ∧
        Passed r fSocket [] x fSocket' := by
  obtain ⟨hretreat, -⟩ := h.whole hcomplete
  have hsize := h.size
  have hle := h.offset_le
  have htotal := h.total
  have hqueued := fSocket.read_queued (kRequestBufferSizeInBytes - r.decoded.fCurOffset - 1)
  unfold receive
  rw [if_neg (by omega)]
  rcases fSocket.read_cases (kRequestBufferSizeInBytes - r.decoded.fCurOffset - 1) with
    ⟨hbad, -, hreceived⟩ | ⟨data, hgood, hdata, hne, hroom, hreceived⟩
  · have hpassed : Passed r fSocket [] r
        (fSocket.read (kRequestBufferSizeInBytes - r.decoded.fCurOffset - 1)).socket :=
      ⟨hreceived ▸ h, hqueued, [], (List.append_nil _).symm, by rw [List.append_nil]; rfl⟩
    dsimp only
    split_ifs
    · exact .inl ⟨_, _, rfl, hpassed⟩
    · exact .inl ⟨_, _, rfl, hpassed⟩
  · have hnot : ¬ (fSocket.read
        (kRequestBufferSizeInBytes - r.decoded.fCurOffset - 1)).err = EAGAIN := by
      rw [hgood]
      decide
    have hpos := List.length_pos_of_ne_nil hne
    obtain ⟨mem, hwrite⟩ : ∃ mem, write r.fRequestBuffer r.decoded.fCurOffset data = some mem :=
      ⟨_, write_of_le (by omega)⟩
    have htake := take_write hwrite
    dsimp only
    rw [if_neg hnot, if_neg (not_not.mpr hgood), hdata, Option.getD_some, hwrite, Option.bind_some]
    have hcut : (r.fRequestBuffer.take r.decoded.fCurOffset).length = r.decoded.fCurOffset :=
      List.length_take_of_le (by unfold kRequestBufferSizeInBytes at *; omega)
    have hfits : r.decoded.fCurOffset + data.length ≤ kRequestBufferSizeInBytes - 1 := by omega
    -- the characters left do not change where they stand
    have hfront : mem.take r.decoded.fCurOffset = r.fRequestBuffer.take r.decoded.fCurOffset := by
      have hcongr := congrArg (List.take r.decoded.fCurOffset) htake
      rwa [List.take_take, min_eq_left (Nat.le_add_right _ _), List.take_left' hcut] at hcongr
    have hleft : left { r with fRequestBuffer := mem } = r.left := by
      simp only [left, hfront]
    have hi : Inv { r with fRequestBuffer := mem } :=
      { h.toInv with size := (length_write hwrite).trans h.size }
    obtain ⟨front, hchars, hfour⟩ := h.remaining
    have henc' : Encoded (r.left ++ data) := by
      rw [← hqueued, hreceived, hchars, List.append_assoc, List.append_assoc] at henc
      refine (henc.of_append hfour).of_isPrefix ?_
      rw [← List.append_assoc]
      exact List.prefix_append _ _
    have hbuffer : (mem.take (r.decoded.fCurOffset + data.length)).drop
        (r.decoded.fCurOffset - r.fEncodedBytesRemaining) = r.left ++ data := by
      rw [htake, List.drop_append_of_le_length (by rw [hcut]; exact Nat.sub_le _ _)]
      rfl
    obtain ⟨x, hdecode, hix, hcx, happended, hheld, groups, hgroups, hfour'⟩ :=
      decodeNewData_spec hi hcomplete (hleft.symm ▸ henc') (hleft.symm ▸ hbuffer) hfits
    rw [hleft] at happended hheld hgroups
    rw [hdecode, Option.map_some]
    have hcarries : Carries x (fSocket.received ++ data) := by
      refine ⟨hix, ⟨front ++ groups, ?_, ?_⟩, ?_⟩
      · rw [List.append_assoc, ← hgroups, ← List.append_assoc, ← hchars]
      · rw [List.length_append]
        exact Nat.dvd_add hfour hfour'
      · have hshort : r.left.length < 4 := h.length_left ▸ h.few
        have hdecodes := h.decodes
        rw [hchars, plaintext_append_of_lt hfour hshort] at hdecodes
        rw [happended, hchars, List.append_assoc, plaintext_append hfour]
        exact congrArg (· ++ plaintext (r.left ++ data)) hdecodes
    refine .inr ⟨x, _, rfl, hcx, hreceived ▸ hcarries, hqueued, _, happended, ?_⟩
    rw [hheld]
    rfl

/-- What the search of a message can do to the bytes decoded. -/
theorem examine_spec (h : Carries r chars) (hcomplete : r.decoded.complete = false) :
    (∃ err decoded, r.decoded.examine = (some err, decoded) ∧ Carries { r with decoded } chars ∧
        madeAvailable err decoded ++ decoded.held = r.decoded.held) ∨
      ∃ decoded, r.decoded.examine = (none, decoded) ∧ decoded.complete = false ∧
        Carries { r with decoded } chars ∧ decoded.held = r.decoded.held := by
  obtain ⟨hretreat, hdense⟩ := h.whole hcomplete
  have htotal := h.total
  have hfew := h.few
  rcases HTTPRequestStream.examine_cases r.decoded with
    ⟨n, fIsDataPacket, hn, hexamine⟩ | ⟨hfull, hexamine⟩ | ⟨fIsDataPacket, hexamine⟩
  · refine .inl ⟨_, _, hexamine, ⟨⟨h.size, h.memSize, h.offset_le, h.few, ?_, h.unread, fun _ => ?_,
      fun heq => absurd heq.symm Bool.false_ne_true, fun hnew => ?_⟩, h.remaining, h.decodes⟩, ?_⟩
    · simp only [requestArrived]
      omega
    · exact Nat.sub_pos_of_lt hn
    · have hzero := h.unallocated hnew
      omega
    · rw [madeAvailable, if_pos ⟨.inl rfl, rfl⟩]
      exact fRequest_append_held hcomplete hretreat h.unread hn.le fIsDataPacket
  · refine .inl ⟨_, _, hexamine, ⟨⟨h.size, h.memSize, h.offset_le, h.few, h.total, h.unread,
      fun _ => ?_, fun heq => absurd heq.symm Bool.false_ne_true, h.unallocated⟩, h.remaining,
      h.decodes⟩, ?_⟩
    · unfold kRequestBufferSizeInBytes at hfull
      show 0 < r.decoded.requestLen
      omega
    · rw [madeAvailable, if_pos ⟨.inr rfl, rfl⟩]
      exact fRequest_append_held_of_full hcomplete hretreat false
  · exact .inr ⟨_, hexamine, hcomplete, ⟨⟨h.size, h.memSize, h.offset_le, h.few, h.total, h.unread,
      h.nonempty, h.whole, h.unallocated⟩, h.remaining, h.decodes⟩, rfl⟩

/-- A result of the search, after what happened before it. -/
theorem Passed.examined {x : Base64RequestStream} {decoded : HTTPRequestStream} {out : Bytes}
    (h : Passed r fSocket [] x fSocket') (hx : Carries { x with decoded } fSocket'.received)
    (hout : out ++ decoded.held = x.decoded.held) :
    Passed r fSocket out { x with decoded } fSocket' := by
  refine h.trans ⟨hx, rfl, [], (List.append_nil _).symm, ?_⟩
  rw [List.append_nil]
  exact hout

theorem Passed.searched {x : Base64RequestStream} {decoded : HTTPRequestStream}
    (h : Passed r fSocket [] x fSocket') (hx : Carries { x with decoded } fSocket'.received)
    (hsame : decoded.held = x.decoded.held) : Passed r fSocket [] { x with decoded } fSocket' :=
  h.examined hx hsame

/-- The loop of `ReadRequest`, by induction on its rounds. -/
theorem readLoop_spec (h : Carries r fSocket.received) (hcomplete : r.decoded.complete = false)
    (henc : Encoded (fSocket.received ++ Socket.queued fSocket.incoming)) :
    ∃ err r' fSocket', r.readLoop fSocket = some (err, r', fSocket') ∧
      Passed r fSocket (madeAvailable err r'.decoded) r' fSocket' := by
  fun_induction readLoop r fSocket with
  | case1 r fSocket hreceive =>
    rcases receive_spec h hcomplete henc with ⟨_, _, h', -⟩ | ⟨_, _, h', -⟩ <;>
      cases hreceive.symm.trans h'
  | case2 r fSocket err socket hreceive =>
    rcases receive_spec h hcomplete henc with ⟨_, _, h', hpassed⟩ | ⟨_, _, h', -⟩
    · cases hreceive.symm.trans h'
      refine ⟨_, _, _, rfl, ?_⟩
      rw [madeAvailable, if_neg fun hboth => by simp [hcomplete] at hboth]
      exact hpassed
    · cases hreceive.symm.trans h'
  | case3 r fSocket received socket hreceive err decoded hexamine =>
    rcases receive_spec h hcomplete henc with ⟨_, _, h', -⟩ | ⟨_, _, h', hcx, hpassed⟩
    · cases hreceive.symm.trans h'
    · cases hreceive.symm.trans h'
      rcases examine_spec hpassed.carries hcx with ⟨_, _, h', hx, hout⟩ | ⟨_, h', -⟩
      · cases hexamine.symm.trans h'
        exact ⟨_, _, _, rfl, hpassed.examined hx hout⟩
      · cases hexamine.symm.trans h'
  | case4 r fSocket received socket hreceive decoded hexamine ih =>
    rcases receive_spec h hcomplete henc with ⟨_, _, h', -⟩ | ⟨_, _, h', hcx, hpassed⟩
    · cases hreceive.symm.trans h'
    · cases hreceive.symm.trans h'
      rcases examine_spec hpassed.carries hcx with ⟨_, _, h', -⟩ | ⟨_, h', hc', hx, hsame⟩
      · cases hexamine.symm.trans h'
      · cases hexamine.symm.trans h'
        obtain ⟨err, r', socket', hloop, hrest⟩ := ih hx hc' (hpassed.total ▸ henc)
        exact ⟨err, r', socket', hloop, (hpassed.searched hx hsame).trans hrest⟩

/-- The bytes and the characters left are moved, and not changed. -/
theorem takeLeftover_spec (h : Carries r chars) :
    ∃ newOffset x, r.takeLeftover = some (newOffset, x) ∧ Carries x chars ∧
      x.decoded.complete = false ∧ x.appended = r.appended ∧ x.decoded.held = r.decoded.held := by
  cases hcomplete : r.decoded.complete with
  | false =>
    refine ⟨0, r, ?_, h, hcomplete, rfl, rfl⟩
    simp [takeLeftover, HTTPRequestStream.takeLeftover, hcomplete]
  | true =>
    have hsize := h.size
    have hle := h.offset_le
    have htotal := h.total
    have hunread := h.unread
    have hi : HTTPRequestStream.Inv r.decoded :=
      ⟨h.memSize, by omega, h.nonempty, fun hbad => by cases hbad.symm.trans hcomplete⟩
    obtain ⟨newOffset, decoded, htake, hid, hcd, hheld, -⟩ :=
      HTTPRequestStream.takeLeftover_spec hi
    obtain ⟨hretreat, hread, hoffset⟩ := hid.whole hcd
    have hnew := newOffset_of_takeLeftover htake hcomplete
    have hlen := congrArg List.length hheld
    rw [hi.length_held hcomplete, Inv.held_of_incomplete hcd, hid.length_fRequest] at hlen
    have hleft := h.length_left
    have hfew := h.few
    obtain ⟨front, hchars, hfour⟩ := h.remaining
    rw [takeLeftover, htake, Option.bind_some]
    by_cases hrem : r.fEncodedBytesRemaining > 0
    · have hslice : slice r.fRequestBuffer (r.decoded.fCurOffset - r.fEncodedBytesRemaining)
          r.fEncodedBytesRemaining = r.left := by
        rw [slice, left, List.drop_take]
        congr 1
        omega
      obtain ⟨mem, hwrite⟩ : ∃ mem, write r.fRequestBuffer newOffset r.left = some mem := by
        unfold kRequestBufferSizeInBytes at hsize hle
        exact ⟨_, write_of_le (by omega)⟩
      have hmem := take_write hwrite
      have hcut : (r.fRequestBuffer.take newOffset).length = newOffset :=
        List.length_take_of_le (by unfold kRequestBufferSizeInBytes at *; omega)
      simp only [if_pos (And.intro hcomplete hrem), if_pos (And.intro
        (by omega : r.fEncodedBytesRemaining ≤ r.decoded.fCurOffset)
        (by unfold kRequestBufferSizeInBytes at *; omega :
          r.decoded.fCurOffset ≤ r.fRequestBuffer.length)), hslice, hwrite, Option.map_some]
      refine ⟨_, _, rfl, ⟨⟨(length_write hwrite).trans h.size, hid.size, ?_, h.few, ?_, hread,
        fun hbad => ?_, fun _ => ⟨hretreat, ?_⟩, fun hnew => ?_⟩, ⟨front, ?_, hfour⟩, h.decodes⟩,
        hcd, rfl, hheld⟩
      · simp only
        omega
      · simp only
        omega
      · cases hbad.symm.trans hcd
      · simp only
        omega
      · exact absurd (h.unallocated hnew) (h.nonempty hcomplete).ne'
      · rw [hleft] at hmem
        simp only [left, Nat.add_sub_cancel, hmem, List.drop_left' hcut]
        exact hchars
    · simp only [if_neg fun hboth : r.decoded.complete = true ∧ _ => hrem hboth.2]
      have hnil {x : Base64RequestStream} (hx : Inv x) (hzero : x.fEncodedBytesRemaining = 0) :
          x.left = [] := List.eq_nil_of_length_eq_zero (hx.length_left.trans hzero)
      have hi' : Inv { r with decoded } := by
        refine ⟨h.size, hid.size, ?_, h.few, ?_, hread, fun hbad => ?_, fun _ => ⟨hretreat, ?_⟩,
          fun hnew => ?_⟩
        · simp only
          omega
        · simp only
          omega
        · cases hbad.symm.trans hcd
        · simp only
          omega
        · exact absurd (h.unallocated hnew) (h.nonempty hcomplete).ne'
      refine ⟨_, _, rfl, ⟨hi', ⟨front, ?_, hfour⟩, h.decodes⟩, hcd, rfl, hheld⟩
      rw [hnil hi' (by simp only; omega), hchars, hnil h.toInv (by omega)]

theorem readRequest_spec (h : Carries r fSocket.received)
    (henc : Encoded (fSocket.received ++ Socket.queued fSocket.incoming)) :
    ∃ err r' fSocket', r.readRequest fSocket = some (err, r', fSocket') ∧
      Passed r fSocket (madeAvailable err r'.decoded) r' fSocket' := by
  obtain ⟨newOffset, taken, htake, ht, hct, happended, hheld⟩ := takeLeftover_spec h
  have hpassed : Passed r fSocket [] taken fSocket :=
    ⟨ht, rfl, [], by rw [happended, List.append_nil], by rw [hheld, List.append_nil]; rfl⟩
  rw [readRequest, htake, Option.bind_some]
  by_cases hzero : newOffset = 0
  · simp only [if_pos hzero]
    obtain ⟨err, r', socket, hloop, hrest⟩ := readLoop_spec ht hct henc
    exact ⟨err, r', socket, hloop, hpassed.trans hrest⟩
  · simp only [if_neg hzero]
    rcases examine_spec ht hct with
      ⟨err, decoded, hexamine, hx, hout⟩ | ⟨decoded, hexamine, hc', hx, hsame⟩
    · rw [hexamine]
      exact ⟨_, _, _, rfl, hpassed.examined hx hout⟩
    · rw [hexamine]
      obtain ⟨err, r', socket, hloop, hrest⟩ := readLoop_spec hx hc' henc
      exact ⟨err, r', socket, hloop, (hpassed.searched hx hsame).trans hrest⟩

/-! ## Any run -/

/-- A stream, its socket, and the messages that the calls have returned. -/
structure State where
  stream : Base64RequestStream
  fSocket : Socket := {}
  delivered : Bytes := []
deriving DecidableEq, Repr

/-- A number of calls of `ReadRequest`. -/
def calls : Nat → State → Option State
  | 0, s => some s
  | n + 1, s =>
    (s.stream.readRequest s.fSocket).bind fun (err, stream, fSocket) =>
      calls n
        { stream, fSocket, delivered := s.delivered ++ madeAvailable err stream.decoded }

/-- A new stream, over a socket that has received nothing. -/
def Fresh (s : State) : Prop :=
  s.stream =
      { fRequestBuffer := s.stream.fRequestBuffer
        decoded := { fRequestBuffer := s.stream.decoded.fRequestBuffer } } ∧
    s.stream.fRequestBuffer.length = kRequestBufferSizeInBytes ∧
    s.stream.decoded.fRequestBuffer.length = kRequestBufferSizeInBytes ∧
    s.fSocket.received = [] ∧ s.delivered = []

/-- The whole groups received are decoded, up to three characters are left, and what is
decoded, which is a start of the bytes of the vectors, is returned or held. -/
structure RoundTrip (inVec : List Bytes) (s : State) : Prop where
  received : s.fSocket.received <+: HTTPClientSocket.encodeVec [] inVec
  appended : s.stream.appended =
    plaintext (s.fSocket.received.take (s.fSocket.received.length / 4 * 4))
  remaining : s.stream.fEncodedBytesRemaining = s.fSocket.received.length % 4
  left : s.stream.left = s.fSocket.received.drop (s.fSocket.received.length / 4 * 4)
  conserved : s.delivered ++ s.stream.decoded.held = s.stream.appended
  start : s.stream.appended <+: inVec.flatten
  whole : s.fSocket.received = HTTPClientSocket.encodeVec [] inVec →
    s.stream.appended = inVec.flatten

/-- What holds between the calls. -/
structure Sound (inVec : List Bytes) (s : State) : Prop where
  carries : Carries s.stream s.fSocket.received
  total : s.fSocket.received ++ Socket.queued s.fSocket.incoming =
    HTTPClientSocket.encodeVec [] inVec
  conserved : s.delivered ++ s.stream.decoded.held = s.stream.appended

variable {inVec : List Bytes} {state : State}

theorem Sound.roundTrip (h : Sound inVec state) : RoundTrip inVec state := by
  obtain ⟨-, -, hplain⟩ := HTTPClientSocket.encodeVec_groups inVec
  obtain ⟨front, hchars, hfour⟩ := h.carries.remaining
  have hleft := h.carries.length_left
  have hfew := h.carries.few
  have hreceived : state.fSocket.received <+: HTTPClientSocket.encodeVec [] inVec :=
    h.total ▸ List.prefix_append _ _
  have hlen := congrArg List.length hchars
  rw [List.length_append] at hlen
  have hcut : state.fSocket.received.length / 4 * 4 = front.length := by omega
  refine ⟨hreceived, ?_, by omega, ?_, h.conserved, ?_, fun hall => ?_⟩
  · rw [hcut, h.carries.decodes, hchars, List.take_left,
      plaintext_append_of_lt hfour (by omega)]
  · rw [hcut]
    conv_rhs => rw [hchars]
    rw [List.drop_left]
  · rw [h.carries.decodes, ← hplain]
    exact plaintext_prefix hreceived
  · rw [h.carries.decodes, hall, hplain]

theorem Fresh.sound (h : Fresh state)
    (hincoming : Socket.queued state.fSocket.incoming = HTTPClientSocket.encodeVec [] inVec) :
    Sound inVec state := by
  obtain ⟨hstream, hsize, hmemSize, hreceived, hdelivered⟩ := h
  obtain ⟨stream, fSocket, delivered⟩ := state
  simp only at hstream hsize hmemSize hreceived hdelivered hincoming ⊢
  rw [hstream] at hsize hmemSize
  rw [hstream, hdelivered]
  refine ⟨⟨⟨hsize, hmemSize, Nat.zero_le _, (by decide : 0 < 4), le_rfl, rfl, nofun,
    fun _ => ⟨rfl, Nat.zero_le _⟩, fun _ => rfl⟩, ⟨[], ?_, ⟨0, rfl⟩⟩, ?_⟩, ?_, ?_⟩
  · simp [left, hreceived]
  · rw [hreceived]
    rfl
  · rw [hreceived, List.nil_append]
    exact hincoming
  · simp [held, HTTPRequestStream.fRequest]

/-- One call. -/
theorem Sound.call (h : Sound inVec state) :
    ∃ err stream fSocket, state.stream.readRequest state.fSocket = some (err, stream, fSocket) ∧
      Sound inVec
        { stream, fSocket, delivered := state.delivered ++ madeAvailable err stream.decoded } := by
  have henc : Encoded (state.fSocket.received ++ Socket.queued state.fSocket.incoming) :=
    h.total ▸ (HTTPClientSocket.encodeVec_groups inVec).1
  obtain ⟨err, stream, socket, hread, hpassed⟩ := readRequest_spec h.carries henc
  obtain ⟨more, happended, hout⟩ := hpassed.conserved
  refine ⟨err, stream, socket, hread, hpassed.carries, hpassed.total.trans h.total, ?_⟩
  rw [List.append_assoc, hout, ← List.append_assoc, h.conserved, happended]

/-- Over any number of calls, and however the characters arrive, no call leaves a buffer, and
what is decoded, returned and held are the bytes of the vectors. -/
theorem roundTrip_of_fresh (hs : Fresh state)
    (hincoming : Socket.queued state.fSocket.incoming = HTTPClientSocket.encodeVec [] inVec)
    (n : Nat) : ∃ t, calls n state = some t ∧ RoundTrip inVec t := by
  have hsound := hs.sound hincoming
  clear hs hincoming
  induction n generalizing state with
  | zero => exact ⟨state, rfl, hsound.roundTrip⟩
  | succ n ih =>
    obtain ⟨err, stream, socket, hread, hnext⟩ := hsound.call
    obtain ⟨t, ht, hround⟩ := ih hnext
    exact ⟨t, by rw [calls, hread]; exact ht, hround⟩

/-! ## A run -/

/-- Two vectors, each padded, that arrive cut inside a group and inside the padding. -/
def tunnel : State :=
  { stream :=
      { fRequestBuffer := List.replicate kRequestBufferSizeInBytes 0
        decoded := { fRequestBuffer := List.replicate kRequestBufferSizeInBytes 0 } }
    fSocket.incoming :=
      [.segment 82 (ascii "0"), .failed .eagain, .segment 86 (ascii "UIC8gSA0="),
        .segment 67 (ascii "g"), .segment 48 (ascii "KeA=="), .failed .eagain] }

theorem roundTrip_of_fresh_tunnel :
    ∃ t, calls 4 tunnel = some t ∧ RoundTrip [ascii "GET / H\r", ascii "\n\r\nx"] t :=
  roundTrip_of_fresh ⟨rfl, List.length_replicate, List.length_replicate, rfl, rfl⟩
    (by decide +kernel) 4

end Base64RequestStream

end CxxFramework.Net
