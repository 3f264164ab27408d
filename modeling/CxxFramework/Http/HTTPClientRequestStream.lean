import CxxFramework.Core.ParserBounds
import CxxFramework.Http.RequestSegments
import CxxFramework.Socket.TunnelRead

/-!
# The request stream of a client

`HTTPClientRequestStream` has the fields of `HTTPRequestStream` and reads requests as it does,
but from a client socket, here the one of a tunnel. Base64 decoding is left out.

`none` stands for an access outside a buffer, for a look at a byte that was not received, and
for an `Assert` that fails.

## Main definitions

* `HTTPClientRequestStream.readRequest` — `ReadRequest`.
* `HTTPClientRequestStream.Clear` — bytes that are looked at without a look behind them.
-/

namespace CxxFramework.Net

open CxxFramework.Core Buffer StringParser HTTPClientSocket

namespace HTTPClientRequestStream

open HTTPRequestStream (Found Inv messageEnd)

/-- The loop over the lines of the header. -/
def findHeaderEnd (fRequest : Bytes) (headerParser : StringParser) (lcount : Nat) :
    Option Found :=
  match _hword : headerParser.checked (·.consumeUntil sEOLMask) with
  | none => none
  | some (_, atEOL) =>
    match _hline : atEOL.checked (·.expectEOL) with
    | none => none
    | some (false, _) => some .incomplete
    | some (true, afterLine) =>
      match _hend : afterLine.checked (·.expectEOL) with
      | none => none
      | some (true, afterEnd) =>
        if afterEnd.getDataParsedLen > 2 ∧ afterEnd.parsed.take 3 = [13, 10, 13] then
          findHeaderEnd fRequest afterEnd (lcount + 1)
        else some (.weAreDone afterEnd.getDataRemaining)
      | some (false, afterEnd) =>
        if lcount + 1 = 1 ∧ 32 ∉ fRequest then some (.weAreDone afterEnd.getDataRemaining)
        else findHeaderEnd fRequest afterEnd (lcount + 1)
termination_by headerParser.rest.length
decreasing_by
  all_goals
    have hword := consumeUntil_le headerParser sEOLMask
    rw [eq_of_checked _hword] at hword
    have hline := (expectEOL_lt (eq_of_checked _hline)).trans_le hword
    exact (expectEOL_le (eq_of_checked _hend)).trans_lt hline

/-- The part of the loop of `ReadRequest` that looks at the bytes received. -/
def examine (r : HTTPRequestStream) : Option (Option CF_Error × HTTPRequestStream) :=
  if r.fRequestBuffer.head? = some 36 then some r.examine
  else
    let headerParser := StringParser.ofString (some r.fRequest) (r.fRequestBuffer.drop r.requestLen)
    (findHeaderEnd r.fRequest headerParser 0).map fun
      | .weAreDone dataRemaining =>
        (some CF_RequestArrived, { r.requestArrived dataRemaining with fIsDataPacket := false })
      | .incomplete =>
        if r.fCurOffset = kRequestBufferSizeInBytes - 1 then
          (some E2BIG, { r with complete := true, fIsDataPacket := false })
        else (none, { r with fIsDataPacket := false })

/-- New bytes are counted, with the asserts on their number. -/
def count (r : HTTPRequestStream) (newOffset : Nat) : Option HTTPRequestStream :=
  if r.requestLen + newOffset < kRequestBufferSizeInBytes ∧ newOffset > 0 then
    some
      { r with
        requestLen := r.requestLen + newOffset
        fCurOffset := r.fCurOffset + newOffset }
  else none

/-- The free part of the buffer, but for its last byte. -/
def room (r : HTTPRequestStream) : Bytes :=
  slice r.fRequestBuffer r.fCurOffset (kRequestBufferSizeInBytes - r.fCurOffset - 1)

/-- The part of the loop of `ReadRequest` that gets new data. An error other than one that says
to try again is asserted to come from a socket that is not connected. -/
def receive (r : HTTPRequestStream) (fSocket : HTTPClientSocket) (outcome : ConnectOutcome) :
    Option (Except CF_Error HTTPRequestStream × HTTPClientSocket) :=
  if r.fRetreatBytes > 0 then
    (count { r with fRetreatBytes := 0 } r.fRetreatBytes).map fun r => (.ok r, fSocket)
  else
    (fSocket.read (room r) 0 outcome).bind fun (sockErr, newOffset, inBuffer, fSocket) =>
      if sockErr = EAGAIN then some (.error CF_NoErr, fSocket)
      else if sockErr ≠ OS_NoErr then
        if fSocket.fGetSocket.connected then none else some (.error sockErr, fSocket)
      else
        (write r.fRequestBuffer r.fCurOffset inBuffer).bind fun fRequestBuffer =>
          (count { r with fRequestBuffer } newOffset).map fun r => (.ok r, fSocket)

theorem count_eq {r x : HTTPRequestStream} {newOffset : Nat} (h : count r newOffset = some x) :
    (r.requestLen + newOffset < kRequestBufferSizeInBytes ∧ 0 < newOffset) ∧
      x.requestLen = r.requestLen + newOffset ∧ x.fRetreatBytes = r.fRetreatBytes := by
  unfold count at h
  split_ifs at h with hroom
  cases h
  exact ⟨hroom, rfl, rfl⟩

/-- New data brings the bytes received closer to the end of the buffer. -/
theorem receive_lt {r x : HTTPRequestStream} {fSocket fSocket' : HTTPClientSocket}
    {outcome : ConnectOutcome} (h : receive r fSocket outcome = some (.ok x, fSocket')) :
    x.fRetreatBytes + (kRequestBufferSizeInBytes - x.requestLen) <
      r.fRetreatBytes + (kRequestBufferSizeInBytes - r.requestLen) := by
  unfold receive at h
  split_ifs at h with hleft
  · obtain ⟨y, hcount, heq⟩ := Option.map_eq_some_iff.mp h
    cases heq
    obtain ⟨hroom, hlen, hretreat⟩ := count_eq hcount
    simp only at hroom hlen hretreat
    omega
  · obtain ⟨⟨sockErr, newOffset, inBuffer, socket⟩, -, h⟩ := Option.bind_eq_some_iff.mp h
    dsimp only at h
    split_ifs at h
    · cases h
    · cases h
    · obtain ⟨mem, -, h⟩ := Option.bind_eq_some_iff.mp h
      obtain ⟨y, hcount, heq⟩ := Option.map_eq_some_iff.mp h
      cases heq
      obtain ⟨hroom, hlen, hretreat⟩ := count_eq hcount
      simp only at hroom hlen hretreat
      omega

theorem examine_keeps {r r' : HTTPRequestStream} (h : examine r = some (none, r')) :
    r'.fRetreatBytes = r.fRetreatBytes ∧ r'.requestLen = r.requestLen := by
  by_cases hdollar : r.fRequestBuffer.head? = some 36
  · rw [examine, if_pos hdollar] at h
    obtain ⟨hretreat, -, hlen⟩ := r.examine_keeps (Option.some.inj h)
    exact ⟨hretreat, hlen⟩
  · rw [examine, if_neg hdollar] at h
    obtain ⟨found, -, heq⟩ := Option.map_eq_some_iff.mp h
    cases found with
    | weAreDone dataRemaining => cases heq
    | incomplete =>
      dsimp only at heq
      split_ifs at heq
      · cases heq
      · cases heq
        exact ⟨rfl, rfl⟩

/-- The loop of `ReadRequest`, where it needs new data. -/
def readLoop (r : HTTPRequestStream) (fSocket : HTTPClientSocket) (outcome : ConnectOutcome) :
    Option (CF_Error × HTTPRequestStream × HTTPClientSocket) :=
  match _hreceive : receive r fSocket outcome with
  | none => none
  | some (.error err, fSocket) => some (err, r, fSocket)
  | some (.ok received, fSocket) =>
    match _hexamine : examine received with
    | none => none
    | some (some err, r) => some (err, r, fSocket)
    | some (none, r) => readLoop r fSocket outcome
termination_by r.fRetreatBytes + (kRequestBufferSizeInBytes - r.requestLen)
decreasing_by
  obtain ⟨hretreat, hlen⟩ := examine_keeps _hexamine
  rw [hretreat, hlen]
  exact receive_lt _hreceive

theorem readLoop_error {r : HTTPRequestStream} {fSocket fSocket' : HTTPClientSocket}
    {outcome : ConnectOutcome} {err : CF_Error}
    (h : receive r fSocket outcome = some (.error err, fSocket')) :
    readLoop r fSocket outcome = some (err, r, fSocket') := by
  rw [readLoop]
  split
  next h' => cases h'.symm.trans h
  next h' =>
    cases h'.symm.trans h
    rfl
  next h' => cases h'.symm.trans h

theorem readLoop_ok {r x : HTTPRequestStream} {fSocket fSocket' : HTTPClientSocket}
    {outcome : ConnectOutcome} (h : receive r fSocket outcome = some (.ok x, fSocket')) :
    readLoop r fSocket outcome =
      (examine x).bind fun
        | (some err, r') => some (err, r', fSocket')
        | (none, r') => readLoop r' fSocket' outcome := by
  rw [readLoop]
  split
  next h' => cases h'.symm.trans h
  next h' => cases h'.symm.trans h
  next h' =>
    cases h'.symm.trans h
    split
    next hexamine => rw [hexamine, Option.bind_none]
    next hexamine => rw [hexamine, Option.bind_some]
    next hexamine => rw [hexamine, Option.bind_some]

/-- `ReadRequest` -/
def readRequest (r : HTTPRequestStream) (fSocket : HTTPClientSocket) (outcome : ConnectOutcome) :
    Option (CF_Error × HTTPRequestStream × HTTPClientSocket) :=
  r.takeLeftover.bind fun (newOffset, r) =>
    if newOffset = 0 then readLoop r fSocket outcome
    else
      (examine r).bind fun
        | (some err, r) => some (err, r, fSocket)
        | (none, r) => readLoop r fSocket outcome

/-! ## The bytes that are looked at -/

section Search

variable {req text e s parsed : Bytes} {p q r u : StringParser} {l : Nat} {found : Bool}
  {out : StrPtrLen}

/-- One pass of the loop. -/
theorem findHeaderEnd_step (hword : p.checked (·.consumeUntil sEOLMask) = some (out, q))
    (hline : q.checked (·.expectEOL) = some (true, r)) (req : Bytes) (l : Nat) :
    findHeaderEnd req p l =
      (r.checked (·.expectEOL)).bind fun (found, u) =>
        if found then
          if u.getDataParsedLen > 2 ∧ u.parsed.take 3 = [13, 10, 13] then
            findHeaderEnd req u (l + 1)
          else some (.weAreDone u.getDataRemaining)
        else if l + 1 = 1 ∧ 32 ∉ req then some (.weAreDone u.getDataRemaining)
        else findHeaderEnd req u (l + 1) := by
  rw [findHeaderEnd]
  split
  next hword' => cases hword.symm.trans hword'
  next hword' =>
    cases hword.symm.trans hword'
    split
    next hline' => cases hline.symm.trans hline'
    next hline' => cases hline.symm.trans hline'
    next hline' =>
      cases hline.symm.trans hline'
      split
      next hend => rw [hend, Option.bind_none]
      next hend =>
        rw [hend, Option.bind_some]
        rfl
      next hend =>
        rw [hend, Option.bind_some]
        rfl

theorem findHeaderEnd_refused (hword : p.checked (·.consumeUntil sEOLMask) = some (out, q))
    (hline : q.checked (·.expectEOL) = none) (req : Bytes) (l : Nat) :
    findHeaderEnd req p l = none := by
  rw [findHeaderEnd]
  split
  next hword' => cases hword.symm.trans hword'
  next hword' =>
    cases hword.symm.trans hword'
    split
    next hline' => rfl
    next hline' => cases hline.symm.trans hline'
    next hline' => cases hline.symm.trans hline'

/-- Without a line end, the search comes to the end of the bytes. -/
theorem findHeaderEnd_none (h : At p parsed s) (hs : NoEOL s) :
    findHeaderEnd req p l = some .incomplete := by
  rw [← List.append_nil s] at h
  obtain ⟨q, hat, -, hword⟩ := h.consumeUntilEOL_checked hs (.inr rfl)
  have hline := hat.expectEOL_checked_text nofun
  rw [findHeaderEnd]
  split
  next hword' => cases hword.symm.trans hword'
  next hword' =>
    cases hword.symm.trans hword'
    split
    next hline' => cases hline.symm.trans hline'
    next hline' => rfl
    next hline' => cases hline.symm.trans hline'

/-- The search comes to the end of the bytes, which is a CR. -/
def Behind (s : Bytes) (found : Found) : Prop :=
  s.getLast? = some 13 ∧ (found = .incomplete ∨ found = .weAreDone 0)

instance (s : Bytes) (found : Found) : Decidable (Behind s found) :=
  inferInstanceAs (Decidable (_ ∧ _))

theorem behind_congr {t : Bytes} (h : s.getLast? = some 13 ↔ t.getLast? = some 13)
    (found : Found) : Behind s found ↔ Behind t found :=
  and_congr_left' h

/-- If the search stops before some bytes, it does not come to their end. -/
theorem not_behind_weAreDone (s : Bytes) : ¬ Behind s (.weAreDone s.length) := by
  rintro ⟨hlast, hfound⟩
  rcases hfound with hfound | hfound
  · cases hfound
  · rw [List.length_eq_zero_iff.mp (Found.weAreDone.inj hfound)] at hlast
    cases hlast

/-- The search looks behind the bytes exactly if it comes to their end, and they end with a
CR. -/
theorem findHeaderEnd_eq (h : At p parsed s) (req : Bytes) (l : Nat) :
    findHeaderEnd req p l =
      if Behind s (HTTPRequestStream.findHeaderEnd req p l) then none
      else some (HTTPRequestStream.findHeaderEnd req p l) := by
  induction hn : s.length using Nat.strongRecOn generalizing s parsed p l with
  | _ n ih =>
    rcases noEOL_or_line s with hnone | ⟨text, e, rest, rfl, htext, he⟩
    · rw [findHeaderEnd_none h hnone, HTTPRequestStream.findHeaderEnd_none h hnone, if_neg]
      rintro ⟨hlast, -⟩
      exact absurd (hnone 13 (List.mem_of_getLast? hlast)) (by decide)
    · have hpos : 0 < e.length := by cases he <;> simp
      simp only [List.length_append] at hn
      obtain ⟨q, hat, hword, hwordChecked⟩ :=
        h.consumeUntilEOL_checked htext (.inl he.not_startsText)
      obtain ⟨r, parsed', hat', hline, hlineChecked⟩ := hat.expectEOL_checked he
      have hthru : p.getThruEOL = (true, some text, r) := by
        simp only [getThruEOL, hword, hline]
      by_cases hcut : e = [13] ∧ rest = []
      · -- nothing stands behind the CR
        rw [if_pos hcut] at hlineChecked
        obtain ⟨rfl, rfl⟩ := hcut
        rw [findHeaderEnd_refused hwordChecked hlineChecked, if_pos]
        refine ⟨by simp, ?_⟩
        rw [HTTPRequestStream.findHeaderEnd_step hthru (hat'.expectEOL_text startsText_nil),
          HTTPRequestStream.findHeaderEnd_none hat' noEOL_nil, getDataRemaining, hat'.rest_eq]
        simp only [Bool.false_eq_true, if_false]
        split_ifs
        · exact .inr rfl
        · exact .inl rfl
      · rw [if_neg hcut] at hlineChecked
        rw [findHeaderEnd_step hwordChecked hlineChecked]
        simp only [behind_congr (getLast?_line text he hcut)]
        rcases startsText_or_isEOL rest with hstart | ⟨b, rest, rfl, hb⟩
        · rw [hat'.expectEOL_checked_text hstart, Option.bind_some,
            HTTPRequestStream.findHeaderEnd_step hthru (hat'.expectEOL_text hstart)]
          simp only [Bool.false_eq_true, if_false, getDataRemaining, hat'.rest_eq]
          by_cases hpassword : l + 1 = 1 ∧ 32 ∉ req
          · simp only [if_pos hpassword]
            exact (if_neg (not_behind_weAreDone rest)).symm
          · simp only [if_neg hpassword]
            exact ih rest.length (by omega) hat' (l + 1) rfl
        · rw [List.length_append] at hn
          obtain ⟨u, parsed'', hat'', hend, hendChecked⟩ := hat'.expectEOL_checked hb
          rw [hendChecked, HTTPRequestStream.findHeaderEnd_step hthru hend]
          simp only [if_true, getDataRemaining, hat''.rest_eq]
          by_cases hcut' : b = [13] ∧ rest = []
          · rw [if_pos hcut', Option.bind_none, if_pos]
            obtain ⟨rfl, rfl⟩ := hcut'
            refine ⟨rfl, ?_⟩
            rw [HTTPRequestStream.findHeaderEnd_none hat'' noEOL_nil]
            split_ifs
            · exact .inl rfl
            · exact .inr rfl
          · rw [if_neg hcut', Option.bind_some]
            have hlast := getLast?_line [] hb hcut'
            rw [List.nil_append] at hlast
            simp only [if_true, behind_congr hlast]
            by_cases hskip : u.getDataParsedLen > 2 ∧ u.parsed.take 3 = [13, 10, 13]
            · simp only [if_pos hskip]
              exact ih rest.length (by omega) hat'' (l + 1) rfl
            · simp only [if_neg hskip, hat''.rest_eq]
              exact (if_neg (not_behind_weAreDone rest)).symm

/-- Bytes that are looked at without a look behind them: a data packet; bytes that do not end
with a CR; and a message with bytes behind it. -/
def Clear (s : Bytes) : Prop :=
  s.head? = some 36 ∨ s.getLast? ≠ some 13 ∨ ∃ n ∈ messageEnd s, n < s.length

instance (s : Bytes) : Decidable (Clear s) := inferInstanceAs (Decidable (_ ∨ _ ∨ _))

theorem not_behind_iff (hdollar : s.head? ≠ some 36) :
    ¬ Behind s (HTTPRequestStream.findHeaderEnd s (StringParser.ofString (some s) []) 0) ↔
      Clear s := by
  unfold Clear Behind
  rw [not_and_or, or_iff_right hdollar]
  refine or_congr_right ?_
  cases hfound : HTTPRequestStream.findHeaderEnd s (StringParser.ofString (some s) []) 0 with
  | incomplete =>
    rw [HTTPRequestStream.messageEnd_of_incomplete hdollar hfound]
    simp
  | weAreDone dataRemaining =>
    have hlt : dataRemaining < s.length := HTTPRequestStream.findHeaderEnd_lt hfound
    rw [HTTPRequestStream.messageEnd_of_weAreDone hdollar hfound]
    simp only [reduceCtorEq, Found.weAreDone.injEq, false_or, Option.mem_some_iff,
      exists_eq_left']
    omega

end Search

variable {r r' x : HTTPRequestStream} {fSocket fSocket' : HTTPClientSocket}
  {outcome : ConnectOutcome} {data mem : Bytes}

/-- One look at the bytes received. -/
theorem examine_eq (hi : Inv r) (hpos : 0 < r.requestLen) :
    examine r = if Clear r.fRequest then some r.examine else none := by
  have hlen := hi.length_fRequest
  have hhead : r.fRequest.head? = r.fRequestBuffer.head? :=
    HTTPRequestStream.head?_of_isPrefix (List.take_prefix _ _)
      (List.ne_nil_of_length_pos (by omega))
  by_cases hdollar : r.fRequestBuffer.head? = some 36
  · rw [examine, if_pos hdollar, if_pos (.inl (hhead.trans hdollar))]
  · rw [examine, if_neg hdollar]
    dsimp only
    rw [findHeaderEnd_eq (at_ofString _ _), HTTPRequestStream.findHeaderEnd_congr r.fRequest 0
      (at_ofString _ (r.fRequestBuffer.drop r.requestLen)) (at_ofString _ [])]
    have hclear := not_behind_iff (s := r.fRequest) (hhead ▸ hdollar)
    by_cases hbehind : Clear r.fRequest
    · rw [if_pos hbehind, if_neg (hclear.mpr hbehind), Option.map_some, HTTPRequestStream.examine,
        HTTPRequestStream.content_header hdollar]
      cases HTTPRequestStream.findHeaderEnd r.fRequest
        (StringParser.ofString (some r.fRequest) []) 0 with
      | incomplete => simp only [if_neg hdollar]
      | weAreDone dataRemaining => rfl
    · rw [if_neg hbehind, if_pos (not_not.mp (mt hclear.mp hbehind)), Option.map_none]

/-! ## What is received -/

theorem length_room (hi : Inv r) :
    (room r).length = kRequestBufferSizeInBytes - r.fCurOffset - 1 := by
  have hsize := hi.size
  rw [room, length_slice]
  omega

/-- What the socket hands over is put behind what is held. -/
theorem receive_data (hi : Inv r) (hcomplete : r.complete = false)
    (hread : fSocket.read (room r) 0 outcome =
      some (OS_NoErr, data.length, data ++ (room r).drop data.length, fSocket'))
    (hne : data ≠ []) (hle : data.length ≤ kRequestBufferSizeInBytes - r.fCurOffset - 1) :
    ∃ x, receive r fSocket outcome = some (.ok x, fSocket') ∧ Inv x ∧ x.complete = false ∧
      0 < x.requestLen ∧ x.held = r.held ++ data := by
  obtain ⟨hretreat, -, hoffset⟩ := hi.whole hcomplete
  have hsize := hi.size
  have hpos := List.length_pos_of_ne_nil hne
  obtain ⟨mem, hwrite⟩ : ∃ mem, write r.fRequestBuffer r.fCurOffset data = some mem :=
    ⟨_, write_of_le (by omega)⟩
  obtain ⟨hix, hlen, hheld⟩ := hi.received hcomplete hwrite hne hle
  have hsame : write r.fRequestBuffer r.fCurOffset (data ++ (room r).drop data.length) =
      some mem := by
    rw [room, write_append_slice hle (by omega), hwrite]
  unfold receive
  rw [if_neg (by omega), hread, Option.bind_some]
  dsimp only
  rw [if_neg (by decide), if_neg (by decide), hsame, Option.bind_some, count,
    if_pos ⟨by simp only; omega, hpos⟩]
  exact ⟨_, rfl, hix, hcomplete, hlen, hheld⟩

/-- A result that would block ends the call. -/
theorem receive_again {n : Nat} {inBuffer : Bytes} (hretreat : r.fRetreatBytes = 0)
    (hread : fSocket.read (room r) 0 outcome = some (EAGAIN, n, inBuffer, fSocket')) :
    receive r fSocket outcome = some (.error CF_NoErr, fSocket') := by
  unfold receive
  rw [if_neg (by omega), hread, Option.bind_some]
  rfl

end HTTPClientRequestStream

end CxxFramework.Net
