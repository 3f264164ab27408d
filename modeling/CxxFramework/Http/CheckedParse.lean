import CxxFramework.Core.ParserBounds
import CxxFramework.Http.HeaderRoundTrip

/-!
# Parsing with checked accesses

`Parse` and what it calls, once more, where each access to the packet is checked: `none`
stands for a look at a byte behind the packet and for an `Assert` that fails, besides what it
stands for in `HTTPPacket.parse`. Where nothing of this happens, the results are the same.

## Main definitions

* `HTTPPacket.parseChecked` — `Parse` with its accesses and asserts checked.
-/

namespace CxxFramework.Net.HTTPPacket

open CxxFramework.Core StringParser HTTPProtocol

/-! ## The request line -/

def parseQueryStringChecked (h : HTTPPacket) (parser : StringParser) :
    Option (HTTPPacket × StringParser) :=
  if parser.getDataRemaining > 0 ∧ parser.peekFast = 63 then
    (parser.checked (·.consumeLength 1)).bind fun mark =>
      (mark.2.checked (·.consumeUntilWhitespace)).map fun query =>
        (if query.1.getD [] = [] then h else { h with fQueryString := query.1 }, query.2)
  else some (h, parser)

/-- `urlParser` has the URI for its string. -/
def parseHostChecked (h : HTTPPacket) (first : UInt8) : Option (HTTPPacket × StringParser) :=
  let urlParser := StringParser.ofString h.fAbsoluteURI []
  if first = 47 then some (h, urlParser)
  else
    (urlParser.checked (·.consumeUntil (· == 58))).bind fun scheme =>
      (scheme.2.checked (·.consumeLength 3)).bind fun mark =>
        (mark.2.checked (·.consumeUntil (· == 47))).map fun host =>
          ({ h with fAbsoluteURIScheme := scheme.1, fHostHeader := host.1 }, host.2)

/-- `parseURI`, where `fAbsoluteURI.Ptr[0]` is the byte at which the parser stands. -/
def parseURIChecked (h : HTTPPacket) (parser : StringParser) :
    Option (CF_Error × HTTPPacket × StringParser) :=
  (parser.checked (·.consumeUntil sURLStopConditions)).bind fun uri =>
    parser.peekChecked.bind fun first =>
      (parseHostChecked { h with fAbsoluteURI := uri.1 } first).bind fun host =>
        (host.1.parseQueryStringChecked uri.2).bind fun query =>
          let h := { query.1 with fRelativeURI := if host.2.isNull then none else some host.2.rest }
          h.parsePath.map fun (err, h) => (err, h, query.2)

def endRequestLineChecked (h : HTTPPacket) (parser : StringParser) :
    Option (CF_Error × HTTPPacket × StringParser) :=
  (parser.checked (·.expectEOL)).map fun eol =>
    if eol.1 then (CF_NoErr, h, eol.2)
    else (CF_BadArgument, { h with fStatusCode := .httpBadRequest }, eol.2)

def parseRequestChecked (h : HTTPPacket) (parser : StringParser) :
    Option (CF_Error × HTTPPacket × StringParser) :=
  let h := { h with fHTTPType := .httpRequestType }
  (parser.checked (·.consumeUntil sNonWhitespaceMask)).bind fun white =>
    (h.parseURIChecked white.2).bind fun (err, h, parser) =>
      if err ≠ CF_NoErr then some (err, h, parser)
      else
        (parser.checked (·.consumeUntil sNonWhitespaceMask)).bind fun white =>
          (white.2.checked (·.consumeUntil sEOLMask)).bind fun versionStr =>
            (h.parseVersion versionStr.1).bind (endRequestLineChecked · versionStr.2)

/-- `parseRequestLine` behind the word `HTTP`. -/
def parseStatusChecked (h : HTTPPacket) (parser : StringParser) :
    Option (CF_Error × HTTPPacket × StringParser) :=
  (parser.checked (·.consumeUntilWhitespace)).bind fun version =>
    (version.2.checked (·.consumeUntilDigit)).bind fun blank =>
      (blank.2.checked (·.consumeInteger)).bind fun status =>
        if status.1 ≠ 0 then
          let h := { h with fHTTPType := .httpResponseType }
          (status.2.checked (·.consumeUntil sNonWhitespaceMask)).bind fun white =>
            (white.2.checked (·.consumeUntilWhitespace)).bind fun phrase =>
              h.endRequestLineChecked phrase.2
        else h.parseRequestChecked status.2

def parseRequestLineChecked (h : HTTPPacket) (parser : StringParser) :
    Option (CF_Error × HTTPPacket × StringParser) :=
  (parser.checked (·.consumeWord)).bind fun word =>
    let h := { h with fMethod := getMethod (word.1.getD []) }
    if h.fMethod ≠ .httpIllegalMethod then h.parseRequestChecked word.2
    else if word.1 = some (ascii "HTTP") then h.parseStatusChecked word.2
    else h.endRequestLineChecked word.2

/-! ## The header lines -/

def skipBlankChecked (parser : StringParser) : Option StringParser :=
  parser.peekChecked.bind fun c =>
    if c = 32 then
      (parser.checked (·.expect 32)).bind fun blank => if blank.1 then some blank.2 else none
    else some parser

/-! ## The same results -/

variable {h h' : HTTPPacket} {parser parser' : StringParser} {err : CF_Error}

theorem parseQueryString_of_checked {query : HTTPPacket × StringParser}
    (hc : h.parseQueryStringChecked parser = some query) :
    h.parseQueryString parser = query := by
  unfold parseQueryStringChecked at hc
  unfold parseQueryString
  split_ifs at hc ⊢ with hquery
  · obtain ⟨mark, hmark, hc⟩ := Option.bind_eq_some_iff.mp hc
    obtain ⟨span, hspan, rfl⟩ := Option.map_eq_some_iff.mp hc
    obtain rfl := eq_of_checked hmark
    obtain rfl := eq_of_checked hspan
    rfl
  · exact Option.some.inj hc

theorem parseHost_of_checked {first : UInt8} {host : HTTPPacket × StringParser}
    (hc : h.parseHostChecked first = some host) : h.parseHost first = host := by
  unfold parseHostChecked at hc
  unfold parseHost
  dsimp only at hc ⊢
  split_ifs at hc ⊢ with hslash
  · exact Option.some.inj hc
  · obtain ⟨scheme, hscheme, hc⟩ := Option.bind_eq_some_iff.mp hc
    obtain ⟨mark, hmark, hc⟩ := Option.bind_eq_some_iff.mp hc
    obtain ⟨span, hspan, rfl⟩ := Option.map_eq_some_iff.mp hc
    obtain rfl := eq_of_checked hscheme
    obtain rfl := eq_of_checked hmark
    obtain rfl := eq_of_checked hspan
    rfl

theorem parseURI_of_checked {result : CF_Error × HTTPPacket × StringParser}
    (hc : h.parseURIChecked parser = some result) : h.parseURI parser = some result := by
  obtain ⟨uri, huri, hc⟩ := Option.bind_eq_some_iff.mp hc
  obtain ⟨first, hfirst, hc⟩ := Option.bind_eq_some_iff.mp hc
  obtain ⟨host, hhost, hc⟩ := Option.bind_eq_some_iff.mp hc
  obtain ⟨query, hquery, hc⟩ := Option.bind_eq_some_iff.mp hc
  obtain rfl := eq_of_checked huri
  obtain rfl := peekFast_of_checked hfirst
  obtain rfl := parseHost_of_checked hhost
  obtain rfl := parseQueryString_of_checked hquery
  exact hc

theorem endRequestLine_of_checked {result : CF_Error × HTTPPacket × StringParser}
    (hc : h.endRequestLineChecked parser = some result) : h.endRequestLine parser = result := by
  obtain ⟨eol, heol, rfl⟩ := Option.map_eq_some_iff.mp hc
  obtain rfl := eq_of_checked heol
  rfl

theorem parseRequest_of_checked {result : CF_Error × HTTPPacket × StringParser}
    (hc : h.parseRequestChecked parser = some result) : h.parseRequest parser = some result := by
  obtain ⟨white, hwhite, hbehind⟩ := Option.bind_eq_some_iff.mp hc
  obtain ⟨⟨err, h₁, parser₁⟩, huri, hrest⟩ := Option.bind_eq_some_iff.mp hbehind
  obtain rfl := eq_of_checked hwhite
  unfold parseRequest
  refine Option.bind_eq_some_iff.mpr ⟨_, parseURI_of_checked huri, ?_⟩
  dsimp only at hrest ⊢
  split_ifs at hrest ⊢ with herr
  · exact hrest
  · obtain ⟨blank, hblank, hline⟩ := Option.bind_eq_some_iff.mp hrest
    obtain ⟨versionStr, hversionStr, hset⟩ := Option.bind_eq_some_iff.mp hline
    obtain ⟨h₂, hversion, hend⟩ := Option.bind_eq_some_iff.mp hset
    obtain rfl := eq_of_checked hblank
    obtain rfl := eq_of_checked hversionStr
    exact Option.map_eq_some_iff.mpr ⟨h₂, hversion, endRequestLine_of_checked hend⟩

theorem parseRequestLine_of_checked {result : CF_Error × HTTPPacket × StringParser}
    (hc : h.parseRequestLineChecked parser = some result) :
    h.parseRequestLine parser = some result := by
  obtain ⟨word, hword, hline⟩ := Option.bind_eq_some_iff.mp hc
  obtain rfl := eq_of_checked hword
  unfold parseRequestLine
  dsimp only at hline ⊢
  by_cases hmethod : getMethod (parser.consumeWord.1.getD []) ≠ .httpIllegalMethod
  · rw [if_pos hmethod] at hline ⊢
    exact parseRequest_of_checked hline
  · rw [if_neg hmethod] at hline ⊢
    by_cases hhttp : parser.consumeWord.1 = some (ascii "HTTP")
    · rw [if_pos hhttp] at hline ⊢
      obtain ⟨version, hversion, hbehind⟩ := Option.bind_eq_some_iff.mp hline
      obtain ⟨blank, hblank, hdigits⟩ := Option.bind_eq_some_iff.mp hbehind
      obtain ⟨status, hstatus, hrest⟩ := Option.bind_eq_some_iff.mp hdigits
      obtain rfl := eq_of_checked hversion
      obtain rfl := eq_of_checked hblank
      obtain rfl := eq_of_checked hstatus
      split_ifs at hrest ⊢
      · obtain ⟨white, hwhite, hphrases⟩ := Option.bind_eq_some_iff.mp hrest
        obtain ⟨phrase, hphrase, hend⟩ := Option.bind_eq_some_iff.mp hphrases
        obtain rfl := eq_of_checked hwhite
        obtain rfl := eq_of_checked hphrase
        exact congrArg some (endRequestLine_of_checked hend)
      · exact parseRequest_of_checked hrest
    · rw [if_neg hhttp] at hline ⊢
      exact congrArg some (endRequestLine_of_checked hline)

/-! ## The loops -/

/-- The loop of `Parse` over the request lines. -/
def parseRequestLinesChecked (h : HTTPPacket) (parser : StringParser) :
    Option (CF_Error × HTTPPacket × StringParser) :=
  match _hline : h.parseRequestLineChecked parser with
  | none => none
  | some (err, h', parser') =>
    if _herr : err ≠ CF_NoErr then some (err, h', parser')
    else if _htype : h'.fHTTPType = .httpIllegalType then parseRequestLinesChecked h' parser'
    else some (CF_NoErr, h', parser')
termination_by parser.rest.length
decreasing_by
  obtain rfl := not_not.mp _herr
  exact parseRequestLine_lt (parseRequestLine_of_checked _hline) _htype

theorem skipBlank_of_checked (hc : skipBlankChecked parser = some parser') :
    skipBlank parser = some parser' := by
  obtain ⟨c, hpeek, hskip⟩ := Option.bind_eq_some_iff.mp hc
  unfold skipBlank
  rw [peekFast_of_checked hpeek]
  by_cases hblank : c = 32
  · rw [if_pos hblank] at hskip ⊢
    obtain ⟨blank, hexpect, hfound⟩ := Option.bind_eq_some_iff.mp hskip
    obtain rfl := eq_of_checked hexpect
    exact hfound
  · rw [if_neg hblank] at hskip ⊢
    exact hskip

/-- One pass of the loop of `parseHeaders`, where it has not come to an empty line: the packet
and the parser behind the line, or the error. -/
def parseHeaderChecked (h : HTTPPacket) (parser : StringParser) :
    Option (Except (CF_Error × HTTPPacket) (HTTPPacket × StringParser)) :=
  (parser.checked (·.consumeUntil (· == 58))).bind fun theKeyWord =>
    (theKeyWord.2.checked (·.expect 58)).bind fun colon =>
      if colon.1 then
        (skipBlankChecked colon.2).bind fun parser =>
          (getHeader (theKeyWord.1.getD [])).bind fun theHeader =>
            (parser.checked (·.consumeUntil sEOLMask)).bind fun theHeaderVal =>
              (theHeaderVal.2.checked (·.expectEOL)).bind fun eol =>
                if eol.1 then
                  (h.setField theHeader theHeaderVal.1).map fun h => .ok (h, eol.2)
                else some (.error (CF_BadArgument, { h with fStatusCode := .httpBadRequest }))
      else some (.error (CF_BadArgument, { h with fStatusCode := .httpBadRequest }))

theorem parseHeaderChecked_lt (hc : h.parseHeaderChecked parser = some (.ok (h', parser'))) :
    parser'.rest.length < parser.rest.length := by
  obtain ⟨theKeyWord, hkey, hcolons⟩ := Option.bind_eq_some_iff.mp hc
  obtain ⟨colon, hcolon, hbehind⟩ := Option.bind_eq_some_iff.mp hcolons
  split_ifs at hbehind with hfound
  · obtain ⟨blank, hblank, hheaders⟩ := Option.bind_eq_some_iff.mp hbehind
    obtain ⟨theHeader, -, hvals⟩ := Option.bind_eq_some_iff.mp hheaders
    obtain ⟨theHeaderVal, hval, heols⟩ := Option.bind_eq_some_iff.mp hvals
    obtain ⟨eol, heol, hset⟩ := Option.bind_eq_some_iff.mp heols
    split_ifs at hset with hend
    · obtain ⟨h₁, -, heq⟩ := Option.map_eq_some_iff.mp hset
      cases heq
      obtain rfl := eq_of_checked hkey
      obtain rfl := eq_of_checked hcolon
      obtain rfl := eq_of_checked hval
      obtain rfl := eq_of_checked heol
      have hskip := skipBlank_le (skipBlank_of_checked hblank)
      have hthru := expectEOL_lt (Prod.ext hend rfl : expectEOL _ = (true, _))
      have hexpect := expect_lt (Prod.ext hfound rfl : expect _ _ = (true, _))
      exact hthru.trans_le ((consumeUntil_le _ _).trans (hskip.trans
        (hexpect.le.trans (consumeUntil_le _ _))))
    · cases hset
  · cases hbehind

/-- `parseHeaders`, which asserts that it has come to a line end. -/
def parseHeadersChecked (h : HTTPPacket) (parser : StringParser) :
    Option (CF_Error × HTTPPacket) :=
  match parser.peekChecked with
  | none => none
  | some c =>
    if c = 13 ∨ c = 10 then
      (parser.checked (·.expectEOL)).bind fun eol => if eol.1 then some (CF_NoErr, h) else none
    else
      match _hline : h.parseHeaderChecked parser with
      | none => none
      | some (.error result) => some result
      | some (.ok (h', parser')) => parseHeadersChecked h' parser'
termination_by parser.rest.length
decreasing_by exact parseHeaderChecked_lt _hline

/-- `Parse`; the line for the log has a parser of its own. -/
def parseChecked (h : HTTPPacket) : Option (CF_Error × HTTPPacket) :=
  let parser := StringParser.ofString (some h.fPacketHeader) h.beyond
  (parser.checked (·.consumeUntil sEOLMask)).bind fun line =>
    ({ h with fRequestLine := line.1 }.parseRequestLinesChecked parser).bind
      fun (err, h, parser) =>
        if err ≠ CF_NoErr then some (err, h) else h.parseHeadersChecked parser

/-! ## Checked and unchecked -/

theorem parseRequestLines_step {result : CF_Error × HTTPPacket × StringParser}
    (hline : h.parseRequestLine parser = some result) :
    h.parseRequestLines parser =
      if result.1 ≠ CF_NoErr then some result
      else if result.2.1.fHTTPType = .httpIllegalType then
        result.2.1.parseRequestLines result.2.2
      else some result := by
  rw [parseRequestLines]
  split
  next heq =>
    rw [hline] at heq
    cases heq
  next err₁ h₁ parser₁ heq =>
    rw [hline] at heq
    cases heq
    split_ifs with herr htype
    · rfl
    · rfl
    · rw [not_not.mp herr]

theorem parseRequestLines_of_checked {result : CF_Error × HTTPPacket × StringParser}
    (hc : h.parseRequestLinesChecked parser = some result) :
    h.parseRequestLines parser = some result := by
  fun_induction parseRequestLinesChecked h parser with
  | case1 => cases hc
  | case2 h parser err h₁ parser₁ hline herr =>
    rw [parseRequestLines_step (parseRequestLine_of_checked hline), if_pos herr]
    exact hc
  | case3 h parser err h₁ parser₁ hline herr htype ih =>
    rw [parseRequestLines_step (parseRequestLine_of_checked hline), if_neg herr, if_pos htype]
    exact ih hc
  | case4 h parser err h₁ parser₁ hline herr htype =>
    rw [parseRequestLines_step (parseRequestLine_of_checked hline), if_neg herr, if_neg htype,
      not_not.mp herr]
    exact hc

theorem parseHeaders_noColonError (hpeek : ¬ (parser.peekFast = 13 ∨ parser.peekFast = 10))
    (hkey : (parser.getThru 58).1 = false) :
    h.parseHeaders parser = some (CF_BadArgument, { h with fStatusCode := .httpBadRequest }) := by
  rw [parseHeaders, if_neg hpeek]
  split
  next => rfl
  next heq =>
    rw [heq] at hkey
    cases hkey

/-- A line without an end behind it is an error. -/
theorem parseHeaders_noEndError {key : StrPtrLen} {afterKey afterBlank : StringParser}
    {header : HTTPHeader} (hpeek : ¬ (parser.peekFast = 13 ∨ parser.peekFast = 10))
    (hkey : parser.getThru 58 = (true, key, afterKey))
    (hblank : skipBlank afterKey = some afterBlank) (hheader : getHeader (key.getD []) = some header)
    (hval : afterBlank.getThruEOL.1 = false) :
    h.parseHeaders parser = some (CF_BadArgument, { h with fStatusCode := .httpBadRequest }) := by
  rw [parseHeaders, if_neg hpeek]
  split
  next => rfl
  next heq =>
    cases heq.symm.trans hkey
    split
    next hnone => cases hnone.symm.trans hblank
    next hsome =>
      cases hsome.symm.trans hblank
      split
      next hnone => cases hnone.symm.trans hheader
      next theHeader htheHeader =>
        split
        next => rfl
        next heq =>
          rw [heq] at hval
          cases hval

theorem parseHeader_of_checked {result : Except (CF_Error × HTTPPacket) (HTTPPacket × StringParser)}
    (hpeek : ¬ (parser.peekFast = 13 ∨ parser.peekFast = 10))
    (hc : h.parseHeaderChecked parser = some result) :
    h.parseHeaders parser =
      match result with
      | .error result => some result
      | .ok (h', parser') => h'.parseHeaders parser' := by
  obtain ⟨theKeyWord, hkey, hcolons⟩ := Option.bind_eq_some_iff.mp hc
  obtain ⟨colon, hcolon, hbehind⟩ := Option.bind_eq_some_iff.mp hcolons
  obtain rfl := eq_of_checked hkey
  obtain rfl := eq_of_checked hcolon
  split_ifs at hbehind with hfound
  · obtain ⟨blank, hblank, hheaders⟩ := Option.bind_eq_some_iff.mp hbehind
    obtain ⟨theHeader, hheader, hvals⟩ := Option.bind_eq_some_iff.mp hheaders
    obtain ⟨theHeaderVal, hval, heols⟩ := Option.bind_eq_some_iff.mp hvals
    obtain ⟨eol, heol, hset⟩ := Option.bind_eq_some_iff.mp heols
    have hskip := skipBlank_of_checked hblank
    obtain rfl := eq_of_checked hval
    obtain rfl := eq_of_checked heol
    have hthru : parser.getThru 58 = (true, (parser.consumeUntil (· == 58)).1,
        ((parser.consumeUntil (· == 58)).2.expect 58).2) := Prod.ext hfound rfl
    split_ifs at hset with hend
    · obtain ⟨h₁, hfield, rfl⟩ := Option.map_eq_some_iff.mp hset
      exact parseHeaders_step hpeek hthru hskip hheader (Prod.ext hend rfl) hfield
    · cases hset
      exact parseHeaders_noEndError hpeek hthru hskip hheader (Bool.eq_false_of_not_eq_true hend)
  · cases hbehind
    exact parseHeaders_noColonError hpeek (Bool.eq_false_of_not_eq_true hfound)

theorem parseHeaders_of_checked {result : CF_Error × HTTPPacket}
    (hc : h.parseHeadersChecked parser = some result) : h.parseHeaders parser = some result := by
  fun_induction parseHeadersChecked h parser with
  | case1 => cases hc
  | case2 h parser c hpeek hend =>
    obtain ⟨eol, heol, hfound⟩ := Option.bind_eq_some_iff.mp hc
    obtain rfl := eq_of_checked heol
    rw [parseHeaders, if_pos (by rwa [peekFast_of_checked hpeek])]
    exact hfound
  | case3 => cases hc
  | case4 h parser c hpeek hend result₁ hline =>
    rw [← peekFast_of_checked hpeek] at hend
    exact (parseHeader_of_checked hend hline).trans hc
  | case5 h parser c hpeek hend h₁ parser₁ hline ih =>
    rw [← peekFast_of_checked hpeek] at hend
    exact (parseHeader_of_checked hend hline).trans (ih hc)

/-- If no access and no assert fails, `Parse` has the result of the checked one. -/
theorem parse_of_checked {result : CF_Error × HTTPPacket} (hc : h.parseChecked = some result) :
    h.parse = some result := by
  obtain ⟨line, hline, hlines⟩ := Option.bind_eq_some_iff.mp hc
  obtain ⟨⟨err, h₁, parser₁⟩, hrequest, hrest⟩ := Option.bind_eq_some_iff.mp hlines
  obtain rfl := eq_of_checked hline
  refine Option.bind_eq_some_iff.mpr ⟨_, parseRequestLines_of_checked hrequest, ?_⟩
  dsimp only at hrest ⊢
  split_ifs at hrest ⊢
  · exact hrest
  · exact parseHeaders_of_checked hrest

end CxxFramework.Net.HTTPPacket
