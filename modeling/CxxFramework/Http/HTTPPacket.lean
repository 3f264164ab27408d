import CxxFramework.Core.StringTranslator
import CxxFramework.Http.HTTPProtocol
import Mathlib.Logic.Function.Basic

/-!
# HTTP packets

`HTTPPacket` parses the header of a request and writes the header of a response. `none`
stands for an access outside a buffer or a table, for the null pointer dereferenced, and for an
`Assert` that fails.

The query parameters and the accessors that no other part of the server uses are left out.
-/

namespace CxxFramework.Net

open CxxFramework.Core Buffer HTTPProtocol

abbrev CF_Error := Int

def CF_NoErr : CF_Error := 0
def CF_RequestFailed : CF_Error := -1
def CF_RequestArrived : CF_Error := -3
def CF_BadArgument : CF_Error := -10
def CF_WouldBlock : CF_Error := -14
def CF_FileNotFound : CF_Error := -16

/-- The text of `CFEnv::GetServerHeader` on Linux. -/
def sServerHeaderStr : Bytes :=
  ascii "CxxFramework/0.1 (Build/17.0823; Platform/Linux; " ++
    ascii "Release/CxxFramework; State/Development; )"

def kDateBufferLen : Nat := 29

/-- What `DateBuffer` holds after `InexactUpdate`. -/
structure DateBuffer where
  text : Bytes
  length_text : text.length = kDateBufferLen
  noZero : 0 ∉ text

structure HTTPPacket where
  fPacketHeader : Bytes := []
  /-- What stands in the request buffer behind the header. -/
  beyond : Bytes := []
  fHTTPType : HTTPType
  fVersion : HTTPVersion := .httpIllegalVersion
  fMethod : HTTPMethod := .httpIllegalMethod
  fStatusCode : HTTPStatusCode := .httpOK
  fRequestLine : StrPtrLen := none
  fAbsoluteURI : StrPtrLen := none
  fRelativeURI : StrPtrLen := none
  fAbsoluteURIScheme : StrPtrLen := none
  fHostHeader : StrPtrLen := none
  /-- The memory of `fRequestPath` up to the terminator. -/
  fRequestPath : Option Bytes := none
  fQueryString : Option Bytes := none
  fRequestKeepAlive : Bool := false
  fFieldValues : HTTPHeader → StrPtrLen := fun _ => none
  fHTTPBody : Option Bytes := none
  fHTTPHeaderFormatter : Option StringFormatter := none

namespace HTTPPacket

/-- The constructor for a packet to be parsed. -/
def ofHeader (packet beyond : Bytes) : HTTPPacket :=
  { fPacketHeader := packet, beyond, fHTTPType := .httpIllegalType }

/-! ## Parsing -/

/-- `sURLStopConditions` -/
def sURLStopConditions (c : UInt8) : Bool := c == 9 || c == 10 || c == 13 || c == 32 || c == 63

def kRelativeURIDecodedLen : Nat := 512

/-- The query string behind the URI. An empty one leaves the old one in place. -/
def parseQueryString (h : HTTPPacket) (parser : StringParser) : HTTPPacket × StringParser :=
  if parser.getDataRemaining > 0 ∧ parser.peekFast = 63 then
    let query := (parser.consumeLength 1).2.consumeUntilWhitespace
    (if query.1.getD [] = [] then h else { h with fQueryString := query.1 }, query.2)
  else (h, parser)

/-- The scheme and the host of a full URI, and what is left of it. The byte `first` where
the URI begins may stand behind it. -/
def parseHost (h : HTTPPacket) (first : UInt8) : HTTPPacket × StringParser :=
  let urlParser := StringParser.ofString h.fAbsoluteURI []
  if first = 47 then (h, urlParser)
  else
    let scheme := urlParser.consumeUntil (· == 58)
    let host := (scheme.2.consumeLength 3).2.consumeUntil (· == 47)
    ({ h with fAbsoluteURIScheme := scheme.1, fHostHeader := host.1 }, host.2)

/-- The last part of `parseURI`: `fRequestPath` is what `DecodeURL` makes of the relative
URI, without its first byte and with the byte behind it. -/
def parsePath (h : HTTPPacket) : Option (CF_Error × HTTPPacket) :=
  let fRelativeURI := h.fRelativeURI.getD []
  let len := fRelativeURI.length + 1
  (StringTranslator.decodeURL fRelativeURI (List.replicate kRelativeURIDecodedLen 0) len).bind
    fun (theBytesWritten, relativeURIDecoded) =>
      if theBytesWritten < 0 ∨ theBytesWritten = len then
        some (CF_BadArgument, { h with fStatusCode := .httpBadRequest })
      else if kRelativeURIDecodedLen < 1 + theBytesWritten.toNat then none
      else
        let fRequestPath := slice relativeURIDecoded 1 theBytesWritten.toNat
        some (CF_NoErr, { h with fRequestPath := some fRequestPath })

/-- `parseURI` -/
def parseURI (h : HTTPPacket) (parser : StringParser) :
    Option (CF_Error × HTTPPacket × StringParser) :=
  let uri := parser.consumeUntil sURLStopConditions
  let host := parseHost { h with fAbsoluteURI := uri.1 } parser.peekFast
  let query := host.1.parseQueryString uri.2
  let h := { query.1 with fRelativeURI := if host.2.isNull then none else some host.2.rest }
  h.parsePath.map fun (err, h) => (err, h, query.2)

/-- Going past the end of the request line. -/
def endRequestLine (h : HTTPPacket) (parser : StringParser) :
    CF_Error × HTTPPacket × StringParser :=
  let eol := parser.expectEOL
  if eol.1 then (CF_NoErr, h, eol.2)
  else (CF_BadArgument, { h with fStatusCode := .httpBadRequest }, eol.2)

/-- The version, if there is one. -/
def parseVersion (h : HTTPPacket) (versionStr : StrPtrLen) : Option HTTPPacket :=
  if versionStr.getD [] = [] then some h
  else (getVersion (versionStr.getD [])).map fun fVersion => { h with fVersion }

/-- `parseRequestLine` behind the method. -/
def parseRequest (h : HTTPPacket) (parser : StringParser) :
    Option (CF_Error × HTTPPacket × StringParser) :=
  let h := { h with fHTTPType := .httpRequestType }
  (h.parseURI parser.consumeWhitespace).bind fun (err, h, parser) =>
    if err ≠ CF_NoErr then some (err, h, parser)
    else
      let versionStr := parser.consumeWhitespace.consumeUntil sEOLMask
      (h.parseVersion versionStr.1).map (endRequestLine · versionStr.2)

/-- `parseRequestLine` -/
def parseRequestLine (h : HTTPPacket) (parser : StringParser) :
    Option (CF_Error × HTTPPacket × StringParser) :=
  let word := parser.consumeWord
  let parser := word.2
  let h := { h with fMethod := getMethod (word.1.getD []) }
  if h.fMethod ≠ .httpIllegalMethod then h.parseRequest parser
  else if word.1 = some (ascii "HTTP") then
    let status := parser.consumeUntilWhitespace.2.consumeUntilDigit.2.consumeInteger
    if status.1 ≠ 0 then
      let h := { h with fHTTPType := .httpResponseType }
      some (h.endRequestLine status.2.consumeWhitespace.consumeUntilWhitespace.2)
    else h.parseRequest status.2
  else some (h.endRequestLine parser)

/-- `setKeepAlive`, which asserts that every value but `close` is `keep-alive`. -/
def setKeepAlive (h : HTTPPacket) (keepAliveValue : StrPtrLen) : Option HTTPPacket :=
  (equalIgnoreCase (ascii "close") (keepAliveValue.getD [])).bind fun close =>
    if close then some { h with fRequestKeepAlive := false }
    else
      (equalIgnoreCase (ascii "keep-alive") (keepAliveValue.getD [])).bind fun alive =>
        if alive then some { h with fRequestKeepAlive := true } else none

theorem setKeepAlive_cases {h h' : HTTPPacket} {keepAliveValue : StrPtrLen}
    (hset : h.setKeepAlive keepAliveValue = some h') :
    ∃ keepAlive, h' = { h with fRequestKeepAlive := keepAlive } := by
  obtain ⟨close, -, hset⟩ := Option.bind_eq_some_iff.mp hset
  split_ifs at hset
  · exact ⟨false, (Option.some.inj hset).symm⟩
  · obtain ⟨alive, -, hset⟩ := Option.bind_eq_some_iff.mp hset
    split_ifs at hset
    exact ⟨true, (Option.some.inj hset).symm⟩

/-- One header line, once its keyword is consumed. -/
def setField (h : HTTPPacket) (theHeader : HTTPHeader) (theHeaderVal : StrPtrLen) :
    Option HTTPPacket :=
  (if theHeader = .httpConnectionHeader then h.setKeepAlive theHeaderVal else some h).map fun h =>
    if theHeader = .httpIllegalHeader then h
    else { h with fFieldValues := Function.update h.fFieldValues theHeader theHeaderVal }

/-- Skipping the blank behind the colon, which is asserted to be there once it was seen. -/
def skipBlank (parser : StringParser) : Option StringParser :=
  if parser.peekFast = 32 then
    let blank := parser.expect 32
    if blank.1 then some blank.2 else none
  else some parser

theorem skipBlank_le {parser parser' : StringParser} (hskip : skipBlank parser = some parser') :
    parser'.rest.length ≤ parser.rest.length := by
  unfold skipBlank at hskip
  dsimp only at hskip
  split_ifs at hskip with hpeek hblank
  · rw [← Option.some.inj hskip]
    exact (StringParser.expect_lt (Prod.ext hblank rfl : parser.expect 32 = (true, _))).le
  · rw [Option.some.inj hskip]

/-- `parseHeaders`, which asserts that it has come to a line end. -/
def parseHeaders (h : HTTPPacket) (parser : StringParser) : Option (CF_Error × HTTPPacket) :=
  if parser.peekFast = 13 ∨ parser.peekFast = 10 then
    if parser.expectEOL.1 then some (CF_NoErr, h) else none
  else
    match _hkey : parser.getThru 58 with
    | (false, _, _) => some (CF_BadArgument, { h with fStatusCode := .httpBadRequest })
    | (true, theKeyWord, afterKey) =>
      match _hblank : skipBlank afterKey with
      | none => none
      | some afterBlank =>
        match getHeader (theKeyWord.getD []) with
        | none => none
        | some theHeader =>
          match _hval : afterBlank.getThruEOL with
          | (false, _, _) => some (CF_BadArgument, { h with fStatusCode := .httpBadRequest })
          | (true, theHeaderVal, afterVal) =>
            match h.setField theHeader theHeaderVal with
            | none => none
            | some h => parseHeaders h afterVal
termination_by parser.rest.length
decreasing_by
  exact (StringParser.getThruEOL_lt _hval).trans_le
    ((skipBlank_le _hblank).trans (StringParser.getThru_lt _hkey).le)

/-- `GetHeaderValue`; `none` is the null pointer. -/
def getHeaderValue (h : HTTPPacket) (inHeader : HTTPHeader) : Option StrPtrLen :=
  if inHeader ≠ .httpIllegalHeader then some (h.fFieldValues inHeader) else none

/-! ### The request line and the type of the packet -/

@[simp] theorem parseHost_type (h : HTTPPacket) (first : UInt8) :
    (h.parseHost first).1.fHTTPType = h.fHTTPType := by
  unfold parseHost
  split_ifs <;> rfl

@[simp] theorem parseQueryString_type (h : HTTPPacket) (parser : StringParser) :
    (h.parseQueryString parser).1.fHTTPType = h.fHTTPType := by
  unfold parseQueryString
  dsimp only
  split_ifs <;> rfl

theorem parsePath_type {h h' : HTTPPacket} {err : CF_Error} (hpath : h.parsePath = some (err, h')) :
    h'.fHTTPType = h.fHTTPType := by
  obtain ⟨⟨theBytesWritten, decoded⟩, -, hpath⟩ := Option.bind_eq_some_iff.mp hpath
  dsimp only at hpath
  split_ifs at hpath <;> cases hpath <;> rfl

theorem parseURI_type {h h' : HTTPPacket} {parser parser' : StringParser} {err : CF_Error}
    (huri : h.parseURI parser = some (err, h', parser')) : h'.fHTTPType = h.fHTTPType := by
  obtain ⟨⟨err, h''⟩, hpath, heq⟩ := Option.map_eq_some_iff.mp huri
  cases heq
  simpa using parsePath_type hpath

theorem parseVersion_type {h h' : HTTPPacket} {versionStr : StrPtrLen}
    (hversion : h.parseVersion versionStr = some h') : h'.fHTTPType = h.fHTTPType := by
  unfold parseVersion at hversion
  split_ifs at hversion
  · cases hversion
    rfl
  · obtain ⟨version, -, rfl⟩ := Option.map_eq_some_iff.mp hversion
    rfl

@[simp] theorem endRequestLine_type (h : HTTPPacket) (parser : StringParser) :
    (h.endRequestLine parser).2.1.fHTTPType = h.fHTTPType := by
  unfold endRequestLine
  dsimp only
  split_ifs <;> rfl

theorem parseRequest_type {h h' : HTTPPacket} {parser parser' : StringParser} {err : CF_Error}
    (hrequest : h.parseRequest parser = some (err, h', parser')) :
    h'.fHTTPType = .httpRequestType := by
  obtain ⟨⟨err, h₁, parser₁⟩, huri, hrest⟩ := Option.bind_eq_some_iff.mp hrequest
  have htype := parseURI_type huri
  dsimp only at hrest
  split_ifs at hrest
  · cases hrest
    exact htype
  · obtain ⟨h₂, hversion, heq⟩ := Option.map_eq_some_iff.mp hrest
    have hend := endRequestLine_type h₂ (parser₁.consumeWhitespace.consumeUntil sEOLMask).2
    rw [heq] at hend
    exact hend.trans ((parseVersion_type hversion).trans htype)

theorem endRequestLine_lt {h h' : HTTPPacket} {parser parser' : StringParser}
    (hend : h.endRequestLine parser = (CF_NoErr, h', parser')) :
    parser'.rest.length < parser.rest.length := by
  unfold endRequestLine at hend
  dsimp only at hend
  split_ifs at hend with heol
  · cases hend
    exact StringParser.expectEOL_lt (Prod.ext heol rfl)
  · cases congrArg Prod.fst hend

/-- Only a line that is skipped as a whole leaves the type of the packet open. -/
theorem parseRequestLine_lt {h h' : HTTPPacket} {parser parser' : StringParser}
    (hline : h.parseRequestLine parser = some (CF_NoErr, h', parser'))
    (htype : h'.fHTTPType = .httpIllegalType) : parser'.rest.length < parser.rest.length := by
  unfold parseRequestLine at hline
  dsimp only at hline
  split_ifs at hline with hmethod hhttp hstatus
  · rw [parseRequest_type hline] at htype
    cases htype
  · have hresponse := congrArg (·.2.1.fHTTPType) (Option.some.inj hline)
    simp only [endRequestLine_type] at hresponse
    rw [← hresponse] at htype
    cases htype
  · rw [parseRequest_type hline] at htype
    cases htype
  · exact (endRequestLine_lt (Option.some.inj hline)).trans_le (StringParser.consumeUntil_le _ _)

/-- The loop of `Parse` over the request lines. -/
def parseRequestLines (h : HTTPPacket) (parser : StringParser) :
    Option (CF_Error × HTTPPacket × StringParser) :=
  match _hline : h.parseRequestLine parser with
  | none => none
  | some (err, h', parser') =>
    if _herr : err ≠ CF_NoErr then some (err, h', parser')
    else if _htype : h'.fHTTPType = .httpIllegalType then parseRequestLines h' parser'
    else some (CF_NoErr, h', parser')
termination_by parser.rest.length
decreasing_by
  obtain rfl := not_not.mp _herr
  exact parseRequestLine_lt _hline _htype

/-- `Parse` -/
def parse (h : HTTPPacket) : Option (CF_Error × HTTPPacket) :=
  let parser := StringParser.ofString (some h.fPacketHeader) h.beyond
  let h := { h with fRequestLine := (parser.consumeUntil sEOLMask).1 }
  (h.parseRequestLines parser).bind fun (err, h, parser) =>
    if err ≠ CF_NoErr then some (err, h) else h.parseHeaders parser

/-! ## Writing -/

def kMinHeaderSizeInBytes : Nat := 512

open ResizeableStringFormatter

/-- `putStatusLine` -/
def putStatusLine (putStream : StringFormatter) (status : HTTPStatusCode) (version : HTTPVersion) :
    Option StringFormatter := do
  let putStream ← put putStream (← getVersionString version)
  let putStream ← put putStream [32]
  let putStream ← put putStream (getStatusCodeAsString status)
  let putStream ← put putStream [32]
  let putStream ← put putStream (getStatusCodeString status)
  putEOL putStream

/-- `AppendResponseHeader` -/
def appendResponseHeader (h : HTTPPacket) (inHeader : HTTPHeader) (inValue : Bytes) :
    Option HTTPPacket := do
  let formatter ← put (← h.fHTTPHeaderFormatter) (getHeaderString inHeader)
  let formatter ← put formatter (ascii ": ")
  let formatter ← put formatter inValue
  let formatter ← putEOL formatter
  return { h with fHTTPHeaderFormatter := some formatter }

/-- `CreateResponseHeader`, which does nothing to a packet that is no response. -/
def createResponseHeader (h : HTTPPacket) (date : DateBuffer) : Option HTTPPacket :=
  if h.fHTTPType ≠ .httpResponseType then some h
  else do
    let formatter ← putStatusLine { size := kMinHeaderSizeInBytes } h.fStatusCode h.fVersion
    let h := { h with fHTTPHeaderFormatter := some formatter }
    let h ← h.appendResponseHeader .httpServerHeader sServerHeaderStr
    let h ← h.appendResponseHeader .httpDateHeader date.text
    h.appendResponseHeader .httpAccessControlAllowOriginHeader (ascii "*")

/-- `AppendContentLengthHeader` -/
def appendContentLengthHeader (h : HTTPPacket) (length : Nat) : Option HTTPPacket :=
  h.appendResponseHeader .httpContentLengthHeader (decimal length)

/-- `AppendConnectionCloseHeader` -/
def appendConnectionCloseHeader (h : HTTPPacket) : Option HTTPPacket :=
  h.appendResponseHeader .httpConnectionHeader (ascii "close")

/-- `AppendConnectionKeepAliveHeader` -/
def appendConnectionKeepAliveHeader (h : HTTPPacket) : Option HTTPPacket :=
  h.appendResponseHeader .httpConnectionHeader (ascii "keep-alive")

/-- `GetCompleteHTTPHeader`. `fHTTPHeader` points to the first buffer of the formatter,
which does not hold the header any more once the formatter has moved to a larger one. -/
def getCompleteHTTPHeader (h : HTTPPacket) : Option (Bytes × HTTPPacket) := do
  let formatter ← putEOL (← h.fHTTPHeaderFormatter)
  if formatter.size ≠ kMinHeaderSizeInBytes then none
  else some (formatter.content, { h with fHTTPHeaderFormatter := some formatter })

end HTTPPacket

end CxxFramework.Net
