import CxxFramework.Http.HeaderText

/-!
# Parsing the request that was written

`CreateRequestHeader` writes a request line for the root and the field of the user agent;
`AppendResponseHeader` appends a line for each further field. `Parse` reads the method, the
version and every field back, as long as the header does not outgrow its first buffer.
-/

namespace CxxFramework.Net.HTTPPacket

open CxxFramework.Core Buffer HTTPProtocol StringParser ResizeableStringFormatter

variable {method : HTTPMethod} {version : HTTPVersion} {fields : List Field}
  {f g : StringFormatter} {text parsed rest : Bytes} {h h' : HTTPPacket} {p q : StringParser}

/-! ## Writing a request -/

/-- `putMethedLine` -/
def putMethedLine (putStream : StringFormatter) (method : HTTPMethod) (version : HTTPVersion) :
    Option StringFormatter := do
  let putStream ← put putStream (← sMethods method)
  let putStream ← put putStream [32]
  let putStream ← put putStream [47]
  let putStream ← put putStream [32]
  let putStream ← put putStream (← getVersionString version)
  putEOL putStream

/-- `CreateRequestHeader`, which does nothing to a packet that is no request. -/
def createRequestHeader (h : HTTPPacket) : Option HTTPPacket :=
  if h.fHTTPType ≠ .httpRequestType then some h
  else do
    let formatter ← putMethedLine { size := kMinHeaderSizeInBytes } h.fMethod h.fVersion
    let h := { h with fHTTPHeaderFormatter := some formatter }
    h.appendResponseHeader .httpUserAgentHeader sServerHeaderStr

/-- The whole header of a request: `CreateRequestHeader`, an `AppendResponseHeader` for each
field, and `GetCompleteHTTPHeader`. -/
def writeRequest (method : HTTPMethod) (version : HTTPVersion) (fields : List Field) :
    Option Bytes := do
  let h ← createRequestHeader
    { fHTTPType := .httpRequestType, fMethod := method, fVersion := version }
  let h ← fields.foldlM (fun h field => h.appendResponseHeader field.1 field.2) h
  let complete ← h.getCompleteHTTPHeader
  return complete.1

def methodLine (method : HTTPMethod) (version : HTTPVersion) : Bytes :=
  (sMethods method).getD [] ++ ([32] ++ ([47] ++ ([32] ++
    ((getVersionString version).getD [] ++ [13, 10]))))

/-- The field that `CreateRequestHeader` writes. -/
def userAgentField : Field := (.httpUserAgentHeader, sServerHeaderStr)

/-- The text of the whole header. -/
def requestText (method : HTTPMethod) (version : HTTPVersion) (fields : List Field) : Bytes :=
  methodLine method version ++ (fieldLines (userAgentField :: fields) ++ [13, 10])

theorem requestText_eq (method : HTTPMethod) (version : HTTPVersion) (fields : List Field) :
    requestText method version fields =
      methodLine method version ++ fieldLine userAgentField ++ fieldLines fields ++ [13, 10] := by
  simp only [requestText, fieldLines, List.flatMap_cons, List.append_assoc]

theorem exists_method_text (hmethod : method ≠ .httpIllegalMethod) :
    ∃ name, sMethods method = some name ∧ getMethod name = method ∧
      ∀ c ∈ name, sNonWordMask c = false := by
  cases method with
  | httpIllegalMethod => exact absurd rfl hmethod
  | httpGetMethod | httpHeadMethod | httpPostMethod | httpOptionsMethod | httpPutMethod
  | httpDeleteMethod | httpTraceMethod | httpConnectMethod =>
    exact ⟨_, rfl, by decide, by decide⟩

theorem exists_version_text (hversion : version ≠ .httpIllegalVersion) :
    ∃ name, getVersionString version = some name ∧ getVersion name = some version ∧
      name ≠ [] ∧ (∀ c ∈ name, sEOLMask c = false) ∧ name.head? = some 72 := by
  cases version with
  | httpIllegalVersion => exact absurd rfl hversion
  | http09version | http10Version | http11Version =>
    exact ⟨_, rfl, by decide, by decide, by decide, rfl⟩

theorem putMethedLine_written (hf : Holds f []) (hmethod : method ≠ .httpIllegalMethod)
    (hversion : version ≠ .httpIllegalVersion)
    (hroom : (methodLine method version).length < kMinHeaderSizeInBytes) :
    ∃ g, putMethedLine f method version = some g ∧ Holds g (methodLine method version) := by
  obtain ⟨name, hname, -⟩ := exists_method_text hmethod
  obtain ⟨text, htext, -⟩ := exists_version_text hversion
  have hend : ([13, 10] : Bytes).length = 2 := rfl
  have hblank : ([32] : Bytes).length = 1 := rfl
  have hslash : ([47] : Bytes).length = 1 := rfl
  simp only [methodLine, hname, htext, Option.getD_some, List.length_append] at hroom ⊢
  obtain ⟨f₁, hput₁, h₁⟩ := hf.put name (by
    rw [List.length_nil]
    omega)
  obtain ⟨f₂, hput₂, h₂⟩ := h₁.put [32] (by
    simp only [List.length_append, List.length_nil]
    omega)
  obtain ⟨f₃, hput₃, h₃⟩ := h₂.put [47] (by
    simp only [List.length_append, List.length_nil]
    omega)
  obtain ⟨f₄, hput₄, h₄⟩ := h₃.put [32] (by
    simp only [List.length_append, List.length_nil]
    omega)
  obtain ⟨f₅, hput₅, h₅⟩ := h₄.put text (by
    simp only [List.length_append, List.length_nil]
    omega)
  obtain ⟨f₆, hput₆, h₆⟩ := h₅.put [13, 10] (by
    simp only [List.length_append, List.length_nil]
    omega)
  refine ⟨f₆, ?_, ?_⟩
  · simp only [putMethedLine, Option.bind_eq_bind, Option.bind_eq_some_iff]
    exact ⟨name, hname, f₁, hput₁, f₂, hput₂, f₃, hput₃, f₄, hput₄, text, htext, f₅, hput₅, hput₆⟩
  · simpa only [List.append_assoc, List.nil_append] using h₆

theorem putMethedLine_puts (hf : Puts f []) (hline : putMethedLine f method version = some g) :
    method ≠ .httpIllegalMethod ∧ version ≠ .httpIllegalVersion ∧
      Puts g (methodLine method version) := by
  simp only [putMethedLine, Option.bind_eq_bind, Option.bind_eq_some_iff] at hline
  obtain ⟨name, hname, f₁, h₁, f₂, h₂, f₃, h₃, f₄, h₄, text, htext, f₅, h₅, h₆⟩ := hline
  refine ⟨?_, ?_, ?_⟩
  · rintro rfl
    cases hname
  · rintro rfl
    cases htext
  · have hputs := (((((hf.put h₁).put h₂).put h₃).put h₄).put h₅).put h₆
    simpa only [methodLine, hname, htext, Option.getD_some, List.append_assoc, List.nil_append]
      using hputs

/-- A request below the size of the first buffer is written as it is. -/
theorem writeRequest_eq (hmethod : method ≠ .httpIllegalMethod)
    (hversion : version ≠ .httpIllegalVersion)
    (hroom : (requestText method version fields).length < kMinHeaderSizeInBytes) :
    writeRequest method version fields = some (requestText method version fields) := by
  have hend : ([13, 10] : Bytes).length = 2 := rfl
  rw [requestText_eq] at hroom ⊢
  rw [List.length_append, List.length_append, List.length_append] at hroom
  obtain ⟨f, hline, hf⟩ := putMethedLine_written (f := { size := kMinHeaderSizeInBytes })
    ⟨rfl, rfl⟩ hmethod hversion (by omega)
  let created : HTTPPacket :=
    { fHTTPType := .httpRequestType, fMethod := method, fVersion := version,
      fHTTPHeaderFormatter := some f }
  obtain ⟨h₁, happend, hh₁⟩ := appendResponseHeader_written (h := created) userAgentField
    ⟨f, rfl, hf⟩ (by omega)
  obtain ⟨h₂, hfold, f₂, hf₂, hholds⟩ := appendFields_written fields hh₁ (by
    rw [List.length_append]
    omega)
  obtain ⟨g, hput, hg⟩ := hholds.put [13, 10] (by
    simp only [List.length_append]
    omega)
  have hcomplete : h₂.getCompleteHTTPHeader =
      some (g.content, { h₂ with fHTTPHeaderFormatter := some g }) := by
    simp only [getCompleteHTTPHeader, Option.bind_eq_bind, Option.bind_eq_some_iff]
    exact ⟨f₂, hf₂, g, hput, if_neg (not_not.mpr hg.size)⟩
  have hcreate : createRequestHeader
      { fHTTPType := .httpRequestType, fMethod := method, fVersion := version } = some h₁ := by
    unfold createRequestHeader
    rw [if_neg (not_not.mpr rfl), Option.bind_eq_bind, Option.bind_eq_some_iff]
    exact ⟨f, hline, happend⟩
  simp only [writeRequest, Option.bind_eq_bind, Option.bind_eq_some_iff]
  exact ⟨h₁, hcreate, h₂, hfold, _, hcomplete, congrArg some hg.content⟩

/-- A request that is returned has a method and a version, and is in the first buffer. -/
theorem writeRequest_fits (hwrite : writeRequest method version fields = some text) :
    method ≠ .httpIllegalMethod ∧ version ≠ .httpIllegalVersion ∧
      (requestText method version fields).length < kMinHeaderSizeInBytes := by
  have hempty : Puts { size := kMinHeaderSizeInBytes } [] :=
    ⟨⟨Nat.zero_le _, by decide, by decide⟩, rfl, le_rfl⟩
  simp only [writeRequest, Option.bind_eq_bind, Option.bind_eq_some_iff] at hwrite
  obtain ⟨h₁, hcreate, h₂, hfold, complete, hget, -⟩ := hwrite
  unfold createRequestHeader at hcreate
  rw [if_neg (not_not.mpr rfl), Option.bind_eq_bind, Option.bind_eq_some_iff] at hcreate
  obtain ⟨f, hline, happend⟩ := hcreate
  obtain ⟨hmethod, hversion, hputs⟩ := putMethedLine_puts hempty hline
  refine ⟨hmethod, hversion, ?_⟩
  have hh₁ : HasPut h₁ (methodLine method version ++ fieldLine userAgentField) :=
    appendResponseHeader_puts userAgentField ⟨f, rfl, hputs⟩ happend
  obtain ⟨f', hf', hputs'⟩ := appendFields_puts _ hh₁ hfold
  simp only [getCompleteHTTPHeader, Option.bind_eq_bind, Option.bind_eq_some_iff] at hget
  obtain ⟨f'', hf'', g, hput, hg⟩ := hget
  cases hf'.symm.trans hf''
  split_ifs at hg with hsize
  have hmin : kMinHeaderSizeInBytes = 512 := rfl
  rcases put_size hputs'.valid hputs'.size (by decide) hput with ⟨heq, hlt⟩ | hlarge
  · have hroom := hlt (by decide)
    rw [hputs'.content] at hroom
    rw [requestText_eq, List.length_append]
    omega
  · omega

/-! ## Reading it back -/

/-- The path of the root is decoded. -/
theorem parsePath_root (hrel : h.fRelativeURI = some [47]) :
    ∃ fRequestPath,
      h.parsePath = some (CF_NoErr, { h with fRequestPath := some fRequestPath }) := by
  have hresult : (StringTranslator.decodeURL [47] (List.replicate kRelativeURIDecodedLen 0) 2).map
      Prod.fst = some 1 := by decide +kernel
  obtain ⟨⟨n, decoded⟩, hdecode, rfl⟩ := Option.map_eq_some_iff.mp hresult
  refine ⟨slice decoded 1 1, ?_⟩
  have hlen : ([47] : Bytes).length + 1 = 2 := rfl
  simp only [parsePath, hrel, Option.getD_some, hlen, hdecode, Option.bind_some, Nat.cast_ofNat]
  rfl

/-- The root, and a blank behind it. -/
theorem parseURI_root (h : HTTPPacket) (hp : At p parsed (47 :: 32 :: rest)) :
    ∃ h' q parsed', h.parseURI p = some (CF_NoErr, h', q) ∧ h'.fHTTPType = h.fHTTPType ∧
      h'.fMethod = h.fMethod ∧ h'.fRelativeURI = some [47] ∧ h'.fFieldValues = h.fFieldValues ∧
      h'.fHTTPBody = h.fHTTPBody ∧ At q parsed' (32 :: rest) := by
  obtain ⟨q, huri, hq⟩ := hp.consumeByte sURLStopConditions (by decide) (by decide)
  have hfirst := hp.peekFast
  have hblank : ¬ (q.getDataRemaining > 0 ∧ q.peekFast = 63) := fun hquery => by
    rw [hq.peekFast] at hquery
    exact absurd hquery.2 (by decide)
  have hat := at_ofString [47] []
  let start : HTTPPacket :=
    { h with fAbsoluteURI := some [47], fRelativeURI := some [47] }
  obtain ⟨fRequestPath, hpath⟩ := parsePath_root (h := start) rfl
  refine ⟨{ start with fRequestPath := some fRequestPath }, q, _, ?_, rfl, rfl, rfl, rfl, rfl, hq⟩
  simp only [parseURI, huri, hfirst, parseHost, if_true, parseQueryString, if_neg hblank,
    hat.notNull, hat.rest_eq, Bool.false_eq_true, if_false]
  rw [hpath]
  rfl

/-- A method line is read back. -/
theorem parseRequestLine_methodLine (h : HTTPPacket) (hmethod : method ≠ .httpIllegalMethod)
    (hversion : version ≠ .httpIllegalVersion)
    (hp : At p parsed (methodLine method version ++ rest)) :
    ∃ h' q parsed', h.parseRequestLine p = some (CF_NoErr, h', q) ∧
      h'.fHTTPType = .httpRequestType ∧ h'.fMethod = method ∧ h'.fVersion = version ∧
      h'.fRelativeURI = some [47] ∧ h'.fFieldValues = h.fFieldValues ∧
      h'.fHTTPBody = h.fHTTPBody ∧ At q parsed' rest := by
  obtain ⟨name, hname, hget, hword⟩ := exists_method_text hmethod
  obtain ⟨text, htext, hgetVersion, hne, hline, hhead⟩ := exists_version_text hversion
  obtain ⟨c, tail, rfl⟩ := List.exists_cons_of_ne_nil hne
  obtain rfl : c = 72 := Option.some.inj hhead
  have hshape : methodLine method version ++ rest =
      name ++ 32 :: (47 :: 32 :: 72 :: (tail ++ 13 :: 10 :: rest)) := by
    simp only [methodLine, hname, htext, Option.getD_some, List.append_assoc, List.cons_append,
      List.nil_append]
  rw [hshape] at hp
  obtain ⟨q₁, hmethodWord, hq₁⟩ := hp.consumeText sNonWordMask hword (by decide)
  obtain ⟨q₂, hwhite, hq₂⟩ := hq₁.consumeByte sNonWhitespaceMask (by decide) (by decide)
  obtain ⟨h₁, q₃, parsed₃, huri, htype, hmethod₁, hrel, hvalues, hbody, hq₃⟩ :=
    parseURI_root { h with fMethod := method, fHTTPType := .httpRequestType } hq₂
  obtain ⟨q₄, hwhite', hq₄⟩ := hq₃.consumeByte sNonWhitespaceMask (by decide) (by decide)
  rw [← List.cons_append] at hq₄
  obtain ⟨q₅, hversionText, hq₅⟩ := hq₄.consumeText sEOLMask hline (by decide)
  obtain ⟨q₆, heol, hq₆⟩ := At.expectEOL (e := [13, 10]) hq₅ (.crlf rest)
  refine ⟨{ h₁ with fVersion := version }, q₆, _, ?_, htype, hmethod₁, rfl, hrel, hvalues, hbody,
    hq₆⟩
  simp only [parseRequestLine, consumeWord, hmethodWord, Option.getD_some, hget, ne_eq, hmethod,
    not_false_eq_true, if_true, parseRequest, consumeWhitespace, hwhite, huri, Option.bind_some,
    not_true, if_false, hwhite', hversionText, parseVersion, reduceCtorEq, hgetVersion,
    Option.map_some, endRequestLine, heol]

/-- The loop ends behind a request line. -/
theorem parseRequestLines_of_request (hline : h.parseRequestLine p = some (CF_NoErr, h', q))
    (htype : h'.fHTTPType = .httpRequestType) :
    h.parseRequestLines p = some (CF_NoErr, h', q) := by
  rw [parseRequestLines]
  split
  next heq => rw [hline] at heq; cases heq
  next err h₁ q₁ heq =>
    rw [hline] at heq
    cases heq
    rw [dif_neg (not_not.mpr rfl), dif_neg (by rw [htype]; decide)]

/-- The request line and the body are as they were. -/
structure SameLine (h h' : HTTPPacket) : Prop where
  fMethod : h'.fMethod = h.fMethod
  fVersion : h'.fVersion = h.fVersion
  fRelativeURI : h'.fRelativeURI = h.fRelativeURI
  fHTTPBody : h'.fHTTPBody = h.fHTTPBody

theorem setField_sameLine {header : HTTPHeader} {value : StrPtrLen}
    (hset : h.setField header value = some h') : SameLine h h' := by
  obtain ⟨h₁, hkeep, rfl⟩ := Option.map_eq_some_iff.mp hset
  have hsame : SameLine h h₁ := by
    split_ifs at hkeep
    · obtain ⟨keepAlive, rfl⟩ := setKeepAlive_cases hkeep
      exact ⟨rfl, rfl, rfl, rfl⟩
    · cases hkeep
      exact ⟨rfl, rfl, rfl, rfl⟩
  split_ifs <;> exact ⟨hsame.fMethod, hsame.fVersion, hsame.fRelativeURI, hsame.fHTTPBody⟩

theorem parseHeaders_sameLine {err : CF_Error} (hparse : h.parseHeaders p = some (err, h')) :
    SameLine h h' := by
  fun_induction parseHeaders h p with
  | case1 | case3 | case6 =>
    cases hparse
    exact ⟨rfl, rfl, rfl, rfl⟩
  | case2 | case4 | case5 | case7 => cases hparse
  | case8 h p hend key afterKey hkey afterBlank hblank header hheader val afterVal hval h₁ hset ih =>
    have hfirst := setField_sameLine hset
    have hrest := ih hparse
    exact ⟨hrest.fMethod.trans hfirst.fMethod, hrest.fVersion.trans hfirst.fVersion,
      hrest.fRelativeURI.trans hfirst.fRelativeURI, hrest.fHTTPBody.trans hfirst.fHTTPBody⟩

/-! ## The round trip -/

theorem userAgentField_isField : IsField userAgentField :=
  isField_of_ne (by decide) (by decide) (by decide)

/-- Whatever stands behind the header, the request is accepted. -/
theorem parse_request (hmethod : method ≠ .httpIllegalMethod)
    (hversion : version ≠ .httpIllegalVersion) (hfields : ∀ field ∈ fields, IsField field)
    (beyond : Bytes) :
    ∃ h, (ofHeader (requestText method version fields) beyond).parse = some (CF_NoErr, h) ∧
      h.fHTTPType = .httpRequestType ∧ h.fMethod = method ∧ h.fVersion = version ∧
      h.fRelativeURI = some [47] ∧ h.fHTTPBody = none ∧
      h.fFieldValues = setFields (fun _ => none) (userAgentField :: fields) := by
  have hat := at_ofString (requestText method version fields) beyond
  conv at hat =>
    enter [3]
    rw [requestText]
  obtain ⟨h₁, q, parsed, hline, htype, hmethod₁, hversion₁, hrel, hvalues, hbody, hq⟩ :=
    parseRequestLine_methodLine (atFirstLine (requestText method version fields) beyond) hmethod
      hversion hat
  obtain ⟨h₂, hheaders, htype₂, hvalues₂⟩ := parseHeaders_fields h₁ hq
    (List.forall_mem_cons.mpr ⟨userAgentField_isField, hfields⟩)
  have hsame := parseHeaders_sameLine hheaders
  refine ⟨h₂, ?_, htype₂.trans htype, hsame.fMethod.trans hmethod₁, hsame.fVersion.trans hversion₁,
    hsame.fRelativeURI.trans hrel, hsame.fHTTPBody.trans hbody, ?_⟩
  · rw [parse_ofHeader, parseRequestLines_of_request hline htype, Option.bind_some]
    exact (if_neg (not_not.mpr rfl)).trans hheaders
  · rw [hvalues₂, hvalues]
    rfl

/-- The request is returned, and accepted with its method, its version and every field,
whatever stands behind it in the buffer. -/
def RequestRoundTrips (method : HTTPMethod) (version : HTTPVersion) (fields : List Field) : Prop :=
  ∃ header, writeRequest method version fields = some header ∧
    ∀ beyond, ∃ h, (ofHeader header beyond).parse = some (CF_NoErr, h) ∧
      h.fHTTPType = .httpRequestType ∧ h.fMethod = method ∧ h.fVersion = version ∧
      h.fRelativeURI = some (ascii "/") ∧
      ∀ field ∈ fields, h.getHeaderValue field.1 = some (some field.2)

/-- A request is read back exactly if it has a method and a version and is shorter than the
first buffer. -/
theorem requestRoundTrips_iff (method : HTTPMethod) (version : HTTPVersion)
    (hfields : AreFields fields) :
    RequestRoundTrips method version fields ↔
      method ≠ .httpIllegalMethod ∧ version ≠ .httpIllegalVersion ∧
        (requestText method version fields).length < kMinHeaderSizeInBytes := by
  constructor
  · rintro ⟨header, hwrite, -⟩
    exact writeRequest_fits hwrite
  · rintro ⟨hmethod, hversion, hroom⟩
    refine ⟨_, writeRequest_eq hmethod hversion hroom, fun beyond => ?_⟩
    obtain ⟨h, hparse, htype, hmethod', hversion', hrel, -, hvalues⟩ :=
      parse_request hmethod hversion hfields.field beyond
    refine ⟨h, hparse, htype, hmethod', hversion', hrel, fun field hmem => ?_⟩
    rw [getHeaderValue, if_pos (hfields.field field hmem).known, hvalues]
    exact congrArg some (setFields_of_mem hfields.distinct hmem _)

/-- A request of five bytes. -/
def postFields : List Field :=
  [(.httpHostHeader, ascii "a"), (.httpContentLengthHeader, ascii "5")]

theorem postFields_areFields : AreFields postFields where
  distinct := by decide
  field := by
    intro field hfield
    simp only [postFields, List.mem_cons, List.not_mem_nil, or_false] at hfield
    rcases hfield with rfl | rfl
    · exact isField_of_ne (by decide) (by decide) (by decide)
    · exact isField_of_ne (by decide) (by decide) (by decide)

set_option maxRecDepth 4000 in
theorem postFields_short :
    (requestText .httpPostMethod .http11Version postFields).length < kMinHeaderSizeInBytes := by
  decide

theorem requestRoundTrips_iff_post :
    RequestRoundTrips .httpPostMethod .http11Version postFields :=
  (requestRoundTrips_iff .httpPostMethod .http11Version postFields_areFields).mpr
    ⟨by decide, by decide, postFields_short⟩

end CxxFramework.Net.HTTPPacket
