import CxxFramework.Core.DateTranslator
import CxxFramework.Http.HeaderLookup
import CxxFramework.Http.ResponseHeader
import CxxFramework.Http.TableSearch
import CxxFramework.Library.Calendar

/-!
# Parsing the header that was written

The header that `CreateResponseHeader` and `AppendResponseHeader` write is a status line and
a line for each field. `Parse` reads the field lines back, but of the text of the status it
reads one word only: a header is accepted exactly if that text has no blank.
-/

namespace CxxFramework.Net

open CxxFramework.Core HTTPProtocol StringParser

/-! ## Writing a header -/

/-- What `InexactUpdate` leaves in the buffer at a time. -/
def DateBuffer.update (gmt : Tm) : DateBuffer where
  text := DateTranslator.strftime gmt
  length_text := DateTranslator.length_strftime gmt
  noZero := (DateTranslator.printable_strftime gmt).notMem (by decide)

namespace HTTPPacket

/-- A header and its value. -/
abbrev Field := HTTPHeader × Bytes

/-- The whole header of a response: `CreateResponseHeader`, an `AppendResponseHeader` for
each field, and `GetCompleteHTTPHeader`. -/
def writeHeader (version : HTTPVersion) (status : HTTPStatusCode) (gmt : Tm)
    (fields : List Field) : Option Bytes := do
  let h ← createResponseHeader
    { fHTTPType := .httpResponseType, fVersion := version, fStatusCode := status } (.update gmt)
  let h ← fields.foldlM (fun h field => h.appendResponseHeader field.1 field.2) h
  let complete ← h.getCompleteHTTPHeader
  return complete.1

/-- The line of a field, with its end. -/
def fieldLine (field : Field) : Bytes :=
  getHeaderString field.1 ++ (ascii ": " ++ (field.2 ++ [13, 10]))

def fieldLines (fields : List Field) : Bytes := fields.flatMap fieldLine

/-- The fields that `CreateResponseHeader` writes with a date. -/
def headerFields (date : DateBuffer) : List Field :=
  [(.httpServerHeader, sServerHeaderStr), (.httpDateHeader, date.text),
    (.httpAccessControlAllowOriginHeader, ascii "*")]

/-- The fields that `CreateResponseHeader` writes. -/
def createdFields (gmt : Tm) : List Field :=
  [(.httpServerHeader, sServerHeaderStr), (.httpDateHeader, DateTranslator.strftime gmt),
    (.httpAccessControlAllowOriginHeader, ascii "*")]

def statusLine (version : HTTPVersion) (status : HTTPStatusCode) : Bytes :=
  (getVersionString version).getD [] ++ ([32] ++ (getStatusCodeAsString status ++
    ([32] ++ (getStatusCodeString status ++ [13, 10]))))

/-- The text of the whole header. -/
def headerText (version : HTTPVersion) (status : HTTPStatusCode) (gmt : Tm)
    (fields : List Field) : Bytes :=
  statusLine version status ++ (fieldLines (createdFields gmt ++ fields) ++ [13, 10])

/-! ### Writing without a growth of the buffer -/

/-- The formatter holds a text in its first buffer. -/
structure Holds (f : StringFormatter) (text : Bytes) : Prop where
  content : f.content = text
  size : f.size = kMinHeaderSizeInBytes

theorem Holds.put {f : StringFormatter} {text : Bytes} (hf : Holds f text) (buffer : Bytes)
    (hroom : text.length + buffer.length < kMinHeaderSizeInBytes) :
    ∃ g, ResizeableStringFormatter.put f buffer = some g ∧ Holds g (text ++ buffer) := by
  have hvalid : ResizeableStringFormatter.Valid f := by
    refine ⟨?_, ?_, ?_⟩
    · rw [hf.content, hf.size]
      exact (Nat.le_add_right _ _).trans hroom.le
    · simp [hf.size, kMinHeaderSizeInBytes]
    · simp [hf.size, kMinHeaderSizeInBytes, uint32Size]
  have hspace : buffer.length < f.getSpaceLeft := by
    rw [StringFormatter.getSpaceLeft, hf.content, hf.size]
    omega
  exact ⟨f.append buffer, ResizeableStringFormatter.put_of_room hvalid hspace,
    congrArg (· ++ buffer) hf.content, hf.size⟩

/-- The packet has written a text to the first buffer of its formatter. -/
def Written (h : HTTPPacket) (text : Bytes) : Prop :=
  ∃ f, h.fHTTPHeaderFormatter = some f ∧ Holds f text

theorem length_colonSpace : (ascii ": ").length = 2 := by simp [ascii]

theorem length_fieldLine (field : Field) :
    (fieldLine field).length = (getHeaderString field.1).length + field.2.length + 4 := by
  simp only [fieldLine, List.length_append, length_colonSpace, List.length_cons, List.length_nil]
  omega

theorem appendResponseHeader_written {h : HTTPPacket} {text : Bytes} (field : Field)
    (hh : Written h text)
    (hroom : text.length + (fieldLine field).length < kMinHeaderSizeInBytes) :
    ∃ h', h.appendResponseHeader field.1 field.2 = some h' ∧
      Written h' (text ++ fieldLine field) := by
  obtain ⟨f, hf, hholds⟩ := hh
  rw [length_fieldLine] at hroom
  have hcolon := length_colonSpace
  have hend : ([13, 10] : Bytes).length = 2 := rfl
  obtain ⟨f₁, hput₁, h₁⟩ := hholds.put (getHeaderString field.1) (by omega)
  obtain ⟨f₂, hput₂, h₂⟩ := h₁.put (ascii ": ") (by
    rw [List.length_append]
    omega)
  obtain ⟨f₃, hput₃, h₃⟩ := h₂.put field.2 (by
    simp only [List.length_append]
    omega)
  obtain ⟨f₄, hput₄, h₄⟩ := h₃.put [13, 10] (by
    simp only [List.length_append]
    omega)
  refine ⟨{ h with fHTTPHeaderFormatter := some f₄ }, ?_, f₄, rfl, ?_⟩
  · simp only [appendResponseHeader, Option.bind_eq_bind, Option.bind_eq_some_iff]
    exact ⟨f, hf, f₁, hput₁, f₂, hput₂, f₃, hput₃, f₄, hput₄, rfl⟩
  · simpa only [fieldLine, List.append_assoc] using h₄

theorem putStatusLine_written {version : HTTPVersion} (status : HTTPStatusCode)
    {f : StringFormatter} (hf : Holds f []) (hversion : version ≠ .httpIllegalVersion)
    (hroom : (statusLine version status).length < kMinHeaderSizeInBytes) :
    ∃ g, putStatusLine f status version = some g ∧ Holds g (statusLine version status) := by
  obtain ⟨text, htext⟩ : ∃ text, getVersionString version = some text := by
    cases version with
    | httpIllegalVersion => exact absurd rfl hversion
    | http09version | http10Version | http11Version => exact ⟨_, rfl⟩
  have hend : ([13, 10] : Bytes).length = 2 := rfl
  have hblank : ([32] : Bytes).length = 1 := rfl
  simp only [statusLine, htext, Option.getD_some, List.length_append] at hroom ⊢
  obtain ⟨f₁, hput₁, h₁⟩ := hf.put text (by
    rw [List.length_nil]
    omega)
  obtain ⟨f₂, hput₂, h₂⟩ := h₁.put [32] (by
    simp only [List.length_append, List.length_nil]
    omega)
  obtain ⟨f₃, hput₃, h₃⟩ := h₂.put (getStatusCodeAsString status) (by
    simp only [List.length_append, List.length_nil]
    omega)
  obtain ⟨f₄, hput₄, h₄⟩ := h₃.put [32] (by
    simp only [List.length_append, List.length_nil]
    omega)
  obtain ⟨f₅, hput₅, h₅⟩ := h₄.put (getStatusCodeString status) (by
    simp only [List.length_append, List.length_nil]
    omega)
  obtain ⟨f₆, hput₆, h₆⟩ := h₅.put [13, 10] (by
    simp only [List.length_append, List.length_nil]
    omega)
  refine ⟨f₆, ?_, ?_⟩
  · simp only [putStatusLine, Option.bind_eq_bind, Option.bind_eq_some_iff]
    exact ⟨text, htext, f₁, hput₁, f₂, hput₂, f₃, hput₃, f₄, hput₄, f₅, hput₅, hput₆⟩
  · simpa only [List.append_assoc, List.nil_append] using h₆

theorem appendFields_written {h : HTTPPacket} {text : Bytes} (fields : List Field)
    (hh : Written h text)
    (hroom : text.length + (fieldLines fields).length < kMinHeaderSizeInBytes) :
    ∃ h', fields.foldlM (fun h field => h.appendResponseHeader field.1 field.2) h = some h' ∧
      Written h' (text ++ fieldLines fields) := by
  induction fields generalizing h text with
  | nil => exact ⟨h, rfl, by simpa [fieldLines] using hh⟩
  | cons field fields ih =>
    have hcons : fieldLines (field :: fields) = fieldLine field ++ fieldLines fields :=
      List.flatMap_cons ..
    rw [hcons, List.length_append] at hroom
    obtain ⟨h₁, happend, hh₁⟩ := appendResponseHeader_written field hh (by omega)
    obtain ⟨h₂, hfold, hh₂⟩ := ih hh₁ (by
      rw [List.length_append]
      omega)
    refine ⟨h₂, ?_, ?_⟩
    · rw [List.foldlM_cons, happend]
      exact hfold
    · rwa [hcons, ← List.append_assoc]

theorem createResponseHeader_written {h : HTTPPacket} (date : DateBuffer)
    (htype : h.fHTTPType = .httpResponseType) (hversion : h.fVersion ≠ .httpIllegalVersion)
    (hroom : (statusLine h.fVersion h.fStatusCode ++ fieldLines (headerFields date)).length <
      kMinHeaderSizeInBytes) :
    ∃ h', h.createResponseHeader date = some h' ∧
      Written h' (statusLine h.fVersion h.fStatusCode ++ fieldLines (headerFields date)) := by
  rw [List.length_append] at hroom
  obtain ⟨f, hline, hf⟩ := putStatusLine_written (f := { size := kMinHeaderSizeInBytes })
    h.fStatusCode ⟨rfl, rfl⟩ hversion (by omega)
  obtain ⟨h', hfold, hh'⟩ := appendFields_written (h := { h with fHTTPHeaderFormatter := some f })
    (headerFields date) ⟨f, rfl, hf⟩ hroom
  refine ⟨h', ?_, hh'⟩
  simp only [headerFields, List.foldlM_cons, List.foldlM_nil, Option.bind_eq_bind,
    Option.pure_def, Option.bind_fun_some] at hfold
  unfold createResponseHeader
  rw [if_neg (not_not.mpr htype), Option.bind_eq_bind, Option.bind_eq_some_iff]
  exact ⟨f, hline, hfold⟩

/-- A header below the size of the first buffer is written as it is. -/
theorem writeHeader_eq {version : HTTPVersion} (status : HTTPStatusCode) (gmt : Tm)
    (fields : List Field) (hversion : version ≠ .httpIllegalVersion)
    (hroom : (headerText version status gmt fields).length < kMinHeaderSizeInBytes) :
    writeHeader version status gmt fields = some (headerText version status gmt fields) := by
  have hend : ([13, 10] : Bytes).length = 2 := rfl
  have htext : headerText version status gmt fields = statusLine version status ++
      fieldLines (createdFields gmt) ++ fieldLines fields ++ [13, 10] := by
    simp only [headerText, fieldLines, List.flatMap_append, List.append_assoc]
  rw [htext, List.length_append, List.length_append] at hroom
  have hfirst : (statusLine version status ++ fieldLines (createdFields gmt)).length <
      kMinHeaderSizeInBytes := by omega
  obtain ⟨h₁, hcreate, hh₁⟩ : ∃ h, createResponseHeader
        { fHTTPType := .httpResponseType, fVersion := version, fStatusCode := status }
        (.update gmt) = some h ∧
      Written h (statusLine version status ++ fieldLines (createdFields gmt)) :=
    createResponseHeader_written (.update gmt) rfl hversion hfirst
  obtain ⟨h₂, hfold, f, hf, hholds⟩ := appendFields_written fields hh₁ (by omega)
  obtain ⟨g, hput, hg⟩ := hholds.put [13, 10] (by
    rw [List.length_append]
    omega)
  have hcomplete : h₂.getCompleteHTTPHeader =
      some (g.content, { h₂ with fHTTPHeaderFormatter := some g }) := by
    simp only [getCompleteHTTPHeader, Option.bind_eq_bind, Option.bind_eq_some_iff]
    exact ⟨f, hf, g, hput, if_neg (not_not.mpr hg.size)⟩
  simp only [writeHeader, Option.bind_eq_bind, Option.bind_eq_some_iff]
  exact ⟨h₁, hcreate, h₂, hfold, _, hcomplete, by rw [htext, ← hg.content]; rfl⟩

/-! ## Reading it back -/

/-! ### The fields -/

theorem getHeader_getHeaderString {header : HTTPHeader} (h : header ≠ .httpIllegalHeader) :
    getHeader (getHeaderString header) = some header := by
  have hplain := getHeaderString_plain header
  rw [getHeader_eq_iff h (getHeader_isSome hplain), equalIgnoreCase_entry hplain]
  exact congrArg some (decide_eq_true (.refl _))

theorem colon_notMem_getHeaderString (header : HTTPHeader) : 58 ∉ getHeaderString header :=
  fun hmem => ((getHeaderString_printable header).2 58 hmem).2.2 rfl

theorem getHeaderString_start (header : HTTPHeader) :
    ∃ c s, getHeaderString header = c :: s ∧ sEOLMask c = false := by
  obtain ⟨c, s, hcons⟩ := List.exists_cons_of_ne_nil (getHeaderString_printable header).1
  exact ⟨c, s, hcons, noEOL_getHeaderString header c (hcons ▸ List.mem_cons_self)⟩

/-- A field whose line can be read back: a value of one line, which `setKeepAlive` knows
where it is for `Connection`. -/
structure IsField (field : Field) : Prop where
  known : field.1 ≠ .httpIllegalHeader
  value : NoEOL field.2
  connection : field.1 = .httpConnectionHeader →
    equalIgnoreCase (ascii "close") field.2 = some true ∨
      equalIgnoreCase (ascii "keep-alive") field.2 = some true

theorem setKeepAlive_isSome {h : HTTPPacket} {value : Bytes}
    (hvalue : equalIgnoreCase (ascii "close") value = some true ∨
      equalIgnoreCase (ascii "keep-alive") value = some true) :
    ∃ keepAlive, h.setKeepAlive (some value) = some { h with fRequestKeepAlive := keepAlive } := by
  rcases hvalue with hclose | halive
  · exact ⟨false, by simp [setKeepAlive, hclose]⟩
  · have hlen : value.length = 10 := by
      by_contra hne
      rw [equalIgnoreCase, if_neg (by simpa [ascii] using hne)] at halive
      cases halive
    have hclose : equalIgnoreCase (ascii "close") value = some false := by
      rw [equalIgnoreCase, if_neg (by simp [hlen, ascii])]
    exact ⟨true, by simp [setKeepAlive, hclose, halive]⟩

/-- The packet with the value of a field set. -/
structure SetTo (h h' : HTTPPacket) (field : Field) : Prop where
  fHTTPType : h'.fHTTPType = h.fHTTPType
  fFieldValues : h'.fFieldValues = Function.update h.fFieldValues field.1 (some field.2)

theorem setField_setTo (h : HTTPPacket) {field : Field} (hfield : IsField field) :
    ∃ h', h.setField field.1 (some field.2) = some h' ∧ SetTo h h' field := by
  simp only [setField, if_neg hfield.known]
  split_ifs with hconnection
  · obtain ⟨keepAlive, hset⟩ := setKeepAlive_isSome (h := h) (hfield.connection hconnection)
    rw [hset]
    exact ⟨_, rfl, rfl, rfl⟩
  · exact ⟨_, rfl, rfl, rfl⟩

/-- One pass of the loop of `parseHeaders`. -/
theorem parseHeaders_line {h : HTTPPacket} {p q q' r : StringParser} {key val : StrPtrLen}
    (hpeek : ¬ (p.peekFast = 13 ∨ p.peekFast = 10)) (hkey : p.getThru 58 = (true, key, q))
    (hblank : skipBlank q = some q') (hval : q'.getThruEOL = (true, val, r)) :
    h.parseHeaders p = (getHeader (key.getD [])).bind fun header =>
      (h.setField header val).bind fun h' => h'.parseHeaders r := by
  rw [parseHeaders, if_neg hpeek]
  split
  next heq => simp [hkey] at heq
  next key' q' heq =>
    obtain ⟨rfl, rfl⟩ : key = key' ∧ q = q' := by simpa [hkey] using heq
    split
    next hnone => cases hnone.symm.trans hblank
    next hsome =>
      cases hsome.symm.trans hblank
      split
      next heq' => rw [heq', Option.bind_none]
      next header' heq' =>
        rw [heq', Option.bind_some]
        split
        next heq'' => simp [hval] at heq''
        next val' r' heq'' =>
          obtain ⟨rfl, rfl⟩ : val = val' ∧ r = r' := by simpa [hval] using heq''
          cases h.setField header' val <;> rfl

theorem parseHeaders_step {h h' : HTTPPacket} {p q q' r : StringParser} {key val : StrPtrLen}
    {header : HTTPHeader} (hpeek : ¬ (p.peekFast = 13 ∨ p.peekFast = 10))
    (hkey : p.getThru 58 = (true, key, q)) (hblank : skipBlank q = some q')
    (hheader : getHeader (key.getD []) = some header) (hval : q'.getThruEOL = (true, val, r))
    (hset : h.setField header val = some h') : h.parseHeaders p = h'.parseHeaders r := by
  rw [parseHeaders_line hpeek hkey hblank hval, hheader, Option.bind_some, hset, Option.bind_some]

theorem parseHeaders_field (h : HTTPPacket) {p : StringParser} {parsed rest : Bytes} {field : Field}
    (hat : At p parsed (fieldLine field ++ rest)) (hfield : IsField field) :
    ∃ h' q parsed', h.parseHeaders p = h'.parseHeaders q ∧ SetTo h h' field ∧
      At q parsed' rest := by
  obtain ⟨c, s, hstart, hc⟩ := getHeaderString_start field.1
  have hpeek : ¬ (p.peekFast = 13 ∨ p.peekFast = 10) := by
    have hat' := hat
    simp only [fieldLine, hstart, List.cons_append] at hat'
    rw [hat'.peekFast]
    simpa [sEOLMask] using hc
  have hcolon : fieldLine field ++ rest =
      getHeaderString field.1 ++ 58 :: (32 :: (field.2 ++ ([13, 10] ++ rest))) := by
    simp [fieldLine, ascii]
  rw [hcolon] at hat
  obtain ⟨q, hkey, hq⟩ := hat.getThru (colon_notMem_getHeaderString _)
  obtain ⟨q', hblank, hq'⟩ := hq.expect
  have hskip : skipBlank q = some q' := by
    rw [skipBlank, if_pos hq.peekFast, hblank]
    rfl
  obtain ⟨r, hval, hr⟩ := hq'.getThruEOL hfield.value (.crlf rest)
  obtain ⟨h', hset, hsetTo⟩ := setField_setTo h hfield
  refine ⟨h', r, _, ?_, hsetTo, hr⟩
  exact parseHeaders_step hpeek hkey hskip (getHeader_getHeaderString hfield.known) hval hset

/-- The values of the fields, the last one of each header. -/
def setFields (values : HTTPHeader → StrPtrLen) (fields : List Field) : HTTPHeader → StrPtrLen :=
  fields.foldl (fun values field => Function.update values field.1 (some field.2)) values

theorem parseHeaders_fields {fields : List Field} (h : HTTPPacket) {p : StringParser}
    {parsed rest : Bytes} (hat : At p parsed (fieldLines fields ++ 13 :: rest))
    (hfields : ∀ field ∈ fields, IsField field) :
    ∃ h', h.parseHeaders p = some (CF_NoErr, h') ∧ h'.fHTTPType = h.fHTTPType ∧
      h'.fFieldValues = setFields h.fFieldValues fields := by
  induction fields generalizing h p parsed with
  | nil =>
    have hpeek : p.peekFast = 13 := At.peekFast hat
    have heol : p.expectEOL.1 = true := At.expectEOL_cr hat
    exact ⟨h, by rw [parseHeaders, if_pos (.inl hpeek), if_pos heol], rfl, rfl⟩
  | cons field fields ih =>
    obtain ⟨hfield, hfields⟩ := List.forall_mem_cons.mp hfields
    rw [fieldLines, List.flatMap_cons, List.append_assoc] at hat
    obtain ⟨h₁, q, parsed', hstep, hset, hq⟩ := parseHeaders_field h hat hfield
    obtain ⟨h₂, hrest, htype, hvalues⟩ := ih h₁ hq hfields
    refine ⟨h₂, hstep.trans hrest, htype.trans hset.fHTTPType, ?_⟩
    rw [hvalues, hset.fFieldValues]
    rfl

theorem setFields_of_notMem {fields : List Field} {header : HTTPHeader}
    (hnot : header ∉ fields.map Prod.fst) (values : HTTPHeader → StrPtrLen) :
    setFields values fields header = values header := by
  induction fields generalizing values with
  | nil => rfl
  | cons field fields ih =>
    rw [List.map_cons, List.mem_cons, not_or] at hnot
    obtain ⟨hne, hnot⟩ := hnot
    exact (ih hnot _).trans (Function.update_of_ne hne _ _)

/-- Fields of distinct headers keep their values. -/
theorem setFields_of_mem {fields : List Field} (hdistinct : (fields.map Prod.fst).Nodup)
    {field : Field} (hmem : field ∈ fields) (values : HTTPHeader → StrPtrLen) :
    setFields values fields field.1 = some field.2 := by
  induction fields generalizing values with
  | nil => cases hmem
  | cons first fields ih =>
    obtain ⟨hnot, hdistinct⟩ := List.nodup_cons.mp hdistinct
    rcases List.mem_cons.mp hmem with rfl | hmem
    · exact (setFields_of_notMem hnot _).trans (Function.update_self ..)
    · exact ih hdistinct hmem _

/-! ### The status line -/

theorem getVersionString_eq {version : HTTPVersion} (h : version ≠ .httpIllegalVersion) :
    ∃ number, getVersionString version = some (ascii "HTTP" ++ 47 :: number) ∧
      ∀ c ∈ number, sEOLWhitespaceMask c = false := by
  cases version with
  | http09version => exact ⟨ascii "0.9", by decide, by decide⟩
  | http10Version => exact ⟨ascii "1.0", by decide, by decide⟩
  | http11Version => exact ⟨ascii "1.1", by decide, by decide⟩
  | httpIllegalVersion => exact absurd rfl h

theorem getStatusCodeAsString_digits (status : HTTPStatusCode) :
    ∀ d ∈ getStatusCodeAsString status, sDigitMask d = true := by
  cases status <;> decide

theorem getStatusCodeAsString_start (status : HTTPStatusCode) :
    ∃ d s, getStatusCodeAsString status = d :: s := by
  cases status <;> exact ⟨_, _, rfl⟩

theorem getStatusCodeAsString_value (status : HTTPStatusCode) :
    (getStatusCodeAsString status).foldl
      (fun theValue d => (theValue * 10 + (d.toNat - 48)) % uint32Size) 0 ≠ 0 := by
  cases status <;> decide +kernel

theorem getStatusCodeString_white (status : HTTPStatusCode) :
    ∀ c ∈ getStatusCodeString status, sEOLWhitespaceMask c = true → c = 32 := by
  intro c hc hwhite
  simp only [sEOLWhitespaceMask, Bool.or_eq_true, Bool.and_eq_true, decide_eq_true_eq,
    beq_iff_eq] at hwhite
  rcases hwhite with ⟨-, hle⟩ | heq
  · have hprintable := (getStatusCodeString_printable status).2 c hc
    exact absurd (UInt8.le_trans hprintable hle) (by decide)
  · exact heq

theorem getStatusCodeString_start (status : HTTPStatusCode) :
    ∃ c s, getStatusCodeString status = c :: s ∧ sEOLWhitespaceMask c = false := by
  obtain ⟨hne, hhead⟩ := (getStatusCodeString_printable status).1
  obtain ⟨c, s, hcons⟩ := List.exists_cons_of_ne_nil hne
  rw [hcons, List.head?_cons] at hhead
  refine ⟨c, s, hcons, Bool.eq_false_iff.mpr fun hwhite => ?_⟩
  exact hhead (congrArg some
    (getStatusCodeString_white status c (hcons ▸ List.mem_cons_self) hwhite))

/-- Of a status line, `parseRequestLine` reads everything before the text of the status, and
from there to the next white space. -/
theorem parseRequestLine_status (h : HTTPPacket) {version : HTTPVersion} {status : HTTPStatusCode}
    {p : StringParser} {parsed rest : Bytes} (hversion : version ≠ .httpIllegalVersion)
    (hat : At p parsed (statusLine version status ++ rest)) :
    ∃ (h' : HTTPPacket) (q : StringParser) (parsed' : Bytes),
      h.parseRequestLine p = some (h'.endRequestLine q.consumeUntilWhitespace.2) ∧
      h'.fHTTPType = .httpResponseType ∧ h'.fFieldValues = h.fFieldValues ∧
      At q parsed' (getStatusCodeString status ++ ([13, 10] ++ rest)) := by
  obtain ⟨number, htext, hnumber⟩ := getVersionString_eq hversion
  obtain ⟨d, code, hcode⟩ := getStatusCodeAsString_start status
  obtain ⟨c, phrase, hphrase, hc⟩ := getStatusCodeString_start status
  have hdigits := getStatusCodeAsString_digits status
  have hline : statusLine version status ++ rest = ascii "HTTP" ++ 47 :: (number ++ 32 ::
      (getStatusCodeAsString status ++
        32 :: (getStatusCodeString status ++ ([13, 10] ++ rest)))) := by
    simp only [statusLine, htext, Option.getD_some, List.append_assoc, List.cons_append,
      List.nil_append]
  rw [hline] at hat
  -- the word before the slash, and the rest of the version
  obtain ⟨q₁, hword, hq₁⟩ := hat.consumeText sNonWordMask (by decide) (by decide)
  rw [← List.cons_append] at hq₁
  obtain ⟨q₂, hslash, hq₂⟩ := hq₁.consumeText sEOLWhitespaceMask
    (List.forall_mem_cons.mpr ⟨by decide, hnumber⟩) (by decide)
  -- the code
  rw [hcode, List.cons_append] at hq₂
  obtain ⟨q₃, hblank, hq₃⟩ := hq₂.consumeByte sDigitMask (by decide)
    (hdigits d (hcode ▸ List.mem_cons_self))
  rw [← List.cons_append (a := d), ← hcode] at hq₃
  obtain ⟨q₄, hvalue, hq₄⟩ := hq₃.consumeInteger hdigits (by decide)
  -- the blank before the text
  rw [hphrase, List.cons_append] at hq₄
  obtain ⟨q₅, hwhite, hq₅⟩ := hq₄.consumeByte sNonWhitespaceMask (by decide)
    (by simp [sNonWhitespaceMask, hc])
  rw [← List.cons_append (a := c), ← hphrase] at hq₅
  refine ⟨{ h with fMethod := .httpIllegalMethod, fHTTPType := .httpResponseType }, q₅, _, ?_, rfl,
    rfl, hq₅⟩
  have hmethod : getMethod (ascii "HTTP") = .httpIllegalMethod := by decide
  simp only [parseRequestLine, consumeWord, hword, Option.getD_some, hmethod, ne_eq, not_true,
    if_false, if_true, consumeUntilWhitespace, hslash, consumeUntilDigit, hblank, hvalue,
    if_pos (getStatusCodeAsString_value status), consumeWhitespace, hwhite]

/-- A text without a blank is read as a whole, and the line ends behind it. -/
theorem endRequestLine_word (h : HTTPPacket) {status : HTTPStatusCode} {q : StringParser}
    {parsed rest : Bytes} (hq : At q parsed (getStatusCodeString status ++ ([13, 10] ++ rest)))
    (hword : 32 ∉ getStatusCodeString status) :
    ∃ q' parsed', h.endRequestLine q.consumeUntilWhitespace.2 = (CF_NoErr, h, q') ∧
      At q' parsed' rest := by
  have hnone : ∀ c ∈ getStatusCodeString status, sEOLWhitespaceMask c = false := by
    intro c hc
    by_contra hwhite
    rw [Bool.not_eq_false] at hwhite
    exact hword (getStatusCodeString_white status c hc hwhite ▸ hc)
  rw [List.cons_append] at hq
  obtain ⟨r, hconsumed, hr⟩ := hq.consumeText sEOLWhitespaceMask hnone (by decide)
  obtain ⟨q', heol, hq'⟩ := At.expectEOL (e := [13, 10]) hr (.crlf rest)
  refine ⟨q', _, ?_, hq'⟩
  simp only [endRequestLine, consumeUntilWhitespace, hconsumed, heol, if_true]

/-- Behind the first word of a text with a blank, no line end stands. -/
theorem endRequestLine_words (h : HTTPPacket) {status : HTTPStatusCode} {q : StringParser}
    {parsed rest : Bytes} (hq : At q parsed (getStatusCodeString status ++ ([13, 10] ++ rest)))
    (hwords : 32 ∈ getStatusCodeString status) :
    (h.endRequestLine q.consumeUntilWhitespace.2).1 = CF_BadArgument := by
  obtain ⟨word, tail, hphrase, hblank⟩ := List.eq_append_cons_of_mem hwords
  have hnone : ∀ c ∈ word, sEOLWhitespaceMask c = false := by
    intro c hc
    by_contra hwhite
    rw [Bool.not_eq_false] at hwhite
    have hmem : c ∈ getStatusCodeString status := hphrase ▸ List.mem_append_left _ hc
    exact hblank (getStatusCodeString_white status c hmem hwhite ▸ hc)
  rw [hphrase, List.append_assoc, List.cons_append] at hq
  obtain ⟨r, hconsumed, hr⟩ := hq.consumeText sEOLWhitespaceMask hnone (by decide)
  have htext : StartsText (32 :: (tail ++ ([13, 10] ++ rest))) := by
    intro c hc
    obtain rfl : 32 = c := Option.some.inj hc
    decide
  simp [endRequestLine, consumeUntilWhitespace, hconsumed, hr.expectEOL_text htext]

theorem parseRequestLines_of_response {h h' : HTTPPacket} {p q : StringParser}
    (hline : h.parseRequestLine p = some (CF_NoErr, h', q))
    (htype : h'.fHTTPType = .httpResponseType) :
    h.parseRequestLines p = some (CF_NoErr, h', q) := by
  rw [parseRequestLines]
  split
  next heq => rw [hline] at heq; cases heq
  next err h₁ q₁ heq =>
    rw [hline] at heq
    cases heq
    rw [dif_neg (not_not.mpr rfl), dif_neg (by rw [htype]; decide)]

theorem parseRequestLines_of_error {h h' : HTTPPacket} {p q : StringParser} {err : CF_Error}
    (hline : h.parseRequestLine p = some (err, h', q)) (herr : err ≠ CF_NoErr) :
    h.parseRequestLines p = some (err, h', q) := by
  rw [parseRequestLines]
  split
  next heq => rw [hline] at heq; cases heq
  next err₁ h₁ q₁ heq =>
    rw [hline] at heq
    cases heq
    rw [dif_pos herr]

/-! ## The round trip -/

/-- Fields of distinct headers, each of which can be read back. -/
structure AreFields (fields : List Field) : Prop where
  distinct : (fields.map Prod.fst).Nodup
  field : ∀ field ∈ fields, IsField field

/-- Fields other than `Connection` have any value without a line end. -/
theorem isField_of_ne {header : HTTPHeader} {value : Bytes}
    (hknown : header ≠ .httpIllegalHeader) (hvalue : NoEOL value)
    (hconnection : header ≠ .httpConnectionHeader) : IsField (header, value) :=
  ⟨hknown, hvalue, fun heq => absurd heq hconnection⟩

theorem createdFields_isField (gmt : Tm) : ∀ field ∈ createdFields gmt, IsField field := by
  have hdate : NoEOL (DateTranslator.strftime gmt) :=
    noEOL_of_printable (DateTranslator.printable_strftime gmt)
  intro field hfield
  simp only [createdFields, List.mem_cons, List.not_mem_nil, or_false] at hfield
  rcases hfield with rfl | rfl | rfl
  · exact isField_of_ne (by decide) (by decide) (by decide)
  · exact isField_of_ne (by decide) hdate (by decide)
  · exact isField_of_ne (by decide) (by decide) (by decide)

/-- The written header is accepted as a response, with every field as it was appended. -/
def RoundTrips (version : HTTPVersion) (status : HTTPStatusCode) (gmt : Tm) (fields : List Field)
    (beyond : Bytes) : Prop :=
  ∃ header h, writeHeader version status gmt fields = some header ∧
    (ofHeader header beyond).parse = some (CF_NoErr, h) ∧ h.fHTTPType = .httpResponseType ∧
    ∀ field ∈ fields, h.getHeaderValue field.1 = some (some field.2)

/-- The packet that `Parse` of a header starts with. -/
def atFirstLine (header beyond : Bytes) : HTTPPacket :=
  { ofHeader header beyond with
    fRequestLine := ((StringParser.ofString (some header) beyond).consumeUntil sEOLMask).1 }

theorem parse_ofHeader (header beyond : Bytes) :
    (ofHeader header beyond).parse =
      ((atFirstLine header beyond).parseRequestLines (.ofString (some header) beyond)).bind
        fun (err, h, parser) => if err ≠ CF_NoErr then some (err, h) else h.parseHeaders parser :=
  rfl

/-- A status text of one word: the header is accepted, and every field is read back. -/
theorem parse_word {version : HTTPVersion} {status : HTTPStatusCode} (gmt : Tm)
    {fields : List Field} (beyond : Bytes) (hversion : version ≠ .httpIllegalVersion)
    (hfields : AreFields fields) (hword : 32 ∉ getStatusCodeString status) :
    ∃ h, (ofHeader (headerText version status gmt fields) beyond).parse = some (CF_NoErr, h) ∧
      h.fHTTPType = .httpResponseType ∧
      ∀ field ∈ fields, h.getHeaderValue field.1 = some (some field.2) := by
  obtain ⟨h₁, q, parsed, hline, htype, -, hq⟩ :=
    parseRequestLine_status (atFirstLine (headerText version status gmt fields) beyond) hversion
      (at_ofString (headerText version status gmt fields) beyond)
  obtain ⟨q', parsed', hend, hq'⟩ := endRequestLine_word h₁ hq hword
  rw [hend] at hline
  have hall : ∀ field ∈ createdFields gmt ++ fields, IsField field :=
    List.forall_mem_append.mpr ⟨createdFields_isField gmt, hfields.field⟩
  obtain ⟨h₂, hheaders, htype₂, hvalues⟩ := parseHeaders_fields h₁ hq' hall
  refine ⟨h₂, ?_, htype₂.trans htype, fun field hmem => ?_⟩
  · rw [parse_ofHeader, parseRequestLines_of_response hline htype, Option.bind_some]
    exact (if_neg (not_not.mpr rfl)).trans hheaders
  · rw [getHeaderValue, if_pos (hfields.field field hmem).known, hvalues, setFields,
      List.foldl_append]
    exact congrArg some (setFields_of_mem hfields.distinct hmem _)

/-- A status text of several words: the header is refused. -/
theorem parse_words (version : HTTPVersion) (status : HTTPStatusCode) (gmt : Tm)
    (fields : List Field) (beyond : Bytes) (hversion : version ≠ .httpIllegalVersion)
    (hwords : 32 ∈ getStatusCodeString status) :
    ∃ h, (ofHeader (headerText version status gmt fields) beyond).parse =
      some (CF_BadArgument, h) := by
  obtain ⟨h₁, q, parsed, hline, -, -, hq⟩ :=
    parseRequestLine_status (atFirstLine (headerText version status gmt fields) beyond) hversion
      (at_ofString (headerText version status gmt fields) beyond)
  obtain ⟨⟨h₂, q₂⟩, hend⟩ : ∃ out, h₁.endRequestLine q.consumeUntilWhitespace.2 =
      (CF_BadArgument, out) := ⟨_, Prod.ext (endRequestLine_words h₁ hq hwords) rfl⟩
  rw [hend] at hline
  refine ⟨h₂, ?_⟩
  rw [parse_ofHeader, parseRequestLines_of_error hline (by decide), Option.bind_some]
  exact if_pos (by decide)

/-- The header of a response is read back exactly if the text of its status is one word. -/
theorem roundTrips_iff_word (version : HTTPVersion) (status : HTTPStatusCode) (gmt : Tm)
    (fields : List Field) (beyond : Bytes) (hversion : version ≠ .httpIllegalVersion)
    (hfields : AreFields fields)
    (hsize : (headerText version status gmt fields).length < kMinHeaderSizeInBytes) :
    RoundTrips version status gmt fields beyond ↔ 32 ∉ getStatusCodeString status := by
  have hwrite := writeHeader_eq status gmt fields hversion hsize
  constructor
  · rintro ⟨header, h, hheader, hparse, -, -⟩ hwords
    obtain rfl : headerText version status gmt fields = header :=
      Option.some.inj (hwrite.symm.trans hheader)
    obtain ⟨h', herror⟩ := parse_words version status gmt fields beyond hversion hwords
    have hsame : CF_NoErr = CF_BadArgument :=
      congrArg Prod.fst (Option.some.inj (hparse.symm.trans herror))
    exact absurd hsame (by decide)
  · intro hword
    obtain ⟨h, hparse, htype, hvalues⟩ := parse_word gmt beyond hversion hfields hword
    exact ⟨_, h, hwrite, hparse, htype, hvalues⟩

example (status : HTTPStatusCode) : 32 ∉ getStatusCodeString status ↔
    status ∈ [.httpContinue, .httpOK, .httpCreated, .httpAccepted, .httpFound, .httpUnAuthorized,
      .httpForbidden, .httpConflict, .httpGone] := by
  cases status <;> decide

/-- Mon, 04 Nov 1996 21:42:17 GMT -/
def sampleTime : Tm :=
  { tm_sec := 17, tm_min := 42, tm_hour := 21, tm_mday := 4, tm_mon := 10, tm_year := 96,
    tm_wday := 1 }

def sampleFields : List Field :=
  [(.httpContentLengthHeader, ascii "5"), (.httpConnectionHeader, ascii "close")]

theorem sampleFields_areFields : AreFields sampleFields where
  distinct := by decide
  field := by
    intro field hfield
    simp only [sampleFields, List.mem_cons, List.not_mem_nil, or_false] at hfield
    rcases hfield with rfl | rfl
    · exact isField_of_ne (by decide) (by decide) (by decide)
    · exact ⟨nofun, by decide, fun _ => .inl (by decide)⟩

theorem roundTrips_iff_word_ok : RoundTrips .http11Version .httpOK sampleTime sampleFields [] :=
  (roundTrips_iff_word .http11Version .httpOK sampleTime sampleFields [] (by decide)
    sampleFields_areFields (by decide +kernel)).mpr (by decide +kernel)

/-- `HTTP/1.1 404 Not Found` is refused. -/
theorem notFound_not_roundTrips :
    AreFields sampleFields ∧
      (headerText .http11Version .httpNotFound sampleTime sampleFields).length <
        kMinHeaderSizeInBytes ∧
      ¬ RoundTrips .http11Version .httpNotFound sampleTime sampleFields [] := by
  have hsize : (headerText .http11Version .httpNotFound sampleTime sampleFields).length <
      kMinHeaderSizeInBytes := by decide +kernel
  refine ⟨sampleFields_areFields, hsize, ?_⟩
  rintro ⟨header, h, hheader, hparse, -, -⟩
  rw [writeHeader_eq _ _ _ (by decide) hsize] at hheader
  obtain rfl := Option.some.inj hheader
  obtain ⟨h', herror⟩ := parse_words .http11Version .httpNotFound sampleTime sampleFields []
    (by decide) (by decide +kernel)
  have hsame : CF_NoErr = CF_BadArgument :=
    congrArg Prod.fst (Option.some.inj (hparse.symm.trans herror))
  exact absurd hsame (by decide)

end HTTPPacket

end CxxFramework.Net
