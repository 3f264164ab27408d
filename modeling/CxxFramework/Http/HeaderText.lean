import CxxFramework.Http.HeaderRoundTrip

/-!
# The text of a response header

`fHTTPHeader` is made for the first buffer of the formatter, and its length follows what is
put. Its pointer does not: once the formatter moves to a larger buffer, it denotes the old
one. The header is what was written exactly if it is shorter than the first buffer.

## Main definitions

* `HTTPPacket.AppendCall` — the calls that append a line to the header.
* `HTTPPacket.completeHeader` — the header once a number of calls are made.
* `HTTPPacket.completeText` — what these calls write.
-/

namespace CxxFramework.Net

open CxxFramework.Core HTTPProtocol ResizeableStringFormatter

namespace HTTPPacket

/-- The calls that append a line to the header of a response. -/
inductive AppendCall where
  | responseHeader (inHeader : HTTPHeader) (inValue : Bytes)
  | contentLengthHeader (length : Nat)
  | connectionCloseHeader
  | connectionKeepAliveHeader
deriving DecidableEq

namespace AppendCall

def run (h : HTTPPacket) : AppendCall → Option HTTPPacket
  | .responseHeader inHeader inValue => h.appendResponseHeader inHeader inValue
  | .contentLengthHeader length => h.appendContentLengthHeader length
  | .connectionCloseHeader => h.appendConnectionCloseHeader
  | .connectionKeepAliveHeader => h.appendConnectionKeepAliveHeader

/-- The header and the value that a call appends. -/
def field : AppendCall → Field
  | .responseHeader inHeader inValue => (inHeader, inValue)
  | .contentLengthHeader length => (.httpContentLengthHeader, decimal length)
  | .connectionCloseHeader => (.httpConnectionHeader, ascii "close")
  | .connectionKeepAliveHeader => (.httpConnectionHeader, ascii "keep-alive")

theorem run_eq (h : HTTPPacket) (call : AppendCall) :
    call.run h = h.appendResponseHeader call.field.1 call.field.2 := by
  cases call <;> rfl

end AppendCall

/-- What `GetCompleteHTTPHeader` returns behind `CreateResponseHeader` and a number of
calls. -/
def completeHeader (h : HTTPPacket) (date : DateBuffer) (calls : List AppendCall) :
    Option Bytes := do
  let h ← h.createResponseHeader date
  let h ← calls.foldlM (fun h call => call.run h) h
  let complete ← h.getCompleteHTTPHeader
  return complete.1

/-- The status line, the lines of the header in order and an empty line. -/
def completeText (h : HTTPPacket) (date : DateBuffer) (calls : List AppendCall) : Bytes :=
  statusLine h.fVersion h.fStatusCode ++
    (fieldLines (headerFields date ++ calls.map AppendCall.field) ++ [13, 10])

/-! ## What is in the buffers -/

/-- The formatter holds a text, in its first buffer or in a larger one. -/
structure Puts (f : StringFormatter) (text : Bytes) : Prop where
  valid : Valid f
  content : f.content = text
  size : kMinHeaderSizeInBytes ≤ f.size

variable {f g : StringFormatter} {text buffer : Bytes} {h h' : HTTPPacket} {date : DateBuffer}
  {calls : List AppendCall}

theorem Puts.put (hf : Puts f text) (hput : put f buffer = some g) : Puts g (text ++ buffer) := by
  obtain ⟨hcontent, hvalid⟩ := put_eq_some hf.valid hput
  refine ⟨hvalid, by rw [hcontent, hf.content], ?_⟩
  have hle := hf.size
  rcases put_size hf.valid hf.size (by decide) hput with ⟨heq, -⟩ | hlarge
  · exact heq ▸ hle
  · exact (Nat.le_mul_of_pos_left _ (by decide)).trans hlarge

theorem putStatusLine_puts {status : HTTPStatusCode} {version : HTTPVersion} (hf : Puts f [])
    (hline : putStatusLine f status version = some g) :
    version ≠ .httpIllegalVersion ∧ Puts g (statusLine version status) := by
  simp only [putStatusLine, Option.bind_eq_bind, Option.bind_eq_some_iff] at hline
  obtain ⟨text, htext, f₁, h₁, f₂, h₂, f₃, h₃, f₄, h₄, f₅, h₅, h₆⟩ := hline
  constructor
  · rintro rfl
    cases htext
  · have hputs := (((((hf.put h₁).put h₂).put h₃).put h₄).put h₅).put h₆
    simpa only [statusLine, htext, Option.getD_some, List.append_assoc, List.nil_append]
      using hputs

/-- The packet has written a text. -/
def HasPut (h : HTTPPacket) (text : Bytes) : Prop :=
  ∃ f, h.fHTTPHeaderFormatter = some f ∧ Puts f text

theorem appendResponseHeader_puts (field : Field) (hh : HasPut h text)
    (happend : h.appendResponseHeader field.1 field.2 = some h') :
    HasPut h' (text ++ fieldLine field) := by
  obtain ⟨f, hf, hputs⟩ := hh
  simp only [appendResponseHeader, Option.bind_eq_bind, Option.bind_eq_some_iff] at happend
  obtain ⟨f₀, hf₀, f₁, h₁, f₂, h₂, f₃, h₃, f₄, h₄, heq⟩ := happend
  cases hf.symm.trans hf₀
  cases heq
  have hputs' := (((hputs.put h₁).put h₂).put h₃).put h₄
  exact ⟨f₄, rfl, by simpa only [fieldLine, List.append_assoc] using hputs'⟩

theorem appendFields_puts (fields : List Field) (hh : HasPut h text)
    (hfold : fields.foldlM (fun h field => h.appendResponseHeader field.1 field.2) h = some h') :
    HasPut h' (text ++ fieldLines fields) := by
  induction fields generalizing h text with
  | nil =>
    cases hfold
    simpa [fieldLines] using hh
  | cons field fields ih =>
    rw [List.foldlM_cons, Option.bind_eq_bind, Option.bind_eq_some_iff] at hfold
    obtain ⟨h₁, happend, hrest⟩ := hfold
    have hcons : fieldLines (field :: fields) = fieldLine field ++ fieldLines fields :=
      List.flatMap_cons ..
    rw [hcons, ← List.append_assoc]
    exact ih (appendResponseHeader_puts field hh happend) hrest

theorem createResponseHeader_puts (htype : h.fHTTPType = .httpResponseType)
    (hcreate : h.createResponseHeader date = some h') :
    h.fVersion ≠ .httpIllegalVersion ∧
      HasPut h' (statusLine h.fVersion h.fStatusCode ++ fieldLines (headerFields date)) := by
  have hempty : Puts { size := kMinHeaderSizeInBytes } [] :=
    ⟨⟨Nat.zero_le _, by decide, by decide⟩, rfl, le_rfl⟩
  unfold createResponseHeader at hcreate
  rw [if_neg (not_not.mpr htype), Option.bind_eq_bind, Option.bind_eq_some_iff] at hcreate
  obtain ⟨f, hline, hfields⟩ := hcreate
  obtain ⟨hversion, hputs⟩ := putStatusLine_puts hempty hline
  refine ⟨hversion, appendFields_puts (h := { h with fHTTPHeaderFormatter := some f })
    (headerFields date) ⟨f, rfl, hputs⟩ ?_⟩
  simpa only [headerFields, List.foldlM_cons, List.foldlM_nil, Option.bind_eq_bind,
    Option.pure_def, Option.bind_fun_some] using hfields

/-! ## The complete header -/

theorem foldlM_run (calls : List AppendCall) (h : HTTPPacket) :
    calls.foldlM (fun h call => call.run h) h =
      (calls.map AppendCall.field).foldlM
        (fun h field => h.appendResponseHeader field.1 field.2) h := by
  rw [List.foldlM_map]
  exact congrArg (fun step => calls.foldlM step h)
    (funext fun h => funext fun call => AppendCall.run_eq h call)

theorem completeText_eq (h : HTTPPacket) (date : DateBuffer) (calls : List AppendCall) :
    h.completeText date calls = statusLine h.fVersion h.fStatusCode ++
      fieldLines (headerFields date) ++ fieldLines (calls.map AppendCall.field) ++ [13, 10] := by
  simp only [completeText, fieldLines, List.flatMap_append, List.append_assoc]

/-- A header that is returned is in the first buffer. -/
theorem completeHeader_fits {header : Bytes} (htype : h.fHTTPType = .httpResponseType)
    (hcomplete : h.completeHeader date calls = some header) :
    h.fVersion ≠ .httpIllegalVersion ∧
      (h.completeText date calls).length < kMinHeaderSizeInBytes := by
  simp only [completeHeader, Option.bind_eq_bind, Option.bind_eq_some_iff] at hcomplete
  obtain ⟨h₁, hcreate, h₂, hcalls, complete, hget, -⟩ := hcomplete
  obtain ⟨hversion, hh₁⟩ := createResponseHeader_puts htype hcreate
  rw [foldlM_run] at hcalls
  obtain ⟨f, hf, hputs⟩ := appendFields_puts _ hh₁ hcalls
  simp only [getCompleteHTTPHeader, Option.bind_eq_bind, Option.bind_eq_some_iff] at hget
  obtain ⟨f', hf', g, hput, hg⟩ := hget
  cases hf.symm.trans hf'
  refine ⟨hversion, ?_⟩
  split_ifs at hg with hsize
  have hmin : kMinHeaderSizeInBytes = 512 := rfl
  rcases put_size hputs.valid hputs.size (by decide) hput with ⟨heq, hlt⟩ | hlarge
  · have hroom := hlt (by decide)
    rw [hputs.content] at hroom
    rw [completeText_eq, List.length_append]
    omega
  · omega

/-- A header that fits the first buffer is returned as it was written. -/
theorem completeHeader_of_fits (htype : h.fHTTPType = .httpResponseType)
    (hversion : h.fVersion ≠ .httpIllegalVersion)
    (hfits : (h.completeText date calls).length < kMinHeaderSizeInBytes) :
    h.completeHeader date calls = some (h.completeText date calls) := by
  have hend : ([13, 10] : Bytes).length = 2 := rfl
  rw [completeText_eq] at hfits ⊢
  rw [List.length_append, List.length_append] at hfits
  obtain ⟨h₁, hcreate, hh₁⟩ := createResponseHeader_written date htype hversion (by omega)
  obtain ⟨h₂, hfold, f, hf, hholds⟩ := appendFields_written (calls.map AppendCall.field) hh₁
    (by omega)
  obtain ⟨g, hput, hg⟩ := hholds.put [13, 10] (by
    rw [List.length_append]
    omega)
  have hget : h₂.getCompleteHTTPHeader =
      some (g.content, { h₂ with fHTTPHeaderFormatter := some g }) := by
    simp only [getCompleteHTTPHeader, Option.bind_eq_bind, Option.bind_eq_some_iff]
    exact ⟨f, hf, g, hput, if_neg (not_not.mpr hg.size)⟩
  rw [← foldlM_run] at hfold
  simp only [completeHeader, Option.bind_eq_bind, Option.bind_eq_some_iff]
  exact ⟨h₁, hcreate, h₂, hfold, _, hget, congrArg some hg.content⟩

/-- The header is what was written exactly if it is shorter than the first buffer. -/
theorem completeHeader_iff (h : HTTPPacket) (date : DateBuffer) (calls : List AppendCall)
    (htype : h.fHTTPType = .httpResponseType) :
    h.completeHeader date calls = some (h.completeText date calls) ↔
      h.fVersion ≠ .httpIllegalVersion ∧
        (h.completeText date calls).length < kMinHeaderSizeInBytes :=
  ⟨completeHeader_fits htype, fun hfits => completeHeader_of_fits htype hfits.1 hfits.2⟩

/-- A response of a version, with the status `200`. -/
def okResponse : HTTPPacket := { fHTTPType := .httpResponseType, fVersion := .http11Version }

theorem completeHeader_iff_contentLength :
    okResponse.completeHeader (.update sampleTime) [.contentLengthHeader 3] =
        some (okResponse.completeText (.update sampleTime) [.contentLengthHeader 3]) ↔
      okResponse.fVersion ≠ .httpIllegalVersion ∧
        (okResponse.completeText (.update sampleTime) [.contentLengthHeader 3]).length <
          kMinHeaderSizeInBytes :=
  completeHeader_iff okResponse _ _ rfl

/-- A value of 600 bytes moves the header out of the first buffer. -/
theorem longLocation_not_complete :
    okResponse.completeHeader (.update sampleTime)
        [.responseHeader .httpLocationHeader (List.replicate 600 97)] ≠
      some (okResponse.completeText (.update sampleTime)
        [.responseHeader .httpLocationHeader (List.replicate 600 97)]) := by
  intro hcomplete
  obtain ⟨-, hfits⟩ := completeHeader_fits rfl hcomplete
  rw [completeText_eq] at hfits
  have hline : fieldLines ([AppendCall.responseHeader .httpLocationHeader
      (List.replicate 600 97)].map AppendCall.field) =
      fieldLine (.httpLocationHeader, List.replicate 600 97) := List.flatMap_singleton ..
  have hlen := length_fieldLine (.httpLocationHeader, List.replicate 600 97)
  rw [hline] at hfits
  simp only [List.length_append, List.length_replicate] at hfits hlen
  have hmin : kMinHeaderSizeInBytes = 512 := rfl
  omega

end HTTPPacket

end CxxFramework.Net
