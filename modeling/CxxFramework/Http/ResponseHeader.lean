import CxxFramework.Http.HTTPSession

/-!
# The text of response headers

The header that `SetupResponse` builds is never empty and has no zero byte, so that `Put`
of it as a C string puts all of it. Building it changes neither the status nor the body of
the response.
-/

namespace CxxFramework.Net

open CxxFramework.Core ResizeableStringFormatter

/-! ## Constants -/

namespace HTTPProtocol

theorem zero_notMem_getHeaderString (h : HTTPHeader) : 0 ∉ getHeaderString h :=
  fun hmem => absurd ((getHeaderString_printable h).2 0 hmem).1 (by decide)

theorem zero_notMem_getStatusCodeAsString (status : HTTPStatusCode) :
    0 ∉ getStatusCodeAsString status := by
  cases status <;> decide

theorem zero_notMem_getStatusCodeString (status : HTTPStatusCode) :
    0 ∉ getStatusCodeString status :=
  fun hmem => absurd ((getStatusCodeString_printable status).2 0 hmem) (by decide)

theorem zero_notMem_getVersionString {version : HTTPVersion} {text : Bytes}
    (h : getVersionString version = some text) : 0 ∉ text := by
  cases version with
  | httpIllegalVersion => cases h
  | http09version | http10Version | http11Version =>
    cases h
    decide

end HTTPProtocol

theorem zero_notMem_sServerHeaderStr : 0 ∉ sServerHeaderStr := by decide

/-! ## Formatters -/

/-- The content is a text: it has no zero byte. -/
structure Text (f : StringFormatter) : Prop where
  valid : Valid f
  noZero : 0 ∉ f.content

theorem Text.put {f g : StringFormatter} {buffer : Bytes} (hf : Text f) (hb : 0 ∉ buffer)
    (h : put f buffer = some g) : Text g := by
  obtain ⟨hcontent, hvalid⟩ := put_eq_some hf.valid h
  refine ⟨hvalid, ?_⟩
  rw [hcontent, List.mem_append]
  exact not_or.mpr ⟨hf.noZero, hb⟩

theorem Text.putEOL {f g : StringFormatter} (hf : Text f) (h : putEOL f = some g) :
    Text g ∧ g.content ≠ [] := by
  refine ⟨hf.put (by decide) h, ?_⟩
  rw [(put_eq_some hf.valid h).1]
  exact List.append_ne_nil_of_right_ne_nil _ (by decide)

namespace HTTPPacket

open HTTPProtocol

theorem putStatusLine_text {f g : StringFormatter} {status : HTTPStatusCode} {version : HTTPVersion}
    (hf : Text f) (h : putStatusLine f status version = some g) : Text g := by
  simp only [putStatusLine, Option.bind_eq_bind, Option.bind_eq_some_iff] at h
  obtain ⟨text, htext, f₁, h₁, f₂, h₂, f₃, h₃, f₄, h₄, f₅, h₅, h⟩ := h
  have t₁ := hf.put (zero_notMem_getVersionString htext) h₁
  have t₂ := t₁.put (by decide) h₂
  have t₃ := t₂.put (zero_notMem_getStatusCodeAsString status) h₃
  have t₄ := t₃.put (by decide) h₄
  have t₅ := t₄.put (zero_notMem_getStatusCodeString status) h₅
  exact (t₅.putEOL h).1

/-- The same packet, but for its formatter, which holds a text. -/
structure Built (h h' : HTTPPacket) : Prop where
  fHTTPType : h'.fHTTPType = h.fHTTPType
  fStatusCode : h'.fStatusCode = h.fStatusCode
  fHTTPBody : h'.fHTTPBody = h.fHTTPBody
  text : ∀ formatter ∈ h'.fHTTPHeaderFormatter, Text formatter

theorem Built.trans {h h' h'' : HTTPPacket} (hb : Built h h') (hb' : Built h' h'') :
    Built h h'' where
  fHTTPType := hb'.fHTTPType.trans hb.fHTTPType
  fStatusCode := hb'.fStatusCode.trans hb.fStatusCode
  fHTTPBody := hb'.fHTTPBody.trans hb.fHTTPBody
  text := hb'.text

theorem appendResponseHeader_built {h h' : HTTPPacket} {inHeader : HTTPHeader} {inValue : Bytes}
    (htext : ∀ formatter ∈ h.fHTTPHeaderFormatter, Text formatter) (hvalue : 0 ∉ inValue)
    (happend : h.appendResponseHeader inHeader inValue = some h') : Built h h' := by
  simp only [appendResponseHeader, Option.bind_eq_bind, Option.bind_eq_some_iff] at happend
  obtain ⟨f, hf, f₁, h₁, f₂, h₂, f₃, h₃, f₄, h₄, heq⟩ := happend
  have t₁ := (htext f hf).put (zero_notMem_getHeaderString inHeader) h₁
  have t₂ := t₁.put (by decide) h₂
  have t₃ := t₂.put hvalue h₃
  cases heq
  refine ⟨rfl, rfl, rfl, ?_⟩
  rintro formatter ⟨⟩
  exact (t₃.putEOL h₄).1

theorem createResponseHeader_built {h h' : HTTPPacket} {date : DateBuffer}
    (htype : h.fHTTPType = .httpResponseType) (hcreate : h.createResponseHeader date = some h') :
    Built h h' := by
  have hempty : Text { size := kMinHeaderSizeInBytes } :=
    ⟨⟨Nat.zero_le _, by decide, by decide⟩, by simp⟩
  unfold createResponseHeader at hcreate
  rw [if_neg (not_not.mpr htype)] at hcreate
  simp only [Option.bind_eq_bind, Option.bind_eq_some_iff] at hcreate
  obtain ⟨formatter, hline, h₁, hserver, h₂, hdate, horigin⟩ := hcreate
  have hstart : ∀ f ∈ some formatter, Text f := by
    rintro f ⟨⟩
    exact putStatusLine_text hempty hline
  have b₁ := appendResponseHeader_built hstart zero_notMem_sServerHeaderStr hserver
  have b₂ := appendResponseHeader_built b₁.text date.noZero hdate
  have b₃ := appendResponseHeader_built b₂.text (by decide) horigin
  have hline' : Built h { h with fHTTPHeaderFormatter := some formatter } :=
    ⟨rfl, rfl, rfl, hstart⟩
  exact hline'.trans (b₁.trans (b₂.trans b₃))

theorem getCompleteHTTPHeader_built {h h' : HTTPPacket} {header : Bytes}
    (htext : ∀ formatter ∈ h.fHTTPHeaderFormatter, Text formatter)
    (hcomplete : h.getCompleteHTTPHeader = some (header, h')) :
    Built h h' ∧ 0 ∉ header ∧ header ≠ [] := by
  simp only [getCompleteHTTPHeader, Option.bind_eq_bind, Option.bind_eq_some_iff] at hcomplete
  obtain ⟨f, hf, f', heol, hcomplete⟩ := hcomplete
  obtain ⟨hf', hne⟩ := (htext f hf).putEOL heol
  split_ifs at hcomplete
  cases hcomplete
  refine ⟨⟨rfl, rfl, rfl, ?_⟩, hf'.noZero, hne⟩
  rintro formatter ⟨⟩
  exact hf'

end HTTPPacket

/-! ## The header of a response -/

namespace HTTPSession

open HTTPPacket

@[simp] theorem chooseVersion_built (fRequest fResponse : HTTPPacket) :
    (chooseVersion fRequest fResponse).fHTTPType = fResponse.fHTTPType ∧
      (chooseVersion fRequest fResponse).fStatusCode = fResponse.fStatusCode ∧
      (chooseVersion fRequest fResponse).fHTTPBody = fResponse.fHTTPBody := by
  unfold chooseVersion
  split_ifs <;> exact ⟨rfl, rfl, rfl⟩

theorem buildHeader_built {date : DateBuffer} {fRequest fResponse fResponse' : HTTPPacket}
    {header : Bytes} (htype : fResponse.fHTTPType = .httpResponseType)
    (hbuild : buildHeader date fRequest fResponse = some (header, fResponse')) :
    Built fResponse fResponse' ∧ 0 ∉ header ∧ header ≠ [] := by
  simp only [buildHeader, Option.bind_eq_bind, Option.bind_eq_some_iff] at hbuild
  obtain ⟨h₁, hcreate, h₂, hlength, h₃, hclose, hcomplete⟩ := hbuild
  obtain ⟨vtype, vstatus, vbody⟩ := chooseVersion_built fRequest fResponse
  have b₁ := createResponseHeader_built (vtype.trans htype) hcreate
  have b₂ := appendResponseHeader_built b₁.text (zero_notMem_decimal _) hlength
  have b₃ : Built h₂ h₃ := by
    unfold appendConnection at hclose
    split_ifs at hclose
    · cases hclose
      exact ⟨rfl, rfl, rfl, b₂.text⟩
    · exact appendResponseHeader_built b₂.text (by decide) hclose
  obtain ⟨b₄, hzero, hne⟩ := getCompleteHTTPHeader_built b₃.text hcomplete
  have b := b₁.trans (b₂.trans (b₃.trans b₄))
  exact ⟨⟨b.fHTTPType.trans vtype, b.fStatusCode.trans vstatus, b.fHTTPBody.trans vbody, b.text⟩,
    hzero, hne⟩

/-- The formatter has counted exactly the bytes it holds. -/
structure Counted (f : StringFormatter) : Prop where
  valid : Valid f
  count : f.fBytesWritten = f.content.length

theorem Counted.put {f g : StringFormatter} {buffer : Bytes} (hf : Counted f)
    (h : put f buffer = some g) : g.content = f.content ++ buffer ∧ Counted g := by
  obtain ⟨hcontent, hvalid⟩ := put_eq_some hf.valid h
  have hwritten := put_written hf.valid h
  have hfits := hvalid.fits.trans_lt hvalid.lt
  refine ⟨hcontent, hvalid, ?_⟩
  rw [hcontent, List.length_append] at hfits ⊢
  rw [hwritten, hf.count, Nat.mod_eq_of_lt hfits]

/-- `Put` of the header and of the body appends both. -/
theorem putResponse_spec {f f' g : StringFormatter} {header body : Bytes} (hf : Counted f)
    (hzero : 0 ∉ header) (hheader : putHeader f header = some f')
    (hbody : putBody f' body = some g) :
    g.content = f.content ++ (header ++ body) ∧ Counted g := by
  unfold putHeader at hheader
  split_ifs at hheader
  rw [cString_of_noZero hzero] at hheader
  obtain ⟨hcontent', hf'⟩ := hf.put hheader
  unfold putBody at hbody
  split_ifs at hbody with hempty
  · cases hbody
    rw [hempty, List.append_nil]
    exact ⟨hcontent', hf'⟩
  · obtain ⟨hcontent, hg⟩ := hf'.put hbody
    rw [hcontent, hcontent', List.append_assoc]
    exact ⟨rfl, hg⟩

end HTTPSession

end CxxFramework.Net
