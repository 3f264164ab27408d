import CxxFramework.Http.BodyAssembly
import CxxFramework.Http.RequestRoundTrip

/-!
# Requests of a client

A client writes its requests one behind the other, each with the body whose length stands in
its header. The header is delimited by `ReadRequest` however the requests are cut, and a
call finds the first request of those that are left.

## Main definitions

* `ClientRequest` — a request with its body.
* `ClientRequest.Reads` — what `Parse` makes of its header.
-/

namespace CxxFramework.Net

open CxxFramework.Core HTTPPacket HTTPProtocol HTTPRequestStream StringParser

/-- A request as `CreateRequestHeader` and `AppendResponseHeader` write it, with a body; a
body has its length in the header. -/
structure ClientRequest where
  fMethod : HTTPMethod
  fVersion : HTTPVersion
  fields : List Field
  body : Bytes
  method : fMethod ≠ .httpIllegalMethod
  version : fVersion ≠ .httpIllegalVersion
  areFields : AreFields fields
  short : (requestText fMethod fVersion fields).length < kMinHeaderSizeInBytes
  length : (.httpContentLengthHeader, decimal body.length) ∈ fields ∨
    body = [] ∧ .httpContentLengthHeader ∉ fields.map Prod.fst
  fits : body.length + 1 < uint32Size

namespace ClientRequest

def header (q : ClientRequest) : Bytes := requestText q.fMethod q.fVersion q.fields

def bytes (q : ClientRequest) : Bytes := q.header ++ q.body

/-- The requests one behind the other. -/
def stream (qs : List ClientRequest) : Bytes := qs.flatMap bytes

theorem stream_cons (q : ClientRequest) (qs : List ClientRequest) :
    stream (q :: qs) = q.header ++ (q.body ++ stream qs) := by
  rw [stream, List.flatMap_cons, bytes, List.append_assoc]
  rfl

/-! ## The lines of the header -/

theorem noEOL_append {s t : Bytes} (hs : NoEOL s) (ht : NoEOL t) : NoEOL (s ++ t) :=
  List.forall_mem_append.mpr ⟨hs, ht⟩

/-- A first line and the lines of fields are a header. -/
theorem header_lines {text : Bytes} {fields : List Field} (htext : NoEOL text)
    (hfields : ∀ field ∈ fields, IsField field) :
    Header (text ++ ([13, 10] ++ (fieldLines fields ++ [13, 10]))) := by
  induction fields generalizing text with
  | nil => exact .last htext .crlfCrlf
  | cons field fields ih =>
    obtain ⟨hfield, hfields⟩ := List.forall_mem_cons.mp hfields
    obtain ⟨c, s, hstart, hc⟩ := getHeaderString_start field.1
    have hline : NoEOL (getHeaderString field.1 ++ (ascii ": " ++ field.2)) :=
      noEOL_append (noEOL_getHeaderString _) (noEOL_append (by decide) hfield.value)
    have hrest : fieldLines (field :: fields) ++ [13, 10] =
        (getHeaderString field.1 ++ (ascii ": " ++ field.2)) ++
          ([13, 10] ++ (fieldLines fields ++ [13, 10])) := by
      simp only [fieldLines, List.flatMap_cons, fieldLine, List.append_assoc]
    have htexts : StartsText (fieldLines (field :: fields) ++ [13, 10]) := by
      rw [hrest, hstart]
      intro d hd
      obtain rfl : c = d := by simpa using hd
      exact hc
    refine .line htext (.crlf _) htexts ?_
    rw [hrest]
    exact ih hline hfields

/-- The method line in two parts: the method, and what is behind the blank. -/
theorem exists_header_line (q : ClientRequest) :
    ∃ name text, q.header =
        (name ++ 32 :: text) ++
          ([13, 10] ++ (fieldLines (userAgentField :: q.fields) ++ [13, 10])) ∧
      NoEOL name ∧ NoEOL text ∧ name.head? ≠ some 36 ∧ name ≠ [] := by
  obtain ⟨name, hname, -, -⟩ := exists_method_text q.method
  obtain ⟨version, hversion, -, -, hline, -⟩ := exists_version_text q.version
  refine ⟨name, 47 :: 32 :: version, ?_, ?_⟩
  · simp only [header, requestText, methodLine, hname, hversion, Option.getD_some,
      List.append_assoc, List.cons_append, List.nil_append]
  · have hplain : NoEOL name ∧ name.head? ≠ some 36 ∧ name ≠ [] := by
      revert hname
      generalize q.fMethod = method
      intro hname
      cases method <;> cases hname <;> decide
    exact ⟨hplain.1, List.forall_mem_cons.mpr ⟨by decide, List.forall_mem_cons.mpr
      ⟨by decide, hline⟩⟩, hplain.2⟩

/-- The header is delimited whatever is received behind it. -/
theorem header_distinct (q : ClientRequest) (rest : Bytes) : Distinct q.header rest := by
  obtain ⟨name, text, hheader, hname, htext, hhead, hne⟩ := q.exists_header_line
  refine .header ?_ ?_ ?_ ?_
  · rwa [hheader, List.append_assoc, List.head?_append_of_ne_nil _ hne]
  · rw [hheader]
    refine header_lines (noEOL_append hname (List.forall_mem_cons.mpr ⟨by decide, htext⟩)) ?_
    exact List.forall_mem_cons.mpr ⟨userAgentField_isField, q.areFields.field⟩
  · exact ⟨name, _, by rw [hheader, List.append_assoc, List.cons_append], hname⟩
  · intro hlast
    rw [header, requestText, ← List.append_assoc,
      List.getLast?_append_of_ne_nil _ (by simp)] at hlast
    exact absurd hlast (by decide)

theorem length_header_le (q : ClientRequest) :
    q.header.length ≤ kRequestBufferSizeInBytes - 1 :=
  q.short.le.trans (by decide)

/-! ## Finding the next request -/

variable {r : HTTPRequestStream} {fSocket : Socket} {base : Nat} {qs : List ClientRequest}
  {p : Bytes}

theorem messageEnd_stream (q : ClientRequest) (hp : p <+: stream (q :: qs))
    (hle : p.length ≤ kRequestBufferSizeInBytes - 1) :
    messageEnd p = if q.header.length ≤ p.length then some q.header.length else none := by
  rw [stream_cons] at hp
  exact (q.header_distinct _).messageEnd_of_fits q.length_header_le hp hle

/-- A call waits for more bytes, or makes the header of the next request available. -/
theorem readRequest_stream (h : Ready r fSocket base (stream qs)) :
    ∃ err r' fSocket', r.readRequest fSocket = some (err, r', fSocket') ∧
      (err = CF_NoErr ∧ Ready r' fSocket' base (stream qs) ∨
        ∃ q rest, qs = q :: rest ∧ err = CF_RequestArrived ∧ r'.complete = true ∧
          r'.fRequest = q.header ∧
          Holds r' fSocket' (base + q.header.length) (q.body ++ stream rest)) := by
  obtain ⟨err, r', fSocket', hread, hout⟩ := h.readRequest
  refine ⟨err, r', fSocket', hread, ?_⟩
  cases hout with
  | waits hr _ _ => exact .inl ⟨rfl, hr⟩
  | stuck _ _ hpre hnone hfull _ _ _ =>
    cases qs with
    | nil =>
      rw [List.prefix_nil.mp hpre] at hfull
      cases hfull
    | cons q rest =>
      rw [q.messageEnd_stream hpre hfull.le, if_pos (by rw [hfull]; exact q.length_header_le)]
        at hnone
      cases hnone
  | @arrived _ _ p n hpre hfits hn hr hc hrequest _ =>
    cases qs with
    | nil =>
      rw [List.prefix_nil.mp hpre, messageEnd_nil] at hn
      cases hn
    | cons q rest =>
      rw [q.messageEnd_stream hpre hfits] at hn
      split_ifs at hn
      cases hn
      rw [stream_cons, List.take_left] at hrequest
      rw [stream_cons, List.drop_left] at hr
      exact .inr ⟨q, rest, rfl, rfl, hc, hrequest, hr.toHolds⟩
  | tooLong hlong hnone _ _ _ =>
    cases qs with
    | nil => simp [stream, kRequestBufferSizeInBytes] at hlong
    | cons q rest =>
      rw [q.messageEnd_stream (List.take_prefix _ _) (List.length_take_le _ _), if_pos] at hnone
      · cases hnone
      · rw [List.length_take_of_le hlong]
        exact q.length_header_le

/-! ## Parsing its header -/

/-- The packet of a request, whatever its body. -/
structure Reads (q : ClientRequest) (packet : HTTPPacket) : Prop where
  fHTTPType : packet.fHTTPType = .httpRequestType
  fMethod : packet.fMethod = q.fMethod
  fVersion : packet.fVersion = q.fVersion
  fRelativeURI : packet.fRelativeURI = some (ascii "/")
  fFieldValues : packet.fFieldValues = setFields (fun _ => none) (userAgentField :: q.fields)

theorem parse_header (q : ClientRequest) (beyond : Bytes) :
    ∃ packet, (ofHeader q.header beyond).parse = some (CF_NoErr, packet) ∧ q.Reads packet ∧
      packet.fHTTPBody = none := by
  obtain ⟨packet, hparse, htype, hmethod, hversion, hrel, hbody, hvalues⟩ :=
    parse_request q.method q.version q.areFields.field beyond
  exact ⟨packet, hparse, ⟨htype, hmethod, hversion, hrel, hvalues⟩, hbody⟩

theorem Reads.setBody {q : ClientRequest} {packet : HTTPPacket} (h : q.Reads packet)
    (fHTTPBody : Option Bytes) : q.Reads { packet with fHTTPBody } :=
  ⟨h.fHTTPType, h.fMethod, h.fVersion, h.fRelativeURI, h.fFieldValues⟩

/-- A number in decimal digits denotes it. -/
theorem denotes_decimal (n : Nat) : Denotes (decimal n) n := by
  have hdigit : ∀ c ∈ Nat.toDigits 10 n, 48 ≤ c.toNat ∧ c.toNat ≤ 57 := fun c hc => by
    have hdigit := Nat.isDigit_of_mem_toDigits (by decide) (by decide) hc
    simpa [Char.isDigit, UInt32.le_iff_toNat_le] using hdigit
  have hvalue : decimalValue (decimal n) = n := by
    have hfold := Nat.ofDigitChars_ten_toDigits (n := n)
    rw [Nat.ofDigitChars_eq_foldl] at hfold
    rw [decimalValue, decimal, List.foldl_map]
    refine Eq.trans ?_ hfold
    refine List.foldl_ext _ _ _ fun value c hc => ?_
    obtain ⟨-, hle⟩ := hdigit c hc
    have htoNat : (UInt8.ofNat c.toNat).toNat = c.toNat := by
      rw [UInt8.toNat_ofNat']
      omega
    rw [htoNat, Nat.mul_comm]
    rfl
  have hdigits : ∀ c ∈ decimal n, sDigitMask c = true := by
    intro c hc
    obtain ⟨d, hd, rfl⟩ := List.mem_map.mp hc
    obtain ⟨hlow, hhigh⟩ := hdigit d hd
    have hle : (48 : UInt8) ≤ UInt8.ofNat d.toNat ∧ UInt8.ofNat d.toNat ≤ 57 := by
      simp only [UInt8.le_iff_toNat_le, UInt8.toNat_ofNat']
      constructor <;> · simp; omega
    simp only [sDigitMask]
    grind
  have hne : decimal n ≠ [] := by
    rw [decimal, ne_eq, List.map_eq_nil_iff]
    exact Nat.toDigits_ne_nil
  have hdenotes := denotes_digits hne hdigits
  rwa [hvalue] at hdenotes

theorem contentLength_decimal (q : ClientRequest) :
    contentLength (decimal q.body.length) = q.body.length := by
  have hfits := q.fits
  rw [(denotes_decimal _).contentLength_eq, Nat.mod_eq_of_lt (by omega)]

/-- The length in the header is that of the body. -/
theorem Reads.length {q : ClientRequest} {packet : HTTPPacket} (h : q.Reads packet) :
    packet.fFieldValues .httpContentLengthHeader = some (decimal q.body.length) ∨
      q.body = [] ∧ packet.fFieldValues .httpContentLengthHeader = none := by
  rw [h.fFieldValues]
  rcases q.length with hmem | ⟨hbody, hnot⟩
  · exact .inl (setFields_of_mem q.areFields.distinct hmem _)
  · refine .inr ⟨hbody, setFields_of_notMem ?_ _⟩
    rw [List.map_cons, List.mem_cons, not_or]
    exact ⟨by decide, hnot⟩

end ClientRequest

end CxxFramework.Net
