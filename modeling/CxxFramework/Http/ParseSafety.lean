import CxxFramework.Http.HeaderSafety
import CxxFramework.Http.MessageEnd
import CxxFramework.Http.RequestLine

/-!
# What `Parse` needs of a packet

Searches that stop at line ends stay inside the packet, whatever is in it. Those for white
space and for a digit go on over line ends: behind the last byte, `advanceMark` looks behind a
`\r`, and the look at the first byte of the URI is behind the packet.

## Main definitions

* `HTTPPacket.SafeLines` — what is read inside the packet, from a request line on.
-/

namespace CxxFramework.Net.HTTPPacket

open CxxFramework.Core StringParser HTTPProtocol

/-! ## The forms of a packet -/

/-- The text up to a line end. -/
def lineText (s : Bytes) : Bytes := s.takeWhile (!sEOLMask ·)

/-- The bytes from a line end on. -/
def lineRest (s : Bytes) : Bytes := s.dropWhile (!sEOLMask ·)

/-- A line end and header lines, or no line end. -/
def SafeEnd (s : Bytes) : Prop :=
  StartsText s ∨ ∃ e rest, s = e ++ rest ∧ IsEOL e rest ∧ SafeHeaders rest

/-- Behind a method there is a byte of a URI. If the URI is accepted, the version is inside the
tables, and what is passed to find it does not end the packet with a `\r`. -/
def SafeRequest (s : Bytes) : Prop :=
  skipWhitespace s ≠ [] ∧ HasRoom (relativeURI (uriOf s)) ∧
    (Accepted (relativeURI (uriOf s)) →
      ¬ (versionOf s = [] ∧ (afterTarget s).getLast? = some 13) ∧
        (lineText (versionOf s) = [] ∨ (getVersion (lineText (versionOf s))).isSome) ∧
        SafeEnd (lineRest (versionOf s)))

/-- The number that `ConsumeInteger` reads at the front. -/
def numberOf (s : Bytes) : Nat :=
  (s.takeWhile sDigitMask).foldl (fun theValue c => (theValue * 10 + (c.toNat - 48)) % uint32Size) 0

/-- The bytes from the status code on, in those behind the word `HTTP`. -/
def statusOf (s : Bytes) : Bytes :=
  (s.dropWhile (!sEOLWhitespaceMask ·)).dropWhile (!sDigitMask ·)

/-- The bytes behind the status code. -/
def afterStatus (s : Bytes) : Bytes := (statusOf s).dropWhile sDigitMask

/-- A status line. With no status code, the line is taken for a request line. -/
def SafeStatus (s : Bytes) : Prop :=
  if numberOf (statusOf s) = 0 then SafeRequest (afterStatus s)
  else
    ¬ (skipWhitespace (afterStatus s) = [] ∧ (afterStatus s).getLast? = some 13) ∧
      SafeEnd ((skipWhitespace (afterStatus s)).dropWhile (!sEOLWhitespaceMask ·))

def wordOf (s : Bytes) : Bytes := s.takeWhile sWordMask

def afterWord (s : Bytes) : Bytes := s.dropWhile sWordMask

/-- A request line, a status line or a line that is refused, behind lines that are skipped. -/
inductive SafeLines : Bytes → Prop
  | request {s : Bytes} : getMethod (wordOf s) ≠ .httpIllegalMethod →
      SafeRequest (afterWord s) → SafeLines s
  | response {s : Bytes} : getMethod (wordOf s) = .httpIllegalMethod → wordOf s = ascii "HTTP" →
      SafeStatus (afterWord s) → SafeLines s
  | refused {s : Bytes} : getMethod (wordOf s) = .httpIllegalMethod → wordOf s ≠ ascii "HTTP" →
      StartsText (afterWord s) → SafeLines s
  | skipped {s e rest : Bytes} : getMethod (wordOf s) = .httpIllegalMethod →
      wordOf s ≠ ascii "HTTP" → afterWord s = e ++ rest → IsEOL e rest →
      ¬ (e = [13] ∧ rest = []) → SafeLines rest → SafeLines s

variable {h h' : HTTPPacket} {p q : StringParser} {parsed rest s t e line : Bytes}

/-! ## The URI -/

/-- A search that stops at `\r` and at `\n` stops at each line end. -/
theorem stops_of_eol {stop : UInt8 → Bool} (hcr : stop 13 = true) (hlf : stop 10 = true)
    (c : UInt8) (hc : sEOLMask c = true) : stop c = true := by
  simp only [sEOLMask, Bool.or_eq_true, beq_iff_eq] at hc
  rcases hc with rfl | rfl
  · exact hcr
  · exact hlf

theorem checked_of_getLast? {α : Type} {op : StringParser → α × StringParser}
    (hlast : p.rest.getLast? ≠ some 13) : p.checked op = some (op p) :=
  if_pos ((advancesInside_iff (Nat.sub_le _ _)).mpr fun hend => hlast hend.2)

theorem At.checked_of_noCR {α : Type} {op : StringParser → α × StringParser} (hp : At p parsed s)
    (hcr : 13 ∉ s) : p.checked op = some (op p) :=
  checked_of_getLast? fun hlast => hcr (List.mem_of_getLast? (hp.rest_eq ▸ hlast))

theorem parseHostChecked_eq (h : HTTPPacket) {uri : Bytes} (huri : h.fAbsoluteURI = some uri)
    (hcr : 13 ∉ uri) (first : UInt8) : h.parseHostChecked first = some (h.parseHost first) := by
  have hat := at_ofString uri []
  obtain ⟨q₁, hq₁, hat₁⟩ := hat.consumeUntil (· == 58)
  obtain ⟨q₂, hq₂, hat₂⟩ := hat₁.consumeLength 3
  have hcr₁ : 13 ∉ uri.dropWhile fun c => !(c == 58) :=
    fun hmem => hcr ((List.dropWhile_suffix _).subset hmem)
  have hcr₂ : 13 ∉ (uri.dropWhile fun c => !(c == 58)).drop 3 :=
    fun hmem => hcr₁ ((List.drop_suffix 3 _).subset hmem)
  unfold parseHostChecked parseHost
  simp only [huri]
  split_ifs
  · rfl
  · rw [At.checked_of_noCR hat hcr, Option.bind_some, hq₁, At.checked_of_noCR hat₁ hcr₁,
      Option.bind_some, hq₂, At.checked_of_noCR hat₂ hcr₂, Option.map_some]

theorem parseQueryStringChecked_eq (h : HTTPPacket) (hp : At p parsed s) :
    h.parseQueryStringChecked p = some (h.parseQueryString p) := by
  unfold parseQueryStringChecked parseQueryString
  split_ifs with hquery
  · obtain ⟨hpos, hpeek⟩ := hquery
    rw [getDataRemaining, hp.rest_eq] at hpos
    obtain ⟨c, s, rfl⟩ := List.exists_cons_of_ne_nil (List.length_pos_iff.mp hpos)
    rw [hp.peekFast] at hpeek
    subst hpeek
    obtain ⟨q₁, hq₁, hat₁⟩ := hp.consumeLength 1
    have hmark := At.checked_eq (s := [63]) (·.consumeLength 1) hp hq₁ hat₁
    rw [if_neg (by simp)] at hmark
    obtain ⟨q₂, parsed₂, hat₂, hq₂, hwhite⟩ :=
      hat₁.consumeUntil_inside (stops_of_eol (rfl : sEOLWhitespaceMask 13 = true) rfl)
    have hspan : q₁.checked (·.consumeUntilWhitespace) = _ := hwhite
    have hquery : q₁.consumeUntilWhitespace = _ := hq₂
    rw [hmark, Option.bind_some, hspan, Option.map_some, hq₁, hquery]
  · rfl

/-- The first byte of the URI has to be in the packet. -/
theorem parseURIChecked_nil (h : HTTPPacket) (hp : At p parsed []) :
    h.parseURIChecked p = none := by
  unfold parseURIChecked
  rw [hp.peekChecked_eq]
  cases p.checked (·.consumeUntil sURLStopConditions) <;> rfl

/-- `parseURI` looks at no other byte that could be behind the packet. -/
theorem parseURIChecked_eq (h : HTTPPacket) (hp : At p parsed s) (hne : s ≠ []) :
    h.parseURIChecked p = h.parseURI p := by
  obtain ⟨c, s, rfl⟩ := List.exists_cons_of_ne_nil hne
  obtain ⟨q, parsed', hat, hq, huri⟩ :=
    hp.consumeUntil_inside (stops_of_eol (rfl : sURLStopConditions 13 = true) rfl)
  have hcr : 13 ∉ (c :: s).takeWhile (!sURLStopConditions ·) := fun hmem =>
    absurd (List.mem_takeWhile_imp hmem) (by decide)
  unfold parseURIChecked parseURI
  rw [huri, Option.bind_some, hp.peekChecked_eq, List.head?_cons, Option.bind_some,
    parseHostChecked_eq _ rfl hcr, Option.bind_some, parseQueryStringChecked_eq _ hat,
    Option.bind_some, hq, hp.peekFast]

/-! ## Behind a line -/

theorem IsEOL.unique {e e' rest rest' : Bytes} (he : IsEOL e rest) (he' : IsEOL e' rest')
    (heq : e ++ rest = e' ++ rest') : e = e' ∧ rest = rest' := by
  cases he <;> cases he' <;> grind

theorem safeEnd_iff (he : IsEOL e rest) : SafeEnd (e ++ rest) ↔ SafeHeaders rest := by
  constructor
  · rintro (hstart | ⟨e', rest', heq, he', hrest⟩)
    · exact absurd hstart he.not_startsText
    · rwa [(IsEOL.unique he he' heq).2]
  · exact fun hrest => .inr ⟨e, rest, rfl, he, hrest⟩

/-- What `Parse` does once a request line is parsed. -/
def parseHeadersOf (result : CF_Error × HTTPPacket × StringParser) :
    Option (CF_Error × HTTPPacket) :=
  if result.1 ≠ CF_NoErr then some (result.1, result.2.1)
  else result.2.1.parseHeadersChecked result.2.2

/-- `Parse` from a request line on. -/
def parseLinesChecked (h : HTTPPacket) (parser : StringParser) : Option (CF_Error × HTTPPacket) :=
  (h.parseRequestLinesChecked parser).bind parseHeadersOf

/-- What `Parse` does behind a line. -/
def parseBehind (result : CF_Error × HTTPPacket × StringParser) :
    Option (CF_Error × HTTPPacket) :=
  if result.1 ≠ CF_NoErr then some (result.1, result.2.1)
  else if result.2.1.fHTTPType = .httpIllegalType then result.2.1.parseLinesChecked result.2.2
  else result.2.1.parseHeadersChecked result.2.2

theorem parseLinesChecked_eq (h : HTTPPacket) (p : StringParser) :
    h.parseLinesChecked p = (h.parseRequestLineChecked p).bind parseBehind := by
  unfold parseLinesChecked
  rw [parseRequestLinesChecked]
  split
  next hline =>
    rw [hline]
    rfl
  next err h' p' hline =>
    rw [hline, Option.bind_some, parseBehind]
    split_ifs with herr htype
    · exact if_pos herr
    · rfl
    · rw [Option.bind_some, parseHeadersOf, if_neg (not_not.mpr rfl)]

theorem endRequestLineChecked_text (h : HTTPPacket) (hp : At p parsed s) (hs : StartsText s) :
    ((h.endRequestLineChecked p).bind parseBehind).isSome := by
  unfold endRequestLineChecked
  rw [hp.expectEOL_checked_text hs]
  rfl

theorem endRequestLineChecked_eol (h : HTTPPacket) (hp : At p parsed (e ++ rest))
    (he : IsEOL e rest) :
    ∃ q parsed', At q parsed' rest ∧ h.endRequestLineChecked p =
      if e = [13] ∧ rest = [] then none else some (CF_NoErr, h, q) := by
  obtain ⟨q, parsed', hat, -, heol⟩ := hp.expectEOL_checked he
  refine ⟨q, parsed', hat, ?_⟩
  unfold endRequestLineChecked
  rw [heol]
  split_ifs <;> rfl

/-- Header lines follow the line of a request or of a response. -/
theorem endRequestLineChecked_isSome_iff (h : HTTPPacket) (hp : At p parsed s)
    (htype : h.fHTTPType ≠ .httpIllegalType) :
    ((h.endRequestLineChecked p).bind parseBehind).isSome ↔ SafeEnd s := by
  rcases startsText_or_isEOL s with hstart | ⟨e, rest, rfl, he⟩
  · exact iff_of_true (endRequestLineChecked_text h hp hstart) (.inl hstart)
  · obtain ⟨q, parsed', hat, hline⟩ := endRequestLineChecked_eol h hp he
    rw [safeEnd_iff he, hline]
    split_ifs with hcr
    · exact iff_of_false (by simp) fun hrest => hrest.ne_nil hcr.2
    · have hbehind : parseBehind (CF_NoErr, h, q) = h.parseHeadersChecked q := by
        unfold parseBehind
        rw [if_neg (not_not.mpr rfl), if_neg htype]
      rw [Option.bind_some, hbehind, parseHeadersChecked_isSome_iff h hat]

/-! ## Behind a method -/

theorem parseVersion_isSome_iff (h : HTTPPacket) (version : Bytes) :
    (h.parseVersion (some version)).isSome ↔ version = [] ∨ (getVersion version).isSome := by
  unfold parseVersion
  rw [Option.getD_some]
  split_ifs with hnil
  · exact iff_of_true rfl (.inl hnil)
  · rw [Option.isSome_map]
    exact (or_iff_right hnil).symm

/-- Behind the URI, the version and the line end are passed. -/
theorem parseAccepted_isSome_iff (h : HTTPPacket) (hp : At p parsed s)
    (htype : h.fHTTPType ≠ .httpIllegalType) :
    (((p.checked (·.consumeUntil sNonWhitespaceMask)).bind fun white =>
      (white.2.checked (·.consumeUntil sEOLMask)).bind fun versionStr =>
        (h.parseVersion versionStr.1).bind (endRequestLineChecked · versionStr.2)).bind
          parseBehind).isSome ↔
      ¬ (skipWhitespace s = [] ∧ s.getLast? = some 13) ∧
        (lineText (skipWhitespace s) = [] ∨ (getVersion (lineText (skipWhitespace s))).isSome) ∧
        SafeEnd (lineRest (skipWhitespace s)) := by
  obtain ⟨q₁, parsed₁, hat₁, -, hwhite⟩ := hp.consumeUntil_checked sNonWhitespaceMask
  have hskip : s.dropWhile (!sNonWhitespaceMask ·) = skipWhitespace s := by
    simp [skipWhitespace, sNonWhitespaceMask]
  rw [hskip] at hat₁ hwhite
  obtain ⟨q₂, parsed₂, hat₂, -, hversion⟩ := hat₁.consumeUntil_inside fun _ hc => hc
  rw [hwhite]
  split_ifs with hend
  · exact iff_of_false (by simp) fun hsafe => hsafe.1 hend
  · rw [and_iff_right hend, Option.bind_some, hversion, Option.bind_some,
      ← parseVersion_isSome_iff h]
    unfold lineText lineRest
    cases hset : h.parseVersion (some ((skipWhitespace s).takeWhile (!sEOLMask ·))) with
    | none => exact iff_of_false (by simp) fun hsafe => by cases hsafe.1
    | some h' =>
      rw [Option.bind_some,
        endRequestLineChecked_isSome_iff h' hat₂ (parseVersion_type hset ▸ htype)]
      exact (and_iff_right rfl).symm

/-- Behind white space, the URI is parsed if it has a first byte. -/
theorem parseRequestChecked_white (h : HTTPPacket) (hp : At p parsed s) :
    (skipWhitespace s = [] ∧ h.parseRequestChecked p = none) ∨
      ∃ (h₁ : HTTPPacket) (q : StringParser) (parsed' : Bytes),
        h₁.fHTTPType = .httpRequestType ∧ skipWhitespace s ≠ [] ∧ At q parsed' (skipWhitespace s) ∧
        h.parseRequestChecked p =
          (h₁.parseURI q).bind fun (err, h, parser) =>
            if err ≠ CF_NoErr then some (err, h, parser)
            else
              (parser.checked (·.consumeUntil sNonWhitespaceMask)).bind fun white =>
                (white.2.checked (·.consumeUntil sEOLMask)).bind fun versionStr =>
                  (h.parseVersion versionStr.1).bind (endRequestLineChecked · versionStr.2) := by
  obtain ⟨q, parsed', hat, -, hwhite⟩ := hp.consumeUntil_checked sNonWhitespaceMask
  have hskip : s.dropWhile (!sNonWhitespaceMask ·) = skipWhitespace s := by
    simp [skipWhitespace, sNonWhitespaceMask]
  rw [hskip] at hat hwhite
  unfold parseRequestChecked
  rcases eq_or_ne (skipWhitespace s) [] with hnil | hne
  · refine .inl ⟨hnil, ?_⟩
    rw [hwhite]
    split_ifs
    · rfl
    · rw [hnil] at hat
      rw [Option.bind_some, parseURIChecked_nil _ hat]
      rfl
  · refine .inr ⟨{ h with fHTTPType := .httpRequestType }, q, parsed', rfl, hne, hat, ?_⟩
    rw [hwhite, if_neg fun hend => hne hend.1, Option.bind_some, parseURIChecked_eq _ hat hne]

theorem parseRequestChecked_isSome_iff (h : HTTPPacket) (hp : At p parsed s) :
    ((h.parseRequestChecked p).bind parseBehind).isSome ↔ SafeRequest s := by
  rcases parseRequestChecked_white h hp with
    ⟨hnil, hnone⟩ | ⟨h₁, q, parsed', hrequestType, hne, hat, hrequest⟩
  · rw [hnone]
    exact iff_of_false (by simp) fun hsafe => hsafe.1 hnil
  · have huri := requestURI_at hat
    have hroom := parseURI_isSome_iff h₁ q
    rw [huri] at hroom
    rw [hrequest]
    unfold SafeRequest
    rw [and_iff_right hne, ← hroom]
    cases hparse : h₁.parseURI q with
    | none => exact iff_of_false (by simp) fun hsafe => by cases hsafe.1
    | some result =>
      obtain ⟨err, h', q'⟩ := result
      obtain ⟨parsed₂, hat₂⟩ := parseURI_at hat hparse
      have haccepted := parseURI_noErr_iff hparse
      rw [huri] at haccepted
      have hsome : (some (err, h', q')).isSome = true := rfl
      rw [Option.bind_some, and_iff_right hsome, ← haccepted]
      dsimp only
      by_cases herr : err = CF_NoErr
      · have htype : h'.fHTTPType ≠ .httpIllegalType := by
          rw [parseURI_type hparse, hrequestType]
          nofun
        rw [if_neg (not_not.mpr herr), forall_prop_of_true herr]
        exact parseAccepted_isSome_iff h' hat₂ htype
      · refine iff_of_true ?_ fun hno => absurd hno herr
        rw [if_pos herr, Option.bind_some, parseBehind, if_pos herr]
        rfl

/-! ## Behind `HTTP` -/

theorem At.consumeInteger_checked (hp : At p parsed s) :
    ∃ q parsed', At q parsed' (s.dropWhile sDigitMask) ∧
      p.checked (·.consumeInteger) = some (numberOf s, q) := by
  have hsplit := List.takeWhile_append_dropWhile (p := sDigitMask) (l := s)
  have hp' := hp
  rw [← hsplit] at hp'
  have hop : p.consumeInteger = (numberOf s, advance (s.takeWhile sDigitMask).length p) := by
    unfold consumeInteger numberOf
    rw [hp.notNull, hp.rest_eq]
    rfl
  refine ⟨_, _, hp'.advance, ?_⟩
  rw [At.checked_eq (·.consumeInteger) hp' hop hp'.advance, if_neg]
  rintro ⟨-, hlast⟩
  exact absurd (List.mem_takeWhile_imp (List.mem_of_getLast? hlast)) (by decide)

theorem not_safeRequest_nil : ¬ SafeRequest [] := fun h => h.1 rfl

/-- Behind a status code, the white space and the phrase are passed. -/
theorem parsePhrase_isSome_iff (h : HTTPPacket) (hp : At p parsed s)
    (htype : h.fHTTPType ≠ .httpIllegalType) :
    (((p.checked (·.consumeUntil sNonWhitespaceMask)).bind fun white =>
      (white.2.checked (·.consumeUntilWhitespace)).bind fun phrase =>
        h.endRequestLineChecked phrase.2).bind parseBehind).isSome ↔
      ¬ (skipWhitespace s = [] ∧ s.getLast? = some 13) ∧
        SafeEnd ((skipWhitespace s).dropWhile (!sEOLWhitespaceMask ·)) := by
  obtain ⟨q₁, parsed₁, hat₁, -, hwhite⟩ := hp.consumeUntil_checked sNonWhitespaceMask
  have hskip : s.dropWhile (!sNonWhitespaceMask ·) = skipWhitespace s := by
    simp [skipWhitespace, sNonWhitespaceMask]
  rw [hskip] at hat₁ hwhite
  obtain ⟨q₂, parsed₂, hat₂, -, hphrase⟩ :=
    hat₁.consumeUntil_inside (stops_of_eol (rfl : sEOLWhitespaceMask 13 = true) rfl)
  have hspan : q₁.checked (·.consumeUntilWhitespace) = _ := hphrase
  rw [hwhite]
  split_ifs with hend
  · exact iff_of_false (by simp) fun hsafe => hsafe.1 hend
  · rw [and_iff_right hend, Option.bind_some, hspan, Option.bind_some]
    exact endRequestLineChecked_isSome_iff h hat₂ htype

theorem parseStatusChecked_isSome_iff (h : HTTPPacket) (hp : At p parsed s) :
    ((h.parseStatusChecked p).bind parseBehind).isSome ↔ SafeStatus s := by
  obtain ⟨q₁, parsed₁, hat₁, -, hspan⟩ :=
    hp.consumeUntil_inside (stops_of_eol (rfl : sEOLWhitespaceMask 13 = true) rfl)
  obtain ⟨q₂, parsed₂, hat₂, -, hsearch⟩ := hat₁.consumeUntil_checked sDigitMask
  have hstatus₂ : At q₂ parsed₂ (statusOf s) := hat₂
  obtain ⟨q₃, parsed₃, hat₃, hstatus⟩ := At.consumeInteger_checked hstatus₂
  have hversion : p.checked (·.consumeUntilWhitespace) = _ := hspan
  unfold parseStatusChecked SafeStatus
  rw [hversion, Option.bind_some]
  by_cases hend : statusOf s = [] ∧ (s.dropWhile (!sEOLWhitespaceMask ·)).getLast? = some 13
  · have hzero : numberOf (statusOf s) = 0 := by
      rw [hend.1]
      rfl
    have hnil : afterStatus s = [] := by
      unfold afterStatus
      rw [hend.1]
      rfl
    have hblank : q₁.checked (·.consumeUntilDigit) = none := hsearch.trans (if_pos hend)
    rw [hblank, if_pos hzero, hnil]
    exact iff_of_false (by simp) not_safeRequest_nil
  · have hblank : q₁.checked (·.consumeUntilDigit) = some (_, q₂) := hsearch.trans (if_neg hend)
    rw [hblank, Option.bind_some, hstatus, Option.bind_some]
    by_cases hzero : numberOf (statusOf s) = 0
    · rw [if_neg (not_not.mpr hzero), if_pos hzero]
      exact parseRequestChecked_isSome_iff h hat₃
    · rw [if_pos hzero, if_neg hzero]
      exact parsePhrase_isSome_iff _ hat₃ nofun

/-! ## The request lines -/

theorem consumeWord_at (hp : At p parsed s) :
    ∃ q parsed', At q parsed' (afterWord s) ∧
      p.checked (·.consumeWord) = some (some (wordOf s), q) := by
  obtain ⟨q, parsed', hat, -, hword⟩ :=
    hp.consumeUntil_inside (stops_of_eol (rfl : sNonWordMask 13 = true) rfl)
  simp only [sNonWordMask, Bool.not_not] at hat hword
  exact ⟨q, parsed', hat, hword⟩

/-- Lines that are skipped are skipped one by one. -/
theorem parseLinesChecked_isSome_iff (h : HTTPPacket) (hp : At p parsed s)
    (htype : h.fHTTPType = .httpIllegalType) :
    (h.parseLinesChecked p).isSome ↔ SafeLines s := by
  induction hlen : s.length using Nat.strong_induction_on generalizing s h p parsed with
  | _ n ih =>
  subst hlen
  obtain ⟨q, parsed', hat, hword⟩ := consumeWord_at hp
  rw [parseLinesChecked_eq, parseRequestLineChecked, hword, Option.bind_some]
  dsimp only
  rw [Option.getD_some]
  by_cases hmethod : getMethod (wordOf s) = .httpIllegalMethod
  · rw [if_neg (not_not.mpr hmethod)]
    by_cases hhttp : wordOf s = ascii "HTTP"
    · rw [if_pos (congrArg some hhttp), parseStatusChecked_isSome_iff _ hat]
      refine ⟨.response hmethod hhttp, fun hs => ?_⟩
      cases hs with
      | request hno => exact absurd hmethod hno
      | response _ _ hstatus => exact hstatus
      | refused _ hno => exact absurd hhttp hno
      | skipped _ hno => exact absurd hhttp hno
    · rw [if_neg fun heq => hhttp (Option.some.inj heq)]
      rcases startsText_or_isEOL (afterWord s) with hstart | ⟨e, rest, hrest, he⟩
      · exact iff_of_true (endRequestLineChecked_text _ hat hstart) (.refused hmethod hhttp hstart)
      · rw [hrest] at hat
        obtain ⟨r, parsed₂, hat₂, hline⟩ := endRequestLineChecked_eol
          { h with fMethod := getMethod (wordOf s) } hat he
        have hlt : rest.length < s.length := by
          have hle := (List.dropWhile_suffix (l := s) sWordMask).length_le
          have hpos := List.length_pos_of_ne_nil (ne_nil_of_isEOL he)
          rw [show s.dropWhile sWordMask = e ++ rest from hrest, List.length_append] at hle
          omega
        have hiff : SafeLines s ↔ ¬ (e = [13] ∧ rest = []) ∧ SafeLines rest := by
          refine ⟨fun hs => ?_, fun hs => .skipped hmethod hhttp hrest he hs.1 hs.2⟩
          cases hs with
          | request hno => exact absurd hmethod hno
          | response _ hyes => exact absurd hyes hhttp
          | refused _ _ hstart => exact absurd (hrest ▸ hstart) he.not_startsText
          | skipped _ _ hrest' he' hcr hrest₂ =>
            obtain ⟨rfl, rfl⟩ := IsEOL.unique he he' (hrest.symm.trans hrest')
            exact ⟨hcr, hrest₂⟩
        rw [hline, hiff]
        split_ifs with hcr
        · exact iff_of_false (by simp) fun hs => hs.1 hcr
        · rw [Option.bind_some, parseBehind, if_neg (not_not.mpr rfl), if_pos htype,
            and_iff_right hcr]
          exact ih _ hlt _ hat₂ htype rfl
  · rw [if_pos hmethod, parseRequestChecked_isSome_iff _ hat]
    refine ⟨.request hmethod, fun hs => ?_⟩
    cases hs with
    | request _ hrequest => exact hrequest
    | response hno => exact absurd hno hmethod
    | refused hno => exact absurd hno hmethod
    | skipped hno => exact absurd hno hmethod

/-! ## Parsing inside the packet -/

/-- `Parse` looks at no byte that is not in the packet, and no `Assert` fails; what it returns
is the result, whatever stands behind the packet. -/
def ParsesInside (m : Bytes) : Prop :=
  ∀ beyond, ∃ result, (ofHeader m beyond).parseChecked = some result ∧
    (ofHeader m beyond).parse = some result

theorem parsesInside_iff_isSome (m : Bytes) :
    ParsesInside m ↔ ∀ beyond, ((ofHeader m beyond).parseChecked).isSome := by
  refine forall_congr' fun beyond => ?_
  rw [Option.isSome_iff_exists]
  exact exists_congr fun result => and_iff_left_of_imp parse_of_checked

theorem parseChecked_lines (h : HTTPPacket) :
    ∃ h' : HTTPPacket, h'.fHTTPType = h.fHTTPType ∧
      h.parseChecked = h'.parseLinesChecked (.ofString (some h.fPacketHeader) h.beyond) := by
  have hp := at_ofString h.fPacketHeader h.beyond
  obtain ⟨q, parsed', -, -, hline⟩ := hp.consumeUntil_inside fun _ hc => hc
  refine ⟨{ h with fRequestLine := some (h.fPacketHeader.takeWhile (!sEOLMask ·)) }, rfl, ?_⟩
  unfold parseChecked parseLinesChecked
  dsimp only
  rw [hline, Option.bind_some]
  exact congrArg _ (funext fun result => rfl)

theorem parseChecked_isSome_iff (m beyond : Bytes) :
    (ofHeader m beyond).parseChecked.isSome ↔ SafeLines m := by
  obtain ⟨h, htype, hlines⟩ := parseChecked_lines (ofHeader m beyond)
  rw [hlines]
  exact parseLinesChecked_isSome_iff h (at_ofString m beyond) htype

/-- `Parse` is safe exactly for the packets of `SafeLines`. -/
theorem parsesInside_iff (m : Bytes) : ParsesInside m ↔ SafeLines m := by
  rw [parsesInside_iff_isSome]
  exact (forall_congr' (parseChecked_isSome_iff m)).trans (forall_const _)

/-- A request to upgrade the connection. -/
def upgradeRequest : Bytes := ascii "GET / HTTP/1.1\r\nConnection: upgrade\r\n\r\n"

theorem accepted_root : Accepted (relativeURI (ascii "/")) := by
  have hcomputed : ((ofHeader [] []).parseURI (lineParser (ascii "/"))).map (·.1) =
      some CF_NoErr := by decide +kernel
  obtain ⟨⟨err, h', q⟩, hparse, rfl⟩ := Option.map_eq_some_iff.mp hcomputed
  have huri : requestURI (lineParser (ascii "/")) = ascii "/" := by decide
  rw [← huri]
  exact (parseURI_noErr_iff hparse).mp rfl

set_option maxRecDepth 4000 in
/-- The lines of `upgradeRequest` from the header line on. -/
theorem upgradeHeader_not_safeHeaders :
    ¬ SafeHeaders (ascii "Connection: upgrade" ++ ([13, 10] ++ [13, 10])) := by
  intro hs
  have hp := at_ofString (ascii "Connection: upgrade" ++ ([13, 10] ++ [13, 10])) []
  obtain ⟨q, parsed', -, hline⟩ := parseHeadersChecked_field (ofHeader [] []) hp
    (by decide) (by decide) (by decide) (.crlf _)
  have hname : getHeader (fieldName (ascii "Connection: upgrade")) =
      some .httpConnectionHeader := by decide
  have hvalue : (ofHeader [] []).setField .httpConnectionHeader
      (some (fieldValue (ascii "Connection: upgrade"))) = none := by
    rw [← Option.not_isSome_iff_eq_none, setField_isSome_iff]
    exact fun hknown => absurd (hknown rfl) (by decide)
  have hsome := (parseHeadersChecked_isSome_iff (ofHeader [] []) hp).mpr hs
  rw [hline, hname, Option.bind_some, hvalue] at hsome
  simp at hsome

theorem upgradeRequest_not_safeLines : ¬ SafeLines upgradeRequest := by
  have hmethod : getMethod (wordOf upgradeRequest) ≠ .httpIllegalMethod := by decide
  have huri : uriOf (afterWord upgradeRequest) = ascii "/" := by decide
  have hrest : lineRest (versionOf (afterWord upgradeRequest)) =
      [13, 10] ++ (ascii "Connection: upgrade" ++ ([13, 10] ++ [13, 10])) := by decide
  intro hs
  cases hs with
  | request _ hrequest =>
    have hend := (hrequest.2.2 (huri ▸ accepted_root)).2.2
    rw [hrest, safeEnd_iff (.crlf _)] at hend
    exact upgradeHeader_not_safeHeaders hend
  | response hno => exact hmethod hno
  | refused hno => exact hmethod hno
  | skipped hno => exact hmethod hno

set_option maxRecDepth 4000 in
theorem upgradeRequest_header : HTTPRequestStream.Header upgradeRequest := by
  have hsplit : upgradeRequest = ascii "GET / HTTP/1.1" ++
      ([13, 10] ++ (ascii "Connection: upgrade" ++ [13, 10, 13, 10])) := by decide
  rw [hsplit]
  exact .line (by decide) (.crlf _) (by decide)
    (.last (by decide) .crlfCrlf)

theorem getLine_not_safeLines : ¬ SafeLines (ascii "GET\n") := by
  have hmethod : getMethod (wordOf (ascii "GET\n")) ≠ .httpIllegalMethod := by decide
  intro hs
  cases hs with
  | request _ hrequest => exact hrequest.1 (by decide)
  | response hno => exact hmethod hno
  | refused hno => exact hmethod hno
  | skipped hno => exact hmethod hno

set_option maxRecDepth 4000 in
theorem messageEnd_getLine : HTTPRequestStream.messageEnd (ascii "GET\n") = some 4 := by
  have hsplit : ascii "GET\n" = ascii "GET" ++ ([10] ++ []) := by decide
  rw [hsplit, HTTPRequestStream.messageEnd_password (by decide) (by decide)
    (.lf _) (by decide) (by decide)]
  rfl

/-- `ReadRequest` delimits both messages. `Parse` asserts that the connection of the first one
is closed or kept alive, and looks for the URI of the second one behind the packet. -/
theorem delimited_not_parsesInside :
    (HTTPRequestStream.messageEnd upgradeRequest = some upgradeRequest.length ∧
      ¬ ParsesInside upgradeRequest) ∧
    HTTPRequestStream.messageEnd (ascii "GET\n") = some (ascii "GET\n").length ∧
      ¬ ParsesInside (ascii "GET\n") := by
  have hunsafe : ∀ m, ¬ SafeLines m → ¬ ParsesInside m := fun m hm hparses =>
    hm ((parseChecked_isSome_iff m []).mp ((parsesInside_iff_isSome m).mp hparses []))
  refine ⟨⟨?_, hunsafe _ upgradeRequest_not_safeLines⟩, ?_, hunsafe _ getLine_not_safeLines⟩
  · have hend := HTTPRequestStream.messageEnd_header (by decide +kernel) upgradeRequest_header
      (by decide +kernel) (HTTPRequestStream.left_nil upgradeRequest)
    simpa using hend
  · rw [messageEnd_getLine]
    decide +kernel

end CxxFramework.Net.HTTPPacket
