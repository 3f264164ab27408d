import CxxFramework.Http.RequestPath

/-!
# The request line

`parseRequestLine` goes through a request line in steps that consume white space and steps
that stop at it. Line ends are white space, so a step that finds nothing else on the line
goes on to the next one. Behind the URI it looks for a version; a request line that has one
is consumed up to its end, and no further.

## Main definitions

* `HTTPPacket.afterTarget` — the bytes behind the URI and its query.
* `HTTPPacket.Stays` — the line has a URI and a version.
-/

namespace CxxFramework.Net.HTTPPacket

open CxxFramework.Core StringParser HTTPProtocol

/-! ## The parts of a request line -/

def skipWhitespace (s : Bytes) : Bytes := s.dropWhile sEOLWhitespaceMask

def afterURI (s : Bytes) : Bytes := s.dropWhile fun c => !sURLStopConditions c

/-- What stands behind a query, if there is one. -/
def afterQuery : Bytes → Bytes
  | 63 :: s => s.dropWhile fun c => !sEOLWhitespaceMask c
  | s => s

/-- What stands behind the URI and its query, in the bytes behind a method. -/
def afterTarget (s : Bytes) : Bytes := afterQuery (afterURI (skipWhitespace s))

/-- The URI, in the bytes behind a method. -/
def uriOf (s : Bytes) : Bytes := (skipWhitespace s).takeWhile fun c => !sURLStopConditions c

/-- What is taken for the version, in the bytes behind a method. -/
def versionOf (s : Bytes) : Bytes := skipWhitespace (afterTarget s)

theorem length_dropWhile_le (stop : UInt8 → Bool) (s : Bytes) :
    (s.dropWhile stop).length ≤ s.length :=
  (List.dropWhile_suffix stop).length_le

theorem length_afterQuery_le (s : Bytes) : (afterQuery s).length ≤ s.length := by
  unfold afterQuery
  split
  · exact (length_dropWhile_le _ _).trans (Nat.le_succ _)
  · exact le_rfl

theorem length_afterQuery_lt {c : UInt8} (hc : c = 63) (s : Bytes) :
    (afterQuery (c :: s)).length < (c :: s).length := by
  subst hc
  exact (length_dropWhile_le _ _).trans_lt (Nat.lt_succ_self _)

theorem length_afterTarget_le (s : Bytes) :
    (afterTarget s).length ≤ (skipWhitespace s).length :=
  (length_afterQuery_le _).trans (length_dropWhile_le _ _)

/-- A URI ends at its query or at white space. -/
theorem white_of_stop {c : UInt8} (h : sURLStopConditions c = true) :
    c = 63 ∨ sEOLWhitespaceMask c = true := by
  simp only [sURLStopConditions, Bool.or_eq_true, beq_iff_eq] at h
  rcases h with (((rfl | rfl) | rfl) | rfl) | rfl
  · exact .inr rfl
  · exact .inr rfl
  · exact .inr rfl
  · exact .inr rfl
  · exact .inl rfl

/-- White space, a URI or a query stands in front of every text. -/
theorem length_afterTarget_lt (hs : s ≠ []) : (afterTarget s).length < s.length := by
  obtain ⟨c, s, rfl⟩ := List.exists_cons_of_ne_nil hs
  cases hwhite : sEOLWhitespaceMask c with
  | true =>
    have hle := (length_afterTarget_le (c :: s)).trans
      (List.dropWhile_cons_of_pos hwhite ▸ length_dropWhile_le sEOLWhitespaceMask s)
    exact hle.trans_lt (Nat.lt_succ_self _)
  | false =>
    have hskip : skipWhitespace (c :: s) = c :: s :=
      List.dropWhile_cons_of_neg (by simp [hwhite])
    unfold afterTarget
    rw [hskip]
    by_cases hc : c = 63
    · have huri : afterURI (c :: s) = c :: s := by
        subst hc
        rfl
      rw [huri]
      exact length_afterQuery_lt hc s
    · have hgo : (!sURLStopConditions c) = true := by
        rw [Bool.not_eq_true', ← Bool.not_eq_true]
        intro hstop
        rcases white_of_stop hstop with rfl | hspace
        · exact hc rfl
        · exact absurd (hwhite.symm.trans hspace) (by decide)
      have huri : afterURI (c :: s) = s.dropWhile fun c => !sURLStopConditions c :=
        List.dropWhile_cons_of_pos hgo
      rw [huri]
      exact ((length_afterQuery_le _).trans (length_dropWhile_le _ _)).trans_lt
        (Nat.lt_succ_self _)

/-! ## What the parser does -/

variable {p q : StringParser} {parsed rest s line e : Bytes}

theorem consumeWhitespace_at (h : At p parsed s) :
    ∃ parsed', At p.consumeWhitespace parsed' (skipWhitespace s) := by
  obtain ⟨q, hq, hat⟩ := h.consumeUntil sNonWhitespaceMask
  rw [StringParser.consumeWhitespace, hq]
  exact ⟨_, by simpa [skipWhitespace, sNonWhitespaceMask] using hat⟩

theorem requestURI_at (hp : At p parsed (skipWhitespace s)) : requestURI p = uriOf s := by
  obtain ⟨q, hq, -⟩ := hp.consumeUntil sURLStopConditions
  rw [requestURI, hq]
  rfl

theorem parseQueryString_at (h : HTTPPacket) (hp : At p parsed s) :
    ∃ parsed', At (h.parseQueryString p).2 parsed' (afterQuery s) := by
  unfold parseQueryString
  by_cases hquery : s.head? = some 63
  · obtain ⟨s, rfl⟩ : ∃ s', s = 63 :: s' := by
      cases s with
      | nil => cases hquery
      | cons c s => exact ⟨s, by simpa using hquery⟩
    have hmore : p.getDataRemaining > 0 ∧ p.peekFast = 63 := by
      refine ⟨?_, hp.peekFast⟩
      rw [getDataRemaining, hp.rest_eq]
      exact Nat.succ_pos _
    obtain ⟨q, hq, hat⟩ := hp.consumeLength 1
    obtain ⟨r, hr, hat'⟩ := hat.consumeUntil sEOLWhitespaceMask
    rw [if_pos hmore]
    simp only [hq, consumeUntilWhitespace, hr]
    exact ⟨_, hat'⟩
  · have hnone : ¬ (p.getDataRemaining > 0 ∧ p.peekFast = 63) := by
      rintro ⟨hpos, hpeek⟩
      cases s with
      | nil =>
        rw [getDataRemaining, hp.rest_eq] at hpos
        exact absurd hpos (lt_irrefl 0)
      | cons c s =>
        rw [hp.peekFast] at hpeek
        exact hquery (by rw [hpeek]; rfl)
    have hsame : afterQuery s = s := by
      unfold afterQuery
      split
      · exact absurd rfl hquery
      · rfl
    rw [if_neg hnone, hsame]
    exact ⟨parsed, hp⟩

theorem parseURI_at {h h' : HTTPPacket} {err : CF_Error} (hp : At p parsed s)
    (hparse : h.parseURI p = some (err, h', q)) :
    ∃ parsed', At q parsed' (afterQuery (afterURI s)) := by
  obtain ⟨uri, huri, hat⟩ := hp.consumeUntil sURLStopConditions
  obtain ⟨⟨err, h''⟩, -, heq⟩ := Option.map_eq_some_iff.mp hparse
  cases heq
  rw [huri]
  exact parseQueryString_at _ hat

/-- A request line whose URI is refused is left behind its URI. -/
theorem parseRequest_refused {h h' : HTTPPacket} {err : CF_Error} (hp : At p parsed s)
    (huri : ¬ Accepted (relativeURI (uriOf s)))
    (hparse : h.parseRequest p = some (err, h', q)) : q.rest = afterTarget s := by
  obtain ⟨parsed₁, hat₁⟩ := consumeWhitespace_at hp
  obtain ⟨⟨err, h₁, p₁⟩, hresult, hrest⟩ := Option.bind_eq_some_iff.mp hparse
  obtain ⟨parsed₂, hat₂⟩ := parseURI_at hat₁ hresult
  have herr : err ≠ CF_NoErr := by
    rwa [Ne, parseURI_noErr_iff hresult, requestURI_at hat₁]
  simp only [if_pos herr, Option.some.injEq, Prod.mk.injEq] at hrest
  rw [← hrest.2.2]
  exact hat₂.rest_eq

theorem parseRequest_isSome_of_refused (h : HTTPPacket) (hp : At p parsed s)
    (huri : ¬ Accepted (relativeURI (uriOf s))) (hroom : HasRoom (relativeURI (uriOf s))) :
    (h.parseRequest p).isSome := by
  obtain ⟨parsed₁, hat₁⟩ := consumeWhitespace_at hp
  have hsome := (parseURI_isSome_iff { h with fHTTPType := .httpRequestType } _).mpr
    (requestURI_at hat₁ ▸ hroom)
  obtain ⟨⟨err, h₁, p₁⟩, hresult⟩ := Option.isSome_iff_exists.mp hsome
  have herr : err ≠ CF_NoErr := by
    rwa [Ne, parseURI_noErr_iff hresult, requestURI_at hat₁]
  unfold parseRequest
  dsimp only
  rw [hresult, Option.bind_some, if_pos herr]
  rfl

/-- Behind a URI that is accepted, white space, the version and the line end are consumed. -/
theorem parseRequest_accepted (h : HTTPPacket) (hp : At p parsed s)
    (huri : Accepted (relativeURI (uriOf s))) :
    ∃ (h₁ : HTTPPacket) (r : StringParser) (parsed' : Bytes),
      At r parsed' (skipWhitespace (afterTarget s)) ∧
      h.parseRequest p = (h₁.parseVersion (r.consumeUntil sEOLMask).1).map
        (endRequestLine · (r.consumeUntil sEOLMask).2) := by
  obtain ⟨parsed₁, hat₁⟩ := consumeWhitespace_at hp
  have hsome := (parseURI_isSome_iff { h with fHTTPType := .httpRequestType } _).mpr
    (requestURI_at hat₁ ▸ huri.room)
  obtain ⟨⟨err, h₁, p₁⟩, hresult⟩ := Option.isSome_iff_exists.mp hsome
  obtain rfl : err = CF_NoErr := (parseURI_noErr_iff hresult).mpr (requestURI_at hat₁ ▸ huri)
  obtain ⟨parsed₂, hat₂⟩ := parseURI_at hat₁ hresult
  obtain ⟨parsed₃, hat₃⟩ := consumeWhitespace_at hat₂
  refine ⟨h₁, _, parsed₃, hat₃, ?_⟩
  unfold parseRequest
  dsimp only
  rw [hresult]
  rfl

/-- The end of a request line is behind a line end, or at the end of the packet. -/
theorem endRequestLine_rest (h : HTTPPacket) (hp : At p parsed s) :
    (h.endRequestLine (p.consumeUntil sEOLMask).2).2.2.rest = [] ∨
      (h.endRequestLine (p.consumeUntil sEOLMask).2).2.2.rest.length < s.length := by
  have hend : (h.endRequestLine (p.consumeUntil sEOLMask).2).2.2 =
      (p.consumeUntil sEOLMask).2.expectEOL.2 := by
    unfold endRequestLine
    dsimp only
    split_ifs <;> rfl
  obtain ⟨r, hr, hat⟩ := hp.consumeUntil sEOLMask
  rw [hend, hr]
  have hle := length_dropWhile_le (fun c => !sEOLMask c) s
  cases hrest : s.dropWhile fun c => !sEOLMask c with
  | nil =>
    rw [hrest] at hat
    rw [hat.expectEOL_text startsText_nil]
    exact .inl hat.rest_eq
  | cons c rest =>
    have hc : c = 13 ∨ c = 10 := by
      have hstop := List.head?_dropWhile_not (fun c => !sEOLMask c) s
      rw [hrest] at hstop
      simpa [sEOLMask, or_iff_not_imp_left] using hstop
    rw [hrest] at hat hle
    have hfound : r.expectEOL.1 = true := by
      unfold expectEOL
      rw [hat.notNull, hat.rest_eq]
      simp only [Bool.false_eq_true, if_false, if_pos hc]
      split_ifs <;> rfl
    have hlt := expectEOL_lt (Prod.ext hfound rfl : r.expectEOL = (true, r.expectEOL.2))
    rw [hat.rest_eq] at hlt
    exact .inr (hlt.trans_le hle)

/-! ## Over the end of the line -/

/-- A step that stops at line ends stays on its line. -/
theorem dropWhile_line {go : UInt8 → Bool} (hgo : ∀ c, sEOLMask c = true → go c = false)
    (he : IsEOL e rest) :
    (line ++ (e ++ rest)).dropWhile go = line.dropWhile go ++ (e ++ rest) := by
  have hstop : (e ++ rest).dropWhile go = e ++ rest := by
    cases he with
    | crlf | cr => exact List.dropWhile_cons_of_neg (by simp [hgo 13 (by decide)])
    | lf => exact List.dropWhile_cons_of_neg (by simp [hgo 10 (by decide)])
  rw [List.dropWhile_append]
  split_ifs with hempty
  · rw [hstop, List.isEmpty_iff.mp hempty, List.nil_append]
  · rfl

theorem takeWhile_line {go : UInt8 → Bool} (hgo : ∀ c, sEOLMask c = true → go c = false)
    (he : IsEOL e rest) : (line ++ (e ++ rest)).takeWhile go = line.takeWhile go := by
  have hstop : (e ++ rest).takeWhile go = [] := by
    cases he with
    | crlf | cr => exact List.takeWhile_cons_of_neg (by simp [hgo 13 (by decide)])
    | lf => exact List.takeWhile_cons_of_neg (by simp [hgo 10 (by decide)])
  rw [List.takeWhile_append]
  split_ifs with hall
  · rw [hstop, List.append_nil]
    exact ((List.takeWhile_prefix go).eq_of_length hall).symm
  · rfl

theorem afterURI_line (he : IsEOL e rest) :
    afterURI (line ++ (e ++ rest)) = afterURI line ++ (e ++ rest) := by
  refine dropWhile_line (fun c hc => ?_) he
  simp only [sEOLMask, Bool.or_eq_true, beq_iff_eq] at hc
  rcases hc with rfl | rfl <;> rfl

theorem afterQuery_line (he : IsEOL e rest) :
    afterQuery (line ++ (e ++ rest)) = afterQuery line ++ (e ++ rest) := by
  cases line with
  | nil => cases he <;> rfl
  | cons c line =>
    by_cases hc : c = 63
    · subst hc
      refine dropWhile_line (fun c hc => ?_) he
      simp only [sEOLMask, Bool.or_eq_true, beq_iff_eq] at hc
      rcases hc with rfl | rfl <;> rfl
    · unfold afterQuery
      simp [hc]

/-- White space goes on over the end of the line if there is nothing else on it. -/
theorem skipWhitespace_line (he : IsEOL e rest) :
    skipWhitespace (line ++ (e ++ rest)) =
      if skipWhitespace line = [] then skipWhitespace rest
      else skipWhitespace line ++ (e ++ rest) := by
  have hskip : skipWhitespace (e ++ rest) = skipWhitespace rest := by cases he <;> rfl
  unfold skipWhitespace at *
  rw [List.dropWhile_append, hskip]
  simp only [List.isEmpty_iff]

/-- What stands behind the URI of a line that has one. -/
theorem afterTarget_line (he : IsEOL e rest) (hne : skipWhitespace line ≠ []) :
    afterTarget (line ++ (e ++ rest)) = afterTarget line ++ (e ++ rest) := by
  unfold afterTarget
  rw [skipWhitespace_line he, if_neg hne, afterURI_line he, afterQuery_line he]

/-- The URI of a line that has one. -/
theorem uriOf_line (he : IsEOL e rest) (hne : skipWhitespace line ≠ []) :
    uriOf (line ++ (e ++ rest)) = uriOf line := by
  unfold uriOf
  rw [skipWhitespace_line he, if_neg hne]
  refine takeWhile_line (fun c hc => ?_) he
  simp only [sEOLMask, Bool.or_eq_true, beq_iff_eq] at hc
  rcases hc with rfl | rfl <;> rfl

theorem versionOf_noTarget (hnone : skipWhitespace s = []) : versionOf s = [] := by
  have hle := length_afterTarget_le s
  rw [hnone] at hle
  rw [versionOf, List.eq_nil_of_length_eq_zero (Nat.le_zero.mp hle)]
  rfl

/-- Without a version on its line, the search for one is behind the line end. -/
theorem length_skip_le (he : IsEOL e rest) (hnone : skipWhitespace (afterTarget line) = []) :
    (skipWhitespace (afterTarget (line ++ (e ++ rest)))).length ≤ rest.length := by
  by_cases hne : skipWhitespace line = []
  · have hskip : skipWhitespace (line ++ (e ++ rest)) = skipWhitespace rest := by
      rw [skipWhitespace_line he, if_pos hne]
    have hle := length_afterTarget_le (line ++ (e ++ rest))
    rw [hskip] at hle
    exact (length_dropWhile_le _ _).trans (hle.trans (length_dropWhile_le _ _))
  · rw [afterTarget_line he hne, skipWhitespace_line he, if_pos hnone]
    exact length_dropWhile_le _ _

theorem noEOL_dropWhile {go : UInt8 → Bool} (h : NoEOL line) : NoEOL (line.dropWhile go) :=
  fun c hc => h c ((List.dropWhile_suffix go).subset hc)

theorem noEOL_afterQuery (h : NoEOL line) : NoEOL (afterQuery line) := by
  unfold afterQuery
  split
  · exact noEOL_dropWhile (List.forall_mem_cons.mp h).2
  · exact h

/-! ## The request line -/

/-- In the text between the method and the line end there is a URI that is accepted, and
behind it a version that is looked up inside the table. A request line that is the last one
may have no version, or nothing at all. -/
def Stays (text rest : Bytes) : Prop :=
  if skipWhitespace text = [] then rest = []
  else Accepted (relativeURI (uriOf text)) ∧
    if versionOf text = [] then rest = [] else (getVersion (versionOf text)).isSome

/-- The bytes from `rest` on are left once `parseRequest` is done. -/
def LeavesRest (h : HTTPPacket) (p : StringParser) (rest : Bytes) : Prop :=
  ∃ result ∈ h.parseRequest p, result.2.2.rest = rest

variable {text : Bytes}

/-- Without a version on the line, the line end that is consumed is a later one. -/
theorem rest_eq_nil_of_accepted {h : HTTPPacket}
    (hp : At p parsed (text ++ (e ++ rest))) (he : IsEOL e rest) (hnone : versionOf text = [])
    (huri : Accepted (relativeURI (uriOf (text ++ (e ++ rest)))))
    (hleaves : LeavesRest h p rest) : rest = [] := by
  obtain ⟨h₁, r, parsed', hr, hparse⟩ := parseRequest_accepted h hp huri
  obtain ⟨result, hresult, hrest⟩ := hleaves
  rw [Option.mem_def, hparse] at hresult
  obtain ⟨h₂, -, rfl⟩ := Option.map_eq_some_iff.mp hresult
  have hle := length_skip_le he hnone
  rcases endRequestLine_rest h₂ hr with hnil | hlt
  · exact hrest.symm.trans hnil
  · rw [hrest] at hlt
    exact absurd hlt (by omega)

/-- Without a URI on the line, the next line is taken for it. -/
theorem leavesRest_noTarget (h : HTTPPacket) (hp : At p parsed (text ++ (e ++ rest)))
    (he : IsEOL e rest) (htarget : skipWhitespace text = []) :
    LeavesRest h p rest ↔ rest = [] := by
  have hskip : skipWhitespace (text ++ (e ++ rest)) = skipWhitespace rest := by
    rw [skipWhitespace_line he, if_pos htarget]
  have hafter : afterTarget (text ++ (e ++ rest)) = afterTarget rest :=
    congrArg (fun s => afterQuery (afterURI s)) hskip
  constructor
  · intro hleaves
    by_cases huri : Accepted (relativeURI (uriOf (text ++ (e ++ rest))))
    · exact rest_eq_nil_of_accepted hp he (versionOf_noTarget htarget) huri hleaves
    · obtain ⟨⟨err, h', q⟩, hparse, rfl⟩ := hleaves
      by_contra hne
      have hlt := length_afterTarget_lt hne
      rw [← hafter, ← parseRequest_refused hp huri hparse] at hlt
      exact lt_irrefl _ hlt
  · rintro rfl
    have huri : ¬ Accepted (relativeURI (uriOf (text ++ (e ++ [])))) := by
      unfold uriOf
      rw [hskip]
      exact not_accepted_nil
    obtain ⟨⟨err, h', q⟩, hparse⟩ := Option.isSome_iff_exists.mp
      (parseRequest_isSome_of_refused h hp huri (by
        unfold uriOf
        rw [hskip]
        exact nofun))
    exact ⟨_, hparse, (parseRequest_refused hp huri hparse).trans hafter⟩

/-- A line whose URI is refused is not consumed to its end. -/
theorem not_leavesRest_of_refused (h : HTTPPacket) (hp : At p parsed (text ++ (e ++ rest)))
    (he : IsEOL e rest) (htarget : skipWhitespace text ≠ [])
    (huri : ¬ Accepted (relativeURI (uriOf text))) : ¬ LeavesRest h p rest := by
  rintro ⟨⟨err, h', q⟩, hparse, hrest⟩
  rw [← uriOf_line he htarget] at huri
  have hafter := parseRequest_refused hp huri hparse
  rw [hrest, afterTarget_line he htarget] at hafter
  have hlen := congrArg List.length hafter
  simp only [List.length_append] at hlen
  have hpos : 0 < e.length := by cases he <;> simp
  omega

/-- The last line may have no version. -/
theorem leavesRest_noVersion (h : HTTPPacket) (hp : At p parsed (text ++ (e ++ rest)))
    (he : IsEOL e rest) (htarget : skipWhitespace text ≠ [])
    (huri : Accepted (relativeURI (uriOf text))) (hnone : versionOf text = []) :
    LeavesRest h p rest ↔ rest = [] := by
  rw [← uriOf_line he htarget] at huri
  refine ⟨rest_eq_nil_of_accepted hp he hnone huri, ?_⟩
  rintro rfl
  obtain ⟨h₁, r, parsed', hr, hparse⟩ := parseRequest_accepted h hp huri
  have hnil : skipWhitespace (afterTarget (text ++ (e ++ []))) = [] :=
    List.eq_nil_of_length_eq_zero (Nat.le_zero.mp (length_skip_le he hnone))
  rw [hnil] at hr
  obtain ⟨r₁, hr₁, -⟩ := hr.consumeUntil sEOLMask
  have hversion : h₁.parseVersion (r.consumeUntil sEOLMask).1 = some h₁ := by
    rw [hr₁]
    rfl
  refine ⟨_, by rw [Option.mem_def, hparse, hversion, Option.map_some], ?_⟩
  rcases endRequestLine_rest h₁ hr with hrest | hlt
  · exact hrest
  · exact absurd hlt (Nat.not_lt_zero _)

/-- A version is followed by the line end. -/
theorem leavesRest_version (h : HTTPPacket) (hp : At p parsed (text ++ (e ++ rest)))
    (htext : NoEOL text) (he : IsEOL e rest) (htarget : skipWhitespace text ≠ [])
    (huri : Accepted (relativeURI (uriOf text))) (hversion : versionOf text ≠ []) :
    LeavesRest h p rest ↔ (getVersion (versionOf text)).isSome := by
  rw [← uriOf_line he htarget] at huri
  obtain ⟨h₁, r, parsed', hr, hparse⟩ := parseRequest_accepted h hp huri
  rw [afterTarget_line he htarget, skipWhitespace_line he] at hr
  have hne : skipWhitespace (afterTarget text) ≠ [] := hversion
  rw [if_neg hne] at hr
  have hno : NoEOL (versionOf text) :=
    noEOL_dropWhile (noEOL_afterQuery (noEOL_dropWhile (noEOL_dropWhile htext)))
  obtain ⟨r₁, hr₁, hat⟩ := hr.consumeUntilEOL hno (.inl he.not_startsText)
  obtain ⟨r₂, hr₂, hat'⟩ := hat.expectEOL he
  have hend : ∀ h₂ : HTTPPacket, h₂.endRequestLine r₁ = (CF_NoErr, h₂, r₂) := by
    intro h₂
    unfold endRequestLine
    rw [hr₂]
    rfl
  have hsome : (h₁.parseVersion (some (versionOf text))).isSome ↔
      (getVersion (versionOf text)).isSome := by
    unfold parseVersion
    rw [Option.getD_some, if_neg hversion, Option.isSome_map]
  rw [← hsome]
  constructor
  · rintro ⟨result, hresult, -⟩
    rw [Option.mem_def, hparse, hr₁] at hresult
    obtain ⟨h₂, hh₂, -⟩ := Option.map_eq_some_iff.mp hresult
    exact Option.isSome_iff_exists.mpr ⟨h₂, hh₂⟩
  · intro hsome
    obtain ⟨h₂, hh₂⟩ := Option.isSome_iff_exists.mp hsome
    refine ⟨(CF_NoErr, h₂, r₂), ?_, hat'.rest_eq⟩
    rw [Option.mem_def, hparse, hr₁]
    dsimp only
    rw [show h₁.parseVersion (some (skipWhitespace (afterTarget text))) = some h₂ from hh₂,
      Option.map_some, hend]

theorem leavesRest_iff (h : HTTPPacket) (hp : At p parsed (text ++ (e ++ rest)))
    (htext : NoEOL text) (he : IsEOL e rest) : LeavesRest h p rest ↔ Stays text rest := by
  unfold Stays
  split_ifs with htarget hversion
  · exact leavesRest_noTarget h hp he htarget
  · by_cases huri : Accepted (relativeURI (uriOf text))
    · rw [leavesRest_noVersion h hp he htarget huri hversion, and_iff_right huri]
    · exact iff_of_false (not_leavesRest_of_refused h hp he htarget huri) fun h => huri h.1
  · by_cases huri : Accepted (relativeURI (uriOf text))
    · rw [leavesRest_version h hp htext he htarget huri hversion, and_iff_right huri]
    · exact iff_of_false (not_leavesRest_of_refused h hp he htarget huri) fun h => huri h.1

/-- Behind a method, `parseRequestLine` is `parseRequest`. -/
theorem parseRequestLine_method (h : HTTPPacket) (hp : At p parsed (line ++ (e ++ rest)))
    (he : IsEOL e rest) (hmethod : getMethod (line.takeWhile sWordMask) ≠ .httpIllegalMethod) :
    ∃ (h₁ : HTTPPacket) (p₁ : StringParser) (parsed' : Bytes),
      At p₁ parsed' (line.dropWhile sWordMask ++ (e ++ rest)) ∧
      h.parseRequestLine p = h₁.parseRequest p₁ := by
  have hword : ∀ c, sEOLMask c = true → sWordMask c = false := by
    intro c hc
    simp only [sEOLMask, Bool.or_eq_true, beq_iff_eq] at hc
    rcases hc with rfl | rfl <;> rfl
  obtain ⟨p₁, hp₁, hat₁⟩ := hp.consumeUntil sNonWordMask
  simp only [sNonWordMask, Bool.not_not, takeWhile_line hword he, dropWhile_line hword he]
    at hp₁ hat₁
  refine ⟨{ h with fMethod := getMethod (line.takeWhile sWordMask) }, p₁, _, hat₁, ?_⟩
  unfold parseRequestLine consumeWord
  simp only [hp₁, Option.getD_some, if_pos hmethod]

/-- A call of `parseRequestLine` that recognises a method consumes the first line with its
line end, and nothing else, exactly if the line has a URI that is accepted and a version. -/
theorem parseRequestLine_stays_iff (h : HTTPPacket) (hp : At p parsed (line ++ (e ++ rest)))
    (hline : NoEOL line) (he : IsEOL e rest)
    (hmethod : getMethod (line.takeWhile sWordMask) ≠ .httpIllegalMethod) :
    (∃ result ∈ h.parseRequestLine p, result.2.2.rest = rest) ↔
      Stays (line.dropWhile sWordMask) rest := by
  obtain ⟨h₁, p₁, parsed', hat, hparse⟩ := parseRequestLine_method h hp he hmethod
  rw [hparse]
  exact leavesRest_iff h₁ hat (noEOL_dropWhile hline) he

/-- What a packet has to parse at its start. -/
def lineParser (s : Bytes) : StringParser := .ofString (some s) []

theorem parseRequestLine_stays_iff_version :
    (∃ result ∈ (ofHeader [] []).parseRequestLine (lineParser (ascii "GET / HTTP/1.0\r\n\r\n")),
      result.2.2.rest = ascii "\r\n") ↔ Stays (ascii " / HTTP/1.0") (ascii "\r\n") := by
  have hp : At (lineParser (ascii "GET / HTTP/1.0\r\n\r\n")) []
      (ascii "GET / HTTP/1.0" ++ ([13, 10] ++ ascii "\r\n")) := at_ofString _ []
  exact parseRequestLine_stays_iff _ hp (by decide +kernel) (.crlf _) (by decide +kernel)

/-- Without a version, the first header line is taken for it. -/
theorem noVersion_not_stays :
    ¬ ∃ result ∈ (ofHeader [] []).parseRequestLine (lineParser (ascii "GET /\nHost: x\n\n")),
      result.2.2.rest = ascii "Host: x\n\n" := by
  have hrest : ((ofHeader [] []).parseRequestLine
      (lineParser (ascii "GET /\nHost: x\n\n"))).map (·.2.2.rest) = some (ascii "\n") := by
    decide +kernel
  rintro ⟨result, hresult, heq⟩
  rw [Option.mem_def.mp hresult, Option.map_some, heq] at hrest
  exact absurd hrest (by decide +kernel)

end CxxFramework.Net.HTTPPacket
