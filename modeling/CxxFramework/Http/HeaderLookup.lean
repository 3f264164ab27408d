import CxxFramework.Http.HTTPProtocol

/-!
# Looking up a header

`GetHeader` guesses a header from the first letter of a name, and goes through a part of the
table otherwise. What it finds is the header whose name is the same but for the case of its
letters.
-/

namespace CxxFramework.Net.HTTPProtocol

open CxxFramework.Core

variable {s t name : Bytes} {header : HTTPHeader} {headers : List HTTPHeader}

/-! ## Case -/

theorem equalIgnoreCaseLoop_masks (h : equalIgnoreCaseLoop s t = some true)
    (hlen : s.length = t.length) : s.map sCaseInsensitiveMask = t.map sCaseInsensitiveMask := by
  induction s generalizing t with
  | nil =>
    rw [List.eq_nil_of_length_eq_zero hlen.symm]
  | cons a s ih =>
    obtain ⟨b, t, rfl⟩ := List.exists_cons_of_length_eq_add_one hlen.symm
    obtain ⟨x, hx, h⟩ := Option.bind_eq_some_iff.mp h
    obtain ⟨y, hy, h⟩ := Option.bind_eq_some_iff.mp h
    split_ifs at h with hxy
    · cases h
    · rw [List.map_cons, List.map_cons, hx, hy, not_not.mp hxy,
        ih h (Nat.succ.inj hlen)]

/-- Texts that are the same but for their case have the same letters in the table. -/
theorem equalIgnoreCase_masks (h : equalIgnoreCase s t = some true) :
    s.map sCaseInsensitiveMask = t.map sCaseInsensitiveMask := by
  unfold equalIgnoreCase at h
  split_ifs at h with hlen
  · exact equalIgnoreCaseLoop_masks h hlen.symm
  · cases h

/-- A letter of a name, in either case. -/
theorem eq_or_of_mask {c d : UInt8} (h : sCaseInsensitiveMask c = some d) :
    c = d ∨ c = d - 32 := by
  unfold sCaseInsensitiveMask at h
  split_ifs at h with hc hupper
  · refine .inr ?_
    rw [← Option.some.inj h, UInt8.add_sub_cancel]
  · exact .inl (Option.some.inj h)

/-! ## The table -/

/-- The headers in front of `remainingHeaders` in the table. -/
def vipHeaders : List HTTPHeader :=
  [.httpConnectionHeader, .httpDateHeader, .httpAuthorizationHeader, .httpIfModifiedSinceHeader,
    .httpServerHeader, .httpWWWAuthenticateHeader, .httpExpiresHeader, .httpLastModifiedHeader]

theorem mem_headers (h : header ≠ .httpIllegalHeader) :
    header ∈ vipHeaders ∨ header ∈ remainingHeaders := by
  cases header <;> first | exact absurd rfl h | decide

theorem mem_table (h : header ≠ .httpIllegalHeader) : header ∈ vipHeaders ++ remainingHeaders :=
  List.mem_append.mpr (mem_headers h)

/-- The header of a name in lower case. -/
def headerOfMasks (masks : List (Option UInt8)) : HTTPHeader :=
  ((vipHeaders ++ remainingHeaders).find? fun header =>
    (getHeaderString header).map sCaseInsensitiveMask == masks).getD .httpIllegalHeader

theorem headerOfMasks_getHeaderString (h : header ≠ .httpIllegalHeader) :
    headerOfMasks ((getHeaderString header).map sCaseInsensitiveMask) = header := by
  have htable : ∀ header ∈ vipHeaders ++ remainingHeaders,
      headerOfMasks ((getHeaderString header).map sCaseInsensitiveMask) = header := by
    decide +kernel
  exact htable header (mem_table h)

/-- No two headers have names that are the same but for their case. -/
theorem header_of_equalIgnoreCase {header' : HTTPHeader} (h : header ≠ .httpIllegalHeader)
    (h' : header' ≠ .httpIllegalHeader)
    (hname : equalIgnoreCase name (getHeaderString header) = some true)
    (hname' : equalIgnoreCase name (getHeaderString header') = some true) : header = header' := by
  rw [← headerOfMasks_getHeaderString h, ← headerOfMasks_getHeaderString h',
    ← equalIgnoreCase_masks hname, ← equalIgnoreCase_masks hname']

/-! ## What is found -/

theorem findHeader_sound (h : header ≠ .httpIllegalHeader)
    (hfind : findHeader name headers = some header) :
    equalIgnoreCase name (getHeaderString header) = some true := by
  induction headers with
  | nil => exact absurd (Option.some.inj hfind).symm h
  | cons x headers ih =>
    obtain ⟨found, hfound, hfind⟩ := Option.bind_eq_some_iff.mp hfind
    split_ifs at hfind with hx
    · cases hfind
      rw [hfound, hx]
    · exact ih hfind

theorem findHeader_complete (hfind : findHeader name headers = some .httpIllegalHeader)
    (hmem : header ∈ headers) (hlegal : .httpIllegalHeader ∉ headers) :
    equalIgnoreCase name (getHeaderString header) ≠ some true := by
  induction headers with
  | nil => cases hmem
  | cons x headers ih =>
    obtain ⟨found, hfound, hfind⟩ := Option.bind_eq_some_iff.mp hfind
    split_ifs at hfind with hx
    · cases hfind
      exact absurd (List.mem_cons_self ..) hlegal
    · rcases List.mem_cons.mp hmem with rfl | hmem
      · rw [hfound]
        simpa using hx
      · exact ih hfind hmem fun h => hlegal (List.mem_cons_of_mem _ h)

/-- The first letter of a name in front of `remainingHeaders` is a guess at it. -/
theorem guessHeader_vip (hmem : header ∈ vipHeaders)
    (hname : equalIgnoreCase name (getHeaderString header) = some true) :
    ∃ c rest, name = c :: rest ∧ guessHeader c = header := by
  have hmasks := equalIgnoreCase_masks hname
  simp only [vipHeaders, List.mem_cons, List.not_mem_nil, or_false] at hmem
  cases name with
  | nil => rcases hmem with rfl | rfl | rfl | rfl | rfl | rfl | rfl | rfl <;> cases hmasks
  | cons c rest =>
    refine ⟨c, rest, rfl, ?_⟩
    obtain ⟨d, hd, hguess⟩ : ∃ d, sCaseInsensitiveMask c = some d ∧
        guessHeader d = header ∧ guessHeader (d - 32) = header := by
      rcases hmem with rfl | rfl | rfl | rfl | rfl | rfl | rfl | rfl <;>
        exact ⟨_, congrArg (fun masks => masks.head?.join) hmasks, by decide, by decide⟩
    rcases eq_or_of_mask hd with rfl | rfl
    · exact hguess.1
    · exact hguess.2

theorem findHeader_of_getHeader {c : UInt8} {rest : Bytes}
    (hget : getHeader (c :: rest) = some .httpIllegalHeader) :
    findHeader (c :: rest) remainingHeaders = some .httpIllegalHeader := by
  unfold getHeader at hget
  dsimp only at hget
  split_ifs at hget with hguess
  · exact hget
  · obtain ⟨found, -, hget⟩ := Option.bind_eq_some_iff.mp hget
    split_ifs at hget
    · exact absurd (Option.some.inj hget) hguess
    · exact hget

/-- `GetHeader` finds the header of a name, whatever the case of its letters, if it does not
leave the table of these. -/
theorem getHeader_eq_iff (h : header ≠ .httpIllegalHeader) (hsome : (getHeader name).isSome) :
    getHeader name = some header ↔
      equalIgnoreCase name (getHeaderString header) = some true := by
  have hsound : ∀ header' ≠ HTTPHeader.httpIllegalHeader, getHeader name = some header' →
      equalIgnoreCase name (getHeaderString header') = some true := by
    intro header' h' hget
    cases name with
    | nil => exact absurd (Option.some.inj hget).symm h'
    | cons c rest =>
      unfold getHeader at hget
      dsimp only at hget
      split_ifs at hget with hguess
      · exact findHeader_sound h' hget
      · obtain ⟨found, hfound, hget⟩ := Option.bind_eq_some_iff.mp hget
        split_ifs at hget with htrue
        · cases hget
          rw [hfound, htrue]
        · exact findHeader_sound h' hget
  refine ⟨hsound header h, fun hname => ?_⟩
  obtain ⟨header', hget⟩ := Option.isSome_iff_exists.mp hsome
  by_cases h' : header' = .httpIllegalHeader
  · subst h'
    exfalso
    rcases mem_headers h with hvip | hmem
    · obtain ⟨c, rest, rfl, hguess⟩ := guessHeader_vip hvip hname
      unfold getHeader at hget
      simp only [hguess, if_neg h, hname, Option.bind_some, if_true, Option.some.injEq] at hget
      exact h hget
    · cases name with
      | nil =>
        have hnil := List.map_eq_nil_iff.mp (equalIgnoreCase_masks hname).symm
        exact absurd hnil (getHeaderString_printable header).1
      | cons c rest =>
        exact findHeader_complete (findHeader_of_getHeader hget) hmem (by decide) hname
  · rw [hget, header_of_equalIgnoreCase h' h (hsound header' h' hget) hname]

end CxxFramework.Net.HTTPProtocol
