import CxxFramework.Http.HeaderLookup
import CxxFramework.Core.CaseComparison

/-!
# Linear search of the tables

`GetHeader` and `GetMethod` look at the entry of a table that they guess from the first
letter, and at a part of the other entries. A linear search goes through the whole table, in
the order of the source, where the index of an entry is the value of its enumerator.
-/

namespace CxxFramework.Net.HTTPProtocol

open CxxFramework.Core Search

variable {name : Bytes} {header : HTTPHeader} {method : HTTPMethod} {j : Nat}

/-- `sMethods`, as the source has it. -/
def methodTable : List Bytes :=
  [ascii "GET", ascii "HEAD", ascii "POST", ascii "OPTIONS", ascii "PUT", ascii "DELETE",
    ascii "TRACE", ascii "CONNECT"]

/-- `sHeaders`, as the source has it. -/
def headerTable : List Bytes :=
  [ascii "Connection", ascii "Date", ascii "Authorization", ascii "If-Modified-Since",
    ascii "Server", ascii "WWW-Authenticate", ascii "Expires", ascii "Last-Modified",
    ascii "Cache-Control", ascii "Pragma", ascii "Trailer", ascii "Transfer-Encoding",
    ascii "Upgrade", ascii "Via", ascii "Warning", ascii "Accept", ascii "Accept-Charset",
    ascii "Accept-Encoding", ascii "Accept-Language", ascii "Expect", ascii "From", ascii "Host",
    ascii "If-Match", ascii "If-None-Match", ascii "If-Range", ascii "If-Unmodified-Since",
    ascii "Max-Forwards", ascii "Proxy-Authorization", ascii "Range", ascii "Referer", ascii "TE",
    ascii "User-Agent", ascii "Accept-Ranges", ascii "Age", ascii "ETag", ascii "Location",
    ascii "Proxy-Authenticate", ascii "Retry-After", ascii "Vary", ascii "Allow",
    ascii "Content-Encoding", ascii "Content-Language", ascii "Content-Length",
    ascii "Content-Location", ascii "Content-MD5", ascii "Content-Range", ascii "Content-Type",
    ascii "X-SessionCookie", ascii "X-Server-IP-Address", ascii "Access-Control-Allow-Origin",
    ascii "Cookie", ascii " ,"]

/-- The index of the first entry that passes the test, or that of the illegal value. -/
def linearSearch (table : List Bytes) (same : Bytes → Bool) (illegal : Nat) : Nat :=
  (table.findIdx? same).getD illegal

/-- Where a linear search ends: at the only entry that passes the test, if there is one in
front of the illegal value. -/
theorem linearSearch_eq {table : List Bytes} {same : Bytes → Bool} {illegal i : Nat}
    (hlen : table.length ≤ illegal + 1) (hi : i ≤ illegal)
    (hfound : i ≠ illegal → ∃ entry, table[i]? = some entry ∧ same entry = true)
    (honly : ∀ j entry, j < illegal → table[j]? = some entry → same entry = true → j = i) :
    linearSearch table same illegal = i := by
  unfold linearSearch
  cases hsearch : table.findIdx? same with
  | none =>
    by_contra hne
    obtain ⟨entry, hentry, hsame⟩ := hfound (Ne.symm hne)
    have hnone := List.findIdx?_eq_none_iff.mp hsearch entry (List.mem_of_getElem? hentry)
    simp [hsame] at hnone
  | some k =>
    obtain ⟨hk, hsame, hfirst⟩ := List.findIdx?_eq_some_iff_getElem.mp hsearch
    rw [Option.getD_some]
    by_cases hlegal : k < illegal
    · exact honly k table[k] hlegal (List.getElem?_eq_getElem hk) hsame
    · -- the last entry is that of the illegal value
      by_contra hne
      obtain ⟨entry, hentry, hpass⟩ := hfound (by omega)
      obtain ⟨_, rfl⟩ := List.getElem?_eq_some_iff.mp hentry
      exact hfirst i (by omega) hpass

/-! ## Enumerators and entries -/

theorem methodTable_getElem? (method : HTTPMethod) :
    methodTable[method.ctorIdx]? = sMethods method := by
  cases method <;> rfl

theorem headerTable_getElem? (header : HTTPHeader) :
    headerTable[header.ctorIdx]? = some (getHeaderString header) := by
  cases header <;> rfl

theorem exists_method (hj : j < HTTPMethod.httpIllegalMethod.ctorIdx) :
    ∃ method ≠ HTTPMethod.httpIllegalMethod, method.ctorIdx = j :=
  match j, hj with
  | 0, _ => ⟨.httpGetMethod, nofun, rfl⟩
  | 1, _ => ⟨.httpHeadMethod, nofun, rfl⟩
  | 2, _ => ⟨.httpPostMethod, nofun, rfl⟩
  | 3, _ => ⟨.httpOptionsMethod, nofun, rfl⟩
  | 4, _ => ⟨.httpPutMethod, nofun, rfl⟩
  | 5, _ => ⟨.httpDeleteMethod, nofun, rfl⟩
  | 6, _ => ⟨.httpTraceMethod, nofun, rfl⟩
  | 7, _ => ⟨.httpConnectMethod, nofun, rfl⟩

/-- The enumerators in front of `httpIllegalHeader` are those of `vipHeaders` and
`remainingHeaders`, in this order. -/
theorem headers_ctorIdx :
    (vipHeaders ++ remainingHeaders).map HTTPHeader.ctorIdx =
      List.range HTTPHeader.httpIllegalHeader.ctorIdx := by
  decide

theorem exists_header (hj : j < HTTPHeader.httpIllegalHeader.ctorIdx) :
    ∃ header ≠ HTTPHeader.httpIllegalHeader, header.ctorIdx = j := by
  have hmem : j ∈ (vipHeaders ++ remainingHeaders).map HTTPHeader.ctorIdx := by
    rw [headers_ctorIdx]
    exact List.mem_range.mpr hj
  obtain ⟨header, -, rfl⟩ := List.mem_map.mp hmem
  exact ⟨header, fun h => absurd hj (by rw [h]; exact Nat.lt_irrefl _), rfl⟩

theorem getHeaderString_plain (header : HTTPHeader) : ∀ c ∈ getHeaderString header, c < 130 :=
  fun c hc => UInt8.lt_trans ((getHeaderString_printable header).2 c hc).2.1 (by decide)

/-! ## The lookups -/

/-- `GetMethod` finds the method with this text. -/
theorem getMethod_eq_iff (h : method ≠ .httpIllegalMethod) :
    getMethod name = method ↔ sMethods method = some name := by
  constructor
  · rintro rfl
    unfold getMethod at h ⊢
    cases name with
    | nil => exact absurd rfl h
    | cons c rest =>
      dsimp only at h ⊢
      split_ifs at h ⊢ with hguess hput
      · exact hguess.2
      · exact hput
      · exact absurd rfl h
  · intro htext
    cases method <;> first | exact absurd rfl h | cases htext
    all_goals rfl

theorem getMethod_eq_search (name : Bytes) :
    (getMethod name).ctorIdx =
      linearSearch methodTable (· = name) HTTPMethod.httpIllegalMethod.ctorIdx := by
  refine (linearSearch_eq (by decide) ?_ ?_ ?_).symm
  · cases getMethod name <;> decide
  · intro hne
    have hlegal : getMethod name ≠ .httpIllegalMethod := fun h => hne (congrArg _ h)
    have htext := (getMethod_eq_iff hlegal).mp rfl
    exact ⟨name, (methodTable_getElem? _).trans htext, by simp⟩
  · intro j entry hj hentry hsame
    obtain ⟨method, hlegal, rfl⟩ := exists_method hj
    rw [methodTable_getElem?, of_decide_eq_true hsame] at hentry
    rw [(getMethod_eq_iff hlegal).mpr hentry]

/-- The comparison with an entry stays in the table of the cases. -/
theorem equalIgnoreCase_entry (hname : ∀ c ∈ name, c < 130) (header : HTTPHeader) :
    equalIgnoreCase name (getHeaderString header) =
      some (decide (SameFold name (getHeaderString header))) := by
  exact (decides_iff name _).mpr fun hlength =>
    inTable_of_forall hlength hname (getHeaderString_plain header)

theorem findHeader_isSome (hname : ∀ c ∈ name, c < 130) (headers : List HTTPHeader) :
    (findHeader name headers).isSome := by
  induction headers with
  | nil => rfl
  | cons header headers ih =>
    rw [findHeader, equalIgnoreCase_entry hname, Option.bind_some]
    split_ifs
    · rfl
    · exact ih

theorem getHeader_isSome (hname : ∀ c ∈ name, c < 130) : (getHeader name).isSome := by
  cases name with
  | nil => rfl
  | cons c rest =>
    have hfind := findHeader_isSome hname remainingHeaders
    unfold getHeader
    dsimp only
    rw [equalIgnoreCase_entry hname, Option.bind_some]
    split_ifs
    · exact hfind
    · rfl
    · exact hfind

theorem getHeader_eq_search (hname : ∀ c ∈ name, c < 130) :
    (getHeader name).map HTTPHeader.ctorIdx =
      some (linearSearch headerTable (SameFold name ·) HTTPHeader.httpIllegalHeader.ctorIdx) := by
  have hsome := getHeader_isSome hname
  obtain ⟨found, hget⟩ := Option.isSome_iff_exists.mp hsome
  have hiff {header : HTTPHeader} (hlegal : header ≠ .httpIllegalHeader) :
      found = header ↔ SameFold name (getHeaderString header) := by
    have h := getHeader_eq_iff hlegal hsome
    rwa [hget, equalIgnoreCase_entry hname, Option.some.injEq, Option.some.injEq,
      decide_eq_true_iff] at h
  rw [hget, Option.map_some, Option.some.injEq]
  refine (linearSearch_eq (by decide) ?_ ?_ ?_).symm
  · cases found <;> decide
  · intro hne
    have hlegal : found ≠ .httpIllegalHeader := fun h => hne (congrArg _ h)
    exact ⟨_, headerTable_getElem? found, decide_eq_true ((hiff hlegal).mp rfl)⟩
  · intro j entry hj hentry hsame
    obtain ⟨header, hlegal, rfl⟩ := exists_header hj
    rw [headerTable_getElem?, Option.some.injEq] at hentry
    subst hentry
    rw [(hiff hlegal).mpr (of_decide_eq_true hsame)]

/-- The lookups give what a linear search of the whole table gives: for the methods the exact
text, for the headers the text whatever the case of its letters. -/
theorem lookup_eq_linearSearch (name : Bytes) (hname : ∀ c ∈ name, c < 128) :
    (getHeader name).map HTTPHeader.ctorIdx =
        some (linearSearch headerTable (SameFold name ·)
          HTTPHeader.httpIllegalHeader.ctorIdx) ∧
      (getMethod name).ctorIdx =
        linearSearch methodTable (· = name) HTTPMethod.httpIllegalMethod.ctorIdx :=
  ⟨getHeader_eq_search fun c hc => UInt8.lt_trans (hname c hc) (show 128 < 130 by decide),
    getMethod_eq_search name⟩

/-- A header behind the guess for its first letter, and no method. -/
theorem lookup_contentLength :
    (getHeader (ascii "content-LENGTH")).map HTTPHeader.ctorIdx = some 42 ∧
      (getMethod (ascii "content-LENGTH")).ctorIdx = 8 := by
  have h := lookup_eq_linearSearch (ascii "content-LENGTH") (by decide)
  exact ⟨h.1.trans (by decide), h.2.trans (by decide)⟩

end CxxFramework.Net.HTTPProtocol
