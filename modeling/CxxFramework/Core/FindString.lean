import CxxFramework.Core.CaseComparison
import CxxFramework.Library.Buffer

/-!
# Finding a string

`FindStringCase` looks for the first occurrence of a query in a slice. The slice has no
terminator, so it is copied and the copy is terminated; without regard to case, copies of both
strings in capitals are searched. The place of the hit in the copy gives the one in the slice.

## Main definitions

* `findStringCase` — the search, on the memory that starts at `Ptr`.
* `FirstOccurrence` — the least offset at which the query occurs inside the slice.
-/

namespace CxxFramework.Core

open Buffer Search

/-! ## The strings of the C library -/

/-- The string in a memory. `none` stands for an access behind the memory. -/
def stringAt (mem : Bytes) : Option Bytes := if 0 ∈ mem then some (cString mem) else none

/-- `strdup` -/
def strdup (mem : Bytes) : Option Bytes := (stringAt mem).map (· ++ [0])

/-- `toupper` in the C locale. -/
def upperCase (c : UInt8) : UInt8 := if 97 ≤ c ∧ c ≤ 122 then c - 32 else c

/-- `StrPtrLen::ToUpper` on a string, of whose length `Len` holds 32 bits. -/
def toUpper (mem : Bytes) : Bytes :=
  let len := (cString mem).length % uint32Size
  (mem.take len).map upperCase ++ mem.drop len

/-! ## The search -/

/-- The string that is searched: the memory itself if the slice ends with a zero, or else a
copy. The size of the copy is a `UInt32`. -/
def sourceString (ptr : Bytes) (len : Nat) : Option Bytes :=
  ptr[len - 1]?.bind fun lastSourceChar =>
    if lastSourceChar ≠ 0 then
      (write (List.replicate ((len + 1) % uint32Size) 0) 0 (ptr.take len)).bind (write · len [0])
    else some ptr

/-- The call of `strstr`, on copies in capitals if the case does not matter. -/
def findIn (caseSensitive : Bool) (sourceString queryString : Bytes) : Option (Option Nat) :=
  if caseSensitive then do
    let query ← stringAt queryString
    let source ← stringAt sourceString
    return find query source
  else do
    let dupSourceString ← strdup sourceString
    let dupQueryString ← strdup queryString
    let query ← stringAt (toUpper dupQueryString)
    let source ← stringAt (toUpper dupSourceString)
    return find query source

/-- `StrPtrLen::FindStringCase`: the offset of the pointer that is returned, and that and the
length of the result slice. `none` stands for a failed `Assert`, which only `asserts` builds
have, or an access outside a memory. -/
def findStringCase (asserts : Bool) (ptr : Option Bytes) (len : Nat)
    (queryCharStr : Option Bytes) (caseSensitive : Bool) :
    Option (Option Nat × Option (Nat × Nat)) :=
  match queryCharStr, ptr with
  | none, _ => if asserts then none else some (none, none)
  | some _, none => some (none, none)
  | some query, some ptr =>
    if len = 0 then some (none, none)
    else do
      let queryStr ← stringAt query
      let source ← sourceString ptr len
      let found ← findIn caseSensitive source query
      -- a hit behind the slice does not count
      let resultChar := (found.map (· % uint32Size)).filter (· ≤ len)
      return (resultChar, resultChar.map fun start => (start, queryStr.length % uint32Size))

/-! ## What is found -/

/-- What counts as the same. -/
def Same (caseSensitive : Bool) (s t : Bytes) : Prop :=
  if caseSensitive then s = t else SameFold s t

/-- The query occurs inside the source, at the offset. -/
def OccursAt (caseSensitive : Bool) (query source : Bytes) (start : Nat) : Prop :=
  start + query.length ≤ source.length ∧
    Same caseSensitive (slice source start query.length) query

/-- The least offset at which the query occurs, if there is one. -/
def FirstOccurrence (caseSensitive : Bool) (query source : Bytes) : Option Nat → Prop
  | none => ∀ start, ¬ OccursAt caseSensitive query source start
  | some start => OccursAt caseSensitive query source start ∧
      ∀ before < start, ¬ OccursAt caseSensitive query source before

/-- The query string is found in the slice: the pointer that is returned is the one to its
first occurrence, and the result slice is that occurrence. -/
def FindsFirst (asserts caseSensitive : Bool) (source beyond query behind : Bytes) : Prop :=
  ∃ result, findStringCase asserts (some (source ++ beyond)) source.length
      (some (query ++ 0 :: behind)) caseSensitive =
        some (result, result.map fun start => (start, query.length)) ∧
    FirstOccurrence caseSensitive query source result

/-! ## The strings that are searched -/

theorem stringAt_append_zero {s : Bytes} (hs : 0 ∉ s) (rest : Bytes) :
    stringAt (s ++ 0 :: rest) = some s := by
  rw [stringAt, if_pos (by simp), cString_append_zero, cString_of_noZero hs]

theorem strdup_append_zero {s : Bytes} (hs : 0 ∉ s) (rest : Bytes) :
    strdup (s ++ 0 :: rest) = some (s ++ [0]) := by
  rw [strdup, stringAt_append_zero hs, Option.map_some]

/-- A slice without zeros is copied into an array of the size that is computed for it. -/
theorem sourceString_eq {source : Bytes} (hsource : 0 ∉ source) (hne : source ≠ [])
    (beyond : Bytes) :
    sourceString (source ++ beyond) source.length =
      (write (List.replicate ((source.length + 1) % uint32Size) 0) 0 source).bind
        (write · source.length [0]) := by
  have hpos := List.length_pos_iff.mpr hne
  have hlast : (source ++ beyond)[source.length - 1]? = some (source.getLast hne) := by
    rw [List.getElem?_append_left (by omega), List.getLast_eq_getElem,
      List.getElem?_eq_getElem (by omega)]
  have hnonzero : source.getLast hne ≠ 0 := ne_of_mem_of_not_mem (List.getLast_mem hne) hsource
  rw [sourceString, hlast, Option.bind_some, if_pos hnonzero, List.take_left]

/-- The copy is the slice with a terminator. -/
theorem sourceString_copy {source : Bytes} (hsource : 0 ∉ source) (hne : source ≠ [])
    (hlen : source.length + 1 < uint32Size) (beyond : Bytes) :
    sourceString (source ++ beyond) source.length = some (source ++ [0]) := by
  have hcopy : write (List.replicate (source.length + 1) 0) 0 source = some (source ++ [0]) := by
    rw [write_of_le (by simp)]
    simp
  rw [sourceString_eq hsource hne, Nat.mod_eq_of_lt hlen, hcopy, Option.bind_some,
    write_append_cons]

/-- The size of the copy of the longest slice wraps to zero. -/
theorem sourceString_overrun {source : Bytes} (hsource : 0 ∉ source)
    (hlen : source.length + 1 = uint32Size) (beyond : Bytes) :
    sourceString (source ++ beyond) source.length = none := by
  have hpos : 0 < source.length := by
    unfold uint32Size at hlen
    omega
  have hcopy : write ([] : Bytes) 0 source = none :=
    if_neg (by simpa using List.length_pos_iff.mp hpos)
  rw [sourceString_eq hsource (List.length_pos_iff.mp hpos), hlen, Nat.mod_self,
    List.replicate_zero, hcopy, Option.bind_none]

theorem upperCase_eq_zero_iff (c : UInt8) : upperCase c = 0 ↔ c = 0 := by
  unfold upperCase
  grind

/-- The copy in capitals is a string of the same length. `Len` covers all of it if it is
shorter than 2³². -/
theorem toUpper_copy {s : Bytes} (hs : 0 ∉ s) :
    ∃ t, toUpper (s ++ [0]) = t ++ [0] ∧ 0 ∉ t ∧ t.length = s.length ∧
      (s.length < uint32Size → t = s.map upperCase) := by
  have hle : s.length % uint32Size ≤ s.length := Nat.mod_le ..
  refine ⟨(s.take (s.length % uint32Size)).map upperCase ++ s.drop (s.length % uint32Size),
    ?_, ?_, ?_, fun hlen => ?_⟩
  · simp only [toUpper, cString_append_zero, cString_of_noZero hs]
    rw [List.take_append_of_le_length hle, List.drop_append_of_le_length hle, List.append_assoc]
  · intro hmem
    rcases List.mem_append.mp hmem with hmem | hmem
    · obtain ⟨c, hc, hzero⟩ := List.mem_map.mp hmem
      rw [upperCase_eq_zero_iff] at hzero
      exact hs (hzero ▸ List.mem_of_mem_take hc)
    · exact hs (List.mem_of_mem_drop hmem)
  · simp only [List.length_append, List.length_map, List.length_take, List.length_drop]
    omega
  · rw [Nat.mod_eq_of_lt hlen, List.take_length, List.drop_length, List.append_nil]

/-! ## Occurrences are found -/

/-- What is compared byte by byte. -/
def folded (caseSensitive : Bool) (s : Bytes) : Bytes :=
  if caseSensitive then s else s.map upperCase

theorem upperCase_lowerCase (c : UInt8) : upperCase (lowerCase c) = upperCase c := by
  unfold upperCase lowerCase
  grind

theorem lowerCase_upperCase (c : UInt8) : lowerCase (upperCase c) = lowerCase c := by
  unfold upperCase lowerCase
  grind

/-- Strings are equal in small letters if they are in capitals. -/
theorem sameFold_iff_upperCase (s t : Bytes) :
    SameFold s t ↔ s.map upperCase = t.map upperCase := by
  have hupper : ∀ s : Bytes, (s.map lowerCase).map upperCase = s.map upperCase := fun s => by
    simp [upperCase_lowerCase]
  have hlower : ∀ s : Bytes, (s.map upperCase).map lowerCase = s.map lowerCase := fun s => by
    simp [lowerCase_upperCase]
  constructor
  · intro h
    rw [← hupper s, h, hupper]
  · intro h
    rw [SameFold, ← hlower s, h, hlower]

theorem same_iff_folded (caseSensitive : Bool) (s t : Bytes) :
    Same caseSensitive s t ↔ folded caseSensitive s = folded caseSensitive t := by
  cases caseSensitive with
  | true => rfl
  | false => exact sameFold_iff_upperCase s t

variable {caseSensitive : Bool} {query source : Bytes} {start : Nat}

@[simp] theorem length_folded (caseSensitive : Bool) (s : Bytes) :
    (folded caseSensitive s).length = s.length := by
  unfold folded
  split_ifs <;> simp

theorem folded_slice (caseSensitive : Bool) (s : Bytes) (start len : Nat) :
    folded caseSensitive (slice s start len) = slice (folded caseSensitive s) start len := by
  unfold folded slice
  split_ifs <;> simp

/-- An occurrence inside the source is one in the strings that are compared. -/
theorem occursAt_iff :
    OccursAt caseSensitive query source start ↔ start + query.length ≤ source.length ∧
      folded caseSensitive query <+: (folded caseSensitive source).drop start := by
  rw [OccursAt, same_iff_folded, folded_slice, List.prefix_iff_eq_take, length_folded, slice,
    eq_comm]

theorem firstOccurrence_find (caseSensitive : Bool) (query source : Bytes) :
    FirstOccurrence caseSensitive query source
      (find (folded caseSensitive query) (folded caseSensitive source)) := by
  cases hfind : find (folded caseSensitive query) (folded caseSensitive source) with
  | none => exact fun start hocc => find_none hfind start (occursAt_iff.mp hocc).2
  | some start =>
    have hinside : start + query.length ≤ source.length := by simpa using find_le hfind
    exact ⟨occursAt_iff.mpr ⟨hinside, find_isPrefix hfind⟩, fun before hbefore hocc =>
      find_first hfind before hbefore (occursAt_iff.mp hocc).2⟩

/-- A query that is longer than the source does not occur. -/
theorem firstOccurrence_of_lt (h : source.length < query.length) :
    FirstOccurrence caseSensitive query source none := by
  intro start hocc
  have := hocc.1
  omega

/-- Both calls of `strstr` find the first occurrence. -/
theorem findIn_first (caseSensitive : Bool) (hsource : 0 ∉ source) (hquery : 0 ∉ query)
    (hlen : source.length < uint32Size) (behind : Bytes) :
    ∃ result, findIn caseSensitive (source ++ [0]) (query ++ 0 :: behind) = some result ∧
      FirstOccurrence caseSensitive query source result := by
  cases caseSensitive with
  | true =>
    refine ⟨find query source, ?_, firstOccurrence_find true query source⟩
    simp [findIn, stringAt_append_zero hsource, stringAt_append_zero hquery]
  | false =>
    obtain ⟨dupSource, hdupSource, hsource', -, hsourceUpper⟩ := toUpper_copy hsource
    obtain ⟨dupQuery, hdupQuery, hquery', hqueryLength, hqueryUpper⟩ := toUpper_copy hquery
    refine ⟨find dupQuery dupSource, ?_, ?_⟩
    · simp [findIn, strdup_append_zero hsource, strdup_append_zero hquery, hdupSource, hdupQuery,
        stringAt_append_zero hsource', stringAt_append_zero hquery']
    · rw [hsourceUpper hlen]
      rcases Nat.lt_or_ge query.length uint32Size with hshort | hlong
      · rw [hqueryUpper hshort]
        exact firstOccurrence_find false query source
      · -- `Len` does not cover the query, but no slice is as long
        have hnone : find dupQuery (source.map upperCase) = none := by
          by_contra hfound
          obtain ⟨start, hfind⟩ := Option.ne_none_iff_exists'.mp hfound
          have hle := find_le hfind
          rw [List.length_map] at hle
          omega
        rw [hnone]
        exact firstOccurrence_of_lt (by omega)

/-- The hit in the copy is the one in the slice, and its length fits `Len`. -/
theorem findsFirst_of_ne_nil (asserts : Bool) (hsource : 0 ∉ source) (hquery : 0 ∉ query)
    (hne : source ≠ []) (hlen : source.length + 1 < uint32Size) (beyond behind : Bytes) :
    FindsFirst asserts caseSensitive source beyond query behind := by
  obtain ⟨result, hfound, hfirst⟩ :=
    findIn_first caseSensitive hsource hquery (Nat.lt_of_succ_lt hlen) behind
  refine ⟨result, ?_, hfirst⟩
  have hinside : ∀ start ∈ result, start + query.length ≤ source.length := by
    rintro start rfl
    exact hfirst.1.1
  have hoffset : (result.map (· % uint32Size)).filter (· ≤ source.length) = result := by
    cases result with
    | none => rfl
    | some start =>
      have hle := hinside start rfl
      rw [Option.map_some, Nat.mod_eq_of_lt (by omega), Option.filter_some, if_pos]
      exact decide_eq_true (by omega)
  have hslice : (result.map fun start => (start, query.length % uint32Size)) =
      result.map fun start => (start, query.length) := by
    cases result with
    | none => rfl
    | some start =>
      have hle := hinside start rfl
      rw [Option.map_some, Option.map_some, Nat.mod_eq_of_lt (by omega)]
  have hlength : source.length ≠ 0 := fun h => hne (List.eq_nil_of_length_eq_zero h)
  simp [findStringCase, hlength, stringAt_append_zero hquery, sourceString_copy hsource hne hlen,
    hfound, hoffset, hslice]

/-- In a slice that leaves room for a terminator, `FindStringCase` finds the first occurrence
of the query, with and without regard to case, whatever stands behind the slice and behind
the query string. -/
theorem findStringCase_firstOccurrence (asserts caseSensitive : Bool) {source query : Bytes}
    (beyond behind : Bytes) (hsource : 0 ∉ source) (hquery : 0 ∉ query)
    (hne : source ≠ [] ∨ query ≠ []) (hlen : source.length + 1 < uint32Size) :
    FindsFirst asserts caseSensitive source beyond query behind := by
  by_cases hempty : source = []
  · subst hempty
    have hlonger : ([] : Bytes).length < query.length :=
      List.length_pos_iff.mpr (hne.resolve_left (· rfl))
    exact ⟨none, rfl, firstOccurrence_of_lt hlonger⟩
  · exact findsFirst_of_ne_nil asserts hsource hquery hempty hlen beyond behind

/-- The occurrence that ends where the slice ends. -/
theorem findStringCase_bcd :
    FindsFirst false false (ascii "abcxABCD") (ascii "47") (ascii "bCd") [] :=
  findStringCase_firstOccurrence false false (ascii "47") [] (by decide) (by decide)
    (.inl (by decide)) (by decide)

example : findStringCase false (some (ascii "abcxABCD47")) 8 (some (ascii "bCd" ++ [0])) false =
    some (some 5, some (5, 3)) := by decide

/-- An empty slice is not searched, even for the empty query, which occurs in it. -/
theorem not_findsFirst_nil (asserts caseSensitive : Bool) (beyond behind : Bytes) :
    ¬ FindsFirst asserts caseSensitive [] beyond [] behind := by
  rintro ⟨result, hresult, hfirst⟩
  have hcall : findStringCase asserts (some ([] ++ beyond)) ([] : Bytes).length
      (some ([] ++ 0 :: behind)) caseSensitive = some (none, none) := rfl
  obtain ⟨rfl, -⟩ := Prod.mk.inj (Option.some.inj (hcall.symm.trans hresult))
  refine hfirst 0 ⟨le_rfl, ?_⟩
  rw [same_iff_folded]
  rfl

theorem not_findsFirst_of_overrun (asserts : Bool) (hsource : 0 ∉ source) (hquery : 0 ∉ query)
    (hlen : source.length + 1 = uint32Size) (beyond behind : Bytes) :
    ¬ FindsFirst asserts caseSensitive source beyond query behind := by
  rintro ⟨result, hresult, -⟩
  have hlength : source.length ≠ 0 := by
    unfold uint32Size at hlen
    omega
  simp [findStringCase, hlength, stringAt_append_zero hquery,
    sourceString_overrun hsource hlen] at hresult

/-- Neither is the empty query found in an empty slice, nor anything in the longest slice:
the size of its copy wraps to zero. -/
theorem findString_edges :
    ¬ FindsFirst false true [] [] [] [] ∧
      ¬ FindsFirst false true (List.replicate (2 ^ 32 - 1) 65) [] [65] [] := by
  refine ⟨not_findsFirst_nil false true [] [], ?_⟩
  have hsource : 0 ∉ List.replicate (2 ^ 32 - 1) (65 : UInt8) := fun h =>
    absurd (List.eq_of_mem_replicate h) (by decide)
  have hlen : (List.replicate (2 ^ 32 - 1) (65 : UInt8)).length + 1 = uint32Size := by
    rw [List.length_replicate, uint32Size, Nat.sub_add_cancel (by decide)]
  exact not_findsFirst_of_overrun false hsource (by decide) hlen [] []

end CxxFramework.Core
