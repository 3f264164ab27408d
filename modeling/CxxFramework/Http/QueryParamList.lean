import CxxFramework.Http.DecodeArg
import CxxFramework.Core.CaseComparison
import Mathlib.Algebra.GroupWithZero.Nat

/-!
# Query parameters

`QueryParamList::BulidList` makes a list of the names and values of a query. It does not cut the
query at `&` first: a name goes on to the next `=`, over every `&` on the way. So a field without
an `=` becomes a part of the name of the next field that has one.

`PLDoubleLinkedList::AddNode` puts a pair in front of the list, and `DoFindCGIValueForParam` looks
for a name from the front. So it finds the last pair of the query with that name.

## Main definitions

* `QueryParamList.bulidList`, `QueryParamList.doFindCGIValueForParam` — the functions of the source.
* `QueryParamList.fields`, `QueryParamList.field` — a query field by field.
* `QueryParamList.merged` — the pairs that the parser makes of the fields.
-/

namespace CxxFramework.Net

open CxxFramework.Core CxxFramework.Core.StringParser

structure QueryParamListElement where
  /-- The memory of the decoded name. -/
  mName : Bytes
  mValue : Bytes
deriving DecidableEq, Repr

namespace QueryParamList

/-- `StrPtrLen::GetAsCString` -/
def getAsCString (s : StrPtrLen) : Bytes := s.getD [] ++ [0]

/-- `PLDoubleLinkedList::AddNode`, on the nodes from `fHead` on -/
def addNode {α : Type} (nodes : List α) (node : α) : List α := node :: nodes

/-- `PLDoubleLinkedList::ForEachUntil` -/
def forEachUntil {α : Type} (doFunc : α → Option Bool) : List α → Option (Option α)
  | [] => some none
  | node :: nodes =>
    (doFunc node).bind fun stopIteration =>
      if stopIteration then some (some node) else forEachUntil doFunc nodes

/-- `QueryParamList::AddNameValuePairToList` -/
def addNameValuePairToList (list : List QueryParamListElement) (name value : Bytes) :
    Option (List QueryParamListElement) :=
  (decodeArg name).bind fun mName =>
    (decodeArg value).map fun mValue => addNode list { mName, mValue }

/-- The value behind a `=`, which ends at a `&` or at its second quote. At the end of the query
`*stopCharPtr` is the byte behind it. -/
def consumeValue (queryParser : StringParser) : StrPtrLen × StringParser :=
  if queryParser.peekFast = 34 then
    let queryParser := (queryParser.consumeLength 1).2
    let (theCGIParamValue, queryParser) := queryParser.consumeUntil (· == 34)
    let queryParser := (queryParser.consumeLength 1).2
    (theCGIParamValue, (queryParser.consumeUntil (· == 38)).2)
  else queryParser.consumeUntil (· == 38)

/-- The loop of `BulidList`. None if it takes `n` rounds and more. -/
def bulidLoop : Nat → List QueryParamListElement → StringParser →
    Option (List QueryParamListElement)
  | 0, _, _ => none
  | n + 1, list, queryParser =>
    if queryParser.getDataRemaining > 0 then
      let (theCGIParamName, queryParser) := queryParser.consumeUntil (· == 61)
      if queryParser.getDataRemaining ≥ 1 then
        let queryParser := (queryParser.consumeLength 1).2
        let (theCGIParamValue, queryParser) := consumeValue queryParser
        (addNameValuePairToList list (getAsCString theCGIParamName)
          (getAsCString theCGIParamValue)).bind fun list =>
            bulidLoop n list (queryParser.consumeLength 1).2
      else bulidLoop n list queryParser
    else some list

/-- `QueryParamList::BulidList`, on a query with what stands behind it. -/
def bulidList (querySPL : StrPtrLen) (beyond : Bytes) : Option (List QueryParamListElement) :=
  bulidLoop ((querySPL.getD []).length + 1) [] (.ofString querySPL beyond)

def compareStrToName (node : QueryParamListElement) (userData : Bytes) : Option Bool :=
  equalIgnoreCase (cString node.mName) (cString userData)

/-- `QueryParamList::DoFindCGIValueForParam`. Without a result if a character is looked up behind
the table of `EqualIgnoreCase`. -/
def doFindCGIValueForParam (list : List QueryParamListElement) (name : Bytes) :
    Option (Option Bytes) :=
  (forEachUntil (compareStrToName · name) list).map (·.map (·.mValue))

/-! ## The fields of a query -/

def fields (query : Bytes) : List Bytes := query.splitOn 38

/-- The name and the value of a field with a `=`. -/
def field (f : Bytes) : Option (Bytes × Bytes) :=
  if 61 ∈ f then some (f.takeWhile (· != 61), (f.dropWhile (· != 61)).drop 1) else none

/-- What `DecodeArg` makes of a text. -/
def decodeText (text : Bytes) : Bytes := (decodeArg (text ++ [0])).getD []

/-- The pair of a name and a value, decoded. -/
def element (pair : Bytes × Bytes) : QueryParamListElement :=
  { mName := decodeText pair.1, mValue := decodeText pair.2 }

/-- The pairs of a query, taken from each field alone. -/
def entries (query : Bytes) : List QueryParamListElement :=
  ((fields query).filterMap field).map element

/-- The pairs that are made of fields when some text without a `=` stands before them. -/
def merged : Bytes → List Bytes → List (Bytes × Bytes)
  | _, [] => []
  | pending, f :: fs =>
    match field f with
    | some (name, value) => (pending ++ name, value) :: merged [] fs
    | none => merged (pending ++ f ++ [38]) fs

/-- No field with a `=` stands behind one that has none. -/
def EqualsFirst (fs : List Bytes) : Prop := fs.Pairwise fun f g => 61 ∈ g → 61 ∈ f

/-! ## Decoding a text -/

/-- The text of a C string has a zero behind it, which need not be the first one. -/
theorem exists_cString_zero (text : Bytes) : ∃ rest, text ++ [0] = cString text ++ 0 :: rest := by
  induction text with
  | nil => exact ⟨[], rfl⟩
  | cons c text ih =>
    obtain ⟨rest, hrest⟩ := ih
    by_cases hc : c = 0
    · exact ⟨text ++ [0], by simp [cString, hc]⟩
    · refine ⟨rest, ?_⟩
      have hcons : cString (c :: text) = c :: cString text := by simp [cString, hc]
      rw [hcons, List.cons_append, hrest, List.cons_append]

theorem decodeArg_text (text : Bytes) : decodeArg (text ++ [0]) = some (decodeText text) ∧
    (decodeText text).length = text.length + 1 := by
  obtain ⟨rest, hrest⟩ := exists_cString_zero text
  obtain ⟨arg, harg, hsize, -, -⟩ :=
    (decodesTo_feedAll (zero_notMem_cString text)).result rest
  rw [← hrest] at harg hsize
  have htext : decodeText text = arg := by rw [decodeText, harg, Option.getD_some]
  exact ⟨by rw [harg, htext], by rw [htext, hsize, List.length_append, List.length_singleton]⟩

theorem addNameValuePairToList_text (list : List QueryParamListElement) (name value : Bytes) :
    addNameValuePairToList list (getAsCString (some name)) (getAsCString (some value)) =
      some (element (name, value) :: list) := by
  have hname := (decodeArg_text name).1
  have hvalue := (decodeArg_text value).1
  simp only [addNameValuePairToList, getAsCString, Option.getD_some, hname, hvalue,
    Option.bind_some, Option.map_some, addNode, element]

/-! ## The rounds of the parser -/

variable {p : StringParser} {parsed rest name value pending : Bytes}
  {list : List QueryParamListElement} {n : Nat}

theorem consumeValue_at (h : At p parsed rest) (hquote : 34 ∉ rest) :
    ∃ q parsed', consumeValue p = (some (rest.takeWhile (· != 38)), q) ∧
      At q parsed' (rest.dropWhile (· != 38)) := by
  unfold consumeValue
  cases rest with
  | nil =>
    split_ifs
    · obtain ⟨p₁, h₁, hat₁⟩ := h.consumeLength 1
      obtain ⟨p₂, h₂, hat₂⟩ := hat₁.consumeUntil (· == 34)
      obtain ⟨p₃, h₃, hat₃⟩ := hat₂.consumeLength 1
      obtain ⟨p₄, h₄, hat₄⟩ := hat₃.consumeUntil (· == 38)
      refine ⟨p₄, _, ?_, hat₄⟩
      simp only [h₁, h₂, h₃, h₄]
      rfl
    · obtain ⟨q, hq, hat⟩ := h.consumeUntil (· == 38)
      exact ⟨q, _, hq, hat⟩
  | cons c rest =>
    have hc : c ≠ 34 := by
      rintro rfl
      exact hquote List.mem_cons_self
    rw [h.peekFast, if_neg hc]
    obtain ⟨q, hq, hat⟩ := h.consumeUntil (· == 38)
    exact ⟨q, _, hq, hat⟩

theorem bulidLoop_end (h : At p parsed []) : bulidLoop (n + 1) list p = some list := by
  have hrest : ¬ p.getDataRemaining > 0 := by simp [StringParser.getDataRemaining, h.rest_eq]
  rw [bulidLoop, if_neg hrest]

/-- What stands behind the last `=` is dropped. -/
theorem bulidLoop_noEquals (h : At p parsed rest) (hrest : 61 ∉ rest) (hn : rest.length < n) :
    bulidLoop n list p = some list := by
  obtain ⟨n, rfl⟩ := Nat.exists_eq_succ_of_ne_zero (Nat.ne_zero_of_lt hn)
  cases rest with
  | nil => exact bulidLoop_end h
  | cons c rest =>
    obtain ⟨n, rfl⟩ := Nat.exists_eq_succ_of_ne_zero (n := n) (by simp at hn; omega)
    obtain ⟨q, hq, hat⟩ := h.consumeUntil (· == 61)
    have hall : ∀ d ∈ c :: rest, (d != 61) = true := by
      intro d hd
      simpa using ne_of_mem_of_not_mem hd hrest
    have hdrop : (c :: rest).dropWhile (· != 61) = [] := List.dropWhile_eq_nil_iff.mpr hall
    have hend : At q _ [] := hdrop ▸ hat
    have hsome : p.getDataRemaining > 0 := by simp [StringParser.getDataRemaining, h.rest_eq]
    have hnone : ¬ q.getDataRemaining ≥ 1 := by simp [StringParser.getDataRemaining, hend.rest_eq]
    rw [bulidLoop, if_pos hsome, hq]
    simp only [if_neg hnone]
    exact bulidLoop_end hend

/-- A round for a name and its value. -/
theorem bulidLoop_entry {tail : Bytes} (n : Nat) (list : List QueryParamListElement)
    (h : At p parsed (name ++ 61 :: (value ++ tail)))
    (hname : 61 ∉ name) (hvalue : 38 ∉ value) (htail : ∀ c ∈ tail.head?, c = 38)
    (hquote : 34 ∉ value ++ tail) :
    ∃ q parsed', At q parsed' (tail.drop 1) ∧
      bulidLoop (n + 1) list p = bulidLoop n (element (name, value) :: list) q := by
  obtain ⟨p₁, h₁, hat₁⟩ := h.consumeText (· == 61)
    (fun d hd => by simpa using ne_of_mem_of_not_mem hd hname) rfl
  obtain ⟨p₂, h₂, hat₂⟩ := hat₁.consumeLength 1
  have hat₂ : At p₂ _ (value ++ tail) := hat₂
  obtain ⟨p₃, parsed₃, h₃, hat₃⟩ := consumeValue_at hat₂ hquote
  obtain ⟨p₄, h₄, hat₄⟩ := hat₃.consumeLength 1
  have hgo : ∀ d ∈ value, (d != 38) = true := fun d hd => by
    simpa using ne_of_mem_of_not_mem hd hvalue
  have htake : (value ++ tail).takeWhile (· != 38) = value := by
    rw [List.takeWhile_append_of_pos hgo]
    cases tail with
    | nil => simp
    | cons c tail => simp [htail c rfl]
  have hdrop : (value ++ tail).dropWhile (· != 38) = tail := by
    rw [List.dropWhile_append_of_pos hgo]
    cases tail with
    | nil => rfl
    | cons c tail => simp [htail c rfl]
  rw [htake] at h₃
  rw [hdrop] at h₄ hat₄
  refine ⟨p₄, _, hat₄, ?_⟩
  have hsome : p.getDataRemaining > 0 := by simp [StringParser.getDataRemaining, h.rest_eq]
  have hequals : p₁.getDataRemaining ≥ 1 := by simp [StringParser.getDataRemaining, hat₁.rest_eq]
  rw [bulidLoop, if_pos hsome, h₁]
  simp only [if_pos hequals, h₂, h₃, addNameValuePairToList_text, Option.bind_some, h₄]

/-! ## The list of a query -/

theorem field_of_notMem {f : Bytes} (hf : 61 ∉ f) : field f = none := if_neg hf

theorem field_append (hname : 61 ∉ name) : field (name ++ 61 :: value) = some (name, value) := by
  have hgo : ∀ d ∈ name, (d != 61) = true := fun d hd => by
    simpa using ne_of_mem_of_not_mem hd hname
  rw [field, if_pos (by simp), List.takeWhile_append_of_pos hgo, List.dropWhile_append_of_pos hgo]
  simp

/-- Behind the first field the query ends, or a `&` and the other fields follow. -/
theorem intercalate_cons (f : Bytes) (fs : List Bytes) :
    ∃ tail, [38].intercalate (f :: fs) = f ++ tail ∧ (∀ c ∈ tail.head?, c = 38) ∧
      tail.drop 1 = [38].intercalate fs ∧ (fs ≠ [] → tail = 38 :: [38].intercalate fs) := by
  cases fs with
  | nil => exact ⟨[], by simp, by simp, rfl, by simp⟩
  | cons g fs =>
    refine ⟨38 :: [38].intercalate (g :: fs), ?_, by simp, rfl, fun _ => rfl⟩
    rw [List.intercalate_cons_of_ne_nil (by simp), List.append_assoc, List.singleton_append]

/-- The induction is on the fields. `pending` is what stands before them since the last pair. -/
theorem bulidLoop_fields {fs : List Bytes} (hfs : ∀ f ∈ fs, 38 ∉ f) (hpending : 61 ∉ pending)
    (h : At p parsed (pending ++ [38].intercalate fs))
    (hquote : 34 ∉ pending ++ [38].intercalate fs)
    (hn : (pending ++ [38].intercalate fs).length < n) :
    bulidLoop n list p = some (((merged pending fs).map element).reverse ++ list) := by
  induction fs generalizing pending p parsed list n with
  | nil =>
    rw [List.intercalate_nil, List.append_nil] at h hn
    exact bulidLoop_noEquals h hpending hn
  | cons f fs ih =>
    have hnext : ∀ g ∈ fs, 38 ∉ g := fun g hg => hfs g (List.mem_cons_of_mem _ hg)
    have hamp : 38 ∉ f := hfs f List.mem_cons_self
    by_cases hf : 61 ∈ f
    · -- The name and the value of the field are the next pair.
      obtain ⟨tail, hsplit, htail, hdrop, -⟩ := intercalate_cons f fs
      obtain ⟨name, value, rfl, hname⟩ := List.eq_append_cons_of_mem hf
      have htext : pending ++ [38].intercalate ((name ++ 61 :: value) :: fs) =
          (pending ++ name) ++ 61 :: (value ++ tail) := by simp [hsplit]
      rw [htext] at h hquote hn
      have hvalue : 38 ∉ value := fun hmem => hamp (by simp [hmem])
      have hbehind : 34 ∉ value ++ tail := fun hmem =>
        hquote (List.mem_append_right _ (List.mem_cons_of_mem _ hmem))
      obtain ⟨n, rfl⟩ := Nat.exists_eq_succ_of_ne_zero (Nat.ne_zero_of_lt hn)
      obtain ⟨q, parsed', hat, hround⟩ := bulidLoop_entry n list h (by simp [hpending, hname])
        hvalue htail hbehind
      have hentry : merged pending ((name ++ 61 :: value) :: fs) =
          (pending ++ name, value) :: merged [] fs := by simp only [merged, field_append hname]
      rw [hround, hentry, List.map_cons, List.reverse_cons, List.append_assoc,
        List.singleton_append]
      refine ih hnext nofun (hdrop ▸ hat) ?_ ?_
      · intro hmem
        rw [List.nil_append, ← hdrop] at hmem
        exact hbehind (List.mem_append_right _ (List.mem_of_mem_drop hmem))
      · rw [List.nil_append, ← hdrop, List.length_drop]
        simp only [List.length_append, List.length_cons] at hn
        omega
    · -- The field stands before the name of the next pair, if there is one.
      have hentry : merged pending (f :: fs) = merged (pending ++ f ++ [38]) fs := by
        simp only [merged, field_of_notMem hf]
      rw [hentry]
      by_cases hnil : fs = []
      · subst hnil
        rw [List.intercalate_singleton] at h hn
        exact bulidLoop_noEquals h (by simp [hpending, hf]) hn
      · have htext : pending ++ [38].intercalate (f :: fs) =
            (pending ++ f ++ [38]) ++ [38].intercalate fs := by
          rw [List.intercalate_cons_of_ne_nil hnil]
          simp
        rw [htext] at h hquote hn
        exact ih hnext (by simp [hpending, hf]) h hquote hn

theorem bulidList_eq {query : Bytes} (hquote : 34 ∉ query) (beyond : Bytes) :
    bulidList (some query) beyond = some ((merged [] (fields query)).map element).reverse := by
  have hquery : [] ++ [38].intercalate (fields query) = query := List.intercalate_splitOn 38
  have hat : At (.ofString (some query) beyond) [] ([] ++ [38].intercalate (fields query)) :=
    hquery.symm ▸ at_ofString query beyond
  have hn : ([] ++ [38].intercalate (fields query)).length < query.length + 1 := by
    rw [hquery]
    exact Nat.lt_succ_self _
  have hamp : ∀ f ∈ fields query, 38 ∉ f := fun f hf => DotSegments.notMem_of_mem_splitOn hf
  rw [bulidList, Option.getD_some,
    bulidLoop_fields hamp List.not_mem_nil hat (by rwa [hquery]) hn, List.append_nil]

/-! ## When fields are merged -/

/-- The size of the names of some pairs, each with its zero. -/
def nameSize (pairs : List (Bytes × Bytes)) : Nat := (pairs.map (·.1.length + 1)).sum

theorem sum_mName (pairs : List (Bytes × Bytes)) :
    ((pairs.map element).map (·.mName.length)).sum = nameSize pairs := by
  rw [nameSize, List.map_map]
  congr 1
  apply List.map_congr_left
  intro pair _
  exact (decodeArg_text pair.1).2

theorem filterMap_cons_name {fs : List Bytes} (hname : 61 ∉ name) :
    ((name ++ 61 :: value) :: fs).filterMap field = (name, value) :: fs.filterMap field :=
  List.filterMap_cons_some (field_append hname)

theorem filterMap_eq_nil {fs : List Bytes} (hfs : ∀ f ∈ fs, 61 ∉ f) : fs.filterMap field = [] :=
  List.filterMap_eq_nil_iff.mpr fun f hf => field_of_notMem (hfs f hf)

theorem merged_of_noEquals {fs : List Bytes} (hfs : ∀ f ∈ fs, 61 ∉ f) (pending : Bytes) :
    merged pending fs = [] := by
  induction fs generalizing pending with
  | nil => rfl
  | cons f fs ih =>
    simp only [merged, field_of_notMem (hfs f List.mem_cons_self)]
    exact ih (fun g hg => hfs g (List.mem_cons_of_mem _ hg)) _

/-- If the fields with a `=` stand first, the parser takes the pairs from each field alone. -/
theorem merged_of_equalsFirst {fs : List Bytes} (hfs : EqualsFirst fs) :
    merged [] fs = fs.filterMap field := by
  induction fs with
  | nil => rfl
  | cons f fs ih =>
    obtain ⟨hfirst, hrest⟩ := List.pairwise_cons.mp hfs
    by_cases hf : 61 ∈ f
    · obtain ⟨name, value, rfl, hname⟩ := List.eq_append_cons_of_mem hf
      rw [filterMap_cons_name hname, ← ih hrest]
      simp only [merged, field_append hname, List.nil_append]
    · have hnone : ∀ g ∈ f :: fs, 61 ∉ g := by
        rintro g (_ | ⟨_, hg⟩)
        · exact hf
        · exact mt (hfirst g hg) hf
      rw [merged_of_noEquals hnone, filterMap_eq_nil hnone]

/-- Text that is pending when a pair comes is in a name. -/
theorem nameSize_merged (pending : Bytes) (fs : List Bytes) :
    nameSize (fs.filterMap field) ≤ nameSize (merged pending fs) ∧
      (pending ≠ [] → (∃ f ∈ fs, 61 ∈ f) →
        nameSize (fs.filterMap field) < nameSize (merged pending fs)) := by
  induction fs generalizing pending with
  | nil => exact ⟨Nat.le_refl _, by simp⟩
  | cons f fs ih =>
    by_cases hf : 61 ∈ f
    · obtain ⟨name, value, rfl, hname⟩ := List.eq_append_cons_of_mem hf
      have hle := (ih []).1
      have hentry : merged pending ((name ++ 61 :: value) :: fs) =
          (pending ++ name, value) :: merged [] fs := by simp only [merged, field_append hname]
      rw [filterMap_cons_name hname, hentry]
      simp only [nameSize, List.map_cons, List.sum_cons, List.length_append] at hle ⊢
      refine ⟨by omega, ?_⟩
      intro hpending _
      have hpos := List.length_pos_iff.mpr hpending
      omega
    · obtain ⟨hle, hlt⟩ := ih (pending ++ f ++ [38])
      have hentry : merged pending (f :: fs) = merged (pending ++ f ++ [38]) fs := by
        simp only [merged, field_of_notMem hf]
      rw [List.filterMap_cons_none (field_of_notMem hf), hentry]
      refine ⟨hle, ?_⟩
      rintro - ⟨g, hg, hequals⟩
      refine hlt (by simp) ⟨g, ?_, hequals⟩
      rcases List.mem_cons.mp hg with rfl | hg
      · exact absurd hequals hf
      · exact hg

theorem nameSize_lt {fs : List Bytes} (hfs : ¬ EqualsFirst fs) :
    nameSize (fs.filterMap field) < nameSize (merged [] fs) := by
  induction fs with
  | nil => exact absurd List.Pairwise.nil hfs
  | cons f fs ih =>
    by_cases hf : 61 ∈ f
    · have hrest : ¬ EqualsFirst fs := fun h => hfs (List.pairwise_cons.mpr ⟨fun _ _ _ => hf, h⟩)
      obtain ⟨name, value, rfl, hname⟩ := List.eq_append_cons_of_mem hf
      have hlt := ih hrest
      have hentry : merged [] ((name ++ 61 :: value) :: fs) = (name, value) :: merged [] fs := by
        simp only [merged, field_append hname, List.nil_append]
      rw [filterMap_cons_name hname, hentry]
      simpa [nameSize] using hlt
    · have hlater : ∃ g ∈ fs, 61 ∈ g := by
        by_contra hnone
        simp only [not_exists, not_and] at hnone
        refine hfs (List.pairwise_cons.mpr ⟨fun g hg h => absurd h (hnone g hg), ?_⟩)
        exact List.pairwise_of_forall_mem_list fun _ _ g hg h => absurd h (hnone g hg)
      have hentry : merged [] (f :: fs) = merged ([] ++ f ++ [38]) fs := by
        simp only [merged, field_of_notMem hf]
      rw [List.filterMap_cons_none (field_of_notMem hf), hentry]
      exact (nameSize_merged _ fs).2 (by simp) hlater

/-- The list has the pairs of the fields just if no field that has a `=` stands behind one that
has none. -/
theorem bulidList_perm_iff (query : Bytes) (hquote : 34 ∉ query) (beyond : Bytes) :
    ∃ list, bulidList (some query) beyond = some list ∧
      (list.Perm (entries query) ↔ EqualsFirst (fields query)) := by
  refine ⟨_, bulidList_eq hquote beyond, ?_, ?_⟩
  · intro hperm
    by_contra hfirst
    have hsize := (hperm.map (·.mName.length)).sum_nat
    rw [List.map_reverse, List.sum_reverse_nat, sum_mName, entries, sum_mName] at hsize
    exact absurd hsize (Nat.ne_of_gt (nameSize_lt hfirst))
  · intro hfirst
    rw [entries, merged_of_equalsFirst hfirst]
    exact List.reverse_perm _

theorem bulidList_perm_iff_oneField : ∃ list, bulidList (some (ascii "a=1&b")) [] = some list ∧
    (list.Perm (entries (ascii "a=1&b")) ↔ EqualsFirst (fields (ascii "a=1&b"))) :=
  bulidList_perm_iff _ (by decide) []

theorem ampersandInName_not_perm : (34 : UInt8) ∉ ascii "a&b=c" ∧
    ∃ list, bulidList (some (ascii "a&b=c")) [] = some list ∧
      ¬ list.Perm (entries (ascii "a&b=c")) := by
  refine ⟨by decide, [⟨ascii "a&b" ++ [0], ascii "c" ++ [0]⟩], by decide, by decide⟩

/-! ## Looking up a name -/

/-- A form-encoded string: letters and digits, `+` for a space, and escapes. -/
def formEncode (s : Bytes) : Bytes :=
  s.flatMap fun c =>
    if (48 ≤ c ∧ c ≤ 57) ∨ (65 ≤ c ∧ c ≤ 90) ∨ (97 ≤ c ∧ c ≤ 122) then [c]
    else if c = 32 then [43]
    else escape c

/-- The query of some names and values. -/
def formQuery (pairs : List (Bytes × Bytes)) : Bytes :=
  [38].intercalate (pairs.map fun pair => formEncode pair.1 ++ 61 :: formEncode pair.2)

/-- The value of the first pair with the name. -/
def firstValue (pairs : List (Bytes × Bytes)) (asked : Bytes) : Option Bytes :=
  (pairs.find? fun pair => SameFold pair.1 asked).map (·.2)

/-! ## Encoded strings -/

theorem formEncode_stands (s : Bytes) : ∀ c ∈ s, Stands
    (if (48 ≤ c ∧ c ≤ 57) ∨ (65 ≤ c ∧ c ≤ 90) ∨ (97 ≤ c ∧ c ≤ 122) then [c]
      else if c = 32 then [43] else escape c) c := by
  intro c _
  split_ifs with hplain hspace
  · refine .char ?_ ?_ ?_ <;>
    · rintro rfl
      exact absurd hplain (by decide)
  · exact hspace ▸ .plus
  · exact .escape c

/-- An encoded string is decoded to itself, in a memory that it starts. -/
theorem cString_decodeText_formEncode (s : Bytes) :
    cString (decodeText (formEncode s)) = cString s := by
  have hstands := formEncode_stands s
  have hdecodes := decodesTo_feedAll (noZero_flatMap hstands)
  rw [(writes 0 _).whole (not_endsInEscape_flatMap hstands), decoded_flatMap hstands] at hdecodes
  obtain ⟨arg, harg, -, htake, -⟩ := hdecodes.result []
  have htext : decodeText (formEncode s) = arg := by
    rw [decodeText, formEncode, harg, Option.getD_some]
  rw [htext, cString_of_take htake]

theorem upperHexDigit_ne {d : UInt8} (hd : d < 16) : StringTranslator.upperHexDigit d ≠ 34 ∧
    StringTranslator.upperHexDigit d ≠ 38 ∧ StringTranslator.upperHexDigit d ≠ 61 := by
  have hall : ∀ i : Fin 16, StringTranslator.upperHexDigit (UInt8.ofNat i) ≠ 34 ∧
      StringTranslator.upperHexDigit (UInt8.ofNat i) ≠ 38 ∧
      StringTranslator.upperHexDigit (UInt8.ofNat i) ≠ 61 := by decide
  have hlt : d.toNat < 16 := UInt8.lt_iff_toNat_lt.mp hd
  simpa using hall ⟨d.toNat, hlt⟩

/-- An encoded string has no quote and no separator. -/
theorem formEncode_ne {s : Bytes} {c : UInt8} (hc : c ∈ formEncode s) :
    c ≠ 34 ∧ c ≠ 38 ∧ c ≠ 61 := by
  obtain ⟨d, -, hd⟩ := List.mem_flatMap.mp hc
  split_ifs at hd with hplain hspace
  · obtain rfl := List.mem_singleton.mp hd
    refine ⟨?_, ?_, ?_⟩ <;>
    · rintro rfl
      exact absurd hplain (by decide)
  · obtain rfl := List.mem_singleton.mp hd
    decide
  · obtain ⟨hhigh, hlow, -⟩ := StringTranslator.digits_spec d
    simp only [escape, List.mem_cons, List.not_mem_nil, or_false] at hd
    rcases hd with rfl | rfl | rfl
    · decide
    · exact upperHexDigit_ne hhigh
    · exact upperHexDigit_ne hlow

variable {pairs : List (Bytes × Bytes)}

theorem formQuery_field (pair : Bytes × Bytes) :
    field (formEncode pair.1 ++ 61 :: formEncode pair.2) =
      some (formEncode pair.1, formEncode pair.2) :=
  field_append fun h => (formEncode_ne h).2.2 rfl

theorem fields_formQuery (hpairs : pairs ≠ []) : fields (formQuery pairs) =
    pairs.map fun pair => formEncode pair.1 ++ 61 :: formEncode pair.2 := by
  refine List.splitOn_intercalate 38 ?_ (by simpa using hpairs)
  intro f hf hamp
  obtain ⟨pair, -, rfl⟩ := List.mem_map.mp hf
  rcases List.mem_append.mp hamp with h | h
  · exact (formEncode_ne h).2.1 rfl
  · exact (formEncode_ne (List.mem_of_ne_of_mem (by decide) h)).2.1 rfl

theorem mem_intercalate {fs : List Bytes} {c : UInt8} (hc : c ∈ [38].intercalate fs) :
    c = 38 ∨ ∃ f ∈ fs, c ∈ f := by
  induction fs with
  | nil => exact absurd hc List.not_mem_nil
  | cons f fs ih =>
    obtain ⟨tail, hsplit, htail, hdrop, -⟩ := intercalate_cons f fs
    rw [hsplit] at hc
    rcases List.mem_append.mp hc with hf | ht
    · exact .inr ⟨f, List.mem_cons_self, hf⟩
    · cases tail with
      | nil => exact absurd ht List.not_mem_nil
      | cons d tail =>
        rcases List.mem_cons.mp ht with rfl | ht
        · exact .inl (htail c rfl)
        · rcases ih (hdrop ▸ ht) with h | ⟨g, hg, hcg⟩
          · exact .inl h
          · exact .inr ⟨g, List.mem_cons_of_mem _ hg, hcg⟩

theorem notMem_formQuery : 34 ∉ formQuery pairs := by
  intro hquote
  rcases mem_intercalate hquote with h | ⟨f, hf, h⟩
  · exact absurd h (by decide)
  · obtain ⟨pair, -, rfl⟩ := List.mem_map.mp hf
    rcases List.mem_append.mp h with h | h
    · exact (formEncode_ne h).1 rfl
    · exact (formEncode_ne (List.mem_of_ne_of_mem (by decide) h)).1 rfl

/-- The list of an encoded query has its pairs, the last one first. -/
theorem bulidList_formQuery (pairs : List (Bytes × Bytes)) (beyond : Bytes) :
    bulidList (some (formQuery pairs)) beyond =
      some (pairs.reverse.map fun pair => element (formEncode pair.1, formEncode pair.2)) := by
  rw [bulidList_eq notMem_formQuery]
  cases hpairs : pairs with
  | nil => rfl
  | cons pair rest =>
    have hfirst : EqualsFirst (fields (formQuery pairs)) := by
      rw [fields_formQuery (by simp [hpairs])]
      refine List.pairwise_of_forall_mem_list fun f hf _ _ _ => ?_
      obtain ⟨pair, -, rfl⟩ := List.mem_map.mp hf
      simp
    rw [← hpairs, merged_of_equalsFirst hfirst, fields_formQuery (by simp [hpairs]),
      List.filterMap_map]
    have hfields : pairs.filterMap (field ∘ fun pair =>
        formEncode pair.1 ++ 61 :: formEncode pair.2) =
          pairs.map fun pair => (formEncode pair.1, formEncode pair.2) := by
      rw [← List.filterMap_eq_map]
      exact List.filterMap_congr fun pair _ => formQuery_field pair
    rw [hfields, List.map_map, ← List.map_reverse]
    rfl

/-! ## Comparing names -/

theorem lowerCase_lt {c : UInt8} : lowerCase c < 128 ↔ c < 128 := by
  unfold lowerCase
  split_ifs with hupper
  · simp only [UInt8.le_iff_toNat_le, UInt8.lt_iff_toNat_lt, UInt8.toNat_add] at hupper ⊢
    have h32 : (32 : UInt8).toNat = 32 := rfl
    have h65 : (65 : UInt8).toNat = 65 := rfl
    have h90 : (90 : UInt8).toNat = 90 := rfl
    have h128 : (128 : UInt8).toNat = 128 := rfl
    omega
  · rfl

/-- The characters of ASCII are in the table. -/
theorem equalIgnoreCase_isSome {name asked : Bytes} (hname : ∀ c ∈ name, c < 128)
    (hasked : ∀ c ∈ asked, c < 128) : (equalIgnoreCase name asked).isSome := by
  have hin : ∀ c : UInt8, c < 128 → c < 130 := fun c hc => UInt8.lt_trans hc (by decide)
  have hdecides : Decides name asked := (decides_iff name asked).mpr fun hlength =>
    inTable_of_forall hlength (fun c hc => hin c (hname c hc)) fun c hc => hin c (hasked c hc)
  rw [hdecides]
  rfl

theorem ascii_of_sameFold {name asked : Bytes} (h : SameFold name asked)
    (hname : ∀ c ∈ name, c < 128) : ∀ c ∈ asked, c < 128 := by
  intro c hc
  have hmem : lowerCase c ∈ name.map lowerCase := h ▸ List.mem_map_of_mem hc
  obtain ⟨d, hd, hcd⟩ := List.mem_map.mp hmem
  rw [← lowerCase_lt, ← hcd, lowerCase_lt]
  exact hname d hd

/-! ## Searching the list -/

theorem forEachUntil_map {α β : Type} (doFunc : β → Option Bool) (f : α → β) (l : List α) :
    forEachUntil doFunc (l.map f) = (forEachUntil (doFunc ∘ f) l).map (·.map f) := by
  induction l with
  | nil => rfl
  | cons a l ih =>
    simp only [List.map_cons, forEachUntil, Function.comp_apply, Option.map_bind]
    congr 1
    funext stop
    cases stop <;> simp [ih]

theorem forEachUntil_congr {α : Type} {doFunc doFunc' : α → Option Bool} {l : List α}
    (h : ∀ a ∈ l, doFunc a = doFunc' a) : forEachUntil doFunc l = forEachUntil doFunc' l := by
  induction l with
  | nil => rfl
  | cons a l ih =>
    rw [forEachUntil, forEachUntil, h a List.mem_cons_self,
      ih fun b hb => h b (List.mem_cons_of_mem _ hb)]

theorem forEachUntil_eq {α : Type} {doFunc : α → Option Bool} {q : α → Bool} {l : List α}
    (h : ∀ a ∈ l, doFunc a = some (q a)) : forEachUntil doFunc l = some (l.find? q) := by
  induction l with
  | nil => rfl
  | cons a l ih =>
    rw [forEachUntil, h a List.mem_cons_self, Option.bind_some,
      ih fun b hb => h b (List.mem_cons_of_mem _ hb)]
    cases hq : q a <;> simp [hq]

theorem forEachUntil_eq_none {α : Type} {doFunc : α → Option Bool} {l : List α}
    (h : ∀ a ∈ l, doFunc a ≠ some true) (hnone : ∃ a ∈ l, doFunc a = none) :
    forEachUntil doFunc l = none := by
  induction l with
  | nil => simp at hnone
  | cons a l ih =>
    rw [forEachUntil]
    match hf : doFunc a with
    | none => rfl
    | some true => exact absurd hf (h a List.mem_cons_self)
    | some false =>
      refine ih (fun b hb => h b (List.mem_cons_of_mem _ hb)) ?_
      obtain ⟨b, hb, hbnone⟩ := hnone
      rcases List.mem_cons.mp hb with rfl | hb
      · simp [hf] at hbnone
      · exact ⟨b, hb, hbnone⟩

/-- The value of the last pair with the name is found, unless a name cannot be compared. -/
theorem forEachUntil_reverse (asked : Bytes) (hnames : ∀ pair ∈ pairs, ∀ c ∈ pair.1, c < 128) :
    (forEachUntil (fun pair => equalIgnoreCase pair.1 asked) pairs.reverse).map (·.map (·.2)) =
      if ∀ pair ∈ pairs, (equalIgnoreCase pair.1 asked).isSome then
        some (firstValue pairs.reverse asked) else none := by
  split_ifs with hall
  · have hfind : forEachUntil (fun pair => equalIgnoreCase pair.1 asked) pairs.reverse =
        some (pairs.reverse.find? fun pair => SameFold pair.1 asked) := by
      refine forEachUntil_eq fun pair hpair => ?_
      obtain ⟨same, hsame⟩ := Option.isSome_iff_exists.mp (hall pair (List.mem_reverse.mp hpair))
      rw [hsame, equalIgnoreCase_eq hsame]
    rw [hfind]
    rfl
  · simp only [not_forall, Option.not_isSome_iff_eq_none] at hall
    obtain ⟨pair, hpair, hnone⟩ := hall
    have hstop : ∀ other ∈ pairs.reverse, equalIgnoreCase other.1 asked ≠ some true := by
      intro other hother hsame
      have hmatch : SameFold other.1 asked := by simpa using equalIgnoreCase_eq hsame
      have hascii := ascii_of_sameFold hmatch (hnames other (List.mem_reverse.mp hother))
      have hsome := equalIgnoreCase_isSome (hnames pair hpair) hascii
      rw [hnone] at hsome
      exact absurd hsome (by decide)
    rw [forEachUntil_eq_none hstop ⟨pair, List.mem_reverse.mpr hpair, hnone⟩]
    rfl

/-- The value of the first pair with the name is returned just if the last one with it has the
same, and no character of the name is looked up behind the table. -/
theorem doFindCGIValueForParam_iff (pairs : List (Bytes × Bytes))
    (hnames : ∀ pair ∈ pairs, ∀ c ∈ pair.1, c ≠ 0 ∧ c < 128) (name beyond : Bytes) :
    ∃ list, bulidList (some (formQuery pairs)) beyond = some list ∧
      ((doFindCGIValueForParam list name).map (·.map cString) =
          some (firstValue pairs (cString name)) ↔
        (∀ pair ∈ pairs, (equalIgnoreCase pair.1 (cString name)).isSome) ∧
          firstValue pairs (cString name) =
            (firstValue pairs.reverse (cString name)).map cString) := by
  refine ⟨_, bulidList_formQuery pairs beyond, ?_⟩
  have hcompare : ∀ pair ∈ pairs.reverse,
      (compareStrToName · name) (element (formEncode pair.1, formEncode pair.2)) =
        equalIgnoreCase pair.1 (cString name) := by
    intro pair hpair
    have hzero : 0 ∉ pair.1 := fun h => (hnames pair (List.mem_reverse.mp hpair) 0 h).1 rfl
    simp only [compareStrToName, element, cString_decodeText_formEncode, cString_of_noZero hzero]
  have hlast := forEachUntil_reverse (cString name) fun pair hpair c hc =>
    (hnames pair hpair c hc).2
  have hfound : (doFindCGIValueForParam
      (pairs.reverse.map fun pair => element (formEncode pair.1, formEncode pair.2)) name).map
        (·.map cString) =
      ((forEachUntil (fun pair => equalIgnoreCase pair.1 (cString name)) pairs.reverse).map
        (·.map (·.2))).map (·.map cString) := by
    have hsame : forEachUntil ((compareStrToName · name) ∘ fun pair : Bytes × Bytes =>
        element (formEncode pair.1, formEncode pair.2)) pairs.reverse =
          forEachUntil (fun pair => equalIgnoreCase pair.1 (cString name)) pairs.reverse :=
      forEachUntil_congr hcompare
    rw [doFindCGIValueForParam, forEachUntil_map, hsame]
    simp only [Option.map_map, Function.comp_def, element, cString_decodeText_formEncode]
  rw [hfound, hlast]
  split_ifs with hall
  · rw [Option.map_some, Option.some.injEq, and_iff_right hall]
    exact eq_comm
  · exact ⟨nofun, fun h => absurd h.1 hall⟩

theorem doFindCGIValueForParam_iff_twoNames :
    ∃ list, bulidList (some (formQuery [(ascii "a", ascii "1"), (ascii "b", ascii "2")])) [] =
        some list ∧
      (doFindCGIValueForParam list (ascii "A")).map (·.map cString) =
        some (firstValue [(ascii "a", ascii "1"), (ascii "b", ascii "2")]
          (cString (ascii "A"))) := by
  obtain ⟨list, hlist, hiff⟩ := doFindCGIValueForParam_iff
    [(ascii "a", ascii "1"), (ascii "b", ascii "2")] (by decide) (ascii "A") []
  exact ⟨list, hlist, hiff.mpr (by decide)⟩

/-- In `a=1&a=2` the value of `a` is `2`. -/
theorem repeatedName_lastValue : ∃ list,
    bulidList (some (formQuery [(ascii "a", ascii "1"), (ascii "a", ascii "2")])) [] = some list ∧
      (doFindCGIValueForParam list (ascii "a")).map (·.map cString) ≠
        some (firstValue [(ascii "a", ascii "1"), (ascii "a", ascii "2")]
          (cString (ascii "a"))) :=
  ⟨[⟨ascii "a" ++ [0], ascii "2" ++ [0]⟩, ⟨ascii "a" ++ [0], ascii "1" ++ [0]⟩], by decide,
    by decide⟩

end QueryParamList

end CxxFramework.Net
