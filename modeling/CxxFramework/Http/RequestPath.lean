import CxxFramework.Core.DecodeURL
import CxxFramework.Http.HTTPPacket

/-!
# The path of a request

`parseURI` decodes the relative URI of a request into an array of 512 bytes and copies the
path out of it. What it copies starts behind the `/` and ends one byte behind the path.
-/

namespace CxxFramework.Net

open CxxFramework.Core StringTranslator DotSegments

namespace HTTPPacket

/-- The URI in front of the parser. -/
def requestURI (parser : StringParser) : Bytes := (parser.consumeUntil sURLStopConditions).1.getD []

/-- A URI without the scheme and the host in front of its path. -/
def relativeURI (uri : Bytes) : Bytes :=
  if uri.head? = some 47 then uri
  else ((uri.dropWhile (· != 58)).drop 3).dropWhile (· != 47)

variable {h h' : HTTPPacket} {parser parser' : StringParser} {rel p path : Bytes} {err : CF_Error}

/-! ## The relative URI -/

theorem no_query_requestURI (parser : StringParser) : 63 ∉ requestURI parser := by
  unfold requestURI StringParser.consumeUntil
  split_ifs with hnull
  · exact List.not_mem_nil
  · intro hmem
    have hstop := List.mem_takeWhile_imp hmem
    exact absurd hstop (by decide)

theorem no_query_relativeURI (parser : StringParser) :
    63 ∉ relativeURI (requestURI parser) := by
  intro hmem
  refine no_query_requestURI parser ?_
  unfold relativeURI at hmem
  split_ifs at hmem
  · exact hmem
  · exact List.dropWhile_suffix _ |>.subset (List.drop_suffix _ _ |>.subset
      (List.dropWhile_suffix _ |>.subset hmem))

/-- The parser of the URI stands at the relative URI. -/
theorem parseHost_uri (h : HTTPPacket) {first : UInt8}
    (hfirst : ∀ c ∈ (h.fAbsoluteURI.getD []).head?, c = first) :
    (if (h.parseHost first).2.isNull then none
      else some (h.parseHost first).2.rest : StrPtrLen).getD [] =
      relativeURI (h.fAbsoluteURI.getD []) := by
  unfold parseHost
  cases huri : h.fAbsoluteURI with
  | none =>
    by_cases hslash : first = 47 <;>
      simp [hslash, StringParser.ofString, StringParser.consumeUntil, StringParser.consumeLength,
        relativeURI]
  | some uri =>
    simp only [huri, Option.getD_some] at hfirst ⊢
    have hat := StringParser.at_ofString uri []
    by_cases hslash : first = 47
    · have hhead : uri.head? = some 47 ∨ uri = [] := by
        cases uri with
        | nil => exact .inr rfl
        | cons c uri => exact .inl (congrArg some ((hfirst c rfl).trans hslash))
      have hrel : relativeURI uri = uri := by
        rcases hhead with hhead | rfl
        · exact if_pos hhead
        · rfl
      simp [hslash, hat.notNull, hat.rest_eq, hrel]
    · have hhead : uri.head? ≠ some 47 := fun h => hslash (hfirst 47 h).symm
      obtain ⟨q₁, hq₁, hat₁⟩ := hat.consumeUntil (· == 58)
      obtain ⟨q₂, hq₂, hat₂⟩ := hat₁.consumeLength 3
      obtain ⟨q₃, hq₃, hat₃⟩ := hat₂.consumeUntil (· == 47)
      simp only [if_neg hslash, hq₁, hq₂, hq₃, hat₃.notNull, hat₃.rest_eq, relativeURI,
        if_neg hhead, Bool.false_eq_true, if_false, Option.getD_some]
      rfl

/-- `parseURI` decodes the relative URI. -/
theorem parseURI_eq (h : HTTPPacket) (parser : StringParser) :
    ∃ h₀ : HTTPPacket, h₀.fRelativeURI.getD [] = relativeURI (requestURI parser) ∧
      ∃ parser', h.parseURI parser = h₀.parsePath.map fun (err, h) => (err, h, parser') := by
  refine ⟨_, ?_, _, rfl⟩
  have hfirst : ∀ c ∈ (requestURI parser).head?, c = parser.peekFast := by
    intro c hc
    unfold requestURI StringParser.consumeUntil at hc
    split_ifs at hc with hnull
    · cases hc
    · unfold StringParser.peekFast
      rw [if_neg hnull]
      simp only [Option.getD_some] at hc
      cases hrest : parser.rest with
      | nil => simp [hrest] at hc
      | cons a rest =>
        rw [hrest, List.takeWhile_cons] at hc
        split_ifs at hc
        · simpa using hc.symm
        · cases hc
  exact parseHost_uri { h with fAbsoluteURI := (parser.consumeUntil sURLStopConditions).1 } hfirst

/-! ## Room for the path -/

/-- The array has room for all that is written of the path while it is decoded, and for one
byte more than its end. -/
def HasRoom (rel : Bytes) : Prop :=
  rel.head? = some 47 → Fits kRelativeURIDecodedLen [] rel ∧
    ∀ p, unescape rel = some p → (stripDots 47 46 p).length < kRelativeURIDecodedLen

theorem length_stripDots_le (hp : unescape rel = some p) :
    (stripDots 47 46 p).length ≤ rel.length :=
  calc (stripDots 47 46 p).length
    _ ≤ (written 47 46 p).length := (stripDots_isPrefix p).length_le
    _ ≤ p.length := Walk.length_written_le 47 46 p
    _ ≤ rel.length := length_unescape_le hp

/-- The array is left neither by what is written nor by what is copied out of it. -/
theorem parsePath_isSome_iff (h : HTTPPacket) (hrel : 63 ∉ h.fRelativeURI.getD []) :
    h.parsePath.isSome ↔ HasRoom (h.fRelativeURI.getD []) := by
  unfold parsePath HasRoom
  generalize h.fRelativeURI.getD [] = rel at hrel
  have hsize : (List.replicate kRelativeURIDecodedLen (0 : UInt8)).length =
      kRelativeURIDecodedLen := List.length_replicate
  obtain ⟨hfits, hnot⟩ := decodeURL_total (List.replicate kRelativeURIDecodedLen 0) hrel
    (Nat.lt_succ_self rel.length)
  rw [hsize] at hfits hnot
  dsimp only
  by_cases hhead : rel.head? = some 47
  · by_cases hroom : Fits kRelativeURIDecodedLen [] rel
    · obtain ⟨r, dest, hdecode, hr⟩ := hfits hroom
      rw [hdecode, Option.bind_some]
      simp only [hhead, hroom, true_and, forall_const]
      by_cases hneg : r < 0
      · rw [if_pos (.inl hneg)]
        refine iff_of_true rfl fun p hp => ?_
        have hpos := hr hhead (by rw [hp]; rfl)
        omega
      · obtain ⟨p, d, high, hp, hd, -, -, rfl⟩ := decodeURL_path hrel hdecode (by omega)
        have hle := length_stripDots_le hp
        rw [if_neg (by omega), Int.toNat_natCast]
        split_ifs with hend
        · refine iff_of_false (by simp) fun h => ?_
          have hlt := h p hp
          omega
        · refine iff_of_true rfl fun q hq => ?_
          cases hp.symm.trans hq
          omega
    · rw [hnot hhead hroom]
      exact iff_of_false (by simp) fun h => hroom (h hhead).1
  · have hbad : decodeURL rel (List.replicate kRelativeURIDecodedLen 0) (rel.length + 1) =
        some (OS_BadURLFormat, List.replicate kRelativeURIDecodedLen 0) := if_neg hhead
    rw [hbad]
    exact iff_of_true rfl fun h => absurd h hhead

/-- `parseURI` stays inside its array exactly for the URIs whose path has room in it. -/
theorem parseURI_isSome_iff (h : HTTPPacket) (parser : StringParser) :
    (h.parseURI parser).isSome ↔ HasRoom (relativeURI (requestURI parser)) := by
  obtain ⟨h₀, hrel, parser', hparse⟩ := parseURI_eq h parser
  have hquery := no_query_relativeURI parser
  rw [← hrel] at hquery ⊢
  rw [hparse, Option.isSome_map]
  exact parsePath_isSome_iff h₀ hquery

/-- A path of 512 bytes fills the array, and the copy reads one byte behind it. -/
theorem longPath_leaves_array :
    ((ofHeader [] []).parseURI (.ofString (some (47 :: List.replicate 511 97)) [])).isSome =
      false := by
  obtain ⟨h₀, hrel, parser', hparse⟩ := parseURI_eq (ofHeader [] [])
    (.ofString (some (47 :: List.replicate 511 97)) [])
  have huri : relativeURI (requestURI (.ofString (some (47 :: List.replicate 511 97)) [])) =
      47 :: List.replicate 511 97 := by decide +kernel
  have hplain : unescape (47 :: List.replicate 511 97) = some (47 :: List.replicate 511 97) := by
    decide +kernel
  have hlen : (stripDots 47 46 ((47 : UInt8) :: List.replicate 511 97)).length = 512 := by
    decide +kernel
  have hquery : 63 ∉ h₀.fRelativeURI.getD [] := hrel ▸ no_query_relativeURI _
  have hroom : ¬ HasRoom (h₀.fRelativeURI.getD []) := by
    rw [hrel, huri]
    intro hroom
    have hlt := (hroom rfl).2 _ hplain
    rw [hlen] at hlt
    exact absurd hlt (by decide)
  rw [← parsePath_isSome_iff h₀ hquery, Option.not_isSome_iff_eq_none] at hroom
  rw [hparse, hroom]
  rfl

/-- `DecodeURL` accepts a relative URI, and its path has room in the array. -/
structure Accepted (rel : Bytes) : Prop where
  slash : rel.head? = some 47
  unescaped : (unescape rel).isSome
  room : HasRoom rel

theorem not_accepted_nil : ¬ Accepted [] := fun h => nomatch h.slash

theorem parsePath_noErr_iff {h₀ : HTTPPacket} (hrel : 63 ∉ h₀.fRelativeURI.getD [])
    (hpath : h₀.parsePath = some (err, h')) :
    err = CF_NoErr ↔ Accepted (h₀.fRelativeURI.getD []) := by
  have hroom := (parsePath_isSome_iff h₀ hrel).mp (by rw [hpath]; rfl)
  unfold parsePath at hpath
  generalize h₀.fRelativeURI.getD [] = rel at *
  obtain ⟨⟨n, dest⟩, hdecode, hpath⟩ := Option.bind_eq_some_iff.mp hpath
  have haccepted : 0 ≤ n ↔ Accepted rel := by
    constructor
    · intro hn
      obtain ⟨p, d, high, hp, -⟩ := decodeURL_path hrel hdecode hn
      exact ⟨decodeURL_head hdecode hn, by rw [hp]; rfl, hroom⟩
    · intro h
      have hfits := (hroom h.slash).1
      have htotal := decodeURL_total (List.replicate kRelativeURIDecodedLen 0) hrel
        (Nat.lt_succ_self rel.length)
      rw [List.length_replicate] at htotal
      obtain ⟨r, dest', hdecode', hr⟩ := htotal.1 hfits
      cases hdecode.symm.trans hdecode'
      exact hr h.slash h.unescaped
  dsimp only at hpath
  split_ifs at hpath with herror
  · cases hpath
    refine iff_of_false (by decide) fun h => ?_
    have hn := haccepted.mpr h
    obtain ⟨p, d, high, hp, -, -, -, rfl⟩ := decodeURL_path hrel hdecode hn
    have hle := length_stripDots_le hp
    omega
  · cases hpath
    exact iff_of_true rfl (haccepted.mp (by omega))

/-- `parseURI` has no error exactly for the URIs that `DecodeURL` accepts. -/
theorem parseURI_noErr_iff (hparse : h.parseURI parser = some (err, h', parser')) :
    err = CF_NoErr ↔ Accepted (relativeURI (requestURI parser)) := by
  obtain ⟨h₀, hrel, parser'', heq⟩ := parseURI_eq h parser
  have hquery := no_query_relativeURI parser
  rw [hparse] at heq
  obtain ⟨⟨err, h₁⟩, hpath, hresult⟩ := Option.map_eq_some_iff.mp heq.symm
  cases hresult
  rw [← hrel] at hquery ⊢
  exact parsePath_noErr_iff hquery hpath

/-! ## What is copied -/

/-- `fRequestPath` is the output of `DecodeURL` without its first byte. -/
def IsDecodedPath (rel : Bytes) (h : HTTPPacket) : Prop :=
  ∃ n dest path,
    decodeURL rel (List.replicate kRelativeURIDecodedLen 0) (rel.length + 1) = some (n, dest) ∧
      h.fRequestPath = some path ∧ cString (path ++ [0]) = (dest.take n.toNat).drop 1 ∧
      ((cString (path ++ [0])).length : Int) = n - 1

/-- The decoded path has no zero byte in it, and is as long as all that is written of it. -/
def Plain (rel : Bytes) : Prop :=
  ∀ p, unescape rel = some p → 0 ∉ p ∧
    ∀ q, q <+: p → (written 47 46 q).length ≤ (stripDots 47 46 p).length

theorem written_eq_strip (p : Bytes) :
    written 47 46 p = stripDots 47 46 p ++
      List.replicate ((written 47 46 p).length - (stripDots 47 46 p).length) 46 := by
  by_cases hdots : IsDots 46 (openSegment 47 p)
  · have hseg := eq_replicate_dotCount ((isDots_iff _).mp hdots).1
    have hstrip : stripDots 47 46 p = (readPath p).kept := by
      rw [← Walk.strip_read, Walk.seg_read, stripLast, if_pos hdots, List.append_nil]
    rw [hstrip, Walk.written_eq, hseg]
    simp
  · rw [stripDots_of_not_isDots hdots]
    simp

theorem stripDots_head (h : ∃ rest, p = 47 :: rest) : ∃ path, stripDots 47 46 p = 47 :: path := by
  obtain ⟨rest, rfl⟩ := h
  obtain ⟨k, hk⟩ := Walk.read_head 47 (46 : UInt8) rest
  rw [← Walk.strip_read, hk]
  exact ⟨_, rfl⟩

/-- The array once a path is decoded: the path, and the dots behind it. -/
theorem decodes_dest {ioDest : Bytes} {d : StringTranslator.Decoder} {high : Nat}
    (hd : Decodes ioDest d p high) :
    d.dest = stripDots 47 46 p ++ stale ioDest high (stripDots 47 46 p).length := by
  have hle := (stripDots_isPrefix p).length_le
  have hhigh := hd.le
  conv_lhs => rw [hd.dest, written_eq_strip p, List.append_assoc]
  rw [List.length_append, List.length_replicate, stale_back (by omega)]

/-- One byte more than the path is copied. -/
theorem slice_dest {ioDest : Bytes} {d : StringTranslator.Decoder} {high n : Nat}
    (hd : Decodes ioDest d p high) (hstrip : stripDots 47 46 p = 47 :: path)
    (hn : n = path.length + 1) (hlen : n < ioDest.length) :
    ∃ c : UInt8, Buffer.slice d.dest 1 n = path ++ [c] ∧
      (c = 46 ∧ n < high ∨ high ≤ n ∧ ioDest[n]? = some c) := by
  have hhigh : n ≤ high := by
    have hle := ((stripDots_isPrefix p).length_le).trans hd.le
    rwa [hstrip, List.length_cons, ← hn] at hle
  have hslice : Buffer.slice d.dest 1 n = path ++ (stale ioDest high n).take 1 := by
    rw [decodes_dest hd, hstrip, List.length_cons, ← hn, Buffer.slice, List.cons_append,
      List.drop_succ_cons, List.drop_zero, hn, List.take_length_add_append]
  rw [hslice]
  rcases Nat.eq_or_lt_of_le hhigh with rfl | hlt
  · refine ⟨ioDest[n], ?_, .inr ⟨le_rfl, List.getElem?_eq_getElem hlen⟩⟩
    rw [stale, Nat.sub_self, List.replicate_zero, List.nil_append, List.drop_eq_getElem_cons hlen]
    rfl
  · refine ⟨46, ?_, .inl ⟨rfl, hlt⟩⟩
    obtain ⟨m, rfl⟩ := Nat.exists_eq_add_of_lt hlt
    rw [stale, show n + m + 1 - n = m + 1 by omega]
    rfl

theorem cString_concat (path : Bytes) (c : UInt8) :
    cString (path ++ [c] ++ [0]) = path ↔ 0 ∉ path ∧ c = 0 := by
  constructor
  · intro h
    have hpath : 0 ∉ path := by
      rw [← h]
      exact zero_notMem_cString _
    refine ⟨hpath, ?_⟩
    by_contra hc
    have hzero : 0 ∉ path ++ [c] := by simp [hpath, Ne.symm hc]
    rw [cString_append_zero, cString_of_noZero hzero] at h
    simpa using congrArg List.length h
  · rintro ⟨hpath, rfl⟩
    rw [List.append_assoc, List.singleton_append, cString_append_zero, cString_of_noZero hpath]

/-- The path is the output of the decoder exactly if it is plain. -/
theorem requestPath_iff (hparse : h.parseURI parser = some (CF_NoErr, h', parser')) :
    IsDecodedPath (relativeURI (requestURI parser)) h' ↔
      Plain (relativeURI (requestURI parser)) := by
  obtain ⟨h₀, hrel, parser'', heq⟩ := parseURI_eq h parser
  have hquery := no_query_relativeURI parser
  rw [hparse] at heq
  obtain ⟨⟨err, h₁⟩, hpath, hresult⟩ := Option.map_eq_some_iff.mp heq.symm
  cases hresult
  generalize relativeURI (requestURI parser) = rel at *
  unfold parsePath at hpath
  rw [hrel] at hpath
  obtain ⟨⟨n, dest⟩, hdecode, hpath⟩ := Option.bind_eq_some_iff.mp hpath
  dsimp only at hdecode hpath
  split_ifs at hpath with herror hend
  · cases hpath
  · cases hpath
    have hnonneg : 0 ≤ n := by omega
    obtain ⟨p, d, high, hp, hd, hh, rfl, rfl⟩ := decodeURL_path hquery hdecode hnonneg
    obtain ⟨path, hstrip⟩ := stripDots_head (unescape_head (decodeURL_head hdecode hnonneg) hp)
    have hn : (stripDots 47 46 p).length = path.length + 1 := congrArg List.length hstrip
    rw [Int.toNat_natCast] at hend
    obtain ⟨c, hslice, hc⟩ := slice_dest hd hstrip hn
      (by rw [List.length_replicate]; unfold kRelativeURIDecodedLen at hend ⊢; omega)
    have hzero : 0 ∉ path ↔ 0 ∉ p := by
      rw [← Walk.mem_stripDots p (show (0 : UInt8) ≠ 47 by decide)
          (show (0 : UInt8) ≠ 46 by decide),
        hstrip]
      simp
    have hhigh : c = 0 ↔ ∀ q, q <+: p → (written 47 46 q).length ≤ (stripDots 47 46 p).length := by
      rcases hc with ⟨rfl, hlt⟩ | ⟨hle, hcell⟩
      · obtain ⟨q, hpre, hq⟩ := hh.reached
        exact iff_of_false (by decide) fun h => absurd (h q hpre) (by omega)
      · refine iff_of_true ?_ fun q hpre => (hh.le q hpre).trans hle
        exact (List.mem_replicate.mp (List.mem_of_getElem? hcell)).2
    have hout : (d.dest.take (stripDots 47 46 p).length).drop 1 = path := by
      rw [decodes_dest hd, List.take_left, hstrip, List.drop_succ_cons, List.drop_zero]
    have hcopy := cString_concat path c
    constructor
    · rintro ⟨n, dest, path', hdecode', hpath', hstring, -⟩ p' hp'
      cases hdecode.symm.trans hdecode'
      cases hpath'
      cases hp.symm.trans hp'
      rw [Int.toNat_natCast, hslice, hout, hcopy] at hstring
      exact ⟨hzero.mp hstring.1, hhigh.mp hstring.2⟩
    · intro hplain
      obtain ⟨hp0, hall⟩ := hplain p hp
      have hstring := hcopy.mpr ⟨hzero.mpr hp0, hhigh.mpr hall⟩
      refine ⟨_, _, _, hdecode, rfl, ?_, ?_⟩
      · rw [Int.toNat_natCast, hslice, hout, hstring]
      · rw [Int.toNat_natCast, hslice, hstring, hn]
        omega

theorem requestPath_iff_plain :
    ∃ h' parser', (ofHeader [] []).parseURI (.ofString (some (ascii "/./a x")) []) =
        some (CF_NoErr, h', parser') ∧
      (IsDecodedPath (relativeURI (requestURI (.ofString (some (ascii "/./a x")) []))) h' ↔
        Plain (relativeURI (requestURI (.ofString (some (ascii "/./a x")) [])))) := by
  have hparse : ((ofHeader [] []).parseURI (.ofString (some (ascii "/./a x")) [])).any
      (·.1 = CF_NoErr) := by decide +kernel
  obtain ⟨⟨err, h', parser'⟩, hparse, herr⟩ := (Option.any_eq_true _ _).mp hparse
  obtain rfl : err = CF_NoErr := by simpa using herr
  exact ⟨h', parser', hparse, requestPath_iff hparse⟩

/-- The path of `/..` is the dot that the decoder has left behind its output. -/
theorem dots_not_decodedPath :
    ∃ h' parser', (ofHeader [] []).parseURI (.ofString (some (ascii "/..")) []) =
        some (CF_NoErr, h', parser') ∧
      h'.fRequestPath = some (ascii ".") ∧ ¬ IsDecodedPath (ascii "/..") h' := by
  have hparse : ((ofHeader [] []).parseURI (.ofString (some (ascii "/..")) [])).any
      fun result => result.1 = CF_NoErr ∧ result.2.1.fRequestPath = some (ascii ".") := by
    decide +kernel
  obtain ⟨⟨err, h', parser'⟩, hparse, herr⟩ := (Option.any_eq_true _ _).mp hparse
  obtain ⟨rfl, hpath⟩ : err = CF_NoErr ∧ h'.fRequestPath = some (ascii ".") := by
    simpa using herr
  refine ⟨h', parser', hparse, hpath, ?_⟩
  have hdecode : decodeURL (ascii "/..") (List.replicate kRelativeURIDecodedLen 0) 4 =
      some (1, ascii "/.." ++ List.replicate 509 0) := by decide +kernel
  rintro ⟨n, dest, path, hdecode', hpath', hstring, -⟩
  cases hdecode.symm.trans hdecode'
  cases hpath.symm.trans hpath'
  exact absurd hstring (by decide +kernel)

end HTTPPacket

end CxxFramework.Net
