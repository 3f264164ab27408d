import CxxFramework.Core.DecodeURL

/-!
# What `EncodeURL` writes

`EncodeURL` escapes each special character by three bytes, which `DecodeURL` reads as that
character. The escape of a tab or of a line end has one digit only, and a zero byte stands
where the second one is expected: `DecodeURL` refuses it.
-/

namespace CxxFramework.Core.StringTranslator

open Buffer DotSegments

variable {s encoded decoded front back q dest : Bytes} {c : UInt8}
  {encodedLen decodedLen len inDestLen : Nat}

/-- What `EncodeURL` counts as written for a character. -/
def escapeChar (c : UInt8) : Bytes :=
  if 127 < c ∨ c ∈ illegalChars then (37 :: upperHex c ++ [0]).take 3 else [c]

/-- A character that `EncodeURL` escapes. -/
def Special (c : UInt8) : Prop := 127 < c ∨ c ∈ illegalChars

instance (c : UInt8) : Decidable (Special c) := inferInstanceAs (Decidable (_ ∨ _))

/-- A tab or a line end, which is escaped with one digit. -/
def IsShort (c : UInt8) : Prop := c = 9 ∨ c = 10 ∨ c = 13

instance (c : UInt8) : Decidable (IsShort c) := inferInstanceAs (Decidable (_ ∨ _ ∨ _))

/-! ## The escape of a character -/

theorem length_upperHex (c : UInt8) : 1 ≤ (upperHex c).length ∧ (upperHex c).length ≤ 2 := by
  unfold upperHex
  split_ifs <;> simp

theorem escapeChar_special (hc : Special c) :
    escapeChar c = (37 :: upperHex c ++ [0]).take 3 := if_pos hc

theorem escapeChar_plain (hc : ¬ Special c) : escapeChar c = [c] := if_neg hc

theorem length_escapeChar (c : UInt8) : (escapeChar c).length = if Special c then 3 else 1 := by
  have hhex := length_upperHex c
  by_cases hc : Special c
  · rw [if_pos hc, escapeChar_special hc]
    simp
    omega
  · rw [if_neg hc, escapeChar_plain hc, List.length_singleton]

theorem upperHexDigit_spec {d : UInt8} (hd : d < 16) :
    hexDigit (upperHexDigit d) = some d ∧ upperHexDigit d ≠ 63 := by
  have hall : ∀ i : Fin 16, hexDigit (upperHexDigit (UInt8.ofNat i)) = some (UInt8.ofNat i) ∧
      upperHexDigit (UInt8.ofNat i) ≠ 63 := by decide
  have hlt : d.toNat < 16 := UInt8.lt_iff_toNat_lt.mp hd
  simpa using hall ⟨d.toNat, hlt⟩

theorem digits_spec (c : UInt8) : c / 16 < 16 ∧ c % 16 < 16 ∧ c / 16 * 16 + c % 16 = c := by
  have hc := c.toNat_lt
  refine ⟨?_, ?_, ?_⟩
  · rw [UInt8.lt_iff_toNat_lt, UInt8.toNat_div]
    exact Nat.div_lt_of_lt_mul hc
  · rw [UInt8.lt_iff_toNat_lt, UInt8.toNat_mod]
    exact Nat.mod_lt _ (by decide)
  · apply UInt8.toNat_inj.mp
    have hsixteen : (16 : UInt8).toNat = 16 := rfl
    simp only [UInt8.toNat_add, UInt8.toNat_mul, UInt8.toNat_div, UInt8.toNat_mod, hsixteen]
    omega

/-- The special characters but for the tab and the line ends have two digits. -/
theorem two_digits (hspecial : 127 < c ∨ c ∈ illegalChars) (hc : ¬ IsShort c) : ¬ c < 16 := by
  intro hlt
  rcases hspecial with hhigh | hillegal
  · rw [UInt8.lt_iff_toNat_lt] at hhigh hlt
    exact absurd (hhigh.trans hlt) (by decide)
  · have hall : ∀ c ∈ illegalChars, c < 16 → IsShort c := by decide
    exact hc (hall c hillegal hlt)

theorem escapeChar_isChar (hzero : c ≠ 0) (hc : ¬ IsShort c) : IsChar (escapeChar c) c := by
  unfold escapeChar
  split_ifs with hspecial
  · obtain ⟨hhigh, hlow, heq⟩ := digits_spec c
    have hchar := IsChar.escape (upperHexDigit_spec hhigh).1 (upperHexDigit_spec hlow).1
    rw [heq] at hchar
    rw [upperHex, if_neg (two_digits hspecial hc)]
    exact hchar
  · refine .raw ?_ hzero
    rintro rfl
    exact hspecial (.inr (by decide))

theorem escapeChar_broken (hc : IsShort c) (rest : Bytes) : Broken (escapeChar c ++ rest) := by
  rcases hc with rfl | rfl | rfl
  · exact .badLow 57 rest (by decide)
  · exact .badLow 65 rest (by decide)
  · exact .badLow 68 rest (by decide)

theorem escapeChar_no_query (c : UInt8) : 63 ∉ escapeChar c := by
  have hdigit := fun d (hd : d < 16) => (upperHexDigit_spec hd).2
  obtain ⟨hhigh, hlow, -⟩ := digits_spec c
  unfold escapeChar
  split_ifs with hspecial
  · intro hmem
    have hmem := List.mem_of_mem_take hmem
    unfold upperHex at hmem
    split_ifs at hmem with hlt
    · simp [(hdigit c hlt).symm] at hmem
    · simp [(hdigit _ hhigh).symm, (hdigit _ hlow).symm] at hmem
  · intro hmem
    obtain rfl := List.mem_singleton.mp hmem
    exact hspecial (.inr (by decide))

/-! ## The whole text -/

theorem escaped_no_query (s : Bytes) : 63 ∉ s.flatMap escapeChar := by
  intro hmem
  obtain ⟨c, -, hc⟩ := List.mem_flatMap.mp hmem
  exact escapeChar_no_query c hc

theorem unescape_escaped (hzero : 0 ∉ s) :
    unescape (s.flatMap escapeChar) = if ∃ c ∈ s, IsShort c then none else some s := by
  induction s with
  | nil => rfl
  | cons c s ih =>
    simp only [List.mem_cons, not_or] at hzero
    rw [List.flatMap_cons]
    by_cases hc : IsShort c
    · rw [(escapeChar_broken hc _).unescape, if_pos ⟨c, List.mem_cons_self, hc⟩]
    · rw [unescape_char (escapeChar_isChar (Ne.symm hzero.1) hc), ih hzero.2]
      by_cases hs : ∃ c ∈ s, IsShort c <;> simp [hc, hs]

/-- What a character makes `EncodeURL` store, with the terminator of `s_sprintf`. -/
def stored (c : UInt8) : Bytes := if Special c then 37 :: upperHex c ++ [0] else [c]

theorem length_stored (c : UInt8) :
    (stored c).length = (escapeChar c).length + if Special c ∧ ¬ IsShort c then 1 else 0 := by
  rw [length_escapeChar, stored]
  by_cases hc : Special c
  · by_cases hshort : IsShort c
    · rcases hshort with rfl | rfl | rfl <;> rfl
    · simp [hc, hshort, upperHex, two_digits hc hshort]
  · simp [hc]

theorem escapeChar_isPrefix (c : UInt8) : escapeChar c <+: stored c := by
  unfold stored
  by_cases hc : Special c
  · rw [if_pos hc, escapeChar_special hc]
    exact List.take_prefix _ _
  · simp only [if_neg hc, escapeChar_plain hc, List.prefix_rfl]

/-- One round of the loop. -/
theorem encodeURLLoop_round (size : Nat) (c : UInt8) (s encoded : Bytes) (hlen : len ≤ size) :
    encodeURLLoop size (c :: s) encoded len =
      if len + (escapeChar c).length ≤ size then
        (write encoded len (stored c)).bind
          (encodeURLLoop size s · (len + (escapeChar c).length))
      else some (OS_NotEnoughSpace, encoded) := by
  rw [encodeURLLoop, length_escapeChar, stored]
  change (if len = size then _ else if Special c then _ else _) = _
  by_cases hc : Special c
  · rw [if_pos hc, if_pos hc, if_pos hc]
    split_ifs <;> first | rfl | omega
  · rw [if_neg hc, if_neg hc, if_neg hc]
    split_ifs <;> first | rfl | omega

/-- The loop writes the escapes of its source. -/
theorem encodeURLLoop_spec (hlen : len + 3 * s.length ≤ inDestLen)
    (hroom : inDestLen < encoded.length) :
    ∃ dest : Bytes, encodeURLLoop inDestLen s encoded len =
        some (((len + (s.flatMap escapeChar).length : Nat) : Int), dest) ∧
      dest.take (len + (s.flatMap escapeChar).length) =
        encoded.take len ++ s.flatMap escapeChar := by
  induction s generalizing encoded len with
  | nil => exact ⟨encoded, rfl, by simp⟩
  | cons c s ih =>
    rw [List.length_cons] at hlen
    have hcount := length_escapeChar c
    have hstored := length_stored c
    have hpre := escapeChar_isPrefix c
    have hescape : len + (escapeChar c).length ≤ inDestLen := by grind
    have hfits : len + (stored c).length ≤ encoded.length := by grind
    have hwrite := write_of_le hfits
    have hlength := length_write hwrite
    have hround := encodeURLLoop_round inDestLen c s encoded (show len ≤ inDestLen by omega)
    rw [if_pos hescape, hwrite, Option.bind_some] at hround
    have hroom' := hroom
    rw [← hlength] at hroom'
    have hleft : len + (escapeChar c).length + 3 * s.length ≤ inDestLen := by grind
    obtain ⟨dest, hrest, htake⟩ := ih hleft hroom'
    refine ⟨dest, ?_, ?_⟩
    · rw [hround, hrest, List.flatMap_cons, List.length_append, Nat.add_assoc]
    · rw [List.flatMap_cons, List.length_append, ← Nat.add_assoc, htake,
        take_write_add hwrite hpre.length_le, ← List.prefix_iff_eq_take.mp hpre, List.append_assoc]

theorem encodeURL_spec (hlen : 3 * s.length ≤ encodedLen) (hroom : encodedLen < encoded.length) :
    ∃ dest : Bytes,
      encodeURL s encoded encodedLen = some (((s.flatMap escapeChar).length : Int), dest) ∧
      dest.take (s.flatMap escapeChar).length = s.flatMap escapeChar := by
  have hstart : 0 + 3 * s.length ≤ encodedLen := by omega
  obtain ⟨dest, hloop, htake⟩ := encodeURLLoop_spec hstart hroom
  rw [Nat.zero_add] at hloop htake
  exact ⟨dest, hloop, htake⟩

/-! ## The round trip -/

theorem unescape_append (hfront : unescape front = some q) (back : Bytes) :
    unescape (front ++ back) = (unescape back).map (q ++ ·) := by
  induction hn : front.length using Nat.strongRecOn generalizing front q with
  | _ n ih =>
    rcases source_cases front with rfl | hbroken | ⟨e, c, rest, rfl, he⟩
    · cases hfront
      simp
    · rw [hbroken.unescape] at hfront
      cases hfront
    · rw [unescape_char he] at hfront
      obtain ⟨q, hq, rfl⟩ := Option.map_eq_some_iff.mp hfront
      have hpos := he.length_pos
      rw [List.length_append] at hn
      rw [List.append_assoc, unescape_char he, ih rest.length (by omega) hq rfl, Option.map_map]
      rfl

/-- What is decoded of a part of a source is a part of what is decoded of all. -/
theorem length_unescape_lt (hs : unescape (front ++ back) = some s)
    (hfront : unescape front = some q) :
    q.length ≤ s.length ∧ (back ≠ [] → q.length < s.length) := by
  rw [unescape_append hfront] at hs
  obtain ⟨rest, hrest, rfl⟩ := Option.map_eq_some_iff.mp hs
  rw [List.length_append]
  refine ⟨Nat.le_add_right _ _, fun hne => ?_⟩
  rcases source_cases back with rfl | hbroken | ⟨e, c, rest, rfl, he⟩
  · exact absurd rfl hne
  · rw [hbroken.unescape] at hrest
    cases hrest
  · rw [unescape_char he] at hrest
    obtain ⟨rest, -, rfl⟩ := Option.map_eq_some_iff.mp hrest
    simp

/-- What `EncodeURL` makes of `s` is decoded to `s` again. -/
def RoundTrips (s encoded : Bytes) (encodedLen : Nat) (decoded : Bytes) (decodedLen : Nat) : Prop :=
  ∃ n dest, encodeURL s encoded encodedLen = some (n, dest) ∧ 0 ≤ n ∧
    ∃ m dest', decodeURL (dest.take n.toNat) decoded decodedLen = some (m, dest') ∧ 0 ≤ m ∧
      dest'.take m.toNat = s

/-- The decoder takes the escapes of a text without dot segments back to the text. -/
theorem decodeURL_escaped (hzero : 0 ∉ s) (hstart : s.head? = some 47) (hdots : NoDots 47 46 s)
    (hshort : ¬ ∃ c ∈ s, IsShort c) (hlen : s.length ≤ decodedLen)
    (hroom : decodedLen ≤ decoded.length) :
    ∃ m dest, decodeURL (s.flatMap escapeChar) decoded decodedLen = some (m, dest) ∧ 0 ≤ m ∧
      dest.take m.toNat = s := by
  have hsource := unescape_escaped hzero
  rw [if_neg hshort] at hsource
  have hpath := escaped_no_query s
  have hhead : (s.flatMap escapeChar).head? = some 47 := by
    cases s with
    | nil => cases hstart
    | cons c s =>
      obtain rfl := Option.some.inj hstart
      rfl
  have hpart : ∀ front q, front <+: s.flatMap escapeChar → unescape front = some q →
      q.length ≤ s.length ∧ (front ≠ s.flatMap escapeChar → q.length < s.length) := by
    rintro front q ⟨back, hback⟩ hfront
    rw [← hback] at hsource ⊢
    obtain ⟨hle, hlt⟩ := length_unescape_lt hsource hfront
    exact ⟨hle, fun hne => hlt fun hnil => hne (by rw [hnil, List.append_nil])⟩
  have hwritten := fun q : Bytes => Walk.length_written_le 47 (46 : UInt8) q
  have hroom' : ∀ front q, front <+: s.flatMap escapeChar → front ≠ s.flatMap escapeChar →
      unescape front = some q → (written 47 46 ([] ++ q)).length ≠ decodedLen := by
    intro front q hpre hne hfront
    have hlt := (hpart front q hpre hfront).2 hne
    have hq := hwritten q
    rw [List.nil_append]
    omega
  obtain ⟨hfits, -⟩ := decodeURLLoop_total hpath (Decodes.start decoded) hhead hroom'
  obtain ⟨m, dest, hloop, hm⟩ := hfits fun front q hpre hfront => by
    have hle := (hpart front q hpre hfront).1
    have hq := hwritten q
    rw [List.nil_append]
    omega
  have hdecode : decodeURL (s.flatMap escapeChar) decoded decodedLen = some (m, dest) := by
    rw [decodeURL]
    exact (if_pos hhead).trans hloop
  have hnonneg := hm (by rw [hsource]; rfl)
  refine ⟨m, dest, hdecode, hnonneg, ?_⟩
  obtain ⟨p, d, high, hp, hd, -, rfl, rfl⟩ := decodeURL_path hpath hdecode hnonneg
  cases hsource.symm.trans hp
  have hstrip := stripDots_of_noDots hdots
  have hfull : written 47 46 s = s := by
    refine (((stripDots_isPrefix s).eq_of_length_le ?_).symm.trans hstrip)
    rw [hstrip]
    exact hwritten s
  rw [hd.dest, hfull, hstrip, Int.toNat_natCast, List.take_left]

/-- A text without dot segments comes back, unless a tab or a line end is in it. -/
theorem roundTrips_iff (hzero : 0 ∉ s) (hstart : s.head? = some 47) (hdots : NoDots 47 46 s)
    (hencoded : 3 * s.length ≤ encodedLen) (hencoded' : encodedLen < encoded.length)
    (hdecoded : s.length ≤ decodedLen) (hdecoded' : decodedLen ≤ decoded.length) :
    RoundTrips s encoded encodedLen decoded decodedLen ↔ ∀ c ∈ s, c ≠ 9 ∧ c ≠ 10 ∧ c ≠ 13 := by
  obtain ⟨dest, hencode, htake⟩ := encodeURL_spec hencoded hencoded'
  have hshort : (∀ c ∈ s, c ≠ 9 ∧ c ≠ 10 ∧ c ≠ 13) ↔ ¬ ∃ c ∈ s, IsShort c := by
    simp only [IsShort, not_exists, not_and, not_or, ne_eq]
  rw [hshort]
  constructor
  · rintro ⟨n, dest', hencode', -, m, out, hdecode, hm, -⟩ hc
    cases hencode.symm.trans hencode'
    rw [Int.toNat_natCast, htake] at hdecode
    obtain ⟨p, -, -, hp, -⟩ := decodeURL_path (escaped_no_query s) hdecode hm
    rw [unescape_escaped hzero, if_pos hc] at hp
    cases hp
  · intro hc
    obtain ⟨m, out, hdecode, hm, hout⟩ :=
      decodeURL_escaped hzero hstart hdots hc hdecoded hdecoded'
    rw [← htake] at hdecode
    exact ⟨_, dest, hencode, Int.natCast_nonneg _, m, out, hdecode, hm, hout⟩

theorem roundTrips_iff_special : RoundTrips (ascii "/a b?..%") (List.replicate 32 0) 30
    (List.replicate 10 0) 10 ↔ ∀ c ∈ ascii "/a b?..%", c ≠ 9 ∧ c ≠ 10 ∧ c ≠ 13 :=
  roundTrips_iff (by decide) (by decide) (by decide) (by decide) (by decide) (by decide)
    (by decide)

/-- A tab is escaped as `%9` and a zero byte, which the decoder refuses. -/
theorem tab_not_roundTrips :
    ¬ RoundTrips [47, 9] (List.replicate 8 0) 7 (List.replicate 8 0) 8 := by
  have hencode : encodeURL [47, 9] (List.replicate 8 0) 7 =
      some (4, [47, 37, 57, 0, 0, 0, 0, 0]) := by decide +kernel
  have hdecode : decodeURL [47, 37, 57, 0] (List.replicate 8 0) 8 =
      some (OS_BadURLFormat, [47, 0, 0, 0, 0, 0, 0, 0]) := by decide +kernel
  rintro ⟨n, dest, hencode', -, m, dest', hdecode', hm, -⟩
  cases hencode.symm.trans hencode'
  cases hdecode.symm.trans hdecode'
  exact absurd hm (by decide)

end CxxFramework.Core.StringTranslator
