import CxxFramework.Core.EncodeURL

/-!
# What the URL translator accesses

`EncodeURL` and `DecodeURL` over their pointers: a position in the memory of the source, the
number of characters that are left of it, and lengths that may be negative. `none` stands for
an access outside of the source or of the destination.

The terminator of `s_sprintf` is not counted by `EncodeURL`. Where the last three bytes of the
destination take an escape of two digits, it is written behind them.
-/

namespace CxxFramework.Core.StringTranslator

open Buffer

variable {source ioDest dest dest' s p rest : Bytes} {c : UInt8} {d d' d₁ d₂ : Decoder}
  {inSrcLen inDestLen r : Int} {inSrc k n size len : Nat}

namespace Pointer

/-- `putChar` with the byte in front of the output read as memory. -/
def putChar (d : Decoder) (tempChar : UInt8) : Option Decoder :=
  if d.inQuery = false ∧ tempChar = 46 ∧ d.theLengthWritten = 0 then none
  else d.putChar tempChar

theorem toNat_sub_lt {left taken : Int} (hleft : 0 < left) (htaken : 0 < taken) :
    (left - taken).toNat < left.toNat := by
  omega

/-- The loop of `DecodeURL`. -/
def decodeURLLoop (source : Bytes) (inDestLen : Int) (inSrc : Nat) (inSrcLen : Int)
    (d : Decoder) : Option (Int × Bytes) :=
  if 0 < inSrcLen then
    if (d.theLengthWritten : Int) = inDestLen then some (OS_NotEnoughSpace, d.dest)
    else
      source[inSrc]?.bind fun c =>
        let d := { d with inQuery := d.inQuery || c == 63 }
        if c = 37 then
          if inSrcLen < 3 then some (OS_BadURLFormat, d.dest)
          else
            source[inSrc + 1]?.bind fun high =>
              match hexDigit high with
              | none => some (OS_BadURLFormat, d.dest)
              | some high =>
                source[inSrc + 2]?.bind fun low =>
                  match hexDigit low with
                  | none => some (OS_BadURLFormat, d.dest)
                  | some low =>
                    (putChar d (high * 16 + low)).bind fun d =>
                      decodeURLLoop source inDestLen (inSrc + 3) (inSrcLen - 3) d
        else if c = 0 then some (OS_BadURLFormat, d.dest)
        else
          (putChar d c).bind fun d =>
            decodeURLLoop source inDestLen (inSrc + 1) (inSrcLen - 1) d
  else
    let stripped := if d.numDotChars ≤ 2 then d.numDotChars else 0
    some ((d.theLengthWritten : Int) - stripped, d.dest)
termination_by inSrcLen.toNat
decreasing_by all_goals exact toNat_sub_lt ‹0 < inSrcLen› (by decide)

/-- `DecodeURL`: the number of bytes written or an error, and the destination. -/
def decodeURL (source : Bytes) (inSrcLen : Int) (ioDest : Bytes) (inDestLen : Int) :
    Option (Int × Bytes) :=
  if inSrcLen ≤ 0 then some (OS_BadURLFormat, ioDest)
  else
    source[0]?.bind fun c =>
      if c = 47 then decodeURLLoop source inDestLen 0 inSrcLen { dest := ioDest }
      else some (OS_BadURLFormat, ioDest)

/-- The loop of `EncodeURL`. -/
def encodeURLLoop (source : Bytes) (inDestLen : Int) (inSrc : Nat) (inSrcLen : Int)
    (ioDest : Bytes) (theLengthWritten : Nat) : Option (Int × Bytes) :=
  if 0 < inSrcLen then
    if (theLengthWritten : Int) = inDestLen then some (OS_NotEnoughSpace, ioDest)
    else
      source[inSrc]?.bind fun c =>
        if 127 < c ∨ c ∈ illegalChars then
          if inDestLen - theLengthWritten < 3 then some (OS_NotEnoughSpace, ioDest)
          else
            (write ioDest theLengthWritten (37 :: upperHex c ++ [0])).bind fun ioDest =>
              encodeURLLoop source inDestLen (inSrc + 1) (inSrcLen - 1) ioDest
                (theLengthWritten + 3)
        else
          (write ioDest theLengthWritten [c]).bind fun ioDest =>
            encodeURLLoop source inDestLen (inSrc + 1) (inSrcLen - 1) ioDest
              (theLengthWritten + 1)
  else some (theLengthWritten, ioDest)
termination_by inSrcLen.toNat
decreasing_by all_goals exact toNat_sub_lt ‹0 < inSrcLen› (by decide)

/-- `EncodeURL`: the number of bytes written or an error, and the destination. -/
def encodeURL (source : Bytes) (inSrcLen : Int) (ioDest : Bytes) (inDestLen : Int) :
    Option (Int × Bytes) :=
  encodeURLLoop source inDestLen 0 inSrcLen ioDest 0

/-! ## The characters that are left -/

/-- `EncodeURL` reads the characters of its source. -/
theorem encodeURLLoop_eq (hlen : inSrc + k = source.length) :
    encodeURLLoop source size inSrc k ioDest len =
      StringTranslator.encodeURLLoop size (source.drop inSrc) ioDest len := by
  induction k generalizing inSrc ioDest len with
  | zero =>
    rw [List.drop_eq_nil_of_le (by omega), encodeURLLoop, if_neg (by simp)]
    rfl
  | succ k ih =>
    have hin : inSrc < source.length := by omega
    have hleft : ((k + 1 : Nat) : Int) - 1 = (k : Nat) := by omega
    have hspace : (size : Int) - (len : Int) < 3 ↔ size - len < 3 := by omega
    rw [encodeURLLoop, if_pos (by omega), List.getElem?_eq_getElem hin, Option.bind_some,
      List.drop_eq_getElem_cons hin, StringTranslator.encodeURLLoop, hleft]
    simp only [Int.natCast_inj, ih (show inSrc + 1 + k = source.length by omega), hspace]

theorem encodeURL_eq (hsrc : source.length = inSrcLen.toNat) :
    encodeURL source inSrcLen ioDest size = StringTranslator.encodeURL source ioDest size := by
  unfold encodeURL StringTranslator.encodeURL
  by_cases hpos : 0 < inSrcLen
  · obtain ⟨k, rfl⟩ := Int.eq_ofNat_of_zero_le hpos.le
    rw [encodeURLLoop_eq (show 0 + k = source.length by omega), List.drop_zero]
  · obtain rfl : source = [] := List.length_eq_zero_iff.mp (by omega)
    rw [encodeURLLoop, if_neg hpos]
    rfl

/-- A character was written, and the dots that are counted stand behind it. -/
def Started (d : Decoder) : Prop := d.numDotChars < d.theLengthWritten

theorem countDots_le (d : Decoder) (c : UInt8) : d.countDots c ≤ d.numDotChars + 1 := by
  unfold Decoder.countDots
  split_ifs <;> grind

theorem countDots_of_ne (d : Decoder) (hc : c ≠ 46) : d.countDots c = 0 := if_neg hc

/-- How far a character of the path takes the output back. -/
def stepBack (d : Decoder) (c : UInt8) : Nat :=
  if c = 47 ∧ 0 < d.numDotChars ∧ d.numDotChars ≤ 2 then d.numDotChars + 1 else 0

/-- The decoder where a character of the path is written. -/
def retreat (d : Decoder) (c : UInt8) : Decoder :=
  { d with theLengthWritten := d.theLengthWritten - stepBack d c }

theorem putChar_query (hquery : d.inQuery = true) (c : UInt8) :
    d.putChar c = (write d.dest d.theLengthWritten [c]).map fun dest =>
      { d with dest, theLengthWritten := d.theLengthWritten + 1 } := if_pos hquery

theorem putChar_path (hquery : ¬ d.inQuery = true) (hback : stepBack d c ≤ d.theLengthWritten) :
    d.putChar c = (write d.dest (retreat d c).theLengthWritten [c]).map fun dest =>
      { d with
        dest
        numDotChars := (retreat d c).countDots c
        theLengthWritten := (retreat d c).theLengthWritten + 1 } := by
  rw [Decoder.putChar, if_neg hquery]
  exact if_neg (Nat.not_lt.mpr hback)

theorem stepBack_le (hd : Started d ∨ d.theLengthWritten = 0 ∧ d.numDotChars = 0 ∧ c ≠ 46) :
    stepBack d c ≤ d.theLengthWritten := by
  unfold stepBack Started at *
  split_ifs <;> grind

/-- One character more, while there is room for it. -/
theorem putChar_started (hd : Started d ∨ d.theLengthWritten = 0 ∧ d.numDotChars = 0 ∧ c ≠ 46)
    (hroom : d.theLengthWritten < d.dest.length) :
    ∃ d', d.putChar c = some d' ∧ Started d' ∧
      d'.theLengthWritten ≤ d.theLengthWritten + 1 ∧ d'.dest.length = d.dest.length := by
  by_cases hquery : d.inQuery = true
  · have hwrite := write_of_le (show d.theLengthWritten + [c].length ≤ d.dest.length from hroom)
    refine ⟨_, by rw [putChar_query hquery, hwrite]; rfl, ?_, Nat.le_refl _, length_write hwrite⟩
    unfold Started at *
    grind
  · have hle : (retreat d c).theLengthWritten ≤ d.theLengthWritten := Nat.sub_le _ _
    have hfits : (retreat d c).theLengthWritten + [c].length ≤ d.dest.length := by
      rw [List.length_singleton]
      omega
    have hwrite := write_of_le hfits
    refine ⟨_, by rw [putChar_path hquery (stepBack_le hd), hwrite]; rfl, ?_,
      Nat.succ_le_succ hle, length_write hwrite⟩
    by_cases hc : c = 46
    · -- A dot takes nothing back, and is counted at most once.
      have hback : stepBack d c = 0 := by
        subst hc
        rfl
      have hcount := countDots_le (retreat d c) c
      unfold Started retreat at *
      grind
    · simp [Started, countDots_of_ne _ hc]

/-- The byte in front of the output is there. -/
theorem putChar_eq (hd : Started d ∨ d.theLengthWritten = 0 ∧ d.numDotChars = 0 ∧ c ≠ 46) :
    putChar d c = d.putChar c := by
  refine if_neg ?_
  rintro ⟨-, hc, hzero⟩
  unfold Started at hd
  grind

/-- `DecodeURL` reads the characters of its source. -/
theorem decodeURLLoop_eq (hsrc : source.drop inSrc = s) (hd : Started d)
    (hsize : d.dest.length = size) (hle : d.theLengthWritten ≤ size) :
    decodeURLLoop source size inSrc s.length d = StringTranslator.decodeURLLoop size s d := by
  induction hn : s.length using Nat.strongRecOn generalizing inSrc s d with
  | _ n ih =>
    have hread (i : Nat) : source[inSrc + i]? = s[i]? := by rw [← hsrc, List.getElem?_drop]
    -- What follows the next character, which takes `i` bytes.
    have hnext (i : Nat) (hi : 0 < i) (hin : i ≤ s.length) (d : Decoder) (c : UInt8)
        (hd : Started d) (hsize : d.dest.length = size) (hroom : d.theLengthWritten < size) :
        ((putChar d c).bind fun d => decodeURLLoop source size (inSrc + i) (n - i : Int) d) =
          (d.putChar c).bind (StringTranslator.decodeURLLoop size (s.drop i) ·) := by
      obtain ⟨d', hput, hd', hlen, hsize'⟩ := putChar_started (c := c) (.inl hd) (hsize ▸ hroom)
      have hskip : source.drop (inSrc + i) = s.drop i := by rw [← hsrc, List.drop_drop]
      have hleft : (n - i : Int) = ((s.drop i).length : Nat) := by
        rw [List.length_drop]
        omega
      have hshort : (s.drop i).length < n := by
        rw [List.length_drop]
        omega
      rw [putChar_eq (.inl hd), hput, Option.bind_some, Option.bind_some, hleft]
      exact ih _ hshort hskip hd' (hsize'.trans hsize) (by omega) rfl
    subst hn
    cases s with
    | nil => rw [decodeURLLoop, if_neg (by simp), StringTranslator.decodeURLLoop]
    | cons c s =>
      have hone := hread 0
      rw [decodeURLLoop, StringTranslator.decodeURLLoop.eq_def, if_pos (by simp)]
      by_cases hfull : d.theLengthWritten = size
      · simp [hfull]
      · have hroom : d.theLengthWritten < size := lt_of_le_of_ne hle hfull
        have hneq : ¬ ((d.theLengthWritten : Int) = size) := fun h => hfull (by exact_mod_cast h)
        rw [Nat.add_zero, List.getElem?_cons_zero] at hone
        simp only [if_neg hneq, if_neg hfull, hone, Option.bind_some]
        by_cases hpercent : c = 37
        · simp only [if_pos hpercent]
          rcases s with _ | ⟨high, _ | ⟨low, s⟩⟩
          · rfl
          · rfl
          · have htwo := hread 1
            have hthree := hread 2
            have hlong : ¬ (((c :: high :: low :: s).length : Int) < 3) := by
              simp only [List.length_cons]
              omega
            simp only [List.getElem?_cons_succ, List.getElem?_cons_zero] at htwo hthree
            simp only [if_neg hlong, htwo, hthree, Option.bind_some]
            cases hhigh : hexDigit high with
            | none => rfl
            | some h =>
              cases hlow : hexDigit low with
              | none => rfl
              | some l =>
                exact hnext 3 (by decide) (by simp) _ (h * 16 + l) hd hsize hroom
        · simp only [if_neg hpercent]
          by_cases hzero : c = 0
          · simp only [if_pos hzero]
          · simp only [if_neg hzero]
            exact hnext 1 (by decide) (by simp) _ c hd hsize hroom

/-- The `/` that a URL starts with. -/
theorem putChar_first (hsize : ioDest.length = size) (hfull : 0 ≠ size) :
    ∃ d, putChar { dest := ioDest } 47 = some d ∧
      Decoder.putChar { dest := ioDest } 47 = some d ∧ Started d ∧ d.dest.length = size ∧
      d.theLengthWritten ≤ size := by
  have hstart : Started { dest := ioDest } ∨ (0 : Nat) = 0 ∧ (0 : Nat) = 0 ∧ (47 : UInt8) ≠ 46 :=
    .inr ⟨rfl, rfl, by decide⟩
  obtain ⟨d, hput, hd, hlen, hdest⟩ :=
    putChar_started (d := { dest := ioDest }) hstart (show 0 < ioDest.length by omega)
  simp only at hlen
  exact ⟨d, (putChar_eq hstart).trans hput, hput, hd, hdest.trans hsize, by omega⟩

theorem isChar_delimiter : IsChar [47] 47 := .raw (by decide) (by decide)

theorem decodeURL_eq (hsrc : source.length = inSrcLen.toNat) (hsize : ioDest.length = size) :
    decodeURL source inSrcLen ioDest size = StringTranslator.decodeURL source ioDest size := by
  unfold decodeURL StringTranslator.decodeURL
  match source with
  | [] =>
    rw [List.length_nil] at hsrc
    rw [if_pos (by omega)]
    rfl
  | c :: rest =>
    rw [List.length_cons] at hsrc
    rw [if_neg (by omega), List.getElem?_cons_zero, Option.bind_some]
    by_cases hc : c = 47
    · subst hc
      have hhead : (47 :: rest).head? = some kPathDelimiterChar := rfl
      have hround := decodeURLLoop_char size isChar_delimiter rest { dest := ioDest }
      rw [List.singleton_append] at hround
      rw [if_pos rfl, if_pos hhead, decodeURLLoop, if_pos (by omega), hround]
      by_cases hfull : 0 = size
      · subst hfull
        rfl
      · have hneq : ¬ (((0 : Nat) : Int) = size) := by omega
        have hleft : inSrcLen - 1 = (rest.length : Nat) := by omega
        obtain ⟨d, hread, hput, hd, hdest, hle⟩ := putChar_first hsize hfull
        rw [if_neg hneq, if_neg hfull, hleft]
        change (putChar { dest := ioDest } 47).bind _ =
          (Decoder.putChar { dest := ioDest } 47).bind _
        rw [hread, hput, Option.bind_some, Option.bind_some]
        exact decodeURLLoop_eq (show (47 :: rest).drop 1 = rest from rfl) hd hdest hle
    · have hhead : ¬ (c :: rest).head? = some kPathDelimiterChar := fun h => hc (Option.some.inj h)
      rw [if_neg hc, if_neg hhead]

/-! ## Staying inside of the destination -/

/-- The loop of `DecodeURL` ends inside of the destination, with an error only where a
character is broken or the destination is full. -/
theorem decodeURLLoop_inside (s : Bytes) (hd : Started d) (hsize : d.dest.length = size)
    (hle : d.theLengthWritten ≤ size) :
    ∃ r dest, StringTranslator.decodeURLLoop size s d = some (r, dest) ∧ r ≤ size ∧
      (0 ≤ r ∨ r = OS_NotEnoughSpace ∨ unescape s = none) := by
  induction hn : s.length using Nat.strongRecOn generalizing s d with
  | _ n ih =>
    rcases source_cases s with rfl | hbroken | ⟨e, c, rest, rfl, he⟩
    · refine ⟨_, _, rfl, ?_⟩
      unfold Started at hd
      grind
    · obtain ⟨err, hneg, herr⟩ := decodeURLLoop_broken size hbroken d
      exact ⟨err, _, herr, by omega, .inr (.inr hbroken.unescape)⟩
    · have hpos := he.length_pos
      rw [decodeURLLoop_char size he, unescape_char he]
      by_cases hfull : d.theLengthWritten = size
      · rw [if_pos hfull]
        exact ⟨_, _, rfl, by rw [OS_NotEnoughSpace]; omega, .inr (.inl rfl)⟩
      · have hstart : Started { d with inQuery := d.inQuery || e.head? == some 63 } := hd
        obtain ⟨d', hput, hd', hlen, hdest⟩ := putChar_started (c := c) (.inl hstart)
          (show d.theLengthWritten < d.dest.length by omega)
        rw [if_neg hfull, hput, Option.bind_some, Option.map_eq_none_iff]
        rw [List.length_append] at hn
        simp only at hlen
        exact ih rest.length (by omega) rest hd' (hdest.trans hsize) (by omega) rfl

/-- `DecodeURL` stays inside of its destination. -/
theorem decodeURL_inside (s : Bytes) (hsize : ioDest.length = size) :
    ∃ r dest, StringTranslator.decodeURL s ioDest size = some (r, dest) ∧ r ≤ size ∧
      (0 ≤ r ∨ r = OS_NotEnoughSpace ∨ s.head? ≠ some 47 ∨ unescape s = none) := by
  unfold StringTranslator.decodeURL
  by_cases hhead : s.head? = some kPathDelimiterChar
  · obtain ⟨rest, rfl⟩ : ∃ rest, s = [47] ++ rest := by
      match s with
      | c :: rest => exact ⟨rest, by rw [Option.some.inj hhead]; rfl⟩
    rw [if_pos hhead, decodeURLLoop_char size isChar_delimiter, unescape_char isChar_delimiter]
    by_cases hfull : 0 = size
    · rw [if_pos hfull]
      exact ⟨_, _, rfl, by rw [OS_NotEnoughSpace]; omega, .inr (.inl rfl)⟩
    · obtain ⟨d, -, hput, hd, hdest, hle⟩ := putChar_first hsize hfull
      obtain ⟨r, dest, hloop, hr, hcases⟩ := decodeURLLoop_inside rest hd hdest hle
      refine ⟨r, dest, ?_, hr, ?_⟩
      · rw [if_neg hfull]
        change (Decoder.putChar { dest := ioDest } 47).bind _ = _
        rw [hput, Option.bind_some, hloop]
      · rw [Option.map_eq_none_iff]
        tauto
  · rw [if_neg hhead]
    exact ⟨_, _, rfl, by rw [OS_BadURLFormat]; omega, .inr (.inr (.inl hhead))⟩

/-- What `DecodeURL` returns does not depend on the room, where there is enough of it. -/
theorem decodeURL_length (h : StringTranslator.decodeURL s ioDest size = some (r, dest))
    (hr : 0 ≤ r) {longDest dest' : Bytes} {r' : Int}
    (h' : StringTranslator.decodeURL s longDest n = some (r', dest')) (hr' : 0 ≤ r') : r = r' := by
  obtain ⟨p, query, hp, hquery, -, rfl⟩ := decodeURL_accepts h hr
  obtain ⟨p', query', hp', hquery', -, rfl⟩ := decodeURL_accepts h' hr'
  obtain rfl := Option.some.inj (hp.symm.trans hp')
  obtain rfl := Option.some.inj (hquery.symm.trans hquery')
  rfl

/-- A URL that is accepted has no broken character. -/
theorem unescape_of_decodeURL (h : StringTranslator.decodeURL s ioDest size = some (r, dest))
    (hr : 0 ≤ r) : s.head? = some 47 ∧ unescape s ≠ none := by
  obtain ⟨p, query, hp, hquery, -⟩ := decodeURL_accepts h hr
  refine ⟨?_, ?_⟩
  · unfold StringTranslator.decodeURL at h
    split_ifs at h with hhead
    · exact hhead
    · cases h
      exact absurd hr (by decide)
  · have hwhole := unescape_append hp (s.dropWhile (· != 63))
    rw [List.takeWhile_append_dropWhile, hquery] at hwhole
    rw [hwhole]
    exact Option.some_ne_none _

/-- Behind `len` bytes, the escape of a character with two digits ends where the destination
does. -/
def EndsInEscape (size len : Nat) (s : Bytes) : Prop :=
  ∃ front c back, s = front ++ c :: back ∧ Special c ∧ ¬ IsShort c ∧
    len + ((front ++ [c]).flatMap escapeChar).length = size

theorem endsInEscape_cons : EndsInEscape size len (c :: s) ↔
    (Special c ∧ ¬ IsShort c ∧ len + 3 = size) ∨
      EndsInEscape size (len + (escapeChar c).length) s := by
  constructor
  · rintro ⟨front, x, back, hsplit, hx, hlong, hend⟩
    match front with
    | [] =>
      obtain ⟨rfl, rfl⟩ := List.cons.inj hsplit
      refine .inl ⟨hx, hlong, ?_⟩
      simpa [length_escapeChar, hx] using hend
    | a :: front =>
      obtain ⟨rfl, rfl⟩ := List.cons.inj hsplit
      refine .inr ⟨front, x, back, rfl, hx, hlong, ?_⟩
      rw [List.cons_append, List.flatMap_cons, List.length_append] at hend
      omega
  · rintro (⟨hc, hlong, hend⟩ | ⟨front, x, back, rfl, hx, hlong, hend⟩)
    · exact ⟨[], c, s, rfl, hc, hlong, by simpa [length_escapeChar, hc] using hend⟩
    · refine ⟨c :: front, x, back, rfl, hx, hlong, ?_⟩
      rw [List.cons_append, List.flatMap_cons, List.length_append]
      omega

/-- Such an escape has three bytes in front of the end. -/
theorem EndsInEscape.le (h : EndsInEscape size len s) : len + 3 ≤ size := by
  obtain ⟨front, c, back, -, hc, -, hend⟩ := h
  rw [List.flatMap_append, List.length_append, List.flatMap_singleton, length_escapeChar,
    if_pos hc] at hend
  omega

/-- The loop of `EncodeURL`: it leaves the destination where an escape ends with it, and
refuses what does not fit. -/
theorem encodeURLLoop_run (s : Bytes) (hsize : ioDest.length = size) (hlen : len ≤ size) :
    (EndsInEscape size len s → StringTranslator.encodeURLLoop size s ioDest len = none) ∧
    (¬ EndsInEscape size len s →
      ∃ dest, StringTranslator.encodeURLLoop size s ioDest len =
        some (if len + (s.flatMap escapeChar).length ≤ size
          then ((len + (s.flatMap escapeChar).length : Nat) : Int) else OS_NotEnoughSpace,
          dest)) := by
  induction s generalizing ioDest len with
  | nil =>
    refine ⟨fun ⟨front, c, back, h, _⟩ => ?_, fun _ => ⟨ioDest, ?_⟩⟩
    · simp at h
    · simp [StringTranslator.encodeURLLoop, hlen]
  | cons c s ih =>
    have hstored := length_stored c
    have hcount := length_escapeChar c
    rw [encodeURLLoop_round size c s ioDest hlen, endsInEscape_cons, List.flatMap_cons,
      List.length_append, ← Nat.add_assoc]
    by_cases hfits : len + (escapeChar c).length ≤ size
    · rw [if_pos hfits]
      by_cases hlast : Special c ∧ ¬ IsShort c ∧ len + 3 = size
      · -- The terminator of the escape is written behind the destination.
        obtain ⟨hc, hlong, hend⟩ := hlast
        refine ⟨fun _ => ?_, fun h => absurd (.inl ⟨hc, hlong, hend⟩) h⟩
        rw [if_pos ⟨hc, hlong⟩, hcount, if_pos hc] at hstored
        rw [write, if_neg (by omega), Option.bind_none]
      · rw [or_iff_right hlast]
        have hroom : len + (stored c).length ≤ ioDest.length := by
          rw [hstored]
          split_ifs with hlong
          · rw [if_pos hlong.1] at hcount
            have hne : len + 3 ≠ size := fun h => hlast ⟨hlong.1, hlong.2, h⟩
            omega
          · omega
        have hwrite := write_of_le hroom
        rw [hwrite, Option.bind_some]
        exact ih ((length_write hwrite).trans hsize) hfits
    · have hno : ¬ EndsInEscape size (len + (escapeChar c).length) s := fun h => by
        have := h.le
        omega
      rw [if_neg hfits, if_neg (by omega)]
      refine ⟨fun h => ?_, fun _ => ⟨_, rfl⟩⟩
      rcases h with ⟨hc, -, hend⟩ | h
      · rw [if_pos hc] at hcount
        omega
      · exact absurd h hno

/-! ## The bounds -/

/-- A translation of a source stays inside of its destination, which is `ioDest`: it accesses
nothing else but its source, and refuses what does not fit. -/
structure Bounded (translate : Bytes → Int → Bytes → Int → Option (Int × Bytes))
    (inSrc : Bytes) (inSrcLen : Int) (ioDest : Bytes) (inDestLen : Int) : Prop where
  returns : ∃ r dest, translate inSrc inSrcLen ioDest inDestLen = some (r, dest)
  /-- On success at most `inDestLen` is returned. -/
  le {r : Int} {dest : Bytes} :
    translate inSrc inSrcLen ioDest inDestLen = some (r, dest) → 0 ≤ r → r ≤ inDestLen
  /-- What another destination has room for, and this one has not. -/
  noSpace {longDest dest' : Bytes} {r : Int} :
    translate inSrc inSrcLen longDest longDest.length = some (r, dest') → 0 ≤ r → inDestLen < r →
      ∃ dest, translate inSrc inSrcLen ioDest inDestLen = some (OS_NotEnoughSpace, dest)

/-- No escape of two digits ends where the destination does. A destination of negative length
is left alone if the first character is escaped. -/
def EncodeStays (inSrc : Bytes) (inDestLen : Int) : Prop :=
  (0 ≤ inDestLen ∧ ¬ EndsInEscape inDestLen.toNat 0 inSrc) ∨
    (inDestLen < 0 ∧ ∃ c ∈ inSrc.head?, Special c)

/-- A destination of negative length is left alone if the source is no path. -/
def DecodeStays (inSrc : Bytes) (inDestLen : Int) : Prop :=
  0 ≤ inDestLen ∨ inSrc.head? ≠ some 47

theorem encodeURL_bounded (hsrc : source.length = inSrcLen.toNat) (hdest : ioDest.length = size)
    (hend : ¬ EndsInEscape size 0 source) : Bounded encodeURL source inSrcLen ioDest size := by
  obtain ⟨dest, hrun⟩ := (encodeURLLoop_run source hdest (Nat.zero_le size)).2 hend
  rw [Nat.zero_add] at hrun
  refine ⟨?_, fun {r dest'} h hr => ?_, fun {longDest dest' r} h hr hlong => ?_⟩
  · rw [encodeURL_eq hsrc]
    exact ⟨_, _, hrun⟩
  · rw [encodeURL_eq hsrc, StringTranslator.encodeURL, hrun] at h
    cases h
    split_ifs with hfits
    · exact_mod_cast hfits
    · rw [if_neg hfits] at hr
      exact absurd hr (by decide)
  · rw [encodeURL_eq hsrc] at h ⊢
    refine ⟨dest, hrun.trans ?_⟩
    have hother := encodeURLLoop_run source (rfl : longDest.length = _) (Nat.zero_le _)
    have hno : ¬ EndsInEscape longDest.length 0 source := fun hend => by
      rw [StringTranslator.encodeURL, hother.1 hend] at h
      cases h
    obtain ⟨dest'', hrun'⟩ := hother.2 hno
    rw [StringTranslator.encodeURL, hrun', Nat.zero_add] at h
    cases h
    split_ifs at hr hlong with hfits
    · rw [if_neg (by omega)]
    · exact absurd hr (by decide)

/-- A negative length is never reached. -/
theorem encodeURL_negative (hsrc : (c :: rest).length = inSrcLen.toNat) (hneg : inDestLen < 0) :
    encodeURL (c :: rest) inSrcLen [] inDestLen =
      if Special c then some (OS_NotEnoughSpace, []) else none := by
  rw [List.length_cons] at hsrc
  have hzero : ¬ (((0 : Nat) : Int) = inDestLen) := by omega
  rw [encodeURL, encodeURLLoop, if_pos (by omega), if_neg hzero, List.getElem?_cons_zero,
    Option.bind_some, if_pos (show inDestLen - (0 : Nat) < 3 by omega)]
  rfl

theorem encodeURL_bounded_iff (hsrc : source.length = inSrcLen.toNat)
    (hdest : ioDest.length = inDestLen.toNat) :
    Bounded encodeURL source inSrcLen ioDest inDestLen ↔ EncodeStays source inDestLen := by
  unfold EncodeStays
  by_cases hneg : inDestLen < 0
  · obtain rfl : ioDest = [] := List.length_eq_zero_iff.mp (by omega)
    rw [or_iff_right (by omega), and_iff_right hneg]
    match source with
    | [] =>
      refine iff_of_false (fun h => ?_) (by simp)
      rw [List.length_nil] at hsrc
      have hrun : encodeURL [] inSrcLen [] inDestLen = some (0, []) := by
        rw [encodeURL, encodeURLLoop, if_neg (by omega)]
        rfl
      have hle := h.le hrun (Int.le_refl 0)
      omega
    | c :: rest =>
      have hrun := encodeURL_negative hsrc hneg
      have hhead : (∃ x ∈ (c :: rest).head?, Special x) ↔ Special c := by simp
      rw [hhead]
      by_cases hc : Special c
      · rw [if_pos hc] at hrun
        refine iff_of_true ⟨⟨_, _, hrun⟩, fun h hr => ?_, fun _ _ _ => ⟨_, hrun⟩⟩ hc
        cases hrun.symm.trans h
        exact absurd hr (by decide)
      · rw [if_neg hc] at hrun
        refine iff_of_false (fun h => ?_) hc
        obtain ⟨r, dest, hsome⟩ := h.returns
        cases hrun.symm.trans hsome
  · obtain ⟨size, rfl⟩ := Int.eq_ofNat_of_zero_le (not_lt.mp hneg)
    rw [Int.toNat_natCast] at hdest
    rw [or_iff_left (by omega), and_iff_right (by omega)]
    refine ⟨fun h hend => ?_, fun hend => encodeURL_bounded hsrc hdest hend⟩
    obtain ⟨r, dest, hrun⟩ := h.returns
    rw [encodeURL_eq hsrc, StringTranslator.encodeURL,
      (encodeURLLoop_run source hdest (Nat.zero_le size)).1 hend] at hrun
    cases hrun

theorem decodeURL_bounded (hsrc : source.length = inSrcLen.toNat) (hdest : ioDest.length = size) :
    Bounded decodeURL source inSrcLen ioDest size := by
  obtain ⟨r, dest, hrun, hle, hcases⟩ := decodeURL_inside source hdest
  have heq := decodeURL_eq hsrc hdest
  refine ⟨⟨r, dest, heq.trans hrun⟩, fun {r' dest'} h hr => ?_,
    fun {longDest dest' r'} h hr hlong => ⟨dest, ?_⟩⟩
  · cases (heq.trans hrun).symm.trans h
    exact hle
  · rw [decodeURL_eq hsrc rfl] at h
    obtain ⟨hhead, hwhole⟩ := unescape_of_decodeURL h hr
    rcases hcases with hpos | rfl | hno | hno
    · have hsame := decodeURL_length hrun hpos h hr
      omega
    · exact heq.trans hrun
    · exact absurd hhead hno
    · exact absurd hno hwhole

/-- Only a path is decoded. -/
theorem decodeURL_refused (hsrc : source.length = inSrcLen.toNat) (hhead : source.head? ≠ some 47)
    (ioDest : Bytes) (inDestLen : Int) :
    decodeURL source inSrcLen ioDest inDestLen = some (OS_BadURLFormat, ioDest) := by
  unfold decodeURL
  match source with
  | [] =>
    rw [List.length_nil] at hsrc
    exact if_pos (by omega)
  | c :: rest =>
    rw [List.length_cons] at hsrc
    have hc : ¬ c = 47 := fun h => hhead (congrArg some h)
    rw [if_neg (by omega), List.getElem?_cons_zero, Option.bind_some, if_neg hc]

/-- The first character of a path is stored whatever the length is below zero. -/
theorem decodeURL_negative (hsrc : (47 :: rest).length = inSrcLen.toNat) (hneg : inDestLen < 0) :
    decodeURL (47 :: rest) inSrcLen [] inDestLen = none := by
  rw [List.length_cons] at hsrc
  have hzero : ¬ (((0 : Nat) : Int) = inDestLen) := by omega
  rw [decodeURL, if_neg (by omega), List.getElem?_cons_zero, Option.bind_some, if_pos rfl,
    decodeURLLoop, if_pos (by omega), if_neg hzero, List.getElem?_cons_zero, Option.bind_some]
  rfl

theorem decodeURL_bounded_iff (hsrc : source.length = inSrcLen.toNat)
    (hdest : ioDest.length = inDestLen.toNat) :
    Bounded decodeURL source inSrcLen ioDest inDestLen ↔ DecodeStays source inDestLen := by
  unfold DecodeStays
  by_cases hneg : inDestLen < 0
  · obtain rfl : ioDest = [] := List.length_eq_zero_iff.mp (by omega)
    rw [or_iff_right (by omega)]
    by_cases hhead : source.head? = some 47
    · refine iff_of_false (fun h => ?_) (not_not.mpr hhead)
      obtain ⟨r, dest, hrun⟩ := h.returns
      match source with
      | c :: rest =>
        obtain rfl := Option.some.inj hhead
        cases (decodeURL_negative hsrc hneg).symm.trans hrun
    · have hrun := decodeURL_refused hsrc hhead
      refine iff_of_true ⟨⟨_, _, hrun _ _⟩, fun h hr => ?_, fun h hr => ?_⟩ hhead
      all_goals
        cases (hrun _ _).symm.trans h
        exact absurd hr (by decide)
  · obtain ⟨size, rfl⟩ := Int.eq_ofNat_of_zero_le (not_lt.mp hneg)
    rw [Int.toNat_natCast] at hdest
    exact iff_of_true (decodeURL_bounded hsrc hdest) (.inl (by omega))

/-- Both functions stay inside of the destination exactly when no escape of two digits fills it
to its end, and no character is stored at a negative length. -/
theorem urlTranslator_bounded_iff (hsrc : source.length = inSrcLen.toNat)
    (hdest : ioDest.length = inDestLen.toNat) :
    (Bounded encodeURL source inSrcLen ioDest inDestLen ↔ EncodeStays source inDestLen) ∧
      (Bounded decodeURL source inSrcLen ioDest inDestLen ↔ DecodeStays source inDestLen) :=
  ⟨encodeURL_bounded_iff hsrc hdest, decodeURL_bounded_iff hsrc hdest⟩

theorem urlTranslator_bounded_iff_dots :
    (Bounded encodeURL (ascii "/./a b") 6 (List.replicate 8 0) 8 ↔
        EncodeStays (ascii "/./a b") 8) ∧
      (Bounded decodeURL (ascii "/./a b") 6 (List.replicate 8 0) 8 ↔
        DecodeStays (ascii "/./a b") 8) :=
  urlTranslator_bounded_iff (by decide) (by decide)

/-- Three bytes hold the escape of a blank, and its terminator is written behind them. -/
theorem blank_not_bounded : ¬ Bounded encodeURL [32] 1 [0, 0, 0] 3 := by
  have hsrc : ([32] : Bytes).length = (1 : Int).toNat := rfl
  have heq : encodeURL [32] 1 [0, 0, 0] (3 : Nat) = StringTranslator.encodeURL [32] [0, 0, 0] 3 :=
    encodeURL_eq hsrc
  have hfull : encodeURL [32] 1 [0, 0, 0] 3 = none := heq.trans (by decide)
  intro h
  obtain ⟨r, dest, hrun⟩ := h.returns
  cases hfull.symm.trans hrun

end Pointer

end CxxFramework.Core.StringTranslator
