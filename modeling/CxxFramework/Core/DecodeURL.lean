import CxxFramework.Core.StringTranslator
import CxxFramework.Library.DotSegments

/-!
# What `DecodeURL` makes of a URL

The characters of a source are single bytes and escapes. While the path is decoded, the
destination holds what is written of the path read so far: its closed segments without the
dot segments, and the open segment. What an earlier step back has left behind that is dots.

A query follows the path unchanged. The dots that end a path are taken off the end of the
output, so a query loses its end to them.
-/

namespace CxxFramework.Core.StringTranslator

open Buffer DotSegments

/-! ## The characters of a source -/

/-- The bytes of the source that stand for one character. -/
inductive IsChar : Bytes → UInt8 → Prop
  | raw {c : UInt8} : c ≠ 37 → c ≠ 0 → IsChar [c] c
  | escape {high low h l : UInt8} : hexDigit high = some h → hexDigit low = some l →
      IsChar [37, high, low] (h * 16 + l)

/-- A source that does not start with a character. -/
inductive Broken : Bytes → Prop
  | zero (src : Bytes) : Broken (0 :: src)
  | short {src : Bytes} : src.length < 2 → Broken (37 :: src)
  | badHigh {high : UInt8} (low : UInt8) (src : Bytes) : hexDigit high = none →
      Broken (37 :: high :: low :: src)
  | badLow {low : UInt8} (high : UInt8) (src : Bytes) : hexDigit low = none →
      Broken (37 :: high :: low :: src)

/-- The source with its escapes resolved, if there is no broken escape and no zero in it. -/
def unescape : Bytes → Option Bytes
  | [] => some []
  | c :: src =>
    if c = 37 then
      match src with
      | high :: low :: rest =>
        match hexDigit high, hexDigit low with
        | some high, some low => (unescape rest).map ((high * 16 + low) :: ·)
        | _, _ => none
      | _ => none
    else if c = 0 then none
    else (unescape src).map (c :: ·)

variable {src front rest path tail e q p ioDest dest' : Bytes} {c : UInt8} {d : Decoder}
  {inDestLen high : Nat} {r : Int}

theorem source_cases (src : Bytes) :
    src = [] ∨ Broken src ∨ ∃ e c rest, src = e ++ rest ∧ IsChar e c := by
  match src with
  | [] => exact .inl rfl
  | c :: src =>
    refine .inr ?_
    by_cases hpercent : c = 37
    · subst hpercent
      match src with
      | [] => exact .inl (.short (by decide))
      | [high] => exact .inl (.short (by simp))
      | high :: low :: rest =>
        cases hhigh : hexDigit high with
        | none => exact .inl (.badHigh low rest hhigh)
        | some h =>
          cases hlow : hexDigit low with
          | none => exact .inl (.badLow high rest hlow)
          | some l => exact .inr ⟨_, _, rest, rfl, .escape hhigh hlow⟩
    · by_cases hzero : c = 0
      · exact .inl (hzero ▸ .zero src)
      · exact .inr ⟨[c], c, src, rfl, .raw hpercent hzero⟩

theorem IsChar.length_pos (he : IsChar e c) : 0 < e.length := by cases he <;> simp

theorem unescape_char (he : IsChar e c) (rest : Bytes) :
    unescape (e ++ rest) = (unescape rest).map (c :: ·) := by
  cases he with
  | raw hpercent hzero =>
    rw [List.singleton_append, unescape.eq_def]
    simp [hpercent, hzero]
  | escape hhigh hlow => simp [unescape, hhigh, hlow]

theorem Broken.unescape (h : Broken src) : unescape src = none := by
  cases h with
  | zero src =>
    rw [StringTranslator.unescape.eq_def]
    simp
  | @short src hlen =>
    match src with
    | [] => rfl
    | [high] => rfl
    | high :: low :: rest =>
      simp only [List.length_cons] at hlen
      omega
  | @badHigh high low src hhigh => simp [StringTranslator.unescape, hhigh]
  | @badLow low high src hlow =>
    cases hhigh : hexDigit high <;> simp [StringTranslator.unescape, hhigh, hlow]

/-- The start of a source that does not start with a character does not either. -/
theorem Broken.start (h : Broken src) (hpre : front <+: src) (hne : front ≠ []) : Broken front := by
  obtain ⟨back, rfl⟩ := hpre
  generalize hsrc : front ++ back = src at h
  match front with
  | [] => exact absurd rfl hne
  | [c] =>
    cases h <;> obtain ⟨rfl, -⟩ := List.cons.inj hsrc
    · exact .zero []
    all_goals exact .short (by simp)
  | [c, high] =>
    cases h <;> obtain ⟨rfl, -⟩ := List.cons.inj hsrc
    · exact .zero _
    all_goals exact .short (by simp)
  | c :: high :: low :: front =>
    cases h with
    | zero src =>
      obtain ⟨rfl, -⟩ := List.cons.inj hsrc
      exact .zero _
    | short hlen =>
      obtain ⟨-, rfl⟩ := List.cons.inj hsrc
      simp only [List.append_eq, List.length_append, List.length_cons] at hlen
      omega
    | badHigh _ _ hhigh =>
      cases hsrc
      exact .badHigh _ _ hhigh
    | badLow _ _ hlow =>
      cases hsrc
      exact .badLow _ _ hlow

/-- A start of the source that is made of whole characters. -/
theorem IsChar.start (he : IsChar e c) (hpre : front <+: e ++ rest)
    (hfront : unescape front = some q) :
    (front = [] ∧ q = []) ∨ ∃ front' q', front = e ++ front' ∧ front' <+: rest ∧
      q = c :: q' ∧ unescape front' = some q' := by
  obtain ⟨back, hback⟩ := hpre
  by_cases hlen : front.length < e.length
  · left
    cases he with
    | raw hpercent hzero =>
      obtain rfl : front = [] := by simpa using hlen
      exact ⟨rfl, (Option.some.inj hfront).symm⟩
    | escape hhigh hlow =>
      match front with
      | [] => exact ⟨rfl, (Option.some.inj hfront).symm⟩
      | [a] =>
        obtain ⟨rfl, -⟩ := List.cons.inj hback
        cases hfront
      | [a, b] =>
        obtain ⟨rfl, -⟩ := List.cons.inj hback
        cases hfront
      | _ :: _ :: _ :: _ => simp at hlen; omega
  · right
    obtain ⟨front', rfl⟩ : ∃ front', front = e ++ front' := by
      have hpre : e <+: front := List.prefix_of_prefix_length_le
        ⟨rest, hback.symm⟩ ⟨back, rfl⟩ (not_lt.mp hlen)
      obtain ⟨front', h⟩ := hpre
      exact ⟨front', h.symm⟩
    rw [unescape_char he] at hfront
    obtain ⟨q', hq', rfl⟩ := Option.map_eq_some_iff.mp hfront
    rw [List.append_assoc] at hback
    exact ⟨front', q', rfl, ⟨back, List.append_cancel_left hback⟩, rfl, hq'⟩

/-- A character of a source is in the path or in the query. -/
theorem IsChar.inPath (he : IsChar e c) (hsplit : path ++ tail = e ++ rest) (hne : path ≠ [])
    (htail : tail = [] ∨ tail.head? = some 63) :
    ∃ path', path = e ++ path' ∧ rest = path' ++ tail := by
  by_cases hlen : path.length < e.length
  · exfalso
    cases he with
    | raw =>
      simp at hlen
      exact hne hlen
    | @escape high low h l hhigh hlow =>
      have hquery : hexDigit 63 = none := by decide
      match path with
      | [] => exact hne rfl
      | [a] =>
        obtain ⟨-, rfl⟩ := List.cons.inj hsplit
        simp at htail
        rw [htail, hquery] at hhigh
        cases hhigh
      | [a, b] =>
        obtain ⟨-, hsplit⟩ := List.cons.inj hsplit
        obtain ⟨-, rfl⟩ := List.cons.inj hsplit
        simp at htail
        rw [htail, hquery] at hlow
        cases hlow
      | _ :: _ :: _ :: _ => simp at hlen; omega
  · have hpre : e <+: path := List.prefix_of_prefix_length_le
      ⟨rest, rfl⟩ ⟨tail, hsplit⟩ (not_lt.mp hlen)
    obtain ⟨path', rfl⟩ := hpre
    rw [List.append_assoc] at hsplit
    exact ⟨path', rfl, (List.append_cancel_left hsplit).symm⟩

/-! ## One round of the loop -/

theorem decodeURLLoop_char (inDestLen : Nat) (he : IsChar e c) (rest : Bytes) (d : Decoder) :
    decodeURLLoop inDestLen (e ++ rest) d =
      if d.theLengthWritten = inDestLen then some (OS_NotEnoughSpace, d.dest)
      else ({ d with inQuery := d.inQuery || e.head? == some 63 }.putChar c).bind
        (decodeURLLoop inDestLen rest ·) := by
  cases he with
  | raw hpercent hzero => simp [decodeURLLoop, hpercent, hzero]
  | escape hhigh hlow => simp [decodeURLLoop, hhigh, hlow]

theorem decodeURLLoop_broken (inDestLen : Nat) (h : Broken src) (d : Decoder) :
    ∃ err < 0, decodeURLLoop inDestLen src d = some (err, d.dest) := by
  rw [decodeURLLoop.eq_def]
  by_cases hfull : d.theLengthWritten = inDestLen
  · refine ⟨OS_NotEnoughSpace, by decide, ?_⟩
    cases h <;> simp [hfull]
  · refine ⟨OS_BadURLFormat, by decide, ?_⟩
    cases h with
    | zero src => simp [hfull]
    | @short src hlen =>
      match src with
      | [] => simp [hfull]
      | [high] => simp [hfull]
      | high :: low :: rest =>
        simp only [List.length_cons] at hlen
        omega
    | badHigh _ _ hhigh => simp [hfull, hhigh]
    | @badLow low high src hlow => cases hhigh : hexDigit high <;> simp [hfull, hhigh, hlow]

/-! ## The path -/

/-- The dots of a segment that is dots only. -/
def dotCount (seg : Bytes) : Nat := if ∀ c ∈ seg, c = 46 then seg.length else 0

theorem eq_replicate_dotCount {seg : Bytes} (h : 0 < dotCount seg) :
    seg = List.replicate (dotCount seg) 46 := by
  unfold dotCount at h ⊢
  split_ifs at h ⊢ with hdots
  · exact List.eq_replicate_of_mem hdots
  · omega

theorem isDots_iff (seg : Bytes) : IsDots 46 seg ↔ 0 < dotCount seg ∧ dotCount seg ≤ 2 := by
  constructor
  · rintro (rfl | rfl) <;> decide
  · rintro ⟨hpos, hle⟩
    have hseg := eq_replicate_dotCount hpos
    obtain h | h : dotCount seg = 1 ∨ dotCount seg = 2 := by omega
    · exact .inl (by rw [hseg, h]; rfl)
    · exact .inr (by rw [hseg, h]; rfl)

theorem dotCount_concat (seg : Bytes) (c : UInt8) :
    dotCount (seg ++ [c]) = if c = 46 ∧ dotCount seg = seg.length then seg.length + 1 else 0 := by
  have hall : (∀ x ∈ seg ++ [c], x = 46) ↔ (∀ x ∈ seg, x = 46) ∧ c = 46 := by
    rw [List.forall_mem_append, List.forall_mem_singleton]
  have hcount : dotCount seg = seg.length ↔ ∀ x ∈ seg, x = 46 := by
    unfold dotCount
    split_ifs with hdots
    · exact iff_of_true rfl hdots
    · refine iff_of_false (fun hzero => hdots ?_) hdots
      simp [List.length_eq_zero_iff.mp hzero.symm]
  exact if_congr (hall.trans (by rw [hcount, and_comm])) (List.length_append ..) rfl

/-- What `DecodeURL` has read of a path. -/
abbrev readPath (q : Bytes) : Walk UInt8 := Walk.read 47 46 q

/-- What stands from the position `n` on of a destination that was written to up to `high`:
the dots of steps back, and what it held at first. -/
def stale (ioDest : Bytes) (high n : Nat) : Bytes :=
  List.replicate (high - n) 46 ++ ioDest.drop high

theorem stale_cons {n : Nat} (hle : n ≤ high) (hroom : n < ioDest.length) :
    ∃ x, stale ioDest high n = x :: stale ioDest (max high (n + 1)) (n + 1) := by
  unfold stale
  rcases Nat.eq_or_lt_of_le hle with rfl | hlt
  · refine ⟨ioDest[n], ?_⟩
    rw [Nat.max_eq_right (Nat.le_succ n), Nat.sub_self, Nat.sub_self]
    exact List.drop_eq_getElem_cons hroom
  · refine ⟨46, ?_⟩
    obtain ⟨m, rfl⟩ := Nat.exists_eq_add_of_lt hlt
    rw [Nat.max_eq_left (by omega), show n + m + 1 - n = m + 1 by omega,
      show n + m + 1 - (n + 1) = m by omega]
    rfl

theorem stale_back {n m : Nat} (h : n + m ≤ high) :
    List.replicate m 46 ++ stale ioDest high (n + m) = stale ioDest high n := by
  unfold stale
  rw [← List.append_assoc, List.replicate_append_replicate, show m + (high - (n + m)) = high - n by
    omega]

/-- The decoder once the path `q` is read: the destination holds what is written of it. -/
structure Decodes (ioDest : Bytes) (d : Decoder) (q : Bytes) (high : Nat) : Prop where
  dest : d.dest = written 47 46 q ++ stale ioDest high (written 47 46 q).length
  len : d.theLengthWritten = (written 47 46 q).length
  le : (written 47 46 q).length ≤ high
  fits : high ≤ ioDest.length
  dots : d.numDotChars = dotCount (openSegment 47 q)
  path : d.inQuery = false

theorem Decodes.start (ioDest : Bytes) : Decodes ioDest { dest := ioDest } [] 0 where
  dest := rfl
  len := rfl
  le := Nat.le_refl _
  fits := Nat.zero_le _
  dots := rfl
  path := rfl

theorem Decodes.length_dest (hd : Decodes ioDest d q high) : d.dest.length = ioDest.length := by
  have hle := hd.le
  have hfits := hd.fits
  rw [hd.dest]
  simp only [stale, List.length_append, List.length_replicate, List.length_drop]
  omega

/-- The byte in front of the output position. -/
theorem Decodes.before (hd : Decodes ioDest d (47 :: q) high) :
    d.dest.getD (d.theLengthWritten - 1) 0 = (openSegment 47 (47 :: q)).getLastD 47 := by
  obtain ⟨k, hk⟩ := Walk.read_kept 47 (46 : UInt8) q
  have hwritten := Walk.written_eq 47 (46 : UInt8) (47 :: q)
  rw [hk] at hwritten
  rw [hd.dest, hd.len, hwritten]
  generalize openSegment 47 (47 :: q) = seg
  induction seg using List.reverseRecOn with
  | nil => simp
  | append_singleton seg c _ => simp

/-- The dots are counted from the last separator on. -/
theorem Decodes.countDots (hd : Decodes ioDest d (47 :: q) high) (c : UInt8) (hc : c ≠ 47) :
    d.countDots c = dotCount (openSegment 47 (47 :: q ++ [c])) := by
  rw [openSegment_concat, if_neg hc, dotCount_concat]
  unfold Decoder.countDots
  rw [hd.before, hd.dots]
  by_cases hdot : c = 46
  · have hlast : ∀ x ∈ openSegment 47 (47 :: q), x ≠ 47 := by
      intro x hx
      simpa using List.mem_rtakeWhile_imp hx
    generalize openSegment 47 (47 :: q) = seg at hlast
    rcases Nat.eq_zero_or_pos (dotCount seg) with hzero | hpos
    · cases seg using List.reverseRecOn with
      | nil => simp [hdot, hzero]
      | append_singleton seg x =>
        have hx := hlast x (by simp)
        simp [hdot, hzero, hx]
    · have hseg := eq_replicate_dotCount hpos
      obtain ⟨n, hn⟩ := Nat.exists_eq_succ_of_ne_zero hpos.ne'
      have hlen : seg.length = n + 1 := by rw [hseg, hn, List.length_replicate]
      have hbefore : seg.getLast?.getD 47 = 46 := by
        rw [hseg, hn, List.replicate_succ']
        simp
      simp [hdot, hn, hlen, hbefore]
  · simp [hdot]

theorem Decodes.countDots_concat (hd : Decodes ioDest d q high) {c : UInt8}
    (hq : (q ++ [c]).head? = some 47) : d.countDots c = dotCount (openSegment 47 (q ++ [c])) := by
  by_cases hc : c = 47
  · rw [openSegment_concat, if_pos hc]
    simp [Decoder.countDots, hc, dotCount]
  · match q with
    | [] => exact absurd (Option.some.inj hq) hc
    | a :: q =>
      obtain rfl := Option.some.inj hq
      exact hd.countDots c hc

/-- A slash behind dots takes the output back to the last slash that is kept. -/
theorem Decodes.putChar_slash (hd : Decodes ioDest d q high)
    (hdots : IsDots 46 (openSegment 47 q)) (hq : (q ++ [47]).head? = some 47) :
    (written 47 46 (q ++ [47])).length ≤ ioDest.length ∧
      ∃ d', d.putChar 47 = some d' ∧
        Decodes ioDest d' (q ++ [47]) (max high (written 47 46 (q ++ [47])).length) := by
  have hle := hd.le
  have hfits := hd.fits
  have hconcat : written 47 46 (q ++ [47]) = (readPath q).kept := by
    rw [Walk.written_concat, if_pos ⟨rfl, hdots⟩]
  have hcount := (isDots_iff _).mp hdots
  have hseg := eq_replicate_dotCount hcount.1
  obtain ⟨k, hk⟩ : ∃ k, (readPath q).kept = k ++ [47] := by
    match q with
    | [] => exact absurd hdots not_isDots_nil
    | a :: q =>
      obtain rfl := Option.some.inj hq
      exact Walk.read_kept 47 46 q
  have hwritten : written 47 46 q = k ++ 47 :: openSegment 47 q := by
    rw [Walk.written_eq, hk]
    simp
  rw [← hd.dots] at hcount hseg
  have hlen : (written 47 46 q).length = k.length + 1 + d.numDotChars := by
    rw [hwritten, hseg]
    simp
    omega
  have hpos : d.theLengthWritten = k.length + (d.numDotChars + 1) := by
    rw [hd.len]
    omega
  have hdest : d.dest = k ++ 47 :: stale ioDest high (k.length + 1) := by
    rw [hd.dest, hlen, hwritten, hseg, List.append_assoc, List.cons_append, stale_back (by omega)]
  have hstep : d.putChar 47 = some
      { d with
        numDotChars := 0
        theLengthWritten := k.length + 1 } := by
    have hquery : ¬ d.inQuery = true := by simp [hd.path]
    have hback : ¬ d.theLengthWritten < d.numDotChars + 1 := by omega
    have hsub : d.theLengthWritten - (d.numDotChars + 1) = k.length := by omega
    have hwrite : write d.dest k.length [47] = some d.dest := by rw [hdest, write_append_cons]
    simp only [Decoder.putChar, if_neg hquery, true_and, if_pos hcount, if_neg hback, hsub,
      hwrite]
    rfl
  rw [hstep, hconcat, hk, List.length_append, List.length_singleton]
  refine ⟨by omega, _, rfl, ?_⟩
  exact
    { dest := by simp [hdest, hconcat, hk, Nat.max_eq_left (show k.length + 1 ≤ high by omega)]
      len := by simp [hconcat, hk]
      le := by simp [hconcat, hk]
      fits := by simp; omega
      dots := by simp [openSegment_concat, dotCount]
      path := hd.path }

/-- Any other character is written behind the output. -/
theorem Decodes.putChar_other (hd : Decodes ioDest d q high) (c : UInt8)
    (hback : ¬ (c = 47 ∧ IsDots 46 (openSegment 47 q))) (hq : (q ++ [c]).head? = some 47) :
    if (written 47 46 (q ++ [c])).length ≤ ioDest.length then
      ∃ d', d.putChar c = some d' ∧
        Decodes ioDest d' (q ++ [c]) (max high (written 47 46 (q ++ [c])).length)
    else d.putChar c = none := by
  have hle := hd.le
  have hfits := hd.fits
  have hconcat : written 47 46 (q ++ [c]) = written 47 46 q ++ [c] := by
    rw [Walk.written_concat, if_neg hback]
  have hcount : ¬ (c = 47 ∧ 0 < d.numDotChars ∧ d.numDotChars ≤ 2) := by
    rwa [hd.dots, ← isDots_iff]
  have hstep : d.putChar c = (write d.dest d.theLengthWritten [c]).map fun dest =>
      { d with
        dest
        numDotChars := d.countDots c
        theLengthWritten := d.theLengthWritten + 1 } := by
    have hquery : ¬ d.inQuery = true := by simp [hd.path]
    simp only [Decoder.putChar, if_neg hquery, if_neg hcount]
    rfl
  rw [hstep, hconcat, List.length_append, List.length_singleton]
  split_ifs with hroom
  · obtain ⟨x, hx⟩ := stale_cons hle hroom
    rw [hd.dest, hd.len, hx, write_append_cons]
    refine ⟨_, rfl, ?_⟩
    exact
      { dest := by simp [hconcat]
        len := by simp [hconcat]
        le := by simp [hconcat]
        fits := by simpa using ⟨hfits, hroom⟩
        dots := hd.countDots_concat hq
        path := hd.path }
  · have hend : d.theLengthWritten = d.dest.length := by
      rw [hd.len, hd.length_dest]
      omega
    rw [hend, write_length]
    rfl

/-- One character more of the path. -/
theorem Decodes.putChar (hd : Decodes ioDest d q high) (c : UInt8)
    (hq : (q ++ [c]).head? = some 47) :
    if (written 47 46 (q ++ [c])).length ≤ ioDest.length then
      ∃ d', d.putChar c = some d' ∧
        Decodes ioDest d' (q ++ [c]) (max high (written 47 46 (q ++ [c])).length)
    else d.putChar c = none := by
  by_cases hback : c = 47 ∧ IsDots 46 (openSegment 47 q)
  · obtain ⟨rfl, hdots⟩ := hback
    obtain ⟨hroom, hput⟩ := hd.putChar_slash hdots hq
    rwa [if_pos hroom]
  · exact hd.putChar_other c hback hq

/-- `high` is the length of the longest text that is written while `q` is read. -/
structure Highest (q : Bytes) (high : Nat) : Prop where
  le : ∀ q', q' <+: q → (written 47 46 q').length ≤ high
  reached : ∃ q', q' <+: q ∧ (written 47 46 q').length = high

theorem Highest.start : Highest [] 0 where
  le := fun q' h => by simp [List.prefix_nil.mp h, written, dropDots]
  reached := ⟨[], List.prefix_rfl, rfl⟩

theorem Highest.concat (h : Highest q high) (c : UInt8) :
    Highest (q ++ [c]) (max high (written 47 46 (q ++ [c])).length) where
  le := by
    intro q' hpre
    rcases List.prefix_concat_iff.mp hpre with rfl | hpre
    · exact le_max_right _ _
    · exact (h.le q' hpre).trans (le_max_left _ _)
  reached := by
    rcases le_total high (written 47 46 (q ++ [c])).length with hle | hle
    · exact ⟨q ++ [c], List.prefix_rfl, (max_eq_right hle).symm⟩
    · obtain ⟨q', hpre, hq'⟩ := h.reached
      exact ⟨q', hpre.trans (List.prefix_append _ _), hq'.trans (max_eq_left hle).symm⟩

/-- The dots at the end of a path are taken off by the length only. -/
theorem length_stripDots (q : Bytes) :
    ((written 47 46 q).length : Int) -
      (if dotCount (openSegment 47 q) ≤ 2 then dotCount (openSegment 47 q) else 0 : Nat) =
      (stripDots 47 46 q).length := by
  rw [← Walk.strip_read, Walk.written_eq, Walk.seg_read, List.length_append, List.length_append]
  generalize openSegment 47 q = seg
  by_cases hdots : IsDots 46 seg
  · obtain ⟨hpos, hle⟩ := (isDots_iff seg).mp hdots
    have hlen := congrArg List.length (eq_replicate_dotCount hpos)
    rw [List.length_replicate] at hlen
    simp only [stripLast, if_pos hdots, if_pos hle, List.length_nil]
    omega
  · have hstrip : (if dotCount seg ≤ 2 then dotCount seg else 0) = 0 := by
      split_ifs with hle
      · by_contra hpos
        exact hdots ((isDots_iff seg).mpr ⟨Nat.pos_of_ne_zero hpos, hle⟩)
      · rfl
    simp only [stripLast, if_neg hdots, hstrip]
    omega

/-- The first character of a path is its first byte. -/
theorem IsChar.head (he : IsChar e c) (hq : (q ++ (e ++ rest)).head? = some 47) :
    (q ++ [c]).head? = some 47 := by
  match q with
  | [] =>
    cases he with
    | raw => exact hq
    | escape => simp at hq
  | _ :: _ => exact hq

/-- A path that is decoded without an error, whatever follows it. -/
theorem decodeURLLoop_path (hpath : 63 ∉ path) (htail : tail = [] ∨ tail.head? = some 63)
    (hd : Decodes ioDest d q high) (hh : Highest q high) (hq : (q ++ path).head? = some 47)
    (hloop : decodeURLLoop inDestLen (path ++ tail) d = some (r, dest')) (hr : 0 ≤ r) :
    ∃ p d' high', unescape path = some p ∧ Decodes ioDest d' (q ++ p) high' ∧
      Highest (q ++ p) high' ∧ decodeURLLoop inDestLen tail d' = some (r, dest') := by
  induction hn : path.length using Nat.strongRecOn generalizing path d q high with
  | _ n ih =>
    by_cases hnil : path = []
    · subst hnil
      exact ⟨[], d, high, rfl, by rwa [List.append_nil], by rwa [List.append_nil], hloop⟩
    rcases source_cases (path ++ tail) with hempty | hbroken | ⟨e, c, rest, hsplit, he⟩
    · exact absurd (List.append_eq_nil_iff.mp hempty).1 hnil
    · obtain ⟨err, hneg, herr⟩ := decodeURLLoop_broken inDestLen hbroken d
      cases herr.symm.trans hloop
      omega
    · obtain ⟨path, rfl, rfl⟩ := he.inPath hsplit hnil htail
      have hraw : (e.head? == some 63) = false :=
        beq_eq_false_iff_ne.mpr fun h => hpath (List.mem_append_left _ (List.mem_of_head? h))
      rw [hsplit, decodeURLLoop_char inDestLen he, hraw, Bool.or_false] at hloop
      split_ifs at hloop with hfull
      · cases hloop
        exact absurd hr (by decide)
      · obtain ⟨d', hput, hloop⟩ := Option.bind_eq_some_iff.mp hloop
        have hstep := hd.putChar c (he.head hq)
        split_ifs at hstep
        · obtain ⟨d'', hput', hd'⟩ := hstep
          cases hput.symm.trans hput'
          have hpos := he.length_pos
          rw [List.length_append] at hn
          obtain ⟨p, d'', high', hp, hd'', hh'', hloop⟩ := ih path.length (by omega)
            (fun hmem => hpath (List.mem_append_right _ hmem)) hd' (hh.concat c)
            (by rw [List.head?_append, he.head hq]; rfl) hloop rfl
          refine ⟨c :: p, d'', high', ?_, ?_, ?_, hloop⟩
          · rw [unescape_char he, hp]
            rfl
          · simpa using hd''
          · simpa using hh''
        · cases hstep.symm.trans hput

/-- The end of the source. -/
theorem decodeURLLoop_end (inDestLen : Nat) (hd : Decodes ioDest d q high)
    (hloop : decodeURLLoop inDestLen [] d = some (r, dest')) :
    dest' = d.dest ∧ r = (stripDots 47 46 q).length := by
  rw [← length_stripDots, ← hd.dots, ← hd.len]
  cases hloop
  exact ⟨rfl, rfl⟩

theorem decodeURLLoop_question (src : Bytes) (d : Decoder) :
    decodeURLLoop inDestLen (63 :: src) d =
      decodeURLLoop inDestLen (63 :: src) { d with inQuery := true } := by
  have hchar : IsChar [63] 63 := .raw (by decide) (by decide)
  have hleft := decodeURLLoop_char inDestLen hchar src d
  have hright := decodeURLLoop_char inDestLen hchar src { d with inQuery := true }
  rw [List.singleton_append] at hleft hright
  simp only [hleft, hright, List.head?_cons, beq_self_eq_true, Bool.or_true]

/-- The query is copied behind the path. -/
theorem decodeURLLoop_query (hquery : d.inQuery = true)
    (hloop : decodeURLLoop inDestLen src d = some (r, dest')) (hr : 0 ≤ r) :
    ∃ query, unescape src = some query ∧
      dest'.take (d.theLengthWritten + query.length) = d.dest.take d.theLengthWritten ++ query ∧
      r = (d.theLengthWritten + query.length : Nat) -
        (if d.numDotChars ≤ 2 then d.numDotChars else 0 : Nat) := by
  induction hn : src.length using Nat.strongRecOn generalizing src d with
  | _ n ih =>
    rcases source_cases src with rfl | hbroken | ⟨e, c, rest, rfl, he⟩
    · cases hloop
      exact ⟨[], rfl, by simp, rfl⟩
    · obtain ⟨err, hneg, herr⟩ := decodeURLLoop_broken inDestLen hbroken d
      cases herr.symm.trans hloop
      omega
    · rw [decodeURLLoop_char inDestLen he, hquery, Bool.true_or] at hloop
      split_ifs at hloop
      · cases hloop
        exact absurd hr (by decide)
      · obtain ⟨d', hput, hloop⟩ := Option.bind_eq_some_iff.mp hloop
        obtain ⟨dest, hwrite, rfl⟩ := Option.map_eq_some_iff.mp hput
        have hpos := he.length_pos
        rw [List.length_append] at hn
        obtain ⟨query, hq, htake, hr'⟩ := ih rest.length (by omega) rfl hloop rfl
        refine ⟨c :: query, ?_, ?_, ?_⟩
        · rw [unescape_char he, hq]
          rfl
        · rw [List.length_cons, Nat.add_comm query.length, ← Nat.add_assoc, htake]
          have hfront := take_write hwrite
          rw [List.length_singleton] at hfront
          rw [hfront, List.append_assoc, List.singleton_append]
        · rw [hr', List.length_cons]
          dsimp only
          omega

/-! ## The output -/

theorem decodeURL_head (h : decodeURL src ioDest inDestLen = some (r, dest')) (hr : 0 ≤ r) :
    src.head? = some 47 := by
  by_contra hhead
  have hbad : decodeURL src ioDest inDestLen = some (OS_BadURLFormat, ioDest) := if_neg hhead
  cases hbad.symm.trans h
  exact absurd hr (by decide)

theorem unescape_head (hhead : src.head? = some 47) (h : unescape src = some p) :
    ∃ rest, p = 47 :: rest := by
  cases src with
  | nil => cases hhead
  | cons c src =>
    obtain rfl := Option.some.inj hhead
    have hchar : IsChar [47] 47 := .raw (by decide) (by decide)
    have hcons := unescape_char hchar src
    rw [List.singleton_append, h] at hcons
    obtain ⟨rest, -, rfl⟩ := Option.map_eq_some_iff.mp hcons.symm
    exact ⟨rest, rfl⟩

/-- A path that is accepted. -/
theorem decodeURL_path (hpath : 63 ∉ src) (h : decodeURL src ioDest inDestLen = some (r, dest'))
    (hr : 0 ≤ r) :
    ∃ p d high, unescape src = some p ∧ Decodes ioDest d p high ∧ Highest p high ∧
      dest' = d.dest ∧ r = (stripDots 47 46 p).length := by
  unfold decodeURL at h
  split_ifs at h with hhead
  · rw [← List.append_nil src] at h
    obtain ⟨p, d, high, hp, hd, hh, hloop⟩ := decodeURLLoop_path hpath (.inl rfl)
      (Decodes.start ioDest) Highest.start hhead h hr
    obtain ⟨hdest, hlen⟩ := decodeURLLoop_end inDestLen hd hloop
    exact ⟨p, d, high, hp, hd, hh, hdest, hlen⟩
  · cases h
    exact absurd hr (by decide)

theorem exists_query (h : 63 ∈ src) : ∃ query, src.dropWhile (· != 63) = 63 :: query := by
  have hne : src.dropWhile (· != 63) ≠ [] := fun hnil => by
    simpa using List.dropWhile_eq_nil_iff.mp hnil 63 h
  obtain ⟨c, query, hc⟩ := List.exists_cons_of_ne_nil hne
  have hfirst := List.head_dropWhile_not (· != 63) hne
  simp only [hc, List.head_cons] at hfirst
  exact ⟨query, by rw [hc]; simpa using hfirst⟩

theorem dropWhile_of_no_query (h : 63 ∉ src) : src.dropWhile (· != 63) = [] :=
  List.dropWhile_eq_nil_iff.mpr fun c hc => by simpa using ne_of_mem_of_not_mem hc h

/-- A URL that is accepted: the path as it is written, then the query. -/
theorem decodeURL_accepts (h : decodeURL src ioDest inDestLen = some (r, dest')) (hr : 0 ≤ r) :
    ∃ p query, unescape (src.takeWhile (· != 63)) = some p ∧
      unescape (src.dropWhile (· != 63)) = some query ∧
      dest'.take ((written 47 46 p).length + query.length) = written 47 46 p ++ query ∧
      r = (stripDots 47 46 p).length + query.length := by
  have hpath : 63 ∉ src.takeWhile (· != 63) := fun hmem => by
    simpa using List.mem_takeWhile_imp hmem
  by_cases hquery : 63 ∈ src
  · obtain ⟨query, htail⟩ := exists_query hquery
    unfold decodeURL at h
    split_ifs at h with hhead
    · rw [← List.takeWhile_append_dropWhile (p := (· != 63)) (l := src), htail] at h
      have hhead' : (src.takeWhile (· != 63)).head? = some 47 := by
        obtain ⟨rest, rfl⟩ : ∃ rest, src = 47 :: rest := by
          cases src with
          | nil => cases hhead
          | cons c rest => exact ⟨rest, by rw [Option.some.inj hhead]; rfl⟩
        simp
      obtain ⟨p, d, high, hp, hd, -, hloop⟩ := decodeURLLoop_path hpath (.inr rfl)
        (Decodes.start ioDest) Highest.start hhead' h hr
      rw [decodeURLLoop_question] at hloop
      obtain ⟨cs, hcs, htake, hlen⟩ := decodeURLLoop_query rfl hloop hr
      refine ⟨p, cs, hp, by rw [htail, hcs], ?_, ?_⟩
      · simp only [hd.len, hd.dest, List.nil_append, List.take_left] at htake
        exact htake
      · have hstrip := length_stripDots p
        simp only [hd.len, hd.dots, List.nil_append] at hlen
        omega
    · cases h
      exact absurd hr (by decide)
  · have hall : src.takeWhile (· != 63) = src := List.takeWhile_eq_self_iff.mpr fun c hc => by
      simpa using ne_of_mem_of_not_mem hc hquery
    have hnone := dropWhile_of_no_query hquery
    obtain ⟨p, d, high, hp, hd, -, rfl, hlen⟩ := decodeURL_path hquery h hr
    refine ⟨p, [], by rw [hall, hp], by rw [hnone]; rfl, ?_, by simpa using hlen⟩
    rw [hd.dest]
    simp

/-! ## Room in the destination -/

/-- Whatever part of the source is read behind `q`, what is written of it has at most `size`
bytes. -/
def Fits (size : Nat) (q src : Bytes) : Prop :=
  ∀ front q', front <+: src → unescape front = some q' →
    (written 47 46 (q ++ q')).length ≤ size

theorem fits_char {size : Nat} (he : IsChar e c) :
    Fits size q (e ++ rest) ↔ (written 47 46 q).length ≤ size ∧ Fits size (q ++ [c]) rest := by
  constructor
  · intro h
    refine ⟨?_, fun front q' hpre hfront => ?_⟩
    · simpa using h [] [] List.nil_prefix rfl
    · have hchar : unescape (e ++ front) = some (c :: q') := by
        rw [unescape_char he, hfront]
        rfl
      simpa using h (e ++ front) (c :: q') ((List.prefix_append_right_inj e).mpr hpre) hchar
  · rintro ⟨hq, h⟩ front q' hpre hfront
    rcases he.start hpre hfront with ⟨-, rfl⟩ | ⟨front', q', rfl, hpre', rfl, hfront'⟩
    · simpa using hq
    · simpa using h front' q' hpre' hfront'

theorem fits_broken {size : Nat} (hsrc : src = [] ∨ Broken src) :
    Fits size q src ↔ (written 47 46 q).length ≤ size := by
  constructor
  · intro h
    simpa using h [] [] List.nil_prefix rfl
  · intro h front q' hpre hfront
    obtain rfl : front = [] := by
      by_contra hne
      rcases hsrc with rfl | hbroken
      · exact hne (List.prefix_nil.mp hpre)
      · rw [(hbroken.start hpre hne).unescape] at hfront
        cases hfront
    cases hfront
    simpa using h

/-- The loop reads its source to the end, or to the first broken escape, as long as the
destination has room. -/
theorem decodeURLLoop_total (hsrc : 63 ∉ src) (hd : Decodes ioDest d q high)
    (hq : (q ++ src).head? = some 47)
    (hlen : ∀ front q', front <+: src → front ≠ src → unescape front = some q' →
      (written 47 46 (q ++ q')).length ≠ inDestLen) :
    (Fits ioDest.length q src → ∃ r dest', decodeURLLoop inDestLen src d = some (r, dest') ∧
      ((unescape src).isSome → 0 ≤ r)) ∧
    (¬ Fits ioDest.length q src → decodeURLLoop inDestLen src d = none) := by
  have hwritten := hd.le.trans hd.fits
  induction hn : src.length using Nat.strongRecOn generalizing src d q high with
  | _ n ih =>
    rcases source_cases src with rfl | hbroken | ⟨e, c, rest, rfl, he⟩
    · refine ⟨fun _ => ⟨_, _, rfl, fun _ => ?_⟩, fun h => absurd ((fits_broken (.inl rfl)).mpr
        hwritten) h⟩
      obtain ⟨-, hr⟩ := decodeURLLoop_end inDestLen hd rfl
      rw [hr]
      exact Int.natCast_nonneg _
    · obtain ⟨err, -, herr⟩ := decodeURLLoop_broken inDestLen hbroken d
      refine ⟨fun _ => ⟨err, d.dest, herr, fun h => ?_⟩, fun h => absurd ((fits_broken (.inr
        hbroken)).mpr hwritten) h⟩
      rw [hbroken.unescape] at h
      cases h
    · have hpos := he.length_pos
      have hne : e.head? ≠ some 63 := fun h =>
        hsrc (List.mem_append_left _ (List.mem_of_head? h))
      have hfull : d.theLengthWritten ≠ inDestLen := by
        rw [hd.len]
        have hstart : [] ≠ e ++ rest := fun h => by
          rw [List.nil_eq_append_iff] at h
          simp [h.1] at hpos
        simpa using hlen [] [] List.nil_prefix hstart rfl
      rw [decodeURLLoop_char inDestLen he, if_neg hfull, beq_eq_false_iff_ne.mpr hne, Bool.or_false,
        fits_char he]
      have hstep := hd.putChar c (he.head hq)
      split_ifs at hstep with hroom
      · obtain ⟨d', hput, hd'⟩ := hstep
        rw [List.length_append] at hn
        have hlen' : ∀ front q', front <+: rest → front ≠ rest → unescape front = some q' →
            (written 47 46 (q ++ [c] ++ q')).length ≠ inDestLen := by
          intro front q' hpre hne hfront
          have hchar : unescape (e ++ front) = some (c :: q') := by
            rw [unescape_char he, hfront]
            rfl
          simpa using hlen (e ++ front) (c :: q') ((List.prefix_append_right_inj e).mpr hpre)
            (fun h => hne (List.append_cancel_left h)) hchar
        obtain ⟨hfits, hnot⟩ := ih rest.length (by omega)
          (fun h => hsrc (List.mem_append_right _ h)) hd'
          (by rw [List.head?_append, he.head hq]; rfl) hlen' (hd'.le.trans hd'.fits) rfl
        rw [hput, Option.bind_some, and_iff_right hwritten, unescape_char he, Option.isSome_map]
        exact ⟨hfits, hnot⟩
      · rw [hstep]
        refine ⟨fun h => absurd ?_ hroom, fun _ => rfl⟩
        simpa using h.2 [] [] List.nil_prefix rfl

theorem length_unescape_le (h : unescape src = some q) : q.length ≤ src.length := by
  induction hn : src.length using Nat.strongRecOn generalizing src q with
  | _ n ih =>
    rcases source_cases src with rfl | hbroken | ⟨e, c, rest, rfl, he⟩
    · cases h
      exact Nat.zero_le _
    · rw [hbroken.unescape] at h
      cases h
    · rw [unescape_char he] at h
      obtain ⟨q, hq, rfl⟩ := Option.map_eq_some_iff.mp h
      have hpos := he.length_pos
      rw [List.length_append] at hn
      have hle := ih rest.length (by omega) hq rfl
      rw [List.length_cons]
      omega

/-- A source that leaves room for a terminator is read to its end, if the destination has
room. -/
theorem decodeURL_total (ioDest : Bytes) (hsrc : 63 ∉ src) (hlen : src.length < inDestLen) :
    (Fits ioDest.length [] src → ∃ r dest', decodeURL src ioDest inDestLen = some (r, dest') ∧
      (src.head? = some 47 → (unescape src).isSome → 0 ≤ r)) ∧
    (src.head? = some 47 → ¬ Fits ioDest.length [] src →
      decodeURL src ioDest inDestLen = none) := by
  unfold decodeURL
  by_cases hhead : src.head? = some kPathDelimiterChar
  · have hshort : ∀ front q', front <+: src → front ≠ src → unescape front = some q' →
        (written 47 46 ([] ++ q')).length ≠ inDestLen := by
      intro front q' hpre _ hfront
      have hwritten := Walk.length_written_le 47 (46 : UInt8) q'
      have hq := length_unescape_le hfront
      have hfront := hpre.length_le
      rw [List.nil_append]
      omega
    obtain ⟨hfits, hnot⟩ := decodeURLLoop_total hsrc (Decodes.start ioDest) hhead hshort
    rw [if_pos hhead]
    refine ⟨fun h => ?_, fun _ => hnot⟩
    obtain ⟨r, dest', hloop, hr⟩ := hfits h
    exact ⟨r, dest', hloop, fun _ => hr⟩
  · rw [if_neg hhead]
    exact ⟨fun _ => ⟨_, _, rfl, fun h => absurd h hhead⟩, fun h => absurd h hhead⟩

/-! ## Dot segments -/

/-- The output is a path without dot segments, and behind it the query of the source with its
escapes resolved. -/
def Stripped (inSrc output : Bytes) : Prop :=
  ∃ path query, output = path ++ query ∧ NoDots 47 46 path ∧
    unescape (inSrc.dropWhile (· != 63)) = some query

/-- The source has a query, and the path in front of it ends in a dot segment. -/
def DotsAtQuery (inSrc : Bytes) : Prop :=
  63 ∈ inSrc ∧ ∃ path, unescape (inSrc.takeWhile (· != 63)) = some path ∧
    IsDots 46 (openSegment 47 path)

theorem head_query (hsrc : 63 ∈ src)
    (hquery : unescape (src.dropWhile (· != 63)) = some q) : ∃ rest, q = 63 :: rest := by
  obtain ⟨rest, htail⟩ := exists_query hsrc
  have hchar : IsChar [63] 63 := .raw (by decide) (by decide)
  rw [htail, ← List.singleton_append, unescape_char hchar] at hquery
  obtain ⟨rest, -, rfl⟩ := Option.map_eq_some_iff.mp hquery
  exact ⟨rest, rfl⟩

theorem length_stripDots_of_isDots (h : IsDots 46 (openSegment 47 p)) :
    (stripDots 47 46 p).length = (readPath p).kept.length := by
  rw [← Walk.strip_read, Walk.seg_read, stripLast, if_pos h, List.append_nil]

theorem stripDots_of_not_isDots (h : ¬ IsDots 46 (openSegment 47 p)) :
    stripDots 47 46 p = written 47 46 p := by
  rw [← Walk.strip_read, Walk.seg_read, stripLast, if_neg h, Walk.written_eq]

theorem stripDots_isPrefix (p : Bytes) : stripDots 47 46 p <+: written 47 46 p := by
  by_cases hdots : IsDots 46 (openSegment 47 p)
  · rw [← Walk.strip_read, Walk.seg_read, stripLast, if_pos hdots, List.append_nil,
      Walk.written_eq]
    exact List.prefix_append _ _
  · simp only [stripDots_of_not_isDots hdots, List.prefix_rfl]

/-- Behind the dots of the path, the query loses its end to them. -/
theorem not_stripped {inSrc output : Bytes} (hsrc : 63 ∈ inSrc)
    (hquery : unescape (inSrc.dropWhile (· != 63)) = some q)
    (hdots : IsDots 46 (openSegment 47 p)) (hout : output <+: written 47 46 p ++ q)
    (hlen : output.length = (readPath p).kept.length + q.length) : ¬ Stripped inSrc output := by
  rintro ⟨path, query, rfl, -, hquery'⟩
  cases hquery.symm.trans hquery'
  obtain ⟨rest, rfl⟩ := head_query hsrc hquery
  obtain ⟨seg, hseg⟩ : ∃ seg, openSegment 47 p = 46 :: seg := by
    rcases hdots with hseg | hseg
    · exact ⟨[], hseg⟩
    · exact ⟨[46], hseg⟩
  rw [List.length_append, Nat.add_right_cancel_iff] at hlen
  rw [Walk.written_eq, hseg] at hout
  obtain ⟨more, hmore⟩ := hout
  have hpath : (path ++ 63 :: rest ++ more)[path.length]? = some 63 := by simp
  rw [hmore, hlen] at hpath
  simp at hpath

/-- No dot segment is left of a path, but for the one that ends a path with a query. -/
theorem stripped_iff {inSrc : Bytes} (h : decodeURL inSrc ioDest inDestLen = some (r, dest'))
    (hr : 0 ≤ r) : Stripped inSrc (dest'.take r.toNat) ↔ ¬ DotsAtQuery inSrc := by
  obtain ⟨p, query, hp, hquery, htake, rfl⟩ := decodeURL_accepts h hr
  have hnat : ((stripDots 47 46 p).length + query.length : Int).toNat =
      (stripDots 47 46 p).length + query.length := by omega
  have hle := (stripDots_isPrefix p).length_le
  have hout : dest'.take ((stripDots 47 46 p).length + query.length) =
      (written 47 46 p ++ query).take ((stripDots 47 46 p).length + query.length) := by
    rw [← htake, List.take_take, min_eq_left (by omega)]
  rw [hnat, hout]
  by_cases hbad : DotsAtQuery inSrc
  · refine iff_of_false ?_ (not_not.mpr hbad)
    obtain ⟨hsrc, path, hpath, hdots⟩ := hbad
    cases hp.symm.trans hpath
    refine not_stripped hsrc hquery hdots (List.take_prefix _ _) ?_
    rw [List.length_take, List.length_append, ← length_stripDots_of_isDots hdots]
    omega
  · refine iff_of_true ⟨stripDots 47 46 p, query, ?_, noDots_stripDots p, hquery⟩ hbad
    by_cases hdots : IsDots 46 (openSegment 47 p)
    · have hsrc : 63 ∉ inSrc := fun hsrc => hbad ⟨hsrc, p, hp, hdots⟩
      rw [dropWhile_of_no_query hsrc] at hquery
      cases hquery
      rw [List.append_nil, List.append_nil, List.length_nil, Nat.add_zero]
      exact (List.prefix_iff_eq_take.mp (stripDots_isPrefix p)).symm
    · rw [stripDots_of_not_isDots hdots, ← List.length_append, List.take_length]

theorem stripped_iff_dots : Stripped (ascii "/a/./b?c=%2e") (ascii "/a/b?c=.") ↔
    ¬ DotsAtQuery (ascii "/a/./b?c=%2e") := by
  have h : decodeURL (ascii "/a/./b?c=%2e") (List.replicate 12 0) 12 =
      some (8, ascii "/a/b?c=." ++ [0, 0, 0, 0]) := by decide +kernel
  exact stripped_iff h (by decide)

/-- The dots that end the path are left, and the query is cut. -/
theorem dotsAtQuery_not_stripped :
    decodeURL (ascii "/a/..?x=1") (List.replicate 9 0) 9 = some (7, ascii "/a/..?x=1") ∧
      ¬ Stripped (ascii "/a/..?x=1") (ascii "/a/..?x") := by
  refine ⟨by decide +kernel, ?_⟩
  rintro ⟨path, query, hout, -, hquery⟩
  have hquery' : unescape ((ascii "/a/..?x=1").dropWhile (· != 63)) = some (ascii "?x=1") := by
    decide +kernel
  cases hquery.symm.trans hquery'
  have hlast := congrArg List.getLast? hout
  rw [List.getLast?_append] at hlast
  cases hlast

end CxxFramework.Core.StringTranslator
