import CxxFramework.Http.HTTPRequestStream

/-!
# The search for the end of the header

The texts for which the search of `ReadRequest` finds the end of a header, and those for
which it finds none.

A line ends with CR, LF or CR LF, and a header with a blank line; but a CR alone behind a
line that ends with CR LF is skipped, for its LF may not be received yet. A first line
without blanks ends the header too, if no blank is received at all.

## Main definitions

* `HTTPRequestStream.OpenHeader` — the start of a header, without its end.
* `HTTPRequestStream.Header` — the lines of a header up to its end.
* `HTTPRequestStream.Left` — what one look at a header leaves behind it.
-/

namespace CxxFramework.Net

open CxxFramework.Core StringParser

namespace HTTPRequestStream

variable {req text e b rest parsed : Bytes} {p : StringParser} {l : Nat}

/-! ## One line -/

theorem findHeaderEnd_none (h : At p parsed rest) (hrest : NoEOL rest) :
    findHeaderEnd req p l = .incomplete := by
  have hnone := h.getThruEOL_none hrest
  rw [findHeaderEnd]
  split
  next => rfl
  next hline =>
    rw [hline] at hnone
    cases hnone

/-- One pass of the loop. -/
theorem findHeaderEnd_step {q r : StringParser} {line : StrPtrLen} {found : Bool}
    (hline : p.getThruEOL = (true, line, q)) (hend : q.expectEOL = (found, r)) (req : Bytes)
    (l : Nat) :
    findHeaderEnd req p l =
      if found then
        if r.getDataParsedLen > 2 ∧ r.parsed.take 3 = [13, 10, 13] then
          findHeaderEnd req r (l + 1)
        else .weAreDone r.getDataRemaining
      else if l + 1 = 1 ∧ 32 ∉ req then .weAreDone r.getDataRemaining
      else findHeaderEnd req r (l + 1) := by
  rw [findHeaderEnd]
  split
  next hline' => cases hline.symm.trans hline'
  next hline' =>
    cases hline.symm.trans hline'
    split
    next hend' =>
      cases hend.symm.trans hend'
      rfl
    next hend' =>
      cases hend.symm.trans hend'
      rfl

/-- A line with text behind it ends the header only if it is the first one, and no blank is
received. -/
theorem findHeaderEnd_text (req : Bytes) (l : Nat) (h : At p parsed (text ++ (e ++ rest)))
    (htext : NoEOL text) (he : IsEOL e rest) (hrest : StartsText rest) :
    ∃ q, At q (e.reverse ++ (text.reverse ++ parsed)) rest ∧
      findHeaderEnd req p l =
        if l + 1 = 1 ∧ 32 ∉ req then .weAreDone rest.length else findHeaderEnd req q (l + 1) := by
  obtain ⟨q, hq, hat⟩ := h.getThruEOL htext he
  refine ⟨q, hat, ?_⟩
  rw [findHeaderEnd_step hq (hat.expectEOL_text hrest), getDataRemaining, hat.rest_eq]
  rfl

/-- A line with a blank line behind it ends the header, unless the blank line is skipped. -/
theorem findHeaderEnd_blank (req : Bytes) (l : Nat)
    (h : At p parsed (text ++ (e ++ (b ++ rest)))) (htext : NoEOL text)
    (he : IsEOL e (b ++ rest)) (hb : IsEOL b rest) :
    ∃ q, At q (b.reverse ++ (e.reverse ++ (text.reverse ++ parsed))) rest ∧
      findHeaderEnd req p l =
        if (b.reverse ++ (e.reverse ++ (text.reverse ++ parsed))).take 3 = [13, 10, 13] then
          findHeaderEnd req q (l + 1)
        else .weAreDone rest.length := by
  obtain ⟨q, hq, hat⟩ := h.getThruEOL htext he
  obtain ⟨q', hend, hat'⟩ := hat.expectEOL hb
  refine ⟨q', hat', ?_⟩
  have hskip : (q'.getDataParsedLen > 2 ∧ q'.parsed.take 3 = [13, 10, 13]) ↔
      (b.reverse ++ (e.reverse ++ (text.reverse ++ parsed))).take 3 = [13, 10, 13] := by
    rw [getDataParsedLen, hat'.parsed_eq]
    refine ⟨fun hboth => hboth.2, fun htake => ⟨?_, htake⟩⟩
    have hlen := congrArg List.length htake
    rw [List.length_take] at hlen
    simp only [List.length_cons, List.length_nil] at hlen
    omega
  rw [findHeaderEnd_step hq hend, getDataRemaining, hat'.rest_eq]
  simp only [if_true, hskip]

/-- The search depends on the bytes before and behind its position only. -/
theorem findHeaderEnd_congr (req : Bytes) (l : Nat) {q : StringParser} (hp : At p parsed rest)
    (hq : At q parsed rest) : findHeaderEnd req p l = findHeaderEnd req q l := by
  induction hn : rest.length using Nat.strongRecOn generalizing rest parsed p q l with
  | _ n ih =>
    rcases noEOL_or_line rest with hnone | ⟨text, e, rest, rfl, htext, he⟩
    · rw [findHeaderEnd_none hp hnone, findHeaderEnd_none hq hnone]
    · have hpos : 0 < e.length := by cases he <;> simp
      simp only [List.length_append] at hn
      rcases startsText_or_isEOL rest with hstart | ⟨b, rest, rfl, hb⟩
      · obtain ⟨p', hp', hsearch⟩ := findHeaderEnd_text req l hp htext he hstart
        obtain ⟨q', hq', hsearch'⟩ := findHeaderEnd_text req l hq htext he hstart
        rw [hsearch, hsearch', ih rest.length (by omega) _ hp' hq' rfl]
      · obtain ⟨p', hp', hsearch⟩ := findHeaderEnd_blank req l hp htext he hb
        obtain ⟨q', hq', hsearch'⟩ := findHeaderEnd_blank req l hq htext he hb
        rw [List.length_append] at hn
        rw [hsearch, hsearch', ih rest.length (by omega) _ hp' hq' rfl]

/-! ## Headers -/

/-- The start of a header, without its end. -/
inductive OpenHeader : Bytes → Prop
  | text {text : Bytes} : NoEOL text → OpenHeader text
  | line {text e rest : Bytes} : NoEOL text → IsEOL e rest → StartsText rest → OpenHeader rest →
      OpenHeader (text ++ (e ++ rest))
  | skip {text rest : Bytes} : NoEOL text → rest.head? ≠ some 10 → OpenHeader rest →
      OpenHeader (text ++ (13 :: 10 :: 13 :: rest))

/-- The last line end of a header and the blank line. -/
inductive BlankEnd : Bytes → Prop
  | crlfCrlf : BlankEnd [13, 10, 13, 10]
  | crlfLf : BlankEnd [13, 10, 10]
  | crCr : BlankEnd [13, 13]
  | lfLf : BlankEnd [10, 10]
  | lfCr : BlankEnd [10, 13]

/-- The lines of a header up to its end. -/
inductive Header : Bytes → Prop
  | last {text e : Bytes} : NoEOL text → BlankEnd e → Header (text ++ e)
  | line {text e rest : Bytes} : NoEOL text → IsEOL e rest → StartsText rest → Header rest →
      Header (text ++ (e ++ rest))
  | skip {text rest : Bytes} : NoEOL text → rest.head? ≠ some 10 → Header rest →
      Header (text ++ (13 :: 10 :: 13 :: rest))

/-- No end is found in the start of a header; but its first line has a blank if it ends. -/
theorem findHeaderEnd_open {s : Bytes} (hs : OpenHeader s) (h : At p parsed s)
    (hblank : NoEOL s ∨ 32 ∈ req ∨ l ≠ 0) : findHeaderEnd req p l = .incomplete := by
  induction hs generalizing p parsed l with
  | text htext => exact findHeaderEnd_none h htext
  | @line text e rest htext he hrest _ ih =>
    obtain ⟨q, hat, hsearch⟩ := findHeaderEnd_text req l h htext he hrest
    have hnot : ¬ (l + 1 = 1 ∧ 32 ∉ req) := by
      rintro ⟨hl, hno⟩
      rcases hblank with hnone | hmem | hne
      · refine he.not_startsText fun c hc => hnone c ?_
        exact List.mem_append_right _ (List.mem_of_mem_head? hc)
      · exact hno hmem
      · omega
    rw [hsearch, if_neg hnot]
    exact ih hat (.inr (.inr (Nat.succ_ne_zero l)))
  | @skip text rest htext hrest _ ih =>
    obtain ⟨q, hat, hsearch⟩ := findHeaderEnd_blank req l (e := [13, 10]) (b := [13])
      h htext (.crlf _) (.cr hrest)
    rw [hsearch, if_pos (by simp)]
    exact ih hat (.inr (.inr (Nat.succ_ne_zero l)))

/-! ## Starts of a header -/

theorem prefix_append_cases {s a b : Bytes} (h : s <+: a ++ b) :
    s <+: a ∨ ∃ t, s = a ++ t ∧ t <+: b := by
  rcases List.prefix_or_prefix_of_prefix h (List.prefix_append a b) with hs | ⟨t, rfl⟩
  · exact .inl hs
  · exact .inr ⟨t, rfl, (List.prefix_append_right_inj a).mp h⟩

/-- What stands behind the text of a line when a line end, or an end of a header, is cut. -/
inductive CutEnd : Bytes → Prop
  | nil : CutEnd []
  | eol {e : Bytes} : IsEOL e [] → CutEnd e
  | skip : CutEnd [13, 10, 13]

theorem CutEnd.openHeader (he : CutEnd e) (htext : NoEOL text) : OpenHeader (text ++ e) := by
  cases he with
  | nil => exact .text (by rwa [List.append_nil])
  | eol heol =>
    have hline := OpenHeader.line htext heol (by nofun) (.text (by nofun))
    rwa [List.append_nil] at hline
  | skip => exact .skip htext (by nofun) (.text (by nofun))

theorem cutEnd_of_prefix_skip (h : e <+: [13, 10, 13]) : CutEnd e := by
  simp only [List.prefix_cons_iff, List.prefix_nil] at h
  obtain rfl | ⟨_, rfl, rfl | ⟨_, rfl, rfl | ⟨_, rfl, rfl⟩⟩⟩ := h
  · exact .nil
  · exact .eol (.cr nofun)
  · exact .eol (.crlf _)
  · exact .skip

theorem cutEnd_of_prefix_lf (h : e <+: [10]) : CutEnd e := by
  simp only [List.prefix_cons_iff, List.prefix_nil] at h
  obtain rfl | ⟨_, rfl, rfl⟩ := h
  · exact .nil
  · exact .eol (.lf _)

theorem CutEnd.of_isEOL {e' : Bytes} (he : IsEOL e' rest) (h : e <+: e') : CutEnd e := by
  cases he with
  | crlf => exact cutEnd_of_prefix_skip (h.trans (List.prefix_append [13, 10] [13]))
  | lf => exact cutEnd_of_prefix_lf h
  | cr => exact cutEnd_of_prefix_skip (h.trans (List.prefix_append [13] [10, 13]))

theorem CutEnd.of_blankEnd {e' : Bytes} (he : BlankEnd e') (h : e <+: e') (hne : e ≠ e') :
    CutEnd e := by
  have hcut (front : Bytes) {c : UInt8} (heq : e' = front ++ [c]) : e <+: front := by
    subst heq
    exact (List.prefix_concat_iff.mp h).resolve_left hne
  cases he with
  | crlfCrlf => exact cutEnd_of_prefix_skip (hcut [13, 10, 13] rfl)
  | crlfLf => exact cutEnd_of_prefix_skip ((hcut [13, 10] rfl).trans ⟨[13], rfl⟩)
  | crCr => exact cutEnd_of_prefix_skip ((hcut [13] rfl).trans ⟨[10, 13], rfl⟩)
  | lfLf => exact cutEnd_of_prefix_lf (hcut [10] rfl)
  | lfCr => exact cutEnd_of_prefix_lf (hcut [10] rfl)

theorem head?_ne_of_isPrefix {s t : Bytes} {c : UInt8} (h : s.head? ≠ some c) (hpre : t <+: s) :
    t.head? ≠ some c := by
  obtain ⟨u, rfl⟩ := hpre
  cases t with
  | nil => nofun
  | cons d t => exact h

theorem OpenHeader.of_isPrefix {s t : Bytes} (hs : OpenHeader s) (h : t <+: s) : OpenHeader t := by
  induction hs generalizing t with
  | text htext => exact .text (htext.of_isPrefix h)
  | line htext he hrest _ ih =>
    rcases prefix_append_cases h with hpre | ⟨u, rfl, hu⟩
    · exact .text (htext.of_isPrefix hpre)
    · rcases prefix_append_cases hu with hcut | ⟨v, rfl, hv⟩
      · exact (CutEnd.of_isEOL he hcut).openHeader htext
      · exact .line htext (he.of_isPrefix hv) (hrest.of_isPrefix hv) (ih hv)
  | skip htext hrest _ ih =>
    rcases prefix_append_cases h with hpre | ⟨u, rfl, hu⟩
    · exact .text (htext.of_isPrefix hpre)
    · rcases prefix_append_cases (a := [13, 10, 13]) hu with hcut | ⟨v, rfl, hv⟩
      · exact (cutEnd_of_prefix_skip hcut).openHeader htext
      · exact .skip htext (head?_ne_of_isPrefix hrest hv) (ih hv)

/-- A header that is cut has no end. -/
theorem Header.openHeader_of_prefix {m t : Bytes} (hm : Header m) (h : t <+: m) (hne : t ≠ m) :
    OpenHeader t := by
  induction hm generalizing t with
  | last htext he =>
    rcases prefix_append_cases h with hpre | ⟨u, rfl, hu⟩
    · exact .text (htext.of_isPrefix hpre)
    · exact (CutEnd.of_blankEnd he hu (fun heq => hne (congrArg _ heq))).openHeader htext
  | line htext he hrest _ ih =>
    rcases prefix_append_cases h with hpre | ⟨u, rfl, hu⟩
    · exact .text (htext.of_isPrefix hpre)
    · rcases prefix_append_cases hu with hcut | ⟨v, rfl, hv⟩
      · exact (CutEnd.of_isEOL he hcut).openHeader htext
      · refine .line htext (he.of_isPrefix hv) (hrest.of_isPrefix hv) (ih hv ?_)
        rintro rfl
        exact hne rfl
  | skip htext hrest _ ih =>
    rcases prefix_append_cases h with hpre | ⟨u, rfl, hu⟩
    · exact .text (htext.of_isPrefix hpre)
    · rcases prefix_append_cases (a := [13, 10, 13]) hu with hcut | ⟨v, rfl, hv⟩
      · exact (cutEnd_of_prefix_skip hcut).openHeader htext
      · refine .skip htext (head?_ne_of_isPrefix hrest hv) (ih hv ?_)
        rintro rfl
        exact hne rfl

/-- A line end and a blank line end a header, unless the blank line is skipped. -/
theorem skip_or_blankEnd (he : IsEOL e (b ++ rest)) (hb : IsEOL b rest) :
    (e = [13, 10] ∧ b = [13]) ∨ ∃ e' tail, e ++ (b ++ rest) = e' ++ tail ∧ BlankEnd e' := by
  cases he with
  | crlf =>
    cases hb with
    | crlf => exact .inr ⟨_, rest, rfl, .crlfCrlf⟩
    | lf => exact .inr ⟨_, rest, rfl, .crlfLf⟩
    | cr => exact .inl ⟨rfl, rfl⟩
  | lf =>
    cases hb with
    | crlf => exact .inr ⟨_, 10 :: rest, rfl, .lfCr⟩
    | lf => exact .inr ⟨_, rest, rfl, .lfLf⟩
    | cr => exact .inr ⟨_, rest, rfl, .lfCr⟩
  | cr hnot =>
    cases hb with
    | crlf => exact .inr ⟨_, 10 :: rest, rfl, .crCr⟩
    | lf => exact absurd rfl hnot
    | cr => exact .inr ⟨_, rest, rfl, .crCr⟩

/-- Bytes either hold no end of a header, or begin with a header. -/
theorem openHeader_or_header (s : Bytes) : OpenHeader s ∨ ∃ m tail, s = m ++ tail ∧ Header m := by
  induction hn : s.length using Nat.strongRecOn generalizing s with
  | _ n ih =>
    rcases noEOL_or_line s with hnone | ⟨text, e, rest, rfl, htext, he⟩
    · exact .inl (.text hnone)
    · rcases startsText_or_isEOL rest with hstart | ⟨b, rest, rfl, hb⟩
      · have hlt : rest.length < n := by
          have hpos : 0 < e.length := by cases he <;> simp
          simp only [List.length_append] at hn
          omega
        rcases ih _ hlt rest rfl with hopen | ⟨m, tail, rfl, hm⟩
        · exact .inl (.line htext he hstart hopen)
        · have hpre := List.prefix_append m tail
          refine .inr ⟨text ++ (e ++ m), tail, by simp, ?_⟩
          exact .line htext (he.of_isPrefix hpre) (hstart.of_isPrefix hpre) hm
      · rcases skip_or_blankEnd he hb with ⟨rfl, rfl⟩ | ⟨e', tail, heq, hend⟩
        · have hrest : rest.head? ≠ some 10 := by cases hb with | cr hnot => exact hnot
          have hlt : rest.length < n := by
            simp only [List.length_append, List.length_cons] at hn
            omega
          rcases ih _ hlt rest rfl with hopen | ⟨m, tail, rfl, hm⟩
          · exact .inl (.skip htext hrest hopen)
          · refine .inr ⟨text ++ (13 :: 10 :: 13 :: m), tail, by simp, ?_⟩
            exact .skip htext (head?_ne_of_isPrefix hrest (List.prefix_append m tail)) hm
        · exact .inr ⟨text ++ e', tail, by rw [heq, List.append_assoc], .last htext hend⟩

/-! ## The end of a header -/

theorem Header.ne_nil {m : Bytes} (hm : Header m) : m ≠ [] := by
  cases hm with
  | last _ he => cases he <;> simp
  | line _ he => cases he <;> simp
  | skip => simp

theorem Header.not_noEOL {m : Bytes} (hm : Header m) : ¬ NoEOL m := by
  intro hnone
  have hcr : ¬ 13 ∈ m := fun hmem => absurd (hnone 13 hmem) (by decide)
  have hlf : ¬ 10 ∈ m := fun hmem => absurd (hnone 10 hmem) (by decide)
  cases hm with
  | last _ he => cases he <;> simp at hcr hlf
  | line _ he => cases he <;> simp at hcr hlf
  | skip => simp at hcr

/-- What is left behind a header in one look at the bytes received: an LF behind its last CR
is taken for a part of its end. -/
inductive Left (m : Bytes) : Bytes → Bytes → Prop
  | all {tail : Bytes} : (m.getLast? = some 13 → tail.head? ≠ some 10) → Left m tail tail
  | lf {left : Bytes} : m.getLast? = some 13 → Left m (10 :: left) left

theorem left_nil (m : Bytes) : Left m [] [] := .all fun _ => nofun

theorem Left.suffix {m front tail left : Bytes} (h : Left (front ++ m) tail left) (hm : m ≠ []) :
    Left m tail left := by
  have hlast : (front ++ m).getLast? = m.getLast? := List.getLast?_append_of_ne_nil _ hm
  cases h with
  | all hnot => exact .all (hlast ▸ hnot)
  | lf hcr => exact .lf (hlast ▸ hcr)

/-- The third byte before the end of LF CR is not a CR, which would be one of a CR LF. -/
theorem take_lfCr (htext : NoEOL text) (hparsed : parsed.head? = some 13 → text ≠ []) :
    (13 :: 10 :: (text.reverse ++ parsed)).take 3 ≠ [13, 10, 13] := by
  intro h
  rcases List.eq_nil_or_concat text with rfl | ⟨front, c, rfl⟩
  · cases parsed with
    | nil => simp at h
    | cons c parsed =>
      obtain rfl : c = 13 := by simpa using h
      exact hparsed rfl rfl
  · obtain rfl : c = 13 := by simpa using h
    exact absurd (htext 13 (by simp)) (by decide)

theorem Left.eq_of_lf {m tail left : Bytes} (h : Left (m ++ [10]) tail left) : left = tail := by
  cases h with
  | all => rfl
  | lf hcr => simp at hcr

/-- The blank line that ends a header is found. -/
theorem findHeaderEnd_blankEnd {tail left : Bytes} (htext : NoEOL text) (he : BlankEnd e)
    (hleft : Left (text ++ e) tail left) (h : At p parsed (text ++ (e ++ tail)))
    (hparsed : parsed.head? = some 13 → (text ++ e).head? ≠ some 10) :
    findHeaderEnd req p l = .weAreDone left.length := by
  cases he with
  | crlfCrlf =>
    obtain rfl := Left.eq_of_lf (m := text ++ [13, 10, 13]) (by simpa using hleft)
    obtain ⟨q, -, hsearch⟩ := findHeaderEnd_blank req l (e := [13, 10])
      (b := [13, 10]) h htext (.crlf _) (.crlf _)
    rw [hsearch, if_neg (by simp)]
  | crlfLf =>
    obtain rfl := Left.eq_of_lf (m := text ++ [13, 10]) (by simpa using hleft)
    obtain ⟨q, -, hsearch⟩ := findHeaderEnd_blank req l (e := [13, 10])
      (b := [10]) h htext (.crlf _) (.lf _)
    rw [hsearch, if_neg (by simp)]
  | crCr =>
    cases hleft with
    | all hnot =>
      obtain ⟨q, -, hsearch⟩ := findHeaderEnd_blank req l (e := [13]) (b := [13])
        h htext (.cr (by simp)) (.cr (hnot (by simp)))
      rw [hsearch, if_neg (by simp)]
    | lf =>
      obtain ⟨q, -, hsearch⟩ := findHeaderEnd_blank req l (e := [13])
        (b := [13, 10]) h htext (.cr (by simp)) (.crlf _)
      rw [hsearch, if_neg (by simp)]
  | lfLf =>
    obtain rfl := Left.eq_of_lf (m := text ++ [10]) (by simpa using hleft)
    obtain ⟨q, -, hsearch⟩ := findHeaderEnd_blank req l (e := [10]) (b := [10])
      h htext (.lf _) (.lf _)
    rw [hsearch, if_neg (by simp)]
  | lfCr =>
    cases hleft with
    | all hnot =>
      obtain ⟨q, -, hsearch⟩ := findHeaderEnd_blank req l (e := [10]) (b := [13])
        h htext (.lf _) (.cr (hnot (by simp)))
      rw [hsearch, if_neg]
      refine take_lfCr htext fun hhead hnil => ?_
      exact hparsed hhead (by rw [hnil]; rfl)
    | lf =>
      obtain ⟨q, -, hsearch⟩ := findHeaderEnd_blank req l (e := [10])
        (b := [13, 10]) h htext (.lf _) (.crlf _)
      rw [hsearch, if_neg (by simp)]

/-- The end of a header is found. -/
theorem findHeaderEnd_header {m tail left : Bytes} (hm : Header m) (hleft : Left m tail left)
    (h : At p parsed (m ++ tail)) (hparsed : parsed.head? = some 13 → m.head? ≠ some 10)
    (hblank : 32 ∈ req ∨ l ≠ 0) : findHeaderEnd req p l = .weAreDone left.length := by
  induction hm generalizing p parsed l with
  | @last text e htext he =>
    rw [List.append_assoc] at h
    exact findHeaderEnd_blankEnd htext he hleft h hparsed
  | @line text e rest htext he hrest hm ih =>
    rw [List.append_assoc, List.append_assoc] at h
    rw [← List.append_assoc] at hleft
    obtain ⟨q, hat, hsearch⟩ := findHeaderEnd_text req l h htext
      (he.append hm.ne_nil) (hrest.append hm.ne_nil)
    have hnot : ¬ (l + 1 = 1 ∧ 32 ∉ req) := by
      rintro ⟨hl, hno⟩
      rcases hblank with hmem | hl'
      · exact hno hmem
      · omega
    rw [hsearch, if_neg hnot]
    exact ih (hleft.suffix hm.ne_nil) hat (fun _ => hrest.head?_ne_lf) (.inr (Nat.succ_ne_zero l))
  | @skip text rest htext hrest hm ih =>
    have hhead : (rest ++ tail).head? ≠ some 10 := by
      rwa [List.head?_append_of_ne_nil _ hm.ne_nil]
    rw [List.append_assoc] at h
    obtain ⟨q, hat, hsearch⟩ := findHeaderEnd_blank req l (e := [13, 10]) (b := [13])
      h htext (.crlf _) (.cr hhead)
    rw [hsearch, if_pos (by simp)]
    replace hleft : Left (text ++ [13, 10, 13] ++ rest) tail left := by simpa using hleft
    exact ih (hleft.suffix hm.ne_nil) hat (fun _ => hrest) (.inr (Nat.succ_ne_zero l))

end HTTPRequestStream

end CxxFramework.Net
