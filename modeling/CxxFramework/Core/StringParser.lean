import CxxFramework.Core.StringFormatter

/-!
# String parsers

`StrPtrLen` is a pointer and a length, and `StringParser` walks over the bytes it denotes.
A string that a parser cuts out of another one is kept as its bytes.
-/

namespace CxxFramework.Core

/-- The bytes that a pointer and a length denote; `none` is the null pointer. -/
abbrev StrPtrLen := Option Bytes

/-- `sCaseInsensitiveMask`, a table of 130 entries. `none` stands for an access behind it. -/
def sCaseInsensitiveMask (c : UInt8) : Option UInt8 :=
  if c < 130 then some (if 65 ≤ c ∧ c ≤ 90 then c + 32 else c) else none

/-- The loop of `EqualIgnoreCase` -/
def equalIgnoreCaseLoop : Bytes → Bytes → Option Bool
  | a :: s, b :: t =>
    (sCaseInsensitiveMask a).bind fun x =>
      (sCaseInsensitiveMask b).bind fun y =>
        if x ≠ y then some false else equalIgnoreCaseLoop s t
  | _, _ => some true

/-- `StrPtrLen::EqualIgnoreCase` -/
def equalIgnoreCase (s compare : Bytes) : Option Bool :=
  if compare.length = s.length then equalIgnoreCaseLoop s compare else some false

/-! ## Stop conditions -/

def sWordMask (c : UInt8) : Bool :=
  (65 ≤ c && c ≤ 90) || (97 ≤ c && c ≤ 122) || c == 45 || c == 95

def sNonWordMask (c : UInt8) : Bool := !sWordMask c
def sDigitMask (c : UInt8) : Bool := 48 ≤ c && c ≤ 57
def sEOLMask (c : UInt8) : Bool := c == 13 || c == 10
def sEOLWhitespaceMask (c : UInt8) : Bool := (9 ≤ c && c ≤ 13) || c == 32
def sNonWhitespaceMask (c : UInt8) : Bool := !sEOLWhitespaceMask c

/-! ## The parser -/

structure StringParser where
  /-- `fStartGet` is the null pointer. -/
  isNull : Bool := false
  /-- The bytes before `fStartGet`, the last one first. -/
  parsed : Bytes := []
  /-- The bytes from `fStartGet` to `fEndGet`. -/
  rest : Bytes := []
  /-- What stands in memory from `fEndGet` on. -/
  beyond : Bytes := []
  fCurLineNumber : Int32 := 1
deriving DecidableEq, Repr

namespace StringParser

def ofString (s : StrPtrLen) (beyond : Bytes) : StringParser :=
  { isNull := s.isNone, rest := s.getD [], beyond }

/-- `*fStartGet`, which may stand behind the string. -/
def peekFast (p : StringParser) : UInt8 :=
  if p.isNull then 0 else (p.rest ++ p.beyond).headD 0

def getDataParsedLen (p : StringParser) : Nat := p.parsed.length
def getDataRemaining (p : StringParser) : Nat := p.rest.length

/-- `advanceMark`, which its callers use inside the string only. A line ends with `\n`, or
with `\r` if no `\n` follows. -/
def advanceMark (p : StringParser) : StringParser :=
  match p.rest with
  | [] => p
  | c :: rest =>
    let endsLine := c = 10 ∨ (c = 13 ∧ (rest ++ p.beyond).headD 0 ≠ 10)
    { p with
      parsed := c :: p.parsed
      rest
      fCurLineNumber := if endsLine then p.fCurLineNumber + 1 else p.fCurLineNumber }

/-- `advanceMark` a number of times. -/
def advance : Nat → StringParser → StringParser
  | 0, p => p
  | n + 1, p => advance n p.advanceMark

/-- `ConsumeUntil`, up to a character or to one of a mask. -/
def consumeUntil (p : StringParser) (stop : UInt8 → Bool) : StrPtrLen × StringParser :=
  if p.isNull then (none, p)
  else
    let out := p.rest.takeWhile fun c => !stop c
    (some out, advance out.length p)

def consumeWord (p : StringParser) : StrPtrLen × StringParser := p.consumeUntil sNonWordMask
def consumeWhitespace (p : StringParser) : StringParser := (p.consumeUntil sNonWhitespaceMask).2

def consumeUntilWhitespace (p : StringParser) : StrPtrLen × StringParser :=
  p.consumeUntil sEOLWhitespaceMask

def consumeUntilDigit (p : StringParser) : StrPtrLen × StringParser := p.consumeUntil sDigitMask

/-- `ConsumeLength` of at most 32767 bytes, forwards. -/
def consumeLength (p : StringParser) (inLength : Nat) : StrPtrLen × StringParser :=
  if p.isNull then (none, p)
  else
    let inLength := min inLength p.rest.length
    (some (p.rest.take inLength), advance inLength p)

/-- `ConsumeInteger`, in a `UInt32`. -/
def consumeInteger (p : StringParser) : Nat × StringParser :=
  if p.isNull then (0, p)
  else
    let digits := p.rest.takeWhile sDigitMask
    (digits.foldl (fun theValue c => (theValue * 10 + (c.toNat - 48)) % uint32Size) 0,
      advance digits.length p)

/-- `Expect` -/
def expect (p : StringParser) (stopChar : UInt8) : Bool × StringParser :=
  if p.isNull then (false, p)
  else if p.rest.head? = some stopChar then (true, p.advanceMark)
  else (false, p)

/-- `ExpectEOL`: one of `\r`, `\n` and `\r\n`. -/
def expectEOL (p : StringParser) : Bool × StringParser :=
  if p.isNull then (false, p)
  else
    match p.rest with
    | [] => (false, p)
    | c :: rest =>
      if c = 13 ∨ c = 10 then
        if c = 13 ∧ rest.head? = some 10 then (true, p.advanceMark.advanceMark)
        else (true, p.advanceMark)
      else (false, p)

/-- `GetThru` -/
def getThru (p : StringParser) (stop : UInt8) : Bool × StrPtrLen × StringParser :=
  let consumed := p.consumeUntil (· == stop)
  let found := consumed.2.expect stop
  (found.1, consumed.1, found.2)

/-- `GetThruEOL` -/
def getThruEOL (p : StringParser) : Bool × StrPtrLen × StringParser :=
  let consumed := p.consumeUntil sEOLMask
  let found := consumed.2.expectEOL
  (found.1, consumed.1, found.2)

/-! ## Progress -/

@[simp] theorem length_rest_advanceMark (p : StringParser) :
    p.advanceMark.rest.length = p.rest.length - 1 := by
  unfold advanceMark
  cases hrest : p.rest with
  | nil => exact congrArg List.length hrest
  | cons c rest => rfl

@[simp] theorem length_rest_advance (n : Nat) (p : StringParser) :
    (advance n p).rest.length = p.rest.length - n := by
  induction n generalizing p with
  | zero => rfl
  | succ n ih => rw [advance, ih, length_rest_advanceMark, Nat.sub_sub, Nat.add_comm 1]

theorem consumeUntil_le (p : StringParser) (stop : UInt8 → Bool) :
    (p.consumeUntil stop).2.rest.length ≤ p.rest.length := by
  unfold consumeUntil
  cases p.isNull with
  | true => exact le_rfl
  | false => exact (length_rest_advance _ p).trans_le (Nat.sub_le _ _)

theorem expect_lt {p q : StringParser} {stopChar : UInt8} (h : p.expect stopChar = (true, q)) :
    q.rest.length < p.rest.length := by
  unfold expect at h
  cases hnull : p.isNull with
  | true => simp [hnull] at h
  | false =>
    cases hrest : p.rest with
    | nil => simp [hnull, hrest] at h
    | cons c rest =>
      simp only [hnull, Bool.false_eq_true, if_false] at h
      split_ifs at h with hc
      · obtain rfl : p.advanceMark = q := congrArg Prod.snd h
        simp [hrest]
      · cases congrArg Prod.fst h

theorem expectEOL_lt {p q : StringParser} (h : p.expectEOL = (true, q)) :
    q.rest.length < p.rest.length := by
  unfold expectEOL at h
  cases hnull : p.isNull with
  | true => simp [hnull] at h
  | false =>
    cases hrest : p.rest with
    | nil => simp [hnull, hrest] at h
    | cons c rest =>
      simp only [hnull, hrest, Bool.false_eq_true, if_false] at h
      split_ifs at h with heol hboth
      · obtain rfl : p.advanceMark.advanceMark = q := congrArg Prod.snd h
        simp only [length_rest_advanceMark, hrest, List.length_cons]
        omega
      · obtain rfl : p.advanceMark = q := congrArg Prod.snd h
        simp [hrest]
      · cases congrArg Prod.fst h

theorem expectEOL_le {p q : StringParser} {found : Bool} (h : p.expectEOL = (found, q)) :
    q.rest.length ≤ p.rest.length := by
  cases found with
  | true => exact (expectEOL_lt h).le
  | false =>
    unfold expectEOL at h
    cases hnull : p.isNull with
    | true =>
      simp only [hnull, if_true, Prod.mk.injEq, true_and] at h
      rw [h]
    | false =>
      cases hrest : p.rest with
      | nil =>
        simp only [hnull, hrest, Bool.false_eq_true, if_false, Prod.mk.injEq, true_and] at h
        simp [← h, hrest]
      | cons c rest =>
        simp only [hnull, hrest, Bool.false_eq_true, if_false] at h
        split_ifs at h
        · cases congrArg Prod.fst h
        · cases congrArg Prod.fst h
        · obtain rfl : p = q := congrArg Prod.snd h
          rw [hrest]

theorem getThru_lt {p q : StringParser} {stop : UInt8} {out : StrPtrLen}
    (h : p.getThru stop = (true, out, q)) : q.rest.length < p.rest.length := by
  simp only [getThru, Prod.mk.injEq] at h
  obtain ⟨hfound, -, hq⟩ := h
  exact (expect_lt (Prod.ext hfound hq)).trans_le (consumeUntil_le p _)

theorem getThruEOL_lt {p q : StringParser} {out : StrPtrLen}
    (h : p.getThruEOL = (true, out, q)) : q.rest.length < p.rest.length := by
  simp only [getThruEOL, Prod.mk.injEq] at h
  obtain ⟨hfound, -, hq⟩ := h
  exact (expectEOL_lt (Prod.ext hfound hq)).trans_le (consumeUntil_le p _)

/-! ## Where a parser stands -/

/-- The parser stands between the bytes `parsed`, the last one first, and the bytes `rest`. -/
structure At (p : StringParser) (parsed rest : Bytes) : Prop where
  notNull : p.isNull = false
  parsed_eq : p.parsed = parsed
  rest_eq : p.rest = rest

theorem at_ofString (s beyond : Bytes) : At (ofString (some s) beyond) [] s := ⟨rfl, rfl, rfl⟩

variable {p : StringParser} {parsed rest : Bytes}

theorem At.advanceMark {c : UInt8} (h : At p parsed (c :: rest)) :
    At p.advanceMark (c :: parsed) rest := by
  unfold StringParser.advanceMark
  rw [h.rest_eq]
  exact ⟨h.notNull, congrArg _ h.parsed_eq, rfl⟩

theorem At.advance {text : Bytes} (h : At p parsed (text ++ rest)) :
    At (advance text.length p) (text.reverse ++ parsed) rest := by
  induction text generalizing p parsed with
  | nil => exact h
  | cons c text ih =>
    rw [List.reverse_cons, List.append_assoc]
    exact ih h.advanceMark

theorem At.consumeUntil (h : At p parsed rest) (stop : UInt8 → Bool) :
    ∃ q, p.consumeUntil stop = (some (rest.takeWhile (!stop ·)), q) ∧
      At q ((rest.takeWhile (!stop ·)).reverse ++ parsed) (rest.dropWhile (!stop ·)) := by
  refine ⟨StringParser.advance (rest.takeWhile (!stop ·)).length p, ?_, ?_⟩
  · simp only [StringParser.consumeUntil, h.notNull, Bool.false_eq_true, if_false, h.rest_eq]
  · rw [← List.takeWhile_append_dropWhile (p := (!stop ·)) (l := rest)] at h
    exact h.advance

theorem At.consumeLength (h : At p parsed rest) (n : Nat) :
    ∃ q, p.consumeLength n = (some (rest.take n), q) ∧
      At q ((rest.take n).reverse ++ parsed) (rest.drop n) := by
  have htake : rest.take (min n rest.length) = rest.take n := by
    rw [← List.take_take, List.take_length]
  have hlen : (rest.take n).length = min n rest.length := List.length_take ..
  refine ⟨StringParser.advance (rest.take n).length p, ?_, ?_⟩
  · simp only [StringParser.consumeLength, h.notNull, Bool.false_eq_true, if_false, h.rest_eq,
      htake, hlen]
  · rw [← List.take_append_drop n rest] at h
    exact h.advance

theorem At.peekFast {c : UInt8} (h : At p parsed (c :: rest)) : p.peekFast = c := by
  unfold StringParser.peekFast
  rw [h.notNull, h.rest_eq]
  rfl

theorem At.expect {c : UInt8} (h : At p parsed (c :: rest)) :
    ∃ q, p.expect c = (true, q) ∧ At q (c :: parsed) rest := by
  refine ⟨p.advanceMark, ?_, h.advanceMark⟩
  unfold StringParser.expect
  rw [h.notNull, h.rest_eq]
  simp

/-- `ConsumeUntil` stops at the first stop character. -/
theorem At.consumeText {text : Bytes} {c : UInt8} (h : At p parsed (text ++ c :: rest))
    (stop : UInt8 → Bool) (htext : ∀ d ∈ text, stop d = false) (hc : stop c = true) :
    ∃ q, p.consumeUntil stop = (some text, q) ∧ At q (text.reverse ++ parsed) (c :: rest) := by
  have hgo : ∀ d ∈ text, (!stop d) = true := fun d hd => by simp [htext d hd]
  have htake : (text ++ c :: rest).takeWhile (!stop ·) = text := by
    rw [List.takeWhile_append_of_pos hgo, List.takeWhile_cons_of_neg (by simp [hc]),
      List.append_nil]
  have hdrop : (text ++ c :: rest).dropWhile (!stop ·) = c :: rest := by
    rw [List.dropWhile_append_of_pos hgo, List.dropWhile_cons_of_neg (by simp [hc])]
  have hconsumed := h.consumeUntil stop
  rwa [htake, hdrop] at hconsumed

theorem At.consumeByte {b c : UInt8} (h : At p parsed (b :: c :: rest)) (stop : UInt8 → Bool)
    (hb : stop b = false) (hc : stop c = true) :
    ∃ q, p.consumeUntil stop = (some [b], q) ∧ At q (b :: parsed) (c :: rest) := by
  rw [← List.singleton_append] at h
  exact h.consumeText stop (by simp [hb]) hc

/-- The value of the digits is what `ConsumeInteger` returns. -/
theorem At.consumeInteger {digits : Bytes} {c : UInt8} (h : At p parsed (digits ++ c :: rest))
    (hdigits : ∀ d ∈ digits, sDigitMask d = true) (hc : sDigitMask c = false) :
    ∃ q, p.consumeInteger =
        (digits.foldl (fun theValue d => (theValue * 10 + (d.toNat - 48)) % uint32Size) 0, q) ∧
      At q (digits.reverse ++ parsed) (c :: rest) := by
  have htake : (digits ++ c :: rest).takeWhile sDigitMask = digits := by
    rw [List.takeWhile_append_of_pos hdigits, List.takeWhile_cons_of_neg (by simp [hc]),
      List.append_nil]
  refine ⟨StringParser.advance digits.length p, ?_, h.advance⟩
  simp only [StringParser.consumeInteger, h.notNull, Bool.false_eq_true, if_false, h.rest_eq,
    htake]

/-- `GetThru` goes behind the first stop character. -/
theorem At.getThru {text : Bytes} {stop : UInt8} (h : At p parsed (text ++ stop :: rest))
    (htext : stop ∉ text) :
    ∃ q, p.getThru stop = (true, some text, q) ∧ At q (stop :: (text.reverse ++ parsed)) rest := by
  have hne : ∀ d ∈ text, (d == stop) = false := fun d hd =>
    beq_eq_false_iff_ne.mpr (ne_of_mem_of_not_mem hd htext)
  obtain ⟨q, hq, hat⟩ := h.consumeText (· == stop) hne (beq_self_eq_true stop)
  obtain ⟨q', hq', hat'⟩ := hat.expect
  exact ⟨q', by simp only [StringParser.getThru, hq, hq'], hat'⟩

/-- No line end stands in a text. -/
def NoEOL (text : Bytes) : Prop := ∀ c ∈ text, sEOLMask c = false

instance (text : Bytes) : Decidable (NoEOL text) := inferInstanceAs (Decidable (∀ c ∈ _, _))

theorem noEOL_of_printable {text : Bytes} (h : ∀ c ∈ text, 32 ≤ c) : NoEOL text := by
  intro c hc
  have hcr : c ≠ 13 := fun heq => absurd (heq ▸ h c hc) (by decide)
  have hlf : c ≠ 10 := fun heq => absurd (heq ▸ h c hc) (by decide)
  simp [sEOLMask, hcr, hlf]

/-- No line end stands at the front. -/
def StartsText (rest : Bytes) : Prop := ∀ c ∈ rest.head?, sEOLMask c = false

instance (rest : Bytes) : Decidable (StartsText rest) := inferInstanceAs (Decidable (∀ c ∈ _, _))

theorem noEOL_nil : NoEOL [] := nofun

theorem startsText_nil : StartsText [] := nofun

/-- The line ends: CR, LF and CR LF. A CR alone is one if no LF follows. -/
inductive IsEOL : Bytes → Bytes → Prop
  | crlf (rest : Bytes) : IsEOL [13, 10] rest
  | lf (rest : Bytes) : IsEOL [10] rest
  | cr {rest : Bytes} : rest.head? ≠ some 10 → IsEOL [13] rest

theorem At.expectEOL {e : Bytes} (h : At p parsed (e ++ rest)) (he : IsEOL e rest) :
    ∃ q, p.expectEOL = (true, q) ∧ At q (e.reverse ++ parsed) rest := by
  unfold StringParser.expectEOL
  rw [h.notNull, h.rest_eq]
  cases he with
  | crlf => exact ⟨_, rfl, h.advanceMark.advanceMark⟩
  | lf => exact ⟨_, by simp, h.advanceMark⟩
  | cr hnot => exact ⟨_, by simp [hnot], h.advanceMark⟩

/-- A `\r` is a line end, with or without a `\n` behind it. -/
theorem At.expectEOL_cr (h : At p parsed (13 :: rest)) : p.expectEOL.1 = true := by
  by_cases hlf : rest.head? = some 10
  · obtain ⟨s, rfl⟩ := List.head?_eq_some_iff.mp hlf
    obtain ⟨q, hq, -⟩ := At.expectEOL (e := [13, 10]) h (.crlf s)
    rw [hq]
  · obtain ⟨q, hq, -⟩ := At.expectEOL (e := [13]) h (.cr hlf)
    rw [hq]

theorem At.expectEOL_text (h : At p parsed rest) (htext : StartsText rest) :
    p.expectEOL = (false, p) := by
  unfold StringParser.expectEOL
  rw [h.notNull, h.rest_eq]
  cases rest with
  | nil => rfl
  | cons c rest =>
    have hc : ¬ (c = 13 ∨ c = 10) := by
      have hmask := htext c rfl
      simpa [sEOLMask] using hmask
    simp [hc]

theorem At.consumeUntilEOL {text : Bytes} (h : At p parsed (text ++ rest)) (htext : NoEOL text)
    (hrest : ¬ StartsText rest ∨ rest = []) :
    ∃ q, p.consumeUntil sEOLMask = (some text, q) ∧ At q (text.reverse ++ parsed) rest := by
  have htake : (text ++ rest).takeWhile (fun c => !sEOLMask c) = text := by
    rw [List.takeWhile_append_of_pos fun c hc => by simp [htext c hc]]
    rcases hrest with hrest | rfl
    · cases rest with
      | nil => exact absurd (fun c hc => by cases hc) hrest
      | cons c rest =>
        have hc : sEOLMask c = true := by
          by_contra hfalse
          refine hrest fun d hd => ?_
          obtain rfl : c = d := by simpa using hd
          simpa using hfalse
        simp [hc]
    · simp
  refine ⟨StringParser.advance text.length p, ?_, h.advance⟩
  simp only [StringParser.consumeUntil, h.notNull, Bool.false_eq_true, if_false, h.rest_eq, htake]

theorem StartsText.head?_ne_lf (h : StartsText rest) : rest.head? ≠ some 10 :=
  fun hlf => absurd (h 10 hlf) (by decide)

theorem StartsText.append {tail : Bytes} (h : StartsText rest) (hne : rest ≠ []) :
    StartsText (rest ++ tail) := by
  rwa [StartsText, List.head?_append_of_ne_nil _ hne]

theorem IsEOL.append {e tail : Bytes} (h : IsEOL e rest) (hne : rest ≠ []) :
    IsEOL e (rest ++ tail) := by
  cases h with
  | crlf => exact .crlf _
  | lf => exact .lf _
  | cr hrest => exact .cr (by rwa [List.head?_append_of_ne_nil _ hne])

theorem NoEOL.of_isPrefix {text s : Bytes} (h : NoEOL s) (hpre : text <+: s) : NoEOL text :=
  fun c hc => h c (hpre.subset hc)

theorem StartsText.of_isPrefix {s : Bytes} (h : StartsText rest) (hpre : s <+: rest) :
    StartsText s := by
  obtain ⟨t, rfl⟩ := hpre
  cases s with
  | nil => nofun
  | cons c s => exact h

theorem IsEOL.of_isPrefix {e s : Bytes} (h : IsEOL e rest) (hpre : s <+: rest) : IsEOL e s := by
  cases h with
  | crlf => exact .crlf _
  | lf => exact .lf _
  | cr hrest =>
    obtain ⟨t, rfl⟩ := hpre
    cases s with
    | nil => exact .cr nofun
    | cons c s => exact .cr hrest

/-- Bytes begin with a line end, or else with the text of a line. -/
theorem startsText_or_isEOL (s : Bytes) :
    StartsText s ∨ ∃ e rest, s = e ++ rest ∧ IsEOL e rest := by
  cases s with
  | nil => exact .inl nofun
  | cons c s =>
    rcases eq_or_ne c 10 with rfl | hlf
    · exact .inr ⟨[10], s, rfl, .lf s⟩
    · rcases eq_or_ne c 13 with rfl | hcr
      · rcases s with _ | ⟨d, s⟩
        · exact .inr ⟨[13], [], rfl, .cr nofun⟩
        · rcases eq_or_ne d 10 with rfl | hd
          · exact .inr ⟨[13, 10], s, rfl, .crlf s⟩
          · exact .inr ⟨[13], d :: s, rfl, .cr (by simpa using hd)⟩
      · refine .inl fun d hd => ?_
        obtain rfl : c = d := by simpa using hd
        simp [sEOLMask, hlf, hcr]

/-- Bytes are a line and what follows it, or else the text of a line that has no end. -/
theorem noEOL_or_line (s : Bytes) :
    NoEOL s ∨ ∃ text e rest, s = text ++ (e ++ rest) ∧ NoEOL text ∧ IsEOL e rest := by
  induction s with
  | nil => exact .inl nofun
  | cons c s ih =>
    rcases startsText_or_isEOL (c :: s) with hstart | ⟨e, rest, heq, he⟩
    · have hc : sEOLMask c = false := hstart c rfl
      rcases ih with hnone | ⟨text, e, rest, rfl, htext, he⟩
      · exact .inl (List.forall_mem_cons.mpr ⟨hc, hnone⟩)
      · exact .inr ⟨c :: text, e, rest, rfl, List.forall_mem_cons.mpr ⟨hc, htext⟩, he⟩
    · exact .inr ⟨[], e, rest, heq, nofun, he⟩

theorem IsEOL.not_startsText {e : Bytes} (he : IsEOL e rest) : ¬ StartsText (e ++ rest) := by
  intro h
  cases he with
  | crlf => exact absurd (h 13 rfl) (by decide)
  | lf => exact absurd (h 10 rfl) (by decide)
  | cr => exact absurd (h 13 rfl) (by decide)

/-- `GetThruEOL` goes behind the first line end. -/
theorem At.getThruEOL {text e : Bytes} (h : At p parsed (text ++ (e ++ rest)))
    (htext : NoEOL text) (he : IsEOL e rest) :
    ∃ q, p.getThruEOL = (true, some text, q) ∧
      At q (e.reverse ++ (text.reverse ++ parsed)) rest := by
  obtain ⟨q, hq, hat⟩ := h.consumeUntilEOL htext (.inl he.not_startsText)
  obtain ⟨q', hq', hat'⟩ := hat.expectEOL he
  exact ⟨q', by simp only [StringParser.getThruEOL, hq, hq'], hat'⟩

theorem At.getThruEOL_none (h : At p parsed rest) (hrest : NoEOL rest) :
    p.getThruEOL.1 = false := by
  rw [← List.append_nil rest] at h
  obtain ⟨q, hq, hat⟩ := h.consumeUntilEOL hrest (.inr rfl)
  simp only [StringParser.getThruEOL, hq, hat.expectEOL_text (fun c hc => by cases hc)]

end StringParser

end CxxFramework.Core
