import CxxFramework.Core.ParserBounds
import CxxFramework.Core.ParserLength
import CxxFramework.Library.Transition
import Mathlib.Algebra.Group.Int.Defs
import Mathlib.Algebra.Group.Nat.Defs

/-!
# Runs of a parser

Any sequence of the operations that consume a stream. What is compared with them is the place
on the stream, and the number of line ends in front of it.

## Main definitions

* `StringParser.Op` — the operations, with their arguments.
* `StringParser.passes` — the number of bytes an operation consumes of what remains.
* `StringParser.lineEnds` — the line ends in front of a place on a stream.
* `StringParser.reading` — the runs on a stream.
-/

namespace CxxFramework.Core.StringParser

open Transition

/-- `ConsumeEOL` -/
def consumeEOL (p : StringParser) : StrPtrLen × StringParser :=
  if p.isNull then (none, p)
  else
    let q := p.expectEOL.2
    (some (p.rest.take (p.rest.length - q.rest.length)), q)

inductive Op
  | consumeUntil (inStop : UInt8)
  | consumeUntilMask (inMask : UInt8 → Bool)
  | consumeLength (inLength : Int)
  | consumeInteger
  | expect (stopChar : UInt8)
  | expectEOL
  | consumeEOL
  | getThru (stop : UInt8)
  | getThruEOL

/-- Where an operation other than `ConsumeLength` leaves the parser. -/
def exec (p : StringParser) : Op → StringParser
  | .consumeUntil inStop => (p.consumeUntil (· == inStop)).2
  | .consumeUntilMask inMask => (p.consumeUntil inMask).2
  | .consumeLength _ => p
  | .consumeInteger => p.consumeInteger.2
  | .expect stopChar => (p.expect stopChar).2
  | .expectEOL => p.expectEOL.2
  | .consumeEOL => p.consumeEOL.2
  | .getThru stop => (p.getThru stop).2.2
  | .getThruEOL => p.getThruEOL.2.2

/-- An operation that ends on the stream and looks at no byte outside of it. -/
def step (p : StringParser) : Op → Option StringParser
  | .consumeLength inLength =>
    -- a loop that has not ended by then does not end
    match p.consumeSInt32 (p.rest.length + 1) inLength with
    | some (_, .inside q) =>
      if AdvancesInside (p.rest.length - q.rest.length) p then some q else none
    | _ => none
  | op => (p.checked fun p => ((), p.exec op)).map (·.2)

/-! ## What is to be consumed -/

/-- The length of the line end at the front. -/
def eolLength : Bytes → Nat
  | 13 :: 10 :: _ => 2
  | 13 :: _ => 1
  | 10 :: _ => 1
  | _ => 0

/-- The number of bytes that an operation consumes of the rest of a stream. -/
def passes (rest : Bytes) : Op → Nat
  | .consumeUntil inStop => (rest.takeWhile (!· == inStop)).length
  | .consumeUntilMask inMask => (rest.takeWhile (!inMask ·)).length
  | .consumeLength inLength => (rest.take inLength.toNat).length
  | .consumeInteger => (rest.takeWhile sDigitMask).length
  | .expect stopChar => if rest.head? = some stopChar then 1 else 0
  | .expectEOL => eolLength rest
  | .consumeEOL => eolLength rest
  | .getThru stop =>
    let text := (rest.takeWhile (!· == stop)).length
    text + if (rest.drop text).head? = some stop then 1 else 0
  | .getThruEOL =>
    let text := (rest.takeWhile (!sEOLMask ·)).length
    text + eolLength (rest.drop text)

/-- The line ends in a part of a stream, the last byte first, in front of the rest. A CR in
front of an LF is not the end of a line end. -/
def lineEnds : Bytes → Bytes → Nat
  | [], _ => 0
  | c :: parsed, rest =>
    (if c = 10 ∨ c = 13 ∧ rest.head? ≠ some 10 then 1 else 0) + lineEnds parsed (c :: rest)

/-- The line number, an `int`, counts the line ends that were consumed. -/
def LineCorrect (p : StringParser) : Prop :=
  p.fCurLineNumber.toInt = 1 + lineEnds p.parsed p.rest

/-- With the line ends among the next bytes the line number is still an `int`. -/
def LinesFit (n : Nat) (p : StringParser) : Prop :=
  p.fCurLineNumber.toInt + lineEnds (p.rest.take n).reverse (p.rest.drop n) < 2 ^ 31

instance (n : Nat) (p : StringParser) : Decidable (LinesFit n p) :=
  inferInstanceAs (Decidable (_ < _))

variable {p q : StringParser} {op : Op}

/-! ## Single bytes -/

theorem lineEnds_append (s t rest : Bytes) :
    lineEnds (s ++ t) rest = lineEnds s rest + lineEnds t (s.reverse ++ rest) := by
  induction s generalizing rest with
  | nil => simp [lineEnds]
  | cons c s ih => simp [lineEnds, ih, Nat.add_assoc]

@[simp] theorem stream_advanceMark (p : StringParser) : p.advanceMark.stream = p.stream := by
  unfold advanceMark stream
  cases hrest : p.rest with
  | nil => simp [hrest]
  | cons c rest => simp

@[simp] theorem stream_advance (n : Nat) (p : StringParser) : (advance n p).stream = p.stream := by
  induction n generalizing p with
  | zero => rfl
  | succ n ih => rw [advance, ih, stream_advanceMark]

@[simp] theorem isNull_advance (n : Nat) (p : StringParser) : (advance n p).isNull = p.isNull := by
  induction n generalizing p with
  | zero => rfl
  | succ n ih =>
    rw [advance, ih, advanceMark]
    split <;> rfl

theorem advance_add (m n : Nat) (p : StringParser) :
    advance (m + n) p = advance n (advance m p) := by
  induction m generalizing p with
  | zero => rw [Nat.zero_add, advance]
  | succ m ih => rw [Nat.succ_add, advance, advance, ih]

theorem fCurLineNumber_advanceMark {c : UInt8} {rest : Bytes} (hrest : p.rest = c :: rest)
    (hcr : p.rest ≠ [13]) :
    p.advanceMark.fCurLineNumber = p.fCurLineNumber + Int32.ofNat (lineEnds [c] rest) := by
  have hends : (c = 10 ∨ c = 13 ∧ (rest ++ p.beyond).headD 0 ≠ 10) ↔
      (c = 10 ∨ c = 13 ∧ rest.head? ≠ some 10) := by
    cases rest with
    | nil =>
      have hne : c ≠ 13 := fun hc => hcr (by rw [hrest, hc])
      simp [hne]
    | cons d rest => simp
  unfold StringParser.advanceMark
  rw [hrest]
  simp only [hends, lineEnds]
  split
  · rfl
  · exact (Int32.add_zero _).symm

@[simp] theorem rest_advance (n : Nat) (p : StringParser) : (advance n p).rest = p.rest.drop n := by
  induction n generalizing p with
  | zero => rfl
  | succ n ih =>
    rw [advance, ih, advanceMark]
    split <;> simp_all

theorem parsed_advance (n : Nat) (p : StringParser) :
    (advance n p).parsed = (p.rest.take n).reverse ++ p.parsed := by
  induction n generalizing p with
  | zero => rfl
  | succ n ih =>
    rw [advance, ih, advanceMark]
    split <;> simp_all

/-- Inside the stream the line number goes up by the line ends that are passed, as an `int`. -/
theorem fCurLineNumber_advance {n : Nat} (hinside : AdvancesInside n p) :
    (advance n p).fCurLineNumber =
      p.fCurLineNumber + Int32.ofNat (lineEnds (p.rest.take n).reverse (p.rest.drop n)) := by
  induction n generalizing p with
  | zero => exact (Int32.add_zero _).symm
  | succ n ih =>
    obtain ⟨hne, hcr, hinside⟩ := hinside
    obtain ⟨c, rest, hrest⟩ := List.exists_cons_of_ne_nil hne
    have hmark : p.advanceMark.rest = rest := by
      have hone := rest_advance 1 p
      rwa [hrest] at hone
    rw [advance, ih hinside, fCurLineNumber_advanceMark hrest hcr, hmark, hrest, List.take_succ_cons,
      List.reverse_cons, List.drop_succ_cons, lineEnds_append, List.reverse_reverse,
      List.take_append_drop, Int32.ofNat_add, Int32.add_assoc, Int32.add_comm (Int32.ofNat _)]

/-- Inside the stream the line number stays right exactly if it stays an `int`. -/
theorem LineCorrect.advance_iff {n : Nat} (h : LineCorrect p) (hinside : AdvancesInside n p) :
    LineCorrect (advance n p) ↔ LinesFit n p := by
  have hparts : lineEnds (advance n p).parsed (advance n p).rest =
      lineEnds (p.rest.take n).reverse (p.rest.drop n) + lineEnds p.parsed p.rest := by
    rw [parsed_advance, rest_advance, lineEnds_append, List.reverse_reverse, List.take_append_drop]
  have hlt := Int32.toInt_lt (advance n p).fCurLineNumber
  have hline := fCurLineNumber_advance hinside
  unfold LineCorrect at *
  unfold LinesFit
  rw [hparts]
  constructor
  · intro hright
    omega
  · intro hfits
    have hsmall : lineEnds (p.rest.take n).reverse (p.rest.drop n) < 2 ^ 31 := by omega
    rw [hline, Int32.toInt_add, Int32.toInt_ofNat_of_lt hsmall, Int.bmod_eq_of_le (by omega) (by omega)]
    omega

/-! ## Operations -/

theorem expect_snd (hnull : p.isNull = false) (stopChar : UInt8) :
    (p.expect stopChar).2 = advance (if p.rest.head? = some stopChar then 1 else 0) p := by
  unfold expect
  simp only [hnull, Bool.false_eq_true, if_false]
  split_ifs <;> rfl

theorem expectEOL_snd (hnull : p.isNull = false) :
    p.expectEOL.2 = advance (eolLength p.rest) p := by
  unfold expectEOL
  rw [hnull]
  cases hrest : p.rest with
  | nil => rfl
  | cons c rest =>
    by_cases hcr : c = 13
    · subst hcr
      cases rest with
      | nil => rfl
      | cons d rest =>
        by_cases hlf : d = 10
        · subst hlf
          rfl
        · have hone : eolLength (13 :: d :: rest) = 1 := by simp [eolLength, hlf]
          simp [hone, hlf, advance]
    · by_cases hlf : c = 10
      · subst hlf
        rfl
      · have hzero : eolLength (c :: rest) = 0 := by simp [eolLength, hcr, hlf]
        simp [hzero, hcr, hlf, advance]

theorem eolLength_le (rest : Bytes) : eolLength rest ≤ rest.length := by
  fun_cases eolLength <;> simp

theorem passes_le (rest : Bytes) (op : Op) : passes rest op ≤ rest.length := by
  have htake : ∀ q : UInt8 → Bool, (rest.takeWhile q).length ≤ rest.length := fun q =>
    (List.takeWhile_prefix q).length_le
  cases op with
  | consumeUntil inStop => exact htake _
  | consumeUntilMask inMask => exact htake _
  | consumeLength inLength => exact List.length_take_le' ..
  | consumeInteger => exact htake _
  | expect stopChar =>
    simp only [passes]
    split
    case isTrue h => exact List.length_pos_of_mem (List.mem_of_mem_head? h)
    case isFalse => exact Nat.zero_le _
  | expectEOL => exact eolLength_le rest
  | consumeEOL => exact eolLength_le rest
  | getThru stop =>
    simp only [passes]
    split
    case isTrue h =>
      have hpos := List.length_pos_of_mem (List.mem_of_mem_head? h)
      rw [List.length_drop] at hpos
      omega
    case isFalse => exact htake _
  | getThruEOL =>
    have heol := eolLength_le (rest.drop (rest.takeWhile (!sEOLMask ·)).length)
    have htext := htake (!sEOLMask ·)
    rw [List.length_drop] at heol
    simp only [passes]
    omega

/-- An operation passes the bytes that it is to consume. -/
theorem exec_eq (hnull : p.isNull = false) (hop : ∀ inLength, op ≠ .consumeLength inLength) :
    p.exec op = advance (passes p.rest op) p := by
  have huntil : ∀ stop : UInt8 → Bool,
      (p.consumeUntil stop).2 = advance (p.rest.takeWhile (!stop ·)).length p := fun stop => by
    simp [consumeUntil, hnull]
  cases op with
  | consumeUntil inStop => exact huntil _
  | consumeUntilMask inMask => exact huntil _
  | consumeLength inLength => exact absurd rfl (hop inLength)
  | consumeInteger => simp [exec, consumeInteger, hnull, passes]
  | expect stopChar => exact expect_snd hnull stopChar
  | expectEOL => exact expectEOL_snd hnull
  | consumeEOL =>
    simp only [exec, consumeEOL, hnull, Bool.false_eq_true, if_false]
    exact expectEOL_snd hnull
  | getThru stop =>
    simp only [exec, getThru, passes]
    rw [huntil, expect_snd (by simpa using hnull), rest_advance, advance_add]
  | getThruEOL =>
    simp only [exec, getThruEOL, passes]
    rw [huntil, expectEOL_snd (by simpa using hnull), rest_advance, advance_add]

/-! ## Steps -/

/-- The bytes to be consumed are the rest of the stream, which ends with a CR. -/
def PassesLastCR (p : StringParser) (op : Op) : Prop :=
  passes p.rest op = p.rest.length ∧ p.rest.getLast? = some 13

instance (p : StringParser) (op : Op) : Decidable (PassesLastCR p op) :=
  inferInstanceAs (Decidable (_ ∧ _))

/-- No CR that ends the stream is consumed, no more line ends than the line number can count and
no more bytes than a `short` counts, and what is given back are parsed bytes without a line end. -/
def stepOk (p : StringParser) : Op → Prop
  | .consumeLength inLength =>
    p.isNull = true ∨
      if 0 ≤ inLength then
        min inLength p.rest.length ≤ 32767 ∧ ¬ PassesLastCR p (.consumeLength inLength) ∧
          LinesFit (passes p.rest (.consumeLength inLength)) p
      else -inLength ≤ p.parsed.length ∧ lineEnds (p.parsed.take (-inLength).toNat) p.rest = 0
  | op => ¬ PassesLastCR p op ∧ LinesFit (passes p.rest op) p

/-- The parser is on the stream, and the line number counts the line ends in front of it. -/
structure On (stream : Bytes) (p : StringParser) : Prop where
  stream_eq : p.stream = stream
  line : LineCorrect p
  null : p.isNull = true → stream = []

variable {stream : Bytes}

/-- A number of bytes is passed inside the stream, and counted, exactly if no last CR and not too
many line ends are among them. -/
theorem advance_on (h : On stream p) {n : Nat} (hn : n ≤ p.rest.length) :
    (∃ q, (if AdvancesInside n p then some (advance n p) else none) = some q ∧ On stream q) ↔
      ¬ (n = p.rest.length ∧ p.rest.getLast? = some 13) ∧ LinesFit n p := by
  rw [← advancesInside_iff hn]
  constructor
  · rintro ⟨q, hq, hon⟩
    split_ifs at hq with hinside
    obtain rfl := Option.some.inj hq
    exact ⟨hinside, (h.line.advance_iff hinside).mp hon.line⟩
  · rintro ⟨hinside, hfits⟩
    refine ⟨_, if_pos hinside, ?_, (h.line.advance_iff hinside).mpr hfits, ?_⟩
    · rw [stream_advance, h.stream_eq]
    · rw [isNull_advance]
      exact h.null

theorem step_eq (hop : ∀ inLength, op ≠ .consumeLength inLength) (hnull : p.isNull = false) :
    p.step op = if AdvancesInside (passes p.rest op) p
      then some (advance (passes p.rest op) p) else none := by
  have hle := passes_le p.rest op
  have hstep : p.step op = (p.checked fun p => ((), p.exec op)).map (·.2) := by
    cases op with
    | consumeLength inLength => exact absurd rfl (hop inLength)
    | _ => rfl
  have hlen : p.rest.length - (p.rest.length - passes p.rest op) = passes p.rest op := by omega
  simp only [hstep, checked, exec_eq hnull hop, length_rest_advance, hlen]
  split_ifs <;> rfl

/-- Bytes that are given back without a line end do not change the count. -/
theorem moveBack_on (h : On stream p) (hnull : p.isNull = false) (n : Nat) :
    (∃ q, p.moveBack n = .inside q ∧ On stream q) ↔
      n ≤ p.parsed.length ∧ lineEnds (p.parsed.take n) p.rest = 0 := by
  have hline := h.line
  have hsum := lineEnds_append (p.parsed.take n) (p.parsed.drop n) p.rest
  rw [List.take_append_drop] at hsum
  unfold LineCorrect at hline
  unfold moveBack
  constructor
  · rintro ⟨q, hq, hon⟩
    split_ifs at hq with hle
    obtain rfl := Position.inside.inj hq
    have hline' := hon.line
    simp only [LineCorrect] at hline'
    omega
  · rintro ⟨hle, hnone⟩
    refine ⟨_, if_pos hle, ?_, ?_, fun h' => absurd h' (by simp [hnull])⟩
    · rw [← h.stream_eq]
      simp only [StringParser.stream]
      rw [← List.append_assoc, ← List.reverse_append, List.take_append_drop]
    · simp only [LineCorrect]
      omega

theorem exec_null (hnull : p.isNull = true) (op : Op) : p.exec op = p := by
  cases op <;>
    simp [exec, consumeUntil, consumeInteger, expect, expectEOL, consumeEOL, getThru, getThruEOL,
      hnull]

/-- Without a stream nothing happens. -/
theorem step_null (hnull : p.isNull = true) (op : Op) : p.step op = some p := by
  have hstay : p.checked (fun p => ((), p.exec op)) = some ((), p) :=
    checked_self (by rw [exec_null hnull])
  cases op with
  | consumeLength inLength => simp [step, consumeSInt32, hnull, AdvancesInside]
  | _ => simpa [step] using ⟨(), hstay⟩

theorem consumeLength_on (h : On stream p) (hnull : p.isNull = false) (inLength : Int) :
    (∃ q, p.step (.consumeLength inLength) = some q ∧ On stream q) ↔
      stepOk p (.consumeLength inLength) := by
  simp only [step, stepOk, hnull, Bool.false_eq_true, false_or]
  by_cases hpos : 0 ≤ inLength
  · rw [if_pos hpos]
    by_cases hfits : min inLength p.rest.length ≤ 32767
    · have hlen : p.rest.length - (p.rest.length - (p.rest.take inLength.toNat).length) =
          (p.rest.take inLength.toNat).length := by
        rw [List.length_take]
        omega
      rw [consumeSInt32_of_fits hnull hpos hfits]
      simp only [length_rest_advance, hlen]
      rw [advance_on h (List.length_take_le' ..)]
      exact (and_iff_right hfits).symm
    · simp [consumeSInt32_of_not_fits hnull (not_le.mp hfits), hfits]
  · obtain ⟨spl, hback⟩ := consumeSInt32_of_neg hnull (not_le.mp hpos) (p.rest.length + 1)
    have hmove := moveBack_on h hnull (-inLength).toNat
    rw [if_neg hpos, hback]
    have hle : (-inLength).toNat ≤ p.parsed.length ↔ -inLength ≤ p.parsed.length := by omega
    rw [hle] at hmove
    rw [← hmove]
    cases hmoved : p.moveBack (-inLength).toNat with
    | before distance => simp
    | inside q =>
      have hzero : p.rest.length - q.rest.length = 0 := by
        unfold moveBack at hmoved
        split_ifs at hmoved
        rw [← Position.inside.inj hmoved]
        simp
      simp [hzero, AdvancesInside]

/-- A step stays on the stream, with the right line number, exactly if it is one of these. -/
theorem step_on (h : On stream p) (op : Op) :
    (∃ q, p.step op = some q ∧ On stream q) ↔ stepOk p op := by
  cases hnull : p.isNull with
  | true =>
    have hnil : p.rest = [] := by
      have hstream := h.stream_eq.trans (h.null hnull)
      exact (List.append_eq_nil_iff.mp hstream).2
    have hfits : ∀ n, LinesFit n p := fun n => by
      have hlt := p.fCurLineNumber.toInt_lt
      simpa [LinesFit, hnil, lineEnds] using hlt
    rw [step_null hnull]
    refine iff_of_true ⟨p, rfl, h⟩ ?_
    cases op with
    | consumeLength inLength => exact .inl hnull
    | _ => simp [stepOk, PassesLastCR, hnil, hfits]
  | false =>
    by_cases hop : ∃ inLength, op = .consumeLength inLength
    · obtain ⟨inLength, rfl⟩ := hop
      exact consumeLength_on h hnull inLength
    · have hop' := not_exists.mp hop
      rw [step_eq hop' hnull, advance_on h (passes_le p.rest op)]
      cases op with
      | consumeLength inLength => exact absurd rfl (hop' inLength)
      | _ => rfl

/-! ## Runs -/

/-- The runs on a stream; `none` is the state behind an access outside of it, or a step that
does not end. -/
def reading (stream : StrPtrLen) (beyond : Bytes) : System (Option StringParser) Op where
  init s := s = some (ofString stream beyond)
  step s op t := t = s.bind (step · op)

theorem on_ofString (stream : StrPtrLen) (beyond : Bytes) :
    On (stream.getD []) (ofString stream beyond) where
  stream_eq := rfl
  line := rfl
  null h := by
    obtain rfl := Option.isNone_iff_eq_none.mp h
    rfl

/-- In a run on a stream every operation stays on the stream, looks at no byte outside of it
and leaves the line number right, exactly if every operation is one of those that do. -/
theorem position_iff (stream : StrPtrLen) (beyond : Bytes) (ops : List Op) :
    (reading stream beyond).Keeps (fun _ _ t => ∃ q, t = some q ∧ On (stream.getD []) q)
        (some (ofString stream beyond)) ops ↔
      (reading stream beyond).Meets (fun s op => ∃ p, s = some p ∧ stepOk p op)
        (some (ofString stream beyond)) ops := by
  refine System.keeps_iff_meets (fun s => ∃ p, s = some p ∧ On (stream.getD []) p) ?_ ?_
    ⟨_, rfl, on_ofString stream beyond⟩ ops
  · rintro _ op t ⟨p, rfl, hp⟩ rfl ⟨_, ⟨rfl⟩, hok⟩
    obtain ⟨q, hq, hon⟩ := (step_on hp op).mpr hok
    exact ⟨⟨q, hq, hon⟩, q, hq, hon⟩
  · rintro _ op t ⟨p, rfl, hp⟩ rfl ⟨q, hq, hon⟩
    exact ⟨p, rfl, (step_on hp op).mp ⟨q, hq, hon⟩⟩

/-- A stream that ends with a CR: the byte behind it is looked at. -/
theorem lastCR_not_kept :
    ¬ (reading (some (ascii "GET\r")) [10]).Keeps
        (fun _ _ t => ∃ q, t = some q ∧ On (ascii "GET\r") q)
        (some (ofString (some (ascii "GET\r")) [10])) [.getThruEOL] := by
  intro h
  obtain ⟨⟨q, hq, -⟩, -⟩ := h _ rfl
  have hnone : (ofString (some (ascii "GET\r")) [10]).step .getThruEOL = none := by decide
  rw [Option.bind_some, hnone] at hq
  cases hq

end CxxFramework.Core.StringParser
