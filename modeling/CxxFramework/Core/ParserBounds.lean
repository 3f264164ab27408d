import CxxFramework.Core.StringParser
import Mathlib.Data.List.Basic

/-!
# The bounds of a parser

`advanceMark` looks at the byte behind each `\r` it passes, whether it is still in the
string or not. Nothing else that moves a parser looks further than its position.

## Main definitions

* `StringParser.AdvancesInside` — a number of bytes is passed without a look behind the end.
* `StringParser.checked` — an operation, if its accesses are in the string.
* `StringParser.EndsLine` — nothing is left, or what is left ends with a line end.
-/

namespace CxxFramework.Core.StringParser

/-- `advanceMark` a number of times looks at no byte behind the string. -/
def AdvancesInside : Nat → StringParser → Prop
  | 0, _ => True
  | n + 1, p => p.rest ≠ [] ∧ p.rest ≠ [13] ∧ AdvancesInside n p.advanceMark

instance decidableAdvancesInside : ∀ n p, Decidable (AdvancesInside n p)
  | 0, _ => isTrue trivial
  | n + 1, p =>
    have := decidableAdvancesInside n p.advanceMark
    inferInstanceAs (Decidable (_ ∧ _ ∧ _))

/-- An operation of the parser, if it looks at no byte behind the string. -/
def checked {α : Type} (p : StringParser) (op : StringParser → α × StringParser) :
    Option (α × StringParser) :=
  if AdvancesInside (p.rest.length - (op p).2.rest.length) p then some (op p) else none

/-- `*fStartGet`, if it is in the string. -/
def peekChecked (p : StringParser) : Option UInt8 := if p.isNull then none else p.rest.head?

variable {α : Type} {p q : StringParser} {op : StringParser → α × StringParser} {out : α}
  {parsed rest s t : Bytes} {n : Nat}

theorem eq_of_checked {result : α × StringParser} (h : p.checked op = some result) :
    op p = result := by
  unfold checked at h
  split_ifs at h
  exact Option.some.inj h

theorem peekFast_of_checked {c : UInt8} (h : p.peekChecked = some c) : p.peekFast = c := by
  unfold peekChecked at h
  unfold peekFast
  split_ifs at h ⊢
  cases hrest : p.rest with
  | nil => simp [hrest] at h
  | cons d rest => simpa [hrest] using h

theorem At.peekChecked_eq (h : At p parsed rest) : p.peekChecked = rest.head? := by
  rw [peekChecked, h.notNull, h.rest_eq]
  rfl

/-- Only the `\r` that ends the string has no byte behind it in the string. -/
theorem advancesInside_iff (hn : n ≤ p.rest.length) :
    AdvancesInside n p ↔ ¬ (n = p.rest.length ∧ p.rest.getLast? = some 13) := by
  induction n generalizing p with
  | zero =>
    refine iff_of_true trivial ?_
    rintro ⟨hlen, hlast⟩
    rw [List.length_eq_zero_iff.mp hlen.symm] at hlast
    cases hlast
  | succ n ih =>
    cases hrest : p.rest with
    | nil =>
      rw [hrest] at hn
      cases hn
    | cons c rest =>
      have hmark : p.advanceMark.rest = rest := by simp [advanceMark, hrest]
      rw [hrest, List.length_cons] at hn
      rw [AdvancesInside, ih (by rw [hmark]; omega), hmark, hrest]
      cases rest with
      | nil =>
        obtain rfl : n = 0 := by simpa using hn
        simp
      | cons d rest => simp

variable (op) in
/-- An operation that passes `s` is refused only if `s` ends the string with a `\r`. -/
theorem At.checked_eq {parsed' : Bytes} (h : At p parsed (s ++ t)) (hop : op p = (out, q))
    (hq : At q parsed' t) :
    p.checked op = if t = [] ∧ s.getLast? = some 13 then none else some (out, q) := by
  have hlen : p.rest.length - q.rest.length = s.length := by
    rw [h.rest_eq, hq.rest_eq, List.length_append, Nat.add_sub_cancel]
  have hinside := advancesInside_iff (p := p) (n := s.length) (by rw [h.rest_eq]; simp)
  have hcr : (s.length = p.rest.length ∧ p.rest.getLast? = some 13) ↔
      t = [] ∧ s.getLast? = some 13 := by
    rw [h.rest_eq, List.length_append, left_eq_add, List.length_eq_zero_iff]
    exact and_congr_right fun hnil => by rw [hnil, List.append_nil]
  rw [hcr] at hinside
  simp only [checked, hop, hlen]
  split_ifs with hpass hnot hnot
  · exact absurd hnot (hinside.mp hpass)
  · rfl
  · rfl
  · exact absurd (hinside.mpr hnot) hpass

/-! ## Strings that end with a line end -/

/-- Nothing is left, or what is left ends with a line end. -/
def EndsLine (s : Bytes) : Prop := ∀ c ∈ s.getLast?, sEOLMask c = true

theorem EndsLine.suffix (h : EndsLine s) (hsuffix : t <:+ s) : EndsLine t := by
  obtain ⟨front, rfl⟩ := hsuffix
  cases t with
  | nil => nofun
  | cons c t => rwa [EndsLine, List.getLast?_append_of_ne_nil _ (List.cons_ne_nil c t)] at h

/-- `ConsumeUntil` is refused if it comes to the end behind a `\r`. -/
theorem At.consumeUntil_checked (h : At p parsed s) (stop : UInt8 → Bool) :
    ∃ q parsed', At q parsed' (s.dropWhile (!stop ·)) ∧
      p.consumeUntil stop = (some (s.takeWhile (!stop ·)), q) ∧
      p.checked (·.consumeUntil stop) =
        if s.dropWhile (!stop ·) = [] ∧ s.getLast? = some 13 then none
        else some (some (s.takeWhile (!stop ·)), q) := by
  obtain ⟨q, hq, hat⟩ := h.consumeUntil stop
  refine ⟨q, _, hat, hq, ?_⟩
  have hsplit := List.takeWhile_append_dropWhile (p := (!stop ·)) (l := s)
  have h' := h
  rw [← hsplit] at h'
  rw [h'.checked_eq (·.consumeUntil stop) hq hat]
  refine if_congr (and_congr_right fun hnil => ?_) rfl rfl
  rw [hnil, List.append_nil] at hsplit
  rw [hsplit]

/-- A search that stops at line ends is not refused. -/
theorem At.consumeUntil_inside (h : At p parsed s) {stop : UInt8 → Bool}
    (hstop : ∀ c, sEOLMask c = true → stop c = true) :
    ∃ q parsed', At q parsed' (s.dropWhile (!stop ·)) ∧
      p.consumeUntil stop = (some (s.takeWhile (!stop ·)), q) ∧
      p.checked (·.consumeUntil stop) = some (some (s.takeWhile (!stop ·)), q) := by
  obtain ⟨q, parsed', hat, hq, hchecked⟩ := h.consumeUntil_checked stop
  refine ⟨q, parsed', hat, hq, ?_⟩
  rw [hchecked, if_neg]
  rintro ⟨hnil, hlast⟩
  have hmem := List.mem_of_getLast? hlast
  have hgo := List.dropWhile_eq_nil_iff.mp hnil 13 hmem
  rw [hstop 13 (by decide)] at hgo
  cases hgo

/-- The text of a line is passed. -/
theorem At.consumeUntilEOL_checked {text : Bytes} (h : At p parsed (text ++ rest))
    (htext : NoEOL text) (hrest : ¬ StartsText rest ∨ rest = []) :
    ∃ q, At q (text.reverse ++ parsed) rest ∧ p.consumeUntil sEOLMask = (some text, q) ∧
      p.checked (·.consumeUntil sEOLMask) = some (some text, q) := by
  obtain ⟨q, hq, hat⟩ := h.consumeUntilEOL htext hrest
  refine ⟨q, hat, hq, ?_⟩
  rw [h.checked_eq (·.consumeUntil sEOLMask) hq hat, if_neg]
  rintro ⟨-, hlast⟩
  exact absurd (htext 13 (List.mem_of_getLast? hlast)) (by decide)

theorem checked_self (hop : op p = (out, p)) : p.checked op = some (out, p) := by
  have hlen : p.rest.length - p.rest.length = 0 := Nat.sub_self _
  simp only [checked, hop, hlen]
  exact if_pos trivial

theorem At.expectEOL_checked {e : Bytes} (h : At p parsed (e ++ rest)) (he : IsEOL e rest) :
    ∃ q parsed', At q parsed' rest ∧ p.expectEOL = (true, q) ∧
      p.checked (·.expectEOL) = if e = [13] ∧ rest = [] then none else some (true, q) := by
  obtain ⟨q, hq, hat⟩ := h.expectEOL he
  refine ⟨q, _, hat, hq, ?_⟩
  rw [h.checked_eq (·.expectEOL) hq hat]
  refine if_congr ?_ rfl rfl
  rw [and_comm]
  refine and_congr_left fun _ => ?_
  cases he <;> decide

theorem At.expectEOL_checked_text (h : At p parsed rest) (htext : StartsText rest) :
    p.checked (·.expectEOL) = some (false, p) :=
  checked_self (h.expectEOL_text htext)

/-- Behind a line end that is passed, the string ends as it did. -/
theorem getLast?_line {e : Bytes} (text : Bytes) (he : IsEOL e rest)
    (hpass : ¬ (e = [13] ∧ rest = [])) :
    (text ++ (e ++ rest)).getLast? = some 13 ↔ rest.getLast? = some 13 := by
  cases rest with
  | nil =>
    refine iff_of_false ?_ nofun
    cases he with
    | crlf => simp
    | lf => simp
    | cr => exact absurd ⟨rfl, rfl⟩ hpass
  | cons c rest =>
    rw [← List.append_assoc, List.getLast?_append_of_ne_nil _ (List.cons_ne_nil c rest)]

/-- A character that is no line end is passed. -/
theorem At.expect_checked {c : UInt8} (h : At p parsed (c :: rest)) (hc : c ≠ 13) :
    ∃ q parsed', At q parsed' rest ∧ p.expect c = (true, q) ∧
      p.checked (·.expect c) = some (true, q) := by
  obtain ⟨q, hq, hat⟩ := h.expect
  refine ⟨q, _, hat, hq, ?_⟩
  rw [At.checked_eq (s := [c]) (·.expect c) h hq hat, if_neg]
  rintro ⟨-, hlast⟩
  exact hc (Option.some.inj hlast)

end CxxFramework.Core.StringParser
