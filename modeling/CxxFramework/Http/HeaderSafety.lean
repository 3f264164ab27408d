import CxxFramework.Http.CheckedParse
import CxxFramework.Http.HeaderBlock

/-!
# What `parseHeaders` needs of a packet

The searches for a colon and for a line end may come to the end of the packet. Whether a look
behind it follows depends on what they were to find, and on the last byte that was passed.

## Main definitions

* `HTTPPacket.SafeHeaders` — header lines that are read inside the packet.
-/

namespace CxxFramework.Net.HTTPPacket

open CxxFramework.Core StringParser HTTPProtocol

/-- What stands behind the first colon of a line. -/
def behindColon (line : Bytes) : Bytes := (line.dropWhile (· != 58)).drop 1

/-- Header lines up to an empty one, or to a text in which a colon or a line end is missed. -/
inductive SafeHeaders : Bytes → Prop
  | emptyLine {e rest : Bytes} : IsEOL e rest → ¬ (e = [13] ∧ rest = []) → SafeHeaders (e ++ rest)
  | noColon {s : Bytes} : s ≠ [] → StartsText s → 58 ∉ s → s.getLast? ≠ some 13 → SafeHeaders s
  | noEnd {s : Bytes} : StartsText s → 58 ∈ s → behindColon s ≠ [] → NoEOL (fieldValue s) →
      (getHeader (fieldName s)).isSome → SafeHeaders s
  | field {line e rest : Bytes} : StartsText line → 58 ∈ line → NoEOL (fieldValue line) →
      IsEOL e rest → SafeField line → SafeHeaders rest → SafeHeaders (line ++ (e ++ rest))

variable {h h' : HTTPPacket} {p q : StringParser} {parsed rest s t e line : Bytes}

theorem skipBlankChecked_at (hp : At p parsed rest) (hrest : rest ≠ []) :
    ∃ q parsed', At q parsed' (dropBlank rest) ∧ skipBlankChecked p = some q := by
  obtain ⟨c, rest, rfl⟩ := List.exists_cons_of_ne_nil hrest
  unfold skipBlankChecked
  rw [hp.peekChecked_eq, List.head?_cons, Option.bind_some]
  by_cases hc : c = 32
  · subst hc
    obtain ⟨q, parsed', hat, -, hchecked⟩ := hp.expect_checked (by decide)
    refine ⟨q, parsed', hat, ?_⟩
    rw [if_pos rfl, hchecked]
    rfl
  · refine ⟨p, parsed, ?_, if_neg hc⟩
    unfold dropBlank
    split
    · exact absurd (List.cons.inj ‹_›).1 hc
    · exact hp

theorem fieldName_line (hcolon : 58 ∈ line) (t : Bytes) :
    fieldName (line ++ t) = fieldName line := by
  conv_lhs => rw [fieldName_append line hcolon]
  unfold fieldName
  rw [List.append_assoc, List.takeWhile_append_of_pos fun c hc => by
    simpa using ne_of_mem_of_not_mem hc (colon_notMem_fieldName line)]
  simp

theorem behindColon_line (hcolon : 58 ∈ line) (t : Bytes) :
    behindColon (line ++ t) = behindColon line ++ t := by
  unfold behindColon
  conv_lhs => rw [fieldName_append line hcolon]
  rw [List.append_assoc, List.dropWhile_append_of_pos fun c hc => by
    simpa using ne_of_mem_of_not_mem hc (colon_notMem_fieldName line)]
  rfl

/-- The name in front of the colon is passed, and so are the colon and a blank. -/
theorem skipName_at (hp : At p parsed s) (hcolon : 58 ∈ s) (hne : behindColon s ≠ []) :
    ∃ q parsed', At q parsed' (fieldValue s) ∧ ∀ h : HTTPPacket, h.parseHeaderChecked p =
      (getHeader (fieldName s)).bind fun theHeader =>
        (q.checked (·.consumeUntil sEOLMask)).bind fun theHeaderVal =>
          (theHeaderVal.2.checked (·.expectEOL)).bind fun eol =>
            if eol.1 then
              (h.setField theHeader theHeaderVal.1).map fun h => .ok (h, eol.2)
            else some (.error (CF_BadArgument, { h with fStatusCode := .httpBadRequest })) := by
  rw [fieldName_append s hcolon] at hp
  obtain ⟨q₁, hq₁, hat₁⟩ := hp.consumeText (· == 58)
    (fun c hc => by simpa using ne_of_mem_of_not_mem hc (colon_notMem_fieldName s)) rfl
  have hkey := hp.checked_eq (·.consumeUntil (· == 58)) hq₁ hat₁
  rw [if_neg fun hnil => List.cons_ne_nil _ _ hnil.1] at hkey
  obtain ⟨q₂, parsed₂, hat₂, -, hexpect⟩ := hat₁.expect_checked (by decide)
  obtain ⟨q₃, parsed₃, hat₃, hblank⟩ := skipBlankChecked_at hat₂ hne
  refine ⟨q₃, parsed₃, hat₃, fun h => ?_⟩
  simp only [parseHeaderChecked, hkey, Option.bind_some, hexpect, if_true, hblank,
    Option.getD_some]

/-- A line with a colon is set, if its name is inside the tables and its line end is not a
`\r` at the end of the packet. -/
theorem parseHeaderChecked_field (h : HTTPPacket) (hp : At p parsed (line ++ (e ++ rest)))
    (hcolon : 58 ∈ line) (hvalue : NoEOL (fieldValue line)) (he : IsEOL e rest) :
    ∃ q parsed', At q parsed' rest ∧
      h.parseHeaderChecked p = (getHeader (fieldName line)).bind fun header =>
        if e = [13] ∧ rest = [] then none
        else (h.setField header (some (fieldValue line))).map fun h => .ok (h, q) := by
  have hbehind := behindColon_line hcolon (e ++ rest)
  have hval : fieldValue (line ++ (e ++ rest)) = fieldValue line ++ (e ++ rest) :=
    (congrArg dropBlank hbehind).trans (dropBlank_append he _)
  have hne : behindColon (line ++ (e ++ rest)) ≠ [] := by
    rw [hbehind]
    refine List.append_ne_nil_of_right_ne_nil _ ?_
    cases he <;> exact List.cons_ne_nil _ _
  obtain ⟨q₃, parsed₃, hat₃, hheader⟩ := skipName_at hp (List.mem_append_left _ hcolon) hne
  rw [hval] at hat₃
  obtain ⟨q₄, hq₄, hat₄⟩ := hat₃.consumeUntilEOL hvalue (.inl he.not_startsText)
  have hspan := At.checked_eq (s := fieldValue line) (·.consumeUntil sEOLMask) hat₃ hq₄ hat₄
  rw [if_neg (by rintro ⟨hnil, -⟩; cases he <;> cases hnil)] at hspan
  obtain ⟨q₅, parsed₅, hat₅, -, heol⟩ := hat₄.expectEOL_checked he
  refine ⟨q₅, parsed₅, hat₅, ?_⟩
  rw [hheader, fieldName_line hcolon]
  simp only [hspan, Option.bind_some, heol]
  congr 1
  funext header
  split_ifs <;> rfl

/-- Without a line end behind the colon, the line is refused. -/
theorem parseHeaderChecked_noEnd (h : HTTPPacket) (hp : At p parsed s) (hcolon : 58 ∈ s)
    (hne : behindColon s ≠ []) (hvalue : NoEOL (fieldValue s)) :
    h.parseHeaderChecked p = (getHeader (fieldName s)).map fun _ =>
      .error (CF_BadArgument, { h with fStatusCode := .httpBadRequest }) := by
  obtain ⟨q₁, parsed₁, hat₁, hheader⟩ := skipName_at hp hcolon hne
  obtain ⟨q₂, parsed₂, hat₂, -, hspan⟩ := hat₁.consumeUntil_inside (fun _ hc => hc)
  have hnil : (fieldValue s).dropWhile (!sEOLMask ·) = [] :=
    List.dropWhile_eq_nil_iff.mpr fun c hc => by simp [hvalue c hc]
  rw [hnil] at hat₂
  rw [hheader]
  simp only [hspan, Option.bind_some, hat₂.expectEOL_checked_text nofun]
  exact (Option.map_eq_bind ..).symm

/-- Nothing behind the colon can be looked at. -/
theorem parseHeaderChecked_noValue (h : HTTPPacket) (hp : At p parsed s) (hcolon : 58 ∈ s)
    (hnil : behindColon s = []) : h.parseHeaderChecked p = none := by
  have hsplit := fieldName_append s hcolon
  rw [show (s.dropWhile (· != 58)).drop 1 = [] from hnil] at hsplit
  rw [hsplit] at hp
  obtain ⟨q₁, hq₁, hat₁⟩ := hp.consumeText (· == 58)
    (fun c hc => by simpa using ne_of_mem_of_not_mem hc (colon_notMem_fieldName s)) rfl
  have hkey := hp.checked_eq (·.consumeUntil (· == 58)) hq₁ hat₁
  rw [if_neg fun hnil => List.cons_ne_nil _ _ hnil.1] at hkey
  obtain ⟨q₂, parsed₂, hat₂, -, hexpect⟩ := hat₁.expect_checked (by decide)
  have hblank : skipBlankChecked q₂ = none := by
    unfold skipBlankChecked
    rw [hat₂.peekChecked_eq]
    rfl
  simp only [parseHeaderChecked, hkey, Option.bind_some, hexpect, if_true, hblank]
  rfl

/-- Without a colon, the rest of the packet is passed. -/
theorem parseHeaderChecked_noColon (h : HTTPPacket) (hp : At p parsed s) (hcolon : 58 ∉ s) :
    h.parseHeaderChecked p =
      if s.getLast? = some 13 then none
      else some (.error (CF_BadArgument, { h with fStatusCode := .httpBadRequest })) := by
  obtain ⟨q, parsed', hat, -, hchecked⟩ := hp.consumeUntil_checked (· == 58)
  have hnil : s.dropWhile (fun c => !(c == 58)) = [] :=
    List.dropWhile_eq_nil_iff.mpr fun c hc => by simpa using ne_of_mem_of_not_mem hc hcolon
  rw [hnil] at hat
  simp only [hnil, true_and] at hchecked
  have hexpect : q.expect 58 = (false, q) := by
    unfold expect
    rw [hat.notNull, hat.rest_eq]
    rfl
  rw [parseHeaderChecked, hchecked]
  split_ifs with hlast
  · rfl
  · rw [Option.bind_some, checked_self hexpect]
    rfl

theorem parseHeadersChecked_emptyLine (h : HTTPPacket) (hp : At p parsed (e ++ rest))
    (he : IsEOL e rest) :
    h.parseHeadersChecked p = if e = [13] ∧ rest = [] then none else some (CF_NoErr, h) := by
  obtain ⟨q, parsed', hat, -, heol⟩ := hp.expectEOL_checked he
  obtain ⟨c, hpeek, hc⟩ : ∃ c, p.peekChecked = some c ∧ (c = 13 ∨ c = 10) := by
    rw [hp.peekChecked_eq]
    cases he with
    | crlf | cr => exact ⟨13, rfl, .inl rfl⟩
    | lf => exact ⟨10, rfl, .inr rfl⟩
  rw [parseHeadersChecked, hpeek]
  simp only [if_pos hc, heol]
  split_ifs <;> rfl

theorem parseHeadersChecked_line (h : HTTPPacket) (hp : At p parsed s) (hne : s ≠ [])
    (hstart : StartsText s) :
    h.parseHeadersChecked p = (h.parseHeaderChecked p).bind fun result =>
      match result with
      | .error result => some result
      | .ok (h', q) => h'.parseHeadersChecked q := by
  obtain ⟨c, s, rfl⟩ := List.exists_cons_of_ne_nil hne
  have hc : ¬ (c = 13 ∨ c = 10) := by
    rw [← hp.peekFast]
    exact startsText_peek hp (hstart c rfl)
  rw [parseHeadersChecked, hp.peekChecked_eq]
  simp only [List.head?_cons, if_neg hc]
  split <;> next hline => rw [hline]; rfl

/-- A line that is set, and the lines behind it. -/
theorem parseHeadersChecked_field (h : HTTPPacket) (hp : At p parsed (line ++ (e ++ rest)))
    (hstart : StartsText line) (hcolon : 58 ∈ line) (hvalue : NoEOL (fieldValue line))
    (he : IsEOL e rest) :
    ∃ q parsed', At q parsed' rest ∧
      h.parseHeadersChecked p = (getHeader (fieldName line)).bind fun header =>
        if e = [13] ∧ rest = [] then none
        else (h.setField header (some (fieldValue line))).bind (·.parseHeadersChecked q) := by
  have hne : line ≠ [] := List.ne_nil_of_mem hcolon
  obtain ⟨q, parsed', hat, hline⟩ := parseHeaderChecked_field h hp hcolon hvalue he
  refine ⟨q, parsed', hat, ?_⟩
  rw [parseHeadersChecked_line h hp (List.append_ne_nil_of_left_ne_nil hne _)
    (hstart.append hne), hline, Option.bind_assoc]
  congr 1
  funext header
  split_ifs
  · rfl
  · rw [Option.bind_map]
    rfl

theorem ne_nil_of_isEOL (he : IsEOL e rest) : e ≠ [] := by
  cases he <;> exact List.cons_ne_nil _ _

theorem SafeHeaders.ne_nil (hs : SafeHeaders s) : s ≠ [] := by
  cases hs with
  | emptyLine he => exact List.append_ne_nil_of_left_ne_nil (ne_nil_of_isEOL he) _
  | noColon hne => exact hne
  | noEnd _ hcolon => exact List.ne_nil_of_mem hcolon
  | field _ hcolon => exact List.append_ne_nil_of_left_ne_nil (List.ne_nil_of_mem hcolon) _

/-- Each of the forms of `SafeHeaders` is parsed. -/
theorem SafeHeaders.parse (hs : SafeHeaders s) (h : HTTPPacket) (hp : At p parsed s) :
    (h.parseHeadersChecked p).isSome := by
  induction hs generalizing h p parsed with
  | emptyLine he hcr =>
    rw [parseHeadersChecked_emptyLine h hp he, if_neg hcr]
    rfl
  | noColon hne hstart hcolon hlast =>
    rw [parseHeadersChecked_line h hp hne hstart, parseHeaderChecked_noColon h hp hcolon,
      if_neg hlast]
    rfl
  | noEnd hstart hcolon hne hvalue hname =>
    rw [parseHeadersChecked_line h hp (List.ne_nil_of_mem hcolon) hstart,
      parseHeaderChecked_noEnd h hp hcolon hne hvalue]
    obtain ⟨header, hheader⟩ := Option.isSome_iff_exists.mp hname
    rw [hheader]
    rfl
  | field hstart hcolon hvalue he hfield hrest ih =>
    obtain ⟨q, parsed', hat, hline⟩ := parseHeadersChecked_field h hp hstart hcolon hvalue he
    obtain ⟨header, hheader, hknown⟩ := hfield
    obtain ⟨h', hset⟩ := Option.isSome_iff_exists.mp
      ((setField_isSome_iff h header _).mpr hknown)
    rw [hline, hheader, Option.bind_some, if_neg fun hcr => hrest.ne_nil hcr.2, hset]
    exact ih h' hat

/-- The bytes up to a place behind the colon. -/
theorem exists_line (hcolon : 58 ∈ s) {text : Bytes} (hsplit : behindColon s = text ++ t) :
    ∃ line, s = line ++ t ∧ 58 ∈ line ∧ behindColon line = text := by
  have hmem : 58 ∈ fieldName s ++ 58 :: text := by simp
  have hline : s = (fieldName s ++ 58 :: text) ++ t := by
    conv_lhs => rw [fieldName_append s hcolon]
    rw [show (s.dropWhile (· != 58)).drop 1 = text ++ t from hsplit, List.append_assoc]
    rfl
  refine ⟨_, hline, hmem, ?_⟩
  have hbehind := behindColon_line hmem t
  rw [← hline, hsplit] at hbehind
  exact (List.append_cancel_right hbehind).symm

theorem noEOL_fieldValue_of_behind (h : NoEOL (behindColon s)) : NoEOL (fieldValue s) :=
  fun c hc => h c ((dropBlank_suffix _).subset hc)

/-- Nothing else is parsed. -/
theorem safeHeaders_of_parse (hp : At p parsed s) (hsome : (h.parseHeadersChecked p).isSome) :
    SafeHeaders s := by
  induction hlen : s.length using Nat.strong_induction_on generalizing s h p parsed with
  | _ n ih =>
  subst hlen
  rcases startsText_or_isEOL s with hstart | ⟨e, rest, rfl, he⟩
  · rcases eq_or_ne s [] with rfl | hne
    · rw [parseHeadersChecked, hp.peekChecked_eq] at hsome
      cases hsome
    · by_cases hcolon : 58 ∈ s
      · rcases noEOL_or_line (behindColon s) with hvalue | ⟨text, e, rest, hsplit, htext, he⟩
        · rw [parseHeadersChecked_line h hp hne hstart] at hsome
          have hbehind : behindColon s ≠ [] := by
            intro hnil
            rw [parseHeaderChecked_noValue h hp hcolon hnil] at hsome
            cases hsome
          have hvalue := noEOL_fieldValue_of_behind hvalue
          rw [parseHeaderChecked_noEnd h hp hcolon hbehind hvalue] at hsome
          refine .noEnd hstart hcolon hbehind hvalue ?_
          cases hname : getHeader (fieldName s) with
          | none =>
            rw [hname] at hsome
            cases hsome
          | some header => rfl
        · obtain ⟨line, rfl, hline, rfl⟩ := exists_line hcolon hsplit
          have hvalue := noEOL_fieldValue_of_behind htext
          have hstart := hstart.of_isPrefix (List.prefix_append ..)
          obtain ⟨q, parsed', hat, heq⟩ := parseHeadersChecked_field h hp hstart hline hvalue he
          rw [heq] at hsome
          obtain ⟨result, hresult⟩ := Option.isSome_iff_exists.mp hsome
          obtain ⟨header, hheader, hrest⟩ := Option.bind_eq_some_iff.mp hresult
          split_ifs at hrest
          obtain ⟨h', hset, hparse⟩ := Option.bind_eq_some_iff.mp hrest
          have hknown :=
            (setField_isSome_iff h header (fieldValue line)).mp (by rw [hset]; rfl)
          refine .field hstart hline hvalue he ⟨header, hheader, hknown⟩ ?_
          refine ih _ ?_ hat (by rw [hparse]; rfl) rfl
          simp only [List.length_append]
          have hpos := List.length_pos_of_mem hline
          omega
      · rw [parseHeadersChecked_line h hp hne hstart,
          parseHeaderChecked_noColon h hp hcolon] at hsome
        refine .noColon hne hstart hcolon fun hlast => ?_
        rw [if_pos hlast] at hsome
        cases hsome
  · rw [parseHeadersChecked_emptyLine h hp he] at hsome
    refine .emptyLine he fun hcr => ?_
    rw [if_pos hcr] at hsome
    cases hsome

theorem parseHeadersChecked_isSome_iff (h : HTTPPacket) (hp : At p parsed s) :
    (h.parseHeadersChecked p).isSome ↔ SafeHeaders s :=
  ⟨safeHeaders_of_parse hp, fun hs => hs.parse h hp⟩

end CxxFramework.Net.HTTPPacket
