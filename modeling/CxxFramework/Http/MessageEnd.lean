import CxxFramework.Http.HeaderSearch
import CxxFramework.Http.RequestStreamRun

/-!
# The end of the message

The length of the message at the front of the bytes received, which `ReadRequest` looks for
each time it has received new bytes; and the bytes for which it finds the same message
however many of them it has received, or none.

## Main definitions

* `HTTPRequestStream.messageEnd` — the length of the message at the front.
* `HTTPRequestStream.Unfinished` — bytes in which no message is found, whole or cut.
* `HTTPRequestStream.Distinct` — a message that is found as soon as it is complete, and then
  whatever has been received behind it.
-/

namespace CxxFramework.Net

open CxxFramework.Core StringParser

namespace HTTPRequestStream

/-- The length of an interleaved data packet, from its third and fourth byte. -/
def interleavedPacketLen (s : Bytes) : Nat :=
  (s.getD 2 0).toNat * 256 + (s.getD 3 0).toNat + 4

/-- The length of the message at the front of the bytes received, if it is complete. -/
def messageEnd (s : Bytes) : Option Nat :=
  if s.head? = some 36 then
    if s.length < 4 ∨ s.length < interleavedPacketLen s then none
    else some (interleavedPacketLen s)
  else
    match findHeaderEnd s (StringParser.ofString (some s) []) 0 with
    | .incomplete => none
    | .weAreDone dataRemaining => some (s.length - dataRemaining)

variable {s t text m rest : Bytes}

/-! ## Packets -/

theorem interleavedPacketLen_of_isPrefix (h : t <+: s) (hlen : 4 ≤ t.length) :
    interleavedPacketLen t = interleavedPacketLen s := by
  obtain ⟨u, rfl⟩ := h
  have hget (i : Nat) (hi : i < t.length) : (t ++ u).getD i 0 = t.getD i 0 := by
    simp only [List.getD_eq_getElem?_getD, List.getElem?_append_left hi]
  rw [interleavedPacketLen, interleavedPacketLen, hget 2 (by omega), hget 3 (by omega)]

theorem messageEnd_packet (h : s.head? = some 36) :
    messageEnd s =
      if s.length < 4 ∨ s.length < interleavedPacketLen s then none
      else some (interleavedPacketLen s) :=
  if_pos h

/-! ## Headers -/

/-- The first line of a header has a blank in it. -/
def BlankFirst (s : Bytes) : Prop := ∃ text rest, s = text ++ 32 :: rest ∧ NoEOL text

theorem messageEnd_of_incomplete (h : s.head? ≠ some 36)
    (hsearch : findHeaderEnd s (StringParser.ofString (some s) []) 0 = .incomplete) :
    messageEnd s = none := by
  rw [messageEnd, if_neg h, hsearch]

theorem messageEnd_of_weAreDone {n : Nat} (h : s.head? ≠ some 36)
    (hsearch : findHeaderEnd s (StringParser.ofString (some s) []) 0 = .weAreDone n) :
    messageEnd s = some (s.length - n) := by
  rw [messageEnd, if_neg h, hsearch]

/-- No message is found in the start of a header. -/
theorem messageEnd_openHeader (h : s.head? ≠ some 36) (hs : OpenHeader s)
    (hblank : NoEOL s ∨ 32 ∈ s) : messageEnd s = none := by
  refine messageEnd_of_incomplete h (findHeaderEnd_open hs (at_ofString s []) ?_)
  rcases hblank with hnone | hmem
  · exact .inl hnone
  · exact .inr (.inl hmem)

/-- A header with a blank ends with its blank line. -/
theorem messageEnd_header {tail left : Bytes} (h : m.head? ≠ some 36) (hm : Header m)
    (hblank : 32 ∈ m) (hleft : Left m tail left) :
    messageEnd (m ++ tail) = some ((m ++ tail).length - left.length) := by
  refine messageEnd_of_weAreDone ?_ (findHeaderEnd_header hm hleft (at_ofString _ []) nofun ?_)
  · rwa [List.head?_append_of_ne_nil _ hm.ne_nil]
  · exact .inl (List.mem_append_left _ hblank)

/-- A first line with a blank line behind it is a message. -/
theorem messageEnd_blankEnd {e : Bytes} (h : text.head? ≠ some 36) (htext : NoEOL text)
    (he : BlankEnd e) : messageEnd (text ++ e) = some (text ++ e).length := by
  have hhead : (text ++ e).head? ≠ some 36 := by
    cases text with
    | nil => cases he <;> decide
    | cons c text => exact h
  have hat := at_ofString (text ++ e) []
  refine messageEnd_of_weAreDone (n := 0) hhead ?_
  exact findHeaderEnd_blankEnd htext he (left_nil _) (by rwa [List.append_nil])
    fun hcr => by simp at hcr

theorem head?_line {e : Bytes} (h : text.head? ≠ some 36) (he : IsEOL e rest) :
    (text ++ (e ++ rest)).head? ≠ some 36 := by
  cases text with
  | nil => cases he <;> simp
  | cons c text => exact h

/-- A first line without blanks is a message, if no blank is received at all. -/
theorem messageEnd_password {e : Bytes} (h : text.head? ≠ some 36) (htext : NoEOL text)
    (he : IsEOL e rest) (hrest : StartsText rest) (hblank : 32 ∉ text ++ (e ++ rest)) :
    messageEnd (text ++ (e ++ rest)) = some (text ++ e).length := by
  obtain ⟨q, -, hsearch⟩ := findHeaderEnd_text (text ++ (e ++ rest)) 0
    (at_ofString _ []) htext he hrest
  rw [if_pos ⟨rfl, hblank⟩] at hsearch
  rw [messageEnd_of_weAreDone (head?_line h he) hsearch]
  simp only [List.length_append, Option.some.injEq]
  omega

/-- A first line without blanks and two bytes that end lines are a message. -/
theorem messageEnd_eol_eol {c d : UInt8} (h : text.head? ≠ some 36) (htext : NoEOL text)
    (hblank : 32 ∉ text) (hc : c = 13 ∨ c = 10) (hd : d = 13 ∨ d = 10) :
    messageEnd (text ++ [c, d]) = some (text ++ [c, d]).length := by
  rcases hc with rfl | rfl <;> rcases hd with rfl | rfl
  · exact messageEnd_blankEnd h htext .crCr
  · exact messageEnd_password h htext (.crlf []) nofun (by simpa using hblank)
  · exact messageEnd_blankEnd h htext .lfCr
  · exact messageEnd_blankEnd h htext .lfLf

/-- A first line is no message if a blank is received. -/
theorem lt_of_messageEnd_text {e : Bytes} {n : Nat} (h : text.head? ≠ some 36)
    (htext : NoEOL text) (he : IsEOL e rest) (hrest : StartsText rest)
    (hblank : 32 ∈ text ++ (e ++ rest)) (hn : messageEnd (text ++ (e ++ rest)) = some n) :
    (text ++ e).length < n := by
  obtain ⟨q, hat, hsearch⟩ := findHeaderEnd_text (text ++ (e ++ rest)) 0
    (at_ofString _ []) htext he hrest
  rw [if_neg fun hboth => hboth.2 hblank] at hsearch
  cases hfound : findHeaderEnd (text ++ (e ++ rest)) q (0 + 1) with
  | incomplete =>
    rw [messageEnd_of_incomplete (head?_line h he) (hsearch.trans hfound)] at hn
    cases hn
  | weAreDone dataRemaining =>
    have hlt := findHeaderEnd_lt hfound
    rw [messageEnd_of_weAreDone (head?_line h he) (hsearch.trans hfound)] at hn
    rw [hat.rest_eq] at hlt
    simp only [List.length_append, Option.some.injEq] at hn ⊢
    omega

/-- The end of a message is inside the bytes received. -/
theorem messageEnd_le {n : Nat} (h : messageEnd s = some n) : 0 < n ∧ n ≤ s.length := by
  unfold messageEnd at h
  split_ifs at h with hdollar hshort
  · cases h
    unfold interleavedPacketLen at hshort ⊢
    omega
  · split at h
    · cases h
    · next dataRemaining hfound =>
      have hlt : dataRemaining < s.length := findHeaderEnd_lt hfound
      cases h
      omega

/-! ## Bytes without a message -/

/-- Bytes in which no message is found, whole or cut: a data packet that is not complete, or
the start of a header, whose first line has a blank if it ends. -/
inductive Unfinished (s : Bytes) : Prop
  | packet : s.head? = some 36 → s.length < 4 ∨ s.length < interleavedPacketLen s → Unfinished s
  | header : s.head? ≠ some 36 → OpenHeader s → NoEOL s ∨ BlankFirst s → Unfinished s

theorem BlankFirst.mem (hs : BlankFirst s) : 32 ∈ s := by
  obtain ⟨text, rest, rfl, -⟩ := hs
  simp

theorem BlankFirst.of_isPrefix (hs : BlankFirst s) (h : t <+: s) : NoEOL t ∨ BlankFirst t := by
  obtain ⟨text, rest, rfl, htext⟩ := hs
  rcases prefix_append_cases h with hpre | ⟨u, rfl, hu⟩
  · exact .inl (htext.of_isPrefix hpre)
  · rcases List.prefix_cons_iff.mp hu with rfl | ⟨v, rfl, -⟩
    · exact .inl (by rwa [List.append_nil])
    · exact .inr ⟨text, v, rfl, htext⟩

theorem messageEnd_nil : messageEnd [] = none :=
  messageEnd_openHeader (by simp) (.text nofun) (.inl nofun)

theorem head?_of_isPrefix (h : t <+: s) (hne : t ≠ []) : t.head? = s.head? := by
  obtain ⟨u, rfl⟩ := h
  exact (List.head?_append_of_ne_nil _ hne).symm

theorem Unfinished.messageEnd_prefix (hs : Unfinished s) (h : t <+: s) : messageEnd t = none := by
  rcases eq_or_ne t [] with rfl | hne
  · exact messageEnd_nil
  · have hhead := head?_of_isPrefix h hne
    cases hs with
    | packet hdollar hshort =>
      rw [messageEnd_packet (hhead.trans hdollar), if_pos]
      have hle := h.length_le
      by_cases hlen : t.length < 4
      · exact .inl hlen
      · rw [interleavedPacketLen_of_isPrefix h (by omega)]
        omega
    | header hdollar hopen hblank =>
      refine messageEnd_openHeader (hhead ▸ hdollar) (hopen.of_isPrefix h) ?_
      rcases hblank with hnone | hfirst
      · exact .inl (hnone.of_isPrefix h)
      · exact (hfirst.of_isPrefix h).imp_right BlankFirst.mem

/-! ## Bytes with a message at the front -/

/-- A message that is found as soon as it is complete, and then whatever part has been
received of the bytes `rest` behind it: a data packet; a header with a blank in its first
line, if no LF comes behind a CR that ends it; and a first line without blanks, if text comes
behind it and no blank. -/
inductive Distinct (m rest : Bytes) : Prop
  | packet : m.head? = some 36 → 4 ≤ m.length → interleavedPacketLen m = m.length → Distinct m rest
  | header : m.head? ≠ some 36 → Header m → BlankFirst m →
      (m.getLast? = some 13 → rest.head? ≠ some 10) → Distinct m rest
  | password {text : Bytes} {c : UInt8} : m = text ++ [c] → text.head? ≠ some 36 → NoEOL text →
      32 ∉ text → c = 13 ∨ c = 10 → StartsText rest → 32 ∉ rest → Distinct m rest

theorem isEOL_singleton {c : UInt8} (hc : c = 13 ∨ c = 10) (hrest : StartsText rest) :
    IsEOL [c] rest := by
  rcases hc with rfl | rfl
  · exact .cr hrest.head?_ne_lf
  · exact .lf rest

theorem Distinct.messageEnd_prefix (hd : Distinct m rest) (h : t <+: m ++ rest) :
    messageEnd t = if m.length ≤ t.length then some m.length else none := by
  cases hd with
  | packet hdollar hfour hlen =>
    have hm : m ≠ [] := List.ne_nil_of_length_pos (by omega)
    rcases eq_or_ne t [] with rfl | hne
    · rw [messageEnd_nil, if_neg (by simpa using hm)]
    · have hhead := head?_of_isPrefix h hne
      rw [List.head?_append_of_ne_nil _ hm, hdollar] at hhead
      rw [messageEnd_packet hhead]
      by_cases hshort : t.length < 4
      · rw [if_pos (.inl hshort), if_neg (by omega)]
      · rw [interleavedPacketLen_of_isPrefix h (by omega),
          ← interleavedPacketLen_of_isPrefix (List.prefix_append m rest) hfour, hlen]
        split_ifs <;> first | rfl | omega
  | header hdollar hm hblank hlast =>
    rcases prefix_append_cases h with hpre | ⟨u, rfl, hu⟩
    · rcases eq_or_ne t m with rfl | hne
      · have hend := messageEnd_header hdollar hm hblank.mem (left_nil t)
        rw [List.append_nil] at hend
        rw [hend, if_pos le_rfl]
        rfl
      · have hlt : t.length < m.length :=
          lt_of_le_of_ne hpre.length_le fun heq => hne (hpre.eq_of_length heq)
        rw [if_neg (by omega)]
        refine messageEnd_openHeader (head?_ne_of_isPrefix hdollar hpre)
          (hm.openHeader_of_prefix hpre hne) ((hblank.of_isPrefix hpre).imp_right BlankFirst.mem)
    · have hleft : Left m u u := .all fun hcr => head?_ne_of_isPrefix (hlast hcr) hu
      rw [messageEnd_header hdollar hm hblank.mem hleft, if_pos (by simp)]
      simp
  | @password text c hmeq hdollar htext hblank hc hrest hnone =>
    subst hmeq
    rcases prefix_append_cases (a := text) (b := [c] ++ rest) (by simpa using h) with
      hpre | ⟨u, rfl, hu⟩
    · have hle := hpre.length_le
      rw [if_neg (by simp; omega)]
      exact messageEnd_openHeader (head?_ne_of_isPrefix hdollar hpre)
        (.text (htext.of_isPrefix hpre))
        (.inl (htext.of_isPrefix hpre))
    · rcases List.prefix_cons_iff.mp hu with rfl | ⟨v, rfl, hv⟩
      · rw [List.append_nil, if_neg (by simp)]
        exact messageEnd_openHeader hdollar (.text htext) (.inl htext)
      · have hstart := hrest.of_isPrefix hv
        have hc32 : c ≠ 32 := by
          rintro rfl
          revert hc
          decide
        have hno : 32 ∉ text ++ ([c] ++ v) := by
          simp only [List.mem_append, List.mem_singleton, not_or]
          exact ⟨hblank, hc32.symm, fun hmem => hnone (hv.subset hmem)⟩
        have hend := messageEnd_password hdollar htext (isEOL_singleton hc hstart) hstart hno
        rw [List.singleton_append] at hend
        rw [hend, if_pos (by simp)]

end HTTPRequestStream

end CxxFramework.Net
