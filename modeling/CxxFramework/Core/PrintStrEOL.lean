import CxxFramework.Core.CString
import CxxFramework.Library.Runs
import Mathlib.Algebra.Ring.Parity

/-!
# Printing what was received

`StrPtrLen::PrintStrEOL` prints a text line by line, and passes each line to `printf` as the
format. Before that it replaces `%` signs, so that no line has a conversion specification:
none in which a `%` is left over when each `%` is paired with the one behind it.
-/

namespace CxxFramework.Core

open Search Runs

/-- `sNonPrintChars` -/
def sNonPrintChars (c : UInt8) : Bool :=
  (1 ≤ c && c ≤ 9) || (11 ≤ c && c ≤ 12) || (14 ≤ c && c ≤ 31) || 178 ≤ c

namespace PrintStrEOL

/-- The copy of the text, cut at the first character that is not printed. The loop counts to
`(SInt32) Len`. -/
def printable (text : Bytes) : Bytes :=
  let length := (Int.bmod text.length (2 ^ 32)).toNat
  cString <| match (text.take length).findIdx? sNonPrintChars with
    | some i => text.take i
    | none => text

/-- The loop that replaces a `%` in front of another byte, or at the end, by `$`. -/
def replacePercent : Bytes → Bytes
  | [] => []
  | c :: rest =>
    (if c = 37 ∧ rest.head? ≠ some 37 then 36 else c) :: replacePercent rest

/-- The text, cut behind the first occurrence of the stop string. -/
def stopAt (stopStr : Option Bytes) (thestr : Bytes) : Bytes :=
  let stop := cString (stopStr.getD [])
  if 0 < stop.length ∧ stop.length ≤ thestr.length then
    match strstr thestr stop with
    | some stopPtr => thestr.take (stopPtr + stop.length)
    | none => thestr
  else thestr

/-- The loop that prints the lines; `theStrLine` is what it has seen of one. -/
def printLines (theStrLine : Bytes) : Bytes → List Bytes
  | [] => [theStrLine]
  | c :: rest =>
    if c = 13 then theStrLine :: ascii "\\r" :: printLines [] rest
    else if c = 10 then theStrLine :: ascii "\\n\n" :: printLines [] rest
    else printLines (theStrLine ++ [c]) rest

/-- `PrintStrEOL`: the texts that are passed to `printf` as its format. -/
def printStrEOL (text : Bytes) (stopStr appendStr : Option Bytes) : List Bytes :=
  printLines [] (stopAt stopStr (replacePercent (printable text))) ++
    (appendStr.map cString).toList

/-! ## Conversion specifications -/

/-- Every run of `%` has even length: `printf` prints half of it. -/
def Plain (format : Bytes) : Prop := ∀ n ∈ runs 37 format, Even n

instance (format : Bytes) : Decidable (Plain format) := List.decidableBAll _ _

theorem plain_of_notMem {format : Bytes} (h : 37 ∉ format) : Plain format := fun n hn =>
  (runs_of_notMem h n hn).symm ▸ Even.zero

theorem plain_append_cons {c : UInt8} (hc : c ≠ 37) (s t : Bytes) :
    Plain (s ++ c :: t) ↔ Plain s ∧ Plain t := by
  simp only [Plain, runs_append_cons hc, List.forall_mem_append]

/-- The cuts at line ends do not cut a run. -/
theorem printLines_plain (theStrLine rest : Bytes) :
    (∀ format ∈ printLines theStrLine rest, Plain format) ↔ Plain (theStrLine ++ rest) := by
  induction rest generalizing theStrLine with
  | nil => simp [printLines]
  | cons c rest ih =>
    have hcr : Plain (ascii "\\r") := by decide
    have hlf : Plain (ascii "\\n\n") := by decide
    simp only [printLines]
    split_ifs with hc hc'
    · simp [hc, hcr, ih, plain_append_cons (show (13 : UInt8) ≠ 37 by decide)]
    · simp [hc', hlf, ih, plain_append_cons (show (10 : UInt8) ≠ 37 by decide)]
    · rw [ih, List.append_assoc, List.singleton_append]

theorem printStrEOL_plain (text : Bytes) (stopStr appendStr : Option Bytes) :
    (∀ format ∈ printStrEOL text stopStr appendStr, Plain format) ↔
      Plain (stopAt stopStr (replacePercent (printable text))) ∧
        ∀ append ∈ appendStr, Plain (cString append) := by
  rw [printStrEOL, List.forall_mem_append, printLines_plain, List.nil_append]
  simp

/-! ## What the replacement leaves -/

/-- Every run of `%` has odd length, where there is one. -/
def OddRuns (text : Bytes) : Prop := ∀ n ∈ runs 37 text, n = 0 ∨ Odd n

instance (text : Bytes) : Decidable (OddRuns text) := List.decidableBAll _ _

/-- Of a run of `%` the last one is replaced. -/
theorem replacePercent_runsFrom {text : Bytes} {n : Nat} (h : n = 0 ∨ text.head? = some 37) :
    (∀ k ∈ runsFrom 37 n (replacePercent text), Even k) ↔
      ∀ k ∈ runsFrom 37 n text, k = 0 ∨ Odd k := by
  induction text generalizing n with
  | nil =>
    obtain rfl : n = 0 := by simpa using h
    simp [replacePercent, runsFrom]
  | cons c rest ih =>
    by_cases hc : c = 37
    · subst hc
      by_cases hnext : rest.head? = some 37
      · simpa [replacePercent, runsFrom, hnext] using ih (.inr hnext)
      · have hrest := ih (n := 0) (.inl rfl)
        rw [runsFrom_of_head hnext] at hrest
        have hodd : (n + 1 = 0 ∨ Odd (n + 1)) ↔ Even n := by simp [Nat.odd_add_one]
        have hreplaced : replacePercent (37 :: rest) = 36 :: replacePercent rest := by
          simp [replacePercent, hnext]
        have hruns : runsFrom 37 n (36 :: replacePercent rest) =
          n :: runsFrom 37 0 (replacePercent rest) := rfl
        have hlonger : runsFrom 37 n (37 :: rest) = (n + 1) :: (runs 37 rest).tail :=
          runsFrom_of_head hnext (n + 1)
        rw [hreplaced, hruns, hlonger, List.forall_mem_cons, List.forall_mem_cons, hrest, hodd,
          List.forall_mem_cons]
        simp
    · obtain rfl : n = 0 := by simpa [hc] using h
      simpa [replacePercent, runsFrom, hc] using ih (.inl rfl)

theorem replacePercent_plain (text : Bytes) : Plain (replacePercent text) ↔ OddRuns text :=
  replacePercent_runsFrom (.inl rfl)

theorem length_replacePercent (text : Bytes) : (replacePercent text).length = text.length := by
  induction text with
  | nil => rfl
  | cons c rest ih => simp [replacePercent, ih]

theorem notMem_replacePercent {c : UInt8} {text : Bytes} (hc : c ≠ 36) (h : c ∉ text) :
    c ∉ replacePercent text := by
  induction text with
  | nil => exact h
  | cons d rest ih =>
    obtain ⟨hd, hrest⟩ := not_or.mp (List.mem_cons.not.mp h)
    refine List.mem_cons.not.mpr (not_or.mpr ⟨?_, ih hrest⟩)
    split
    · exact hc
    · exact hd

/-- A `%` is left where another one is behind it. -/
theorem percent_mem_replacePercent (text : Bytes) :
    37 ∈ replacePercent text ↔ [37, 37] <:+: text := by
  induction text with
  | nil => simp [replacePercent]
  | cons c rest ih =>
    rw [replacePercent, List.mem_cons, ih, List.infix_cons_iff]
    refine or_congr_left ?_
    cases rest with
    | nil => simp; grind
    | cons d rest => simp; grind

/-- A cut that does not cut a run can be made before the replacement. -/
theorem replacePercent_append {front behind : Bytes}
    (h : front.getLast? ≠ some 37 ∨ behind.head? ≠ some 37) :
    replacePercent (front ++ behind) = replacePercent front ++ replacePercent behind := by
  induction front with
  | nil => rfl
  | cons c front ih =>
    cases front with
    | nil =>
      have hc : c ≠ 37 ∨ behind.head? ≠ some 37 := by simpa using h
      simp [replacePercent]
      grind
    | cons d front =>
      have hcut := ih (by simpa using h)
      rw [List.cons_append, replacePercent, hcut]
      rfl

theorem take_replacePercent {text : Bytes} {n : Nat} (h : (text.take n).getLast? ≠ some 37) :
    (replacePercent text).take n = replacePercent (text.take n) := by
  rcases Nat.le_total text.length n with hle | hle
  · rw [List.take_of_length_le hle, List.take_of_length_le (by rwa [length_replacePercent])]
  · have hcut : replacePercent (text.take n ++ text.drop n) =
        replacePercent (text.take n) ++ replacePercent (text.drop n) :=
      replacePercent_append (.inl h)
    rw [List.take_append_drop] at hcut
    rw [hcut, List.take_left' (by rw [length_replacePercent, List.length_take_of_le hle])]

/-! ## Stop strings -/

variable {stop text : Bytes}

/-- A string without the two characters of the replacement stands where it stood before. -/
theorem isPrefix_replacePercent (hpercent : 37 ∉ stop) (hdollar : 36 ∉ stop) :
    stop <+: replacePercent text ↔ stop <+: text := by
  induction stop generalizing text with
  | nil => simp
  | cons s stop ih =>
    obtain ⟨hs, hpercent⟩ := not_or.mp (List.mem_cons.not.mp hpercent)
    obtain ⟨hs', hdollar⟩ := not_or.mp (List.mem_cons.not.mp hdollar)
    cases text with
    | nil => simp [replacePercent]
    | cons c rest =>
      rw [replacePercent, List.cons_prefix_cons, List.cons_prefix_cons, ih hpercent hdollar]
      refine and_congr_left fun _ => ?_
      split <;> grind

theorem find_replacePercent (hpercent : 37 ∉ stop) (hdollar : 36 ∉ stop) :
    find stop (replacePercent text) = find stop text := by
  induction text with
  | nil => rfl
  | cons c rest ih =>
    have hfront : stop <+: replacePercent (c :: rest) ↔ stop <+: c :: rest :=
      isPrefix_replacePercent hpercent hdollar
    rw [replacePercent] at hfront ⊢
    simp only [find, hfront, ih]

/-- Cutting at such a stop string and replacing can be done in either order. -/
theorem stopAt_replacePercent {stopStr : Option Bytes} (hpercent : 37 ∉ cString (stopStr.getD []))
    (hdollar : 36 ∉ cString (stopStr.getD [])) (hzero : 0 ∉ text) :
    stopAt stopStr (replacePercent text) = replacePercent (stopAt stopStr text) := by
  have hzero' : 0 ∉ replacePercent text := notMem_replacePercent (by decide) hzero
  simp only [stopAt, strstr, cString_of_noZero hzero, cString_of_noZero hzero',
    length_replacePercent, find_replacePercent hpercent hdollar]
  split
  case isFalse => rfl
  case isTrue hstop =>
    cases hfind : find (cString (stopStr.getD [])) text with
    | none => rfl
    | some p =>
      have hstop_eq := List.prefix_iff_eq_take.mp (find_isPrefix hfind)
      refine take_replacePercent fun hlast => hpercent ?_
      rw [List.take_add, ← hstop_eq, List.getLast?_append_of_ne_nil _
        (List.ne_nil_of_length_pos hstop.1)] at hlast
      exact List.mem_of_getLast? hlast

/-! ## When the lines are plain -/

theorem zero_notMem_printable (text : Bytes) : 0 ∉ printable text := zero_notMem_cString _

theorem stopAt_isPrefix (stopStr : Option Bytes) (thestr : Bytes) :
    stopAt stopStr thestr <+: thestr := by
  simp only [stopAt]
  split
  · split
    · exact List.take_prefix ..
    · exact List.prefix_rfl
  · exact List.prefix_rfl

/-- With a stop string that is cut at the first `%` that is left, the line ends in it. -/
theorem exists_stop_not_plain {text : Bytes} (hzero : 0 ∉ text) (h : [37, 37] <:+: text) :
    ∃ stop, ¬ Plain (stopAt (some stop) (replacePercent text)) := by
  have hzero' : 0 ∉ replacePercent text := notMem_replacePercent (by decide) hzero
  obtain ⟨front, behind, heq, hfront⟩ :=
    List.eq_append_cons_of_mem ((percent_mem_replacePercent text).mpr h)
  have hstart : front ++ [37] <+: replacePercent text := ⟨behind, by simp [heq]⟩
  have hnoZero : cString (front ++ [37]) = front ++ [37] :=
    cString_of_noZero fun hmem => hzero' (hstart.subset hmem)
  refine ⟨front ++ [37], fun hplain => ?_⟩
  have hcut : stopAt (some (front ++ [37])) (replacePercent text) = front ++ [37] := by
    have hfits : 0 < (front ++ [37]).length ∧
        (front ++ [37]).length ≤ (replacePercent text).length := ⟨by simp, hstart.length_le⟩
    simp only [stopAt, Option.getD_some, hnoZero, strstr, cString_of_noZero hzero',
      find_of_isPrefix hstart, Nat.zero_add]
    rw [if_pos hfits]
    exact (List.prefix_iff_eq_take.mp hstart).symm
  rw [hcut] at hplain
  exact absurd (hplain 1 (one_mem_runs hfront)) (by decide)

/-- Without two `%` side by side none is left. -/
theorem plain_of_noDouble {text : Bytes} (stopStr : Option Bytes) (h : ¬ [37, 37] <:+: text) :
    Plain (stopAt stopStr (replacePercent text)) := by
  have hnone : 37 ∉ replacePercent text := (percent_mem_replacePercent text).not.mpr h
  exact plain_of_notMem fun hmem => hnone ((stopAt_isPrefix stopStr _).subset hmem)

/-- The lines of a text are plain for every stop string exactly if no two `%` stand side by
side in what is printed of it. For a stop string with neither `%` nor `$` they are plain
exactly if every run of `%` in front of the stop has odd length. -/
theorem formatsPlain_iff (text : Bytes) (appendStr : Option Bytes) :
    ((∀ stopStr, ∀ format ∈ printStrEOL text stopStr appendStr, Plain format) ↔
      ¬ [37, 37] <:+: printable text ∧ ∀ append ∈ appendStr, Plain (cString append)) ∧
    ∀ stopStr, 37 ∉ cString (stopStr.getD []) → 36 ∉ cString (stopStr.getD []) →
      ((∀ format ∈ printStrEOL text stopStr appendStr, Plain format) ↔
        OddRuns (stopAt stopStr (printable text)) ∧
          ∀ append ∈ appendStr, Plain (cString append)) := by
  refine ⟨⟨fun h => ⟨fun hdouble => ?_, ?_⟩, fun h stopStr => ?_⟩, fun stopStr hp hd => ?_⟩
  · obtain ⟨stop, hstop⟩ := exists_stop_not_plain (zero_notMem_printable text) hdouble
    exact hstop ((printStrEOL_plain text (some stop) appendStr).mp (h (some stop))).1
  · exact ((printStrEOL_plain text none appendStr).mp (h none)).2
  · exact (printStrEOL_plain text stopStr appendStr).mpr ⟨plain_of_noDouble stopStr h.1, h.2⟩
  · rw [printStrEOL_plain, stopAt_replacePercent hp hd (zero_notMem_printable text),
      replacePercent_plain]

/-- Of two `%` the second one is replaced: the format is `%$`. -/
theorem percentPair_not_plain :
    ¬ ∀ format ∈ printStrEOL (ascii "GET /%% HTTP/1.1\r\n\r\n") (some (ascii "\n\r\n"))
      (some (ascii "\n")), Plain format := by
  decide

end PrintStrEOL

end CxxFramework.Core
