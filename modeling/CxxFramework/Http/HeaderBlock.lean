import CxxFramework.Http.HeaderLookup
import CxxFramework.Http.HeaderRoundTrip

/-!
# Header blocks

`parseHeaders` searches for a colon and then for a line end. Both searches go on over what
they do not look for: a line without a colon is read together with the lines behind it, up to
the first one that has a colon.

## Main definitions

* `HTTPPacket.blockText` — the bytes of a number of lines and an empty line.
* `HTTPPacket.Reads` — the block is read line by line.
* `HTTPPacket.joined` — the lines that `parseHeaders` sees.
-/

namespace CxxFramework.Net.HTTPPacket

open CxxFramework.Core StringParser HTTPProtocol

/-! ## Lines -/

/-- A line, and the line end behind it. -/
abbrev Line := Bytes × Bytes

/-- The bytes of a number of lines, and an empty line that ends with `e`. -/
def blockText (e : Bytes) : List Line → Bytes
  | [] => e
  | (text, eol) :: lines => text ++ (eol ++ blockText e lines)

/-- Lines that are not empty, and an empty one. -/
def IsBlock (e : Bytes) : List Line → Prop
  | [] => IsEOL e []
  | (text, eol) :: lines =>
    text ≠ [] ∧ NoEOL text ∧ IsEOL eol (blockText e lines) ∧ IsBlock e lines

/-- What stands in front of the first colon of a line. -/
def fieldName (line : Bytes) : Bytes := line.takeWhile (· != 58)

def dropBlank : Bytes → Bytes
  | 32 :: s => s
  | s => s

/-- What stands behind the first colon of a line, and behind a blank. -/
def fieldValue (line : Bytes) : Bytes := dropBlank ((line.dropWhile (· != 58)).drop 1)

/-- The line is one of a header, whatever the case of its name. -/
def Names (header : HTTPHeader) (line : Bytes) : Prop :=
  equalIgnoreCase (fieldName line) (getHeaderString header) = some true

instance (header : HTTPHeader) : DecidablePred (Names header) :=
  fun _ => inferInstanceAs (Decidable (_ = _))

/-- The value of the last line of a header, or what it was. -/
def lastValue (header : HTTPHeader) (old : StrPtrLen) (lines : List Bytes) : StrPtrLen :=
  ((lines.filter (Names header)).getLast?.map fun line => some (fieldValue line)).getD old

/-- `parseHeaders` reads a block line by line: it has no error exactly if each line has a
colon, and then each header has the value of its last line. -/
structure Reads (h : HTTPPacket) (p : StringParser) (lines : List Bytes) : Prop where
  accepts : (∀ line ∈ lines, 58 ∈ line) → ∃ h', h.parseHeaders p = some (CF_NoErr, h') ∧
    ∀ header ≠ .httpIllegalHeader,
      h'.fFieldValues header = lastValue header (h.fFieldValues header) lines
  refuses : (∃ line ∈ lines, 58 ∉ line) → ∃ h', h.parseHeaders p = some (CF_BadArgument, h')

/-! ## What the parser sees -/

/-- The lines that end with a line that has a colon, behind a text that has none. -/
def joined (front : Bytes) : List Line → List Bytes
  | [] => []
  | (text, eol) :: lines =>
    if 58 ∈ text then (front ++ text) :: joined [] lines else joined (front ++ (text ++ eol)) lines

/-- Behind a text without a colon, no line without one is the last. -/
def EndsField (front : Bytes) : List Line → Prop
  | [] => front = []
  | (text, eol) :: lines =>
    if 58 ∈ text then EndsField [] lines else EndsField (front ++ (text ++ eol)) lines

instance decidableEndsField : ∀ front lines, Decidable (EndsField front lines)
  | front, [] => inferInstanceAs (Decidable (front = []))
  | front, (text, eol) :: lines =>
    have := decidableEndsField [] lines
    have := decidableEndsField (front ++ (text ++ eol)) lines
    inferInstanceAs (Decidable (if 58 ∈ text then _ else _))

/-- A line as `parseHeaders` takes it. -/
def setLine (h : HTTPPacket) (line : Bytes) : Option HTTPPacket :=
  (getHeader (fieldName line)).bind fun header => h.setField header (some (fieldValue line))

variable {h h' : HTTPPacket} {p q : StringParser} {parsed rest text front e : Bytes}
  {lines : List Line}

theorem skipBlank_at (hp : At p parsed rest) (hrest : rest ≠ []) :
    ∃ q parsed', skipBlank p = some q ∧ At q parsed' (dropBlank rest) := by
  obtain ⟨c, rest, rfl⟩ := List.exists_cons_of_ne_nil hrest
  unfold skipBlank
  rw [hp.peekFast]
  by_cases hc : c = 32
  · subst hc
    obtain ⟨q, hq, hat⟩ := hp.expect
    rw [if_pos rfl, hq]
    exact ⟨q, _, rfl, hat⟩
  · rw [if_neg hc]
    refine ⟨p, parsed, rfl, ?_⟩
    unfold dropBlank
    split
    · exact absurd (List.cons.inj ‹_›).1 hc
    · exact hp

theorem fieldName_append (line : Bytes) (h : 58 ∈ line) :
    line = fieldName line ++ 58 :: (line.dropWhile (· != 58)).drop 1 := by
  have hne : line.dropWhile (· != 58) ≠ [] := by
    intro hnil
    have hgo := List.dropWhile_eq_nil_iff.mp hnil 58 h
    exact absurd hgo (by decide)
  obtain ⟨c, s, hcons⟩ := List.exists_cons_of_ne_nil hne
  have hc : c = 58 := by
    have hstop := List.head?_dropWhile_not (· != (58 : UInt8)) line
    rw [hcons] at hstop
    simpa using hstop
  have hsplit := List.takeWhile_append_dropWhile (p := (· != (58 : UInt8))) (l := line)
  rw [hcons, hc] at hsplit
  rw [hcons, List.drop_succ_cons, List.drop_zero]
  exact hsplit.symm

theorem colon_notMem_fieldName (line : Bytes) : 58 ∉ fieldName line := fun hmem =>
  absurd (List.mem_takeWhile_imp hmem) (by decide)

theorem dropBlank_append (he : IsEOL e rest) (s : Bytes) :
    dropBlank (s ++ (e ++ rest)) = dropBlank s ++ (e ++ rest) := by
  cases s with
  | nil => cases he <;> rfl
  | cons c s =>
    by_cases hc : c = 32
    · subst hc
      rfl
    · unfold dropBlank
      simp [hc]

theorem startsText_peek {c : UInt8} (hp : At p parsed (c :: rest)) (hc : sEOLMask c = false) :
    ¬ (p.peekFast = 13 ∨ p.peekFast = 10) := by
  rw [hp.peekFast]
  simpa [sEOLMask] using hc

/-- A line with a colon is set, and the next line comes behind its line end. -/
theorem parseHeaders_colon (h : HTTPPacket) (hp : At p parsed (text ++ (e ++ rest)))
    (hstart : StartsText text) (hcolon : 58 ∈ text) (hvalue : NoEOL (fieldValue text))
    (he : IsEOL e rest) :
    ∃ q parsed', At q parsed' rest ∧
      h.parseHeaders p = (h.setLine text).bind fun h' => h'.parseHeaders q := by
  have hpeek : ¬ (p.peekFast = 13 ∨ p.peekFast = 10) := by
    obtain ⟨c, s, hcons⟩ := List.exists_cons_of_ne_nil (List.ne_nil_of_mem hcolon)
    rw [hcons, List.cons_append] at hp
    exact startsText_peek hp (hstart c (by rw [hcons]; rfl))
  have hsplit : text ++ (e ++ rest) = fieldName text ++ 58 ::
      ((text.dropWhile (· != 58)).drop 1 ++ (e ++ rest)) := by
    conv_lhs => rw [fieldName_append text hcolon]
    rw [List.append_assoc, List.cons_append]
  rw [hsplit] at hp
  obtain ⟨q, hkey, hq⟩ := hp.getThru (colon_notMem_fieldName text)
  have hne : (text.dropWhile (· != 58)).drop 1 ++ (e ++ rest) ≠ [] := by
    refine List.append_ne_nil_of_right_ne_nil _ ?_
    cases he <;> exact List.cons_ne_nil _ _
  obtain ⟨q', parsed', hskip, hblank⟩ := skipBlank_at hq hne
  rw [dropBlank_append he] at hblank
  obtain ⟨r, hval, hr⟩ := hblank.getThruEOL hvalue he
  refine ⟨r, _, hr, ?_⟩
  rw [parseHeaders_line hpeek hkey hskip hval, setLine, Option.bind_assoc]
  rfl

/-- Without a colon, the rest of the block is refused. -/
theorem parseHeaders_noColon (h : HTTPPacket) (hp : At p parsed rest) (hne : rest ≠ [])
    (hstart : StartsText rest) (hcolon : 58 ∉ rest) :
    h.parseHeaders p = some (CF_BadArgument, { h with fStatusCode := .httpBadRequest }) := by
  have hpeek : ¬ (p.peekFast = 13 ∨ p.peekFast = 10) := by
    obtain ⟨c, s, rfl⟩ := List.exists_cons_of_ne_nil hne
    exact startsText_peek hp (hstart c rfl)
  have hkey : (p.getThru 58).1 = false := by
    obtain ⟨q, hq, hat⟩ := hp.consumeUntil (· == 58)
    have hnil : rest.dropWhile (fun c => !(c == 58)) = [] :=
      List.dropWhile_eq_nil_iff.mpr fun c hc => by simpa using ne_of_mem_of_not_mem hc hcolon
    rw [hnil] at hat
    unfold getThru expect
    rw [hq]
    simp [hat.notNull, hat.rest_eq]
  rw [parseHeaders, if_neg hpeek]
  split
  next => rfl
  next heq => simp [heq] at hkey

theorem fieldValue_append (hfront : 58 ∉ front) (text : Bytes) :
    fieldValue (front ++ text) = fieldValue text := by
  unfold fieldValue
  rw [List.dropWhile_append_of_pos fun c hc => by simpa using ne_of_mem_of_not_mem hc hfront]

theorem dropBlank_suffix (s : Bytes) : dropBlank s <:+ s := by
  unfold dropBlank
  split
  · exact List.suffix_cons _ _
  · exact List.suffix_rfl

theorem fieldValue_suffix (line : Bytes) : fieldValue line <:+ line :=
  (dropBlank_suffix _).trans ((List.drop_suffix 1 _).trans (List.dropWhile_suffix _))

theorem noEOL_fieldValue (h : NoEOL text) : NoEOL (fieldValue text) :=
  fun c hc => h c ((fieldValue_suffix text).subset hc)

theorem colon_notMem_eol (he : IsEOL e rest) : 58 ∉ e := by
  cases he <;> decide

/-- `parseHeaders` takes the joined lines one by one. -/
theorem parseHeaders_joined (h : HTTPPacket) (hp : At p parsed (front ++ blockText e lines))
    (hfront : 58 ∉ front) (hstart : StartsText front) (hblock : IsBlock e lines) :
    h.parseHeaders p = ((joined front lines).foldlM setLine h).map fun h' =>
      if EndsField front lines then (CF_NoErr, h')
      else (CF_BadArgument, { h' with fStatusCode := .httpBadRequest }) := by
  induction lines generalizing h p parsed front with
  | nil =>
    by_cases hnil : front = []
    · subst hnil
      have he : IsEOL e [] := hblock
      have hend : At p parsed (e ++ []) := by simpa [blockText] using hp
      obtain ⟨q, hq, -⟩ := hend.expectEOL he
      have hpeek : p.peekFast = 13 ∨ p.peekFast = 10 := by
        cases he with
        | crlf => exact .inl hp.peekFast
        | lf => exact .inr hp.peekFast
        | cr => exact .inl hp.peekFast
      rw [parseHeaders, if_pos hpeek, hq]
      rfl
    · have he : IsEOL e [] := hblock
      have hcolon : 58 ∉ front ++ e := by
        rw [List.mem_append]
        exact not_or.mpr ⟨hfront, colon_notMem_eol he⟩
      rw [parseHeaders_noColon h hp (List.append_ne_nil_of_left_ne_nil hnil _)
        (hstart.append hnil) hcolon]
      simp [joined, EndsField, hnil]
  | cons line lines ih =>
    obtain ⟨text, eol⟩ := line
    obtain ⟨hne, htext, he, hblock⟩ := hblock
    have hstart' : StartsText (front ++ text) := by
      cases front with
      | nil => exact fun c hc => htext c (List.mem_of_head? hc)
      | cons c front => exact hstart
    by_cases hcolon : 58 ∈ text
    · have hassoc : front ++ blockText e ((text, eol) :: lines) =
          (front ++ text) ++ (eol ++ blockText e lines) := (List.append_assoc ..).symm
      rw [hassoc] at hp
      obtain ⟨q, parsed', hq, hstep⟩ := parseHeaders_colon h hp hstart'
        (List.mem_append_right _ hcolon)
        (by rw [fieldValue_append hfront]; exact noEOL_fieldValue htext) he
      rw [hstep, joined, if_pos hcolon, List.foldlM_cons]
      cases h.setLine (front ++ text) with
      | none => rfl
      | some h₁ =>
        simp only [EndsField, if_pos hcolon]
        exact ih h₁ hq List.not_mem_nil startsText_nil hblock
    · have hassoc : front ++ blockText e ((text, eol) :: lines) =
          front ++ (text ++ eol) ++ blockText e lines := by
        simp only [blockText, List.append_assoc]
      rw [hassoc] at hp
      rw [joined, if_neg hcolon]
      simp only [EndsField, if_neg hcolon]
      refine ih h hp ?_ ?_ hblock
      · simp only [List.mem_append]
        exact not_or.mpr ⟨hfront, not_or.mpr ⟨hcolon, colon_notMem_eol he⟩⟩
      · rw [← List.append_assoc]
        exact hstart'.append (List.append_ne_nil_of_right_ne_nil _ hne)

/-! ## Lines and joined lines -/

/-- The last line of a block has a colon. -/
def LastColon (lines : List Line) : Prop := ∀ line ∈ lines.getLast?, 58 ∈ line.1

theorem endsField_iff (hblock : IsBlock e lines) (hne : lines ≠ []) (front : Bytes) :
    EndsField front lines ↔ LastColon lines := by
  induction lines generalizing front with
  | nil => exact absurd rfl hne
  | cons line lines ih =>
    obtain ⟨text, eol⟩ := line
    obtain ⟨htext, -, -, hblock⟩ := hblock
    cases lines with
    | nil =>
      simp only [EndsField, LastColon, List.getLast?_singleton, Option.mem_some_iff, forall_eq']
      split_ifs with hcolon
      · exact iff_of_true trivial hcolon
      · refine iff_of_false ?_ hcolon
        exact List.append_ne_nil_of_right_ne_nil _ (List.append_ne_nil_of_left_ne_nil htext _)
    | cons next lines =>
      have hlast : LastColon ((text, eol) :: next :: lines) ↔ LastColon (next :: lines) := by
        unfold LastColon
        rw [List.getLast?_cons_cons]
      rw [hlast, EndsField]
      split_ifs
      · exact ih hblock (List.cons_ne_nil _ _) []
      · exact ih hblock (List.cons_ne_nil _ _) _

theorem joined_of_colon (hcolon : ∀ line ∈ lines.map Prod.fst, 58 ∈ line) :
    joined [] lines = lines.map Prod.fst := by
  induction lines with
  | nil => rfl
  | cons line lines ih =>
    obtain ⟨hline, hlines⟩ := List.forall_mem_cons.mp hcolon
    rw [joined, if_pos hline, ih hlines]
    rfl

theorem endsField_of_colon (hcolon : ∀ line ∈ lines.map Prod.fst, 58 ∈ line) :
    EndsField [] lines := by
  induction lines with
  | nil => exact rfl
  | cons line lines ih =>
    obtain ⟨hline, hlines⟩ := List.forall_mem_cons.mp hcolon
    rw [EndsField, if_pos hline]
    exact ih hlines

/-! ## The values -/

/-- The values that `setKeepAlive` knows. -/
def KnownConnection (value : Bytes) : Prop :=
  equalIgnoreCase (ascii "close") value = some true ∨
    equalIgnoreCase (ascii "close") value = some false ∧
      equalIgnoreCase (ascii "keep-alive") value = some true

instance : DecidablePred KnownConnection := fun _ => inferInstanceAs (Decidable (_ ∨ _ ∧ _))

/-- The name of the field is inside the tables, and a `Connection` has a known value. -/
def SafeField (line : Bytes) : Prop :=
  ∃ header, getHeader (fieldName line) = some header ∧
    (header = .httpConnectionHeader → KnownConnection (fieldValue line))

instance : DecidablePred SafeField := fun line =>
  decidable_of_iff ((getHeader (fieldName line)).isSome ∧
      (getHeader (fieldName line) = some .httpConnectionHeader → KnownConnection (fieldValue line)))
    (by cases hheader : getHeader (fieldName line) <;> simp [SafeField, hheader])

theorem setKeepAlive_isSome_iff (h : HTTPPacket) (value : Bytes) :
    (h.setKeepAlive (some value)).isSome ↔ KnownConnection value := by
  unfold setKeepAlive KnownConnection
  rw [Option.getD_some]
  rcases equalIgnoreCase (ascii "close") value with _ | _ | _ <;>
    rcases equalIgnoreCase (ascii "keep-alive") value with _ | _ | _ <;> simp

theorem setField_isSome_iff (h : HTTPPacket) (header : HTTPHeader) (value : Bytes) :
    (h.setField header (some value)).isSome ↔
      (header = .httpConnectionHeader → KnownConnection value) := by
  unfold setField
  rw [Option.isSome_map]
  split_ifs with hconnection
  · rw [setKeepAlive_isSome_iff]
    exact ⟨fun hvalue _ => hvalue, fun hvalue => hvalue hconnection⟩
  · exact iff_of_true rfl fun h => absurd h hconnection

theorem setLine_isSome_iff (h : HTTPPacket) (line : Bytes) :
    (h.setLine line).isSome ↔ SafeField line := by
  unfold setLine SafeField
  cases hget : getHeader (fieldName line) with
  | none => exact iff_of_false (by simp) (by simp)
  | some header =>
    rw [Option.bind_some, setField_isSome_iff]
    simp

theorem setLine_values {line : Bytes} (hset : h.setLine line = some h') {header : HTTPHeader}
    (hlegal : header ≠ .httpIllegalHeader) :
    h'.fFieldValues header =
      if Names header line then some (fieldValue line) else h.fFieldValues header := by
  obtain ⟨_, htable, -⟩ := (setLine_isSome_iff h line).mp (by rw [hset]; rfl)
  have hnames := getHeader_eq_iff hlegal (by rw [htable]; rfl)
  obtain ⟨found, hget, hfield⟩ := Option.bind_eq_some_iff.mp hset
  obtain ⟨h₁, hkeep, rfl⟩ := Option.map_eq_some_iff.mp hfield
  have hsame : h₁.fFieldValues = h.fFieldValues := by
    split_ifs at hkeep
    · obtain ⟨keepAlive, rfl⟩ := setKeepAlive_cases hkeep
      rfl
    · cases hkeep
      rfl
  rw [hget, Option.some.injEq] at hnames
  have hfound : Names header line ↔ found = header := hnames.symm
  by_cases heq : found = header
  · subst heq
    rw [if_neg hlegal, if_pos (hfound.mpr rfl)]
    exact Function.update_self ..
  · rw [if_neg fun hname => heq (hfound.mp hname), ← hsame]
    split_ifs
    · rfl
    · exact Function.update_of_ne (Ne.symm heq) _ _

theorem foldlM_setLine_isSome_iff (texts : List Bytes) (h : HTTPPacket) :
    (texts.foldlM setLine h).isSome ↔ ∀ line ∈ texts, SafeField line := by
  induction texts generalizing h with
  | nil => exact iff_of_true rfl nofun
  | cons text texts ih =>
    rw [List.foldlM_cons, List.forall_mem_cons, ← setLine_isSome_iff h text]
    cases h.setLine text with
    | none => exact iff_of_false (by simp) (by simp)
    | some h₁ => simpa using ih h₁

theorem lastValue_cons (header : HTTPHeader) (old : StrPtrLen) (line : Bytes)
    (texts : List Bytes) :
    lastValue header old (line :: texts) =
      lastValue header (if Names header line then some (fieldValue line) else old) texts := by
  unfold lastValue
  rw [List.filter_cons]
  by_cases hname : Names header line
  · simp only [hname, decide_true, if_true, List.getLast?_cons]
    cases (texts.filter fun line => decide (Names header line)).getLast? <;> rfl
  · simp [hname]

theorem foldlM_setLine_values {texts : List Bytes} (hset : texts.foldlM setLine h = some h')
    {header : HTTPHeader} (hlegal : header ≠ .httpIllegalHeader) :
    h'.fFieldValues header = lastValue header (h.fFieldValues header) texts := by
  induction texts generalizing h with
  | nil =>
    cases hset
    rfl
  | cons text texts ih =>
    rw [List.foldlM_cons] at hset
    obtain ⟨h₁, hline, hrest⟩ := Option.bind_eq_some_iff.mp hset
    rw [lastValue_cons, ih hrest, setLine_values hline hlegal]

/-! ## Reading a block -/

/-- `parseHeaders` reads a block line by line exactly if all names that it looks up are inside
the table, all values of `Connection` are known, and each line has a colon or the last one has
none. -/
theorem parseHeaders_reads_iff (h : HTTPPacket) (hp : At p parsed (blockText e lines))
    (hblock : IsBlock e lines) :
    Reads h p (lines.map Prod.fst) ↔ (∀ line ∈ joined [] lines, SafeField line) ∧
      ((∀ line ∈ lines.map Prod.fst, 58 ∈ line) ∨ ¬ LastColon lines) := by
  have hat : At p parsed ([] ++ blockText e lines) := hp
  have hparse := parseHeaders_joined h hat List.not_mem_nil nofun hblock
  rw [← foldlM_setLine_isSome_iff _ h]
  constructor
  · intro hreads
    by_cases hcolon : ∀ line ∈ lines.map Prod.fst, 58 ∈ line
    · obtain ⟨h', hresult, -⟩ := hreads.accepts hcolon
      rw [hparse] at hresult
      obtain ⟨h₁, hfold, -⟩ := Option.map_eq_some_iff.mp hresult
      exact ⟨by rw [hfold]; rfl, .inl hcolon⟩
    · obtain ⟨line, hline⟩ := not_forall.mp hcolon
      obtain ⟨h', hresult⟩ := hreads.refuses ⟨line, Classical.not_imp.mp hline⟩
      rw [hparse] at hresult
      obtain ⟨h₁, hfold, hresult⟩ := Option.map_eq_some_iff.mp hresult
      refine ⟨by rw [hfold]; rfl, .inr fun hlast => ?_⟩
      have hne : lines ≠ [] := by
        rintro rfl
        exact hcolon nofun
      rw [if_pos ((endsField_iff hblock hne []).mpr hlast)] at hresult
      exact absurd (congrArg Prod.fst hresult) (show CF_NoErr ≠ CF_BadArgument by decide)
  · rintro ⟨hsome, hlines⟩
    obtain ⟨h₁, hfold⟩ := Option.isSome_iff_exists.mp hsome
    rw [hfold, Option.map_some] at hparse
    constructor
    · intro hcolon
      rw [if_pos (endsField_of_colon hcolon)] at hparse
      rw [joined_of_colon hcolon] at hfold
      exact ⟨h₁, hparse, fun header hlegal => foldlM_setLine_values hfold hlegal⟩
    · rintro ⟨line, hmem, hcolon⟩
      have hlast : ¬ LastColon lines := hlines.resolve_left fun hall => hcolon (hall line hmem)
      have hne : lines ≠ [] := by
        rintro rfl
        cases hmem
      rw [if_neg fun hend => hlast ((endsField_iff hblock hne []).mp hend)] at hparse
      exact ⟨_, hparse⟩

/-- Two header lines and an empty one, with line ends of each kind. -/
def twoLines : List Line := [(ascii "Host: a", [13, 10]), (ascii "host:b", [10])]

theorem parseHeaders_reads_iff_twoLines :
    Reads (ofHeader [] []) (.ofString (some (blockText [13] twoLines)) [])
        (twoLines.map Prod.fst) ↔
      (∀ line ∈ joined [] twoLines, SafeField line) ∧
        ((∀ line ∈ twoLines.map Prod.fst, 58 ∈ line) ∨ ¬ LastColon twoLines) :=
  parseHeaders_reads_iff _ (at_ofString _ _)
    ⟨by decide, by decide, .crlf _, by decide, by decide, .lf _,
      .cr nofun⟩

/-- A line without a colon, and one that has one. -/
def brokenLines : List Line := [(ascii "Host", [10]), (ascii "X: y", [10])]

/-- A line without a colon in front of one with a colon is not refused. -/
theorem brokenLines_not_reads :
    ¬ Reads (ofHeader [] []) (.ofString (some (blockText [10] brokenLines)) [])
      (brokenLines.map Prod.fst) := by
  intro hreads
  have hblock : IsBlock [10] brokenLines :=
    ⟨by decide, by decide, .lf _, by decide, by decide, .lf _,
      .lf _⟩
  obtain ⟨h', hresult⟩ := hreads.refuses ⟨ascii "Host", List.mem_cons_self .., by decide⟩
  have hat : At (.ofString (some (blockText [10] brokenLines)) []) []
      ([] ++ blockText [10] brokenLines) := at_ofString _ _
  have hparse := parseHeaders_joined (ofHeader [] []) hat List.not_mem_nil nofun hblock
  rw [hresult] at hparse
  obtain ⟨h₁, -, hjoined⟩ := Option.map_eq_some_iff.mp hparse.symm
  rw [if_pos (by decide : EndsField [] brokenLines)] at hjoined
  exact absurd (congrArg Prod.fst hjoined) (show CF_NoErr ≠ CF_BadArgument by decide)

end CxxFramework.Net.HTTPPacket
