import CxxFramework.Basic.ConfParser

/-!
# The lines of a config file

What `ParseConfigFile` makes of a line is read off the text of the line: a comment and a blank
line come to nothing, another line to an entry of a name and its values. A file whose lines fit
the buffer comes to the entries of its lines, one after the other, up to the first that is not
set.
-/

namespace CxxFramework.Basic

open CxxFramework.Core Buffer

variable {σ : Type*} {s rest beyond text line wordBuff lineBuff file piece : Bytes} {c : UInt8}
  {asserts allowNullValues eof : Bool} {setter : Bytes → List Bytes → σ → Bool × σ}
  {userData : σ} {values : List Bytes} {room n : Nat} {lineCount : Int32} {error : Int}

/-! ## What is read of a line -/

/-- The line behind what `TrimLeft` trims. -/
def trimLine (s : Bytes) : Bytes := s.dropWhile fun c => c ≤ 32 ∨ 127 < c

/-- The next word of a line, and what is left behind it. -/
def readToken (s : Bytes) : Bytes × Bytes :=
  if s.head? = some 34 then readQuotedWord kConfParserMaxParamSize s
  else readWord kConfParserMaxParamSize (trimBlanks s)

/-- At most `n` words of a line. -/
def readTokens : Nat → Bytes → List Bytes
  | 0, _ => []
  | n + 1, s =>
    match trimLine s with
    | [] => []
    | c :: next =>
      let (word, rest) := readToken (c :: next)
      word :: readTokens n rest

/-- A parameter of the file. -/
structure Entry where
  name : Bytes
  values : List Bytes
deriving DecidableEq, Repr

/-- The entry of a line, unless it is blank or a comment. -/
def lineEntry (s : Bytes) : Option Entry :=
  match trimLine s with
  | [] => none
  | c :: next =>
    if c = 35 then none
    else
      let (name, rest) := readToken (c :: next)
      some { name, values := readTokens kConfParserMaxParamValues rest }

/-- The words of an entry fit the buffer for words, and its name is not empty where the program
asserts that. -/
def Entry.Fits (asserts : Bool) (entry : Entry) : Prop :=
  (∀ word ∈ entry.name :: entry.values, word.length < kConfParserMaxParamSize) ∧
    (asserts → entry.name ≠ [])

instance (asserts : Bool) (entry : Entry) : Decidable (entry.Fits asserts) :=
  inferInstanceAs (Decidable (_ ∧ _))

theorem readToken_quote (s : Bytes) :
    readToken (34 :: s) = readQuotedWord kConfParserMaxParamSize (34 :: s) := if_pos rfl

theorem readToken_word (hc : c ≠ 34) (s : Bytes) :
    readToken (c :: s) = readWord kConfParserMaxParamSize (trimBlanks (c :: s)) :=
  if_neg fun h => hc (Option.some.inj h)

theorem trimLeft_eq (hs : 0 ∉ s) (beyond : Bytes) :
    trimLeft (s ++ 0 :: beyond) = some (trimLine s ++ 0 :: beyond) := by
  induction s with
  | nil => rfl
  | cons c s ih =>
    simp only [List.mem_cons, not_or] at hs
    have hne : c ≠ 0 := Ne.symm hs.1
    unfold trimLine at ih ⊢
    by_cases hc : c ≤ 32 ∨ 127 < c
    · rw [List.cons_append, trimLeft, if_pos ⟨hc, hne⟩, ih hs.2,
        List.dropWhile_cons_of_pos (by simpa using hc)]
    · rw [List.cons_append, trimLeft, if_neg (fun h => hc h.1),
        List.dropWhile_cons_of_neg (by simpa using hc), List.cons_append]

theorem trimLine_suffix (s : Bytes) : trimLine s <:+ s := List.dropWhile_suffix _

theorem readToken_suffix (s : Bytes) : (readToken s).2 <:+ s := by
  unfold readToken
  split_ifs
  · exact readQuotedWord_suffix _ s
  · exact (readWord_suffix _ _).trans (trimBlanks_suffix s)

theorem readToken_subset (s : Bytes) : (readToken s).1 ⊆ s := by
  unfold readToken
  split_ifs
  · exact (readQuotedWord_word _ s).1
  · exact List.Subset.trans (readWord_subset _ _) (trimBlanks_suffix s).subset

/-- A word that fits the buffer is read, and left in it. -/
theorem takeWord_eq (hs : 0 ∉ s) (hne : s ≠ [])
    (hword : (readToken s).1.length < kConfParserMaxParamSize)
    (hsize : wordBuff.length = kConfParserMaxParamSize) (beyond : Bytes) :
    ∃ wordBuff', takeWord wordBuff (s ++ 0 :: beyond) =
        some ((readToken s).2 ++ 0 :: beyond, wordBuff') ∧
      cString wordBuff' = (readToken s).1 ∧ wordBuff'.length = kConfParserMaxParamSize := by
  have hzero : 0 ∉ (readToken s).1 := fun h => hs (readToken_subset s h)
  obtain ⟨wordBuff', hwrite, -, hstring⟩ := write_word hzero (hsize.symm ▸ hword)
  refine ⟨wordBuff', ?_, hstring, (length_write hwrite).trans hsize⟩
  obtain ⟨c, next, rfl⟩ := List.exists_cons_of_ne_nil hne
  by_cases hc : c = 34
  · subst hc
    rw [readToken_quote] at hwrite ⊢
    exact (getQuotedWord_eq hs wordBuff _ beyond).trans (by rw [hwrite, Option.map_some])
  · rw [readToken_word hc] at hwrite ⊢
    rw [List.cons_append, takeWord, if_neg hc]
    exact (getWord_eq hs wordBuff _ beyond).trans (by rw [hwrite, Option.map_some])

/-- The first character of a string that may have ended. -/
theorem head?_terminated (s beyond : Bytes) :
    (s ++ 0 :: beyond).head? = some (s.head?.getD 0) := by
  cases s <;> rfl

theorem head?_getD_eq_zero (hs : 0 ∉ s) : s.head?.getD 0 = 0 ↔ s = [] := by
  cases s <;> grind

/-- One round of the loop over the values. -/
theorem readValues_succ (hs : 0 ∉ s) (values : List Bytes) (wordBuff beyond : Bytes) (room : Nat) :
    readValues values wordBuff (s ++ 0 :: beyond) (room + 1) =
      if trimLine s = [] then some (values, wordBuff)
      else
        (takeWord wordBuff (trimLine s ++ 0 :: beyond)).bind fun (next, wordBuff) =>
          readValues (values ++ [cString wordBuff]) wordBuff next room := by
  have htrim : 0 ∉ trimLine s := fun h => hs ((trimLine_suffix s).subset h)
  rw [readValues, head?_terminated, Option.bind_some, trimLeft_eq hs, Option.bind_some,
    head?_terminated, Option.bind_some, if_congr (head?_getD_eq_zero htrim) rfl rfl]
  by_cases hnil : s = []
  · subst hnil
    rfl
  · rw [if_neg (mt (head?_getD_eq_zero hs).mp hnil)]

/-- The values of a line are read. -/
theorem readValues_eq (hs : 0 ∉ s)
    (hwords : ∀ word ∈ readTokens room s, word.length < kConfParserMaxParamSize)
    (hsize : wordBuff.length = kConfParserMaxParamSize) (values : List Bytes) (beyond : Bytes) :
    ∃ wordBuff', readValues values wordBuff (s ++ 0 :: beyond) room =
        some (values ++ readTokens room s, wordBuff') ∧
      wordBuff'.length = kConfParserMaxParamSize := by
  induction room generalizing s values wordBuff with
  | zero => exact ⟨wordBuff, by simp [readValues, readTokens], hsize⟩
  | succ room ih =>
    have hsuffix := trimLine_suffix s
    rw [readValues_succ hs]
    rw [readTokens] at hwords ⊢
    generalize trimLine s = trimmed at *
    match trimmed with
    | [] => exact ⟨wordBuff, by simp, hsize⟩
    | c :: next =>
      have htrim : 0 ∉ c :: next := fun h => hs (hsuffix.subset h)
      have hrest : 0 ∉ (readToken (c :: next)).2 := fun h =>
        htrim ((readToken_suffix _).subset h)
      simp only [List.forall_mem_cons] at hwords
      obtain ⟨wordBuff', htake, hstring, hsize'⟩ :=
        takeWord_eq htrim (List.cons_ne_nil c next) hwords.1 hsize beyond
      obtain ⟨wordBuff'', hread, hsize''⟩ :=
        ih hrest hwords.2 hsize' (values ++ [(readToken (c :: next)).1])
      refine ⟨wordBuff'', ?_, hsize''⟩
      rw [if_neg (List.cons_ne_nil c next), htake, Option.bind_some]
      simp only [hstring, hread, List.append_assoc, List.singleton_append]

/-! ## The entries of a file -/

/-- What becomes of an entry: whether the file is read no further, and the user data. -/
def setEntry (allowNullValues : Bool) (setter : Bytes → List Bytes → σ → Bool × σ) (userData : σ)
    (entry : Entry) : Bool × σ :=
  if entry.values = [] ∧ ¬ allowNullValues then (true, userData)
  else setter entry.name entry.values userData

/-- The entries of a file are set one after the other, up to the first that is not. -/
def setEntries (allowNullValues : Bool) (setter : Bytes → List Bytes → σ → Bool × σ)
    (userData : σ) : List Entry → σ
  | [] => userData
  | entry :: entries =>
    let (stop, userData) := setEntry allowNullValues setter userData entry
    if stop then userData else setEntries allowNullValues setter userData entries

/-- What becomes of a line. -/
def setLine (allowNullValues : Bool) (setter : Bytes → List Bytes → σ → Bool × σ) (userData : σ)
    (text : Bytes) : Bool × σ :=
  (lineEntry text).elim (false, userData) (setEntry allowNullValues setter userData)

/-- A line of the file is set. -/
theorem parseLine_eq (htext : 0 ∉ text) (hfits : ∀ entry ∈ lineEntry text, entry.Fits asserts)
    (hsize : wordBuff.length = kConfParserMaxParamSize) (allowNullValues : Bool)
    (setter : Bytes → List Bytes → σ → Bool × σ) (lineCount : Int32) (beyond : Bytes) (userData : σ) :
    ∃ outcome wordBuff', parseLine asserts allowNullValues setter lineCount (text ++ 0 :: beyond)
        wordBuff userData = some (outcome, wordBuff') ∧
      wordBuff'.length = kConfParserMaxParamSize ∧
      (outcome.error = 0 ↔ (setLine allowNullValues setter userData text).1 = false) ∧
      outcome.userData = (setLine allowNullValues setter userData text).2 := by
  have htrim : 0 ∉ trimLine text := fun h => htext ((trimLine_suffix text).subset h)
  unfold parseLine setLine
  rw [trimLeft_eq htext, Option.bind_some, head?_terminated, Option.bind_some]
  rw [lineEntry] at hfits ⊢
  generalize trimLine text = trimmed at *
  match trimmed with
  | [] => exact ⟨_, _, rfl, hsize, by simp, rfl⟩
  | c :: next =>
    have hzero : c ≠ 0 := fun h => htrim (h ▸ List.mem_cons_self)
    by_cases hcomment : c = 35
    · subst hcomment
      exact ⟨_, _, rfl, hsize, by simp, rfl⟩
    · have hplain : ¬ (c = 0 ∨ c = 35) := not_or.mpr ⟨hzero, hcomment⟩
      simp only [if_neg hcomment, Option.mem_some_iff, forall_eq'] at hfits
      obtain ⟨hwords, hname⟩ := hfits
      rw [List.forall_mem_cons] at hwords
      have hrest : 0 ∉ (readToken (c :: next)).2 := fun h => htrim ((readToken_suffix _).subset h)
      obtain ⟨wordBuff₁, htake, hstring, hsize₁⟩ :=
        takeWord_eq htrim (List.cons_ne_nil c next) hwords.1 hsize beyond
      obtain ⟨wordBuff₂, hread, hsize₂⟩ := readValues_eq hrest hwords.2 hsize₁ [] beyond
      have hassert : ¬ (asserts ∧ (readToken (c :: next)).1 = []) := fun h => hname h.1 h.2
      simp only [List.head?_cons, Option.getD_some, if_neg hplain, htake, Option.bind_some,
        if_neg hassert, hread, Option.map_some, hstring, List.nil_append, if_neg hcomment,
        Option.elim_some, setEntry]
      generalize readTokens kConfParserMaxParamValues (readToken (c :: next)).2 = values
      by_cases hset : 0 < values.length ∨ allowNullValues
      · have hvalues : ¬ (values = [] ∧ ¬ allowNullValues) := by
          rintro ⟨rfl, hnull⟩
          exact hset.elim (Nat.lt_irrefl 0) hnull
        rw [if_neg hvalues]
        simp only [if_pos hset]
        rcases setter (readToken (c :: next)).1 values userData with ⟨failed, userData'⟩
        refine ⟨_, wordBuff₂, rfl, hsize₂, ?_, ?_⟩
        · cases failed <;> simp
        · cases failed <;> rfl
      · have hvalues : values = [] ∧ ¬ allowNullValues := by
          rw [not_or] at hset
          exact ⟨List.length_eq_zero_iff.mp (Nat.eq_zero_of_not_pos hset.1), hset.2⟩
        rw [if_pos hvalues]
        simp only [if_neg hset]
        exact ⟨_, wordBuff₂, rfl, hsize₂, by simp, rfl⟩

theorem setEntries_cons (text : Bytes) (texts : List Bytes) :
    setEntries allowNullValues setter userData ((text :: texts).filterMap lineEntry) =
      if (setLine allowNullValues setter userData text).1 then
        (setLine allowNullValues setter userData text).2
      else setEntries allowNullValues setter (setLine allowNullValues setter userData text).2
        (texts.filterMap lineEntry) := by
  unfold setLine
  cases hentry : lineEntry text with
  | none => simp [hentry]
  | some entry =>
    rw [List.filterMap_cons_some hentry]
    rfl

/-! ## Pieces of a file -/

theorem readPiece_line (hline : 10 ∉ line) (hlen : line.length < n) (rest : Bytes) :
    readPiece n (line ++ 10 :: rest) = (line ++ [10], rest, false) := by
  induction line generalizing n with
  | nil =>
    match n with
    | n + 1 => rfl
  | cons c line ih =>
    rw [List.mem_cons, not_or] at hline
    match n with
    | n + 1 =>
      rw [List.cons_append, readPiece, if_neg (Ne.symm hline.1),
        ih hline.2 (Nat.lt_of_succ_lt_succ hlen)]
      rfl

theorem readPiece_full (hline : 10 ∉ line) (rest : Bytes) :
    readPiece line.length (line ++ rest) = (line, rest, false) := by
  induction line with
  | nil => rfl
  | cons c line ih =>
    rw [List.mem_cons, not_or] at hline
    rw [List.length_cons, List.cons_append, readPiece, if_neg (Ne.symm hline.1), ih hline.2]

theorem readPiece_last (hline : 10 ∉ line) (hlen : line.length < n) :
    readPiece n line = (line, [], true) := by
  induction line generalizing n with
  | nil =>
    match n with
    | n + 1 => rfl
  | cons c line ih =>
    rw [List.mem_cons, not_or] at hline
    match n with
    | n + 1 =>
      rw [readPiece, if_neg (Ne.symm hline.1), ih hline.2 (Nat.lt_of_succ_lt_succ hlen)]

/-- The last line of a file is read. -/
theorem fgets_last (hline : 10 ∉ line) (hne : line ≠ [])
    (hlen : line.length < kConfParserMaxLineSize) :
    ∃ eof, fgets kConfParserMaxLineSize line = some (line, [], eof) := by
  unfold kConfParserMaxLineSize at *
  rw [fgets, if_neg hne]
  by_cases hfull : line.length = 1024 - 1
  · have hread := readPiece_full hline []
    rw [List.append_nil, hfull] at hread
    exact ⟨false, congrArg some hread⟩
  · exact ⟨true, congrArg some (readPiece_last hline (by omega))⟩

/-- A line is read, with its end if both fit. -/
theorem fgets_line (hline : 10 ∉ line) (hlen : line.length < kConfParserMaxLineSize)
    (rest : Bytes) :
    fgets kConfParserMaxLineSize (line ++ 10 :: rest) = some
      (if line.length + 1 < kConfParserMaxLineSize then (line ++ [10], rest, false)
      else (line, 10 :: rest, false)) := by
  unfold kConfParserMaxLineSize at *
  rw [fgets, if_neg (by simp)]
  split_ifs with hfits
  · rw [readPiece_line hline (by omega)]
  · obtain hfull : line.length = 1024 - 1 := by omega
    rw [← hfull, readPiece_full hline]

/-- The texts in which the lines of a file are read: a line with its end, if both fit the
buffer. -/
def lineTexts : List Bytes → List Bytes
  | [] => []
  | [line] => [line]
  | line :: next :: lines =>
    (if line.length + 1 < kConfParserMaxLineSize then line ++ [10] else line) ::
      lineTexts (next :: lines)

/-- A piece of the file is set, and the loop goes on behind it. -/
theorem parseLines_piece (hread : fgets kConfParserMaxLineSize file = some (piece, rest, eof))
    (hpiece : 0 ∉ piece) (hlen : piece.length < kConfParserMaxLineSize)
    (hfits : ∀ entry ∈ lineEntry piece, entry.Fits asserts)
    (hline : lineBuff.length = kConfParserMaxLineSize)
    (hword : wordBuff.length = kConfParserMaxParamSize) (allowNullValues : Bool)
    (setter : Bytes → List Bytes → σ → Bool × σ) (lineCount : Int32) (error : Int) (userData : σ) :
    ∃ outcome lineBuff' wordBuff', lineBuff'.length = kConfParserMaxLineSize ∧
      wordBuff'.length = kConfParserMaxParamSize ∧
      outcome.userData = (setLine allowNullValues setter userData piece).2 ∧
      parseLines asserts allowNullValues setter file lineCount lineBuff wordBuff error userData =
        if eof = false ∧ (setLine allowNullValues setter userData piece).1 = false then
          parseLines asserts allowNullValues setter rest (lineCount + 1) lineBuff' wordBuff'
            outcome.error outcome.userData
        else some outcome := by
  obtain ⟨lineBuff', hwrite⟩ : ∃ lineBuff', write lineBuff 0 (piece ++ [0]) = some lineBuff' :=
    ⟨_, write_of_le (by simp; omega)⟩
  obtain ⟨beyond, rfl⟩ : ∃ beyond, lineBuff' = piece ++ 0 :: beyond :=
    ⟨_, by rw [(write_eq_some_iff.mp hwrite).2]; simp; rfl⟩
  obtain ⟨outcome, wordBuff', hparse, hword', herror, huser⟩ := parseLine_eq hpiece hfits hword
    allowNullValues setter (lineCount + 1) beyond userData
  refine ⟨outcome, _, wordBuff', (length_write hwrite).trans hline, hword', huser, ?_⟩
  rw [parseLines, hread]
  simp only [hwrite, Option.bind_some, hparse, herror]

/-- The entries of a file. -/
def fileEntries (file : Bytes) : List Entry := (lineTexts (file.splitOn 10)).filterMap lineEntry

theorem fileEntries_last (hfile : 10 ∉ file) : fileEntries file = [file].filterMap lineEntry := by
  rw [fileEntries, List.splitOn_eq_singleton hfile]
  rfl

theorem fileEntries_cons (hline : 10 ∉ line) (rest : Bytes) :
    fileEntries (line ++ 10 :: rest) =
      ((if line.length + 1 < kConfParserMaxLineSize then line ++ [10] else line) ::
        lineTexts (rest.splitOn 10)).filterMap lineEntry := by
  obtain ⟨next, lines, hlines⟩ := List.exists_cons_of_ne_nil (List.splitOn_ne_nil 10 rest)
  rw [fileEntries, List.splitOn_append_cons_self_of_not_mem hline, hlines]
  rfl

/-- An empty line comes to nothing. -/
theorem fileEntries_empty (rest : Bytes) : fileEntries (10 :: rest) = fileEntries rest := by
  have hcons := fileEntries_cons (List.not_mem_nil : (10 : UInt8) ∉ []) rest
  rw [List.nil_append] at hcons
  rw [hcons, fileEntries]
  rfl

/-- The entry of a piece is set, and then those of the file behind it. -/
theorem parseLines_step {texts : List Bytes}
    (hread : fgets kConfParserMaxLineSize file = some (piece, rest, eof))
    (hpiece : 0 ∉ piece) (hlen : piece.length < kConfParserMaxLineSize)
    (hfits : ∀ entry ∈ (piece :: texts).filterMap lineEntry, entry.Fits asserts)
    (heof : eof = true → texts = [])
    (hrest : eof = false → ∀ lineBuff wordBuff : Bytes, lineBuff.length = kConfParserMaxLineSize →
      wordBuff.length = kConfParserMaxParamSize → ∀ lineCount error userData, ∃ outcome,
        parseLines asserts allowNullValues setter rest lineCount lineBuff wordBuff error userData =
          some outcome ∧
        outcome.userData =
          setEntries allowNullValues setter userData (texts.filterMap lineEntry))
    (hline : lineBuff.length = kConfParserMaxLineSize)
    (hword : wordBuff.length = kConfParserMaxParamSize) (lineCount : Int32) (error : Int)
    (userData : σ) :
    ∃ outcome, parseLines asserts allowNullValues setter file lineCount lineBuff wordBuff error
        userData = some outcome ∧
      outcome.userData =
        setEntries allowNullValues setter userData ((piece :: texts).filterMap lineEntry) := by
  have hentry : ∀ entry ∈ lineEntry piece, entry.Fits asserts := fun entry h =>
    hfits entry (List.mem_filterMap.mpr ⟨piece, List.mem_cons_self, h⟩)
  obtain ⟨outcome, lineBuff', wordBuff', hline', hword', huser, hparse⟩ := parseLines_piece hread
    hpiece hlen hentry hline hword allowNullValues setter lineCount error userData
  rw [hparse, setEntries_cons]
  cases hstop : (setLine allowNullValues setter userData piece).1 with
  | true => exact ⟨outcome, by simp, by simpa using huser⟩
  | false =>
    cases eof with
    | true =>
      rw [heof rfl]
      exact ⟨outcome, by simp, by simpa [setEntries] using huser⟩
    | false =>
      obtain ⟨last, hlast, hset⟩ := hrest rfl lineBuff' wordBuff' hline' hword' (lineCount + 1)
        outcome.error outcome.userData
      rw [huser] at hset
      exact ⟨last, by simpa using hlast, by simpa using hset⟩

theorem parseLines_nil (lineCount : Int32) (lineBuff wordBuff : Bytes) (error : Int) (userData : σ) :
    parseLines asserts allowNullValues setter [] lineCount lineBuff wordBuff error userData =
      some { error, userData } := by
  rw [parseLines]
  rfl

theorem exists_line (file : Bytes) :
    10 ∉ file ∨ ∃ line rest, 10 ∉ line ∧ file = line ++ 10 :: rest := by
  by_cases hfile : 10 ∈ file
  · obtain ⟨line, rest, hsplit, hline⟩ := List.eq_append_cons_of_mem hfile
    exact .inr ⟨line, rest, hline, hsplit⟩
  · exact .inl hfile

theorem fits_tail {texts : List Bytes}
    (h : ∀ entry ∈ (text :: texts).filterMap lineEntry, entry.Fits asserts) :
    ∀ entry ∈ texts.filterMap lineEntry, entry.Fits asserts := fun entry hentry => by
  obtain ⟨line, hline, hread⟩ := List.mem_filterMap.mp hentry
  exact h entry (List.mem_filterMap.mpr ⟨line, List.mem_cons_of_mem text hline, hread⟩)

/-- The loop sets the entries of the file. -/
theorem parseLines_eq (hzero : 0 ∉ file)
    (hlines : ∀ line ∈ file.splitOn 10, line.length < kConfParserMaxLineSize)
    (hfits : ∀ entry ∈ fileEntries file, entry.Fits asserts)
    (hline : lineBuff.length = kConfParserMaxLineSize)
    (hword : wordBuff.length = kConfParserMaxParamSize) (allowNullValues : Bool)
    (setter : Bytes → List Bytes → σ → Bool × σ) (lineCount : Int32) (error : Int) (userData : σ) :
    ∃ outcome, parseLines asserts allowNullValues setter file lineCount lineBuff wordBuff error
        userData = some outcome ∧
      outcome.userData = setEntries allowNullValues setter userData (fileEntries file) := by
  induction hn : file.length using Nat.strongRecOn
    generalizing file lineBuff wordBuff lineCount error userData with
  | _ n ih =>
    rcases exists_line file with hlast | ⟨line, rest, hnew, rfl⟩
    · rw [fileEntries_last hlast] at hfits ⊢
      rw [List.splitOn_eq_singleton hlast, List.forall_mem_singleton] at hlines
      by_cases hnil : file = []
      · subst hnil
        exact ⟨_, parseLines_nil _ _ _ _ _, rfl⟩
      · have hempty : ∀ lineBuff wordBuff : Bytes, lineBuff.length = kConfParserMaxLineSize →
            wordBuff.length = kConfParserMaxParamSize → ∀ lineCount error userData, ∃ outcome,
              parseLines asserts allowNullValues setter [] lineCount lineBuff wordBuff error
                userData = some outcome ∧
              outcome.userData = setEntries allowNullValues setter userData
                (([] : List Bytes).filterMap lineEntry) :=
          fun _ _ _ _ _ _ _ => ⟨_, parseLines_nil _ _ _ _ _, rfl⟩
        obtain ⟨eof, hread⟩ := fgets_last hlast hnil hlines
        exact parseLines_step hread hzero hlines hfits (fun _ => rfl) (fun _ => hempty) hline hword
          lineCount error userData
    · rw [List.splitOn_append_cons_self_of_not_mem hnew, List.forall_mem_cons] at hlines
      have hread := fgets_line hnew hlines.1 rest
      rw [fileEntries_cons hnew] at hfits ⊢
      simp only [List.mem_append, List.mem_cons, not_or] at hzero
      rw [List.length_append, List.length_cons] at hn
      split_ifs at hread hfits ⊢ with hfull
      · have hpiece : 0 ∉ line ++ [10] := by simp [hzero.1]
        have hlen : (line ++ [10]).length < kConfParserMaxLineSize := by simpa using hfull
        refine parseLines_step hread hpiece hlen hfits nofun (fun _ _ _ hline hword _ _ _ => ?_)
          hline hword lineCount error userData
        exact ih rest.length (by omega) hzero.2.2 hlines.2 (fits_tail hfits) hline hword _ _ _ rfl
      · -- The end of the line is read as a piece of its own.
        have hlines' : ∀ line ∈ (10 :: rest).splitOn 10, line.length < kConfParserMaxLineSize := by
          have hsplit : (10 :: rest).splitOn 10 = [] :: rest.splitOn 10 :=
            List.splitOn_append_cons_self_of_not_mem List.not_mem_nil rest
          rw [hsplit]
          exact List.forall_mem_cons.mpr ⟨by decide, hlines.2⟩
        have hzero' : 0 ∉ 10 :: rest := by simp [hzero.2.2]
        have hfits' : ∀ entry ∈ fileEntries (10 :: rest), entry.Fits asserts := by
          rw [fileEntries_empty]
          exact fits_tail hfits
        have hne : 0 < line.length := by
          unfold kConfParserMaxLineSize at hfull
          omega
        refine parseLines_step hread hzero.1 hlines.1 hfits nofun
          (fun _ _ _ hline hword _ _ _ => ?_) hline hword lineCount error userData
        have hrest := ih (10 :: rest).length (by rw [List.length_cons]; omega) hzero' hlines' hfits'
          hline hword
        rw [fileEntries_empty] at hrest
        exact hrest _ _ _ rfl

/-! ## Comments and words -/

/-- Bytes up to `0x20` -/
def Blank (s : Bytes) : Prop := ∀ c ∈ s, c ≤ 32

/-- The first character of the line that is not blank is a `#`. -/
def IsComment (line : Bytes) : Prop :=
  ∃ blanks text, line = blanks ++ 35 :: text ∧ Blank blanks

/-- A word that is not in quotes. Its first character is a 7-bit one, as `TrimLeft` takes
others for blanks. -/
def IsPlain (word : Bytes) : Prop :=
  ∃ c tail, word = c :: tail ∧ 32 < c ∧ c ≤ 127 ∧ c ≠ 34 ∧ ∀ x ∈ tail, 32 < x

/-- A line of words, each in front of a blank or in quotes. -/
inductive Words : Bytes → List Bytes → Prop
  | blank {s : Bytes} : Blank s → Words s []
  | plain {blanks word rest : Bytes} {words : List Bytes} : Blank blanks → IsPlain word →
      (∀ c ∈ rest.head?, c ≤ 32) → Words rest words → Words (blanks ++ word ++ rest) (word :: words)
  | quoted {blanks word rest : Bytes} {words : List Bytes} : Blank blanks →
      rest.head? ≠ some 34 → Words rest words → Words (blanks ++ quote word ++ rest) (word :: words)

theorem trimLine_blanks {blanks : Bytes} (hblanks : Blank blanks) (s : Bytes) :
    trimLine (blanks ++ s) = trimLine s := by
  induction blanks with
  | nil => rfl
  | cons c blanks ih =>
    have hc : c ≤ 32 := hblanks c List.mem_cons_self
    rw [List.cons_append, trimLine, List.dropWhile_cons_of_pos (by simp [hc])]
    exact ih fun x hx => hblanks x (List.mem_cons_of_mem c hx)

theorem trimLine_char (hlow : 32 < c) (hhigh : c ≤ 127) (s : Bytes) :
    trimLine (c :: s) = c :: s :=
  List.dropWhile_cons_of_neg (by simp [hlow, hhigh])

theorem lineEntry_comment (h : IsComment line) : lineEntry line = none := by
  obtain ⟨blanks, text, rfl, hblanks⟩ := h
  rw [lineEntry, trimLine_blanks hblanks, trimLine_char (by decide) (by decide)]
  rfl

/-- A plain word is read up to the blank behind it. -/
theorem readToken_plain {word : Bytes} (hword : IsPlain word)
    (hlen : word.length < kConfParserMaxParamSize) (hrest : ∀ c ∈ rest.head?, c ≤ 32) :
    readToken (word ++ rest) = (word, rest) := by
  obtain ⟨c, tail, rfl, hlow, -, hquote, htail⟩ := hword
  have hall : ∀ x ∈ c :: tail, decide (32 < x) = true := by simpa [hlow] using htail
  have hstop : rest.takeWhile (32 < ·) = [] ∧ rest.dropWhile (32 < ·) = rest := by
    match rest with
    | [] => exact ⟨rfl, rfl⟩
    | x :: rest =>
      have hx : ¬ decide (32 < x) = true := by simpa using hrest x rfl
      exact ⟨List.takeWhile_cons_of_neg hx, List.dropWhile_cons_of_neg hx⟩
  have htake : (c :: tail ++ rest).takeWhile (32 < ·) = c :: tail := by
    rw [List.takeWhile_append_of_pos hall, hstop.1, List.append_nil]
  have hdrop : (c :: tail ++ rest).dropWhile (32 < ·) = rest := by
    rw [List.dropWhile_append_of_pos hall, hstop.2]
  rw [List.cons_append] at htake hdrop ⊢
  rw [readToken_word hquote, trimBlanks_word hlow,
    readWord_of_short (by rw [htake]; exact hlen.le), htake, hdrop]

theorem readToken_quoted {word : Bytes} (hlen : word.length < kConfParserMaxParamSize)
    (hrest : rest.head? ≠ some 34) : readToken (quote word ++ rest) = (word, rest) :=
  readQuotedWord_quote hlen hrest

/-- The first word of a line is read, and the words behind it are left. -/
theorem Words.first {word : Bytes} {words : List Bytes} (h : Words line (word :: words))
    (hlen : word.length < kConfParserMaxParamSize) :
    ∃ c next rest, trimLine line = c :: next ∧ readToken (c :: next) = (word, rest) ∧
      Words rest words ∧ (c = 35 → IsComment line) := by
  cases h with
  | @plain blanks _ rest _ hblanks hword hrest hwords =>
    have hread := readToken_plain hword hlen hrest
    obtain ⟨c, tail, rfl, hlow, hhigh, -⟩ := hword
    refine ⟨c, tail ++ rest, rest, ?_, hread, hwords, ?_⟩
    · rw [List.append_assoc, trimLine_blanks hblanks, List.cons_append, trimLine_char hlow hhigh]
    · rintro rfl
      exact ⟨blanks, tail ++ rest, by simp, hblanks⟩
  | @quoted blanks _ rest _ hblanks hrest hwords =>
    have hquote : quote word ++ rest = 34 :: (doubleQuotes word ++ [34] ++ rest) := by simp [quote]
    refine ⟨34, doubleQuotes word ++ [34] ++ rest, rest, ?_, ?_, hwords,
      fun h => absurd h (by decide)⟩
    · rw [List.append_assoc, trimLine_blanks hblanks, hquote, trimLine_char (by decide) (by decide)]
    · rw [← hquote, readToken_quoted hlen hrest]

/-- The words of a line are read. -/
theorem readTokens_words {words : List Bytes} (h : Words line words)
    (hlen : ∀ word ∈ words, word.length < kConfParserMaxParamSize) (n : Nat) :
    readTokens n line = words.take n := by
  induction n generalizing line words with
  | zero => rfl
  | succ n ih =>
    match words with
    | [] =>
      cases h with
      | blank hblank =>
        have htrim := trimLine_blanks hblank []
        rw [List.append_nil] at htrim
        rw [readTokens, htrim]
        rfl
    | word :: words =>
      rw [List.forall_mem_cons] at hlen
      obtain ⟨c, next, rest, htrim, hread, hwords, -⟩ := h.first hlen.1
      rw [readTokens, htrim]
      simp only [hread, ih hwords hlen.2, List.take_succ_cons]

/-- The entry of a line is its first word with the words behind it. -/
theorem lineEntry_words {name : Bytes} {values : List Bytes} (h : Words line (name :: values))
    (hcomment : ¬ IsComment line)
    (hlen : ∀ word ∈ name :: values, word.length < kConfParserMaxParamSize) :
    lineEntry line = some { name, values := values.take kConfParserMaxParamValues } := by
  rw [List.forall_mem_cons] at hlen
  obtain ⟨c, next, rest, htrim, hread, hwords, hsharp⟩ := h.first hlen.1
  have hc : ¬ c = 35 := fun h => hcomment (hsharp h)
  rw [lineEntry, htrim]
  simp only [if_neg hc, hread, readTokens_words hwords hlen.2]

/-! ## The end of a line -/

theorem IsComment.newline (h : IsComment line) : IsComment (line ++ [10]) := by
  obtain ⟨blanks, text, rfl, hblanks⟩ := h
  exact ⟨blanks, text ++ [10], by simp, hblanks⟩

theorem IsComment.of_newline (h : IsComment (line ++ [10])) : IsComment line := by
  obtain ⟨blanks, text, hsplit, hblanks⟩ := h
  rcases List.eq_nil_or_concat text with rfl | ⟨text, x, rfl⟩
  · obtain ⟨-, hlast⟩ := List.append_inj' hsplit rfl
    cases hlast
  · refine ⟨blanks, text, ?_, hblanks⟩
    have hsplit : line ++ [10] = (blanks ++ 35 :: text) ++ [x] := by simpa using hsplit
    exact (List.append_inj' hsplit rfl).1

theorem head?_newline (hrest : ∀ c ∈ rest.head?, c ≤ 32) : ∀ c ∈ (rest ++ [10]).head?, c ≤ 32 := by
  cases rest with
  | nil => simp
  | cons c rest => simpa using hrest

theorem Words.newline {words : List Bytes} (h : Words line words) : Words (line ++ [10]) words := by
  induction h with
  | blank hblank =>
    refine .blank fun c hc => ?_
    rw [List.mem_append, List.mem_singleton] at hc
    rcases hc with hc | rfl
    · exact hblank c hc
    · decide
  | plain hblanks hword hrest _ ih =>
    rw [List.append_assoc]
    exact .plain hblanks hword (head?_newline hrest) ih
  | @quoted _ _ rest _ hblanks hrest _ ih =>
    rw [List.append_assoc]
    refine .quoted hblanks ?_ ih
    cases rest with
    | nil => decide
    | cons c rest => exact hrest

/-! ## The whole file -/

/-- The setter is called for the entries of a file, in the order of its lines and each once, up
to the first that is not set. A comment comes to no entry, and a line of words to the first of
them with the next ones as its values. -/
theorem parseConfigFile_entries (hzero : 0 ∉ file)
    (hlines : ∀ line ∈ file.splitOn 10, line.length < kConfParserMaxLineSize)
    (hfits : ∀ entry ∈ fileEntries file, entry.Fits asserts) (allowNullValues : Bool)
    (setter : Bytes → List Bytes → σ → Bool × σ) (arrays : Arrays) (userData : σ) :
    (parseConfigFile asserts allowNullValues (some file) setter arrays userData).map (·.userData) =
        some (setEntries allowNullValues setter userData (fileEntries file)) ∧
      (∀ line, IsComment line → lineEntry line = none ∧ lineEntry (line ++ [10]) = none) ∧
      ∀ line name values, Words line (name :: values) → ¬ IsComment line →
        (∀ word ∈ name :: values, word.length < kConfParserMaxParamSize) →
        lineEntry line = some { name, values := values.take kConfParserMaxParamValues } ∧
          lineEntry (line ++ [10]) =
            some { name, values := values.take kConfParserMaxParamValues } := by
  refine ⟨?_, fun line h => ⟨lineEntry_comment h, lineEntry_comment h.newline⟩,
    fun line name values h hcomment hlen => ⟨lineEntry_words h hcomment hlen,
      lineEntry_words h.newline (fun h => hcomment h.of_newline) hlen⟩⟩
  obtain ⟨outcome, hparse, huser⟩ := parseLines_eq hzero hlines hfits arrays.size_line
    arrays.size_word allowNullValues setter 0 (-1) userData
  rw [parseConfigFile, hparse, Option.map_some, huser]

/-- What stands behind the bytes of a comment that fill the buffer is read as lines of its own. -/
theorem parseConfigFile_long {comment : Bytes} (hcomment : IsComment comment)
    (hnew : 10 ∉ comment) (hnul : 0 ∉ comment)
    (hfull : comment.length = kConfParserMaxLineSize - 1) (hzero : 0 ∉ rest)
    (hlines : ∀ line ∈ rest.splitOn 10, line.length < kConfParserMaxLineSize)
    (hfits : ∀ entry ∈ fileEntries rest, entry.Fits asserts) (allowNullValues : Bool)
    (setter : Bytes → List Bytes → σ → Bool × σ) (arrays : Arrays) (userData : σ) :
    ∃ outcome, parseConfigFile asserts allowNullValues (some (comment ++ rest)) setter arrays
        userData = some outcome ∧
      outcome.userData = setEntries allowNullValues setter userData (fileEntries rest) := by
  have hlen : comment.length < kConfParserMaxLineSize := hfull ▸ by decide
  have hne : comment ++ rest ≠ [] := fun h => by
    rw [(List.append_eq_nil_iff.mp h).1] at hfull
    exact absurd hfull (by decide)
  have hread : fgets kConfParserMaxLineSize (comment ++ rest) = some (comment, rest, false) := by
    rw [fgets, if_neg hne, ← hfull, readPiece_full hnew]
  have hnone : lineEntry comment = none := lineEntry_comment hcomment
  have hentries : (comment :: lineTexts (rest.splitOn 10)).filterMap lineEntry =
      fileEntries rest := List.filterMap_cons_none hnone
  have hfits' : ∀ entry ∈ (comment :: lineTexts (rest.splitOn 10)).filterMap lineEntry,
      entry.Fits asserts := hentries.symm ▸ hfits
  have hstep := parseLines_step hread hnul hlen hfits' nofun
    (fun _ _ _ hline hword _ _ _ =>
      parseLines_eq hzero hlines hfits hline hword allowNullValues setter _ _ _)
    arrays.size_line arrays.size_word 0 (-1) userData
  rw [hentries] at hstep
  exact hstep

/-- A setter that accepts every parameter, with the calls as its user data. -/
def record (name : Bytes) (values : List Bytes) (calls : List Entry) : Bool × List Entry :=
  (false, calls ++ [(⟨name, values⟩ : Entry)])

def zeroArrays : Arrays where
  lineBuff := List.replicate 1024 0
  wordBuff := List.replicate 512 0
  size_line := List.length_replicate
  size_word := List.length_replicate

theorem parseConfigFile_entries_record :
    (parseConfigFile true false (some (ascii "# a b\n\n port \"a \"\"b\" c\n")) record zeroArrays
        []).map (·.userData) =
      some [{ name := ascii "port", values := [ascii "a \"b", ascii "c"] }] :=
  (parseConfigFile_entries (by decide) (by decide) (by decide) false record zeroArrays []).1.trans
    (by decide)

/-- The calls for a file whose lines fit the buffer. -/
theorem record_entries (file : Bytes) (hzero : 0 ∉ file)
    (hlines : ∀ line ∈ file.splitOn 10, line.length < kConfParserMaxLineSize)
    (hfits : ∀ entry ∈ fileEntries file, entry.Fits true) :
    ∃ outcome, parseConfigFile true false (some file) record zeroArrays [] = some outcome ∧
      outcome.userData = setEntries false record [] (fileEntries file) :=
  parseLines_eq hzero hlines hfits zeroArrays.size_line zeroArrays.size_word false record 0 (-1) []

/-- A line that has no value ends the file, though the setter has not failed; the end of a
comment that is longer than the buffer is set; and a word loses leading bytes above `0x7f`. -/
theorem entries_not_set :
    (∃ outcome, parseConfigFile true false (some (ascii "a\nb c\n")) record zeroArrays [] =
        some outcome ∧ outcome.userData = []) ∧
      (∃ line outcome, IsComment line ∧
        parseConfigFile true false (some line) record zeroArrays [] = some outcome ∧
          outcome.userData = [{ name := ascii "b", values := [ascii "c"] }]) ∧
      ∃ outcome, parseConfigFile true false (some ([195, 169] ++ ascii " b c\n")) record zeroArrays
          [] = some outcome ∧
        outcome.userData = [{ name := ascii "b", values := [ascii "c"] }] := by
  refine ⟨?_, ?_, ?_⟩
  · exact record_entries (ascii "a\nb c\n") (by decide) (by decide) (by decide)
  · have hcomment : IsComment (35 :: List.replicate 1022 120) :=
      ⟨[], List.replicate 1022 120, rfl, nofun⟩
    have hother {c : UInt8} (hsharp : c ≠ 35) (hx : c ≠ 120) : c ∉ 35 :: List.replicate 1022 120 :=
      fun h => (List.mem_cons.mp h).elim hsharp fun h => hx (List.eq_of_mem_replicate h)
    have hfull : (35 :: List.replicate 1022 (120 : UInt8)).length = kConfParserMaxLineSize - 1 := by
      rw [List.length_cons, List.length_replicate]
      rfl
    obtain ⟨outcome, hparse, huser⟩ := parseConfigFile_long hcomment
      (hother (by decide) (by decide)) (hother (by decide) (by decide)) hfull
      (show 0 ∉ ascii " b c" by decide) (by decide)
      (show ∀ entry ∈ fileEntries (ascii " b c"), entry.Fits true by decide) false record
      zeroArrays []
    refine ⟨_, outcome, ?_, hparse, huser.trans (by decide)⟩
    exact ⟨[], List.replicate 1022 120 ++ ascii " b c", rfl, nofun⟩
  · exact record_entries ([195, 169] ++ ascii " b c\n") (by decide) (by decide) (by decide)

end CxxFramework.Basic
