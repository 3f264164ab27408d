import CxxFramework.Core.CString
import CxxFramework.Library.Buffer

/-!
# Words of a string

`GetWord` copies the next word of a string, and `GetQuotedWord` one that stands in quotes. A
pointer into the string is the memory from it on. `none` stands for an access outside of the
string's memory or of the memory for the word.

What both copy is read off the string without the memory: `readWord` and `readQuoted`.
-/

namespace CxxFramework.Basic

open CxxFramework.Core Buffer

variable {s rest beyond word text toWord toWord' fromStr : Bytes} {c : UInt8} {pos limit n : Nat}
  {lastWasQuote : Bool}

/-- The leading blanks are trimmed. -/
def skipBlanks : Bytes → Option Bytes
  | [] => none
  | c :: fromStr => if c ≤ 32 ∧ c ≠ 0 then skipBlanks fromStr else some (c :: fromStr)

/-- The terminator of the word. -/
def terminate (toWord : Bytes) (pos : Nat) (fromStr : Bytes) : Option (Bytes × Bytes) :=
  (write toWord pos [0]).map (fromStr, ·)

/-- The second loop of `GetWord`. -/
def copyWord (toWord : Bytes) (pos : Nat) (limit : Int) (fromStr : Bytes) :
    Option (Bytes × Bytes) :=
  if limit = 0 then terminate toWord pos fromStr
  else
    match fromStr with
    | [] => none
    | c :: fromStr =>
      if 32 < c ∧ c ≠ 0 then
        (write toWord pos [c]).bind fun toWord => copyWord toWord (pos + 1) (limit - 1) fromStr
      else terminate toWord pos (c :: fromStr)

/-- `GetWord`: the position behind the word, and the memory of the word. -/
def getWord (toWord fromStr : Bytes) (limit : Int) : Option (Bytes × Bytes) :=
  (skipBlanks fromStr).bind (copyWord toWord 0 limit)

/-- The loop of `GetQuotedWord`. -/
def copyQuoted (toWord : Bytes) (pos : Nat) (limit : Int) (lastWasQuote : Bool)
    (fromStr : Bytes) : Option (Bytes × Bytes) :=
  if limit = 0 then terminate toWord pos fromStr
  else
    match fromStr with
    | [] => none
    | c :: fromStr =>
      if c = 0 then terminate toWord pos (c :: fromStr)
      else if c = 34 then
        if lastWasQuote then
          (write toWord pos [34]).bind fun toWord =>
            copyQuoted toWord (pos + 1) (limit - 1) false fromStr
        else copyQuoted toWord pos limit true fromStr
      else if !lastWasQuote then
        (write toWord pos [c]).bind fun toWord =>
          copyQuoted toWord (pos + 1) (limit - 1) lastWasQuote fromStr
      else terminate toWord pos (c :: fromStr)

/-- `GetQuotedWord`: the position behind the word, and the memory of the word. -/
def getQuotedWord (toWord fromStr : Bytes) (limit : Int) : Option (Bytes × Bytes) :=
  (skipBlanks fromStr).bind fun fromStr =>
    match fromStr with
    | [] => none
    | c :: fromStr =>
      if c = 34 then copyQuoted toWord 0 limit false fromStr
      else terminate toWord 0 (c :: fromStr)

/-! ## What is read of a string -/

/-- The string behind its leading blanks. -/
def trimBlanks (s : Bytes) : Bytes := s.dropWhile (· ≤ 32)

theorem trimBlanks_blank (hc : c ≤ 32) (s : Bytes) : trimBlanks (c :: s) = trimBlanks s :=
  List.dropWhile_cons_of_pos (by simpa using hc)

theorem trimBlanks_word (hc : 32 < c) (s : Bytes) : trimBlanks (c :: s) = c :: s :=
  List.dropWhile_cons_of_neg (by simpa using hc)

/-- The word at the start of a string, up to a limit, and what is left behind it. -/
def readWord : Nat → Bytes → Bytes × Bytes
  | _, [] => ([], [])
  | 0, c :: s => ([], c :: s)
  | limit + 1, c :: s =>
    if 32 < c then
      let (word, rest) := readWord limit s
      (c :: word, rest)
    else ([], c :: s)

/-- The word in quotes behind an opening quote, up to a limit, and what is left behind it. -/
def readQuoted : Nat → Bool → Bytes → Bytes × Bytes
  | _, _, [] => ([], [])
  | 0, _, c :: s => ([], c :: s)
  | limit + 1, lastWasQuote, c :: s =>
    if c = 34 then
      if lastWasQuote then
        let (word, rest) := readQuoted limit false s
        (34 :: word, rest)
      else readQuoted (limit + 1) true s
    else if lastWasQuote then ([], c :: s)
    else
      let (word, rest) := readQuoted limit false s
      (c :: word, rest)

theorem skipBlanks_eq (hs : 0 ∉ s) (beyond : Bytes) :
    skipBlanks (s ++ 0 :: beyond) = some (trimBlanks s ++ 0 :: beyond) := by
  induction s with
  | nil => rfl
  | cons c s ih =>
    simp only [List.mem_cons, not_or] at hs
    have hne : c ≠ 0 := Ne.symm hs.1
    by_cases hc : c ≤ 32
    · rw [List.cons_append, skipBlanks, if_pos ⟨hc, hne⟩, ih hs.2, trimBlanks_blank hc]
    · rw [List.cons_append, skipBlanks, if_neg (fun h => hc h.1),
        trimBlanks_word (UInt8.not_le.mp hc), List.cons_append]

theorem zero_notMem_trimBlanks (hs : 0 ∉ s) : 0 ∉ trimBlanks s := fun h =>
  hs ((List.dropWhile_sublist _).subset h)

/-- A byte is stored in front of the word that follows. -/
theorem bind_write (toWord : Bytes) (pos : Nat) (c : UInt8) (word fromStr : Bytes) :
    ((write toWord pos [c]).bind fun toWord =>
        (write toWord (pos + 1) (word ++ [0])).map (fromStr, ·)) =
      (write toWord pos (c :: word ++ [0])).map (fromStr, ·) := by
  rw [List.cons_append, ← write_cons toWord pos c (word ++ [0]), Option.map_bind]
  rfl

/-- The word that is read is written with its terminator. -/
theorem copyWord_eq (hs : 0 ∉ s) (toWord : Bytes) (pos limit : Nat) (beyond : Bytes) :
    copyWord toWord pos limit (s ++ 0 :: beyond) =
      (write toWord pos ((readWord limit s).1 ++ [0])).map
        ((readWord limit s).2 ++ 0 :: beyond, ·) := by
  fun_induction readWord limit s generalizing toWord pos with
  | case1 limit =>
    rw [List.nil_append, copyWord.eq_def]
    split_ifs <;> rfl
  | case2 c s => rfl
  | case3 limit c s hc word rest hread ih =>
    simp only [List.mem_cons, not_or] at hs
    have hleft : ((limit + 1 : Nat) : Int) - 1 = (limit : Nat) := by omega
    have hmore : ¬ ((limit + 1 : Nat) : Int) = 0 := by omega
    rw [List.cons_append, copyWord, if_neg hmore]
    simp only [if_pos (And.intro hc (Ne.symm hs.1)), hleft, ih hs.2]
    simp only [hread]
    exact bind_write toWord pos c word (rest ++ 0 :: beyond)
  | case4 limit c s hc =>
    have hmore : ¬ ((limit + 1 : Nat) : Int) = 0 := by omega
    rw [List.cons_append, copyWord, if_neg hmore]
    exact if_neg fun h => hc h.1

theorem getWord_eq (hs : 0 ∉ s) (toWord : Bytes) (limit : Nat) (beyond : Bytes) :
    getWord toWord (s ++ 0 :: beyond) limit =
      (write toWord 0 ((readWord limit (trimBlanks s)).1 ++ [0])).map
        ((readWord limit (trimBlanks s)).2 ++ 0 :: beyond, ·) := by
  rw [getWord, skipBlanks_eq hs, Option.bind_some, copyWord_eq (zero_notMem_trimBlanks hs)]

theorem copyQuoted_cons (toWord : Bytes) (pos limit : Nat) (hc : c ≠ 0) (fromStr : Bytes) :
    copyQuoted toWord pos (limit + 1 : Nat) lastWasQuote (c :: fromStr) =
      if c = 34 then
        if lastWasQuote then
          (write toWord pos [34]).bind fun toWord =>
            copyQuoted toWord (pos + 1) limit false fromStr
        else copyQuoted toWord pos (limit + 1 : Nat) true fromStr
      else if lastWasQuote then terminate toWord pos (c :: fromStr)
      else
        (write toWord pos [c]).bind fun toWord =>
          copyQuoted toWord (pos + 1) limit false fromStr := by
  have hleft : ((limit + 1 : Nat) : Int) - 1 = (limit : Nat) := by omega
  rw [copyQuoted, if_neg (by omega), if_neg hc, hleft]
  cases lastWasQuote <;> rfl

/-- The quoted word that is read is written with its terminator. -/
theorem copyQuoted_eq (hs : 0 ∉ s) (toWord : Bytes) (pos limit : Nat) (lastWasQuote : Bool)
    (beyond : Bytes) :
    copyQuoted toWord pos limit lastWasQuote (s ++ 0 :: beyond) =
      (write toWord pos ((readQuoted limit lastWasQuote s).1 ++ [0])).map
        ((readQuoted limit lastWasQuote s).2 ++ 0 :: beyond, ·) := by
  fun_induction readQuoted limit lastWasQuote s generalizing toWord pos with
  | case1 limit =>
    rw [List.nil_append, copyQuoted.eq_def]
    split_ifs <;> rfl
  | case2 lastWasQuote c s => rfl
  | case3 limit s word rest hread ih =>
    rw [List.mem_cons, not_or] at hs
    simp only [List.cons_append, copyQuoted_cons _ _ _ (Ne.symm hs.1), ih hs.2]
    simp only [hread]
    exact bind_write toWord pos 34 word (rest ++ 0 :: beyond)
  | case4 limit lastWasQuote s hlast ih =>
    rw [List.mem_cons, not_or] at hs
    rw [List.cons_append, copyQuoted_cons _ _ _ (Ne.symm hs.1), if_pos rfl, if_neg hlast, ih hs.2]
  | case5 limit c s hc =>
    rw [List.mem_cons, not_or] at hs
    rw [List.cons_append, copyQuoted_cons _ _ _ (Ne.symm hs.1), if_neg hc]
    rfl
  | case6 limit lastWasQuote c s hc hlast word rest hread ih =>
    rw [List.mem_cons, not_or] at hs
    simp only [List.cons_append, copyQuoted_cons _ _ _ (Ne.symm hs.1), if_neg hc, if_neg hlast,
      ih hs.2]
    simp only [hread]
    exact bind_write toWord pos c word (rest ++ 0 :: beyond)

/-- The quoted word behind the leading blanks, up to a limit, and what is left behind it. What
does not lead with a quote is no quoted word. -/
def readQuotedWord (limit : Nat) (s : Bytes) : Bytes × Bytes :=
  match trimBlanks s with
  | [] => ([], [])
  | c :: s => if c = 34 then readQuoted limit false s else ([], c :: s)

theorem getQuotedWord_eq (hs : 0 ∉ s) (toWord : Bytes) (limit : Nat) (beyond : Bytes) :
    getQuotedWord toWord (s ++ 0 :: beyond) limit =
      (write toWord 0 ((readQuotedWord limit s).1 ++ [0])).map
        ((readQuotedWord limit s).2 ++ 0 :: beyond, ·) := by
  have htrim := zero_notMem_trimBlanks hs
  rw [getQuotedWord, skipBlanks_eq hs, Option.bind_some, readQuotedWord]
  generalize trimBlanks s = trimmed at htrim
  match trimmed with
  | [] => rfl
  | c :: s =>
    rw [List.mem_cons, not_or] at htrim
    by_cases hc : c = 34
    · simp only [List.cons_append, if_pos hc]
      exact copyQuoted_eq htrim.2 toWord 0 limit false beyond
    · simp only [List.cons_append, if_neg hc]
      rfl

/-! ## Where the word ends -/

theorem readWord_suffix (limit : Nat) (s : Bytes) : (readWord limit s).2 <:+ s := by
  fun_induction readWord limit s <;> grind [List.suffix_refl, List.suffix_cons_iff]

theorem readQuoted_suffix (limit : Nat) (lastWasQuote : Bool) (s : Bytes) :
    (readQuoted limit lastWasQuote s).2 <:+ s := by
  fun_induction readQuoted limit lastWasQuote s <;>
    grind [List.suffix_refl, List.suffix_cons_iff]

theorem readWord_subset (limit : Nat) (s : Bytes) : (readWord limit s).1 ⊆ s := by
  fun_induction readWord limit s <;> grind

theorem readQuoted_subset (limit : Nat) (lastWasQuote : Bool) (s : Bytes) :
    (readQuoted limit lastWasQuote s).1 ⊆ s := by
  fun_induction readQuoted limit lastWasQuote s <;> grind

theorem trimBlanks_suffix (s : Bytes) : trimBlanks s <:+ s := List.dropWhile_suffix _

/-- The position behind a quoted word. A quote that leads is behind it. -/
theorem readQuotedWord_trimmed (limit : Nat) (s : Bytes) :
    (readQuotedWord limit s).2 <:+ trimBlanks s ∧
      ((trimBlanks s).head? = some 34 →
        (readQuotedWord limit s).2.length < (trimBlanks s).length) := by
  unfold readQuotedWord
  match trimBlanks s with
  | [] => simp
  | c :: rest =>
    by_cases hc : c = 34
    · have hrest := readQuoted_suffix limit false rest
      simp only [if_pos hc]
      exact ⟨hrest.trans (List.suffix_cons c rest), fun _ => Nat.lt_succ_of_le hrest.length_le⟩
    · simp [hc]

theorem readQuotedWord_suffix (limit : Nat) (s : Bytes) : (readQuotedWord limit s).2 <:+ s :=
  (readQuotedWord_trimmed limit s).1.trans (trimBlanks_suffix s)

theorem trimBlanks_cons (hs : ∃ c ∈ s, 32 < c) :
    ∃ c rest, trimBlanks s = c :: rest ∧ 32 < c := by
  induction s with
  | nil => simp at hs
  | cons c s ih =>
    by_cases hc : c ≤ 32
    · obtain ⟨x, hx, hlt⟩ := hs
      have hne : x ≠ c := fun h => UInt8.not_lt.mpr hc (h ▸ hlt)
      have hrest := ih ⟨x, List.mem_of_ne_of_mem hne hx, hlt⟩
      rw [trimBlanks_blank hc]
      exact hrest
    · have hc := UInt8.not_le.mp hc
      exact ⟨c, s, trimBlanks_word hc s, hc⟩

/-- A string that is not blank has a word, which is read. -/
theorem readWord_progress (hlimit : 0 < limit) (hs : ∃ c ∈ s, 32 < c) :
    (readWord limit (trimBlanks s)).2.length < s.length := by
  obtain ⟨c, rest, hrest, hc⟩ := trimBlanks_cons hs
  have hle := (trimBlanks_suffix s).length_le
  match limit with
  | limit + 1 =>
    have hread := (readWord_suffix limit rest).length_le
    rw [hrest, List.length_cons] at hle
    rw [hrest, readWord, if_pos hc]
    exact Nat.lt_of_le_of_lt hread hle

/-- A string that `GetQuotedWord` reads on from: there are blanks to trim, or a quote leads. -/
def Leads (s : Bytes) : Prop := (∃ c ∈ s.head?, c ≤ 32) ∨ (trimBlanks s).head? = some 34

theorem readQuotedWord_progress (limit : Nat) (hs : Leads s) :
    (readQuotedWord limit s).2.length < s.length := by
  obtain ⟨hsuffix, hquote⟩ := readQuotedWord_trimmed limit s
  have hread := hsuffix.length_le
  rcases hs with ⟨c, hhead, hc⟩ | hs
  · match s with
    | a :: s =>
      obtain rfl := Option.some.inj hhead
      have hle := (trimBlanks_suffix s).length_le
      rw [trimBlanks_blank hc] at hread
      exact Nat.lt_succ_of_le (hread.trans hle)
  · exact Nat.lt_of_lt_of_le (hquote hs) (trimBlanks_suffix s).length_le

/-! ## Words that are shorter than the limit -/

/-- The first word of a string. -/
def firstWord (s : Bytes) : Bytes := (trimBlanks s).takeWhile (32 < ·)

theorem readWord_of_short (h : (s.takeWhile (32 < ·)).length ≤ limit) :
    readWord limit s = (s.takeWhile (32 < ·), s.dropWhile (32 < ·)) := by
  fun_induction readWord limit s <;>
    grind [List.takeWhile_nil, List.takeWhile_cons, List.dropWhile_nil, List.dropWhile_cons]

/-- The first quoted word of a string. -/
def quotedWord (s : Bytes) : Bytes := (readQuotedWord (s.length + 1) s).1

theorem readQuoted_of_short (hn : s.length < n)
    (h : (readQuoted n lastWasQuote s).1.length < limit) :
    readQuoted limit lastWasQuote s = readQuoted n lastWasQuote s := by
  fun_induction readQuoted n lastWasQuote s generalizing limit <;>
    cases limit <;> grind [readQuoted]

/-- The quotes in a word, doubled. -/
def doubleQuotes (word : Bytes) : Bytes := word.flatMap fun c => if c = 34 then [34, 34] else [c]

/-- A word in quotes. -/
def quote (word : Bytes) : Bytes := 34 :: doubleQuotes word ++ [34]

theorem readQuoted_quote (hlen : word.length < limit) (htext : text.head? ≠ some 34) :
    readQuoted limit false (doubleQuotes word ++ 34 :: text) = (word, text) := by
  induction word generalizing limit with
  | nil =>
    match limit, text with
    | limit + 1, [] => rfl
    | limit + 1, c :: text =>
      have hc : c ≠ 34 := fun h => htext (congrArg some h)
      simp [doubleQuotes, readQuoted, hc]
  | cons c word ih =>
    match limit with
    | limit + 1 =>
      have hrest := ih (Nat.lt_of_succ_lt_succ hlen)
      unfold doubleQuotes at hrest ⊢
      by_cases hc : c = 34
      · simp [hc, readQuoted, hrest]
      · simp [hc, readQuoted, hrest]

/-! ## What the two functions do -/

/-- A function that extracts a word of `s`, up to `limit`: the position it returns is inside of
the string, behind its start if `leads` holds, and a `word` that is shorter than the limit is
left in a memory of `limit` bytes. -/
structure Extracts (get : Bytes → Bytes → Int → Option (Bytes × Bytes)) (s beyond : Bytes)
    (limit : Nat) (leads : Prop) (word : Bytes) : Prop where
  returns {toWord : Bytes} : limit < toWord.length → ∃ rest toWord',
    get toWord (s ++ 0 :: beyond) limit = some (rest ++ 0 :: beyond, toWord') ∧
      rest <:+ s ∧ (leads → rest.length < s.length)
  bounded {toWord : Bytes} : word.length < limit → toWord.length = limit → ∃ rest toWord',
    get toWord (s ++ 0 :: beyond) limit = some (rest ++ 0 :: beyond, toWord') ∧
      cString toWord' = word

theorem readWord_length (limit : Nat) (s : Bytes) : (readWord limit s).1.length ≤ limit := by
  fun_induction readWord limit s <;> grind

theorem readQuoted_length (limit : Nat) (lastWasQuote : Bool) (s : Bytes) :
    (readQuoted limit lastWasQuote s).1.length ≤ limit := by
  fun_induction readQuoted limit lastWasQuote s <;> grind

/-- A word that fits its memory. -/
theorem write_word (hzero : 0 ∉ word) (hroom : word.length < toWord.length) :
    ∃ toWord', write toWord 0 (word ++ [0]) = some toWord' ∧
      toWord'.take (word.length + 1) = word ++ [0] ∧ cString toWord' = word := by
  obtain ⟨toWord', hwrite⟩ : ∃ toWord', write toWord 0 (word ++ [0]) = some toWord' :=
    ⟨_, write_of_le (by simp; omega)⟩
  have htake := take_write hwrite
  rw [Nat.zero_add, List.take_zero, List.nil_append, List.length_append,
    List.length_singleton] at htake
  exact ⟨toWord', hwrite, htake, (cString_of_take htake).trans (cString_of_noZero hzero)⟩

/-- What is read of a string is extracted. -/
theorem extracts_of_read {get : Bytes → Bytes → Int → Option (Bytes × Bytes)} {leads : Prop}
    {read : Bytes × Bytes} (hs : 0 ∉ s)
    (hget : ∀ toWord, get toWord (s ++ 0 :: beyond) limit =
      (write toWord 0 (read.1 ++ [0])).map (read.2 ++ 0 :: beyond, ·))
    (hsubset : read.1 ⊆ s) (hlen : read.1.length ≤ limit) (hsuffix : read.2 <:+ s)
    (hleads : leads → read.2.length < s.length) (hshort : word.length < limit → read.1 = word) :
    Extracts get s beyond limit leads word := by
  have hzero : 0 ∉ read.1 := fun h => hs (hsubset h)
  refine ⟨fun {toWord} hroom => ?_, fun {toWord} hword hroom => ?_⟩
  · obtain ⟨toWord', hwrite, -⟩ := write_word hzero (hlen.trans_lt hroom)
    refine ⟨read.2, toWord', ?_, hsuffix, hleads⟩
    rw [hget, hwrite, Option.map_some]
  · obtain rfl := hshort hword
    obtain ⟨toWord', hwrite, -, hstring⟩ := write_word hzero (hroom.symm ▸ hword)
    refine ⟨read.2, toWord', ?_, hstring⟩
    rw [hget, hwrite, Option.map_some]

theorem getWord_extracts (hs : 0 ∉ s) (hlimit : 0 < limit) (beyond : Bytes) :
    Extracts getWord s beyond limit (∃ c ∈ s, 32 < c) (firstWord s) := by
  have hsuffix := readWord_suffix limit (trimBlanks s)
  have hsubset : (readWord limit (trimBlanks s)).1 ⊆ s :=
    List.Subset.trans (readWord_subset _ _) (trimBlanks_suffix s).subset
  exact extracts_of_read hs (getWord_eq hs · limit beyond) hsubset (readWord_length _ _)
    (hsuffix.trans (trimBlanks_suffix s)) (readWord_progress hlimit)
    fun hword => congrArg Prod.fst (readWord_of_short hword.le)

/-- A quoted word is read of the string, and kept below the limit. -/
theorem readQuotedWord_word (limit : Nat) (s : Bytes) :
    (readQuotedWord limit s).1 ⊆ s ∧ (readQuotedWord limit s).1.length ≤ limit := by
  have htrim := trimBlanks_suffix s
  unfold readQuotedWord
  generalize trimBlanks s = trimmed at htrim
  match trimmed with
  | [] => simp
  | c :: rest =>
    by_cases hc : c = 34
    · simp only [if_pos hc]
      exact ⟨List.Subset.trans (readQuoted_subset _ _ rest)
        ((List.suffix_cons c rest).trans htrim).subset, readQuoted_length _ _ rest⟩
    · simp [hc]

theorem readQuotedWord_of_short (h : (quotedWord s).length < limit) :
    (readQuotedWord limit s).1 = quotedWord s := by
  have hle := (trimBlanks_suffix s).length_le
  unfold quotedWord readQuotedWord at *
  generalize trimBlanks s = trimmed at *
  match trimmed with
  | [] => rfl
  | c :: rest =>
    by_cases hc : c = 34
    · rw [List.length_cons] at hle
      simp only [if_pos hc] at h ⊢
      rw [readQuoted_of_short (by omega) h]
    · simp only [if_neg hc]

theorem getQuotedWord_extracts (hs : 0 ∉ s) (limit : Nat) (beyond : Bytes) :
    Extracts getQuotedWord s beyond limit (Leads s) (quotedWord s) := by
  obtain ⟨hsubset, hlen⟩ := readQuotedWord_word limit s
  exact extracts_of_read hs (getQuotedWord_eq hs · limit beyond) hsubset hlen
    (readQuotedWord_suffix limit s) (readQuotedWord_progress limit) readQuotedWord_of_short

/-- A word in quotes is read back. -/
theorem readQuotedWord_quote (hlen : word.length < limit) (htext : text.head? ≠ some 34) :
    readQuotedWord limit (quote word ++ text) = (word, text) := by
  have htrim : trimBlanks (quote word ++ text) = 34 :: (doubleQuotes word ++ 34 :: text) := by
    simp [quote, trimBlanks_word (show (32 : UInt8) < 34 by decide)]
  rw [readQuotedWord, htrim]
  exact readQuoted_quote hlen htext

theorem mem_doubleQuotes (hc : c ∈ word) : c ∈ doubleQuotes word :=
  List.mem_flatMap.mpr ⟨c, hc, by split_ifs with h <;> simp [h]⟩

/-- The quoted form of a word that is shorter than the limit is extracted. -/
theorem getQuotedWord_quote (hs : 0 ∉ quote word ++ text) (hword : word.length < limit)
    (htext : text.head? ≠ some 34) (beyond : Bytes) (hroom : toWord.length = limit) :
    ∃ toWord', getQuotedWord toWord (quote word ++ text ++ 0 :: beyond) limit =
        some (text ++ 0 :: beyond, toWord') ∧
      toWord'.take (word.length + 1) = word ++ [0] := by
  have hzero : 0 ∉ word := fun h => hs (by simp [quote, mem_doubleQuotes h])
  obtain ⟨toWord', hwrite, htake, -⟩ := write_word hzero (hroom.symm ▸ hword)
  refine ⟨toWord', ?_, htake⟩
  rw [getQuotedWord_eq hs, readQuotedWord_quote hword htext, hwrite, Option.map_some]

/-- For every string and every limit: where the words of both functions end, what is written of
a word that is shorter than the limit, and that a quoted word is read back. -/
theorem extracts_words (hs : 0 ∉ s) (hlimit : 0 < limit) (beyond : Bytes) :
    Extracts getWord s beyond limit (∃ c ∈ s, 32 < c) (firstWord s) ∧
      Extracts getQuotedWord s beyond limit (Leads s) (quotedWord s) ∧
      ∀ word text toWord : Bytes, s = quote word ++ text → word.length < limit →
        text.head? ≠ some 34 → toWord.length = limit →
        ∃ toWord', getQuotedWord toWord (s ++ 0 :: beyond) limit =
            some (text ++ 0 :: beyond, toWord') ∧
          toWord'.take (word.length + 1) = word ++ [0] := by
  refine ⟨getWord_extracts hs hlimit beyond, getQuotedWord_extracts hs limit beyond, ?_⟩
  rintro word text toWord rfl hword htext hroom
  exact getQuotedWord_quote hs hword htext beyond hroom

theorem extracts_words_quoted :
    Extracts getWord (ascii "\"a \"\"b\" c") [] 8 (∃ c ∈ ascii "\"a \"\"b\" c", 32 < c)
        (firstWord (ascii "\"a \"\"b\" c")) ∧
      Extracts getQuotedWord (ascii "\"a \"\"b\" c") [] 8 (Leads (ascii "\"a \"\"b\" c"))
        (quotedWord (ascii "\"a \"\"b\" c")) ∧
      ∀ word text toWord : Bytes, ascii "\"a \"\"b\" c" = quote word ++ text → word.length < 8 →
        text.head? ≠ some 34 → toWord.length = 8 →
        ∃ toWord', getQuotedWord toWord (ascii "\"a \"\"b\" c" ++ [0]) 8 =
            some (text ++ [0], toWord') ∧
          toWord'.take (word.length + 1) = word ++ [0] :=
  extracts_words (by decide) (by decide) []

/-- A word that is not quoted is left where it is by `GetQuotedWord`, and the terminator of a
word as long as the limit is written behind a memory of that size. -/
theorem abc_not_extracted :
    getQuotedWord [0, 0, 0, 0] (ascii "abc" ++ [0]) 4 = some (ascii "abc" ++ [0], [0, 0, 0, 0]) ∧
      getWord [0, 0, 0] (ascii "abc" ++ [0]) 3 = none := by
  decide

end CxxFramework.Basic
