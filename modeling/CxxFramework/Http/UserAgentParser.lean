import CxxFramework.Core.ParserBounds
import Mathlib.Data.List.TakeWhile

/-!
# User agents

`UserAgentParser::Parse` cuts the fields out of a user agent, and the version of the system out of
the field of the system. The fields it finds are slices of its input.

The version stands behind an escaped blank, and what the parser takes for one is any `%`. It skips
three characters there, and counts the characters left in a `UInt16`, though there may be less than
three of them, or more than the counter holds.

## Main definitions

* `UserAgentParser.parseFields`, `UserAgentParser.splitVersion` — the two parts of `Parse`.
* `UserAgentParser.agentFields` — the fields of a user agent, as texts, and what is not read.
* `UserAgentParser.Safe` — what is read and found is in the input.
-/

namespace CxxFramework.Net.UserAgentParser

open CxxFramework.Core CxxFramework.Core.StringParser

inductive FieldID where
  | eQtid
  | eQtver
  | eLang
  | eOs
  | eOsver
  | eCpu
deriving DecidableEq, Repr

def sFieldIDs : List (Bytes × FieldID) :=
  [(ascii "qtid", .eQtid), (ascii "qtver", .eQtver), (ascii "lang", .eLang), (ascii "Core", .eOs),
    (ascii "osver", .eOsver), (ascii "cpu", .eCpu)]

def sEOLWhitespaceEqualMask (c : UInt8) : Bool :=
  c == 9 || c == 10 || c == 13 || c == 32 || c == 61

def sEOLSemicolonCloseParenMask (c : UInt8) : Bool :=
  c == 9 || c == 10 || c == 13 || c == 41 || c == 59

/-- A `StrPtrLen` into the input. `Ptr` counts from the start of the input. -/
structure Slice where
  Ptr : Nat := 0
  Len : Nat := 0
deriving DecidableEq, Repr

structure UserAgentData where
  fData : Slice := {}
  fFound : Bool := false
deriving DecidableEq, Repr

/-- The state of `Parse`. -/
structure Parse where
  parser : StringParser
  fFieldData : FieldID → UserAgentData := fun _ => {}
  /-- Every byte that has been read is in the input. -/
  inside : Bool := true

namespace Parse

/-- An operation of the parser. -/
def move (u : Parse) (op : StringParser → StrPtrLen × StringParser) : Parse :=
  { u with
    parser := (op u.parser).2
    inside := u.inside && (u.parser.checked op).isSome }

/-- The slice that an operation of the parser gives. -/
def slice (u : Parse) (op : StringParser → StrPtrLen × StringParser) : Slice :=
  { Ptr := u.parser.parsed.length, Len := ((op u.parser).1.getD []).length }

/-- A round of the inner loop: the field takes the data if it has the id, and has none yet. -/
def testField (tempID : Bytes) (tempData : Slice) (fFieldData : FieldID → UserAgentData)
    (field : Bytes × FieldID) : FieldID → UserAgentData :=
  if !(fFieldData field.2).fFound && field.1 == tempID then
    fun id => if id = field.2 then { fData := tempData, fFound := true } else fFieldData id
  else fFieldData

/-- The inner loop of `Parse`. -/
def setField (u : Parse) (tempID : Bytes) (tempData : Slice) : Parse :=
  { u with fFieldData := sFieldIDs.foldl (testField tempID tempData) u.fFieldData }

/-- A round of the loop, and whether another one follows. -/
def round (u : Parse) : Bool × Parse :=
  let u := u.move (consumeLength · 1)
  let u := u.move (consumeUntil · sNonWhitespaceMask)
  let tempID := (u.parser.consumeUntil sEOLWhitespaceEqualMask).1.getD []
  let u := u.move (consumeUntil · sEOLWhitespaceEqualMask)
  if tempID = [] then (false, u)
  else
    let u := u.move (consumeUntil · (· == 61))
    let u := u.move (consumeLength · 1)
    let tempData := u.slice (consumeUntil · sEOLSemicolonCloseParenMask)
    let u := u.move (consumeUntil · sEOLSemicolonCloseParenMask)
    if tempData.Len = 0 then (false, u) else (true, u.setField tempID tempData)

/-- The loop. None if it takes `n` rounds and more. -/
def loop : Nat → Parse → Option Parse
  | 0, _ => none
  | n + 1, u =>
    let next := u.round
    if next.1 then loop n next.2 else some next.2

end Parse

/-- `UserAgentParser::Parse` up to the end of its loop, on an input with what stands behind it. -/
def parseFields (inStream : StrPtrLen) (beyond : Bytes) : Option Parse :=
  let start : Parse := { parser := .ofString inStream beyond }
  let startFields := start.slice (consumeUntil · (· == 40))
  let u := start.move (consumeUntil · (· == 40))
  if startFields.Len ≠ 0 then u.loop ((inStream.getD []).length + 1) else some u

/-- Where the loop over the field of the system ends. -/
inductive Blank where
  | none
  | found (cp : Nat) (len : UInt16)
  /-- The loop goes on behind the input. -/
  | outside
deriving DecidableEq, Repr

/-- The loop over the characters of the field, which are read at `cp`. -/
def skipToBlank : Bytes → Nat → UInt16 → Blank
  | [], _, _ => .outside
  | c :: mem, cp, len =>
    if c = 37 then .found cp len
    else
      let len := len - 1
      if c = 0 ∨ len = 0 then .none else skipToBlank mem (cp + 1) len

/-- `UserAgentParser::Parse` behind its loop. -/
def splitVersion (inStream : Bytes) (u : Parse) : Parse :=
  let os := u.fFieldData .eOs
  if os.fFound && !(u.fFieldData .eOsver).fFound then
    match skipToBlank (inStream.drop os.fData.Ptr) os.fData.Ptr (.ofNat os.fData.Len) with
    | .none => u
    | .outside => { u with inside := false }
    | .found cp len =>
      let cp := cp + 3
      let len := len - 3
      -- `Len` is a `UInt32`.
      let osLen := (os.fData.Len + 2 ^ 32 - (len.toNat + 3)) % 2 ^ 32
      { u with
        fFieldData := fun id =>
          match id with
          | .eOsver => { fData := { Ptr := cp, Len := len.toNat }, fFound := true }
          | .eOs => { os with fData.Len := osLen }
          | id => u.fFieldData id }
  else u

/-! ## The fields of a user agent -/

/-- The name and the value that stand behind a character, if there are any, and what is left. -/
def cutField (s : Bytes) : Option (Bytes × Bytes) × Bytes :=
  let s := (s.drop 1).dropWhile sEOLWhitespaceMask
  let name := s.takeWhile (!sEOLWhitespaceEqualMask ·)
  let s := s.dropWhile (!sEOLWhitespaceEqualMask ·)
  if name = [] then (none, s)
  else
    let s := (s.dropWhile (!· == 61)).drop 1
    let value := s.takeWhile (!sEOLSemicolonCloseParenMask ·)
    let s := s.dropWhile (!sEOLSemicolonCloseParenMask ·)
    if value = [] then (none, s) else (some (name, value), s)

/-- At most `n` fields, and what is left behind them. -/
def cutFields : Nat → Bytes → List (Bytes × Bytes) × Bytes
  | 0, s => ([], s)
  | n + 1, s =>
    match cutField s with
    | (none, s) => ([], s)
    | (some f, s) => (f :: (cutFields n s).1, (cutFields n s).2)

/-- The fields from the first `(` on, and what is left behind them. There are none in a user agent
that starts with a `(`. -/
def agentFields (s : Bytes) : List (Bytes × Bytes) × Bytes :=
  if s.takeWhile (!· == 40) = [] then ([], s) else cutFields (s.length + 1) (s.dropWhile (!· == 40))

def fieldName : FieldID → Bytes
  | .eQtid => ascii "qtid"
  | .eQtver => ascii "qtver"
  | .eLang => ascii "lang"
  | .eOs => ascii "Core"
  | .eOsver => ascii "osver"
  | .eCpu => ascii "cpu"

/-- The first value with the name of a field. -/
def valueOf (fields : List (Bytes × Bytes)) (id : FieldID) : Option Bytes :=
  (fields.find? (·.1 = fieldName id)).map (·.2)

/-! ## Safety -/

/-- The slices of the system and its version are the parts of the slice `o` before and behind an
escaped blank. -/
def Splits (s : Bytes) (o os osver : Slice) : Prop :=
  ∃ k, k + 3 ≤ o.Len ∧ os = ⟨o.Ptr, k⟩ ∧ osver = ⟨o.Ptr + (k + 3), o.Len - (k + 3)⟩ ∧
    (s.drop (o.Ptr + k)).take 3 = ascii "%20"

/-- What `Parse` reads and finds in `s` is in `s`, and the system is split at an escaped blank.
`v` is the state behind the loop and `u` the last one. -/
structure Safe (s : Bytes) (v u : Parse) : Prop where
  inside : u.inside = true
  fields : ∀ id, (u.fFieldData id).fFound = true →
    (u.fFieldData id).fData.Ptr + (u.fFieldData id).fData.Len ≤ s.length
  split : (u.fFieldData .eOsver).fFound = true → (v.fFieldData .eOsver).fFound = false →
    Splits s (v.fFieldData .eOs).fData (u.fFieldData .eOs).fData (u.fFieldData .eOsver).fData

/-- What stands before the first `%` or zero of a system. -/
def untilBlank (os : Bytes) : Bytes := os.takeWhile fun c => c != 37 && c != 0

/-- If a `%` stands first, and the counter reaches it, it is an escaped blank and the counter holds
the rest. -/
def SplitsWell (os : Bytes) : Prop :=
  let n := (untilBlank os).length
  (os.drop n).head? = some 37 → n ≤ (os.length - 1) % 65536 →
    (os.drop n).take 3 = ascii "%20" ∧ os.length - (n + 3) < 65536

instance (os : Bytes) : Decidable (SplitsWell os) := inferInstanceAs (Decidable (_ → _ → _ ∧ _))

/-- A `\r` that ends the user agent is not passed, and a system without a field for its version
is split well. -/
structure WellFormed (s : Bytes) : Prop where
  lastLine : ¬ ((agentFields s).2 = [] ∧ s.getLast? = some 13)
  system : ∀ os ∈ valueOf (agentFields s).1 .eOs,
    valueOf (agentFields s).1 .eOsver = none → SplitsWell os

/-! ## Reading the fields -/

/-- The parser has passed `parsed`, and `rest` is left. It has looked behind the input only if it
has passed a `\r` that ends it. -/
structure Placed (s : Bytes) (u : Parse) (parsed rest : Bytes) : Prop where
  place : At u.parser parsed rest
  input : parsed.reverse ++ rest = s
  inside : u.inside = true ↔ ¬ (rest = [] ∧ s.getLast? = some 13)

variable {s parsed rest text : Bytes} {u : Parse}

theorem Placed.move {op : StringParser → StrPtrLen × StringParser} {out : StrPtrLen}
    (h : Placed s u parsed (text ++ rest))
    (hop : ∃ q, op u.parser = (out, q) ∧ At q (text.reverse ++ parsed) rest) :
    Placed s (u.move op) (text.reverse ++ parsed) rest := by
  obtain ⟨q, hq, hat⟩ := hop
  have hchecked := h.place.checked_eq op hq hat
  refine ⟨by rwa [Parse.move, hq], by simp [← h.input], ?_⟩
  have hinside : (u.move op).inside =
      (u.inside && (u.parser.checked op).isSome) := rfl
  rw [hinside, hchecked, Bool.and_eq_true, h.inside]
  by_cases hrest : rest = []
  · subst hrest
    cases htext : text with
    | nil => simp
    | cons c t =>
      have hlast : s.getLast? = text.getLast? := by
        rw [← h.input, List.append_nil, htext,
          List.getLast?_append_of_ne_nil _ (List.cons_ne_nil c t)]
      rw [hlast, htext]
      simp
  · simp [hrest]

theorem Placed.consumeUntil (h : Placed s u parsed rest) (stop : UInt8 → Bool) :
    ∃ parsed', Placed s (u.move (consumeUntil · stop)) parsed' (rest.dropWhile (!stop ·)) := by
  obtain ⟨q, hq, hat⟩ := h.place.consumeUntil stop
  rw [← List.takeWhile_append_dropWhile (p := (!stop ·)) (l := rest)] at h
  exact ⟨_, h.move ⟨q, hq, hat⟩⟩

theorem Placed.consumeLength (h : Placed s u parsed rest) :
    ∃ parsed', Placed s (u.move (consumeLength · 1)) parsed' (rest.drop 1) := by
  obtain ⟨q, hq, hat⟩ := h.place.consumeLength 1
  rw [← List.take_append_drop 1 rest] at h
  exact ⟨_, h.move ⟨q, hq, hat⟩⟩

/-- The slice is where the text stands in the input. -/
def Denotes (s : Bytes) (data : Slice) (text : Bytes) : Prop :=
  ∃ front back, s = front ++ (text ++ back) ∧ data = ⟨front.length, text.length⟩

theorem Placed.out (h : Placed s u parsed rest) (stop : UInt8 → Bool) :
    (u.parser.consumeUntil stop).1 = some (rest.takeWhile (!stop ·)) := by
  obtain ⟨q, hq, -⟩ := h.place.consumeUntil stop
  rw [hq]

theorem Placed.slice (h : Placed s u parsed rest) (stop : UInt8 → Bool) :
    Denotes s (u.slice (StringParser.consumeUntil · stop)) (rest.takeWhile (!stop ·)) := by
  refine ⟨parsed.reverse, rest.dropWhile (!stop ·), ?_, ?_⟩
  · rw [List.takeWhile_append_dropWhile, h.input]
  · simp only [Parse.slice, h.out stop, Option.getD_some, h.place.parsed_eq, List.length_reverse]

/-- The data of the fields are the first values with their names. -/
def Holds (s : Bytes) (fields : List (Bytes × Bytes)) (fFieldData : FieldID → UserAgentData) :
    Prop :=
  ∀ id, (valueOf fields id = none ∧ (fFieldData id).fFound = false) ∨
    ∃ text, valueOf fields id = some text ∧ text ≠ [] ∧ (fFieldData id).fFound = true ∧
      Denotes s (fFieldData id).fData text

theorem foldl_testField (table : List (Bytes × FieldID)) (htable : (table.map (·.2)).Nodup)
    (tempID : Bytes) (tempData : Slice) (fFieldData : FieldID → UserAgentData) (id : FieldID) :
    table.foldl (Parse.testField tempID tempData) fFieldData id =
      if (fFieldData id).fFound = false ∧ (tempID, id) ∈ table then
        { fData := tempData, fFound := true } else fFieldData id := by
  induction table generalizing fFieldData with
  | nil => simp
  | cons field table ih =>
    obtain ⟨hfirst, hrest⟩ := List.nodup_cons.mp htable
    rw [List.foldl_cons, ih hrest]
    by_cases hid : id = field.2
    · have hnext : (tempID, id) ∉ table := fun h =>
        hfirst (List.mem_map.mpr ⟨_, h, hid⟩)
      have hmem : (tempID, id) ∈ field :: table ↔ field.1 = tempID := by
        rw [List.mem_cons, or_iff_left hnext, Prod.ext_iff, and_iff_left hid, eq_comm]
      simp only [hnext, and_false, if_false, hmem, Parse.testField, ← hid]
      split_ifs <;> simp_all
    · have hsame : Parse.testField tempID tempData fFieldData field id = fFieldData id := by
        unfold Parse.testField
        split_ifs
        · exact if_neg hid
        · rfl
      have hmem : (tempID, id) ∈ field :: table ↔ (tempID, id) ∈ table := by
        rw [List.mem_cons, or_iff_right fun h => hid (congrArg Prod.snd h)]
      simp only [hsame, hmem]

theorem mem_sFieldIDs (tempID : Bytes) (id : FieldID) :
    (tempID, id) ∈ sFieldIDs ↔ tempID = fieldName id := by
  cases id <;> simp [sFieldIDs, fieldName]

theorem setField_apply (u : Parse) (tempID : Bytes) (tempData : Slice) (id : FieldID) :
    (u.setField tempID tempData).fFieldData id =
      if (u.fFieldData id).fFound = false ∧ tempID = fieldName id then
        { fData := tempData, fFound := true } else u.fFieldData id := by
  have hfold := foldl_testField sFieldIDs (by decide) tempID tempData u.fFieldData id
  simp only [mem_sFieldIDs] at hfold
  exact hfold

theorem valueOf_append (fields : List (Bytes × Bytes)) (name value : Bytes) (id : FieldID) :
    valueOf (fields ++ [(name, value)]) id =
      (valueOf fields id).or (if name = fieldName id then some value else none) := by
  unfold valueOf
  rw [List.find?_append, Option.map_or]
  congr 1
  by_cases hname : name = fieldName id <;> simp [hname]

theorem Holds.setField {fields : List (Bytes × Bytes)} {name value : Bytes} {data : Slice}
    (h : Holds s fields u.fFieldData) (hvalue : value ≠ []) (hdata : Denotes s data value) :
    Holds s (fields ++ [(name, value)]) (u.setField name data).fFieldData := by
  intro id
  rw [valueOf_append, setField_apply]
  rcases h id with ⟨hnone, hfound⟩ | ⟨text, htext, hne, hfound, hdenotes⟩
  · rw [hnone, Option.none_or]
    by_cases hname : name = fieldName id
    · rw [if_pos hname, if_pos ⟨hfound, hname⟩]
      exact .inr ⟨value, rfl, hvalue, rfl, hdata⟩
    · rw [if_neg hname, if_neg fun h => hname h.2]
      exact .inl ⟨rfl, hfound⟩
  · have hset : ¬ ((u.fFieldData id).fFound = false ∧ name = fieldName id) := by
      rw [hfound]
      exact fun h => absurd h.1 (by decide)
    rw [htext, Option.some_or, if_neg hset]
    exact .inr ⟨text, rfl, hne, hfound, hdenotes⟩

theorem length_cutField {name value rest' : Bytes}
    (h : cutField rest = (some (name, value), rest')) : rest'.length < rest.length := by
  simp only [cutField] at h
  split_ifs at h with hname hvalue
  · cases (Prod.ext_iff.mp h).1
  · cases (Prod.ext_iff.mp h).1
  obtain ⟨-, rfl⟩ := Prod.ext_iff.mp h
  generalize hs : (rest.drop 1).dropWhile sEOLWhitespaceMask = t at hname ⊢
  have ht : t.length ≤ rest.length := by
    rw [← hs]
    exact (List.dropWhile_suffix _).length_le.trans (by simp)
  have hpos := List.length_pos_iff.mpr hname
  have hcut := congrArg List.length
    (List.takeWhile_append_dropWhile (p := (!sEOLWhitespaceEqualMask ·)) (l := t))
  have hequals := (List.dropWhile_suffix (l := t.dropWhile (!sEOLWhitespaceEqualMask ·))
    (!· == 61)).length_le
  have hdata := (List.dropWhile_suffix
    (l := ((t.dropWhile (!sEOLWhitespaceEqualMask ·)).dropWhile (!· == 61)).drop 1)
    (!sEOLSemicolonCloseParenMask ·)).length_le
  rw [List.length_append] at hcut
  rw [List.length_drop] at hdata
  exact lt_of_le_of_lt hdata (by omega)

/-- A round reads a field, or the loop ends. -/
theorem round_spec (h : Placed s u parsed rest) :
    (∃ rest' parsed', cutField rest = (none, rest') ∧ u.round.1 = false ∧
      u.round.2.fFieldData = u.fFieldData ∧ Placed s u.round.2 parsed' rest') ∨
    ∃ name value data rest' parsed', cutField rest = (some (name, value), rest') ∧
      u.round.1 = true ∧ value ≠ [] ∧ Denotes s data value ∧
      u.round.2.fFieldData = (u.setField name data).fFieldData ∧
      Placed s u.round.2 parsed' rest' := by
  obtain ⟨parsed₁, h₁⟩ := h.consumeLength
  obtain ⟨parsed₂, h₂⟩ := h₁.consumeUntil sNonWhitespaceMask
  have hwhite : (rest.drop 1).dropWhile (fun c => !sNonWhitespaceMask c) =
      (rest.drop 1).dropWhile sEOLWhitespaceMask := by
    simp only [sNonWhitespaceMask, Bool.not_not]
  rw [hwhite] at h₂
  have hname := h₂.out sEOLWhitespaceEqualMask
  obtain ⟨parsed₃, h₃⟩ := h₂.consumeUntil sEOLWhitespaceEqualMask
  obtain ⟨parsed₄, h₄⟩ := h₃.consumeUntil (· == 61)
  obtain ⟨parsed₅, h₅⟩ := h₄.consumeLength
  have hvalue := h₅.slice sEOLSemicolonCloseParenMask
  obtain ⟨parsed₆, h₆⟩ := h₅.consumeUntil sEOLSemicolonCloseParenMask
  unfold cutField Parse.round
  generalize (rest.drop 1).dropWhile sEOLWhitespaceMask = t at *
  simp only [hname, Option.getD_some]
  by_cases hnil : t.takeWhile (!sEOLWhitespaceEqualMask ·) = []
  · simp only [if_pos hnil]
    exact .inl ⟨_, parsed₃, rfl, trivial, rfl, h₃⟩
  · simp only [if_neg hnil]
    generalize hdata : ((t.dropWhile (!sEOLWhitespaceEqualMask ·)).dropWhile (!· == 61)).drop 1 =
      data at *
    have hlen : ∀ {slice : Slice} {text : Bytes}, Denotes s slice text →
        (slice.Len = 0 ↔ text = []) := by
      rintro _ text ⟨front, back, -, rfl⟩
      exact List.length_eq_zero_iff
    by_cases hempty : data.takeWhile (!sEOLSemicolonCloseParenMask ·) = []
    · simp only [if_pos hempty, if_pos ((hlen hvalue).mpr hempty)]
      exact .inl ⟨_, parsed₆, rfl, trivial, rfl, h₆⟩
    · simp only [if_neg hempty, if_neg (mt (hlen hvalue).mp hempty)]
      exact .inr ⟨_, _, _, _, parsed₆, rfl, trivial, hempty, hvalue, rfl, h₆.place, h₆.input,
        h₆.inside⟩

/-- The induction is on the number of rounds. -/
theorem loop_spec {fields : List (Bytes × Bytes)} {n : Nat} (h : Placed s u parsed rest)
    (hfields : Holds s fields u.fFieldData) (hn : rest.length < n) :
    ∃ v parsed', u.loop n = some v ∧ Placed s v parsed' (cutFields n rest).2 ∧
      Holds s (fields ++ (cutFields n rest).1) v.fFieldData := by
  induction n generalizing u parsed rest fields with
  | zero => cases hn
  | succ n ih =>
    rcases round_spec h with ⟨rest', parsed', hcut, hend, hsame, hplaced⟩ |
      ⟨name, value, data, rest', parsed', hcut, hnext, hvalue, hdata, hset, hplaced⟩
    · refine ⟨u.round.2, parsed', ?_, ?_, ?_⟩
      · simp only [Parse.loop, hend, Bool.false_eq_true, if_false]
      · simpa only [cutFields, hcut] using hplaced
      · simpa only [cutFields, hcut, List.append_nil, hsame] using hfields
    · have hlt := length_cutField hcut
      have hheld : Holds s (fields ++ [(name, value)]) u.round.2.fFieldData :=
        hset ▸ hfields.setField hvalue hdata
      obtain ⟨v, parsed'', hloop, hv, hfields'⟩ := ih hplaced hheld (by omega)
      refine ⟨v, parsed'', ?_, ?_, ?_⟩
      · simp only [Parse.loop, hnext, if_true, hloop]
      · simpa only [cutFields, hcut] using hv
      · simpa only [cutFields, hcut, List.append_assoc, List.singleton_append] using hfields'

theorem holds_nil (s : Bytes) : Holds s [] fun _ => {} := fun _ => .inl ⟨rfl, rfl⟩

theorem parseFields_spec (s beyond : Bytes) : ∃ v parsed, parseFields (some s) beyond = some v ∧
    Placed s v parsed (agentFields s).2 ∧ Holds s (agentFields s).1 v.fFieldData := by
  have hstart : Placed s { parser := .ofString (some s) beyond } [] s := by
    refine ⟨at_ofString s beyond, rfl, iff_of_true rfl ?_⟩
    rintro ⟨rfl, hlast⟩
    cases hlast
  obtain ⟨front, back, hsplit, hslice⟩ := hstart.slice (· == 40)
  obtain ⟨parsed, hplaced⟩ := hstart.consumeUntil (· == 40)
  have hlen : (s.dropWhile (!· == 40)).length < s.length + 1 :=
    Nat.lt_succ_of_le (List.dropWhile_suffix _).length_le
  unfold parseFields agentFields
  simp only [hslice, Option.getD_some]
  by_cases hnil : s.takeWhile (!· == 40) = []
  · have hall : s.dropWhile (!· == 40) = s := by
      have hcut := List.takeWhile_append_dropWhile (p := (!· == 40)) (l := s)
      rwa [hnil, List.nil_append] at hcut
    rw [hall] at hplaced
    simp only [hnil, List.length_nil, ne_eq, not_true, if_false, if_true]
    exact ⟨_, parsed, rfl, hplaced, holds_nil s⟩
  · simp only [hnil, ne_eq, List.length_eq_zero_iff, not_false_iff, if_true, if_false]
    exact loop_spec hplaced (holds_nil s) hlen

/-! ## Splitting the system -/

theorem toNat_sub_one {len : UInt16} (hlen : len - 1 ≠ 0) :
    (len - 1).toNat = (len - 1 - 1).toNat + 1 := by
  have hone : (1 : UInt16).toNat = 1 := rfl
  have hpos : (len - 1).toNat ≠ 0 := fun heq => hlen (UInt16.toNat_inj.mp heq)
  have hlt := (len - 1).toNat_lt
  rw [UInt16.toNat_sub (len - 1) 1, hone]
  omega

theorem sub_one_sub (len : UInt16) (n : Nat) : len - 1 - .ofNat n = len - .ofNat (n + 1) := by
  apply UInt16.toNat_inj.mp
  have hone : (1 : UInt16).toNat = 1 := rfl
  simp only [UInt16.toNat_sub, UInt16.toNat_ofNat', hone]
  omega

/-- The characters of the field are counted down in `len`, which starts at zero for a field of
65536 characters. -/
theorem skipToBlank_spec (os back : Bytes) (cp : Nat) (len : UInt16)
    (hlen : (len - 1).toNat < os.length) :
    skipToBlank (os ++ back) cp len =
      if (os.drop (untilBlank os).length).head? = some 37 ∧
          (untilBlank os).length ≤ (len - 1).toNat then
        .found (cp + (untilBlank os).length) (len - .ofNat (untilBlank os).length)
      else .none := by
  induction os generalizing cp len with
  | nil => cases hlen
  | cons c os ih =>
    rw [List.cons_append, skipToBlank]
    by_cases hpct : c = 37
    · subst hpct
      simp [untilBlank]
    · rw [if_neg hpct]
      by_cases hzero : c = 0
      · subst hzero
        simp [untilBlank]
      · have huntil : untilBlank (c :: os) = c :: untilBlank os := by
          simp [untilBlank, hpct, hzero]
        simp only [hzero, false_or, huntil, List.length_cons, List.drop_succ_cons]
        by_cases hend : len - 1 = 0
        · simp [hend]
        · have hsub := toNat_sub_one hend
          rw [List.length_cons, hsub] at hlen
          rw [if_neg hend, ih (cp + 1) (len - 1) (by omega), sub_one_sub, hsub]
          simp only [Nat.add_le_add_iff_right, Nat.add_assoc, Nat.add_comm 1]

/-- What becomes of the fields if the system, of `L` characters, has its blank at `n`. -/
def splitAt (fFieldData : FieldID → UserAgentData) (L n : Nat) : FieldID → UserAgentData
  | .eOsver =>
    { fData :=
        { Ptr := (fFieldData .eOs).fData.Ptr + n + 3
          Len := (UInt16.ofNat L - .ofNat n - 3).toNat }
      fFound := true }
  | .eOs =>
    { fFieldData .eOs with
      fData.Len := (L + 2 ^ 32 - ((UInt16.ofNat L - .ofNat n - 3).toNat + 3)) % 2 ^ 32 }
  | id => fFieldData id

/-- The system is split at the first `%` that the counter reaches. -/
theorem splitVersion_eq {os : Bytes} {v : Parse} (hos : os ≠ [])
    (hfound : (v.fFieldData .eOs).fFound = true) (hnot : (v.fFieldData .eOsver).fFound = false)
    (hdata : Denotes s (v.fFieldData .eOs).fData os) :
    splitVersion s v =
      if (os.drop (untilBlank os).length).head? = some 37 ∧
          (untilBlank os).length ≤ (os.length - 1) % 65536 then
        { v with fFieldData := splitAt v.fFieldData os.length (untilBlank os).length }
      else v := by
  obtain ⟨front, back, hs, hslice⟩ := hdata
  have hpos := List.length_pos_iff.mpr hos
  have hdrop : s.drop (v.fFieldData .eOs).fData.Ptr = os ++ back := by
    rw [hs, hslice, List.drop_left]
  have hone : (1 : UInt16).toNat = 1 := rfl
  have hcount : (UInt16.ofNat os.length - 1).toNat = (os.length - 1) % 65536 := by
    rw [UInt16.toNat_sub, UInt16.toNat_ofNat', hone]
    omega
  have hlen : (v.fFieldData .eOs).fData.Len = os.length := by rw [hslice]
  unfold splitVersion
  simp only [hfound, hnot, Bool.not_false, Bool.and_self, if_true, hdrop, hlen]
  rw [skipToBlank_spec os back _ _ (by rw [hcount]; omega), hcount]
  split_ifs
  · refine congrArg (fun fFieldData => { v with fFieldData }) (funext fun id => ?_)
    cases id <;> simp [splitAt, hfound]
  · rfl

/-! ## When user agents are read safely -/

theorem Denotes.inside {data : Slice} (h : Denotes s data text) :
    data.Ptr + data.Len ≤ s.length := by
  obtain ⟨front, back, hs, rfl⟩ := h
  rw [hs]
  simp only [List.length_append]
  omega

theorem toNat_rest {L n : Nat} (hn : n + 3 ≤ L) (hrest : L - (n + 3) < 65536) :
    (UInt16.ofNat L - .ofNat n - 3).toNat = L - (n + 3) := by
  have hthree : (3 : UInt16).toNat = 3 := rfl
  simp only [UInt16.toNat_sub, UInt16.toNat_ofNat', hthree]
  omega

/-- The system is split in two just if there is an escaped blank and the counter holds what stands
behind it. -/
theorem splits_iff {os : Bytes} {fFieldData : FieldID → UserAgentData} {n : Nat}
    (hs : s.length < 2 ^ 32) (hdata : Denotes s (fFieldData .eOs).fData os) :
    Splits s (fFieldData .eOs).fData (splitAt fFieldData os.length n .eOs).fData
        (splitAt fFieldData os.length n .eOsver).fData ↔
      (os.drop n).take 3 = ascii "%20" ∧ os.length - (n + 3) < 65536 := by
  have hsize := hdata.inside
  obtain ⟨front, back, hinput, hslice⟩ := hdata
  have hread : n + 3 ≤ os.length →
      (s.drop ((fFieldData .eOs).fData.Ptr + n)).take 3 = (os.drop n).take 3 := by
    intro hn
    rw [hslice, hinput, List.drop_append, List.drop_of_length_le (by simp), List.nil_append,
      Nat.add_sub_cancel_left, List.drop_append_of_le_length (by omega),
      List.take_append_of_le_length (by simp; omega)]
  rw [hslice] at hsize
  constructor
  · rintro ⟨k, hk, -, hversion, hblank⟩
    simp only [splitAt, hslice, Slice.mk.injEq] at hk hversion
    obtain rfl : k = n := by omega
    refine ⟨(hread hk).symm.trans hblank, ?_⟩
    rw [← hversion.2]
    exact UInt16.toNat_lt _
  · rintro ⟨hblank, hrest⟩
    have hn : n + 3 ≤ os.length := by
      have hlen := congrArg List.length hblank
      simp only [List.length_take, List.length_drop] at hlen
      have hthree : (ascii "%20").length = 3 := rfl
      omega
    refine ⟨n, ?_, ?_, ?_, (hread hn).trans hblank⟩
    · rw [hslice]
      exact hn
    · simp only [splitAt, toNat_rest hn hrest, hslice, Slice.mk.injEq, true_and]
      simp only at hsize
      omega
    · simp only [splitAt, toNat_rest hn hrest, hslice, Nat.add_assoc]

theorem Holds.inside {fields : List (Bytes × Bytes)} {fFieldData : FieldID → UserAgentData}
    (h : Holds s fields fFieldData) (id : FieldID) (hid : (fFieldData id).fFound = true) :
    (fFieldData id).fData.Ptr + (fFieldData id).fData.Len ≤ s.length := by
  rcases h id with ⟨-, hnot⟩ | ⟨text, -, -, -, hdenotes⟩
  · rw [hnot] at hid
    cases hid
  · exact hdenotes.inside

/-- What is found is in the input, if the system has been split in two. -/
theorem Splits.inside {fields : List (Bytes × Bytes)} {fFieldData : FieldID → UserAgentData}
    {L n : Nat} (hholds : Holds s fields fFieldData) (hfound : (fFieldData .eOs).fFound = true)
    (h : Splits s (fFieldData .eOs).fData (splitAt fFieldData L n .eOs).fData
      (splitAt fFieldData L n .eOsver).fData) (id : FieldID)
    (hid : (splitAt fFieldData L n id).fFound = true) :
    (splitAt fFieldData L n id).fData.Ptr + (splitAt fFieldData L n id).fData.Len ≤
      s.length := by
  obtain ⟨k, hk, hos, hversion, -⟩ := h
  have hsystem := hholds.inside .eOs hfound
  cases id with
  | eOs =>
    rw [hos]
    simp only
    omega
  | eOsver =>
    rw [hversion]
    simp only
    omega
  | _ => exact hholds.inside _ hid

/-- `Parse` always ends. What it reads and finds is in the user agent just if the user agent is
well formed. -/
theorem safe_iff (s beyond : Bytes) (hs : s.length < 2 ^ 32) :
    ∃ v, parseFields (some s) beyond = some v ∧ (Safe s v (splitVersion s v) ↔ WellFormed s) := by
  obtain ⟨v, parsed, hv, hplaced, hholds⟩ := parseFields_spec s beyond
  refine ⟨v, hv, ?_⟩
  have hself : Safe s v v ↔ ¬ ((agentFields s).2 = [] ∧ s.getLast? = some 13) := by
    rw [← hplaced.inside]
    refine ⟨(·.inside), fun h => ⟨h, hholds.inside, fun hfound hnot => ?_⟩⟩
    rw [hfound] at hnot
    cases hnot
  rcases hholds .eOs with ⟨hnone, hnot⟩ | ⟨os, hos, hne, hfound, hdenotes⟩
  · have hsame : splitVersion s v = v := by simp [splitVersion, hnot]
    rw [hsame, hself]
    exact ⟨fun h => ⟨h, by simp [hnone]⟩, (·.lastLine)⟩
  rcases hholds .eOsver with ⟨hnoneVersion, hnot⟩ | ⟨version, hversion, -, hfoundVersion, -⟩
  · have hsystem : WellFormed s ↔
        ¬ ((agentFields s).2 = [] ∧ s.getLast? = some 13) ∧ SplitsWell os := by
      refine ⟨fun h => ⟨h.lastLine, h.system os hos hnoneVersion⟩, fun h => ⟨h.1, ?_⟩⟩
      rintro text htext -
      obtain rfl : os = text := Option.some.inj (hos.symm.trans htext)
      exact h.2
    rw [hsystem, splitVersion_eq hne hfound hnot hdenotes]
    split_ifs with hblank
    · have hsplits := splits_iff (n := (untilBlank os).length) hs hdenotes
      have hwell : SplitsWell os ↔ _ := forall_prop_of_true hblank.1 |>.trans
        (forall_prop_of_true hblank.2)
      rw [hwell, ← hsplits, ← hplaced.inside]
      exact ⟨fun h => ⟨h.inside, h.split rfl hnot⟩,
        fun h => ⟨h.1, h.2.inside hholds hfound, fun _ _ => h.2⟩⟩
    · rw [hself]
      exact (and_iff_left fun hpct hreached => absurd ⟨hpct, hreached⟩ hblank).symm
  · have hsame : splitVersion s v = v := by simp [splitVersion, hfoundVersion]
    rw [hsame, hself]
    exact ⟨fun h => ⟨h, by simp [hversion]⟩, (·.lastLine)⟩

theorem safe_iff_macintosh : (ascii "QTS (Core=Mac%209.2)").length < 2 ^ 32 ∧
    ∃ v, parseFields (some (ascii "QTS (Core=Mac%209.2)")) [] = some v ∧
      Safe (ascii "QTS (Core=Mac%209.2)") v (splitVersion (ascii "QTS (Core=Mac%209.2)") v) := by
  obtain ⟨v, hv, hiff⟩ := safe_iff (ascii "QTS (Core=Mac%209.2)") [] (by decide)
  refine ⟨by decide, v, hv, hiff.mpr ⟨by decide, ?_⟩⟩
  have hos : valueOf (agentFields (ascii "QTS (Core=Mac%209.2)")).1 .eOs =
      some (ascii "Mac%209.2") := by decide
  rintro os hmem -
  obtain rfl := Option.some.inj (hos.symm.trans hmem)
  decide

/-- A `%` ends the field, and the version is given 65534 characters. -/
theorem percentAtEnd_not_safe : (ascii "QTS (Core=Mac%)").length < 2 ^ 32 ∧
    ∃ v, parseFields (some (ascii "QTS (Core=Mac%)")) [] = some v ∧
      ¬ Safe (ascii "QTS (Core=Mac%)") v (splitVersion (ascii "QTS (Core=Mac%)") v) := by
  refine ⟨by decide, ?_⟩
  have hversion : (parseFields (some (ascii "QTS (Core=Mac%)")) []).map
      (fun v => (splitVersion (ascii "QTS (Core=Mac%)") v).fFieldData .eOsver) =
        some { fData := { Ptr := 16, Len := 65534 }, fFound := true } := by decide
  obtain ⟨v, hv, hsplit⟩ := Option.map_eq_some_iff.mp hversion
  refine ⟨v, hv, fun h => ?_⟩
  have hin := h.fields .eOsver (by rw [hsplit])
  rw [hsplit] at hin
  exact absurd hin (by decide)

end CxxFramework.Net.UserAgentParser
