import CxxFramework.Core.EncodeURL
import CxxFramework.Core.CString
import Mathlib.Data.List.Flatten

/-!
# Decoding an argument

`QueryParamList::DecodeArg` decodes a form-encoded string in its own memory. It reads a character
at a time, and keeps the start of an escape back until it knows what becomes of it: a `%`, and
the first digit in `hexBuff`. If the string ends there, what is kept back is lost.

The escape is malformed as soon as a character comes that is no digit. That character is put back
with the others, so it does not start an escape of its own.

## Main definitions

* `QueryParamList.decodeArg` — the loop of `DecodeArg` on the memory.
* `QueryParamList.decoded` — what is to become of a string, piece by piece.
* `QueryParamList.EndsInEscape` — the string ends before its last escape does.
-/

namespace CxxFramework.Net.QueryParamList

open CxxFramework.Core CxxFramework.Core.StringTranslator Buffer

inductive LineState where
  | kLastWasText
  | kPctEscape
  | kRcvHexDigitOne
deriving DecidableEq, Repr

/-- `QueryParamList::IsHex` -/
def isHex (c : UInt8) : Bool :=
  (48 ≤ c && c ≤ 57) || (65 ≤ c && c ≤ 70) || (97 ≤ c && c ≤ 102)

/-- `strtoul` of the two digits behind `0x`, as a character -/
def strtoul (one two : UInt8) : UInt8 := (hexDigit one).getD 0 * 16 + (hexDigit two).getD 0

/-- The memory of the argument, and the local variables of `DecodeArg`. -/
structure ArgDecoder where
  arg : Bytes
  destPtr : Nat := 0
  curChar : Nat := 0
  lineState : LineState := .kLastWasText
  /-- `hexBuff[2]` -/
  digitOne : UInt8 := 0
deriving DecidableEq, Repr

namespace ArgDecoder

/-- `*curChar` -/
def current (d : ArgDecoder) : Option UInt8 := d.arg[d.curChar]?

/-- `*destPtr++ = c` -/
def put (d : ArgDecoder) (c : UInt8) : Option ArgDecoder :=
  (write d.arg d.destPtr [c]).map fun arg => { d with arg, destPtr := d.destPtr + 1 }

/-- `*destPtr++ = *curChar` -/
def putCurrent (d : ArgDecoder) : Option ArgDecoder := d.current.bind d.put

/-- `curChar++` -/
def advance (d : ArgDecoder) : ArgDecoder := { d with curChar := d.curChar + 1 }

/-- The `switch` of the loop. -/
def take (d : ArgDecoder) (c : UInt8) : Option ArgDecoder :=
  match d.lineState with
  | .kRcvHexDigitOne =>
    let written :=
      if isHex c then d.put (strtoul d.digitOne c)
      else (d.put 37).bind fun d => (d.put d.digitOne).bind putCurrent
    written.map fun d => { d with lineState := .kLastWasText }
  | .kLastWasText =>
    if c = 37 then some { d with lineState := .kPctEscape }
    else if c = 43 then d.put 32
    else d.putCurrent
  | .kPctEscape =>
    if c = 37 then (d.put 37).map fun d => { d with lineState := .kLastWasText }
    else if isHex c then some { d with digitOne := c, lineState := .kRcvHexDigitOne }
    else ((d.put 37).bind putCurrent).map fun d => { d with lineState := .kLastWasText }

/-- A round of the loop. -/
def step (d : ArgDecoder) : Option ArgDecoder := (d.current.bind d.take).map advance

/-- The loop, and the zero behind the decoded string. None if it takes `n` rounds and more, or
leaves the memory. -/
def loop : Nat → ArgDecoder → Option Bytes
  | 0, _ => none
  | n + 1, d =>
    d.current.bind fun c => if c = 0 then write d.arg d.destPtr [c] else d.step.bind (loop n)

/-- A number of rounds of the loop. -/
def rounds : Nat → ArgDecoder → Option ArgDecoder
  | 0, d => some d
  | n + 1, d => d.step.bind (rounds n)

end ArgDecoder

/-- `QueryParamList::DecodeArg`, with what it leaves in the memory. -/
def decodeArg (ioCodedPtr : Bytes) : Option Bytes :=
  ArgDecoder.loop ioCodedPtr.length { arg := ioCodedPtr }

/-! ## What is to become of a string -/

/-- The string cut into its escapes, well-formed or not, and single characters. -/
def pieces : Bytes → List Bytes
  | [] => []
  | c :: s =>
    if c = 37 then
      match s with
      | [] => [[37]]
      | one :: s =>
        if isHex one then
          match s with
          | [] => [[37, one]]
          | two :: s => [37, one, two] :: pieces s
        else [37, one] :: pieces s
    else [c] :: pieces s

/-- What a piece stands for. One of more than a character starts with a `%`, and stands for itself
if it is malformed. -/
def meaning : Bytes → Bytes
  | [c] => if c = 43 then [32] else [c]
  | [pct, one] => if one = 37 then [37] else [pct, one]
  | [pct, one, two] => if isHex one ∧ isHex two then [strtoul one two] else [pct, one, two]
  | e => e

/-- The string with `+`, `%%` and the escapes replaced. -/
def decoded (s : Bytes) : Bytes := (pieces s).flatMap meaning

/-- The start of an escape that the string may end in. -/
def Truncated : Bytes → Prop
  | [c] => c = 37
  | [c, one] => c = 37 ∧ isHex one = true
  | _ => False

instance : (e : Bytes) → Decidable (Truncated e)
  | [] => isFalse nofun
  | [_] => inferInstanceAs (Decidable (_ = _))
  | [_, _] => inferInstanceAs (Decidable (_ ∧ _))
  | _ :: _ :: _ :: _ => isFalse nofun

def EndsInEscape (s : Bytes) : Prop := ∃ e ∈ pieces s, Truncated e

instance (s : Bytes) : Decidable (EndsInEscape s) :=
  inferInstanceAs (Decidable (∃ e ∈ pieces s, Truncated e))

/-- The string is decoded to `t` in its memory: `t` stands at the start of it, with a zero, and
nothing is changed behind the string. In no round is a character written that is not read yet. -/
structure DecodesTo (s t : Bytes) : Prop where
  result : ∀ rest, ∃ arg, decodeArg (s ++ 0 :: rest) = some arg ∧
    arg.length = (s ++ 0 :: rest).length ∧ arg.take (t.length + 1) = t ++ [0] ∧
    arg.drop (s.length + 1) = rest
  trails : ∀ rest, ∀ k ≤ s.length, ∃ d, ArgDecoder.rounds k { arg := s ++ 0 :: rest } = some d ∧
    d.curChar = k ∧ d.destPtr ≤ k ∧ d.arg.drop k = (s ++ 0 :: rest).drop k

/-! ## The rounds of the loop -/

/-- What a round writes for a character, and the state it leaves. -/
def feed (lineState : LineState) (digitOne c : UInt8) : Bytes × LineState × UInt8 :=
  match lineState with
  | .kRcvHexDigitOne =>
    (if isHex c then [strtoul digitOne c] else [37, digitOne, c], .kLastWasText, digitOne)
  | .kLastWasText =>
    if c = 37 then ([], .kPctEscape, digitOne)
    else (if c = 43 then [32] else [c], .kLastWasText, digitOne)
  | .kPctEscape =>
    if c = 37 then ([37], .kLastWasText, digitOne)
    else if isHex c then ([], .kRcvHexDigitOne, c)
    else ([37, c], .kLastWasText, digitOne)

/-- What the rounds write for a string. -/
def feedAll : LineState → UInt8 → Bytes → Bytes
  | _, _, [] => []
  | lineState, digitOne, c :: s =>
    let r := feed lineState digitOne c
    r.1 ++ feedAll r.2.1 r.2.2 s

/-- The number of characters kept back. -/
def LineState.kept : LineState → Nat
  | .kLastWasText => 0
  | .kPctEscape => 1
  | .kRcvHexDigitOne => 2

namespace ArgDecoder

/-- The memory holds what is written, what was there and is read, and what is not read yet. -/
def holding (out stale unread : Bytes) (lineState : LineState) (digitOne : UInt8) : ArgDecoder :=
  ⟨out ++ (stale ++ unread), out.length, out.length + stale.length, lineState, digitOne⟩

variable {out stale unread rest : Bytes} {lineState : LineState} {digitOne b c x : UInt8}

theorem current_holding :
    (holding out stale (c :: unread) lineState digitOne).current = some c := by
  simp [current, holding]

/-- A character is written where one stands that is read. -/
theorem put_holding : (holding out (x :: stale) unread lineState digitOne).put b =
    some (holding (out ++ [b]) stale unread lineState digitOne) := by
  simp [put, holding, write_append_cons, Nat.add_assoc, Nat.add_comm 1]

theorem advance_holding : (holding out stale (c :: unread) lineState digitOne).advance =
    holding out (stale ++ [c]) unread lineState digitOne := by
  simp [advance, holding, Nat.add_assoc]

/-- The last character of a round may be written in the place of the one that is read in it. -/
theorem put_advance : ((holding out stale (c :: unread) lineState digitOne).put b).map advance =
    some (holding (out ++ [b]) ((stale ++ [c]).drop 1) unread lineState digitOne) := by
  cases stale with
  | nil => simp [put, holding, write_append_cons, advance]
  | cons x stale =>
    rw [put_holding, Option.map_some, advance_holding]
    rfl

/-- It does not matter in which state a character is written. -/
theorem put_state (lineState' : LineState) :
    ((holding out stale unread lineState digitOne).put b).map
        (fun d => { d with lineState := lineState' }) =
      (holding out stale unread lineState' digitOne).put b := by
  simp [put, holding, Function.comp_def]

theorem putCurrent_state (lineState' : LineState) :
    ((holding out stale (c :: unread) lineState digitOne).putCurrent).map
        (fun d => { d with lineState := lineState' }) =
      (holding out stale (c :: unread) lineState' digitOne).putCurrent := by
  simp only [putCurrent, current_holding, Option.bind_some, put_state]

theorem putCurrent_advance :
    ((holding out stale (c :: unread) lineState digitOne).putCurrent).map advance =
      some (holding (out ++ [c]) ((stale ++ [c]).drop 1) unread lineState digitOne) := by
  rw [putCurrent, current_holding, Option.bind_some, put_advance]

/-- A round writes for its character only in places that are read. -/
theorem step_holding (out stale unread : Bytes) (lineState : LineState) (digitOne c : UInt8)
    (hkept : lineState.kept ≤ stale.length) :
    (holding out stale (c :: unread) lineState digitOne).step =
      let r := feed lineState digitOne c
      some (holding (out ++ r.1) ((stale ++ [c]).drop r.1.length) unread r.2.1 r.2.2) := by
  rw [step, current_holding, Option.bind_some]
  cases lineState with
  | kLastWasText =>
    have htake : (holding out stale (c :: unread) .kLastWasText digitOne).take c =
        if c = 37 then some (holding out stale (c :: unread) .kPctEscape digitOne)
        else if c = 43 then (holding out stale (c :: unread) .kLastWasText digitOne).put 32
        else (holding out stale (c :: unread) .kLastWasText digitOne).putCurrent := rfl
    rw [htake, feed]
    split_ifs
    · simp [advance_holding]
    · exact put_advance
    · exact putCurrent_advance
  | kPctEscape =>
    obtain ⟨x, stale, rfl⟩ : ∃ x stale', stale = x :: stale' :=
      List.exists_cons_of_length_pos hkept
    have htake : (holding out (x :: stale) (c :: unread) .kPctEscape digitOne).take c =
        if c = 37 then
          ((holding out (x :: stale) (c :: unread) .kPctEscape digitOne).put 37).map
            fun d => { d with lineState := .kLastWasText }
        else if isHex c then
          some (holding out (x :: stale) (c :: unread) .kRcvHexDigitOne c)
        else
          (((holding out (x :: stale) (c :: unread) .kPctEscape digitOne).put 37).bind
            putCurrent).map fun d => { d with lineState := .kLastWasText } := rfl
    rw [htake, feed]
    split_ifs
    · rw [put_state, put_advance]
      rfl
    · simp [advance_holding]
    · rw [put_holding, Option.bind_some, putCurrent_state, putCurrent_advance]
      simp
  | kRcvHexDigitOne =>
    obtain ⟨x, stale, rfl⟩ : ∃ x stale', stale = x :: stale' :=
      List.exists_cons_of_length_pos (Nat.lt_of_lt_of_le Nat.zero_lt_two hkept)
    obtain ⟨y, stale, rfl⟩ : ∃ y stale', stale = y :: stale' :=
      List.exists_cons_of_length_pos (Nat.le_of_succ_le_succ hkept)
    have htake : (holding out (x :: y :: stale) (c :: unread) .kRcvHexDigitOne digitOne).take c =
        (if isHex c then
          (holding out (x :: y :: stale) (c :: unread) .kRcvHexDigitOne digitOne).put
            (strtoul digitOne c)
        else
          ((holding out (x :: y :: stale) (c :: unread) .kRcvHexDigitOne digitOne).put 37).bind
            fun d => (d.put d.digitOne).bind putCurrent).map
          fun d => { d with lineState := .kLastWasText } := rfl
    rw [htake, feed]
    split_ifs
    · rw [put_state, put_advance]
      rfl
    · have hdigit (out stale unread : Bytes) :
          (holding out stale unread .kRcvHexDigitOne digitOne).digitOne = digitOne := rfl
      rw [put_holding, Option.bind_some, hdigit, put_holding, Option.bind_some, putCurrent_state,
        putCurrent_advance]
      simp

theorem feed_kept (stale : Bytes) (lineState : LineState) (digitOne c : UInt8)
    (hkept : lineState.kept ≤ stale.length) :
    let r := feed lineState digitOne c
    r.2.1.kept ≤ ((stale ++ [c]).drop r.1.length).length ∧
      r.1.length ≤ (stale ++ [c]).length := by
  cases lineState <;> simp only [feed] <;> split_ifs <;> simp [LineState.kept] at hkept ⊢ <;> omega

/-- The rounds for a string write what they make of it, and leave what is behind it. -/
theorem rounds_holding (out stale read unread : Bytes) (lineState : LineState) (digitOne : UInt8)
    (hkept : lineState.kept ≤ stale.length) :
    ∃ stale' lineState' digitOne',
      rounds read.length (holding out stale (read ++ unread) lineState digitOne) =
        some (holding (out ++ feedAll lineState digitOne read) stale' unread lineState' digitOne') ∧
      (out ++ feedAll lineState digitOne read).length + stale'.length =
        out.length + stale.length + read.length ∧
      (0 ∉ read → ∀ n,
        loop (read.length + n) (holding out stale (read ++ unread) lineState digitOne) =
          loop n (holding (out ++ feedAll lineState digitOne read) stale' unread lineState'
            digitOne')) := by
  induction read generalizing out stale lineState digitOne with
  | nil => exact ⟨stale, lineState, digitOne, by simp [rounds, feedAll], by simp [feedAll],
      by simp [feedAll]⟩
  | cons c read ih =>
    obtain ⟨hnext, hle⟩ := feed_kept stale lineState digitOne c hkept
    obtain ⟨stale', lineState', digitOne', hrounds, hlength, hloop⟩ := ih
      (out ++ (feed lineState digitOne c).1) _ _ (feed lineState digitOne c).2.2 hnext
    have hstep := step_holding out stale (read ++ unread) lineState digitOne c hkept
    refine ⟨stale', lineState', digitOne', ?_, ?_, ?_⟩
    · rw [List.length_cons, rounds, List.cons_append, hstep, Option.bind_some, hrounds, feedAll,
        List.append_assoc]
    · simp only [feedAll, List.length_append, List.length_drop, List.length_cons] at hlength hle ⊢
      simp only [List.length_nil] at hlength hle
      omega
    · intro hzero n
      obtain ⟨hc, hread⟩ : ¬ 0 = c ∧ 0 ∉ read := by simpa using hzero
      rw [List.length_cons, Nat.add_right_comm, loop, List.cons_append, current_holding,
        Option.bind_some, if_neg (Ne.symm hc), hstep, Option.bind_some, hloop hread, feedAll,
        List.append_assoc]

/-- At the end of the string a zero is written behind what it has been decoded to. -/
theorem loop_end (out stale rest : Bytes) (lineState : LineState) (digitOne : UInt8) (n : Nat) :
    ∃ arg, loop (n + 1) (holding out stale (0 :: rest) lineState digitOne) = some arg ∧
      arg.length = out.length + stale.length + 1 + rest.length ∧
        arg.take (out.length + 1) = out ++ [0] ∧
      arg.drop (out.length + stale.length + 1) = rest := by
  obtain ⟨y, tl, htl⟩ : ∃ y tl, stale ++ [0] = y :: tl :=
    List.exists_cons_of_ne_nil (by simp)
  have hlength : stale.length = tl.length := by simpa using congrArg List.length htl
  have hsplit : stale ++ 0 :: rest = y :: (tl ++ rest) := by
    rw [← List.cons_append, ← htl, List.append_assoc, List.singleton_append]
  refine ⟨out ++ 0 :: (tl ++ rest), ?_, ?_, ?_, ?_⟩
  · rw [loop, current_holding, Option.bind_some, if_pos rfl]
    simp only [holding, hsplit, write_append_cons]
  · simp only [List.length_append, List.length_cons, hlength]
    omega
  · rw [List.take_length_add_append, List.take_succ_cons, List.take_zero]
  · rw [hlength, Nat.add_assoc, List.drop_append, List.drop_of_length_le (by omega)]
    simp

end ArgDecoder

/-! ## The result -/

variable {s t : Bytes}

/-- `DecodeArg` leaves what its rounds write for the string. -/
theorem decodesTo_feedAll (hs : 0 ∉ s) : DecodesTo s (feedAll .kLastWasText 0 s) where
  result rest := by
    obtain ⟨stale, lineState, digitOne, -, hlength, hloop⟩ := ArgDecoder.rounds_holding
      [] [] s (0 :: rest) .kLastWasText 0 (Nat.zero_le _)
    obtain ⟨arg, harg, hsize, htake, hdrop⟩ := ArgDecoder.loop_end
      (feedAll .kLastWasText 0 s) stale rest lineState digitOne rest.length
    simp only [List.nil_append, List.length_nil, Nat.zero_add] at hlength
    rw [hlength] at hsize hdrop
    have hmem : (s ++ 0 :: rest).length = s.length + (rest.length + 1) := by simp
    refine ⟨arg, ?_, ?_, htake, hdrop⟩
    · rw [decodeArg, hmem]
      exact (hloop hs _).trans harg
    · rw [hsize, hmem]
      omega
  trails rest k hk := by
    obtain ⟨stale, lineState, digitOne, hrounds, hlength, -⟩ := ArgDecoder.rounds_holding
      [] [] (s.take k) (s.drop k ++ 0 :: rest) .kLastWasText 0 (Nat.zero_le _)
    have htake : (s.take k).length = k := List.length_take_of_le hk
    rw [htake] at hrounds hlength
    simp only [List.nil_append, List.length_nil, Nat.zero_add] at hrounds hlength
    refine ⟨ArgDecoder.holding (feedAll .kLastWasText 0 (s.take k)) stale (s.drop k ++ 0 :: rest)
      lineState digitOne, ?_, hlength, Nat.le.intro hlength, ?_⟩
    · rw [← hrounds, ← List.append_assoc, List.take_append_drop]
      rfl
    · simp only [ArgDecoder.holding]
      rw [← List.append_assoc, List.drop_append_of_le_length (by simp [hlength]),
        List.drop_append_of_le_length hk, List.drop_of_length_le (by simp [hlength])]
      rfl

/-- What the rounds write for a string, against what is to become of it. -/
structure Writes (digitOne : UInt8) (s : Bytes) : Prop where
  whole : ¬ EndsInEscape s → feedAll .kLastWasText digitOne s = decoded s
  loses : EndsInEscape s → ∃ lost, decoded s = feedAll .kLastWasText digitOne s ++ 37 :: lost

/-- A piece that is no truncated escape is written as it is to be. -/
theorem Writes.append {digitOne digitOne' : UInt8} {e : Bytes}
    (hpieces : pieces (e ++ s) = e :: pieces s)
    (hwhole : ¬ Truncated e)
    (hfeed : feedAll .kLastWasText digitOne (e ++ s) =
      meaning e ++ feedAll .kLastWasText digitOne' s)
    (hrest : Writes digitOne' s) : Writes digitOne (e ++ s) := by
  have hdecoded : decoded (e ++ s) = meaning e ++ decoded s := by
    rw [decoded, hpieces, List.flatMap_cons, decoded]
  have hends : EndsInEscape (e ++ s) ↔ EndsInEscape s := by
    simp [EndsInEscape, hpieces, hwhole]
  constructor
  · intro h
    rw [hfeed, hdecoded, hrest.whole (mt hends.mpr h)]
  · intro h
    obtain ⟨lost, hlost⟩ := hrest.loses (hends.mp h)
    exact ⟨lost, by rw [hfeed, hdecoded, hlost, List.append_assoc]⟩

theorem isHex_ne_pct {c : UInt8} (hc : isHex c) : c ≠ 37 := by
  rintro rfl
  exact absurd hc (by decide)

theorem pieces_char {c : UInt8} (hc : c ≠ 37) (s : Bytes) : pieces (c :: s) = [c] :: pieces s := by
  rw [pieces.eq_def]
  simp [hc]

theorem pieces_escape {one : UInt8} (hone : isHex one) (two : UInt8) (s : Bytes) :
    pieces (37 :: one :: two :: s) = [37, one, two] :: pieces s := by
  simp [pieces, hone]

theorem pieces_broken {one : UInt8} (hone : ¬ isHex one) (s : Bytes) :
    pieces (37 :: one :: s) = [37, one] :: pieces s := by
  rw [pieces.eq_def]
  simp [hone]

/-- The induction is on the pieces. At the start of each the loop is in its first state. -/
theorem writes (digitOne : UInt8) (s : Bytes) : Writes digitOne s := by
  fun_induction pieces s generalizing digitOne with
  | case1 => exact ⟨fun _ => rfl, by simp [EndsInEscape, pieces]⟩
  | case2 => exact ⟨fun h => (h ⟨[37], by simp [pieces], rfl⟩).elim, fun _ => ⟨[], rfl⟩⟩
  | case3 one hone =>
    refine ⟨fun h => (h ⟨[37, one], by simp [pieces, hone], rfl, hone⟩).elim, fun _ => ⟨[one], ?_⟩⟩
    simp [feedAll, feed, decoded, pieces, hone, meaning, isHex_ne_pct hone]
  | case4 one hone two s ih =>
    refine Writes.append (e := [37, one, two]) (pieces_escape hone two s) nofun ?_ (ih one)
    simp [feedAll, feed, hone, meaning, isHex_ne_pct hone]
  | case5 one s hone ih =>
    refine Writes.append (e := [37, one]) (pieces_broken hone s) (by simp [Truncated, hone]) ?_
      (ih digitOne)
    by_cases hpct : one = 37
    · simp [feedAll, feed, hpct, meaning]
    · simp [feedAll, feed, hone, meaning, hpct]
  | case6 c s hc ih =>
    refine Writes.append (e := [c]) (pieces_char hc s) hc ?_ (ih digitOne)
    simp [feedAll, feed, hc, meaning]

/-! ## Encoded strings -/

/-- `e` is a piece that stands for `c`. -/
structure Stands (e : Bytes) (c : UInt8) : Prop where
  pieces : ∀ s, pieces (e ++ s) = e :: QueryParamList.pieces s
  whole : ¬ Truncated e
  meaning : meaning e = [c]
  noZero : 0 ∉ e

theorem Stands.char {c : UInt8} (hzero : c ≠ 0) (hpct : c ≠ 37) (hplus : c ≠ 43) :
    Stands [c] c where
  pieces := pieces_char hpct
  whole := hpct
  meaning := by simp [QueryParamList.meaning, hplus]
  noZero := by simp [hzero.symm]

theorem Stands.plus : Stands [43] 32 where
  pieces := pieces_char (by decide)
  whole := by decide
  meaning := rfl
  noZero := by decide

theorem isHex_upperHexDigit {d : UInt8} (hd : d < 16) :
    isHex (upperHexDigit d) = true ∧ upperHexDigit d ≠ 0 := by
  have hall : ∀ i : Fin 16, isHex (upperHexDigit (UInt8.ofNat i)) = true ∧
      upperHexDigit (UInt8.ofNat i) ≠ 0 := by decide
  have hlt : d.toNat < 16 := UInt8.lt_iff_toNat_lt.mp hd
  simpa using hall ⟨d.toNat, hlt⟩

/-- The escape of a character. -/
def escape (c : UInt8) : Bytes := [37, upperHexDigit (c / 16), upperHexDigit (c % 16)]

theorem Stands.escape (c : UInt8) : Stands (escape c) c := by
  obtain ⟨hhigh, hlow, heq⟩ := digits_spec c
  obtain ⟨hone, honeZero⟩ := isHex_upperHexDigit hhigh
  obtain ⟨htwo, htwoZero⟩ := isHex_upperHexDigit hlow
  refine ⟨pieces_escape hone _, nofun, ?_, ?_⟩
  · simp [QueryParamList.meaning, QueryParamList.escape, hone, htwo, strtoul,
      (upperHexDigit_spec hhigh).1, (upperHexDigit_spec hlow).1, heq]
  · simp [QueryParamList.escape, honeZero.symm, htwoZero.symm]

theorem pieces_flatMap {encode : UInt8 → Bytes} (hs : ∀ c ∈ s, Stands (encode c) c) :
    pieces (s.flatMap encode) = s.map encode := by
  induction s with
  | nil => rfl
  | cons c s ih =>
    rw [List.flatMap_cons, (hs c List.mem_cons_self).pieces,
      ih fun c hc => hs c (List.mem_cons_of_mem _ hc), List.map_cons]

/-- A string is given back if each of its characters is encoded by a piece that stands for it. -/
theorem decoded_flatMap {encode : UInt8 → Bytes} (hs : ∀ c ∈ s, Stands (encode c) c) :
    decoded (s.flatMap encode) = s := by
  rw [decoded, pieces_flatMap hs, List.flatMap_map]
  induction s with
  | nil => rfl
  | cons c s ih =>
    rw [List.flatMap_cons, (hs c List.mem_cons_self).meaning,
      ih fun c hc => hs c (List.mem_cons_of_mem _ hc), List.singleton_append]

theorem not_endsInEscape_flatMap {encode : UInt8 → Bytes} (hs : ∀ c ∈ s, Stands (encode c) c) :
    ¬ EndsInEscape (s.flatMap encode) := by
  rw [EndsInEscape, pieces_flatMap hs]
  rintro ⟨e, he, htruncated⟩
  obtain ⟨c, hc, rfl⟩ := List.mem_map.mp he
  exact (hs c hc).whole htruncated

theorem noZero_flatMap {encode : UInt8 → Bytes} (hs : ∀ c ∈ s, Stands (encode c) c) :
    0 ∉ s.flatMap encode := by
  intro hmem
  obtain ⟨c, hc, hzero⟩ := List.mem_flatMap.mp hmem
  exact (hs c hc).noZero hzero

/-- The string with every character escaped that is not `plain`. -/
def percentEncode (plain : UInt8 → Bool) (s : Bytes) : Bytes :=
  s.flatMap fun c => if plain c then [c] else escape c

theorem percentEncode_stands {plain : UInt8 → Bool} (hpct : plain 37 = false)
    (hplus : plain 43 = false) (hs : 0 ∉ s) :
    ∀ c ∈ s, Stands (if plain c then [c] else escape c) c := by
  intro c hc
  split_ifs with hplain
  · refine .char ?_ ?_ ?_
    · rintro rfl
      exact hs hc
    · rintro rfl
      exact absurd hplain (by simp [hpct])
    · rintro rfl
      exact absurd hplain (by simp [hplus])
  · exact .escape c

/-! ## When a string is decoded as it is to be -/

/-- The decoded string ends at its zero. -/
theorem DecodesTo.ends {x : UInt8} {lost : Bytes} (hx : x ≠ 0) (h : DecodesTo s t) :
    ¬ DecodesTo s (t ++ x :: lost) := by
  intro h'
  obtain ⟨arg, harg, -, htake, -⟩ := h.result []
  obtain ⟨arg', harg', -, htake', -⟩ := h'.result []
  obtain rfl : arg = arg' := Option.some.inj (harg.symm.trans harg')
  have hat : arg[t.length]? = some 0 := by
    have := congrArg (·[t.length]?) htake
    simpa [List.getElem?_take] using this
  have hat' : arg[t.length]? = some x := by
    have hlt : t.length < (t ++ x :: lost).length + 1 := by
      rw [List.length_append]
      omega
    have := congrArg (·[t.length]?) htake'
    simp only [List.getElem?_take, if_pos hlt] at this
    simpa using this
  exact hx (Option.some.inj (hat'.symm.trans hat))

/-- A string that ends inside an escape loses what there is of it. Every other string is decoded
as it is to be, and so are the strings that encode another one. -/
theorem decodesTo_iff (hs : 0 ∉ s) : (DecodesTo s (decoded s) ↔ ¬ EndsInEscape s) ∧
    ∀ plain : UInt8 → Bool, plain 37 = false → plain 43 = false →
      DecodesTo (percentEncode plain s) s := by
  have hall := decodesTo_feedAll hs
  refine ⟨⟨?_, ?_⟩, ?_⟩
  · intro h hends
    obtain ⟨lost, hlost⟩ := (writes 0 s).loses hends
    rw [hlost] at h
    exact hall.ends (by decide) h
  · intro hends
    rw [← (writes 0 s).whole hends]
    exact hall
  · intro plain hpct hplus
    have hstands := percentEncode_stands hpct hplus hs
    have hencoded := decodesTo_feedAll (noZero_flatMap hstands)
    rw [(writes 0 _).whole (not_endsInEscape_flatMap hstands), decoded_flatMap hstands] at hencoded
    exact hencoded

theorem decodesTo_iff_hundredPercent :
    (0 : UInt8) ∉ [49, 48, 48, 37, 32] ∧ DecodesTo [49, 48, 48, 37, 32] [49, 48, 48, 37, 32] ∧
      DecodesTo (percentEncode (fun c => c = 48) [49, 48, 48, 37, 32]) [49, 48, 48, 37, 32] :=
  ⟨by decide, (decodesTo_iff (s := [49, 48, 48, 37, 32]) (by decide)).1.mpr (by decide),
    (decodesTo_iff (s := [49, 48, 48, 37, 32]) (by decide)).2 _ (by decide) (by decide)⟩

theorem hundredPercent_not_decodesTo :
    (0 : UInt8) ∉ [49, 48, 48, 37] ∧ ¬ DecodesTo [49, 48, 48, 37] (decoded [49, 48, 48, 37]) := by
  refine ⟨by decide, ?_⟩
  intro h
  obtain ⟨arg, harg, -, htake, -⟩ := h.result []
  have hdecode : decodeArg ([49, 48, 48, 37] ++ [0]) = some [49, 48, 48, 0, 0] := by decide
  obtain rfl := Option.some.inj (harg.symm.trans hdecode)
  exact absurd htake (by decide)

end CxxFramework.Net.QueryParamList
