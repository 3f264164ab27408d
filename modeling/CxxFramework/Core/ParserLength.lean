import CxxFramework.Core.StringParser

/-!
# Consuming a number of bytes

`ConsumeLength` takes a signed number of bytes. Its loop counts in a `short`: a number that
does not fit one is never reached. A negative number moves the parser back.

## Main definitions

* `StringParser.consumeSInt32` — `ConsumeLength` with its counter, forwards and backwards.
* `StringParser.ConsumesLength` — what its callers rely on.
-/

namespace CxxFramework.Core

/-- A pointer into a stream, and the length that is stored with it. -/
structure Slice where
  /-- The distance of the pointer from the start of the stream. -/
  start : Nat
  len : Nat
deriving DecidableEq, Repr

/-- The bytes of a stream that a slice denotes. -/
def Slice.bytes (s : Slice) (stream : Bytes) : Bytes := (stream.drop s.start).take s.len

namespace StringParser

/-- The stream, from its first byte to its last one. -/
def stream (p : StringParser) : Bytes := p.parsed.reverse ++ p.rest

/-- Where a parser stands afterwards: on its stream, or in front of the first byte. -/
inductive Position
  | inside (p : StringParser)
  | before (distance : Nat)
deriving DecidableEq, Repr

/-- The loop of `ConsumeLength`, whose counter wraps around. `none` stands for a loop that has
not ended after a number of rounds. -/
def lengthLoop : Nat → Int → Int → StringParser → Option StringParser
  | 0, _, _, _ => none
  | fuel + 1, i, inLength, p =>
    if i < inLength then lengthLoop fuel (Int.bmod (i + 1) (2 ^ 16)) inLength p.advanceMark
    else some p

/-- `fStartGet` is moved back; the line number stays. -/
def moveBack (p : StringParser) (n : Nat) : Position :=
  if n ≤ p.parsed.length then
    .inside { p with parsed := p.parsed.drop n, rest := (p.parsed.take n).reverse ++ p.rest }
  else .before (n - p.parsed.length)

/-- `ConsumeLength`: what is stored in `spl`, and where the parser stands. -/
def consumeSInt32 (fuel : Nat) (p : StringParser) (inLength : Int) :
    Option (Option Slice × Position) :=
  if p.isNull then some (none, .inside p)
  else
    let inLength := if (p.rest.length : Int) < inLength then (p.rest.length : Int) else inLength
    let spl : Slice := { start := p.parsed.length, len := (inLength % uint32Size).toNat }
    if 0 < inLength then
      (lengthLoop fuel 0 inLength p).map fun q => (some spl, .inside q)
    else some (some spl, p.moveBack (-inLength).toNat)

/-! ## The loop -/

variable {p q : StringParser} {i inLength : Int}

/-- A number that fits the counter is counted to. -/
theorem lengthLoop_of_fits {n fuel : Nat} (hi : 0 ≤ i) (hn : i + n = inLength)
    (hfits : inLength ≤ 32767) (hfuel : n < fuel) (p : StringParser) :
    lengthLoop fuel i inLength p = some (advance n p) := by
  induction n generalizing i fuel p with
  | zero =>
    obtain ⟨fuel, rfl⟩ := Nat.exists_eq_add_one.mpr hfuel
    simp [lengthLoop, advance, show ¬ i < inLength by omega]
  | succ n ih =>
    obtain ⟨fuel, rfl⟩ := Nat.exists_eq_add_one.mpr (Nat.zero_lt_of_lt hfuel)
    have hnext : Int.bmod (i + 1) (2 ^ 16) = i + 1 := by
      rw [Int.bmod_eq_of_le] <;> omega
    rw [lengthLoop, if_pos (by omega), hnext, ih (by omega) (by omega) (by omega), advance]

/-- A counter never reaches a number that does not fit it. -/
theorem lengthLoop_of_not_fits (hi : i ≤ 32767) (hnot : 32767 < inLength) (fuel : Nat)
    (p : StringParser) : lengthLoop fuel i inLength p = none := by
  induction fuel generalizing i p with
  | zero => rfl
  | succ fuel ih =>
    have hnext : Int.bmod (i + 1) (2 ^ 16) ≤ 32767 := by
      have hlt := Int.bmod_lt (x := i + 1) (m := 2 ^ 16) (by decide)
      omega
    rw [lengthLoop, if_pos (by omega)]
    exact ih hnext p.advanceMark

/-! ## What is consumed -/

/-- A number of bytes that fits the counter is consumed, or all bytes that remain. -/
theorem consumeSInt32_of_fits (hnull : p.isNull = false) (hpos : 0 ≤ inLength)
    (hfits : min inLength p.rest.length ≤ 32767) :
    p.consumeSInt32 (p.rest.length + 1) inLength =
      some (some ⟨p.parsed.length, (p.rest.take inLength.toNat).length⟩,
        .inside (advance (p.rest.take inLength.toNat).length p)) := by
  have hclamp : (if (p.rest.length : Int) < inLength then (p.rest.length : Int) else inLength) =
      ((p.rest.take inLength.toNat).length : Int) := by
    rw [List.length_take]
    split <;> omega
  have hlen : (p.rest.take inLength.toNat).length ≤ 32767 := by
    rw [List.length_take]
    omega
  have hword : (((p.rest.take inLength.toNat).length : Int) % uint32Size).toNat =
      (p.rest.take inLength.toNat).length := by
    unfold uint32Size
    omega
  simp only [consumeSInt32, hnull, Bool.false_eq_true, if_false, hclamp, hword]
  split_ifs with hzero
  · have hloop := lengthLoop_of_fits (p := p) le_rfl (Int.zero_add _) (by omega)
      (Nat.lt_succ_of_le (List.length_take_le' inLength.toNat p.rest))
    rw [hloop]
    rfl
  · have hnone : (p.rest.take inLength.toNat).length = 0 := by omega
    simp [hnone, moveBack, advance]

/-- A larger number is never reached. -/
theorem consumeSInt32_of_not_fits (hnull : p.isNull = false)
    (hnot : 32767 < min inLength p.rest.length) (fuel : Nat) :
    p.consumeSInt32 fuel inLength = none := by
  have hclamp : (if (p.rest.length : Int) < inLength then (p.rest.length : Int) else inLength) =
      min inLength p.rest.length := by
    split <;> omega
  simp only [consumeSInt32, hnull, Bool.false_eq_true, if_false, hclamp]
  rw [if_pos (by omega), lengthLoop_of_not_fits (by omega) hnot]
  rfl

theorem consumeSInt32_of_neg (hnull : p.isNull = false) (hneg : inLength < 0) (fuel : Nat) :
    ∃ spl, p.consumeSInt32 fuel inLength = some (some spl, p.moveBack (-inLength).toNat) := by
  have hclamp : ¬ (p.rest.length : Int) < inLength := by omega
  simp only [consumeSInt32, hnull, Bool.false_eq_true, if_false, hclamp]
  exact ⟨_, if_neg (by omega)⟩

/-- The call ends on the stream. Forwards it consumes the bytes asked for, as far as they
remain, and the slice denotes them. -/
def ConsumesLength (p : StringParser) (inLength : Int) : Prop :=
  ∃ fuel spl q, p.consumeSInt32 fuel inLength = some (some spl, .inside q) ∧
    (0 ≤ inLength →
      q.parsed = (p.rest.take inLength.toNat).reverse ++ p.parsed ∧
      q.rest = p.rest.drop inLength.toNat ∧
      spl.bytes p.stream = p.rest.take inLength.toNat ∧
      spl.len = (p.rest.take inLength.toNat).length)

/-- What is consumed fits a `short`, and no more bytes are given back than were parsed. -/
def LengthFits (p : StringParser) (inLength : Int) : Prop :=
  if 0 ≤ inLength then min inLength p.rest.length ≤ 32767 else -inLength ≤ p.parsed.length

instance (p : StringParser) (inLength : Int) : Decidable (LengthFits p inLength) :=
  inferInstanceAs (Decidable (ite ..))

/-- On a stream, `ConsumeLength` does its work exactly if the number fits. -/
theorem consumesLength_iff (parsed rest beyond : Bytes) (fCurLineNumber : Int32) (inLength : Int) :
    ConsumesLength { parsed, rest, beyond, fCurLineNumber } inLength ↔
      LengthFits { parsed, rest, beyond, fCurLineNumber } inLength := by
  generalize hp : ({ parsed, rest, beyond, fCurLineNumber } : StringParser) = p
  have hnull : p.isNull = false := hp ▸ rfl
  unfold ConsumesLength LengthFits
  by_cases hpos : 0 ≤ inLength
  · rw [if_pos hpos]
    constructor
    · rintro ⟨fuel, spl, q, hconsume, -⟩
      by_contra hnot
      rw [consumeSInt32_of_not_fits hnull (not_le.mp hnot)] at hconsume
      cases hconsume
    · intro hfits
      refine ⟨_, _, _, consumeSInt32_of_fits hnull hpos hfits, fun _ => ?_⟩
      have hat : At p p.parsed (p.rest.take inLength.toNat ++ p.rest.drop inLength.toNat) :=
        ⟨hnull, rfl, (List.take_append_drop ..).symm⟩
      have hmoved := hat.advance
      refine ⟨hmoved.parsed_eq, hmoved.rest_eq, ?_, rfl⟩
      simp [Slice.bytes, stream]
  · rw [if_neg hpos]
    have hneg : inLength < 0 := not_le.mp hpos
    constructor
    · rintro ⟨fuel, spl, q, hconsume, -⟩
      obtain ⟨spl', hback⟩ := consumeSInt32_of_neg hnull hneg fuel
      rw [hback, Option.some.injEq, Prod.mk.injEq] at hconsume
      have hmoved := hconsume.2
      unfold moveBack at hmoved
      split_ifs at hmoved
      omega
    · intro hback
      obtain ⟨spl, hconsume⟩ := consumeSInt32_of_neg hnull hneg 0
      rw [moveBack, if_pos (by omega)] at hconsume
      exact ⟨0, spl, _, hconsume, fun hle => absurd hle hpos⟩

theorem not_consumesLength_of_long {rest : Bytes} (h : rest.length = 32768) :
    ¬ ConsumesLength { rest } 32768 := by
  rintro ⟨fuel, spl, q, hconsume, -⟩
  have hlarge : (32767 : Int) < min (32768 : Int) (rest.length : Int) := by omega
  rw [consumeSInt32_of_not_fits rfl hlarge] at hconsume
  cases hconsume

/-- 32768 bytes are not consumed from a stream that has them. -/
theorem largeLength_not_consumesLength :
    ¬ ConsumesLength { rest := List.replicate 32768 120 } 32768 :=
  not_consumesLength_of_long List.length_replicate

end StringParser

end CxxFramework.Core
