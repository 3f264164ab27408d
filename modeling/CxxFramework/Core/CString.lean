import CxxFramework.Library.Search
import Mathlib.Data.List.TakeWhile

/-!
# Bytes and C strings

The bytes of a program's strings, and the functions of the C library on strings that end
at the first zero byte.
-/

namespace CxxFramework.Core

open Search

abbrev Bytes := List UInt8

/-- What holds of all bytes of a string is decided along the string, not over all bytes. -/
instance (s : Bytes) (p : UInt8 → Prop) [DecidablePred p] : Decidable (∀ c ∈ s, p c) :=
  List.decidableBAll p s

/-- The bytes of a string constant. -/
def ascii (s : String) : Bytes := s.toList.map fun c => UInt8.ofNat c.toNat

/-- `%u` -/
def decimal (n : Nat) : Bytes := (Nat.toDigits 10 n).map fun c => UInt8.ofNat c.toNat

/-- The string in a memory: what stands before the first zero byte. -/
def cString (mem : Bytes) : Bytes := mem.takeWhile (· != 0)

/-- `strstr` -/
def strstr (mem pat : Bytes) : Option Nat := find pat (cString mem)

theorem cString_start (mem : Bytes) : cString mem <+: mem := List.takeWhile_prefix _

theorem zero_notMem_cString (mem : Bytes) : 0 ∉ cString mem := fun h => by
  simpa using List.mem_takeWhile_imp h

/-- What has no zero is a string as a whole. -/
theorem cString_of_noZero {s : Bytes} (h : 0 ∉ s) : cString s = s := by
  unfold cString
  rw [List.takeWhile_eq_self_iff]
  intro c hc
  have hne : c ≠ 0 := ne_of_mem_of_not_mem hc h
  simpa using hne

theorem zero_notMem_decimal (n : Nat) : 0 ∉ decimal n := by
  intro h
  obtain ⟨c, hc, hzero⟩ := List.mem_map.mp h
  have hdigit := Nat.isDigit_of_mem_toDigits (by decide) (by decide) hc
  have hrange : 48 ≤ c.toNat ∧ c.toNat ≤ 57 := by
    simpa [Char.isDigit, UInt32.le_iff_toNat_le] using hdigit
  have hmod : (UInt8.ofNat c.toNat).toNat = 0 := congrArg UInt8.toNat hzero
  rw [UInt8.toNat_ofNat'] at hmod
  omega

/-- A string ends at the first zero, whatever follows it. -/
theorem cString_append_zero (s rest : Bytes) : cString (s ++ 0 :: rest) = cString s := by
  induction s with
  | nil => rfl
  | cons a s ih =>
    simp only [cString, List.cons_append, List.takeWhile_cons] at ih ⊢
    rw [ih]

theorem cString_of_take {mem s : Bytes} (h : mem.take (s.length + 1) = s ++ [0]) :
    cString mem = cString s := by
  have hmem : mem = s ++ 0 :: mem.drop (s.length + 1) := by
    conv => lhs; rw [← List.take_append_drop (s.length + 1) mem, h]
    simp
  rw [hmem, cString_append_zero]

end CxxFramework.Core
