import Mathlib.Data.List.Basic
import Mathlib.Algebra.Order.Group.Nat

/-!
# Absorbing a stream block by block

A function is applied to each whole block of a stream. What is left of the stream is shorter
than a block, and waits for more. How the stream is cut does not matter.

## Main definitions

* `absorb f n s xs` — the state after the whole blocks of `n` elements, and the rest.
-/

namespace CxxFramework.Absorb

variable {α σ : Type*}

/-- The state after the whole blocks, and the rest. -/
def absorb (f : σ → List α → σ) (n : Nat) (s : σ) (xs : List α) : σ × List α :=
  if 0 < n ∧ n ≤ xs.length then absorb f n (f s (xs.take n)) (xs.drop n) else (s, xs)
termination_by xs.length
decreasing_by all_goals grind [List.length_drop]

variable {f : σ → List α → σ} {n : Nat} {xs ys : List α}

/-- Less than a block waits. -/
theorem absorb_of_lt (s : σ) (h : xs.length < n) : absorb f n s xs = (s, xs) := by
  rw [absorb, if_neg (by omega)]

theorem absorb_of_le (s : σ) (hn : 0 < n) (h : n ≤ xs.length) :
    absorb f n s xs = absorb f n (f s (xs.take n)) (xs.drop n) := by
  rw [absorb, if_pos ⟨hn, h⟩]

theorem absorb_nil (s : σ) : absorb f n s [] = (s, []) := by
  rw [absorb, if_neg (by simp only [List.length_nil]; omega)]

/-- A whole block is absorbed before what follows it. -/
theorem absorb_block_append (s : σ) (hn : 0 < n) (h : xs.length = n) (ys : List α) :
    absorb f n s (xs ++ ys) = absorb f n (f s xs) ys := by
  subst h
  rw [absorb_of_le s hn (by simp), List.take_left, List.drop_left]

/-- The rest is the end of the stream. -/
theorem rest_eq_drop (s : σ) (hn : 0 < n) (xs : List α) :
    (absorb f n s xs).2 = xs.drop (xs.length - xs.length % n) := by
  fun_induction absorb f n s xs with
  | case1 s xs h ih =>
    have hmod := Nat.mod_le (xs.length - n) n
    rw [ih, List.length_drop, Nat.mod_eq_sub_mod h.2, List.drop_drop]
    congr 1
    omega
  | case2 s xs h =>
    rw [Nat.mod_eq_of_lt (show xs.length < n by omega), Nat.sub_self, List.drop_zero]

/-- The stream may be cut anywhere: the rest is put in front of what comes later. -/
theorem absorb_append (s : σ) (hn : 0 < n) (xs ys : List α) :
    absorb f n s (xs ++ ys) = absorb f n (absorb f n s xs).1 ((absorb f n s xs).2 ++ ys) := by
  fun_induction absorb f n s xs with
  | case1 s xs h ih =>
    rw [absorb_of_le s hn (by rw [List.length_append]; omega),
      List.take_append_of_le_length h.2, List.drop_append_of_le_length h.2, ih]
  | case2 s xs h => rfl

end CxxFramework.Absorb
