import Mathlib.Data.List.Nodup
import Mathlib.Logic.Function.Basic

/-!
# Chained elements

A finite number of chains, and what they hold together. What is done to one chain is done
to the whole, up to the order of the elements.

## Main definitions

* `all n chains` — the elements of the first `n` chains.
-/

namespace CxxFramework.Chains

variable {α : Type*} {n i : Nat} {chains : Nat → List α} {a : α}

/-- The elements of the first `n` chains. -/
def all (n : Nat) (chains : Nat → List α) : List α := (List.range n).flatMap chains

@[simp] theorem mem_all : a ∈ all n chains ↔ ∃ i < n, a ∈ chains i := by
  simp [all]

theorem all_succ (n : Nat) (chains : Nat → List α) :
    all (n + 1) chains = all n chains ++ chains n := by
  simp [all, List.range_succ]

/-- A chain that is not among the first `n` does not matter to them. -/
theorem all_update_of_le (hi : n ≤ i) (l : List α) :
    all n (Function.update chains i l) = all n chains := by
  induction n with
  | zero => rfl
  | succ n ih =>
    have hne : n ≠ i := by omega
    rw [all_succ, all_succ, ih (by omega), Function.update_of_ne hne]

/-- One chain can be told apart from the rest. -/
theorem exists_rest (hi : i < n) (chains : Nat → List α) :
    ∃ rest, ∀ l, (all n (Function.update chains i l)).Perm (l ++ rest) := by
  induction n with
  | zero => omega
  | succ n ih =>
    by_cases hlast : i = n
    · subst hlast
      refine ⟨all i chains, ?_⟩
      intro l
      rw [all_succ, all_update_of_le (Nat.le_refl i), Function.update_self]
      exact List.perm_append_comm
    · obtain ⟨rest, hrest⟩ := ih (by omega)
      refine ⟨rest ++ chains n, ?_⟩
      intro l
      rw [all_succ, Function.update_of_ne (Ne.symm hlast), ← List.append_assoc]
      exact (hrest l).append_right _

theorem all_cons (hi : i < n) (a : α) :
    (all n (Function.update chains i (a :: chains i))).Perm (a :: all n chains) := by
  obtain ⟨rest, hrest⟩ := exists_rest hi chains
  have hall := hrest (chains i)
  rw [Function.update_eq_self] at hall
  exact (hrest _).trans (hall.symm.cons a)

theorem all_erase [DecidableEq α] (hi : i < n) (ha : a ∈ chains i) :
    (all n (Function.update chains i ((chains i).erase a))).Perm ((all n chains).erase a) := by
  obtain ⟨rest, hrest⟩ := exists_rest hi chains
  have hall := hrest (chains i)
  rw [Function.update_eq_self] at hall
  refine (hrest _).trans ?_
  rw [← List.erase_append_left rest ha]
  exact (hall.erase a).symm

end CxxFramework.Chains
