import Mathlib.Data.List.Basic

/-!
# Runs of equal elements

The lengths of the maximal runs of one element in a list, in order. Between two other
elements stands a run as well, which may be empty.

## Main definitions

* `runs a s` — the lengths of the runs of `a`.
-/

namespace CxxFramework.Runs

variable {α : Type*} [DecidableEq α]

/-- The lengths of the runs of `a`, of which the first one is `n` longer. -/
def runsFrom (a : α) : Nat → List α → List Nat
  | n, [] => [n]
  | n, c :: s => if c = a then runsFrom a (n + 1) s else n :: runsFrom a 0 s

/-- The lengths of the maximal runs of `a`. -/
def runs (a : α) (s : List α) : List Nat := runsFrom a 0 s

variable {a c : α}

theorem runsFrom_of_head {s : List α} (h : s.head? ≠ some a) (n : Nat) :
    runsFrom a n s = n :: (runs a s).tail := by
  cases s with
  | nil => rfl
  | cons c s =>
    have hc : c ≠ a := fun heq => h (congrArg some heq)
    simp only [runs, runsFrom, if_neg hc, List.tail_cons]

/-- Another element ends a run. -/
theorem runsFrom_append_cons (h : c ≠ a) (n : Nat) (s t : List α) :
    runsFrom a n (s ++ c :: t) = runsFrom a n s ++ runs a t := by
  induction s generalizing n with
  | nil => simp only [List.nil_append, runsFrom, if_neg h, runs, List.cons_append]
  | cons d s ih =>
    simp only [List.cons_append, runsFrom]
    split
    · exact ih (n + 1)
    · rw [ih 0, List.cons_append]

theorem runs_append_cons (h : c ≠ a) (s t : List α) :
    runs a (s ++ c :: t) = runs a s ++ runs a t :=
  runsFrom_append_cons h 0 s t

/-- A list without the element has only empty runs of it. -/
theorem runs_of_notMem {s : List α} (h : a ∉ s) : ∀ n ∈ runs a s, n = 0 := by
  induction s with
  | nil => simp [runs, runsFrom]
  | cons c s ih =>
    have hc : c ≠ a := fun heq => h (heq ▸ List.mem_cons_self ..)
    have hs : a ∉ s := fun hmem => h (List.mem_cons_of_mem c hmem)
    rw [← List.nil_append (c :: s), runs_append_cons hc]
    rintro n hn
    rcases List.mem_append.mp hn with hn | hn
    · simpa [runs, runsFrom] using hn
    · exact ih hs n hn

/-- The first of the elements ends a run of one element, if it ends the list. -/
theorem one_mem_runs {s : List α} (h : a ∉ s) : 1 ∈ runs a (s ++ [a]) := by
  induction s with
  | nil => simp [runs, runsFrom]
  | cons c s ih =>
    have hc : c ≠ a := fun heq => h (heq ▸ List.mem_cons_self ..)
    have hs : a ∉ s := fun hmem => h (List.mem_cons_of_mem c hmem)
    rw [← List.nil_append (c :: s), List.append_assoc, List.cons_append, runs_append_cons hc]
    exact List.mem_append_right _ (ih hs)

end CxxFramework.Runs
