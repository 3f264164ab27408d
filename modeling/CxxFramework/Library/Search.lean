import Mathlib.Data.List.Basic

/-!
# Searching a list

## Main definitions

* `find pat s` — where the first occurrence of `pat` in `s` starts.
* `after pat s` — what follows the first occurrence.
-/

namespace CxxFramework.Search

variable {α : Type*} [DecidableEq α]

/-- The position of the first occurrence of `pat`. -/
def find (pat : List α) : List α → Option Nat
  | [] => if pat = [] then some 0 else none
  | a :: s => if pat <+: a :: s then some 0 else (find pat s).map (· + 1)

/-- What follows the first occurrence of `pat`. -/
def after (pat s : List α) : Option (List α) := (find pat s).map fun k => s.drop (k + pat.length)

variable {pat s : List α} {k : Nat}

/-- An occurrence lies inside the list. -/
theorem find_le (h : find pat s = some k) : k + pat.length ≤ s.length := by
  induction s generalizing k with
  | nil =>
    simp only [find] at h
    split_ifs at h with hpat
    obtain rfl := Option.some.inj h
    simp [hpat]
  | cons a s ih =>
    simp only [find] at h
    split_ifs at h with hpat
    · obtain rfl := Option.some.inj h
      simpa using hpat.length_le
    · obtain ⟨j, hj, rfl⟩ := Option.map_eq_some_iff.mp h
      have := ih hj
      simp only [List.length_cons]
      omega

/-- At the position that is found stands an occurrence. -/
theorem find_isPrefix (h : find pat s = some k) : pat <+: s.drop k := by
  induction s generalizing k with
  | nil =>
    simp only [find] at h
    split_ifs at h with hpat
    simp [hpat]
  | cons a s ih =>
    simp only [find] at h
    split_ifs at h with hpat
    · obtain rfl := Option.some.inj h
      exact hpat
    · obtain ⟨j, hj, rfl⟩ := Option.map_eq_some_iff.mp h
      exact ih hj

/-- Before the position that is found there is no occurrence. -/
theorem find_first (h : find pat s = some k) : ∀ j < k, ¬ pat <+: s.drop j := by
  induction s generalizing k with
  | nil =>
    simp only [find] at h
    split_ifs at h
    obtain rfl := Option.some.inj h
    nofun
  | cons a s ih =>
    simp only [find] at h
    split_ifs at h with hpat
    · obtain rfl := Option.some.inj h
      nofun
    · obtain ⟨k, hk, rfl⟩ := Option.map_eq_some_iff.mp h
      intro j hj
      cases j with
      | zero => exact hpat
      | succ j => exact ih hk j (Nat.lt_of_succ_lt_succ hj)

/-- Where nothing is found, there is no occurrence. -/
theorem find_none (h : find pat s = none) (j : Nat) : ¬ pat <+: s.drop j := by
  induction s generalizing j with
  | nil =>
    have hne : pat ≠ [] := fun hpat => by simp [find, hpat] at h
    rwa [List.drop_nil, List.prefix_nil]
  | cons a s ih =>
    simp only [find] at h
    split_ifs at h with hpat
    cases j with
    | zero => exact hpat
    | succ j => exact ih (Option.map_eq_none_iff.mp h) j

theorem find_of_isPrefix (h : pat <+: s) : find pat s = some 0 := by
  cases s with
  | nil => simp [find, List.prefix_nil.mp h]
  | cons a s => exact if_pos h

/-- What is appended does not move the first occurrence. -/
theorem find_append (h : find pat s = some k) (t : List α) : find pat (s ++ t) = some k := by
  induction s generalizing k with
  | nil =>
    simp only [find] at h
    split_ifs at h with hpat
    subst hpat
    cases t with
    | nil => simpa [find] using h
    | cons a t => simpa [find] using h
  | cons a s ih =>
    simp only [find, List.cons_append] at h ⊢
    split_ifs at h with hpat
    · have hpat' : pat <+: a :: (s ++ t) := hpat.trans (List.prefix_append (a :: s) t)
      rw [if_pos hpat', h]
    · obtain ⟨j, hj, rfl⟩ := Option.map_eq_some_iff.mp h
      have hfits : pat.length ≤ (a :: s).length := by
        have := find_le hj
        simp only [List.length_cons]
        omega
      have hpat' : ¬ pat <+: a :: (s ++ t) := fun hp =>
        hpat (List.prefix_of_prefix_length_le hp (List.prefix_append (a :: s) t) hfits)
      rw [if_neg hpat', ih hj, Option.map_some]

/-- An occurrence that lies inside the front is one in the front. -/
theorem find_of_front {t : List α} (h : find pat (s ++ t) = some k)
    (hk : k + pat.length ≤ s.length) : find pat s = some k := by
  induction s generalizing k with
  | nil =>
    rw [List.length_nil] at hk
    obtain rfl : pat = [] := List.eq_nil_of_length_eq_zero (by omega)
    obtain rfl : k = 0 := by omega
    rfl
  | cons a s ih =>
    simp only [find, List.cons_append] at h ⊢
    split_ifs at h with hpat
    · obtain rfl := Option.some.inj h
      have hpat' : pat <+: a :: s :=
        List.prefix_of_prefix_length_le hpat (List.prefix_append (a :: s) t) (by omega)
      exact if_pos hpat'
    · obtain ⟨j, hj, rfl⟩ := Option.map_eq_some_iff.mp h
      have hpat' : ¬ pat <+: a :: s := fun hp => hpat (hp.trans (List.prefix_append (a :: s) t))
      rw [if_neg hpat', ih hj (by simp only [List.length_cons] at hk; omega), Option.map_some]

/-- What is appended is appended to what follows the first occurrence. -/
theorem after_append {rest : List α} (h : after pat s = some rest) (t : List α) :
    after pat (s ++ t) = some (rest ++ t) := by
  obtain ⟨k, hk, rfl⟩ := Option.map_eq_some_iff.mp h
  rw [after, find_append hk, Option.map_some, List.drop_append_of_le_length (find_le hk)]

theorem after_of_start {s' rest : List α} (hs : s' <+: s) (h : find pat s' = some k)
    (hrest : s.drop (k + pat.length) = rest) : after pat s = some rest := by
  obtain ⟨t, rfl⟩ := hs
  rw [after, find_append h, Option.map_some, hrest]

end CxxFramework.Search
