import Mathlib.Data.List.Induction
import Mathlib.Data.List.Nodup
import Mathlib.Logic.Function.Basic

/-!
# Linked chains

Elements are linked by a function that gives the element behind each one. A chain starts at
a pointer and ends where a link is null, so no element comes twice in it.

## Main definitions

* `Chain next head l` — from `head` on, the links run through the elements of `l`.
* `walk next stop n elem last` — at most `n` steps along the links, to the first element
  that `stop` accepts.
* `unlink` — take an element out behind its predecessor.
-/

namespace CxxFramework.LinkedChain

variable {α : Type*} {next : α → Option α} {head last : Option α} {l front back : List α}
  {a b e p : α} {n : Nat}

/-- From a pointer on, the links run through the listed elements, and end behind them. -/
def Chain (next : α → Option α) : Option α → List α → Prop
  | head, [] => head = none
  | head, a :: l => head = some a ∧ Chain next (next a) l

@[simp] theorem chain_nil : Chain next head [] ↔ head = none := Iff.rfl

@[simp] theorem chain_cons : Chain next head (a :: l) ↔ head = some a ∧ Chain next (next a) l :=
  Iff.rfl

theorem chain_none : Chain next none l ↔ l = [] := by
  cases l <;> simp

/-- The elements are determined by the links. -/
theorem Chain.unique {l' : List α} (h : Chain next head l) (h' : Chain next head l') : l = l' := by
  induction l generalizing head l' with
  | nil =>
    rw [chain_nil.mp h, chain_none] at h'
    exact h'.symm
  | cons a l ih =>
    obtain ⟨rfl, hl⟩ := h
    cases l' with
    | nil => cases h'
    | cons b l' =>
      obtain ⟨hb, hl'⟩ := h'
      cases hb
      rw [ih hl hl']

/-- Each part of a chain up to its end is a chain. -/
theorem Chain.behind (h : Chain next head (front ++ a :: l)) : Chain next (some a) (a :: l) := by
  induction front generalizing head with
  | nil => exact ⟨rfl, h.2⟩
  | cons b front ih => exact ih h.2

theorem Chain.nodup (h : Chain next head l) : l.Nodup := by
  induction l generalizing head with
  | nil => exact List.nodup_nil
  | cons a l ih =>
    refine List.nodup_cons.mpr ⟨?_, ih h.2⟩
    intro hmem
    obtain ⟨front, back, rfl⟩ := List.append_of_mem hmem
    -- the chain from `a` on would be a proper part of itself
    have hwhole : Chain next head ((a :: front) ++ a :: back) := h
    have heq := hwhole.behind.2.unique h.2
    have hlen := congrArg List.length heq
    simp only [List.length_append, List.length_cons] at hlen
    omega

/-- What stands last in `front`, or else `last`. -/
def before (front : List α) (last : Option α) : Option α := front.getLast?.or last

@[simp] theorem before_cons : before (a :: front) last = before front (some a) := by
  cases front <;> simp [before, List.getLast?_cons]

theorem mem_of_before (h : before front none = some a) : a ∈ front := by
  rw [before, Option.or_none] at h
  exact List.mem_of_getLast? h

section Update

variable [DecidableEq α]

/-- The link of an element elsewhere does not matter. -/
theorem Chain.update (h : Chain next head l) (hp : p ∉ l) (x : Option α) :
    Chain (Function.update next p x) head l := by
  induction l generalizing head with
  | nil => exact h
  | cons a l ih =>
    obtain ⟨hhead, hl⟩ := h
    obtain ⟨hne, hnot⟩ := not_or.mp (List.mem_cons.not.mp hp)
    refine ⟨hhead, ?_⟩
    rw [Function.update_of_ne (Ne.symm hne)]
    exact ih hl hnot

/-- A new element is linked in front of a chain. -/
theorem Chain.push (h : Chain next head l) (hp : p ∉ l) :
    Chain (Function.update next p head) (some p) (p :: l) := by
  refine ⟨rfl, ?_⟩
  rw [Function.update_self]
  exact h.update hp head

/-- A chain goes on behind an element as its link says. -/
theorem Chain.relink (h : Chain next head (front ++ a :: l)) (hback : Chain next last back)
    (ha : a ∉ back) : Chain (Function.update next a last) head (front ++ a :: back) := by
  induction front generalizing head with
  | nil =>
    refine ⟨h.1, ?_⟩
    rw [Function.update_self]
    exact hback.update ha last
  | cons b front ih =>
    obtain ⟨hhead, hrest⟩ := h
    have hwhole : Chain next (some b) (b :: (front ++ a :: l)) := ⟨rfl, hrest⟩
    have hne : b ≠ a := by
      rintro rfl
      exact (List.nodup_cons.mp hwhole.nodup).1 (List.mem_append_right _ List.mem_cons_self)
    refine ⟨hhead, ?_⟩
    rw [Function.update_of_ne hne]
    exact ih hrest

/-! ## Taking an element out -/

/-- The head and the links once the element `e` behind `last` is taken out. -/
def unlink (next : α → Option α) (head : Option α) (e : α) :
    (last : Option α) → Option α × (α → Option α)
  | some last =>
    let next := Function.update next last (next e)
    (head, Function.update next e none)
  | none => (next e, Function.update next e none)

@[simp] theorem unlink_self : (unlink next head e last).2 e = none := by
  cases last <;> exact Function.update_self ..

theorem unlink_of_ne (hp : p ≠ e) (hlast : last ≠ some p) :
    (unlink next head e last).2 p = next p := by
  cases last with
  | none => exact Function.update_of_ne hp ..
  | some last =>
    have hne : p ≠ last := fun heq => hlast (congrArg some heq.symm)
    exact (Function.update_of_ne hp ..).trans (Function.update_of_ne hne ..)

/-- Another chain is left alone. -/
theorem Chain.unlink_apart {head' : Option α} (h : Chain next head' l) (he : e ∉ l)
    (hlast : ∀ p, last = some p → p ∉ l) : Chain (unlink next head e last).2 head' l := by
  cases last with
  | none => exact h.update he none
  | some last => exact (h.update (hlast last rfl) _).update he none

theorem Chain.unlink (h : Chain next head (front ++ e :: back)) :
    Chain (unlink next head e (before front none)).2 (unlink next head e (before front none)).1
      (front ++ back) := by
  have hnodup := h.nodup
  have hback : Chain next (next e) back := (Chain.behind h).2
  have hnot : e ∉ front ++ back := (List.nodup_middle.mp hnodup).notMem
  cases front using List.reverseRecOn with
  | nil => exact hback.update hnot none
  | append_singleton front last =>
    have hlast : before (front ++ [last]) none = some last := by simp [before]
    rw [hlast]
    have hapart : last ∉ back := by
      intro hmem
      rw [List.append_assoc] at hnodup
      have htail := (List.nodup_append.mp hnodup).2.1
      exact (List.nodup_cons.mp htail).1 (List.mem_cons_of_mem e hmem)
    have hlinked : Chain (Function.update next last (next e)) head (front ++ last :: back) :=
      Chain.relink (by simpa using h) hback hapart
    have hsame : front ++ last :: back = front ++ [last] ++ back := by simp
    rw [hsame] at hlinked
    exact hlinked.update hnot none

end Update

/-! ## Walking along a chain -/

/-- At most `n` steps from `elem` on, to the first element that is accepted or to the end;
with the element in front of it. -/
def walk (next : α → Option α) (stop : α → Bool) :
    (n : Nat) → (elem last : Option α) → Option (Option α × Option α)
  | 0, _, _ => none
  | _ + 1, none, last => some (none, last)
  | n + 1, some e, last =>
    if stop e then some (some e, last) else walk next stop n (next e) (some e)

variable {stop : α → Bool}

/-- A walk comes to the first element that is accepted. -/
theorem Chain.walk_found (h : Chain next head (front ++ e :: back))
    (hfront : ∀ a ∈ front, stop a = false) (he : stop e = true) (last : Option α)
    (hn : front.length < n) :
    walk next stop n head last = some (some e, before front last) := by
  induction front generalizing head last n with
  | nil =>
    obtain ⟨rfl, -⟩ := h
    obtain ⟨n, rfl⟩ : ∃ k, n = k + 1 := ⟨n - 1, by simp at hn; omega⟩
    exact if_pos he
  | cons a front ih =>
    obtain ⟨rfl, hrest⟩ := h
    rw [List.length_cons] at hn
    obtain ⟨n, rfl⟩ : ∃ k, n = k + 1 := ⟨n - 1, by omega⟩
    rw [walk, hfront a List.mem_cons_self, if_neg Bool.false_ne_true,
      ih hrest (fun b hb => hfront b (List.mem_cons_of_mem a hb)) (some a) (by omega)]
    rw [before_cons]

/-- Without such an element, it comes to the end. -/
theorem Chain.walk_absent (h : Chain next head l) (hl : ∀ a ∈ l, stop a = false)
    (last : Option α) (hn : l.length < n) :
    walk next stop n head last = some (none, before l last) := by
  induction l generalizing head last n with
  | nil =>
    obtain rfl := chain_nil.mp h
    obtain ⟨n, rfl⟩ : ∃ k, n = k + 1 := ⟨n - 1, by simp at hn; omega⟩
    rfl
  | cons a l ih =>
    obtain ⟨rfl, hrest⟩ := h
    rw [List.length_cons] at hn
    obtain ⟨n, rfl⟩ : ∃ k, n = k + 1 := ⟨n - 1, by omega⟩
    rw [walk, hl a List.mem_cons_self, if_neg Bool.false_ne_true,
      ih hrest (fun b hb => hl b (List.mem_cons_of_mem a hb)) (some a) (by omega)]
    rw [before_cons]

/-- A walk along a chain is a search in the list of its elements. -/
theorem Chain.walk_eq_find (h : Chain next head l) (stop : α → Bool) (last : Option α)
    (hn : l.length < n) :
    ∃ last', walk next stop n head last = some (l.find? stop, last') := by
  cases hfind : l.find? stop with
  | none =>
    refine ⟨_, h.walk_absent (fun a ha => ?_) last hn⟩
    simpa using List.find?_eq_none.mp hfind a ha
  | some e =>
    obtain ⟨he, front, back, rfl, hfront⟩ := List.find?_eq_some_iff_append.mp hfind
    refine ⟨_, h.walk_found (fun a ha => by simpa using hfront a ha) he last ?_⟩
    simp only [List.length_append, List.length_cons] at hn
    omega

end CxxFramework.LinkedChain
