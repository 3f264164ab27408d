import Mathlib.Data.List.Nodup
import Mathlib.Logic.Function.Basic

/-!
# Doubly linked rings

Nodes are linked in two directions by total functions. A ring runs from its sentinel through
its members and back to the sentinel, and the other direction mirrors the first one.

## Main definitions

* `Path next a l b` — the links run from `a` through `l` to `b`.
* `Ring next prev s l` — by `prev` the ring of `s` runs through `l`, by `next` the other way.
-/

namespace CxxFramework.LinkedRing

variable {α : Type*} {next prev : α → α} {a b c e p s x : α} {l l' front back : List α}

/-- From `a` the links run through the listed nodes to `b`. -/
def Path (next : α → α) (a : α) : List α → α → Prop
  | [], b => next a = b
  | c :: l, b => next a = c ∧ Path next c l b

@[simp] theorem path_nil : Path next a [] b ↔ next a = b := Iff.rfl

@[simp] theorem path_cons : Path next a (c :: l) b ↔ next a = c ∧ Path next c l b := Iff.rfl

theorem path_append : Path next a (l ++ c :: l') b ↔ Path next a l c ∧ Path next c l' b := by
  induction l generalizing a with
  | nil => rfl
  | cons d l ih => rw [List.cons_append, path_cons, path_cons, ih, and_assoc]

/-- The first node behind the start. -/
theorem Path.next_eq (h : Path next a l b) : next a = l.head?.getD b := by
  cases l with
  | nil => exact h
  | cons c l => exact h.1

section Update

variable [DecidableEq α]

/-- The link of a node elsewhere does not matter. -/
theorem Path.update (h : Path next a l b) (hp : p ∉ a :: l) (x : α) :
    Path (Function.update next p x) a l b := by
  induction l generalizing a with
  | nil =>
    rw [path_nil, Function.update_of_ne (by grind)]
    exact h
  | cons c l ih =>
    refine ⟨?_, ih h.2 (List.not_mem_of_not_mem_cons hp)⟩
    rw [Function.update_of_ne (by grind)]
    exact h.1

/-- A new node behind the start of a path. -/
theorem Path.push (h : Path next a l b) (he : e ∉ a :: l) (ha : a ∉ l) :
    Path (Function.update (Function.update next e (next a)) a e) a (e :: l) b := by
  have hne : e ≠ a := List.ne_of_not_mem_cons he
  refine ⟨Function.update_self .., ?_⟩
  cases l with
  | nil =>
    rw [path_nil, Function.update_of_ne hne, Function.update_self]
    exact h
  | cons c l =>
    refine ⟨?_, (h.2.update ?_ _).update ha e⟩
    · rw [Function.update_of_ne hne, Function.update_self]
      exact h.1
    · exact List.not_mem_of_not_mem_cons he

/-- A new node in front of the end of a path. -/
theorem Path.extend (h : Path next a l b) (he : e ∉ a :: l) (hnodup : (a :: l).Nodup) :
    Path (Function.update (Function.update next e b) (l.getLast?.getD a) e) a (l ++ [e]) b := by
  induction l generalizing a with
  | nil =>
    have hne : e ≠ a := List.ne_of_not_mem_cons he
    refine ⟨Function.update_self .., ?_⟩
    rw [path_nil, List.getLast?_nil, Option.getD_none, Function.update_of_ne hne,
      Function.update_self]
  | cons c l ih =>
    obtain ⟨ha, hnodup⟩ := List.nodup_cons.mp hnodup
    have hlast : (c :: l).getLast?.getD a = l.getLast?.getD c := by simp [List.getLast?_cons]
    have hmem : l.getLast?.getD c ∈ c :: l := by
      rw [← hlast, List.getLast?_eq_getLast_of_ne_nil (List.cons_ne_nil c l)]
      exact List.getLast_mem _
    rw [hlast]
    refine ⟨?_, ih h.2 (List.not_mem_of_not_mem_cons he) hnodup⟩
    rw [Function.update_of_ne (by grind), Function.update_of_ne (by grind)]
    exact h.1

/-- A node is taken out of a path: the one in front of it gets its link. -/
theorem Path.skip (h : Path next a (front ++ e :: back) b)
    (hnodup : (a :: (front ++ e :: back)).Nodup) :
    Path (Function.update next (front.getLast?.getD a) (next e)) a (front ++ back) b := by
  induction front generalizing a with
  | nil =>
    obtain ⟨-, hback⟩ := h
    have ha : a ∉ back := by grind
    cases back with
    | nil =>
      rw [List.nil_append, path_nil, List.getLast?_nil, Option.getD_none, Function.update_self]
      exact hback
    | cons c back =>
      refine ⟨?_, hback.2.update ha _⟩
      rw [List.getLast?_nil, Option.getD_none, Function.update_self]
      exact hback.1
  | cons c front ih =>
    obtain ⟨ha, hnodup⟩ := List.nodup_cons.mp hnodup
    have hlast : (c :: front).getLast?.getD a = front.getLast?.getD c := by
      simp [List.getLast?_cons]
    have hmem : front.getLast?.getD c ∈ c :: front := by
      rw [← hlast, List.getLast?_eq_getLast_of_ne_nil (List.cons_ne_nil c front)]
      exact List.getLast_mem _
    rw [hlast]
    refine ⟨?_, ih h.2 hnodup⟩
    rw [Function.update_of_ne (by grind)]
    exact h.1

end Update

/-! ## Rings -/

/-- The two directions run from the sentinel through the members, in opposite order. -/
structure Ring (next prev : α → α) (s : α) (l : List α) : Prop where
  prev : Path prev s l s
  next : Path next s l.reverse s
  nodup : (s :: l).Nodup

theorem ring_nil (hprev : prev s = s) (hnext : next s = s) : Ring next prev s [] :=
  ⟨hprev, hnext, List.nodup_singleton s⟩

theorem Ring.prev_eq (h : Ring next prev s l) : prev s = l.head?.getD s := h.prev.next_eq

theorem Ring.next_eq (h : Ring next prev s l) : next s = l.getLast?.getD s := by
  rw [h.next.next_eq, List.head?_reverse]

/-- What stands around a member. -/
theorem Ring.around (h : Ring next prev s (front ++ e :: back)) :
    next e = front.getLast?.getD s ∧ prev e = back.head?.getD s := by
  refine ⟨?_, (path_append.mp h.prev).2.next_eq⟩
  have hnext := h.next
  rw [List.reverse_append, List.reverse_cons, List.append_assoc, List.singleton_append] at hnext
  rw [(path_append.mp hnext).2.next_eq, List.head?_reverse]

section Update

variable [DecidableEq α]

/-- A ring that the changes do not touch. -/
theorem Ring.update (h : Ring next prev s l) (hp : p ∉ s :: l) (hc : c ∉ s :: l) (x y : α) :
    Ring (Function.update next p x) (Function.update prev c y) s l where
  prev := h.prev.update hc y
  next := h.next.update (by simpa using hp) x
  nodup := h.nodup

/-- A new member in front of the sentinel, where the `prev` links end. -/
theorem Ring.insert (h : Ring next prev s l) (he : e ∉ s :: l) :
    Ring (Function.update (Function.update next e (next s)) s e)
      (Function.update (Function.update prev e s) (next s) e) s (l ++ [e]) where
  prev := by
    rw [h.next_eq]
    exact h.prev.extend he h.nodup
  next := by
    rw [List.reverse_append, List.reverse_singleton, List.singleton_append]
    refine h.next.push (by simpa using he) ?_
    rw [List.mem_reverse]
    exact (List.nodup_cons.mp h.nodup).1
  nodup := by
    rw [← List.cons_append]
    exact List.nodup_append.mpr ⟨h.nodup, List.nodup_singleton e, by grind⟩

/-- A member is taken out between the nodes around it. -/
theorem Ring.unlink (h : Ring next prev s (front ++ e :: back)) :
    Ring (Function.update next (prev e) (next e)) (Function.update prev (next e) (prev e)) s
      (front ++ back) where
  prev := by
    rw [h.around.1]
    exact h.prev.skip h.nodup
  next := by
    have hnext := h.next
    rw [List.reverse_append, List.reverse_cons, List.append_assoc, List.singleton_append] at hnext
    have hskip := hnext.skip (by
      have hnodup := h.nodup
      grind)
    rwa [List.getLast?_reverse, ← h.around.2, ← List.reverse_append] at hskip
  nodup := h.nodup.sublist ((List.sublist_cons_self e back).append_left front |>.cons_cons s)

end Update

end CxxFramework.LinkedRing
