import CxxFramework.Library.LinkedChain

/-!
# Doubly linked chains

Elements are linked in two directions, and each direction ends where a link is null: the one
runs from the head to the tail, and the other from the tail to the head.

## Main definitions

* `Mirror next prev head tail l` — both directions run through the elements of `l`, in opposite
  order.
* `setLink link a x` — set the link of an element, if there is one.
-/

namespace CxxFramework.DoubleChain

open LinkedChain

variable {α : Type*} {next prev : α → Option α} {head tail : Option α} {l front back : List α}
  {e p : α}

/-- The two directions run through the listed elements, in opposite order. -/
structure Mirror (next prev : α → Option α) (head tail : Option α) (l : List α) : Prop where
  forward : Chain next head l
  backward : Chain prev tail l.reverse

theorem mirror_nil : Mirror next prev none none [] := ⟨rfl, rfl⟩

/-- What holds of one direction holds of the other one. -/
theorem Mirror.symm (h : Mirror next prev head tail l) : Mirror prev next tail head l.reverse :=
  ⟨h.backward, by rw [List.reverse_reverse]; exact h.forward⟩

theorem Mirror.nodup (h : Mirror next prev head tail l) : l.Nodup := h.forward.nodup

theorem chain_head (h : Chain next head l) : head = l.head? := by
  cases l with
  | nil => exact h
  | cons a l => exact h.1

theorem Mirror.head_eq (h : Mirror next prev head tail l) : head = l.head? :=
  chain_head h.forward

theorem Mirror.tail_eq (h : Mirror next prev head tail l) : tail = l.getLast? := by
  rw [chain_head h.backward, List.head?_reverse]

theorem Mirror.mem_of_head (h : Mirror next prev head tail l) (he : head = some e) : e ∈ l :=
  List.mem_of_head? (h.head_eq.symm.trans he)

theorem Mirror.mem_of_tail (h : Mirror next prev head tail l) (he : tail = some e) : e ∈ l :=
  List.mem_of_getLast? (h.tail_eq.symm.trans he)

/-- What stands behind a member. -/
theorem Mirror.next_eq (h : Mirror next prev head tail (front ++ e :: back)) :
    next e = back.head? := chain_head h.forward.behind.2

/-- What stands in front of a member. -/
theorem Mirror.prev_eq (h : Mirror next prev head tail (front ++ e :: back)) :
    prev e = front.getLast? := by
  have hback : Mirror prev next tail head (back.reverse ++ e :: front.reverse) := by
    simpa using h.symm
  rw [hback.next_eq, List.head?_reverse]

section Update

variable [DecidableEq α]

/-- Set the link of an element, if there is one. -/
def setLink (link : α → Option α) (a x : Option α) : α → Option α :=
  match a with
  | some a => Function.update link a x
  | none => link

theorem setLink_of_ne {link : α → Option α} {a x : Option α} (h : a ≠ some p) :
    setLink link a x p = link p := by
  cases a with
  | none => rfl
  | some a => exact Function.update_of_ne (fun heq => h (congrArg some heq.symm)) ..

/-- A new element in front of the head. -/
theorem Mirror.push (h : Mirror next prev head tail l) (he : e ∉ l) :
    Mirror (Function.update next e head)
      (Function.update (setLink prev head (some e)) e none) (some e) (tail.or (some e))
      (e :: l) := by
  refine ⟨h.forward.push he, ?_⟩
  rw [List.reverse_cons]
  cases l with
  | nil =>
    obtain rfl := chain_nil.mp h.forward
    obtain rfl := chain_nil.mp h.backward
    exact ⟨rfl, Function.update_self ..⟩
  | cons a l =>
    obtain ⟨rfl, -⟩ := h.forward
    have hne : a ≠ e := fun heq => he (heq ▸ List.mem_cons_self)
    have htail : tail.or (some e) = tail := by
      rw [h.tail_eq, List.getLast?_cons, Option.some_or]
    have hback : Chain (Function.update prev e none) tail (l.reverse ++ [a]) := by
      have hup := h.backward.update (mt List.mem_reverse.mp he) none
      rwa [List.reverse_cons] at hup
    have hnew : Chain (Function.update prev e none) (some e) [e] := ⟨rfl, Function.update_self ..⟩
    have hlinked := hback.relink hnew (by simpa using hne)
    rw [htail, List.reverse_cons, List.append_assoc, setLink, Function.update_comm hne]
    exact hlinked

/-- A new element behind the tail. -/
theorem Mirror.append (h : Mirror next prev head tail l) (he : e ∉ l) :
    Mirror (Function.update (setLink next tail (some e)) e none) (Function.update prev e tail)
      (head.or (some e)) (some e) (l ++ [e]) := by
  have hpush := (h.symm.push (mt List.mem_reverse.mp he)).symm
  rwa [List.reverse_cons, List.reverse_reverse] at hpush

/-- One direction once an element is taken out. -/
theorem chain_remove (h : Chain next head (front ++ e :: back)) :
    Chain (Function.update (setLink next front.getLast? (next e)) e none)
      (if head = some e then next e else head) (front ++ back) := by
  have hunlink := h.unlink
  have hnot : e ∉ front ++ back := (List.nodup_middle.mp h.nodup).notMem
  rcases List.eq_nil_or_concat' front with rfl | ⟨front, last, rfl⟩
  · rw [if_pos h.1]
    exact hunlink
  · have hhead : head ≠ some e := by
      intro heq
      rw [chain_head h, List.head?_append_of_ne_nil _ (by simp)] at heq
      exact hnot (List.mem_append_left back (List.mem_of_head? heq))
    rw [if_neg hhead]
    simpa [before, unlink, setLink] using hunlink

/-- The head has no element in front of it whose link could be set. -/
theorem Mirror.ite_setLink (h : Mirror next prev head tail (front ++ e :: back)) (x : Option α) :
    (if head = some e then next else setLink next (prev e) x) = setLink next (prev e) x := by
  split_ifs with hhead
  · have hnot : e ∉ front ++ back := (List.nodup_middle.mp h.nodup).notMem
    have hfront : front = [] := by
      by_contra hne
      rw [h.head_eq, List.head?_append_of_ne_nil _ hne] at hhead
      exact hnot (List.mem_append_left back (List.mem_of_head? hhead))
    rw [h.prev_eq, hfront]
    rfl
  · rfl

/-- A member is taken out. -/
theorem Mirror.remove (h : Mirror next prev head tail (front ++ e :: back)) :
    Mirror (Function.update (setLink next (prev e) (next e)) e none)
      (Function.update (setLink prev (next e) (prev e)) e none)
      (if head = some e then next e else head) (if tail = some e then prev e else tail)
      (front ++ back) := by
  have hback : Chain prev tail (back.reverse ++ e :: front.reverse) := by
    simpa using h.backward
  have hforward := chain_remove h.forward
  have hbackward := chain_remove hback
  rw [← h.prev_eq] at hforward
  rw [List.getLast?_reverse, ← h.next_eq] at hbackward
  exact ⟨hforward, by simpa using hbackward⟩

end Update

end CxxFramework.DoubleChain
