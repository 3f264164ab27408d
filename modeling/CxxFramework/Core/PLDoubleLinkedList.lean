import CxxFramework.Library.DoubleChain
import CxxFramework.Library.Refinement
import Mathlib.Algebra.Group.Nat.Defs
import Mathlib.Data.List.Basic

/-!
# Doubly linked lists

The nodes of a `PLDoubleLinkedList` are linked in both directions, by `fNext` from `fHead` on and
by `fPrev` from `fTail` on. The links of a node in no list are null.

The debug checks are those of the source, which switches them on. `none` stands for an assertion
that fails, for an access through a null pointer, and for a loop that takes more than the given
number of rounds. A callback gets the list, the node and the user data.

## Main definitions

* `PLDoubleLinkedList.step` — the calls on a list.
* `specStep` — what the calls do to the list of its nodes.
* `PLDoubleLinkedList.Represents` — the links run through the list of the nodes.
-/

namespace CxxFramework.Core

open LinkedChain DoubleChain Refinement

/-- The number range of `fNumNodes`. -/
def kNumNodesSize : Nat := 2 ^ 32

/-- The fields of a list, and of all nodes. -/
structure PLDoubleLinkedList (N : Type) where
  fHead : Option N
  fTail : Option N
  fNumNodes : Nat
  fNext : N → Option N
  fPrev : N → Option N

inductive PLCall (N U : Type) where
  | addNode (node : N)
  | addNodeToTail (node : N)
  | removeNode (node : N)
  | clearList
  /-- `ForEach`, with a callback that may remove the node it is given. -/
  | forEach (remove : N → U → Bool × U) (userData : U)

variable {N U : Type}

namespace PLDoubleLinkedList

/-! ## Iteration -/

/-- The loop of `ForEach`: the nodes that are visited, the list and the user data. -/
def forEachLoop
    (doFunc : PLDoubleLinkedList N → N → U → Option (PLDoubleLinkedList N × U)) :
    (n : Nat) → PLDoubleLinkedList N → (curElement : Option N) → U →
      Option (List N × PLDoubleLinkedList N × U)
  | 0, _, _, _ => none
  | _ + 1, list, none, userData => some ([], list, userData)
  | n + 1, list, some curElement, userData =>
    let nextElement := list.fNext curElement
    (doFunc list curElement userData).bind fun (list, userData) =>
      (forEachLoop doFunc n list nextElement userData).map fun (visited, result) =>
        (curElement :: visited, result)

def forEach (n : Nat) (list : PLDoubleLinkedList N)
    (doFunc : PLDoubleLinkedList N → N → U → Option (PLDoubleLinkedList N × U)) (userData : U) :
    Option (List N × PLDoubleLinkedList N × U) :=
  forEachLoop doFunc n list list.fHead userData

section Operations

variable [DecidableEq N]

/-! ## Validation -/

/-- `node->fPrev->fNext == node`, or with the links exchanged. -/
def pointsBack (fNext fPrev : N → Option N) (node : N) : Bool :=
  (fPrev node).any fun p => fNext p = some node

/-- The first loop of `ValidateLinks`. The second one is this one with the directions
exchanged. -/
def validateLoop (fNext fPrev : N → Option N) (fHead fTail : Option N) :
    (n : Nat) → (nextNode : Option N) → Bool
  | 0, _ => false
  | _ + 1, none => true
  | n + 1, some node =>
    (fHead = some node || pointsBack fNext fPrev node) &&
      (fTail = some node || pointsBack fPrev fNext node) &&
      ((fNext node).isSome || fTail = some node) &&
      validateLoop fNext fPrev fHead fTail n (fNext node)

def validateLinks (n : Nat) (list : PLDoubleLinkedList N) : Bool :=
  (list.fHead.all fun head => (list.fPrev head).isNone) &&
  (list.fTail.all fun tail => (list.fNext tail).isNone) &&
  (list.fTail.all fun tail => list.fHead ≠ some tail ||
    (list.fPrev tail).isNone && (list.fNext tail).isNone) &&
  (list.fHead.isNone || list.fTail.isSome) &&
  (list.fTail.isNone || list.fHead.isSome) &&
  (list.fTail.all fun tail => (list.fPrev tail).all fun p => list.fNext p = some tail) &&
  (list.fHead.all fun head => (list.fNext head).all fun p => list.fPrev p = some head) &&
  validateLoop list.fNext list.fPrev list.fHead list.fTail n list.fHead &&
  validateLoop list.fPrev list.fNext list.fTail list.fHead n list.fTail

/-- The check at the end of an operation. -/
def validated (n : Nat) (list : PLDoubleLinkedList N) : Option (PLDoubleLinkedList N) :=
  if list.validateLinks n then some list else none

/-! ## Operations -/

def addNodeToTail (n : Nat) (list : PLDoubleLinkedList N) (node : N) :
    Option (PLDoubleLinkedList N) :=
  if list.fPrev node = none ∧ list.fNext node = none then
    validated n
      { fHead := list.fHead.or (some node)
        fTail := some node
        fNumNodes := (list.fNumNodes + 1) % kNumNodesSize
        fNext := Function.update (setLink list.fNext list.fTail (some node)) node none
        fPrev := Function.update list.fPrev node list.fTail }
  else none

def addNode (n : Nat) (list : PLDoubleLinkedList N) (node : N) : Option (PLDoubleLinkedList N) :=
  if list.fPrev node = none ∧ list.fNext node = none then
    validated n
      { fHead := some node
        fTail := list.fTail.or (some node)
        fNumNodes := (list.fNumNodes + 1) % kNumNodesSize
        fNext := Function.update list.fNext node list.fHead
        fPrev := Function.update (setLink list.fPrev list.fHead (some node)) node none }
  else none

def removeNode (n : Nat) (list : PLDoubleLinkedList N) (node : N) :
    Option (PLDoubleLinkedList N) :=
  if (list.fHead = some node ∨ pointsBack list.fNext list.fPrev node) ∧
      (list.fTail = some node ∨ pointsBack list.fPrev list.fNext node) then
    let fNext := if list.fHead = some node then list.fNext
      else setLink list.fNext (list.fPrev node) (list.fNext node)
    let fPrev := if list.fTail = some node then list.fPrev
      else setLink list.fPrev (fNext node) (list.fPrev node)
    validated n
      { fHead := if list.fHead = some node then list.fNext node else list.fHead
        fTail := if list.fTail = some node then list.fPrev node else list.fTail
        fNumNodes := (list.fNumNodes + kNumNodesSize - 1) % kNumNodesSize
        fNext := Function.update fNext node none
        fPrev := Function.update fPrev node none }
  else none

/-- `DoClearList`. The destructor of a node checks its links. -/
def doClearList (n : Nat) (list : PLDoubleLinkedList N) (node : N) (_listPtr : Unit) :
    Option (PLDoubleLinkedList N × Unit) :=
  (list.removeNode n node).bind fun list =>
    if list.fPrev node = none ∧ list.fNext node = none then some (list, ()) else none

def clearList (n : Nat) (list : PLDoubleLinkedList N) : Option (PLDoubleLinkedList N) :=
  (list.forEach n (doClearList n) ()).map (·.2.1)

/-- A callback that may remove the node it is given. -/
def removing (n : Nat) (remove : N → U → Bool × U) (list : PLDoubleLinkedList N) (node : N)
    (userData : U) : Option (PLDoubleLinkedList N × U) :=
  let (removes, userData) := remove node userData
  if removes then (list.removeNode n node).map (·, userData) else some (list, userData)

/-- A call, with the nodes that it visits and the user data that it leaves. -/
def step (n : Nat) (list : PLDoubleLinkedList N) :
    PLCall N U → Option (Option (List N × U) × PLDoubleLinkedList N)
  | .addNode node => (list.addNode n node).map (none, ·)
  | .addNodeToTail node => (list.addNodeToTail n node).map (none, ·)
  | .removeNode node => (list.removeNode n node).map (none, ·)
  | .clearList => (list.clearList n).map (none, ·)
  | .forEach remove userData =>
    (list.forEach n (removing n remove) userData).map fun (visited, list, userData) =>
      (some (visited, userData), list)

end Operations

/-! ## Lists of nodes -/

/-- What a callback leaves of the nodes, and the user data in the end. -/
def visit (remove : N → U → Bool × U) : List N → U → List N × U
  | [], userData => ([], userData)
  | node :: l, userData =>
    let (removes, userData) := remove node userData
    let (kept, userData) := visit remove l userData
    (if removes then kept else node :: kept, userData)

/-- What a call does to the nodes, from the head to the tail. A node is not added twice, and only
a member is removed. Each node that is in the list at its start is visited. -/
def specStep [DecidableEq N] (l : List N) : PLCall N U → Option (Option (List N × U) × List N)
  | .addNode node => if node ∈ l then none else some (none, node :: l)
  | .addNodeToTail node => if node ∈ l then none else some (none, l ++ [node])
  | .removeNode node => if node ∈ l then some (none, l.erase node) else none
  | .clearList => some (none, [])
  | .forEach remove userData =>
    some (some (l, (visit remove l userData).2), (visit remove l userData).1)

/-- The links run through the nodes in both directions. -/
structure Represents (list : PLDoubleLinkedList N) (l : List N) : Prop where
  mirror : Mirror list.fNext list.fPrev list.fHead list.fTail l
  free : ∀ node ∉ l, list.fPrev node = none ∧ list.fNext node = none
  count : list.fNumNodes = l.length % kNumNodesSize

/-- A new list, and new nodes. -/
def empty : PLDoubleLinkedList N := ⟨none, none, 0, fun _ => none, fun _ => none⟩

theorem empty_represents : Represents (empty : PLDoubleLinkedList N) [] :=
  ⟨mirror_nil, fun _ _ => ⟨rfl, rfl⟩, rfl⟩

section Steps

variable [DecidableEq N] {list : PLDoubleLinkedList N} {l front back : List N} {node : N} {n : Nat}
  {next prev : N → Option N} {head tail : Option N}

/-! ## The checks -/

/-- A member that is not the head is the one behind the one in front of it. -/
theorem linked_of_mirror (h : Mirror next prev head tail (front ++ node :: back)) :
    head = some node ∨ pointsBack next prev node := by
  rcases List.eq_nil_or_concat' front with rfl | ⟨front, last, rfl⟩
  · exact .inl h.head_eq
  · have hprev : prev node = some last := by simp [h.prev_eq]
    rw [List.append_assoc] at h
    have hnext : next last = some node := h.next_eq
    exact .inr (by simp [pointsBack, hprev, hnext])

theorem linked_of_mirror' (h : Mirror next prev head tail (front ++ node :: back)) :
    tail = some node ∨ pointsBack prev next node := by
  have hback : Mirror prev next tail head (back.reverse ++ node :: front.reverse) := by
    simpa using h.symm
  exact linked_of_mirror hback

theorem validateLoop_of_mirror (h : Mirror next prev head tail (front ++ back))
    (hn : back.length < n) : validateLoop next prev head tail n back.head? = true := by
  induction back generalizing front n with
  | nil =>
    obtain ⟨n, rfl⟩ : ∃ k, n = k + 1 := ⟨n - 1, by simp at hn; omega⟩
    rfl
  | cons node back ih =>
    rw [List.length_cons] at hn
    obtain ⟨n, rfl⟩ : ∃ k, n = k + 1 := ⟨n - 1, by omega⟩
    have hfirst := linked_of_mirror h
    have hlast := linked_of_mirror' h
    have hend : (next node).isSome ∨ tail = some node := by
      rw [h.next_eq, h.tail_eq]
      cases back <;> simp
    have hmirror : Mirror next prev head tail (front ++ [node] ++ back) := by simpa using h
    have hrest : validateLoop next prev head tail n (next node) = true := by
      rw [h.next_eq]
      exact ih hmirror (Nat.lt_of_succ_lt_succ hn)
    rw [List.head?_cons, validateLoop]
    simp only [hrest, Bool.and_true, Bool.and_eq_true, Bool.or_eq_true, decide_eq_true_iff]
    exact ⟨⟨hfirst, hlast⟩, hend⟩

/-- The links around a member point at it. -/
theorem pointsBack_all (h : Mirror next prev head tail (front ++ node :: back)) :
    ((prev node).all fun p => next p = some node) = true := by
  rw [h.prev_eq]
  rcases List.eq_nil_or_concat' front with rfl | ⟨front, last, rfl⟩
  · rfl
  · rw [List.append_assoc] at h
    have hnext : next last = some node := h.next_eq
    simp [hnext]

theorem pointsBack_all' (h : Mirror next prev head tail (front ++ node :: back)) :
    ((next node).all fun p => prev p = some node) = true := by
  have hback : Mirror prev next tail head (back.reverse ++ node :: front.reverse) := by
    simpa using h.symm
  exact pointsBack_all hback

/-- The links of a list in both directions pass the checks. -/
theorem validateLinks_of_mirror (h : Mirror list.fNext list.fPrev list.fHead list.fTail l)
    (hn : l.length < n) : list.validateLinks n = true := by
  have hforward : validateLoop list.fNext list.fPrev list.fHead list.fTail n list.fHead = true := by
    have hloop := validateLoop_of_mirror (show Mirror _ _ _ _ ([] ++ l) from h) hn
    rwa [← h.head_eq] at hloop
  have hbackward :
      validateLoop list.fPrev list.fNext list.fTail list.fHead n list.fTail = true := by
    have hloop := validateLoop_of_mirror (show Mirror _ _ _ _ ([] ++ l.reverse) from h.symm)
      (by rwa [List.length_reverse])
    rwa [← h.symm.head_eq] at hloop
  unfold validateLinks
  simp only [hforward, hbackward, Bool.and_true]
  rcases List.eq_nil_or_concat' l with rfl | ⟨front, last, rfl⟩
  · simp [h.head_eq, h.tail_eq]
  · have htail : list.fTail = some last := by simp [h.tail_eq]
    have hnext : list.fNext last = none := h.next_eq
    have hlast := pointsBack_all h
    obtain ⟨first, back, hsplit⟩ := List.exists_cons_of_ne_nil (show front ++ [last] ≠ [] by simp)
    rw [hsplit] at h
    have hhead : list.fHead = some first := h.head_eq
    have hprev : list.fPrev first = none :=
      (show Mirror _ _ _ _ ([] ++ first :: back) from h).prev_eq
    have hfirst := pointsBack_all' (show Mirror _ _ _ _ ([] ++ first :: back) from h)
    by_cases hsame : first = last
    · simp [hhead, htail, hnext, hprev, hsame ▸ hprev, hsame ▸ hnext]
    · simp [hhead, htail, hnext, hprev, hsame, hlast, hfirst]

theorem validated_some {list' : PLDoubleLinkedList N} (h : list.validated n = some list') :
    list = list' := by
  rw [validated] at h
  split_ifs at h
  exact Option.some.inj h

theorem validated_eq (h : Mirror list.fNext list.fPrev list.fHead list.fTail l)
    (hn : l.length < n) : list.validated n = some list :=
  if_pos (validateLinks_of_mirror h hn)

/-! ## Steps -/

theorem count_succ {count length : Nat} (h : count = length % kNumNodesSize) :
    (count + 1) % kNumNodesSize = (length + 1) % kNumNodesSize := by
  rw [h, Nat.mod_add_mod]

/-- A node that is in no list is added in front of the head. -/
theorem Represents.addNode (h : Represents list l) (hnode : node ∉ l) (hn : l.length + 1 < n) :
    ∃ list', list.addNode n node = some list' ∧ Represents list' (node :: l) := by
  have hmirror := h.mirror.push hnode
  refine ⟨_, (if_pos (h.free node hnode)).trans (validated_eq hmirror hn), hmirror, ?_,
    count_succ h.count⟩
  intro other hother
  obtain ⟨hne, hout⟩ := not_or.mp (List.mem_cons.not.mp hother)
  have hlink : setLink list.fPrev list.fHead (some node) other = list.fPrev other :=
    setLink_of_ne fun heq => hout (h.mirror.mem_of_head heq)
  dsimp only
  rw [Function.update_of_ne hne, Function.update_of_ne hne, hlink]
  exact h.free other hout

/-- A node that is in no list is added behind the tail. -/
theorem Represents.addNodeToTail (h : Represents list l) (hnode : node ∉ l)
    (hn : l.length + 1 < n) :
    ∃ list', list.addNodeToTail n node = some list' ∧ Represents list' (l ++ [node]) := by
  have hmirror := h.mirror.append hnode
  refine ⟨_, (if_pos (h.free node hnode)).trans (validated_eq hmirror (by simpa using hn)),
    hmirror, ?_, by rw [List.length_append]; exact count_succ h.count⟩
  intro other hother
  obtain ⟨hout, hne⟩ := not_or.mp (List.mem_append.not.mp hother)
  rw [List.mem_singleton] at hne
  have hlink : setLink list.fNext list.fTail (some node) other = list.fNext other :=
    setLink_of_ne fun heq => hout (h.mirror.mem_of_tail heq)
  dsimp only
  rw [Function.update_of_ne hne, Function.update_of_ne hne, hlink]
  exact h.free other hout

omit [DecidableEq N] in
/-- Only the one member of a list has no links, and it is not added again. -/
theorem Represents.single (h : Represents list l) (hnode : node ∈ l)
    (hfree : list.fPrev node = none ∧ list.fNext node = none) :
    list.fHead = some node ∧ list.fTail = some node := by
  obtain ⟨front, back, rfl⟩ := List.append_of_mem hnode
  have hfront : front = [] := by
    rw [← List.getLast?_eq_none_iff, ← h.mirror.prev_eq]
    exact hfree.1
  have hback : back = [] := by
    rw [← List.head?_eq_none_iff, ← h.mirror.next_eq]
    exact hfree.2
  subst hfront hback
  exact ⟨h.mirror.head_eq, h.mirror.tail_eq⟩

theorem Represents.addNode_mem (h : Represents list l) (hnode : node ∈ l) :
    list.addNode n node = none := by
  rw [PLDoubleLinkedList.addNode]
  split_ifs with hfree
  · obtain ⟨hhead, htail⟩ := h.single hnode hfree
    refine if_neg ?_
    simp [validateLinks, hhead, htail]
  · rfl

theorem Represents.addNodeToTail_mem (h : Represents list l) (hnode : node ∈ l) :
    list.addNodeToTail n node = none := by
  rw [PLDoubleLinkedList.addNodeToTail]
  split_ifs with hfree
  · obtain ⟨hhead, htail⟩ := h.single hnode hfree
    refine if_neg ?_
    simp [validateLinks, hhead, htail]
  · rfl

theorem count_pred {count length : Nat} (h : count = (length + 1) % kNumNodesSize) :
    (count + kNumNodesSize - 1) % kNumNodesSize = length % kNumNodesSize := by
  rw [h, kNumNodesSize]
  omega

/-- The links are set as if the ends of the list were not looked at first. -/
theorem Represents.removeNode_eq (h : Represents list (front ++ node :: back)) (n : Nat) :
    list.removeNode n node = validated n
      { fHead := if list.fHead = some node then list.fNext node else list.fHead
        fTail := if list.fTail = some node then list.fPrev node else list.fTail
        fNumNodes := (list.fNumNodes + kNumNodesSize - 1) % kNumNodesSize
        fNext := Function.update (setLink list.fNext (list.fPrev node) (list.fNext node)) node none
        fPrev := Function.update (setLink list.fPrev (list.fNext node) (list.fPrev node))
          node none } := by
  have hnot : node ∉ front ++ back := (List.nodup_middle.mp h.mirror.nodup).notMem
  have hfirst (x : Option N) : (if list.fHead = some node then list.fNext
      else setLink list.fNext (list.fPrev node) x) = setLink list.fNext (list.fPrev node) x :=
    h.mirror.ite_setLink x
  have hback : Mirror list.fPrev list.fNext list.fTail list.fHead
      (back.reverse ++ node :: front.reverse) := by
    simpa using h.mirror.symm
  have hlast (x : Option N) : (if list.fTail = some node then list.fPrev
      else setLink list.fPrev (list.fNext node) x) = setLink list.fPrev (list.fNext node) x :=
    hback.ite_setLink x
  have hkeep : setLink list.fNext (list.fPrev node) (list.fNext node) node = list.fNext node := by
    refine setLink_of_ne fun heq => hnot (List.mem_append_left back ?_)
    rw [h.mirror.prev_eq] at heq
    exact List.mem_of_getLast? heq
  rw [PLDoubleLinkedList.removeNode,
    if_pos ⟨linked_of_mirror h.mirror, linked_of_mirror' h.mirror⟩]
  simp only [hfirst, hkeep, hlast]

/-- A member is taken out. -/
theorem Represents.removeNode (h : Represents list l) (hnode : node ∈ l) (hn : l.length < n) :
    ∃ list', list.removeNode n node = some list' ∧ Represents list' (l.erase node) := by
  obtain ⟨front, back, hfront, rfl, herase⟩ := List.exists_erase_eq hnode
  have hmirror := h.mirror.remove
  have hlength : (front ++ node :: back).length = (front ++ back).length + 1 := by
    simp only [List.length_append, List.length_cons, Nat.add_assoc]
  have hcount := h.count
  rw [hlength] at hn hcount
  rw [herase, h.removeNode_eq]
  refine ⟨_, validated_eq hmirror (Nat.lt_of_succ_lt hn), hmirror, ?_, count_pred hcount⟩
  intro other hother
  dsimp only
  by_cases hne : other = node
  · rw [hne, Function.update_self, Function.update_self]
    exact ⟨rfl, rfl⟩
  · have hout : other ∉ front ++ node :: back := by grind
    have hprev : list.fPrev node ≠ some other := fun heq =>
      hother (List.mem_append_left back (List.mem_of_getLast? (h.mirror.prev_eq.symm.trans heq)))
    have hnext : list.fNext node ≠ some other := fun heq =>
      hother (List.mem_append_right front (List.mem_of_head? (h.mirror.next_eq.symm.trans heq)))
    rw [Function.update_of_ne hne, Function.update_of_ne hne, setLink_of_ne hnext,
      setLink_of_ne hprev]
    exact h.free other hout

theorem Represents.removeNode_notMem (h : Represents list l) (hnode : node ∉ l) :
    list.removeNode n node = none := by
  obtain ⟨hprev, -⟩ := h.free node hnode
  have hhead : list.fHead ≠ some node := fun heq => hnode (h.mirror.mem_of_head heq)
  refine if_neg fun hlinked => ?_
  simpa [pointsBack, hprev, hhead] using hlinked.1

/-! ## Iterations -/

/-- The next node is read before the callback, so that the iteration goes on behind a node that
is removed. -/
theorem Represents.forEachLoop (h : Represents list (front ++ back))
    (hn : (front ++ back).length < n) (remove : N → U → Bool × U) (userData : U) {m : Nat}
    (hm : back.length < m) :
    ∃ list', forEachLoop (removing n remove) m list back.head? userData =
        some (back, list', (visit remove back userData).2) ∧
      Represents list' (front ++ (visit remove back userData).1) := by
  induction back generalizing front list userData m with
  | nil =>
    obtain ⟨m, rfl⟩ : ∃ k, m = k + 1 := ⟨m - 1, by simp at hm; omega⟩
    exact ⟨list, rfl, h⟩
  | cons node back ih =>
    rw [List.length_cons] at hm
    obtain ⟨m, rfl⟩ : ∃ k, m = k + 1 := ⟨m - 1, by omega⟩
    have hm : back.length < m := Nat.lt_of_succ_lt_succ hm
    have hnext : list.fNext node = back.head? := h.mirror.next_eq
    obtain ⟨removes, userData', hremove⟩ : ∃ removes userData', remove node userData =
        (removes, userData') := ⟨_, _, rfl⟩
    rw [List.head?_cons, PLDoubleLinkedList.forEachLoop, hnext]
    simp only [removing, visit, hremove]
    cases removes with
    | true =>
      have hnot : node ∉ front := fun hmem => (List.disjoint_of_nodup_append h.mirror.nodup) hmem
        List.mem_cons_self
      obtain ⟨list₁, hcall, h₁⟩ := h.removeNode (show node ∈ front ++ node :: back by simp) hn
      rw [List.erase_append_right _ hnot, List.erase_cons_head] at h₁
      obtain ⟨list', hrest, h'⟩ := ih h₁ (by simp at hn ⊢; omega) userData' hm
      refine ⟨list', ?_, h'⟩
      simp only [hcall, Option.map_some, Option.bind_some, hrest, if_true]
    | false =>
      have hsplit : front ++ [node] ++ back = front ++ node :: back := List.append_cons .. |>.symm
      rw [← hsplit] at h hn
      obtain ⟨list', hrest, h'⟩ := ih h hn userData' hm
      refine ⟨list', ?_, by simpa using h'⟩
      simp only [Bool.false_eq_true, if_false, Option.bind_some, hrest, Option.map_some]

/-- Each node is visited once, whatever the callback removes. -/
theorem Represents.forEach (h : Represents list l) (hn : l.length < n)
    (remove : N → U → Bool × U) (userData : U) :
    ∃ list', list.forEach n (removing n remove) userData =
        some (l, list', (visit remove l userData).2) ∧
      Represents list' (visit remove l userData).1 := by
  have hloop := Represents.forEachLoop (show Represents list ([] ++ l) from h) hn remove userData hn
  rwa [← h.mirror.head_eq] at hloop

theorem removeNode_free {list' : PLDoubleLinkedList N} (h : list.removeNode n node = some list') :
    list'.fPrev node = none ∧ list'.fNext node = none := by
  rw [PLDoubleLinkedList.removeNode] at h
  split at h
  · rw [← validated_some h]
    exact ⟨Function.update_self .., Function.update_self ..⟩
  · cases h

/-- The destructor finds no links. -/
theorem doClearList_eq (n : Nat) :
    doClearList (N := N) n = removing n fun _ listPtr => (true, listPtr) := by
  funext list node listPtr
  rw [doClearList, removing]
  cases hremove : list.removeNode n node with
  | none => rfl
  | some list' => exact if_pos (removeNode_free hremove)

omit [DecidableEq N] in
theorem visit_all (l : List N) (userData : U) :
    (visit (fun _ userData => (true, userData)) l userData).1 = [] := by
  induction l with
  | nil => rfl
  | cons node l ih => exact ih

theorem Represents.clearList (h : Represents list l) (hn : l.length < n) :
    ∃ list', list.clearList n = some list' ∧ Represents list' [] := by
  obtain ⟨list', hall, h'⟩ := h.forEach hn (fun _ listPtr => (true, listPtr)) ()
  rw [visit_all] at h'
  refine ⟨list', ?_, h'⟩
  rw [PLDoubleLinkedList.clearList, doClearList_eq, hall]
  rfl

omit [DecidableEq N] in
theorem visit_sublist (remove : N → U → Bool × U) (l : List N) (userData : U) :
    (visit remove l userData).1.Sublist l := by
  induction l generalizing userData with
  | nil => exact List.nil_sublist []
  | cons node l ih =>
    simp only [visit]
    split_ifs
    · exact (ih _).cons node
    · exact (ih _).cons_cons node

/-! ## Runs -/

/-- A list stands for its nodes, and there are enough rounds for `k` more of them. -/
def Related (n k : Nat) (list : PLDoubleLinkedList N) (l : List N) : Prop :=
  Represents list l ∧ l.length + k < n

theorem step_agrees {k : Nat} (h : Related n (k + 1) list l) (call : PLCall N U) :
    Agrees (Related n k) (list.step n call) (specStep l call) := by
  obtain ⟨h, hn⟩ := h
  have hlength : l.length < n := by omega
  cases call with
  | addNode node =>
    by_cases hnode : node ∈ l
    · rw [step, h.addNode_mem hnode, specStep, if_pos hnode]
      trivial
    · obtain ⟨list', hcall, h'⟩ := h.addNode hnode (show l.length + 1 < n by omega)
      rw [step, hcall, specStep, if_neg hnode]
      exact ⟨rfl, h', by rw [List.length_cons]; omega⟩
  | addNodeToTail node =>
    by_cases hnode : node ∈ l
    · rw [step, h.addNodeToTail_mem hnode, specStep, if_pos hnode]
      trivial
    · obtain ⟨list', hcall, h'⟩ := h.addNodeToTail hnode (show l.length + 1 < n by omega)
      rw [step, hcall, specStep, if_neg hnode]
      exact ⟨rfl, h', by rw [List.length_append, List.length_singleton]; omega⟩
  | removeNode node =>
    by_cases hnode : node ∈ l
    · obtain ⟨list', hcall, h'⟩ := h.removeNode hnode hlength
      have hle := (List.erase_sublist (a := node) (l := l)).length_le
      rw [step, hcall, specStep, if_pos hnode]
      exact ⟨rfl, h', by omega⟩
    · rw [step, h.removeNode_notMem hnode, specStep, if_neg hnode]
      trivial
  | clearList =>
    obtain ⟨list', hcall, h'⟩ := h.clearList hlength
    rw [step, hcall]
    exact ⟨rfl, h', by rw [List.length_nil]; omega⟩
  | forEach remove userData =>
    obtain ⟨list', hcall, h'⟩ := h.forEach hlength remove userData
    have hle := (visit_sublist remove l userData).length_le
    rw [step, hcall]
    exact ⟨rfl, h', by omega⟩

/-- The nodes of a list are different, so that each one is visited once. -/
theorem specStep_nodup {l' : List N} {call : PLCall N U} {answer : Option (List N × U)}
    (h : specStep l call = some (answer, l')) (hl : l.Nodup) :
    l'.Nodup ∧ ∀ visited userData, answer = some (visited, userData) → visited.Nodup := by
  cases call with
  | addNode node =>
    rw [specStep] at h
    split_ifs at h with hnode
    cases h
    exact ⟨List.nodup_cons.mpr ⟨hnode, hl⟩, nofun⟩
  | addNodeToTail node =>
    rw [specStep] at h
    split_ifs at h with hnode
    cases h
    exact ⟨List.nodup_append.mpr ⟨hl, List.nodup_singleton node, by grind⟩, nofun⟩
  | removeNode node =>
    rw [specStep] at h
    split_ifs at h with hnode
    cases h
    exact ⟨hl.erase node, nofun⟩
  | clearList =>
    cases h
    exact ⟨List.nodup_nil, nofun⟩
  | forEach remove userData =>
    cases h
    refine ⟨(visit_sublist remove l userData).nodup hl, ?_⟩
    rintro visited userData' ⟨⟩
    exact hl

theorem perform_nodup {l' : List N} {calls : List (PLCall N U)}
    {answers : List (Option (List N × U))} (h : perform specStep l calls = some (answers, l'))
    (hl : l.Nodup) {visited : List N} {userData : U}
    (hmem : some (visited, userData) ∈ answers) : visited.Nodup := by
  induction calls generalizing l answers with
  | nil =>
    cases h
    cases hmem
  | cons call calls ih =>
    obtain ⟨⟨answer, l₁⟩, hcall, hrest⟩ := Option.bind_eq_some_iff.mp h
    obtain ⟨⟨answers', l₂⟩, hcalls, heq⟩ := Option.map_eq_some_iff.mp hrest
    cases heq
    obtain ⟨hnodup, hvisited⟩ := specStep_nodup hcall hl
    rcases List.mem_cons.mp hmem with hfirst | hmem
    · exact hvisited visited userData hfirst.symm
    · exact ih hcalls hnodup hmem

theorem perform_agrees (calls : List (PLCall N U)) (hn : calls.length < n) :
    Agrees Represents (perform (step n) empty calls) (perform specStep [] calls) := by
  have hrun := agrees_perform (R := Related n) (fun k list l call h => step_agrees h call)
    (s := empty) (t := []) calls ⟨empty_represents, by rw [List.length_nil]; omega⟩
  exact hrun.mono fun list l h => h.1

/-- Every sequence of calls does what it does to the list of the nodes, and fails where a member is
added or another node is removed. Each `ForEach` visits the nodes that are in the list at its
start, which are all different. -/
theorem calls_refine (calls : List (PLCall N U)) (hn : calls.length < n) :
    Agrees Represents (perform (step n) empty calls) (perform specStep [] calls) ∧
      ∀ answers l, perform specStep [] calls = some (answers, l) →
        ∀ visited (userData : U), some (visited, userData) ∈ answers → visited.Nodup :=
  ⟨perform_agrees calls hn, fun _ _ h _ _ hmem => perform_nodup h List.nodup_nil hmem⟩

/-- A callback removes the even nodes and counts all. -/
theorem calls_refine_forEach :
    Agrees Represents
      (perform (step 6) empty [.addNode 1, .addNodeToTail 2, .addNode 4,
        .forEach (fun node count => (node % 2 == 0, count + 1)) 0, .removeNode 1])
      (some ([none, none, none, some ([4, 1, 2], 3), none], [])) :=
  (calls_refine (N := Nat) (U := Nat) [.addNode 1, .addNodeToTail 2, .addNode 4,
    .forEach (fun node count => (node % 2 == 0, count + 1)) 0, .removeNode 1] (by decide)).1

/-! ### A list of `2 ^ 32` nodes -/

theorem perform_addNodeToTail (elems : List N) (hnodup : (l ++ elems).Nodup) :
    perform specStep l (elems.map (PLCall.addNodeToTail (U := U))) =
      some (elems.map fun _ => none, l ++ elems) := by
  induction elems generalizing l with
  | nil => rw [List.append_nil]; rfl
  | cons node elems ih =>
    have hnode : node ∉ l := fun hmem => (List.disjoint_of_nodup_append hnodup) hmem
      List.mem_cons_self
    have hsplit : l ++ [node] ++ elems = l ++ node :: elems := List.append_cons .. |>.symm
    have hrest := ih (l := l ++ [node]) (hsplit ▸ hnodup)
    rw [hsplit] at hrest
    rw [List.map_cons, perform, specStep, if_neg hnode, Option.bind_some]
    simp only [hrest]
    rfl

/-- The number of the nodes of a list with `2 ^ 32` nodes is 0. -/
theorem fNumNodes_wraps :
    ¬ ∀ (calls : List (PLCall Nat Unit)) (n : Nat), calls.length < n →
      Agrees (fun list l => Mirror list.fNext list.fPrev list.fHead list.fTail l ∧
        list.fNumNodes = l.length) (perform (step n) empty calls) (perform specStep [] calls) := by
  intro hall
  -- the number stays a variable, so that nothing is evaluated
  obtain ⟨size, hsize⟩ : ∃ size, size = kNumNodesSize := ⟨_, rfl⟩
  have hspec := perform_addNodeToTail (l := []) (U := Unit) (List.range size) (by
    rw [List.nil_append]
    exact List.nodup_range)
  have hlength : ((List.range size).map (PLCall.addNodeToTail (U := Unit))).length < size + 1 := by
    simp
  have hclaimed := hall _ _ hlength
  have hactual := perform_agrees _ hlength
  rw [hspec, List.nil_append] at hclaimed hactual
  obtain ⟨list, hrun, -, hcount⟩ := agrees_some hclaimed
  obtain ⟨list', hrun', hrepresents⟩ := agrees_some hactual
  have hsame : list = list' := (Prod.mk.inj (Option.some.inj (hrun.symm.trans hrun'))).2
  have hwrapped := hrepresents.count
  rw [← hsame, hcount, List.length_range, hsize, Nat.mod_self] at hwrapped
  exact Nat.ne_of_gt (Nat.two_pow_pos 32) hwrapped

end Steps

end PLDoubleLinkedList

end CxxFramework.Core
