import CxxFramework.Core.HeapOrder

/-!
# Runs of heap operations

A heap starts empty and takes any sequence of `Insert`, `ExtractMin`, `Remove` and
`Update`. As long as the operations that shift down find the heap small, every operation of
the run succeeds and keeps the order of the values, and with it the minimality of what
`PeekMin` and `ExtractMin` return, exactly when every `Insert` finds room and every `Remove`
meets `RemoveOk`.
-/

namespace CxxFramework.Core.Heap

open BinaryHeap Transition

/-- The operations of a run. An element gets its value with `SetValue` before `Insert`. -/
inductive Op where
  | insert (inElem : ElemPtr) (value : Int)
  | extractMin
  | remove (inElem : ElemPtr)
  | update (inElem : ElemPtr) (inValue : Int) (inFlag : UpdateFlag)
deriving DecidableEq, Repr

/-- One operation; `none` when an assertion fails. -/
def apply (this : HeapId) (w : HeapWorld) : Op → Option HeapWorld
  | .insert e v => insert this { w with elems := w.elems.setValue e v } e
  | .extractMin => (extractMin this w).map Prod.snd
  | .remove e => (remove this w e).map Prod.snd
  | .update e v flag => update w e v flag

/-- The callers' duty: only elements that are in no heap are inserted. -/
def Op.Legal (w : HeapWorld) : Op → Prop
  | .insert e _ => e ≠ nullptr ∧ w.elems.current e = none
  | _ => True

instance (w : HeapWorld) : (op : Op) → Decidable (op.Legal w)
  | .insert _ _ => inferInstanceAs (Decidable (_ ∧ _))
  | .extractMin | .remove _ | .update .. => inferInstanceAs (Decidable True)

/-- Heaps of any starting size with no elements. -/
def Fresh (this : HeapId) (w : HeapWorld) : Prop :=
  (∃ size < kIndexSize, w.heap = Heap.new size) ∧ ∀ e, w.elems.current e ≠ some this

/-- The operations on a heap. An operation that fails an assertion ends the run. -/
abbrev system (this : HeapId) : System (Option HeapWorld) Op :=
  .ofFallible (Fresh this) (fun w op => op.Legal w) (apply this)

variable {this : HeapId} {w w' : HeapWorld}

theorem apply_inv (h : Inv this w) {op : Op} (hs : apply this w op = some w') : Inv this w' := by
  cases op with
  | insert e v => exact insert_inv (h.setValue e v) hs
  | extractMin =>
    obtain ⟨⟨r, _⟩, hx, rfl⟩ := Option.map_eq_some_iff.mp hs
    exact extractMin_inv h hx
  | remove e =>
    obtain ⟨⟨r, _⟩, hx, rfl⟩ := Option.map_eq_some_iff.mp hs
    exact remove_inv h hx
  | update e v flag => exact update_inv h hs

theorem Fresh.inv (h : Fresh this w) : Inv this w := by
  obtain ⟨heap, elems⟩ := w
  obtain ⟨⟨size, hsize, rfl⟩, hfree⟩ := h
  exact .new hsize hfree

theorem Fresh.ordered (h : Fresh this w) : HeapOrder w := by
  intro i h2 hi
  obtain ⟨⟨size, -, hnew⟩, -⟩ := h
  rw [hnew] at hi
  simp only [Heap.new] at hi
  omega

/-- The operations that shift down find the heap small. -/
def Op.Small (w : HeapWorld) : Op → Prop
  | .insert _ _ => True
  | .extractMin | .remove _ | .update .. => w.heap.Small

/-- An insertion finds room. -/
def Op.Room (w : HeapWorld) : Op → Prop
  | .insert _ _ => w.heap.Room
  | .extractMin | .remove _ | .update .. => True

/-- An insertion finds room, and no removal puts a leaf below a larger parent. -/
def Op.Ok (w : HeapWorld) : Op → Prop
  | .insert _ _ => w.heap.Room
  | .remove e => RemoveOk w e
  | .extractMin | .update .. => True

instance (w : HeapWorld) : (op : Op) → Decidable (op.Small w)
  | .insert _ _ => inferInstanceAs (Decidable True)
  | .extractMin | .remove _ | .update .. => inferInstanceAs (Decidable w.heap.Small)

theorem Op.Ok.room {op : Op} (h : op.Ok w) : op.Room w := by
  cases op with
  | insert e v => exact h
  | extractMin => trivial
  | remove e => trivial
  | update e v flag => trivial

/-- In a small heap each legal operation that finds room runs without a failed assertion. -/
theorem apply_isSome (h : Inv this w) {op : Op} (legal : op.Legal w) (hsmall : op.Small w)
    (hroom : op.Room w) : (apply this w op).isSome := by
  cases op with
  | insert e v =>
    exact (insert_isSome_iff (h.setValue e v) legal.1 (by simpa using legal.2)).mpr hroom
  | extractMin => simpa [apply, extractMin] using extract_isSome h hsmall le_rfl
  | remove e => simpa [apply] using remove_isSome h hsmall e
  | update e v flag => exact update_isSome h hsmall e v flag

/-- An operation that succeeds has found room. -/
theorem room_of_apply (h : Inv this w) {op : Op} (legal : op.Legal w)
    (hs : apply this w op = some w') : op.Room w := by
  cases op with
  | insert e v =>
    refine (insert_isSome_iff (h.setValue e v) legal.1 (by simpa using legal.2)).mp ?_
    exact Option.isSome_iff_exists.mpr ⟨w', hs⟩
  | extractMin => trivial
  | remove e => trivial
  | update e v flag => trivial

/-- After an operation the values are in heap order, and `PeekMin` and `ExtractMin`
return an element of minimum value. -/
structure OrderKept (this : HeapId) (w : HeapWorld) (op : Op) (w' : HeapWorld) : Prop where
  ordered : HeapOrder w'
  peekMin : ∀ i, 1 ≤ i ∧ i < w'.heap.fFreeIndex →
    w'.elems.value w'.heap.peekMin ≤ w'.slotValue i
  extractMin : op = .extractMin → ∀ r, extractMin this w = some (r, w') →
    ∀ i, 1 ≤ i ∧ i < w.heap.fFreeIndex → w.elems.value r ≤ w.slotValue i

theorem apply_ordered_iff (h : Inv this w) (ho : HeapOrder w) {op : Op} (legal : op.Legal w)
    (hsmall : op.Small w) (hs : apply this w op = some w') : HeapOrder w' ↔ op.Ok w := by
  cases op with
  | insert e v =>
    refine iff_of_true ?_ (room_of_apply h legal hs)
    have hset : HeapOrder { w with elems := w.elems.setValue e v } :=
      Ordered.congr ho fun i h1 hi => by
        have hne : w.heap.fHeap i ≠ e := h.not_slot legal.2 ⟨h1, hi⟩
        simp [HeapWorld.slotValue, hne]
    exact insert_ordered (h.setValue e v) hset hs
  | extractMin =>
    obtain ⟨⟨r, _⟩, hx, rfl⟩ := Option.map_eq_some_iff.mp hs
    exact iff_of_true (extractMin_ordered h ho hsmall hx) trivial
  | remove e =>
    obtain ⟨⟨r, _⟩, hx, rfl⟩ := Option.map_eq_some_iff.mp hs
    exact remove_ordered_iff h ho hsmall hx
  | update e v flag => exact iff_of_true (update_ordered h ho hsmall hs) trivial

theorem HeapOrder.kept (h : Inv this w) (ho : HeapOrder w) (op : Op) (ho' : HeapOrder w') :
    OrderKept this w op w' where
  ordered := ho'
  peekMin _ hi := peekMin_le ho' hi
  extractMin _ _ hx _ hi := extractMin_le h ho hx hi

/-- A run from an empty heap whose operations find the heap small succeeds and keeps the heap
order exactly when all its insertions find room and all its removals are of elements whose slot
the last leaf may take. -/
theorem run_ordered_iff (this : HeapId) {w : HeapWorld} (fresh : Fresh this w) (ops : List Op)
    (hsmall : (system this).Meets (System.Before fun w op => op.Small w) (some w) ops) :
    (system this).Keeps (System.Succeeds (OrderKept this)) (some w) ops ↔
      (system this).Meets (System.Before fun w op => op.Ok w) (some w) ops := by
  refine hsmall.succeeds_iff (fun w => Inv this w ∧ HeapOrder w) ?_ ?_ ⟨fresh.inv, fresh.ordered⟩
  · rintro w op ⟨h, ho⟩ legal hsmall hok
    obtain ⟨w', hs⟩ := Option.isSome_iff_exists.mp (apply_isSome h legal hsmall hok.room)
    have ho' := (apply_ordered_iff h ho legal hsmall hs).mpr hok
    exact ⟨w', hs, ho.kept h op ho', apply_inv h hs, ho'⟩
  · rintro w op w' ⟨h, ho⟩ legal hsmall hs hP
    exact (apply_ordered_iff h ho legal hsmall hs).mp hP.ordered

/-- A fresh heap of starting size 2; no element is in any heap. -/
def freshWorld : HeapWorld := ⟨Heap.new 2, fun _ => ⟨0, none⟩⟩

theorem freshWorld_fresh (this : HeapId) : Fresh this freshWorld :=
  ⟨⟨2, by decide, rfl⟩, fun _ => by simp [freshWorld, Elems.current]⟩

/-- Two insertions, after which the array grows, a removal and an update. -/
def freshRun : List Op :=
  [.insert 1 5, .insert 2 3, .insert 3 4, .remove 1, .update 2 7 {}, .extractMin]

theorem run_ordered_iff_fresh :
    (system 1).Keeps (System.Succeeds (OrderKept 1)) (some freshWorld) freshRun ↔
      (system 1).Meets (System.Before fun w op => op.Ok w) (some freshWorld) freshRun := by
  refine run_ordered_iff 1 (freshWorld_fresh 1) freshRun ?_
  decide +kernel

/-- Seven insertions in heap order, then the removal of the element in slot 4: the last
leaf, of value 4, takes the slot below the value 10. -/
def misplacedLeaf : List Op :=
  [.insert 1 1, .insert 2 10, .insert 3 2, .insert 4 11, .insert 5 12, .insert 6 3, .insert 7 4] ++
    [.remove 4]

theorem misplacedLeaf_not_ordered :
    ¬ (system 1).Keeps (System.Succeeds (OrderKept 1)) (some freshWorld) misplacedLeaf := by
  intro keeps
  have hrun : ((misplacedLeaf.foldlM
      (fun (w : HeapWorld) (op : Op) => if op.Legal w then apply 1 w op else none) freshWorld).map
      fun w => (w.slotValue 2, w.slotValue 4, w.heap.fFreeIndex)) = some (10, 4, 7) := by
    decide +kernel
  obtain ⟨w, hw, hval⟩ := Option.map_eq_some_iff.mp hrun
  obtain ⟨_, _, _, _, -, heq, hkept⟩ := keeps.last (System.exec_ofFallible hw)
  obtain rfl := Option.some.inj heq
  obtain ⟨h2, h4, hfree⟩ : w.slotValue 2 = 10 ∧ w.slotValue 4 = 4 ∧ w.heap.fFreeIndex = 7 := by
    simpa using hval
  have hedge := hkept.ordered 4 (by decide) (by omega)
  simp only [show 4 / 2 = 2 from rfl] at hedge
  omega

end CxxFramework.Core.Heap
