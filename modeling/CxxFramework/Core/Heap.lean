import CxxFramework.Library.BinaryHeap
import CxxFramework.Library.Transition
import Mathlib.Algebra.Group.Int.Defs
import Mathlib.Algebra.Group.Nat.Defs
import Mathlib.Data.Int.Order.Basic

/-!
# Heap

The array heap of element pointers that orders the timers of the task threads and
of the idle task thread. Slot 0 is unused, the elements fill the slots
`1 .. fFreeIndex - 1`, and an element remembers the heap it is in.

The elements live outside the heap, in a memory `Elems` that every operation reads
and updates. A failed `Assert` is the result `none`. Indices and sizes are `UInt32`
values, so that the size of an array of `2 ^ 31` slots doubles to `0`.
-/

namespace CxxFramework.Core

open BinaryHeap

/-- A `HeapElem *`; `0` is the null pointer. -/
abbrev ElemPtr := Nat

def nullptr : ElemPtr := 0

/-- The address of a `Heap`. -/
abbrev HeapId := Nat

structure HeapElem where
  fValue : Int
  fCurrentHeap : Option HeapId
deriving DecidableEq, Repr

def HeapElem.isMemberOfAnyHeap (e : HeapElem) : Bool := e.fCurrentHeap.isSome

/-- The elements that pointers refer to. -/
abbrev Elems := ElemPtr → HeapElem

namespace Elems

def setValue (elems : Elems) (e : ElemPtr) (newValue : Int) : Elems :=
  Function.update elems e { elems e with fValue := newValue }

def setCurrentHeap (elems : Elems) (e : ElemPtr) (heap : Option HeapId) : Elems :=
  Function.update elems e { elems e with fCurrentHeap := heap }

/-- The value of the element behind a pointer. -/
def value (elems : Elems) (e : ElemPtr) : Int := (elems e).fValue

/-- The heap that the element behind a pointer is in. -/
def current (elems : Elems) (e : ElemPtr) : Option HeapId := (elems e).fCurrentHeap

@[simp] theorem value_setCurrentHeap (elems : Elems) (e : ElemPtr) (heap : Option HeapId) :
    (elems.setCurrentHeap e heap).value = elems.value := by
  funext x; by_cases h : x = e <;> simp [value, setCurrentHeap, h]

@[simp] theorem current_setValue (elems : Elems) (e : ElemPtr) (v : Int) :
    (elems.setValue e v).current = elems.current := by
  funext x; by_cases h : x = e <;> simp [current, setValue, h]

@[simp] theorem value_setValue (elems : Elems) (e : ElemPtr) (v : Int) :
    (elems.setValue e v).value = Function.update elems.value e v := by
  funext x; by_cases h : x = e <;> simp [value, setValue, h]

@[simp] theorem current_setCurrentHeap (elems : Elems) (e : ElemPtr) (heap : Option HeapId) :
    (elems.setCurrentHeap e heap).current = Function.update elems.current e heap := by
  funext x; by_cases h : x = e <;> simp [current, setCurrentHeap, h]

end Elems

/-- The number of values of a `UInt32`. -/
def kIndexSize : Nat := 2 ^ 32

structure Heap where
  fHeap : Nat → ElemPtr
  fFreeIndex : Nat
  fArraySize : Nat

/-- One heap together with the elements it points to. -/
structure HeapWorld where
  heap : Heap
  elems : Elems

namespace Heap

/-! ## Operations -/

/-- `Heap::Heap(inStartSize)` -/
def new (inStartSize : Nat) : Heap where
  fHeap _ := nullptr
  fFreeIndex := 1
  fArraySize := if inStartSize < 2 then 2 else inStartSize

def currentHeapSize (h : Heap) : Nat := h.fFreeIndex - 1

def peekMin (h : Heap) : ElemPtr := if h.currentHeapSize > 0 then h.fHeap 1 else nullptr

/-- `Heap::ShiftUp`: `swapPos` moves up the chain while it is less than its parent. -/
def shiftUp (elems : Elems) (fHeap : Nat → ElemPtr) (swapPos : Nat) : Nat → ElemPtr :=
  if 1 < swapPos then
    let nextSwapPos := swapPos / 2
    if elems.value (fHeap swapPos) < elems.value (fHeap nextSwapPos) then
      shiftUp elems (swap fHeap swapPos nextSwapPos) nextSwapPos
    else fHeap
  else fHeap
termination_by swapPos

/-- The children of a slot, as `Heap::ShiftDown` computes them. -/
def leftChild (parent : Nat) : Nat := parent * 2 % kIndexSize

def rightChild (parent : Nat) : Nat := (parent * 2 + 1) % kIndexSize

/-- The slot `Heap::ShiftDown` calls `greatest`: the least of a parent and its children. -/
def greatest (elems : Elems) (fFreeIndex : Nat) (fHeap : Nat → ElemPtr) (parent : Nat) : Nat :=
  let greatest :=
    if leftChild parent < fFreeIndex ∧
        elems.value (fHeap (leftChild parent)) < elems.value (fHeap parent) then
      leftChild parent
    else parent
  if rightChild parent < fFreeIndex ∧
      elems.value (fHeap (rightChild parent)) < elems.value (fHeap greatest) then
    rightChild parent
  else greatest

/-- `Heap::ShiftDown`: `parent` moves down the chain while a child is less than it. None if
the loop reads the unused slot, or goes on after `turns` turns: then an index has wrapped. -/
def shiftDown (elems : Elems) (fFreeIndex : Nat) :
    (turns : Nat) → (fHeap : Nat → ElemPtr) → (parent : Nat) → Option (Nat → ElemPtr)
  | 0, _, _ => none
  | turns + 1, fHeap, parent =>
    if parent < fFreeIndex then
      if leftChild parent = 0 then none
      else if greatest elems fFreeIndex fHeap parent = parent then some fHeap
      else
        shiftDown elems fFreeIndex turns
          (swap fHeap parent (greatest elems fFreeIndex fHeap parent))
          (greatest elems fFreeIndex fHeap parent)
    else some fHeap

/-- The array size once there is room for one more element. -/
def grownSize (h : Heap) : Nat :=
  if h.fFreeIndex ≥ h.fArraySize then h.fArraySize * 2 % kIndexSize else h.fArraySize

/-- `Heap::Insert`; none also if the elements do not fit in the array after it has grown. -/
def insert (this : HeapId) (w : HeapWorld) (inElem : ElemPtr) : Option HeapWorld :=
  if inElem = nullptr then none
  else if w.elems.current inElem ≠ none then none
  else if w.heap.grownSize ≤ w.heap.fFreeIndex then none
  else
    let fHeap := Function.update w.heap.fHeap w.heap.fFreeIndex inElem
    some
      { heap :=
          { fHeap := shiftUp w.elems fHeap w.heap.fFreeIndex
            fFreeIndex := (w.heap.fFreeIndex + 1) % kIndexSize
            fArraySize := w.heap.grownSize }
        elems := w.elems.setCurrentHeap inElem (some this) }

/-- `Heap::Extract`: the last leaf fills the place of the victim and is shifted down. -/
def extract (this : HeapId) (w : HeapWorld) (inIndex : Nat) : Option (ElemPtr × HeapWorld) :=
  if w.heap.fFreeIndex ≤ inIndex then some (nullptr, w)
  else
    let victim := w.heap.fHeap inIndex
    if w.elems.current victim ≠ some this then none
    else
      let elems := w.elems.setCurrentHeap victim none
      let fHeap := Function.update w.heap.fHeap inIndex (w.heap.fHeap (w.heap.fFreeIndex - 1))
      let fFreeIndex := w.heap.fFreeIndex - 1
      (shiftDown elems fFreeIndex (fFreeIndex + 1) fHeap inIndex).map fun fHeap =>
        (victim, { heap := { w.heap with fHeap, fFreeIndex }, elems })

def extractMin (this : HeapId) (w : HeapWorld) : Option (ElemPtr × HeapWorld) :=
  extract this w 1

/-- The search loop of `Remove` and `Update`: the first slot from `theIndex` on that
holds `inElem`, or `fFreeIndex`. -/
def locate (h : Heap) (inElem : ElemPtr) (theIndex : Nat) : Nat :=
  if theIndex < h.fFreeIndex then
    if inElem = h.fHeap theIndex then theIndex else locate h inElem (theIndex + 1)
  else theIndex
termination_by h.fFreeIndex - theIndex

/-- `Heap::Remove` -/
def remove (this : HeapId) (w : HeapWorld) (inElem : ElemPtr) : Option (ElemPtr × HeapWorld) :=
  if w.heap.fFreeIndex ≤ 1 ∨ inElem = nullptr then some (nullptr, w)
  else if !(w.elems inElem).isMemberOfAnyHeap then some (nullptr, w)
  else
    let theIndex := w.heap.locate inElem 1
    if theIndex = w.heap.fFreeIndex then some (nullptr, w)
    else extract this w theIndex

/-- The `inFlag` bits of `Heap::Update`. -/
structure UpdateFlag where
  expectUp : Bool := false
  expectDown : Bool := false
deriving DecidableEq, Repr

/-- `Heap::Update` -/
def update (w : HeapWorld) (inElem : ElemPtr) (inValue : Int) (inFlag : UpdateFlag) :
    Option HeapWorld :=
  if w.heap.fFreeIndex ≤ 1 ∨ inElem = nullptr then some w
  else
    let theIndex := w.heap.locate inElem 1
    if theIndex = w.heap.fFreeIndex then some w
    else if inValue < w.elems.value (w.heap.fHeap theIndex) then
      if inFlag.expectDown then some w
      else
        let elems := w.elems.setValue (w.heap.fHeap theIndex) inValue
        some { heap := { w.heap with fHeap := shiftUp elems w.heap.fHeap theIndex }, elems }
    else if inValue > w.elems.value (w.heap.fHeap theIndex) then
      if inFlag.expectUp then some w
      else
        let elems := w.elems.setValue (w.heap.fHeap theIndex) inValue
        (shiftDown elems w.heap.fFreeIndex (w.heap.fFreeIndex + 1) w.heap.fHeap theIndex).map
          fun fHeap => { heap := { w.heap with fHeap }, elems }
    else some w

end Heap

end CxxFramework.Core
