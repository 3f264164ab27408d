import CxxFramework.Core.Heap

/-!
# Heap order

What the heap operations do to the slots and to the order of the values in them.
`Inv` ties the slots to the `fCurrentHeap` fields of the elements and holds after
every operation. The order of the values survives an insertion, an extraction of
the minimum and an update; it survives the removal of an inner slot exactly when the
last leaf, which takes that slot, is not less than the parent of the slot.

An insertion needs `Room`: an array of `2 ^ 31` slots cannot grow. The operations that
shift down are followed in heaps that are `Small`, in which the index of no child wraps.
-/

namespace CxxFramework.Core

open BinaryHeap Transition

/-- The values in the slots. -/
def HeapWorld.slotValue (w : HeapWorld) : Nat → Int := w.elems.value ∘ w.heap.fHeap

namespace Heap

variable {this : HeapId} {w w' : HeapWorld} {elems : Elems} {fHeap : Nat → ElemPtr} {k n : Nat}

/-! ## Shifting -/

theorem shiftUp_rearranged (hk : 1 ≤ k ∧ k < n) : Rearranged n fHeap (shiftUp elems fHeap k) := by
  fun_induction shiftUp elems fHeap k with
  | case1 fHeap k h1 next hlt ih =>
    have hnext : 1 ≤ next ∧ next < n := by omega
    exact (Rearranged.swap fHeap hk hnext).trans (ih hnext)
  | case2 => exact .refl n _
  | case3 => exact .refl n _

theorem shiftUp_ordered (hk : k < n) (h : OrderedBelow (elems.value ∘ fHeap) n k) :
    Ordered (elems.value ∘ shiftUp elems fHeap k) n := by
  fun_induction shiftUp elems fHeap k with
  | case1 fHeap k h1 next hlt ih =>
    refine ih (by omega) ?_
    rw [comp_swap]
    exact h.swap (by omega) hk hlt
  | case2 fHeap k h1 next hlt => exact h.done fun _ => not_lt.mp hlt
  | case3 fHeap k h1 => exact h.done fun _ => absurd ‹2 ≤ k› (by omega)

/-- No slot in use has a child whose index wraps. -/
def Small (h : Heap) : Prop := h.fFreeIndex ≤ 2 ^ 31

/-- The next element finds a slot, in a larger array if need be. -/
def Room (h : Heap) : Prop := h.fFreeIndex < h.fArraySize ∨ h.fArraySize < 2 ^ 31

instance (h : Heap) : Decidable h.Small := inferInstanceAs (Decidable (_ ≤ _))

instance (h : Heap) : Decidable h.Room := inferInstanceAs (Decidable (_ ∨ _))

theorem leftChild_eq (hn : n ≤ 2 ^ 31) (hk : k < n) : leftChild k = k * 2 :=
  Nat.mod_eq_of_lt (by rw [kIndexSize]; omega)

theorem rightChild_eq (hn : n ≤ 2 ^ 31) (hk : k < n) : rightChild k = k * 2 + 1 :=
  Nat.mod_eq_of_lt (by rw [kIndexSize]; omega)

theorem greatest_cases (elems : Elems) (fHeap : Nat → ElemPtr) (hleft : leftChild k ≠ 0) :
    greatest elems n fHeap k = k ∨
      (1 ≤ greatest elems n fHeap k ∧ greatest elems n fHeap k < n) := by
  have hright : rightChild k ≠ 0 := by
    unfold rightChild kIndexSize
    omega
  dsimp only [greatest]
  split_ifs <;> omega

/-- Either the parent is least and stays, or a least child takes its place. -/
theorem greatest_spec (elems : Elems) (fHeap : Nat → ElemPtr) (hn : n ≤ 2 ^ 31)
    (hk : 1 ≤ k ∧ k < n) :
    (greatest elems n fHeap k = k ∧
      ∀ i, 2 ≤ i → i < n → i / 2 = k → elems.value (fHeap k) ≤ elems.value (fHeap i)) ∨
    (2 ≤ greatest elems n fHeap k ∧ greatest elems n fHeap k < n ∧
      greatest elems n fHeap k / 2 = k ∧
      elems.value (fHeap (greatest elems n fHeap k)) < elems.value (fHeap k) ∧
      ∀ i, 2 ≤ i → i < n → i / 2 = k →
        elems.value (fHeap (greatest elems n fHeap k)) ≤ elems.value (fHeap i)) := by
  have children : ∀ i, i / 2 = k → i = k * 2 ∨ i = k * 2 + 1 := by omega
  dsimp only [greatest]
  rw [leftChild_eq hn hk.2, rightChild_eq hn hk.2]
  split_ifs with hl hr hr
  · refine .inr ⟨by omega, hr.1, by omega, by omega, fun i h2 hi hik => ?_⟩
    rcases children i hik with rfl | rfl <;> omega
  · refine .inr ⟨by omega, hl.1, by omega, hl.2, fun i h2 hi hik => ?_⟩
    rcases children i hik with rfl | rfl
    · exact le_rfl
    · exact not_lt.mp fun hlt => hr ⟨hi, hlt⟩
  · refine .inr ⟨by omega, hr.1, by omega, hr.2, fun i h2 hi hik => ?_⟩
    rcases children i hik with rfl | rfl
    · exact hr.2.le.trans (not_lt.mp fun hlt => hl ⟨hi, hlt⟩)
    · exact le_rfl
  · refine .inl ⟨rfl, fun i h2 hi hik => ?_⟩
    rcases children i hik with rfl | rfl
    · exact not_lt.mp fun hlt => hl ⟨hi, hlt⟩
    · exact not_lt.mp fun hlt => hr ⟨hi, hlt⟩

theorem shiftDown_rearranged {g : Nat → ElemPtr} {turns : Nat} (hk : 1 ≤ k)
    (hs : shiftDown elems n turns fHeap k = some g) : Rearranged n fHeap g := by
  fun_induction shiftDown elems n turns fHeap k with
  | case1 => cases hs
  | case2 => cases hs
  | case3 turns fHeap k hkn hleft hg =>
    obtain rfl := Option.some.inj hs
    exact .refl n _
  | case4 turns fHeap k hkn hleft hg ih =>
    have hc := (greatest_cases elems fHeap hleft).resolve_left hg
    exact (Rearranged.swap fHeap ⟨hk, hkn⟩ hc).trans (ih hc.1 hs)
  | case5 turns fHeap k hkn =>
    obtain rfl := Option.some.inj hs
    exact .refl n _

/-- In a small heap the loop ends: it goes down the tree. -/
theorem shiftDown_isSome {turns : Nat} (hn : n ≤ 2 ^ 31) (hk : 1 ≤ k) (hturns : n - k < turns) :
    (shiftDown elems n turns fHeap k).isSome := by
  fun_induction shiftDown elems n turns fHeap k with
  | case1 => omega
  | case2 turns fHeap k hkn hleft =>
    rw [leftChild_eq hn hkn] at hleft
    omega
  | case3 => rfl
  | case4 turns fHeap k hkn hleft hg ih =>
    rcases greatest_spec elems fHeap hn ⟨hk, hkn⟩ with ⟨hs, _⟩ | ⟨h2, hc, hp, _⟩
    · exact absurd hs hg
    · exact ih (by omega) (by omega)
  | case5 => rfl

theorem shiftDown_ordered {g : Nat → ElemPtr} {turns : Nat} (hn : n ≤ 2 ^ 31) (hk : 1 ≤ k)
    (h : OrderedAbove (elems.value ∘ fHeap) n k) (hs : shiftDown elems n turns fHeap k = some g) :
    Ordered (elems.value ∘ g) n := by
  fun_induction shiftDown elems n turns fHeap k with
  | case1 => cases hs
  | case2 => cases hs
  | case3 turns fHeap k hkn hleft hg =>
    obtain rfl := Option.some.inj hs
    rcases greatest_spec elems fHeap hn ⟨hk, hkn⟩ with ⟨_, hle⟩ | ⟨_, _, hp, _⟩
    · exact h.done hle
    · omega
  | case4 turns fHeap k hkn hleft hg ih =>
    rcases greatest_spec elems fHeap hn ⟨hk, hkn⟩ with ⟨hstay, _⟩ | ⟨h2, hc, hp, hlt, hle⟩
    · exact absurd hstay hg
    · refine ih (by omega) ?_ hs
      rw [comp_swap]
      exact h.swap h2 hc hp hlt hle
  | case5 turns fHeap k hkn =>
    obtain rfl := Option.some.inj hs
    exact h.done fun i _ hi hik => absurd hi (by omega)

/-- A slot that is not larger than its children stays where it is. -/
theorem shiftDown_stays {g : Nat → ElemPtr} {turns : Nat} (hn : n ≤ 2 ^ 31) (hk : 1 ≤ k ∧ k < n)
    (h : ∀ i, 2 ≤ i → i < n → i / 2 = k → elems.value (fHeap k) ≤ elems.value (fHeap i))
    (hs : shiftDown elems n turns fHeap k = some g) : g = fHeap := by
  have hstay : greatest elems n fHeap k = k := by
    rcases greatest_spec elems fHeap hn hk with ⟨hstay, _⟩ | ⟨h2, hc, hp, hlt, _⟩
    · exact hstay
    · exact absurd (h _ h2 hc hp) (not_le.mpr hlt)
  cases turns with
  | zero => cases hs
  | succ turns =>
    rw [shiftDown, if_pos hk.2, if_pos hstay] at hs
    split_ifs at hs
    exact (Option.some.inj hs).symm

/-! ## Membership -/

/-- The slots in use hold distinct elements, and exactly those whose `fCurrentHeap`
is this heap. -/
structure Inv (this : HeapId) (w : HeapWorld) : Prop where
  free_pos : 1 ≤ w.heap.fFreeIndex
  size : 2 ≤ w.heap.fArraySize ∧ w.heap.fFreeIndex ≤ w.heap.fArraySize
  bound : w.heap.fArraySize < kIndexSize
  member : ∀ i, 1 ≤ i ∧ i < w.heap.fFreeIndex →
    w.heap.fHeap i ≠ nullptr ∧ w.elems.current (w.heap.fHeap i) = some this
  inj : ∀ i j, 1 ≤ i ∧ i < w.heap.fFreeIndex → 1 ≤ j ∧ j < w.heap.fFreeIndex →
    w.heap.fHeap i = w.heap.fHeap j → i = j
  onto : ∀ e, w.elems.current e = some this →
    ∃ i, (1 ≤ i ∧ i < w.heap.fFreeIndex) ∧ w.heap.fHeap i = e

theorem Inv.new {inStartSize : Nat} (hsize : inStartSize < kIndexSize)
    (h : ∀ e, elems.current e ≠ some this) : Inv this ⟨Heap.new inStartSize, elems⟩ where
  free_pos := le_rfl
  size := by dsimp only [Heap.new]; split_ifs <;> omega
  bound := by
    unfold kIndexSize at *
    dsimp only [Heap.new]
    split_ifs <;> omega
  member i hi := by simp only [Heap.new] at hi; omega
  inj i j hi := by simp only [Heap.new] at hi; omega
  onto e he := absurd he (h e)

theorem Inv.rearrange (h : Inv this w) {g : Nat → ElemPtr}
    (hg : Rearranged w.heap.fFreeIndex w.heap.fHeap g) :
    Inv this { w with heap := { w.heap with fHeap := g } } where
  free_pos := h.free_pos
  size := h.size
  bound := h.bound
  member := (hg.forall_iff fun e => e ≠ nullptr ∧ w.elems.current e = some this).mpr h.member
  inj := hg.injOn h.inj
  onto e he := (hg.exists_iff (· = e)).mpr (h.onto e he)

theorem Inv.setValue (h : Inv this w) (e : ElemPtr) (v : Int) :
    Inv this { w with elems := w.elems.setValue e v } where
  free_pos := h.free_pos
  size := h.size
  bound := h.bound
  member := by simpa using h.member
  inj := h.inj
  onto := by simpa using h.onto

theorem Inv.not_slot (h : Inv this w) {e : ElemPtr} (he : w.elems.current e = none) {i : Nat}
    (hi : 1 ≤ i ∧ i < w.heap.fFreeIndex) : w.heap.fHeap i ≠ e := by
  rintro rfl
  simp [(h.member i hi).2] at he

theorem grownSize_lt (h : Inv this w) : w.heap.grownSize < kIndexSize := by
  have := h.bound
  unfold grownSize kIndexSize at *
  split_ifs <;> omega

theorem room_iff (h : Inv this w) : w.heap.Room ↔ w.heap.fFreeIndex < w.heap.grownSize := by
  have := h.size
  have := h.bound
  unfold Room grownSize kIndexSize at *
  split_ifs <;> omega

/-- Appending a free element as the last leaf. -/
theorem Inv.push (h : Inv this w) (hgrown : w.heap.fFreeIndex < w.heap.grownSize) {e : ElemPtr}
    (hne : e ≠ nullptr) (he : w.elems.current e = none) :
    Inv this
      { heap :=
          { fHeap := Function.update w.heap.fHeap w.heap.fFreeIndex e
            fFreeIndex := w.heap.fFreeIndex + 1
            fArraySize := w.heap.grownSize }
        elems := w.elems.setCurrentHeap e (some this) } where
  free_pos := by simp
  size := by
    have := h.free_pos
    simp only
    omega
  bound := grownSize_lt h
  member i hi := by
    simp only at hi ⊢
    by_cases hlast : i = w.heap.fFreeIndex
    · subst hlast; simp [hne]
    · have hi' : 1 ≤ i ∧ i < w.heap.fFreeIndex := by omega
      simpa [hlast, h.not_slot he hi'] using h.member i hi'
  inj i j hi hj hij := by
    simp only at hi hj hij
    by_cases hli : i = w.heap.fFreeIndex <;> by_cases hlj : j = w.heap.fFreeIndex
    · omega
    · simp [hli, hlj] at hij
      exact absurd hij.symm (h.not_slot he (by omega))
    · simp [hli, hlj] at hij
      exact absurd hij (h.not_slot he (by omega))
    · simp [hli, hlj] at hij
      exact h.inj i j (by omega) (by omega) hij
  onto x hx := by
    by_cases hxe : x = e
    · exact ⟨w.heap.fFreeIndex, by have := h.free_pos; simp only; omega, by simp [hxe]⟩
    · obtain ⟨i, hi, rfl⟩ := h.onto x (by simpa [hxe] using hx)
      exact ⟨i, by simp only; omega, Function.update_of_ne (by omega) _ _⟩

/-- Filling the place of a victim with the last leaf. -/
theorem Inv.drop (h : Inv this w) (hk : 1 ≤ k ∧ k < w.heap.fFreeIndex) :
    Inv this
      { heap :=
          { w.heap with
            fHeap := Function.update w.heap.fHeap k (w.heap.fHeap (w.heap.fFreeIndex - 1))
            fFreeIndex := w.heap.fFreeIndex - 1 }
        elems := w.elems.setCurrentHeap (w.heap.fHeap k) none } where
  free_pos := by simp only; omega
  size := by have := h.size; simp only; omega
  bound := h.bound
  member i hi := by
    simp only at hi ⊢
    by_cases hik : i = k
    · subst hik
      have hne : w.heap.fHeap (w.heap.fFreeIndex - 1) ≠ w.heap.fHeap i := fun heq => by
        have := h.inj _ _ (by omega) (by omega) heq
        omega
      simpa [hne] using h.member (w.heap.fFreeIndex - 1) (by omega)
    · have hne : w.heap.fHeap i ≠ w.heap.fHeap k := fun heq => hik (h.inj _ _ (by omega) hk heq)
      simpa [hik, hne] using h.member i (by omega)
  inj i j hi hj hij := by
    simp only at hi hj hij
    by_cases hik : i = k <;> by_cases hjk : j = k
    · omega
    · simp [hik, hjk] at hij
      have := h.inj _ _ (by omega) (by omega) hij
      omega
    · simp [hik, hjk] at hij
      have := h.inj _ _ (by omega) (by omega) hij
      omega
    · simp [hik, hjk] at hij
      exact h.inj i j (by omega) (by omega) hij
  onto x hx := by
    by_cases hxk : x = w.heap.fHeap k
    · simp [hxk] at hx
    · obtain ⟨i, hi, rfl⟩ := h.onto x (by simpa [hxk] using hx)
      have hik : i ≠ k := by rintro rfl; exact hxk rfl
      by_cases hlast : i = w.heap.fFreeIndex - 1
      · subst hlast
        exact ⟨k, by simp only; omega, Function.update_self _ _ _⟩
      · exact ⟨i, by simp only; omega, Function.update_of_ne hik _ _⟩

/-! ## Operations -/

/-- The values in the slots are in heap order. -/
def HeapOrder (w : HeapWorld) : Prop := Ordered w.slotValue w.heap.fFreeIndex

theorem locate_spec (h : Heap) (e : ElemPtr) (i : Nat) (hi : i ≤ h.fFreeIndex) :
    (h.locate e i = h.fFreeIndex ∧ ∀ j, i ≤ j → j < h.fFreeIndex → h.fHeap j ≠ e) ∨
      (i ≤ h.locate e i ∧ h.locate e i < h.fFreeIndex ∧ h.fHeap (h.locate e i) = e) := by
  fun_induction locate h e i with
  | case1 i hlt he => exact .inr ⟨le_rfl, hlt, he.symm⟩
  | case2 i hlt he ih =>
    rcases ih (by omega) with ⟨heq, hall⟩ | ⟨hle, hlt', heq⟩
    · refine .inl ⟨heq, ?_⟩
      intro j hij hj
      by_cases hji : j = i
      · subst hji; exact fun h' => he h'.symm
      · exact hall j (by omega) hj
    · exact .inr ⟨by omega, hlt', heq⟩
  | case3 i hlt => exact .inl ⟨by omega, fun j hij hj => by omega⟩

/-- A located slot other than `fFreeIndex` holds the element sought. -/
theorem locate_found (h : Inv this w) {e : ElemPtr} (hne : w.heap.locate e 1 ≠ w.heap.fFreeIndex) :
    (1 ≤ w.heap.locate e 1 ∧ w.heap.locate e 1 < w.heap.fFreeIndex) ∧
      w.heap.fHeap (w.heap.locate e 1) = e := by
  rcases locate_spec w.heap e 1 h.free_pos with ⟨heq, _⟩ | ⟨h1, hlt, he⟩
  · exact absurd heq hne
  · exact ⟨⟨h1, hlt⟩, he⟩

theorem insert_cases (h : Inv this w) {e : ElemPtr} (hs : insert this w e = some w') :
    (e ≠ nullptr ∧ w.elems.current e = none ∧ w.heap.fFreeIndex < w.heap.grownSize) ∧
      w' =
        { heap :=
            { fHeap := shiftUp w.elems (Function.update w.heap.fHeap w.heap.fFreeIndex e)
                w.heap.fFreeIndex
              fFreeIndex := w.heap.fFreeIndex + 1
              fArraySize := w.heap.grownSize }
          elems := w.elems.setCurrentHeap e (some this) } := by
  unfold insert at hs
  split_ifs at hs with hnull hcur hgrown
  have hlt := not_le.mp hgrown
  have hmod : (w.heap.fFreeIndex + 1) % kIndexSize = w.heap.fFreeIndex + 1 :=
    Nat.mod_eq_of_lt ((Nat.succ_le_of_lt hlt).trans_lt (grownSize_lt h))
  dsimp only at hs
  rw [hmod] at hs
  exact ⟨⟨hnull, not_not.mp hcur, hlt⟩, (Option.some.inj hs).symm⟩

/-- For an element that is in no heap `Insert` only needs room. -/
theorem insert_isSome_iff (h : Inv this w) {e : ElemPtr} (hne : e ≠ nullptr)
    (he : w.elems.current e = none) : (insert this w e).isSome ↔ w.heap.Room := by
  rw [room_iff h]
  simp [insert, hne, he]

theorem insert_inv (h : Inv this w) {e : ElemPtr} (hs : insert this w e = some w') :
    Inv this w' := by
  obtain ⟨⟨hne, he, hgrown⟩, rfl⟩ := insert_cases h hs
  have hk : 1 ≤ w.heap.fFreeIndex ∧ w.heap.fFreeIndex < w.heap.fFreeIndex + 1 :=
    ⟨h.free_pos, Nat.lt_succ_self _⟩
  exact (h.push hgrown hne he).rearrange (shiftUp_rearranged hk)

theorem insert_ordered (h : Inv this w) (ho : HeapOrder w) {e : ElemPtr}
    (hs : insert this w e = some w') : HeapOrder w' := by
  obtain ⟨-, rfl⟩ := insert_cases h hs
  have hlast : Ordered (w.elems.value ∘ Function.update w.heap.fHeap w.heap.fFreeIndex e)
      w.heap.fFreeIndex :=
    ho.congr fun i _ hi => by simp [HeapWorld.slotValue, Function.update_of_ne hi.ne]
  simpa [HeapOrder, HeapWorld.slotValue] using shiftUp_ordered (Nat.lt_succ_self _) hlast.below_last

/-- The slots of the heap once the last leaf has filled the place of the victim in slot `k`,
and the elements then. -/
def filled (w : HeapWorld) (k : Nat) : Nat → ElemPtr :=
  Function.update w.heap.fHeap k (w.heap.fHeap (w.heap.fFreeIndex - 1))

def released (w : HeapWorld) (k : Nat) : Elems := w.elems.setCurrentHeap (w.heap.fHeap k) none

theorem extract_eq (h : Inv this w) (hk : 1 ≤ k ∧ k < w.heap.fFreeIndex) :
    extract this w k =
      (shiftDown (released w k) (w.heap.fFreeIndex - 1) (w.heap.fFreeIndex - 1 + 1)
        (filled w k) k).map fun g =>
          (w.heap.fHeap k,
            { heap := { w.heap with fHeap := g, fFreeIndex := w.heap.fFreeIndex - 1 }
              elems := released w k }) := by
  simp [extract, filled, released, not_le.mpr hk.2, (h.member k hk).2]

theorem extract_cases (h : Inv this w) (hk : 1 ≤ k ∧ k < w.heap.fFreeIndex) {r : ElemPtr}
    (hs : extract this w k = some (r, w')) :
    r = w.heap.fHeap k ∧ ∃ g,
      shiftDown (released w k) (w.heap.fFreeIndex - 1) (w.heap.fFreeIndex - 1 + 1)
        (filled w k) k = some g ∧
      w' =
        { heap := { w.heap with fHeap := g, fFreeIndex := w.heap.fFreeIndex - 1 }
          elems := released w k } := by
  rw [extract_eq h hk] at hs
  obtain ⟨g, hg, heq⟩ := Option.map_eq_some_iff.mp hs
  obtain ⟨rfl, rfl⟩ := Prod.mk.inj heq
  exact ⟨rfl, g, hg, rfl⟩

theorem extract_out (this : HeapId) (hk : w.heap.fFreeIndex ≤ k) :
    extract this w k = some (nullptr, w) := by
  simp [extract, hk]

theorem extract_isSome (h : Inv this w) (hsmall : w.heap.Small) (hk : 1 ≤ k) :
    (extract this w k).isSome := by
  by_cases hin : k < w.heap.fFreeIndex
  · rw [extract_eq h ⟨hk, hin⟩, Option.isSome_map]
    exact shiftDown_isSome ((Nat.sub_le _ _).trans hsmall) hk (by omega)
  · rw [extract_out this (not_lt.mp hin)]
    rfl

theorem extract_inv (h : Inv this w) (hk : 1 ≤ k) {r : ElemPtr}
    (hs : extract this w k = some (r, w')) : Inv this w' := by
  by_cases hin : k < w.heap.fFreeIndex
  · obtain ⟨-, g, hg, rfl⟩ := extract_cases h ⟨hk, hin⟩ hs
    exact (h.drop ⟨hk, hin⟩).rearrange (shiftDown_rearranged hk hg)
  · rw [extract_out this (not_lt.mp hin)] at hs
    obtain ⟨rfl, rfl⟩ := by simpa using hs
    exact h

theorem filled_value (w : HeapWorld) (k : Nat) :
    (released w k).value ∘ filled w k =
      Function.update w.slotValue k (w.slotValue (w.heap.fFreeIndex - 1)) := by
  funext i
  by_cases hik : i = k <;> simp [released, filled, HeapWorld.slotValue, hik]

/-- Extracting slot `k` keeps the order exactly when the last leaf may stand below the
parent of `k`. -/
theorem extract_ordered_iff (h : Inv this w) (ho : HeapOrder w) (hsmall : w.heap.Small)
    (hk : 1 ≤ k ∧ k < w.heap.fFreeIndex) {r : ElemPtr}
    (hs : extract this w k = some (r, w')) :
    HeapOrder w' ↔ (2 ≤ k → w.slotValue (k / 2) ≤ w.slotValue (w.heap.fFreeIndex - 1)) := by
  obtain ⟨-, g, hg, rfl⟩ := extract_cases h hk hs
  have hfilled := filled_value w k
  have hshort : Ordered w.slotValue (w.heap.fFreeIndex - 1) := ho.mono (Nat.sub_le _ _)
  have hn : w.heap.fFreeIndex - 1 ≤ 2 ^ 31 := (Nat.sub_le _ _).trans hsmall
  change Ordered ((released w k).value ∘ g) _ ↔ _
  constructor
  · intro hord h2
    by_contra hgt
    have hlt := not_le.mp hgt
    -- a leaf less than the parent is less than the children too, so it is not moved
    have hlast : k ≠ w.heap.fFreeIndex - 1 := by
      rintro rfl
      exact hgt (ho _ h2 hk.2)
    have hinner : k < w.heap.fFreeIndex - 1 := by omega
    have hstay : g = filled w k := by
      refine shiftDown_stays hn ⟨hk.1, hinner⟩ (fun i hi2 hi hik => ?_) hg
      have hchild : w.slotValue (k / 2) ≤ w.slotValue i :=
        (hshort k h2 (by omega)).trans (hik ▸ hshort i hi2 hi)
      have hleft := congrFun hfilled k
      have hright := congrFun hfilled i
      rw [Function.update_self] at hleft
      rw [Function.update_of_ne (by omega)] at hright
      exact hleft.le.trans (hlt.le.trans (hchild.trans hright.ge))
    rw [hstay, hfilled] at hord
    have hedge := hord k h2 hinner
    rw [Function.update_self, Function.update_of_ne (by omega)] at hedge
    exact hgt hedge
  · intro hle
    refine shiftDown_ordered hn hk.1 ?_ hg
    rw [hfilled]
    exact hshort.above_update fun h2 _ => hle h2

theorem extractMin_inv (h : Inv this w) {r : ElemPtr} (hs : extractMin this w = some (r, w')) :
    Inv this w' :=
  extract_inv h le_rfl hs

theorem extractMin_ordered (h : Inv this w) (ho : HeapOrder w) (hsmall : w.heap.Small)
    {r : ElemPtr} (hs : extractMin this w = some (r, w')) : HeapOrder w' := by
  by_cases hin : 1 < w.heap.fFreeIndex
  · exact (extract_ordered_iff h ho hsmall ⟨le_rfl, hin⟩ hs).mpr (by omega)
  · rw [extractMin, extract_out this (not_lt.mp hin)] at hs
    obtain ⟨rfl, rfl⟩ := by simpa using hs
    exact ho

/-- `PeekMin` returns an element of minimum value. -/
theorem peekMin_le (ho : HeapOrder w) {i : Nat} (hi : 1 ≤ i ∧ i < w.heap.fFreeIndex) :
    w.elems.value w.heap.peekMin ≤ w.slotValue i := by
  have hsize : w.heap.currentHeapSize > 0 := by dsimp only [currentHeapSize]; omega
  rw [peekMin, if_pos hsize]
  exact ho.root_le hi.1 hi.2

/-- `ExtractMin` returns an element of minimum value. -/
theorem extractMin_le (h : Inv this w) (ho : HeapOrder w) {r : ElemPtr}
    (hs : extractMin this w = some (r, w')) {i : Nat} (hi : 1 ≤ i ∧ i < w.heap.fFreeIndex) :
    w.elems.value r ≤ w.slotValue i := by
  obtain ⟨rfl, -⟩ := extract_cases h ⟨le_rfl, by omega⟩ hs
  exact ho.root_le hi.1 hi.2

/-- The removal of `e` keeps the order: the last leaf is not less than the parent of
the slot that holds `e`, if that slot is not the root. -/
def RemoveOk (w : HeapWorld) (e : ElemPtr) : Prop :=
  ∀ k, 2 ≤ k → k < w.heap.fFreeIndex → w.heap.fHeap k = e →
    w.slotValue (k / 2) ≤ w.slotValue (w.heap.fFreeIndex - 1)

/-- `Remove` either finds no slot and does nothing, or extracts the slot of the element. -/
theorem remove_cases (h : Inv this w) {e r : ElemPtr} (hs : remove this w e = some (r, w')) :
    (r = nullptr ∧ w' = w ∧ ∀ i, 1 ≤ i ∧ i < w.heap.fFreeIndex → w.heap.fHeap i ≠ e) ∨
      ∃ k, (1 ≤ k ∧ k < w.heap.fFreeIndex) ∧ w.heap.fHeap k = e ∧
        extract this w k = some (r, w') := by
  dsimp only [remove] at hs
  split_ifs at hs with hempty hmember hfound
  · obtain ⟨rfl, rfl⟩ := by simpa using hs
    refine .inl ⟨rfl, rfl, ?_⟩
    intro i hi heq
    rcases hempty with hfew | hnull
    · omega
    · exact (h.member i hi).1 (heq.trans hnull)
  · obtain ⟨rfl, rfl⟩ := by simpa using hs
    refine .inl ⟨rfl, rfl, ?_⟩
    intro i hi heq
    have hcur : (w.elems e).fCurrentHeap = some this := heq ▸ (h.member i hi).2
    simp [HeapElem.isMemberOfAnyHeap, hcur] at hmember
  · obtain ⟨rfl, rfl⟩ := by simpa using hs
    refine .inl ⟨rfl, rfl, ?_⟩
    intro i hi
    rcases locate_spec w.heap e 1 h.free_pos with ⟨_, hall⟩ | ⟨_, hlt, _⟩
    · exact hall i hi.1 hi.2
    · exact absurd hfound hlt.ne
  · obtain ⟨hk, he⟩ := locate_found h hfound
    exact .inr ⟨_, hk, he, hs⟩

theorem remove_inv (h : Inv this w) {e r : ElemPtr} (hs : remove this w e = some (r, w')) :
    Inv this w' := by
  rcases remove_cases h hs with ⟨_, rfl, _⟩ | ⟨k, hk, _, hx⟩
  · exact h
  · exact extract_inv h hk.1 hx

theorem remove_ordered_iff (h : Inv this w) (ho : HeapOrder w) (hsmall : w.heap.Small)
    {e r : ElemPtr} (hs : remove this w e = some (r, w')) : HeapOrder w' ↔ RemoveOk w e := by
  rcases remove_cases h hs with ⟨_, rfl, hnone⟩ | ⟨k, hk, he, hx⟩
  · exact ⟨fun _ k h2 hlt heq => absurd heq (hnone k ⟨by omega, hlt⟩), fun _ => ho⟩
  · rw [extract_ordered_iff h ho hsmall hk hx]
    constructor
    · intro hle k' h2 hlt heq
      obtain rfl := h.inj k' k ⟨by omega, hlt⟩ hk (heq.trans he.symm)
      exact hle h2
    · exact fun hok h2 => hok k h2 hk.2 he

theorem remove_isSome (h : Inv this w) (hsmall : w.heap.Small) (e : ElemPtr) :
    (remove this w e).isSome := by
  dsimp only [remove]
  split_ifs with hempty hmember hfound
  · rfl
  · rfl
  · rfl
  · exact extract_isSome h hsmall (locate_found h hfound).1.1

/-- `Update` either leaves the heap as it is, or decreases a value and shifts up, or
increases it and shifts down. -/
theorem update_cases (h : Inv this w) (e : ElemPtr) (v : Int) (flag : UpdateFlag) :
    update w e v flag = some w ∨
      ∃ k, (1 ≤ k ∧ k < w.heap.fFreeIndex) ∧ w.heap.fHeap k = e ∧
        ((v < w.slotValue k ∧ update w e v flag = some
            { heap := { w.heap with fHeap := shiftUp (w.elems.setValue e v) w.heap.fHeap k }
              elems := w.elems.setValue e v }) ∨
          (w.slotValue k < v ∧ update w e v flag =
            (shiftDown (w.elems.setValue e v) w.heap.fFreeIndex (w.heap.fFreeIndex + 1)
              w.heap.fHeap k).map fun g =>
                { heap := { w.heap with fHeap := g }, elems := w.elems.setValue e v })) := by
  dsimp only [update]
  split_ifs with hempty hfound hlt hflag hgt hflag
  · exact .inl rfl
  · exact .inl rfl
  · exact .inl rfl
  · obtain ⟨hk, he⟩ := locate_found h hfound
    exact .inr ⟨_, hk, he, .inl ⟨hlt, by rw [he]⟩⟩
  · exact .inl rfl
  · obtain ⟨hk, he⟩ := locate_found h hfound
    exact .inr ⟨_, hk, he, .inr ⟨hgt, by rw [he]⟩⟩
  · exact .inl rfl

theorem update_isSome (h : Inv this w) (hsmall : w.heap.Small) (e : ElemPtr) (v : Int)
    (flag : UpdateFlag) : (update w e v flag).isSome := by
  rcases update_cases h e v flag with heq | ⟨k, hk, -, ⟨_, heq⟩ | ⟨_, heq⟩⟩
  · rw [heq]; rfl
  · rw [heq]; rfl
  · rw [heq, Option.isSome_map]
    exact shiftDown_isSome hsmall hk.1 (by omega)

theorem update_inv (h : Inv this w) {e : ElemPtr} {v : Int} {flag : UpdateFlag}
    (hs : update w e v flag = some w') : Inv this w' := by
  rcases update_cases h e v flag with heq | ⟨k, hk, rfl, ⟨_, heq⟩ | ⟨_, heq⟩⟩ <;>
    rw [heq] at hs
  · exact Option.some.inj hs ▸ h
  · obtain rfl := Option.some.inj hs
    exact (h.setValue _ v).rearrange (shiftUp_rearranged hk)
  · obtain ⟨g, hg, rfl⟩ := Option.map_eq_some_iff.mp hs
    exact (h.setValue _ v).rearrange (shiftDown_rearranged hk.1 hg)

/-- Writing the value of the element in slot `k` changes that slot only. -/
theorem slotValue_setValue (h : Inv this w) (hk : 1 ≤ k ∧ k < w.heap.fFreeIndex) (v : Int) {i : Nat}
    (hi : 1 ≤ i ∧ i < w.heap.fFreeIndex) :
    ((w.elems.setValue (w.heap.fHeap k) v).value ∘ w.heap.fHeap) i =
      Function.update w.slotValue k v i := by
  by_cases hik : i = k
  · subst hik; simp
  · have hne : w.heap.fHeap i ≠ w.heap.fHeap k := fun heq => hik (h.inj i k hi hk heq)
    simp [hik, hne, HeapWorld.slotValue]

theorem update_ordered (h : Inv this w) (ho : HeapOrder w) (hsmall : w.heap.Small) {e : ElemPtr}
    {v : Int} {flag : UpdateFlag} (hs : update w e v flag = some w') : HeapOrder w' := by
  rcases update_cases h e v flag with heq | ⟨k, hk, rfl, ⟨hlt, heq⟩ | ⟨hgt, heq⟩⟩ <;>
    rw [heq] at hs
  · exact Option.some.inj hs ▸ ho
  · obtain rfl := Option.some.inj hs
    exact shiftUp_ordered hk.2
      ((ho.below_update hlt.le).congr fun i h1 hi => slotValue_setValue h hk v ⟨h1, hi⟩)
  · obtain ⟨g, hg, rfl⟩ := Option.map_eq_some_iff.mp hs
    refine shiftDown_ordered hsmall hk.1
      (OrderedAbove.congr (ho.above_update fun h2 _ => ?_) fun i h1 hi =>
        slotValue_setValue h hk v ⟨h1, hi⟩) hg
    exact (ho k h2 hk.2).trans hgt.le

end Heap

end CxxFramework.Core
