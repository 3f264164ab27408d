import Mathlib.Algebra.Group.End
import Mathlib.Order.Basic
import Mathlib.Order.Nat

/-!
# Order in an implicit binary tree

Slots `1 .. n - 1` of a sequence form a binary tree: the parent of slot `i` is
`i / 2`. The lemmas here say what one exchange of a slot with its parent, or with
its smaller child, does to a tree that is in order everywhere but at one slot.

## Main definitions

* `swap` — exchange the contents of two slots.
* `Rearranged` — one sequence is the other with the slots `1 .. n - 1` permuted.
* `Ordered` — every slot is at least its parent.
* `OrderedBelow`, `OrderedAbove` — the same, except that one slot may be too small
  for its parent, respectively too large for its children.
-/

namespace CxxFramework.BinaryHeap

/-! ## Exchanging slots -/

section Swap

variable {β γ : Type*}

/-- Exchange the contents of slots `i` and `j`. -/
def swap (f : Nat → β) (i j : Nat) : Nat → β :=
  Function.update (Function.update f i (f j)) j (f i)

theorem swap_eq_comp (f : Nat → β) (i j : Nat) : swap f i j = f ∘ Equiv.swap i j := by
  rw [Equiv.swap_comm, Equiv.comp_swap_eq_update]; rfl

@[simp] theorem swap_left (f : Nat → β) (i j : Nat) : swap f i j i = f j := by
  simp [swap_eq_comp]

@[simp] theorem swap_right (f : Nat → β) (i j : Nat) : swap f i j j = f i := by
  simp [swap_eq_comp]

theorem swap_of_ne {f : Nat → β} {i j k : Nat} (hi : k ≠ i) (hj : k ≠ j) :
    swap f i j k = f k := by
  simp [swap, hi, hj]

theorem comp_swap (g : β → γ) (f : Nat → β) (i j : Nat) : g ∘ swap f i j = swap (g ∘ f) i j := by
  simp [swap_eq_comp, Function.comp_assoc]

/-- `g` holds the contents of `f`, with the slots `1 .. n - 1` permuted among themselves. -/
def Rearranged (n : Nat) (f g : Nat → β) : Prop :=
  ∃ π : Equiv.Perm Nat, g = f ∘ π ∧ ∀ i, ¬ (1 ≤ i ∧ i < n) → π i = i

theorem Rearranged.refl (n : Nat) (f : Nat → β) : Rearranged n f f :=
  ⟨1, rfl, fun _ _ => rfl⟩

theorem Rearranged.trans {n : Nat} {f g h : Nat → β} (hfg : Rearranged n f g)
    (hgh : Rearranged n g h) : Rearranged n f h := by
  obtain ⟨π, rfl, hπ⟩ := hfg
  obtain ⟨ρ, rfl, hρ⟩ := hgh
  refine ⟨π * ρ, rfl, ?_⟩
  intro i hi
  rw [Equiv.Perm.mul_apply, hρ i hi, hπ i hi]

theorem Rearranged.swap {n i j : Nat} (f : Nat → β) (hi : 1 ≤ i ∧ i < n) (hj : 1 ≤ j ∧ j < n) :
    Rearranged n f (swap f i j) := by
  refine ⟨Equiv.swap i j, swap_eq_comp f i j, ?_⟩
  intro k hk
  exact Equiv.swap_apply_of_ne_of_ne (by rintro rfl; exact hk hi) (by rintro rfl; exact hk hj)

/-- A slot of the tree still lies in the tree after the rearrangement. -/
theorem perm_mem {n : Nat} {π : Equiv.Perm Nat} (hπ : ∀ i, ¬ (1 ≤ i ∧ i < n) → π i = i)
    {i : Nat} (hi : 1 ≤ i ∧ i < n) : 1 ≤ π i ∧ π i < n := by
  by_contra hout
  have hfix : π (π i) = π i := hπ _ hout
  exact hout (by rwa [π.injective hfix])

/-- A rearrangement has the same contents in the tree. -/
theorem Rearranged.exists_iff {n : Nat} {f g : Nat → β} (h : Rearranged n f g) (P : β → Prop) :
    (∃ i, (1 ≤ i ∧ i < n) ∧ P (g i)) ↔ ∃ i, (1 ≤ i ∧ i < n) ∧ P (f i) := by
  obtain ⟨π, rfl, hπ⟩ := h
  constructor
  · rintro ⟨i, hi, hP⟩
    exact ⟨π i, perm_mem hπ hi, hP⟩
  · rintro ⟨i, hi, hP⟩
    have hinv : ∀ i, ¬ (1 ≤ i ∧ i < n) → π.symm i = i := fun i hi => by
      rw [Equiv.symm_apply_eq, hπ i hi]
    exact ⟨π.symm i, perm_mem hinv hi, by simpa using hP⟩

theorem Rearranged.forall_iff {n : Nat} {f g : Nat → β} (h : Rearranged n f g) (P : β → Prop) :
    (∀ i, (1 ≤ i ∧ i < n) → P (g i)) ↔ ∀ i, (1 ≤ i ∧ i < n) → P (f i) := by
  have hneg := h.exists_iff (fun b => ¬ P b)
  constructor
  · intro hg i hi
    by_contra hP
    obtain ⟨j, hj, hPj⟩ := hneg.mpr ⟨i, hi, hP⟩
    exact hPj (hg j hj)
  · intro hf i hi
    by_contra hP
    obtain ⟨j, hj, hPj⟩ := hneg.mp ⟨i, hi, hP⟩
    exact hPj (hf j hj)

/-- Distinct contents stay distinct under a rearrangement. -/
theorem Rearranged.injOn {n : Nat} {f g : Nat → β} (h : Rearranged n f g)
    (inj : ∀ i j, 1 ≤ i ∧ i < n → 1 ≤ j ∧ j < n → f i = f j → i = j) :
    ∀ i j, 1 ≤ i ∧ i < n → 1 ≤ j ∧ j < n → g i = g j → i = j := by
  obtain ⟨π, rfl, hπ⟩ := h
  intro i j hi hj hij
  exact π.injective (inj _ _ (perm_mem hπ hi) (perm_mem hπ hj) hij)

end Swap

/-! ## Order -/

section Order

variable {α : Type*} [LinearOrder α] {v : Nat → α} {n k c : Nat}

/-- Every slot of the tree is at least its parent. -/
def Ordered (v : Nat → α) (n : Nat) : Prop :=
  ∀ i, 2 ≤ i → i < n → v (i / 2) ≤ v i

/-- In order except that slot `k` may be too small for its parent. -/
structure OrderedBelow (v : Nat → α) (n k : Nat) : Prop where
  order : ∀ i, 2 ≤ i → i < n → i ≠ k → v (i / 2) ≤ v i
  bypass : ∀ i, 2 ≤ i → i < n → i / 2 = k → 2 ≤ k → v (k / 2) ≤ v i

/-- In order except that slot `k` may be too large for its children. -/
structure OrderedAbove (v : Nat → α) (n k : Nat) : Prop where
  order : ∀ i, 2 ≤ i → i < n → i / 2 ≠ k → v (i / 2) ≤ v i
  bypass : ∀ i, 2 ≤ i → i < n → i / 2 = k → 2 ≤ k → v (k / 2) ≤ v i

/-- The root of an ordered tree holds a minimum. -/
theorem Ordered.root_le (h : Ordered v n) {i : Nat} (hi : 1 ≤ i) (hn : i < n) : v 1 ≤ v i := by
  induction i using Nat.strongRecOn with
  | _ i ih =>
    by_cases h1 : i = 1
    · rw [h1]
    · exact (ih (i / 2) (by omega) (by omega) (by omega)).trans (h i (by omega) hn)

theorem Ordered.mono (h : Ordered v n) {m : Nat} (hm : m ≤ n) : Ordered v m :=
  fun i h2 hi => h i h2 (hi.trans_le hm)

theorem Ordered.congr (h : Ordered v n) {w : Nat → α} (hw : ∀ i, 1 ≤ i → i < n → w i = v i) :
    Ordered w n := by
  intro i h2 hi
  rw [hw i (by omega) hi, hw (i / 2) (by omega) (by omega)]
  exact h i h2 hi

theorem OrderedBelow.congr (h : OrderedBelow v n k) {w : Nat → α}
    (hw : ∀ i, 1 ≤ i → i < n → w i = v i) : OrderedBelow w n k where
  order i h2 hi hne := by
    rw [hw i (by omega) hi, hw (i / 2) (by omega) (by omega)]
    exact h.order i h2 hi hne
  bypass i h2 hi hk h2k := by
    rw [hw i (by omega) hi, hw (k / 2) (by omega) (by omega)]
    exact h.bypass i h2 hi hk h2k

theorem OrderedAbove.congr (h : OrderedAbove v n k) {w : Nat → α}
    (hw : ∀ i, 1 ≤ i → i < n → w i = v i) : OrderedAbove w n k where
  order i h2 hi hne := by
    rw [hw i (by omega) hi, hw (i / 2) (by omega) (by omega)]
    exact h.order i h2 hi hne
  bypass i h2 hi hk h2k := by
    rw [hw i (by omega) hi, hw (k / 2) (by omega) (by omega)]
    exact h.bypass i h2 hi hk h2k

/-! ## Moving up -/

/-- A new last slot can only be too small for its parent. -/
theorem Ordered.below_last (h : Ordered v n) : OrderedBelow v (n + 1) n where
  order i h2 hi hne := h i h2 (by omega)
  bypass i h2 hi hk := by omega

/-- A slot whose content decreases can only be too small for its parent. -/
theorem Ordered.below_update (h : Ordered v n) {x : α} (hx : x ≤ v k) :
    OrderedBelow (Function.update v k x) n k where
  order i h2 hi hne := by
    rw [Function.update_of_ne hne]
    by_cases hk : i / 2 = k
    · rw [hk, Function.update_self]
      exact hx.trans (hk ▸ h i h2 hi)
    · rw [Function.update_of_ne hk]
      exact h i h2 hi
  bypass i h2 hi hk h2k := by
    rw [Function.update_of_ne (by omega), Function.update_of_ne (by omega)]
    exact (h k h2k (by omega)).trans (hk ▸ h i h2 hi)

theorem OrderedBelow.done (h : OrderedBelow v n k) (hk : 2 ≤ k → v (k / 2) ≤ v k) :
    Ordered v n := by
  intro i h2 hi
  by_cases hne : i = k
  · subst hne; exact hk h2
  · exact h.order i h2 hi hne

theorem OrderedBelow.swap (h : OrderedBelow v n k) (h2 : 2 ≤ k) (hk : k < n)
    (hlt : v k < v (k / 2)) : OrderedBelow (swap v k (k / 2)) n (k / 2) where
  order i hi hin hne := by
    by_cases hik : i = k
    · subst hik; simpa using hlt.le
    · rw [swap_of_ne hik hne]
      by_cases hp : i / 2 = k
      · rw [hp, swap_left]; exact h.bypass i hi hin hp h2
      · by_cases hq : i / 2 = k / 2
        · rw [hq, swap_right]; exact hlt.le.trans (hq ▸ h.order i hi hin hik)
        · rw [swap_of_ne hp hq]; exact h.order i hi hin hik
  bypass i hi hin hp hq := by
    rw [swap_of_ne (by omega) (by omega)]
    have hup : v (k / 2 / 2) ≤ v (k / 2) := h.order (k / 2) hq (by omega) (by omega)
    by_cases hik : i = k
    · subst hik; simpa using hup
    · rw [swap_of_ne hik (by omega)]
      exact hup.trans (hp ▸ h.order i hi hin hik)

/-! ## Moving down -/

/-- A slot whose content increases can only be too large for its children. -/
theorem Ordered.above_update (h : Ordered v n) {x : α} (hx : 2 ≤ k → k < n → v (k / 2) ≤ x) :
    OrderedAbove (Function.update v k x) n k where
  order i h2 hi hne := by
    rw [Function.update_of_ne hne]
    by_cases hk : i = k
    · subst hk; rw [Function.update_self]; exact hx h2 hi
    · rw [Function.update_of_ne hk]; exact h i h2 hi
  bypass i h2 hi hk h2k := by
    rw [Function.update_of_ne (by omega), Function.update_of_ne (by omega)]
    exact (h k h2k (by omega)).trans (hk ▸ h i h2 hi)

theorem OrderedAbove.done (h : OrderedAbove v n k)
    (hk : ∀ i, 2 ≤ i → i < n → i / 2 = k → v k ≤ v i) : Ordered v n := by
  intro i h2 hi
  by_cases hp : i / 2 = k
  · rw [hp]; exact hk i h2 hi hp
  · exact h.order i h2 hi hp

theorem OrderedAbove.swap (h : OrderedAbove v n k) (hc2 : 2 ≤ c) (hc : c < n) (hp : c / 2 = k)
    (hlt : v c < v k) (least : ∀ i, 2 ≤ i → i < n → i / 2 = k → v c ≤ v i) :
    OrderedAbove (swap v k c) n c where
  order i hi hin hne := by
    by_cases hik : i = k
    · subst hik
      rw [swap_left, swap_of_ne (by omega) hne]
      exact h.bypass c hc2 hc hp hi
    · by_cases hic : i = c
      · subst hic; rw [hp]; simpa using hlt.le
      · rw [swap_of_ne hik hic]
        by_cases hq : i / 2 = k
        · rw [hq, swap_left]; exact least i hi hin hq
        · rw [swap_of_ne hq hne]; exact h.order i hi hin hq
  bypass i hi hin hq _ := by
    rw [hp, swap_left, swap_of_ne (by omega) (by omega)]
    exact hq ▸ h.order i hi hin (by omega)

end Order

end CxxFramework.BinaryHeap
