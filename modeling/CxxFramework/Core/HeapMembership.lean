import CxxFramework.Core.HeapRun

/-!
# Membership in heaps

Any number of heaps share the elements. An element remembers in `fCurrentHeap` the heap
that it is in, and the slots of a heap hold the elements that were inserted into it and
not removed since.

A call is recorded with the pointer that it returned, so that a sequence of calls tells
by itself where every element is. `Tracks` compares this account with the slots and with
the `fCurrentHeap` fields.

Growing an array keeps all of this, but an array of `2 ^ 31` slots cannot grow.
-/

namespace CxxFramework.Core

open Transition Heap

/-- Any number of heaps, and the elements they point to. -/
structure Heaps where
  heaps : HeapId → Heap
  elems : Elems

/-- A call of a heap, and the pointer it returns: null if it returns nothing. -/
structure HeapCall where
  this : HeapId
  op : Heap.Op
  result : ElemPtr
deriving DecidableEq, Repr

namespace Heap

/-- One operation and the pointer it returns; `none` when an assertion fails. -/
def call (this : HeapId) (w : HeapWorld) : Op → Option (ElemPtr × HeapWorld)
  | .insert e v =>
    (insert this { w with elems := w.elems.setValue e v } e).map fun w => (nullptr, w)
  | .extractMin => extractMin this w
  | .remove e => remove this w e
  | .update e v flag => (update w e v flag).map fun w => (nullptr, w)

/-- The slots in use. -/
def InUse (h : Heap) (i : Nat) : Prop := 1 ≤ i ∧ i < h.fFreeIndex

theorem call_snd (this : HeapId) (w : HeapWorld) (op : Op) :
    (call this w op).map Prod.snd = apply this w op := by
  cases op with
  | insert e v => simp [call, apply]
  | extractMin => rfl
  | remove e => rfl
  | update e v flag => simp [call, apply]

end Heap

namespace Heaps

/-- One of the heaps together with the elements. -/
def world (s : Heaps) (this : HeapId) : HeapWorld := ⟨s.heaps this, s.elems⟩

/-- The heaps after one of them, and the elements, have changed. -/
def put (s : Heaps) (this : HeapId) (w : HeapWorld) : Heaps :=
  ⟨Function.update s.heaps this w.heap, w.elems⟩

def next (s : Heaps) (c : HeapCall) : Option Heaps :=
  match call c.this (s.world c.this) c.op with
  | some (r, w) => if r = c.result then some (s.put c.this w) else none
  | none => none

/-- New heaps of any starting sizes; no element is in a heap. -/
def Fresh (s : Heaps) : Prop :=
  (∀ this, ∃ size < kIndexSize, s.heaps this = Heap.new size) ∧ ∀ e, s.elems.current e = none

def system : System Heaps HeapCall := .ofPartial Fresh next

/-- The heap that each element has been inserted into and not removed from. -/
def account (inHeap : ElemPtr → Option HeapId) (c : HeapCall) : ElemPtr → Option HeapId :=
  match c.op with
  | .insert e _ => Function.update inHeap e (some c.this)
  | .extractMin | .remove _ => Function.update inHeap c.result none
  | .update .. => inHeap

/-- The account of a sequence of calls that starts with empty heaps. -/
def accounts (calls : List HeapCall) : ElemPtr → Option HeapId :=
  calls.foldl account fun _ => none

/-- The slots of each heap hold exactly the elements that are in it, each one once, and
`fCurrentHeap` names that heap. -/
structure Tracks (s : Heaps) (inHeap : ElemPtr → Option HeapId) : Prop where
  slots : ∀ this e, inHeap e = some this ↔
    ∃ i, (s.heaps this).InUse i ∧ (s.heaps this).fHeap i = e
  once : ∀ this i j, (s.heaps this).InUse i → (s.heaps this).InUse j →
    (s.heaps this).fHeap i = (s.heaps this).fHeap j → i = j
  current : ∀ this e, s.elems.current e = some this ↔
    ∃ i, (s.heaps this).InUse i ∧ (s.heaps this).fHeap i = e

/-- A removal returns its element if that is in the heap. A removal or an update of an
element that is not in the heap changes nothing. -/
structure Answers (s : Heaps) (c : HeapCall) (t : Heaps) : Prop where
  removed : ∀ e, c.op = .remove e → s.elems.current e = some c.this → c.result = e
  notRemoved : ∀ e, c.op = .remove e → s.elems.current e ≠ some c.this →
    c.result = nullptr ∧ t = s
  notUpdated : ∀ e v flag, c.op = .update e v flag → s.elems.current e ≠ some c.this → t = s

/-! ## One call -/

variable {s t : Heaps} {c : HeapCall} {inHeap : ElemPtr → Option HeapId} {this : HeapId}
  {w w' : HeapWorld} {e r : ElemPtr}

theorem next_cases (hs : next s c = some t) :
    ∃ w, call c.this (s.world c.this) c.op = some (c.result, w) ∧ t = s.put c.this w := by
  unfold next at hs
  split at hs
  next r w hcall =>
    split_ifs at hs with hr
    exact ⟨w, hr ▸ hcall, (Option.some.inj hs).symm⟩
  next => cases hs

/-- A heap with its own world put back is the same. -/
theorem put_world (s : Heaps) (this : HeapId) : s.put this (s.world this) = s := by
  simp [put, world]

/-- What an extraction of any slot does to the `fCurrentHeap` fields. -/
theorem extract_current (h : Inv this w) {k : Nat} (hk : w.heap.InUse k)
    (hs : extract this w k = some (r, w')) :
    r = w.heap.fHeap k ∧ w'.elems.current = Function.update w.elems.current r none := by
  obtain ⟨rfl, g, -, rfl⟩ := extract_cases h hk hs
  exact ⟨rfl, Elems.current_setCurrentHeap ..⟩

/-- An extraction of the minimum returns the root, or null if the heap is empty. -/
theorem extractMin_current (h : Inv this w) (hs : extractMin this w = some (r, w')) :
    (r = nullptr ∧ w' = w ∧ ∀ e, w.elems.current e ≠ some this) ∨
      (w.elems.current r = some this ∧
        w'.elems.current = Function.update w.elems.current r none) := by
  by_cases hin : 1 < w.heap.fFreeIndex
  · obtain ⟨hr, hcur⟩ := extract_current h ⟨le_rfl, hin⟩ hs
    refine .inr ⟨?_, hcur⟩
    rw [hr]
    exact (h.member 1 ⟨le_rfl, hin⟩).2
  · rw [extractMin, extract_out this (not_lt.mp hin)] at hs
    obtain ⟨rfl, rfl⟩ := by simpa using hs
    refine .inl ⟨rfl, rfl, ?_⟩
    intro e he
    obtain ⟨i, hi, -⟩ := h.onto e he
    omega

/-- A removal takes out its element, or finds that it is not in the heap. -/
theorem remove_current (h : Inv this w) (hs : remove this w e = some (r, w')) :
    (w.elems.current e ≠ some this ∧ r = nullptr ∧ w' = w) ∨
      (w.elems.current e = some this ∧ r = e ∧
        w'.elems.current = Function.update w.elems.current e none) := by
  rcases remove_cases h hs with ⟨hr, hw, hnone⟩ | ⟨k, hk, he, hx⟩
  · refine .inl ⟨?_, hr, hw⟩
    intro hcur
    obtain ⟨i, hi, hslot⟩ := h.onto e hcur
    exact hnone i hi hslot
  · obtain ⟨hr, hcur⟩ := extract_current h hk hx
    obtain rfl : r = e := hr.trans he
    refine .inr ⟨?_, rfl, hcur⟩
    rw [← he]
    exact (h.member k hk).2

theorem update_current (h : Inv this w) {v : Int} {flag : UpdateFlag}
    (hs : update w e v flag = some w') :
    w'.elems.current = w.elems.current ∧ (w.elems.current e ≠ some this → w' = w) := by
  rcases update_cases h e v flag with heq | ⟨k, hk, hslot, hcase⟩
  · obtain rfl : w = w' := Option.some.inj (heq.symm.trans hs)
    exact ⟨rfl, fun _ => rfl⟩
  · have hcur : w.elems.current e = some this := hslot ▸ (h.member k hk).2
    refine ⟨?_, fun hne => absurd hcur hne⟩
    rcases hcase with ⟨-, heq⟩ | ⟨-, heq⟩ <;> rw [heq] at hs
    · obtain rfl := Option.some.inj hs
      exact Elems.current_setValue ..
    · obtain ⟨g, -, rfl⟩ := Option.map_eq_some_iff.mp hs
      exact Elems.current_setValue ..

/-- An element that enters or leaves this heap is in no other, before and after. -/
theorem update_other {current : ElemPtr → Option HeapId} {x : ElemPtr} {v : Option HeapId}
    (hx : current x = some this ∨ current x = none) (hv : v = some this ∨ v = none)
    {other : HeapId} (hother : other ≠ this) (e : ElemPtr) :
    Function.update current x v e = some other ↔ current e = some other := by
  by_cases he : e = x
  · subst he
    rw [Function.update_self]
    rcases hx with hx | hx <;> rcases hv with hv | hv <;> simp [hx, hv, Ne.symm hother]
  · rw [Function.update_of_ne he]

/-- A call changes the `fCurrentHeap` fields as the account says, and only those of elements
that are in no heap or in this one. -/
theorem call_current (h : Inv this w) (hnull : w.elems.current nullptr = none) {op : Op}
    (hs : call this w op = some (r, w')) :
    w'.elems.current = account w.elems.current ⟨this, op, r⟩ ∧
      w'.elems.current nullptr = none ∧
      ∀ other ≠ this, ∀ e, w'.elems.current e = some other ↔ w.elems.current e = some other := by
  have hnot : ∀ x, Function.update w.elems.current x none nullptr = none := by
    intro x
    by_cases hx : nullptr = x
    · rw [hx, Function.update_self]
    · rw [Function.update_of_ne hx, hnull]
  cases op with
  | insert e v =>
    obtain ⟨w₁, hins, heq⟩ := Option.map_eq_some_iff.mp hs
    obtain ⟨rfl, rfl⟩ := Prod.mk.inj heq
    obtain ⟨⟨hne, hfree, -⟩, rfl⟩ := insert_cases (h.setValue e v) hins
    rw [Elems.current_setValue] at hfree
    have hcur := Elems.current_setCurrentHeap (w.elems.setValue e v) e (some this)
    rw [Elems.current_setValue] at hcur
    refine ⟨hcur, ?_, ?_⟩
    · rw [hcur, Function.update_of_ne (Ne.symm hne), hnull]
    · intro other hother x
      rw [hcur]
      exact update_other (.inr hfree) (.inl rfl) hother x
  | extractMin =>
    rcases extractMin_current h hs with ⟨rfl, rfl, -⟩ | ⟨hr, hcur⟩
    · refine ⟨?_, hnull, fun _ _ _ => Iff.rfl⟩
      exact (Function.update_eq_self_iff.mpr hnull.symm).symm
    · rw [hcur]
      exact ⟨rfl, hnot r, fun _ hother e => update_other (.inl hr) (.inr rfl) hother e⟩
  | remove e =>
    rcases remove_current h hs with ⟨-, rfl, rfl⟩ | ⟨he, rfl, hcur⟩
    · refine ⟨?_, hnull, fun _ _ _ => Iff.rfl⟩
      exact (Function.update_eq_self_iff.mpr hnull.symm).symm
    · rw [hcur]
      exact ⟨rfl, hnot r, fun _ hother e => update_other (.inl he) (.inr rfl) hother e⟩
  | update e v flag =>
    obtain ⟨w₁, hupdate, heq⟩ := Option.map_eq_some_iff.mp hs
    obtain ⟨rfl, rfl⟩ := Prod.mk.inj heq
    rw [(update_current h hupdate).1]
    exact ⟨rfl, hnull, fun _ _ _ => Iff.rfl⟩

theorem call_inv (h : Inv this w) {op : Op} (hs : call this w op = some (r, w')) :
    Inv this w' := by
  have hw : apply this w op = some w' := by
    rw [← call_snd, hs]
    rfl
  exact apply_inv h hw

end Heaps

/-- Only the `fCurrentHeap` fields of its own elements matter to a heap. -/
theorem Heap.Inv.congr {this : HeapId} {h : Heap} {elems elems' : Elems}
    (hinv : Inv this ⟨h, elems⟩)
    (hcur : ∀ e, elems'.current e = some this ↔ elems.current e = some this) :
    Inv this ⟨h, elems'⟩ where
  free_pos := hinv.free_pos
  size := hinv.size
  bound := hinv.bound
  member i hi := ⟨(hinv.member i hi).1, (hcur _).mpr (hinv.member i hi).2⟩
  inj := hinv.inj
  onto e he := hinv.onto e ((hcur e).mp he)

namespace Heaps

variable {s t : Heaps} {c : HeapCall} {inHeap : ElemPtr → Option HeapId}

/-! ## Runs -/

/-- The account is that of the `fCurrentHeap` fields, and each heap agrees with these. -/
structure Consistent (s : Heaps) (inHeap : ElemPtr → Option HeapId) : Prop where
  inv : ∀ this, Inv this (s.world this)
  current : s.elems.current = inHeap
  null : s.elems.current nullptr = none

theorem Fresh.consistent (h : Fresh s) : Consistent s fun _ => none where
  inv this := by
    obtain ⟨size, hsize, hnew⟩ := h.1 this
    rw [world, hnew]
    exact .new hsize fun e he => by simp [h.2 e] at he
  current := funext h.2
  null := h.2 nullptr

theorem next_consistent (h : Consistent s inHeap) (hs : next s c = some t) :
    Consistent t (account inHeap c) := by
  obtain ⟨w, hcall, rfl⟩ := next_cases hs
  obtain ⟨hcur, hnull, hframe⟩ := call_current (h.inv c.this) h.null hcall
  refine ⟨?_, ?_, hnull⟩
  · intro this
    by_cases hthis : this = c.this
    · subst hthis
      simpa [world, put] using call_inv (h.inv c.this) hcall
    · have hother := (h.inv this).congr (hframe this hthis)
      simpa [world, put, Function.update_of_ne hthis] using hother
  · rw [← h.current]
    exact hcur

theorem exec_consistent {calls : List HeapCall} (hx : system.Exec s calls t)
    (h : Consistent s inHeap) : Consistent t (calls.foldl account inHeap) := by
  induction hx generalizing inHeap with
  | nil => exact h
  | cons hs _ ih => exact ih (next_consistent h hs)

theorem Consistent.tracks (h : Consistent s inHeap) : Tracks s inHeap := by
  have hslots : ∀ this e, s.elems.current e = some this ↔
      ∃ i, (s.heaps this).InUse i ∧ (s.heaps this).fHeap i = e := by
    intro this e
    refine ⟨(h.inv this).onto e, ?_⟩
    rintro ⟨i, hi, rfl⟩
    exact ((h.inv this).member i hi).2
  refine ⟨?_, fun this => (h.inv this).inj, hslots⟩
  intro this e
  rw [← h.current]
  exact hslots this e

theorem next_answers (h : Consistent s inHeap) (hs : next s c = some t) : Answers s c t := by
  obtain ⟨w, hcall, rfl⟩ := next_cases hs
  obtain ⟨this, op, result⟩ := c
  refine ⟨?_, ?_, ?_⟩
  · rintro e rfl hcur
    rcases remove_current (h.inv this) hcall with ⟨hne, -, -⟩ | ⟨-, hr, -⟩
    · exact absurd hcur hne
    · exact hr
  · rintro e rfl hcur
    rcases remove_current (h.inv this) hcall with ⟨-, hr, rfl⟩ | ⟨he, -, -⟩
    · exact ⟨hr, put_world s this⟩
    · exact absurd he hcur
  · rintro e v flag rfl hcur
    obtain ⟨w₁, hupdate, heq⟩ := Option.map_eq_some_iff.mp hcall
    obtain ⟨-, rfl⟩ := Prod.mk.inj heq
    rw [(update_current (h.inv this) hupdate).2 hcur]
    exact put_world s this

/-- No assertion fails in a call that inserts no element twice, finds room for what it inserts
and shifts down in a small heap only. -/
theorem exists_next (h : Consistent s inHeap) {this : HeapId} {op : Op}
    (legal : op.Legal (s.world this)) (hsmall : op.Small (s.world this))
    (hroom : op.Room (s.world this)) : ∃ r t, next s ⟨this, op, r⟩ = some t := by
  have hsome := apply_isSome (h.inv this) legal hsmall hroom
  rw [← call_snd, Option.isSome_map] at hsome
  obtain ⟨⟨r, w⟩, hcall⟩ := Option.isSome_iff_exists.mp hsome
  refine ⟨r, s.put this w, ?_⟩
  simp only [next, hcall, if_true]

/-- After every sequence of calls the heaps hold what the calls have left in them, and the
next call finds an element where the account says it is. -/
theorem tracks_of_exec {calls : List HeapCall} (hs : Fresh s) (hx : system.Exec s calls t) :
    Tracks t (accounts calls) ∧
      (∀ c u, next t c = some u → Answers t c u) ∧
      ∀ this op, op.Legal (t.world this) → op.Small (t.world this) → op.Room (t.world this) →
        ∃ r u, next t ⟨this, op, r⟩ = some u := by
  have h := exec_consistent hx hs.consistent
  refine ⟨h.tracks, ?_, ?_⟩
  · intro c u hc
    exact next_answers h hc
  · intro this op legal hsmall hroom
    exact exists_next h legal hsmall hroom

/-- Two heaps, the first one of the least size. -/
def twoHeaps : Heaps := ⟨fun _ => Heap.new 2, fun _ => ⟨0, none⟩⟩

/-- The first heap grows and loses its minimum and an element; the removal of an element
of the second heap from the first one fails. -/
def twoHeapsCalls : List HeapCall :=
  [⟨1, .insert 5 30, 0⟩, ⟨1, .insert 6 20, 0⟩, ⟨2, .insert 7 10, 0⟩, ⟨1, .insert 8 25, 0⟩,
    ⟨1, .remove 7, 0⟩, ⟨1, .extractMin, 6⟩, ⟨1, .remove 5, 5⟩]

theorem tracks_of_exec_twoHeaps :
    ∃ t, system.Exec twoHeaps twoHeapsCalls t ∧ Tracks t (accounts twoHeapsCalls) := by
  have hrun : (twoHeapsCalls.foldlM next twoHeaps).isSome := by decide +kernel
  obtain ⟨t, ht⟩ := Option.isSome_iff_exists.mp hrun
  have hx : system.Exec twoHeaps twoHeapsCalls t := System.exec_of_foldlM (fun _ _ _ h => h) ht
  exact ⟨t, hx, (tracks_of_exec ⟨fun _ => ⟨2, by decide, rfl⟩, fun _ => rfl⟩ hx).1⟩

/-! ## A full array -/

/-- Heaps whose arrays have `2 ^ 31` slots. -/
def largeHeaps : Heaps := ⟨fun _ => Heap.new (2 ^ 31), fun _ => ⟨0, none⟩⟩

/-- The elements `1, …, n` are inserted into the first heap. -/
def inserts (n : Nat) : List HeapCall :=
  (List.range n).map fun i => ⟨1, .insert (i + 1) 0, nullptr⟩

theorem inserts_succ (n : Nat) : inserts (n + 1) = inserts n ++ [⟨1, .insert (n + 1) 0, nullptr⟩] := by
  simp [inserts, List.range_succ]

theorem accounts_inserts (n : Nat) {e : ElemPtr} (he : n < e) : accounts (inserts n) e = none := by
  induction n with
  | zero => rfl
  | succ n ih =>
    have hne : e ≠ n + 1 := he.ne'
    rw [inserts_succ, accounts, List.foldl_append]
    change Function.update (accounts (inserts n)) (n + 1) (some 1) e = none
    rw [Function.update_of_ne hne, ih (Nat.lt_of_succ_lt he)]

theorem largeHeaps_fresh : Fresh largeHeaps := ⟨fun _ => ⟨2 ^ 31, by decide, rfl⟩, fun _ => rfl⟩

theorem next_insert (h : Consistent s inHeap) {this : HeapId} {e r : ElemPtr} {v : Int}
    (hs : next s ⟨this, .insert e v, r⟩ = some t) :
    r = nullptr ∧ (t.heaps this).fFreeIndex = (s.heaps this).fFreeIndex + 1 ∧
      (t.heaps this).fArraySize = (s.heaps this).grownSize := by
  obtain ⟨w, hcall, rfl⟩ := next_cases hs
  obtain ⟨w₁, hins, heq⟩ := Option.map_eq_some_iff.mp hcall
  obtain ⟨hr, rfl⟩ := Prod.mk.inj heq
  obtain ⟨-, rfl⟩ := insert_cases ((h.inv this).setValue _ _) hins
  exact ⟨hr.symm, by simp [put, world], by simp [put, world]⟩

/-- An insertion that is allowed has no result if the array is full and cannot grow. -/
theorem next_full (h : Consistent s inHeap) {this : HeapId} {e : ElemPtr} {v : Int}
    (hne : e ≠ nullptr) (he : inHeap e = none) (hfull : ¬ (s.heaps this).Room) :
    Op.Legal (s.world this) (.insert e v) ∧ ∀ r, next s ⟨this, .insert e v, r⟩ = none := by
  have hfree : s.elems.current e = none := (congrFun h.current e).trans he
  have hset : Inv this ⟨s.heaps this, s.elems.setValue e v⟩ := (h.inv this).setValue e v
  have hnone : insert this ⟨s.heaps this, s.elems.setValue e v⟩ e = none := by
    rw [← Option.not_isSome_iff_eq_none, insert_isSome_iff hset hne (by simpa using hfree)]
    exact hfull
  refine ⟨⟨hne, hfree⟩, ?_⟩
  intro r
  simp only [next, call, world, hnone, Option.map_none]

/-- The array takes `2 ^ 31 - 1` elements. -/
theorem exec_inserts (n : Nat) (hn : n < 2 ^ 31) :
    ∃ t, system.Exec largeHeaps (inserts n) t ∧
      (t.heaps 1).fFreeIndex = n + 1 ∧ (t.heaps 1).fArraySize = 2 ^ 31 := by
  induction n with
  | zero => exact ⟨largeHeaps, .nil _, rfl, rfl⟩
  | succ n ih =>
    obtain ⟨t, hx, hfree, hsize⟩ := ih (Nat.lt_of_succ_lt hn)
    have h := exec_consistent hx largeHeaps_fresh.consistent
    have hnone : t.elems.current (n + 1) = none :=
      (congrFun h.current (n + 1)).trans (accounts_inserts n (Nat.lt_succ_self n))
    have hroom : (t.heaps 1).Room := .inl (by omega)
    have hlegal : Op.Legal (t.world 1) (.insert (n + 1) 0) := ⟨Nat.succ_ne_zero n, hnone⟩
    obtain ⟨r, u, hu⟩ := exists_next h hlegal trivial hroom
    obtain ⟨rfl, hfree', hsize'⟩ := next_insert h hu
    have hlt : ¬ (t.heaps 1).fFreeIndex ≥ (t.heaps 1).fArraySize := by omega
    refine ⟨u, ?_, by omega, ?_⟩
    · rw [inserts_succ]
      exact hx.append (.cons hu (.nil _))
    · rw [hsize', grownSize, if_neg hlt, hsize]

/-- An array of `2 ^ 31` slots is full with `2 ^ 31 - 1` elements, and does not grow. -/
theorem largeHeaps_not_grown :
    ∃ t, system.Exec largeHeaps (inserts (2 ^ 31 - 1)) t ∧
      Op.Legal (t.world 1) (.insert (2 ^ 31) 0) ∧
      ∀ r, next t ⟨1, .insert (2 ^ 31) 0, r⟩ = none := by
  obtain ⟨t, hx, hfree, hsize⟩ := exec_inserts (2 ^ 31 - 1) (by omega)
  have h : Consistent t (accounts (inserts (2 ^ 31 - 1))) :=
    exec_consistent hx largeHeaps_fresh.consistent
  have hnone : accounts (inserts (2 ^ 31 - 1)) (2 ^ 31) = none := accounts_inserts _ (by omega)
  have hfull : ¬ (t.heaps 1).Room := by
    unfold Heap.Room
    omega
  exact ⟨t, hx, next_full h (Nat.two_pow_pos 31).ne' hnone hfull⟩

end Heaps

end CxxFramework.Core
