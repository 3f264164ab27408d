import CxxFramework.Library.LinkedRing
import Mathlib.Algebra.Group.Nat.Defs
import Mathlib.Data.List.Basic

/-!
# Queues

The elements of a `Queue` are linked into a ring with its sentinel, in both directions: behind
the sentinel by `fNext` stands the youngest element, in front of it by `fPrev` the oldest. An
element remembers in `fQueue` the queue that it is in. The links of an element in no queue are
left as they are, and not read.

The length is a `UInt32`. With `2 ^ 32` elements in it a queue has the length 0 again, and then
passes for an empty one.

## Main definitions

* `QueueMemory.step` — the calls on any number of queues and elements.
* `specStep` — what the calls do to lists of elements, the oldest first.
* `QueueMemory.Represents` — the rings are those of the lists.
* `QueueMemory.Refines` — a sequence of calls does what it does to the lists.
-/

namespace CxxFramework.Core

open LinkedRing

/-- A `QueueElem`: the sentinel of a queue, or an element. -/
inductive QueueNode (Q E : Type) where
  | sentinel (queue : Q)
  | elem (e : E)
deriving DecidableEq, Repr

/-- The number range of `fLength`. -/
def kLengthSize : Nat := 2 ^ 32

/-- The fields of all queues and elements. -/
structure QueueMemory (Q E : Type) where
  fNext : QueueNode Q E → QueueNode Q E
  fPrev : QueueNode Q E → QueueNode Q E
  fQueue : E → Option Q
  fLength : Q → Nat

inductive QueueCall (Q E : Type) where
  | enQueue (queue : Q) (elem : E)
  | deQueue (queue : Q)
  | remove (queue : Q) (elem : E)
  | elemRemove (elem : E)
deriving DecidableEq, Repr

variable {Q E : Type}

namespace QueueMemory

section Operations

variable [DecidableEq Q] [DecidableEq E]

/-- `Queue::EnQueue`; none if its assertion fails. -/
def enQueue (m : QueueMemory Q E) (queue : Q) (elem : E) : Option (QueueMemory Q E) :=
  if m.fQueue elem = some queue then some m
  else if m.fQueue elem ≠ none then none
  else
    let youngest := m.fNext (.sentinel queue)
    let fNext := Function.update m.fNext (.elem elem) youngest
    let fPrev := Function.update m.fPrev (.elem elem) (.sentinel queue)
    some
      { fNext := Function.update fNext (.sentinel queue) (.elem elem)
        fPrev := Function.update fPrev youngest (.elem elem)
        fQueue := Function.update m.fQueue elem (some queue)
        fLength := Function.update m.fLength queue ((m.fLength queue + 1) % kLengthSize) }

/-- `Queue::DeQueue`; none if its assertion fails. -/
def deQueue (m : QueueMemory Q E) (queue : Q) : Option (Option E × QueueMemory Q E) :=
  if m.fLength queue > 0 then
    match m.fPrev (.sentinel queue) with
    | .sentinel _ => none
    | .elem elem =>
      let behind := m.fPrev (.elem elem)
      some (some elem,
        { fNext := Function.update m.fNext behind (.sentinel queue)
          fPrev := Function.update m.fPrev (.sentinel queue) behind
          fQueue := Function.update m.fQueue elem none
          fLength := Function.update m.fLength queue
            ((m.fLength queue + kLengthSize - 1) % kLengthSize) })
  else some (none, m)

/-- `Queue::Remove` -/
def remove (m : QueueMemory Q E) (queue : Q) (elem : E) : QueueMemory Q E :=
  if m.fQueue elem = some queue then
    { fNext := Function.update m.fNext (m.fPrev (.elem elem)) (m.fNext (.elem elem))
      fPrev := Function.update m.fPrev (m.fNext (.elem elem)) (m.fPrev (.elem elem))
      fQueue := Function.update m.fQueue elem none
      fLength := Function.update m.fLength queue
        ((m.fLength queue + kLengthSize - 1) % kLengthSize) }
  else m

/-- `QueueElem::Remove` -/
def elemRemove (m : QueueMemory Q E) (elem : E) : QueueMemory Q E :=
  match m.fQueue elem with
  | some queue => m.remove queue elem
  | none => m

/-- A call, with the element that it returns. -/
def step (m : QueueMemory Q E) : QueueCall Q E → Option (Option E × QueueMemory Q E)
  | .enQueue queue elem => (m.enQueue queue elem).map fun m => (none, m)
  | .deQueue queue => m.deQueue queue
  | .remove queue elem => some (none, m.remove queue elem)
  | .elemRemove elem => some (none, m.elemRemove elem)

end Operations

/-! ## Looking at a queue -/

def getLength (m : QueueMemory Q E) (queue : Q) : Nat := m.fLength queue

def getHead (m : QueueMemory Q E) (queue : Q) : Option (QueueNode Q E) :=
  if m.fLength queue > 0 then some (m.fPrev (.sentinel queue)) else none

def getTail (m : QueueMemory Q E) (queue : Q) : Option (QueueNode Q E) :=
  if m.fLength queue > 0 then some (m.fNext (.sentinel queue)) else none

section Iteration

variable [DecidableEq Q] [DecidableEq E]

/-- `QueueIter::Next` -/
def iterNext (m : QueueMemory Q E) (queue : Q) (fCurrentElemP : QueueNode Q E) :
    Option (QueueNode Q E) :=
  if some fCurrentElemP = m.getTail queue then none else some (m.fPrev fCurrentElemP)

/-- The elements that a `QueueIter` visits until `IsDone`; none if it comes to a sentinel, or if
`n` steps are not enough. -/
def iterate (m : QueueMemory Q E) (queue : Q) :
    (n : Nat) → (fCurrentElemP : Option (QueueNode Q E)) → Option (List E)
  | 0, _ => none
  | _ + 1, none => some []
  | _ + 1, some (.sentinel _) => none
  | n + 1, some (.elem e) => (iterate m queue n (m.iterNext queue (.elem e))).map (e :: ·)

end Iteration

end QueueMemory

/-! ## Lists of elements -/

open Classical in
/-- What a call does to the lists, and what it returns. An element of another queue must not be
put into a queue. -/
noncomputable def specStep [DecidableEq Q] [DecidableEq E] (l : Q → List E) :
    QueueCall Q E → Option (Option E × (Q → List E))
  | .enQueue queue elem =>
    if elem ∈ l queue then some (none, l)
    else if ∃ other, elem ∈ l other then none
    else some (none, Function.update l queue (l queue ++ [elem]))
  | .deQueue queue => some ((l queue).head?, Function.update l queue (l queue).tail)
  | .remove queue elem => some (none, Function.update l queue ((l queue).erase elem))
  | .elemRemove elem => some (none, fun queue => (l queue).erase elem)

/-- Calls one after the other, with what they return. -/
def runCalls {σ : Type} (step : σ → QueueCall Q E → Option (Option E × σ)) :
    σ → List (QueueCall Q E) → Option (List (Option E) × σ)
  | s, [] => some ([], s)
  | s, call :: calls =>
    (step s call).bind fun r => (runCalls step r.2 calls).map fun t => (r.1 :: t.1, t.2)

def Small (l : Q → List E) : Prop := ∀ queue, (l queue).length < kLengthSize

/-- No queue comes to hold `2 ^ 32` elements. -/
def Bounded [DecidableEq Q] [DecidableEq E] : (Q → List E) → List (QueueCall Q E) → Prop
  | l, [] => Small l
  | l, call :: calls => Small l ∧ ∀ result l', specStep l call = some (result, l') →
    Bounded l' calls

namespace QueueMemory

variable [DecidableEq Q] [DecidableEq E] {m m' : QueueMemory Q E} {l l' : Q → List E}
  {queue other : Q} {e : E}

/-- Queues just constructed, and elements in no queue. -/
structure Fresh (m : QueueMemory Q E) : Prop where
  next : ∀ queue, m.fNext (.sentinel queue) = .sentinel queue
  prev : ∀ queue, m.fPrev (.sentinel queue) = .sentinel queue
  queue : ∀ e, m.fQueue e = none
  length : ∀ queue, m.fLength queue = 0

/-- Looked at from outside, the queues are the lists: their lengths, heads and tails, which
elements they have, and what an iteration visits. -/
structure Views (m : QueueMemory Q E) (l : Q → List E) : Prop where
  length : ∀ queue, m.getLength queue = (l queue).length
  head : ∀ queue, m.getHead queue = (l queue).head?.map .elem
  tail : ∀ queue, m.getTail queue = (l queue).getLast?.map .elem
  member : ∀ e queue, m.fQueue e = some queue ↔ e ∈ l queue
  nodup : ∀ queue, (l queue).Nodup
  iter : ∀ queue, ∃ k, ∀ n ≥ k, m.iterate queue n (m.getHead queue) = some (l queue)

/-- A sequence of calls returns what the lists do, fails where they do, and leads to queues that
look like the lists. -/
def Refines (m : QueueMemory Q E) (calls : List (QueueCall Q E)) : Prop :=
  match runCalls specStep (fun _ => []) calls with
  | none => runCalls step m calls = none
  | some (results, l) => ∃ m', runCalls step m calls = some (results, m') ∧ Views m' l

/-- The rings run through the lists, up to the range of their lengths. -/
structure Represents (m : QueueMemory Q E) (l : Q → List E) : Prop where
  ring : ∀ queue, Ring m.fNext m.fPrev (.sentinel queue) ((l queue).map .elem)
  member : ∀ e queue, m.fQueue e = some queue ↔ e ∈ l queue
  length : ∀ queue, m.fLength queue = (l queue).length % kLengthSize

omit [DecidableEq Q] [DecidableEq E] in
theorem Fresh.represents (h : Fresh m) : Represents m (fun _ => []) where
  ring queue := ring_nil (h.prev queue) (h.next queue)
  member e queue := by simp [h.queue e]
  length queue := h.length queue

omit [DecidableEq Q] [DecidableEq E] in
theorem Represents.nodup (h : Represents m l) (queue : Q) : (l queue).Nodup :=
  ((List.nodup_cons.mp (h.ring queue).nodup).2).of_map

omit [DecidableEq Q] [DecidableEq E] in
/-- Two queues have no node in common. -/
theorem Represents.apart (h : Represents m l) (hne : queue ≠ other) {x : QueueNode Q E}
    (hx : x ∈ .sentinel queue :: (l queue).map .elem) :
    x ∉ .sentinel other :: (l other).map .elem := by
  intro hx'
  rcases List.mem_cons.mp hx with rfl | hx <;> rcases List.mem_cons.mp hx' with heq | hx'
  · exact hne (QueueNode.sentinel.inj heq)
  · simp at hx'
  · simp [heq] at hx
  · obtain ⟨e, he, rfl⟩ := List.mem_map.mp hx
    have he' : e ∈ l other := by simpa using hx'
    have heq := ((h.member e queue).mpr he).symm.trans ((h.member e other).mpr he')
    exact hne (Option.some.inj heq)

/-! ## Steps -/

/-- An element in no queue is put in behind the youngest one. -/
theorem Represents.enQueue (h : Represents m l) (queue : Q) (hfree : m.fQueue e = none) :
    ∃ m', m.enQueue queue e = some m' ∧
      Represents m' (Function.update l queue (l queue ++ [e])) := by
  have hout : ∀ other, e ∉ l other := by
    intro other he
    rw [← h.member, hfree] at he
    cases he
  have hnode : ∀ other, (.elem e : QueueNode Q E) ∉ .sentinel other :: (l other).map .elem := by
    intro other
    simpa using hout other
  have hyoungest : m.fNext (.sentinel queue) ∈ .sentinel queue :: (l queue).map .elem := by
    rw [(h.ring queue).next_eq]
    cases hlast : ((l queue).map QueueNode.elem).getLast? with
    | none => exact List.mem_cons_self
    | some x => exact List.mem_cons_of_mem _ (List.mem_of_getLast? hlast)
  refine ⟨_, by rw [QueueMemory.enQueue, hfree, if_neg nofun, if_neg (by simp)], ?_, ?_, ?_⟩
  · intro other
    by_cases hother : other = queue
    · subst hother
      rw [Function.update_self, List.map_append]
      exact (h.ring other).insert (hnode other)
    · rw [Function.update_of_ne hother]
      have hne := Ne.symm hother
      exact ((h.ring other).update (hnode other) (hnode other) _ _).update
        (h.apart hne List.mem_cons_self) (h.apart hne hyoungest) _ _
  · intro e' other
    have hmem := h.member e' other
    simp only [Function.update_apply]
    grind
  · intro other
    have hlength := h.length queue
    simp only [Function.update_apply, kLengthSize] at hlength ⊢
    split_ifs with hother
    · rw [List.length_append, List.length_singleton]
      omega
    · exact h.length other

theorem Represents.remove_mem (h : Represents m l) (he : e ∈ l queue) :
    Represents (m.remove queue e) (Function.update l queue ((l queue).erase e)) := by
  obtain ⟨front, back, hfront, hsplit, herase⟩ := List.exists_erase_eq he
  have hring := h.ring queue
  rw [hsplit, List.map_append, List.map_cons] at hring
  have haround : m.fNext (.elem e) ∈ .sentinel queue :: (l queue).map .elem ∧
      m.fPrev (.elem e) ∈ .sentinel queue :: (l queue).map .elem := by
    rw [hring.around.1, hring.around.2, hsplit]
    constructor
    · cases hlast : (front.map QueueNode.elem).getLast? with
      | none => exact List.mem_cons_self
      | some x =>
        have := List.mem_of_getLast? hlast
        simp only [Option.getD_some]
        grind
    · cases hhead : (back.map QueueNode.elem).head? with
      | none => exact List.mem_cons_self
      | some x =>
        have := List.mem_of_head? hhead
        simp only [Option.getD_some]
        grind
  rw [QueueMemory.remove, if_pos ((h.member e queue).mpr he)]
  refine ⟨?_, ?_, ?_⟩
  · intro other
    by_cases hother : other = queue
    · subst hother
      rw [Function.update_self, herase, List.map_append]
      exact hring.unlink
    · rw [Function.update_of_ne hother]
      have hne := Ne.symm hother
      exact (h.ring other).update (h.apart hne haround.2) (h.apart hne haround.1) _ _
  · intro e' other
    have hmem := h.member e' other
    have hmem' := h.member e' queue
    have hnodup := h.nodup queue
    simp only [Function.update_apply]
    grind
  · intro other
    have hlength := h.length queue
    have hpos := List.length_pos_of_mem he
    simp only [Function.update_apply, kLengthSize] at hlength ⊢
    split_ifs with hother
    · rw [List.length_erase_of_mem he]
      omega
    · exact h.length other

/-- An element is taken out wherever it stands, and only from its own queue. -/
theorem Represents.remove (h : Represents m l) (queue : Q) (e : E) :
    Represents (m.remove queue e) (Function.update l queue ((l queue).erase e)) := by
  by_cases he : e ∈ l queue
  · exact h.remove_mem he
  · rw [QueueMemory.remove, if_neg (mt (h.member e queue).mp he), List.erase_of_not_mem he,
      Function.update_eq_self]
    exact h

theorem Represents.elemRemove (h : Represents m l) (e : E) :
    Represents (m.elemRemove e) (fun queue => (l queue).erase e) := by
  rw [QueueMemory.elemRemove]
  cases hqueue : m.fQueue e with
  | none =>
    have hsame : (fun queue => (l queue).erase e) = l := by
      funext queue
      refine List.erase_of_not_mem fun he => ?_
      rw [← h.member, hqueue] at he
      cases he
    rw [hsame]
    exact h
  | some queue =>
    have hsame : (fun queue => (l queue).erase e) =
        Function.update l queue ((l queue).erase e) := by
      funext other
      by_cases hother : other = queue
      · rw [hother, Function.update_self]
      · rw [Function.update_of_ne hother]
        refine List.erase_of_not_mem fun he => hother ?_
        rw [← h.member, hqueue] at he
        exact (Option.some.inj he).symm
    rw [hsame]
    exact h.remove queue e

/-- The oldest element is taken out like any other. -/
theorem Represents.deQueue (h : Represents m l) (hsmall : Small l) (queue : Q) :
    ∃ m', m.deQueue queue = some ((l queue).head?, m') ∧
      Represents m' (Function.update l queue (l queue).tail) := by
  have hring := h.ring queue
  have hlength := h.length queue
  rw [Nat.mod_eq_of_lt (hsmall queue)] at hlength
  cases hl : l queue with
  | nil =>
    rw [hl] at hlength
    refine ⟨m, by simp [QueueMemory.deQueue, hlength], ?_⟩
    rw [List.tail_nil, ← hl, Function.update_eq_self]
    exact h
  | cons e back =>
    have he : e ∈ l queue := by simp [hl]
    rw [hl, List.length_cons] at hlength
    rw [hl, List.map_cons] at hring
    have hhead : m.fPrev (.sentinel queue) = .elem e := hring.prev_eq
    have hfirst : Ring m.fNext m.fPrev (.sentinel queue) ([] ++ .elem e :: back.map .elem) := hring
    have hnext : m.fNext (.elem e) = .sentinel queue := hfirst.around.1
    have hremove := h.remove queue e
    refine ⟨m.remove queue e, ?_, ?_⟩
    · rw [QueueMemory.deQueue, if_pos (by omega), hhead, QueueMemory.remove,
        if_pos ((h.member e queue).mpr he), hnext]
      rfl
    · rw [hl, List.erase_cons_head] at hremove
      exact hremove

/-- Each call does to the rings what it does to the lists. -/
theorem Represents.step (h : Represents m l) (hsmall : Small l) (call : QueueCall Q E) :
    match specStep l call with
    | none => m.step call = none
    | some (result, l') => ∃ m', m.step call = some (result, m') ∧ Represents m' l' := by
  cases call with
  | enQueue queue e =>
    rw [specStep, QueueMemory.step]
    by_cases he : e ∈ l queue
    · rw [if_pos he]
      refine ⟨m, ?_, h⟩
      rw [QueueMemory.enQueue, if_pos ((h.member e queue).mpr he)]
      rfl
    · rw [if_neg he]
      by_cases hother : ∃ other, e ∈ l other
      · rw [if_pos hother]
        obtain ⟨other, hother⟩ := hother
        have hqueue := (h.member e other).mpr hother
        have hne : other ≠ queue := by
          rintro rfl
          exact he hother
        simp [QueueMemory.enQueue, hqueue, hne]
      · rw [if_neg hother]
        have hfree : m.fQueue e = none := by
          rw [Option.eq_none_iff_forall_ne_some]
          intro other hqueue
          exact hother ⟨other, (h.member e other).mp hqueue⟩
        obtain ⟨m', henqueue, hr⟩ := h.enQueue queue hfree
        refine ⟨m', ?_, hr⟩
        rw [henqueue]
        rfl
  | deQueue queue => exact h.deQueue hsmall queue
  | remove queue e => exact ⟨_, rfl, h.remove queue e⟩
  | elemRemove e => exact ⟨_, rfl, h.elemRemove e⟩

/-! ## Runs -/

/-- The oldest elements are visited first, up to the youngest. -/
theorem Represents.iterate (h : Represents m l) (front : List E) {back : List E}
    (hl : l queue = front ++ e :: back) (htail : m.getTail queue = (l queue).getLast?.map .elem) :
    ∀ n ≥ back.length + 2, m.iterate queue n (some (.elem e)) = some (e :: back) := by
  induction back generalizing front e with
  | nil =>
    intro n hn
    obtain ⟨n, rfl⟩ : ∃ k, n = k + 2 := ⟨n - 2, by simp at hn; omega⟩
    have hlast : m.getTail queue = some (.elem e) := by simp [htail, hl]
    simp [QueueMemory.iterate, iterNext, hlast]
  | cons c back ih =>
    intro n hn
    obtain ⟨n, rfl⟩ : ∃ k, n = k + 1 := ⟨n - 1, by omega⟩
    have hring := h.ring queue
    rw [hl, List.map_append, List.map_cons] at hring
    have hprev : m.fPrev (.elem e) = .elem c := hring.around.2
    have hlast : some (QueueNode.elem (Q := Q) e) ≠ m.getTail queue := by
      have hnodup := h.nodup queue
      rw [hl] at hnodup
      have hnot : e ∉ c :: back := (List.nodup_cons.mp (List.nodup_append.mp hnodup).2.1).1
      rw [htail, hl, List.getLast?_append, List.getLast?_cons_cons,
        List.getLast?_eq_getLast_of_ne_nil (List.cons_ne_nil c back), Option.some_or]
      intro heq
      rw [QueueNode.elem.inj (Option.some.inj heq)] at hnot
      exact hnot (List.getLast_mem _)
    rw [QueueMemory.iterate, iterNext, if_neg hlast, hprev,
      ih (front ++ [e]) (by simp [hl]) n (by simp at hn; omega)]
    rfl

theorem Represents.views (h : Represents m l) (hsmall : Small l) : Views m l := by
  have hlength : ∀ queue, m.fLength queue = (l queue).length := fun queue =>
    (h.length queue).trans (Nat.mod_eq_of_lt (hsmall queue))
  have hhead : ∀ queue, m.getHead queue = (l queue).head?.map .elem := by
    intro queue
    rw [getHead, hlength, (h.ring queue).prev_eq]
    cases l queue <;> simp
  have htail : ∀ queue, m.getTail queue = (l queue).getLast?.map .elem := by
    intro queue
    rw [getTail, hlength, (h.ring queue).next_eq, List.getLast?_map]
    cases hlast : (l queue).getLast? with
    | none => simp [List.getLast?_eq_none_iff.mp hlast]
    | some e => simp [List.length_pos_of_mem (List.mem_of_getLast? hlast)]
  refine ⟨hlength, hhead, htail, h.member, h.nodup, ?_⟩
  intro queue
  refine ⟨(l queue).length + 2, ?_⟩
  intro n hn
  rw [hhead]
  cases hl : l queue with
  | nil =>
    obtain ⟨n, rfl⟩ : ∃ k, n = k + 1 := ⟨n - 1, by omega⟩
    rfl
  | cons e back =>
    rw [hl, List.length_cons] at hn
    exact h.iterate [] hl (htail queue) n (by omega)

theorem Represents.run (h : Represents m l) (calls : List (QueueCall Q E))
    (hbounded : Bounded l calls) :
    match runCalls specStep l calls with
    | none => runCalls QueueMemory.step m calls = none
    | some (results, l') =>
      ∃ m', runCalls QueueMemory.step m calls = some (results, m') ∧ Views m' l' := by
  induction calls generalizing m l with
  | nil => exact ⟨m, rfl, h.views hbounded⟩
  | cons call calls ih =>
    obtain ⟨hsmall, hrest⟩ := hbounded
    have hstep := h.step hsmall call
    rw [runCalls, runCalls]
    cases hspec : specStep l call with
    | none =>
      rw [hspec] at hstep
      simp [hstep]
    | some r =>
      obtain ⟨result, l'⟩ := r
      rw [hspec] at hstep
      obtain ⟨m', hm', h'⟩ := hstep
      have hrun := ih h' (hrest result l' hspec)
      simp only [hm', Option.bind_some]
      cases hcalls : runCalls specStep l' calls with
      | none =>
        rw [hcalls] at hrun
        simp [hrun]
      | some t =>
        rw [hcalls] at hrun
        obtain ⟨m'', hm'', hviews⟩ := hrun
        exact ⟨m'', by simp [hm''], hviews⟩

/-- Every sequence of calls does what it does to the lists, as long as no queue comes to hold
`2 ^ 32` elements. -/
theorem refines (m : QueueMemory Q E) (fresh : Fresh m) (calls : List (QueueCall Q E))
    (hbounded : Bounded (fun _ => []) calls) : Refines m calls :=
  fresh.represents.run calls hbounded

/-- A call puts one element at most into a queue. -/
theorem specStep_length {call : QueueCall Q E} {result : Option E}
    (hs : specStep l call = some (result, l')) (queue : Q) : (l' queue).length ≤ (l queue).length + 1 := by
  cases call with
  | enQueue q e =>
    simp only [specStep] at hs
    split_ifs at hs <;> obtain ⟨-, rfl⟩ := Prod.mk.inj (Option.some.inj hs)
    · omega
    · by_cases hq : queue = q
      · simp [hq]
      · simp [hq]
  | deQueue q =>
    obtain ⟨-, rfl⟩ := Prod.mk.inj (Option.some.inj hs)
    by_cases hq : queue = q
    · subst hq
      simp only [Function.update_self, List.length_tail]
      omega
    · simp [hq]
  | remove q e =>
    obtain ⟨-, rfl⟩ := Prod.mk.inj (Option.some.inj hs)
    by_cases hq : queue = q
    · subst hq
      simp only [Function.update_self]
      exact Nat.le_succ_of_le List.length_erase_le
    · simp [hq]
  | elemRemove e =>
    obtain ⟨-, rfl⟩ := Prod.mk.inj (Option.some.inj hs)
    exact Nat.le_succ_of_le List.length_erase_le

/-- Fewer calls than the range of the lengths keep every queue short enough. -/
theorem bounded_of_length (calls : List (QueueCall Q E))
    (hlength : ∀ queue, (l queue).length + calls.length < kLengthSize) : Bounded l calls := by
  induction calls generalizing l with
  | nil => exact hlength
  | cons call calls ih =>
    simp only [List.length_cons] at hlength
    refine ⟨fun queue => by have := hlength queue; omega, ?_⟩
    intro result l' hs
    refine ih fun queue => ?_
    have hstep := specStep_length hs queue
    have := hlength queue
    omega

/-- Two queues without elements. -/
def twoQueues : QueueMemory Bool Nat := ⟨id, id, fun _ => none, fun _ => 0⟩

theorem twoQueues_fresh : Fresh twoQueues :=
  ⟨fun _ => rfl, fun _ => rfl, fun _ => rfl, fun _ => rfl⟩

/-- Three elements in the one queue, of which one is put in twice, and one in the other; then
removals from the middle, from the wrong queue and by the element itself. -/
def twoQueuesCalls : List (QueueCall Bool Nat) :=
  [.enQueue false 5, .enQueue false 6, .enQueue true 7, .enQueue false 5, .enQueue false 8,
    .enQueue false 9, .remove false 6, .remove true 8, .deQueue false, .elemRemove 7,
    .deQueue true]

/-- What the lists come to be: 8 and 9 in the one queue. -/
theorem refines_twoQueues :
    ∃ m', runCalls step twoQueues twoQueuesCalls =
        some ([none, none, none, none, none, none, none, none, some 5, none, none], m') ∧
      Views m' fun queue => if queue then [] else [8, 9] := by
  have hrefines : Refines twoQueues twoQueuesCalls :=
    refines twoQueues twoQueues_fresh twoQueuesCalls
      (bounded_of_length _ fun _ => by decide)
  have hspec : ∃ l, runCalls specStep (fun _ => []) twoQueuesCalls =
      some ([none, none, none, none, none, none, none, none, some 5, none, none], l) ∧
        l = fun queue => if queue then [] else [8, 9] := by
    simp [twoQueuesCalls, runCalls, specStep]
    funext queue
    cases queue <;> simp
  obtain ⟨l, hrun, rfl⟩ := hspec
  rw [Refines, hrun] at hrefines
  exact hrefines

/-! ### A queue of `2 ^ 32` elements -/

/-- Elements are put into a queue, one after the other. -/
def fills (queue : Q) (elems : List E) : List (QueueCall Q E) := elems.map (.enQueue queue)

theorem fills_spec (elems : List E) (hnodup : elems.Nodup)
    (hout : ∀ e ∈ elems, ∀ other, e ∉ l other) :
    runCalls specStep l (fills queue elems) =
      some (elems.map fun _ => none, Function.update l queue (l queue ++ elems)) := by
  induction elems generalizing l with
  | nil => simp [fills, runCalls]
  | cons e elems ih =>
    obtain ⟨hnot, hnodup⟩ := List.nodup_cons.mp hnodup
    have hfree : ¬ ∃ other, e ∈ l other := fun ⟨other, he⟩ => hout e List.mem_cons_self other he
    have hrest := ih (l := Function.update l queue (l queue ++ [e])) hnodup (by
      intro e' he' other
      have := hout e' (List.mem_cons_of_mem e he') other
      simp only [Function.update_apply]
      grind)
    rw [fills, List.map_cons, runCalls, specStep, if_neg (hout e List.mem_cons_self queue),
      if_neg hfree, Option.bind_some, ← fills, hrest]
    simp

theorem Represents.fills (h : Represents m l) (queue : Q) (elems : List E) (hnodup : elems.Nodup)
    (hout : ∀ e ∈ elems, ∀ other, e ∉ l other) :
    ∃ m', runCalls QueueMemory.step m (fills queue elems) =
        some (elems.map fun _ => none, m') ∧
      Represents m' (Function.update l queue (l queue ++ elems)) := by
  induction elems generalizing m l with
  | nil => exact ⟨m, rfl, by simpa using h⟩
  | cons e elems ih =>
    obtain ⟨hnot, hnodup⟩ := List.nodup_cons.mp hnodup
    have hfree : m.fQueue e = none := by
      rw [Option.eq_none_iff_forall_ne_some]
      intro other hqueue
      exact hout e List.mem_cons_self other ((h.member e other).mp hqueue)
    obtain ⟨m₁, henqueue, h₁⟩ := h.enQueue queue hfree
    obtain ⟨m', hrun, h'⟩ := ih h₁ hnodup (by
      intro e' he' other
      have := hout e' (List.mem_cons_of_mem e he') other
      simp only [Function.update_apply]
      grind)
    refine ⟨m', ?_, by simpa using h'⟩
    rw [QueueMemory.fills, List.map_cons, runCalls, QueueMemory.step, henqueue, Option.map_some,
      Option.bind_some, ← QueueMemory.fills, hrun]
    rfl

/-- One queue without elements. -/
def emptyMemory : QueueMemory Unit Nat := ⟨id, id, fun _ => none, fun _ => 0⟩

theorem emptyMemory_fresh : Fresh emptyMemory :=
  ⟨fun _ => rfl, fun _ => rfl, fun _ => rfl, fun _ => rfl⟩

/-- The length of a queue with `2 ^ 32` elements is 0. -/
theorem fills_not_refines : ¬ ∀ calls, Refines emptyMemory calls := by
  intro hall
  -- the length stays a variable, so that nothing is evaluated
  obtain ⟨size, hsize⟩ : ∃ size, size = kLengthSize := ⟨_, rfl⟩
  have hrefines := hall (fills () (List.range size))
  have hout : ∀ e ∈ List.range size, ∀ other : Unit, e ∉ (fun _ => [] : Unit → List Nat) other :=
    fun _ _ _ => List.not_mem_nil
  rw [Refines, fills_spec _ List.nodup_range hout] at hrefines
  obtain ⟨m', hrun, hviews⟩ := hrefines
  obtain ⟨m'', hrun', hr⟩ := emptyMemory_fresh.represents.fills () _ List.nodup_range hout
  obtain rfl : m' = m'' := by
    rw [hrun] at hrun'
    exact (Prod.mk.inj (Option.some.inj hrun')).2
  have hlength := hviews.length ()
  have hwrapped := hr.length ()
  rw [Function.update_self, List.nil_append, List.length_range] at hlength hwrapped
  rw [getLength, hwrapped, hsize, Nat.mod_self] at hlength
  exact Nat.ne_of_lt (Nat.two_pow_pos 32) hlength

end QueueMemory

end CxxFramework.Core
