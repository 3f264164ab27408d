import CxxFramework.Library.Transition
import Mathlib.Algebra.Group.Nat.Defs
import Mathlib.Data.List.Basic

/-!
# Recursive mutexes

`Mutex` makes a recursive lock from a pthread mutex, by a holder and a count, and
`Cond::TimedWait` takes both back around the wait. What a thread does while it holds the
pthread mutex, up to the next call of its own, is one step.

`fHolderCount` is kept over a wait: of a thread that waits from depth `d`, the count
`d - 1` is left to the next holder. So the count is right throughout a run exactly if no
thread gets the mutex while another one waits from a depth of two or more.

## Main definitions

* `Mutex.next` — the steps of any number of threads on one mutex.
* `Mutex.Described` — `fHolder` and `fHolderCount` describe the owner.
* `Mutex.Ok` — the condition on getting the mutex.
-/

namespace CxxFramework.Core

open Transition

/-- The number range of `fHolderCount`. -/
def kHolderCountSize : Nat := 2 ^ 32

structure Mutex (Tid : Type) where
  /-- The thread that owns the pthread mutex. -/
  fMutex : Option Tid := none
  /-- `none` is the value 0. -/
  fHolder : Option Tid := none
  fHolderCount : Nat := 0
deriving DecidableEq, Repr

namespace Mutex

variable {Tid : Type}

/-! ## The mutex -/

def incrementCount (m : Mutex Tid) : Mutex Tid :=
  { m with fHolderCount := (m.fHolderCount + 1) % kHolderCountSize }

def decrementCount (m : Mutex Tid) : Mutex Tid :=
  { m with fHolderCount := (m.fHolderCount + kHolderCountSize - 1) % kHolderCountSize }

/-- What a thread does once it has the pthread mutex. -/
def acquire (m : Mutex Tid) (t : Tid) : Mutex Tid :=
  { m.incrementCount with fMutex := some t, fHolder := some t }

variable [DecidableEq Tid]

/-- `Mutex::RecursiveLock`; `none` as long as it blocks. -/
def recursiveLock (m : Mutex Tid) (t : Tid) : Option (Mutex Tid) :=
  if m.fHolder = some t then some m.incrementCount
  else if m.fMutex = none then some (m.acquire t)
  else none

/-- `Mutex::RecursiveTryLock` -/
def recursiveTryLock (m : Mutex Tid) (t : Tid) : Bool × Mutex Tid :=
  match m.recursiveLock t with
  | some m => (true, m)
  | none => (false, m)

/-- `Mutex::RecursiveUnlock` -/
def recursiveUnlock (m : Mutex Tid) (t : Tid) : Mutex Tid :=
  if m.fHolder ≠ some t then m
  else if m.decrementCount.fHolderCount = 0 then
    { m.decrementCount with fMutex := none, fHolder := none }
  else m.decrementCount

omit [DecidableEq Tid] in
/-- `Cond::TimedWait` up to the wait, which gives the pthread mutex back. -/
def beginWait (m : Mutex Tid) : Mutex Tid :=
  { m.decrementCount with fMutex := none, fHolder := none }

/-! ## The threads -/

/-- A mutex and its threads: how many `Lock`s each one has not undone, and which ones are
in a wait. -/
structure State (Tid : Type) where
  mutex : Mutex Tid := {}
  depth : Tid → Nat := fun _ => 0
  waiting : List Tid := []

inductive Action (Tid : Type) where
  | lock (t : Tid)
  | tryLock (t : Tid)
  | unlock (t : Tid)
  | beginWait (t : Tid)
  | endWait (t : Tid)
deriving DecidableEq, Repr

/-- A `Lock` of thread `t` has succeeded. -/
def State.locked (s : State Tid) (t : Tid) (mutex : Mutex Tid) : State Tid :=
  { s with mutex, depth := Function.update s.depth t (s.depth t + 1) }

/-- One step of one thread. A thread in a wait can only return from it, with the pthread
mutex, at any time it is free: signals and the timeout put no constraint on that. -/
def next (s : State Tid) : Action Tid → Option (State Tid)
  | .lock t =>
    if t ∈ s.waiting then none else (s.mutex.recursiveLock t).map (s.locked t)
  | .tryLock t =>
    if t ∈ s.waiting then none
    else
      match s.mutex.recursiveTryLock t with
      | (true, mutex) => some (s.locked t mutex)
      | (false, mutex) => some { s with mutex }
  | .unlock t =>
    if t ∈ s.waiting then none
    else
      some
        { s with
          mutex := s.mutex.recursiveUnlock t
          depth := Function.update s.depth t (s.depth t - 1) }
  | .beginWait t =>
    if s.mutex.fMutex = some t then
      some { s with mutex := s.mutex.beginWait, waiting := t :: s.waiting }
    else none
  | .endWait t =>
    if t ∈ s.waiting ∧ s.mutex.fMutex = none then
      some { s with mutex := s.mutex.acquire t, waiting := s.waiting.erase t }
    else none

/-- A new mutex that no thread uses yet. -/
def Fresh (s : State Tid) : Prop :=
  s.mutex = {} ∧ (∀ t, s.depth t = 0) ∧ s.waiting = []

abbrev system (Tid : Type) [DecidableEq Tid] : System (State Tid) (Action Tid) :=
  .ofPartial Fresh next

/-- While the pthread mutex is held, the holder is its owner and the count is the owner's
nesting depth. -/
def Described (s : State Tid) : Prop :=
  ∀ t ∈ s.mutex.fMutex, s.mutex.fHolder = some t ∧ s.mutex.fHolderCount = s.depth t

/-- An `Unlock` of the owner gives the pthread mutex back exactly if it undoes the
outermost `Lock`. -/
def Releases (s : State Tid) (a : Action Tid) (s' : State Tid) : Prop :=
  ∀ t ∈ s.mutex.fMutex, a = .unlock t → (s'.mutex.fMutex = none ↔ s.depth t = 1)

instance (s : State Tid) : Decidable (Described s) :=
  inferInstanceAs (Decidable (∀ _ ∈ _, _))

instance (s s' : State Tid) (a : Action Tid) : Decidable (Releases s a s') :=
  inferInstanceAs (Decidable (∀ _ ∈ _, _))

/-- No thread but `t` waits from a depth of two or more. -/
def NoNestedWait (s : State Tid) (t : Tid) : Prop := ∀ u ∈ s.waiting, u ≠ t → s.depth u ≤ 1

instance (s : State Tid) (t : Tid) : Decidable (NoNestedWait s t) :=
  inferInstanceAs (Decidable (∀ _ ∈ _, _))

/-- The depth of the owner stays in the range of `fHolderCount`, and a thread that gets the
mutex gets it while no other one is in a nested wait. -/
def LockOk (s : State Tid) (t : Tid) : Prop :=
  (s.mutex.fMutex = some t → s.depth t + 1 < kHolderCountSize) ∧
    (s.mutex.fMutex = none → NoNestedWait s t)

instance (s : State Tid) (t : Tid) : Decidable (LockOk s t) :=
  inferInstanceAs (Decidable (_ ∧ _))

/-- The condition on the steps that get the mutex. -/
def Ok (s : State Tid) : Action Tid → Prop
  | .lock t | .tryLock t => LockOk s t
  | .endWait t => NoNestedWait s t
  | .unlock _ | .beginWait _ => True

instance (s : State Tid) (a : Action Tid) : Decidable (Ok s a) := by
  cases a <;> unfold Ok <;> infer_instance

/-! ## The invariant -/

section Invariant

variable {Tid : Type} {s : State Tid} {m : Mutex Tid}

/-- The count that waiting threads leave to the next holder: that of the one thread in a
nested wait, if there is one. -/
inductive Left (s : State Tid) : Prop
  | none : s.mutex.fHolderCount = 0 → (∀ u ∈ s.waiting, s.depth u ≤ 1) → Left s
  | nested (u : Tid) : u ∈ s.waiting → 1 < s.depth u → s.mutex.fHolderCount = s.depth u - 1 →
      NoNestedWait s u → Left s

structure Inv (s : State Tid) : Prop where
  owned : ∀ t ∈ s.mutex.fMutex, s.mutex.fHolder = some t ∧ s.mutex.fHolderCount = s.depth t ∧
    t ∉ s.waiting ∧ ∀ u ∈ s.waiting, s.depth u ≤ 1
  free : s.mutex.fMutex = none → s.mutex.fHolder = none ∧ Left s
  active : ∀ t, 0 < s.depth t ↔ s.mutex.fMutex = some t ∨ t ∈ s.waiting
  lt : ∀ t, s.depth t < kHolderCountSize
  nodup : s.waiting.Nodup

theorem Fresh.inv (h : Fresh s) : Inv s := by
  obtain ⟨hmutex, hdepth, hwaiting⟩ := h
  refine ⟨?_, ?_, ?_, ?_, ?_⟩
  · intro t ht
    rw [hmutex] at ht
    cases ht
  · intro _
    refine ⟨by rw [hmutex], .none (by rw [hmutex]) ?_⟩
    intro u hu
    rw [hdepth u]
    exact Nat.zero_le 1
  · intro t
    simp [hmutex, hdepth, hwaiting]
  · intro t
    rw [hdepth t]
    decide
  · rw [hwaiting]
    exact List.nodup_nil

theorem Inv.described (hi : Inv s) : Described s := by
  intro t ht
  obtain ⟨hholder, hcount, -⟩ := hi.owned t ht
  exact ⟨hholder, hcount⟩

/-- The count of a free mutex is 0 exactly if no thread is in a nested wait. -/
theorem Left.count_eq_zero (h : Left s) :
    s.mutex.fHolderCount = 0 ↔ ∀ u ∈ s.waiting, s.depth u ≤ 1 := by
  cases h with
  | none hzero hall => exact iff_of_true hzero hall
  | nested u hmem hdepth hcount _ =>
    refine iff_of_false (by omega) ?_
    intro hall
    have := hall u hmem
    omega

theorem Left.count_lt (h : Left s) (hlt : ∀ t, s.depth t < kHolderCountSize) :
    s.mutex.fHolderCount + 1 < kHolderCountSize := by
  cases h with
  | none hzero _ =>
    rw [hzero]
    decide
  | nested u _ hdepth hcount _ =>
    have := hlt u
    omega

theorem incrementCount_of_lt (h : m.fHolderCount + 1 < kHolderCountSize) :
    m.incrementCount.fHolderCount = m.fHolderCount + 1 := Nat.mod_eq_of_lt h

theorem decrementCount_of_pos (hpos : 0 < m.fHolderCount)
    (hlt : m.fHolderCount < kHolderCountSize) :
    m.decrementCount.fHolderCount = m.fHolderCount - 1 := by
  unfold kHolderCountSize at hlt
  simp only [decrementCount, kHolderCountSize]
  omega

end Invariant

variable {s s' : State Tid} {t : Tid} {m : Mutex Tid} {a : Action Tid}

/-! ## Locking -/

/-- A `Lock` of the owner. -/
theorem locked_again (hi : Inv s) (howner : s.mutex.fMutex = some t) :
    (Described (s.locked t s.mutex.incrementCount) ↔ LockOk s t) ∧
      (LockOk s t → Inv (s.locked t s.mutex.incrementCount)) := by
  obtain ⟨hholder, hcount, hwait, hothers⟩ := hi.owned t howner
  have hok : LockOk s t ↔ s.depth t + 1 < kHolderCountSize := by
    unfold LockOk
    simp [howner]
  rw [hok]
  constructor
  · unfold Described
    simp only [State.locked, incrementCount, howner, Option.mem_some_iff, forall_eq',
      Function.update_self, hcount, hholder, true_and]
    have hlt := hi.lt t
    unfold kHolderCountSize at hlt ⊢
    omega
  · intro hlt
    have hne : ∀ u ∈ s.waiting, u ≠ t := by
      rintro u hu rfl
      exact hwait hu
    refine ⟨?_, ?_, ?_, ?_, hi.nodup⟩
    · intro u hu
      obtain rfl : t = u := Option.some.inj (howner.symm.trans hu)
      refine ⟨hholder, ?_, hwait, ?_⟩
      · simp only [State.locked, Function.update_self]
        rw [incrementCount_of_lt (hcount ▸ hlt), hcount]
      · intro u hu
        simp only [State.locked, Function.update_of_ne (hne u hu)]
        exact hothers u hu
    · intro hfree
      cases howner.symm.trans hfree
    · intro u
      by_cases hu : u = t
      · subst hu
        simp [State.locked, incrementCount, howner]
      · simp only [State.locked, Function.update_of_ne hu]
        exact hi.active u
    · intro u
      by_cases hu : u = t
      · subst hu
        simpa [State.locked] using hlt
      · simp only [State.locked, Function.update_of_ne hu]
        exact hi.lt u

/-- A `Lock` that takes the free mutex. -/
theorem locked_first (hi : Inv s) (hfree : s.mutex.fMutex = none) (hwait : t ∉ s.waiting) :
    (Described (s.locked t (s.mutex.acquire t)) ↔ LockOk s t) ∧
      (LockOk s t → Inv (s.locked t (s.mutex.acquire t))) := by
  obtain ⟨hholder, hleft⟩ := hi.free hfree
  have hdepth : s.depth t = 0 := by
    have hactive := hi.active t
    rw [hfree] at hactive
    simpa [hwait] using hactive
  have hne : ∀ u ∈ s.waiting, u ≠ t := by
    rintro u hu rfl
    exact hwait hu
  have hok : LockOk s t ↔ s.mutex.fHolderCount = 0 := by
    rw [hleft.count_eq_zero]
    simp only [LockOk, hfree, reduceCtorEq, false_implies, true_and, true_implies, NoNestedWait]
    exact ⟨fun h u hu => h u hu (hne u hu), fun h u hu _ => h u hu⟩
  have hcount := incrementCount_of_lt (hleft.count_lt hi.lt)
  rw [hok]
  constructor
  · unfold Described
    simp only [State.locked, acquire, Option.mem_some_iff, forall_eq', Function.update_self,
      hcount, hdepth, true_and]
    omega
  · intro hzero
    refine ⟨?_, ?_, ?_, ?_, hi.nodup⟩
    · rintro u ⟨⟩
      refine ⟨rfl, ?_, hwait, ?_⟩
      · simp only [State.locked, acquire, Function.update_self, hcount, hdepth, hzero]
      · intro u hu
        simp only [State.locked, Function.update_of_ne (hne u hu)]
        exact hleft.count_eq_zero.mp hzero u hu
    · rintro ⟨⟩
    · intro u
      by_cases hu : u = t
      · subst hu
        simp [State.locked, acquire]
      · have hactive := hi.active u
        rw [hfree] at hactive
        simp only [State.locked, acquire, Function.update_of_ne hu, hactive, Option.some.injEq,
          Ne.symm hu, reduceCtorEq]
    · intro u
      by_cases hu : u = t
      · subst hu
        simp only [State.locked, Function.update_self, hdepth]
        decide
      · simp only [State.locked, Function.update_of_ne hu]
        exact hi.lt u

theorem recursiveLock_locked (hi : Inv s) (hwait : t ∉ s.waiting)
    (h : s.mutex.recursiveLock t = some m) :
    (Described (s.locked t m) ↔ LockOk s t) ∧ (LockOk s t → Inv (s.locked t m)) := by
  unfold recursiveLock at h
  split_ifs at h with hmine hfree
  · obtain rfl := Option.some.inj h
    have howner : s.mutex.fMutex = some t := by
      cases howner : s.mutex.fMutex with
      | none => cases (hi.free howner).1.symm.trans hmine
      | some u => exact ((hi.owned u howner).1.symm.trans hmine)
    exact locked_again hi howner
  · obtain rfl := Option.some.inj h
    exact locked_first hi hfree hwait

/-- A `TryLock` fails only while another thread has the mutex. -/
theorem lockOk_of_blocked (hi : Inv s) (h : s.mutex.recursiveLock t = none) : LockOk s t := by
  unfold recursiveLock at h
  split_ifs at h with hmine hfree
  constructor
  · intro howner
    exact absurd (hi.owned t howner).1 hmine
  · intro hfree'
    exact absurd hfree' hfree

/-! ## Unlocking -/

/-- An `Unlock` of a thread that has nothing locked does nothing. -/
theorem unlock_other (hi : Inv s) (hwait : t ∉ s.waiting) (howner : s.mutex.fMutex ≠ some t) :
    s.mutex.recursiveUnlock t = s.mutex ∧
      Function.update s.depth t (s.depth t - 1) = s.depth := by
  have hdepth : s.depth t = 0 := by
    have hactive := hi.active t
    simpa [howner, hwait] using hactive
  have hholder : s.mutex.fHolder ≠ some t := by
    cases hfree : s.mutex.fMutex with
    | none => simp [(hi.free hfree).1]
    | some u =>
      rw [(hi.owned u hfree).1]
      intro hu
      exact howner (hfree.trans hu)
  refine ⟨if_pos hholder, ?_⟩
  rw [hdepth, Nat.zero_sub, ← hdepth, Function.update_eq_self]

theorem unlock_owner (hi : Inv s) (howner : s.mutex.fMutex = some t) :
    ((s.mutex.recursiveUnlock t).fMutex = none ↔ s.depth t = 1) ∧
      Inv
        { s with
          mutex := s.mutex.recursiveUnlock t
          depth := Function.update s.depth t (s.depth t - 1) } := by
  obtain ⟨hholder, hcount, hwait, hothers⟩ := hi.owned t howner
  have hpos : 0 < s.depth t := (hi.active t).mpr (.inl howner)
  have hlt := hi.lt t
  have hdec : s.mutex.decrementCount.fHolderCount = s.depth t - 1 := by
    rw [decrementCount_of_pos (hcount ▸ hpos) (hcount ▸ hlt), hcount]
  have hne : ∀ u ∈ s.waiting, u ≠ t := by
    rintro u hu rfl
    exact hwait hu
  have hothers' : ∀ u ∈ s.waiting, Function.update s.depth t (s.depth t - 1) u ≤ 1 := by
    intro u hu
    simp only [Function.update_of_ne (hne u hu)]
    exact hothers u hu
  have hlt' : ∀ u, Function.update s.depth t (s.depth t - 1) u < kHolderCountSize := by
    intro u
    by_cases hu : u = t
    · subst hu
      rw [Function.update_self]
      omega
    · simp only [Function.update_of_ne hu]
      exact hi.lt u
  have howner' : s.mutex.decrementCount.fMutex = some t := by rw [← howner, decrementCount]
  have hholder' : s.mutex.decrementCount.fHolder = some t := by rw [← hholder, decrementCount]
  unfold recursiveUnlock
  rw [if_neg (not_not.mpr hholder)]
  generalize s.mutex.decrementCount = m at hdec howner' hholder' ⊢
  rw [hdec]
  split_ifs with hlast
  · refine ⟨iff_of_true rfl (by omega), ?_, ?_, ?_, hlt', hi.nodup⟩
    · rintro u ⟨⟩
    · intro _
      exact ⟨rfl, .none (hdec.trans hlast) hothers'⟩
    · intro u
      by_cases hu : u = t
      · subst hu
        simp [hlast, hwait]
      · have hactive := hi.active u
        simp only [howner, Option.some.injEq, Ne.symm hu, false_or] at hactive
        simp [Function.update_of_ne hu, hactive]
  · refine ⟨iff_of_false ?_ (by omega), ?_, ?_, ?_, hlt', hi.nodup⟩
    · simp [howner']
    · intro u hu
      obtain rfl : t = u := Option.some.inj (howner'.symm.trans hu)
      exact ⟨hholder', by simpa using hdec, hwait, hothers'⟩
    · intro hfree
      cases howner'.symm.trans hfree
    · intro u
      by_cases hu : u = t
      · subst hu
        simp [howner', Nat.pos_of_ne_zero hlast]
      · simp only [Function.update_of_ne hu, howner']
        rw [hi.active u, howner]

/-! ## Waiting -/

omit [DecidableEq Tid] in
theorem beginWait_inv (hi : Inv s) (howner : s.mutex.fMutex = some t) :
    Inv { s with mutex := s.mutex.beginWait, waiting := t :: s.waiting } := by
  obtain ⟨-, hcount, hwait, hothers⟩ := hi.owned t howner
  have hpos : 0 < s.depth t := (hi.active t).mpr (.inl howner)
  have hlt := hi.lt t
  have hdec : s.mutex.decrementCount.fHolderCount = s.depth t - 1 := by
    rw [decrementCount_of_pos (hcount ▸ hpos) (hcount ▸ hlt), hcount]
  refine ⟨?_, ?_, ?_, hi.lt, List.nodup_cons.mpr ⟨hwait, hi.nodup⟩⟩
  · rintro u ⟨⟩
  · intro _
    refine ⟨rfl, ?_⟩
    by_cases hnested : 1 < s.depth t
    · refine .nested t List.mem_cons_self hnested hdec ?_
      intro u hu hut
      exact hothers u ((List.mem_cons.mp hu).resolve_left hut)
    · have hone : s.depth t = 1 := by omega
      refine .none (hdec.trans (by rw [hone])) ?_
      rw [List.forall_mem_cons]
      exact ⟨Nat.le_of_eq hone, hothers⟩
  · intro u
    rw [hi.active u, howner]
    simp only [beginWait, List.mem_cons, Option.some.injEq, reduceCtorEq, false_or, eq_comm]

/-- A thread that returns from its wait finds its count unless another one is in a nested
wait. -/
theorem endWait_spec (hi : Inv s) (hmem : t ∈ s.waiting) (hfree : s.mutex.fMutex = none) :
    let s' : State Tid := { s with mutex := s.mutex.acquire t, waiting := s.waiting.erase t }
    (Described s' ↔ NoNestedWait s t) ∧ (NoNestedWait s t → Inv s') := by
  intro s'
  obtain ⟨-, hleft⟩ := hi.free hfree
  have hpos : 0 < s.depth t := (hi.active t).mpr (.inr hmem)
  have hinc : s'.mutex.fHolderCount = s.mutex.fHolderCount + 1 :=
    incrementCount_of_lt (hleft.count_lt hi.lt)
  have hdescribed : Described s' ↔ s.mutex.fHolderCount + 1 = s.depth t := by
    rw [← hinc]
    simp [Described, s', acquire]
  have hcount : s.mutex.fHolderCount + 1 = s.depth t ↔ NoNestedWait s t := by
    cases hleft with
    | none hzero hall =>
      have := hall t hmem
      exact iff_of_true (by omega) fun u hu _ => hall u hu
    | nested u hu hdepth hcount hothers =>
      by_cases hut : t = u
      · subst hut
        exact iff_of_true (by omega) hothers
      · have := hothers t hmem hut
        refine iff_of_false (by omega) ?_
        intro hall
        have := hall u hu (Ne.symm hut)
        omega
  refine ⟨hdescribed.trans hcount, ?_⟩
  intro hok
  have hwait : t ∉ s.waiting.erase t := fun h => (hi.nodup.mem_erase_iff.mp h).1 rfl
  refine ⟨?_, ?_, ?_, hi.lt, hi.nodup.erase t⟩
  · rintro u ⟨⟩
    refine ⟨rfl, hinc.trans (hcount.mpr hok), hwait, ?_⟩
    intro u hu
    obtain ⟨hut, hu⟩ := hi.nodup.mem_erase_iff.mp hu
    exact hok u hu hut
  · rintro ⟨⟩
  · intro u
    rw [hi.active u, hfree]
    simp only [s', acquire, Option.some.injEq, hi.nodup.mem_erase_iff, reduceCtorEq, false_or]
    by_cases hut : u = t
    · subst hut
      simp [hmem]
    · simp [hut, Ne.symm hut]

/-! ## Runs -/

theorem next_inv (hi : Inv s) (h : next s a = some s') :
    (Described s' ∧ Releases s a s' ↔ Ok s a) ∧ (Ok s a → Inv s') := by
  have hother : (∀ t, a ≠ .unlock t) → (Described s' ↔ Ok s a) →
      (Described s' ∧ Releases s a s' ↔ Ok s a) := by
    intro hne hiff
    rw [hiff, and_iff_left_iff_imp]
    intro _ t _ ha
    exact absurd ha (hne t)
  cases a with
  | lock t =>
    simp only [next, Option.ite_none_left_eq_some, Option.map_eq_some_iff] at h
    obtain ⟨hwait, mutex, hlock, rfl⟩ := h
    obtain ⟨hiff, hinv⟩ := recursiveLock_locked hi hwait hlock
    exact ⟨hother nofun hiff, hinv⟩
  | tryLock t =>
    simp only [next, recursiveTryLock, Option.ite_none_left_eq_some] at h
    obtain ⟨hwait, h⟩ := h
    cases hlock : s.mutex.recursiveLock t with
    | some mutex =>
      simp only [hlock, Option.some.injEq] at h
      subst h
      obtain ⟨hiff, hinv⟩ := recursiveLock_locked hi hwait hlock
      exact ⟨hother nofun hiff, hinv⟩
    | none =>
      simp only [hlock, Option.some.injEq] at h
      subst h
      exact ⟨hother nofun (iff_of_true hi.described (lockOk_of_blocked hi hlock)), fun _ => hi⟩
  | unlock t =>
    simp only [next, Option.ite_none_left_eq_some, Option.some.injEq] at h
    obtain ⟨hwait, rfl⟩ := h
    by_cases howner : s.mutex.fMutex = some t
    · obtain ⟨hiff, hinv⟩ := unlock_owner hi howner
      refine ⟨iff_of_true ⟨hinv.described, ?_⟩ trivial, fun _ => hinv⟩
      intro u hu _
      obtain rfl : t = u := Option.some.inj (howner.symm.trans hu)
      exact hiff
    · obtain ⟨hmutex, hdepth⟩ := unlock_other hi hwait howner
      rw [hmutex, hdepth]
      refine ⟨iff_of_true ⟨hi.described, ?_⟩ trivial, fun _ => hi⟩
      rintro u hu ⟨⟩
      exact absurd hu howner
  | beginWait t =>
    simp only [next, Option.ite_none_right_eq_some, Option.some.injEq] at h
    obtain ⟨howner, rfl⟩ := h
    have hinv := beginWait_inv hi howner
    exact ⟨hother nofun (iff_of_true hinv.described trivial), fun _ => hinv⟩
  | endWait t =>
    simp only [next, Option.ite_none_right_eq_some, Option.some.injEq] at h
    obtain ⟨⟨hmem, hfree⟩, rfl⟩ := h
    obtain ⟨hiff, hinv⟩ := endWait_spec hi hmem hfree
    exact ⟨hother nofun hiff, hinv⟩

/-- Throughout a run, holder and count describe the owner, and the outermost `Unlock` and
no other gives the mutex back, exactly if no thread gets the mutex while another one is in
a nested wait. -/
theorem described_iff (Tid : Type) [DecidableEq Tid] {s : State Tid} (fresh : Fresh s)
    (as : List (Action Tid)) :
    (system Tid).Keeps (fun s a s' => Described s' ∧ Releases s a s') s as ↔
      (system Tid).Meets Ok s as := by
  refine System.keeps_iff_meets Inv ?_ ?_ fresh.inv as
  · intro s a s' hi hstep hok
    obtain ⟨hiff, hinv⟩ := next_inv hi hstep
    exact ⟨hiff.mpr hok, hinv hok⟩
  · intro s a s' hi hstep hkeeps
    exact (next_inv hi hstep).1.mp hkeeps

/-! ### Examples -/

/-- Thread 0 locks once and waits, and thread 1 locks twice meanwhile. -/
def waitOnce : List (Action Nat) :=
  [.lock 0, .beginWait 0, .lock 1, .tryLock 1, .unlock 1, .unlock 1, .endWait 0, .unlock 0]

theorem described_iff_waitOnce :
    (system Nat).Keeps (fun s a s' => Described s' ∧ Releases s a s') {} waitOnce :=
  (described_iff Nat ⟨rfl, fun _ => rfl, rfl⟩ waitOnce).mpr (by decide)

/-- Thread 0 waits after two `Lock`s; the `Unlock` of thread 1 then gives nothing back. -/
def waitNested : List (Action Nat) :=
  [.lock 0, .lock 0, .beginWait 0, .lock 1, .unlock 1]

theorem waitNested_not_described :
    ¬ (system Nat).Keeps (fun s a s' => Described s' ∧ Releases s a s') {} waitNested := by
  decide

end Mutex

end CxxFramework.Core
