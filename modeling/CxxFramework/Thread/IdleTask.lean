import CxxFramework.Core.HeapRun
import Mathlib.Algebra.Group.Int.Defs
import Mathlib.Algebra.Group.Nat.Defs

/-!
# Idle timers

`IdleTaskThread` keeps the deadlines of the idle tasks in a heap. Everything it does is
done under `fHeapMutex`, so that each call, and each pass of `Entry` from one wait to the
next, is one step.

Cancelling a timer takes an element out of the middle of the heap, which keeps the heap in
order only if the last leaf may take its place (`RemoveOk`). The heap holds at most
`2 ^ 31 - 1` timers: a larger array has no `UInt32` size.

## Main definitions

* `Timers` — what the service is for: at most one deadline for each task.
* `IdleTask.next` — the steps of the service.
* `IdleTask.Serves` — a step does to the timers what it is for.
-/

namespace CxxFramework.Thread

open Transition CxxFramework.Core CxxFramework.Core.Heap

/-! ## Timers -/

/-- The deadlines of the tasks that have one. -/
abbrev Timers := ElemPtr → Option Int

namespace Timers

/-- A new deadline replaces one that is later. -/
def set (timers : Timers) (task : ElemPtr) (deadline : Int) : Timers :=
  Function.update timers task
    (some ((timers task).elim deadline fun pending => min pending deadline))

def cancel (timers : Timers) (task : ElemPtr) : Timers := Function.update timers task none

/-- The deadline of the task is not after `now`. -/
def Expired (timers : Timers) (now : Int) (task : ElemPtr) : Prop :=
  ∃ deadline ∈ timers task, deadline ≤ now

/-- The tasks of a list are exactly those that expire, and lose their timers. -/
structure Pass (timers : Timers) (now : Int) (tasks : List ElemPtr) (timers' : Timers) :
    Prop where
  nodup : tasks.Nodup
  mem_iff : ∀ task, task ∈ tasks ↔ timers.Expired now task
  rest : ∀ task, timers' task = if task ∈ tasks then none else timers task

theorem Pass.nil {timers : Timers} {now : Int}
    (h : ∀ task, ¬ timers.Expired now task) : timers.Pass now [] timers where
  nodup := List.nodup_nil
  mem_iff task := iff_of_false List.not_mem_nil (h task)
  rest _ := (if_neg List.not_mem_nil).symm

theorem Pass.cons {timers timers' : Timers} {now : Int} {task : ElemPtr}
    {tasks : List ElemPtr} (hexpired : timers.Expired now task)
    (h : (timers.cancel task).Pass now tasks timers') :
    timers.Pass now (task :: tasks) timers' := by
  have hself : ¬ (timers.cancel task).Expired now task := by
    rintro ⟨deadline, hd, -⟩
    simp [cancel] at hd
  have hother : ∀ e, e ≠ task → (timers.cancel task).Expired now e = timers.Expired now e := by
    intro e he
    simp only [Expired, cancel, Function.update_of_ne he]
  refine ⟨?_, ?_, ?_⟩
  · exact List.nodup_cons.mpr ⟨mt (h.mem_iff task).mp hself, h.nodup⟩
  · intro e
    by_cases he : e = task
    · simp [he, hexpired]
    · simp [he, h.mem_iff, hother e he]
  · intro e
    rw [h.rest]
    by_cases he : e = task
    · simp [he, cancel]
    · simp [he, cancel]

end Timers

namespace IdleTask

/-- An idle task is given by the address of its `fIdleElem`. -/
abbrev Task := { fIdleElem : ElemPtr // fIdleElem ≠ nullptr }

/-- The heap, and the tasks that `kIdleEvent` has been signalled to, in order. -/
structure State where
  fIdleHeap : HeapWorld
  signals : List ElemPtr := []

/-- Every call that reads the clock is given what it reads. -/
inductive Action where
  | setIdleTimer (task : Task) (now msec : Int)
  | cancelTimeout (task : Task)
  | destroy (task : Task)
  | pass (now : Int)
deriving DecidableEq

/-! ## The service -/

/-- Addition of `SInt64` values. -/
def sint64Add (a b : Int) : Int := (a + b).bmod (2 ^ 64)

/-- `IdleTaskThread::SetIdleTimer` -/
def setIdleTimer (this : HeapId) (w : HeapWorld) (activeObj : Task) (now msec : Int) :
    Option HeapWorld :=
  let theMsec := sint64Add now msec
  if (w.elems activeObj).isMemberOfAnyHeap then
    update w activeObj theMsec { expectUp := true }
  else insert this { w with elems := w.elems.setValue activeObj theMsec } activeObj

/-- `IdleTaskThread::CancelTimeout` -/
def cancelTimeout (this : HeapId) (w : HeapWorld) (idleObj : Task) : Option HeapWorld :=
  (remove this w idleObj).map Prod.snd

/-- `IdleTask::~IdleTask` -/
def destroy (this : HeapId) (w : HeapWorld) (task : Task) : Option HeapWorld :=
  if (w.elems task).isMemberOfAnyHeap then cancelTimeout this w task else some w

theorem extractMin_fFreeIndex {this : HeapId} {w w' : HeapWorld} {elem : ElemPtr}
    (hsize : w.heap.currentHeapSize > 0) (h : extractMin this w = some (elem, w')) :
    w'.heap.fFreeIndex < w.heap.fFreeIndex := by
  unfold currentHeapSize at hsize
  dsimp only [extractMin, extract] at h
  split_ifs at h with hempty
  · omega
  · obtain ⟨g, -, heq⟩ := Option.map_eq_some_iff.mp h
    obtain ⟨-, rfl⟩ := Prod.mk.inj heq
    simp only
    omega

/-- The inner loop of `IdleTaskThread::Entry`, with the tasks it signals. -/
def signalExpired (this : HeapId) (msec : Int) (w : HeapWorld) :
    Option (List ElemPtr × HeapWorld) :=
  if _hloop : w.heap.currentHeapSize > 0 ∧ w.elems.value w.heap.peekMin ≤ msec then
    match _hmin : extractMin this w with
    | none => none
    | some (elem, w') =>
      (signalExpired this msec w').map fun (tasks, w') => (elem :: tasks, w')
  else some ([], w)
termination_by w.heap.fFreeIndex
decreasing_by exact extractMin_fFreeIndex _hloop.1 _hmin

/-- One step; `none` when an assertion of the heap fails. -/
def next (this : HeapId) (s : State) : Action → Option State
  | .setIdleTimer task now msec =>
    (setIdleTimer this s.fIdleHeap task now msec).map fun fIdleHeap => { s with fIdleHeap }
  | .cancelTimeout task =>
    (cancelTimeout this s.fIdleHeap task).map fun fIdleHeap => { s with fIdleHeap }
  | .destroy task =>
    (destroy this s.fIdleHeap task).map fun fIdleHeap => { s with fIdleHeap }
  | .pass now =>
    (signalExpired this now s.fIdleHeap).map fun (tasks, fIdleHeap) =>
      { fIdleHeap, signals := s.signals ++ tasks }

/-- A new heap, and tasks without timers. -/
def Fresh (s : State) : Prop :=
  (∃ inStartSize < kIndexSize, s.fIdleHeap.heap = Heap.new inStartSize) ∧
    ∀ e, s.fIdleHeap.elems.current e = none

/-- Any steps in any order; a step that fails an assertion ends the run. -/
abbrev system (this : HeapId) : System (Option State) Action :=
  .ofFallible Fresh (fun _ _ => True) (next this)

/-- The timers that a heap holds. -/
def pending (this : HeapId) (w : HeapWorld) : Timers := fun task =>
  if w.elems.current task = some this then some (w.elems.value task) else none

/-- What a step does to the timers, and whom it signals. -/
def Serves (this : HeapId) (s : State) (a : Action) (s' : State) : Prop :=
  let timers := pending this s.fIdleHeap
  let timers' := pending this s'.fIdleHeap
  match a with
  | .setIdleTimer task now msec => s'.signals = s.signals ∧ timers' = timers.set task (now + msec)
  | .cancelTimeout task | .destroy task => s'.signals = s.signals ∧ timers' = timers.cancel task
  | .pass now => ∃ tasks, s'.signals = s.signals ++ tasks ∧ timers.Pass now tasks timers'

/-- The deadline fits in an `SInt64` and a new timer in the heap, and the last leaf may take
the place of a timer that is cancelled. -/
def Ok (s : State) : Action → Prop
  | .setIdleTimer task now msec =>
    (-2 ^ 63 ≤ now + msec ∧ now + msec < 2 ^ 63) ∧
      ((s.fIdleHeap.elems task).isMemberOfAnyHeap ∨ s.fIdleHeap.heap.fFreeIndex < 2 ^ 31)
  | .cancelTimeout task | .destroy task => RemoveOk s.fIdleHeap task
  | .pass _ => True

instance (w : HeapWorld) (e : ElemPtr) : Decidable (RemoveOk w e) :=
  decidable_of_iff
    (∀ k < w.heap.fFreeIndex, 2 ≤ k → w.heap.fHeap k = e →
      w.slotValue (k / 2) ≤ w.slotValue (w.heap.fFreeIndex - 1))
    ⟨fun h k h2 hk => h k hk h2, fun h k hk h2 => h k h2 hk⟩

instance (s : State) : (a : Action) → Decidable (Ok s a)
  | .setIdleTimer _ _ _ => inferInstanceAs (Decidable (_ ∧ _))
  | .cancelTimeout task | .destroy task =>
    inferInstanceAs (Decidable (RemoveOk s.fIdleHeap task))
  | .pass _ => inferInstanceAs (Decidable True)

/-! ## Operations on the heap -/

variable {this : HeapId} {w w' : HeapWorld} {s s' : State} {a : Action}

/-- The heap is in order, is not too large, and holds every element that is in a heap. -/
structure Good (this : HeapId) (w : HeapWorld) : Prop where
  inv : Heap.Inv this w
  ordered : HeapOrder w
  small : w.heap.Small
  only : ∀ e, w.elems.current e = none ∨ w.elems.current e = some this

theorem Fresh.good (fresh : Fresh s) : Good this s.fIdleHeap := by
  obtain ⟨hnew, hnone⟩ := fresh
  have hfresh : Heap.Fresh this s.fIdleHeap := ⟨hnew, fun e => by simp [hnone e]⟩
  obtain ⟨inStartSize, -, hheap⟩ := hnew
  refine ⟨hfresh.inv, hfresh.ordered, ?_, fun e => .inl (hnone e)⟩
  rw [hheap]
  exact Nat.one_le_two_pow

theorem isMemberOfAnyHeap_iff (hg : Good this w) (e : ElemPtr) :
    (w.elems e).isMemberOfAnyHeap ↔ w.elems.current e = some this := by
  have honly := hg.only e
  unfold Elems.current at honly ⊢
  unfold HeapElem.isMemberOfAnyHeap
  rcases honly with hnone | hsome
  · simp [hnone]
  · simp [hsome]

/-- The timers after the element of a task has left the heap, or has not been in it. -/
theorem pending_cancel (hvalue : w'.elems.value = w.elems.value) (e : ElemPtr)
    (hcurrent : w'.elems.current = Function.update w.elems.current e none) :
    pending this w' = (pending this w).cancel e := by
  funext task
  unfold pending Timers.cancel
  rw [hvalue, hcurrent]
  by_cases htask : task = e
  · simp [htask]
  · simp [htask]

theorem extract_good (hg : Good this w) {k : Nat} (hk : 1 ≤ k ∧ k < w.heap.fFreeIndex)
    (hok : 2 ≤ k → w.slotValue (k / 2) ≤ w.slotValue (w.heap.fFreeIndex - 1)) :
    ∃ w', extract this w k = some (w.heap.fHeap k, w') ∧ Good this w' ∧
      pending this w' = (pending this w).cancel (w.heap.fHeap k) := by
  obtain ⟨⟨r, w'⟩, hs⟩ := Option.isSome_iff_exists.mp (extract_isSome hg.inv hg.small hk.1)
  have hordered := (extract_ordered_iff hg.inv hg.ordered hg.small hk hs).mpr hok
  have hinv := extract_inv hg.inv hk.1 hs
  obtain ⟨rfl, g, -, rfl⟩ := extract_cases hg.inv hk hs
  refine ⟨_, hs, ⟨hinv, hordered, (Nat.sub_le _ _).trans hg.small, ?_⟩, ?_⟩
  · intro e
    simp only [released, Elems.current_setCurrentHeap]
    by_cases he : e = w.heap.fHeap k
    · simp [he]
    · simpa [he] using hg.only e
  · exact pending_cancel (by simp [released]) _ (by simp [released])

theorem cancelTimeout_spec (hg : Good this w) (task : Task) (hok : RemoveOk w task) :
    ∃ w', cancelTimeout this w task = some w' ∧ Good this w' ∧
      pending this w' = (pending this w).cancel task := by
  by_cases hmember : w.elems.current task = some this
  · obtain ⟨k, hk, hslot⟩ := hg.inv.onto _ hmember
    obtain ⟨w', hx, hg', hpending⟩ := extract_good hg hk fun h2 => hok k h2 hk.2 hslot
    refine ⟨w', ?_, hg', hslot ▸ hpending⟩
    have hfew : ¬ (w.heap.fFreeIndex ≤ 1 ∨ task.val = nullptr) := by
      rintro (hfew | hnull)
      · omega
      · exact task.2 hnull
    have hlocate : w.heap.locate task 1 = k := by
      rcases locate_spec w.heap task 1 hg.inv.free_pos with ⟨_, hnone⟩ | ⟨h1, hlt, he⟩
      · exact absurd hslot (hnone k hk.1 hk.2)
      · exact hg.inv.inj _ _ ⟨h1, hlt⟩ hk (he.trans hslot.symm)
    have hin : (w.elems task).isMemberOfAnyHeap = true :=
      (isMemberOfAnyHeap_iff hg task).mpr hmember
    simp only [cancelTimeout, remove, hfew, hin, hlocate, hk.2.ne, hx, if_false, Bool.not_true,
      Bool.false_eq_true, Option.map_some]
  · refine ⟨w, ?_, hg, ?_⟩
    · have hin : (w.elems task).isMemberOfAnyHeap = false := by
        rw [← Bool.not_eq_true, isMemberOfAnyHeap_iff hg]
        exact hmember
      simp [cancelTimeout, remove, hin]
    · funext e
      by_cases he : e = task
      · simp [he, pending, Timers.cancel, hmember]
      · simp [he, Timers.cancel]

theorem destroy_spec (hg : Good this w) (task : Task) (hok : RemoveOk w task) :
    ∃ w', destroy this w task = some w' ∧ Good this w' ∧
      pending this w' = (pending this w).cancel task := by
  unfold destroy
  split_ifs with hmember
  · exact cancelTimeout_spec hg task hok
  · refine ⟨w, rfl, hg, ?_⟩
    rw [isMemberOfAnyHeap_iff hg] at hmember
    funext e
    by_cases he : e = task
    · simp [he, pending, Timers.cancel, hmember]
    · simp [he, Timers.cancel]

/-- `Update` with `heapUpdateFlagExpectUp` replaces a later deadline. -/
theorem update_expectUp (hi : Heap.Inv this w) {e : ElemPtr}
    (hmember : w.elems.current e = some this) (v : Int) :
    ∃ w', update w e v { expectUp := true } = some w' ∧
      w'.heap.fFreeIndex = w.heap.fFreeIndex ∧
      w'.elems.current = w.elems.current ∧
      w'.elems.value = Function.update w.elems.value e (min (w.elems.value e) v) := by
  obtain ⟨k, hk, hslot⟩ := hi.onto e hmember
  have hfew : ¬ (w.heap.fFreeIndex ≤ 1 ∨ e = nullptr) := by
    rintro (hfew | hnull)
    · omega
    · exact (hi.member k hk).1 (hslot.trans hnull)
  have hlocate : w.heap.locate e 1 = k := by
    rcases locate_spec w.heap e 1 hi.free_pos with ⟨_, hnone⟩ | ⟨h1, hlt, he⟩
    · exact absurd hslot (hnone k hk.1 hk.2)
    · exact hi.inj _ _ ⟨h1, hlt⟩ hk (he.trans hslot.symm)
  dsimp only [update]
  rw [if_neg hfew, hlocate, if_neg hk.2.ne, hslot]
  rcases lt_trichotomy v (w.elems.value e) with hlt | heq | hgt
  · simp [hlt, min_eq_right (le_of_lt hlt)]
  · simp [heq]
  · simp [hgt, not_lt_of_gt hgt, min_eq_left (le_of_lt hgt)]

theorem setIdleTimer_spec (hg : Good this w) (task : Task) {now msec : Int}
    (hrange : -2 ^ 63 ≤ now + msec ∧ now + msec < 2 ^ 63)
    (hroom : (w.elems task).isMemberOfAnyHeap ∨ w.heap.fFreeIndex < 2 ^ 31) :
    ∃ w', setIdleTimer this w task now msec = some w' ∧ Good this w' ∧
      pending this w' = (pending this w).set task (now + msec) := by
  have hmsec : sint64Add now msec = now + msec := by
    unfold sint64Add
    rw [Int.bmod_eq_of_le] <;> omega
  unfold setIdleTimer
  rw [hmsec]
  rw [isMemberOfAnyHeap_iff hg] at hroom
  by_cases hmember : w.elems.current task = some this
  · obtain ⟨w', hs, hfree, hcurrent, hvalue⟩ := update_expectUp hg.inv hmember (now + msec)
    have hordered := update_ordered hg.inv hg.ordered hg.small hs
    rw [if_pos ((isMemberOfAnyHeap_iff hg task).mpr hmember)]
    refine ⟨w', hs, ⟨update_inv hg.inv hs, hordered, hfree.trans_le hg.small, ?_⟩, ?_⟩
    · rw [hcurrent]
      exact hg.only
    · funext e
      unfold pending Timers.set
      rw [hcurrent, hvalue]
      by_cases he : e = task
      · simp [he, hmember]
      · simp [he]
  · have hnone := (hg.only task).resolve_right hmember
    have hfew : w.heap.fFreeIndex < 2 ^ 31 := hroom.resolve_left hmember
    have hfits : w.heap.Room := by
      have := hg.inv.size
      unfold Heap.Room
      omega
    rw [if_neg (mt (isMemberOfAnyHeap_iff hg task).mp hmember)]
    have legal : Op.Legal w (.insert task (now + msec)) := ⟨task.2, hnone⟩
    obtain ⟨w', hs⟩ := Option.isSome_iff_exists.mp (apply_isSome hg.inv legal trivial hfits)
    have hordered := (apply_ordered_iff hg.inv hg.ordered legal trivial hs).mpr hfits
    have hinv := apply_inv hg.inv hs
    refine ⟨w', hs, ⟨hinv, hordered, ?_, ?_⟩, ?_⟩
    all_goals
      obtain ⟨-, rfl⟩ := insert_cases (hg.inv.setValue task (now + msec)) hs
    · exact hfew
    · intro e
      by_cases he : e = task
      · simp [he]
      · simpa [he] using hg.only e
    · funext e
      by_cases he : e = task
      · simp [he, pending, Timers.set, hmember]
      · simp [he, pending, Timers.set]

/-! ## The pass -/

/-- The loop signals and removes every task whose deadline has come, and no other: it takes
out the least deadline as long as that has come. -/
theorem signalExpired_spec (hg : Good this w) (now : Int) :
    ∃ tasks w', signalExpired this now w = some (tasks, w') ∧ Good this w' ∧
      (pending this w).Pass now tasks (pending this w') := by
  induction hfree : w.heap.fFreeIndex using Nat.strong_induction_on generalizing w with
  | _ n ih =>
    subst hfree
    rw [signalExpired.eq_def]
    by_cases hloop : w.heap.currentHeapSize > 0 ∧ w.elems.value w.heap.peekMin ≤ now
    · obtain ⟨hsize, hle⟩ := hloop
      have hroot : 1 ≤ 1 ∧ 1 < w.heap.fFreeIndex := by
        unfold currentHeapSize at hsize
        omega
      have hpeek : w.heap.peekMin = w.heap.fHeap 1 := if_pos hsize
      obtain ⟨w', hx, hg', hpending⟩ := extract_good hg hroot (by omega)
      have hless := extractMin_fFreeIndex hsize hx
      obtain ⟨tasks, w'', hrest, hg'', hpass⟩ := ih _ hless hg' rfl
      have hexpired : (pending this w).Expired now (w.heap.fHeap 1) := by
        refine ⟨w.elems.value (w.heap.fHeap 1), ?_, hpeek ▸ hle⟩
        simp [pending, (hg.inv.member 1 hroot).2]
      refine ⟨w.heap.fHeap 1 :: tasks, w'', ?_, hg'', (hpending ▸ hpass).cons hexpired⟩
      rw [dif_pos ⟨hsize, hle⟩]
      split
      · next hnone => cases hnone.symm.trans hx
      · next hsome =>
        obtain ⟨rfl, rfl⟩ := Prod.mk.inj (Option.some.inj (hsome.symm.trans hx))
        rw [hrest, Option.map_some]
    · rw [dif_neg hloop]
      refine ⟨[], w, rfl, hg, .nil ?_⟩
      rintro task ⟨deadline, hd, hle⟩
      simp only [pending, Option.mem_def, Option.ite_none_right_eq_some, Option.some.injEq] at hd
      obtain ⟨hmember, rfl⟩ := hd
      obtain ⟨i, hi, rfl⟩ := hg.inv.onto task hmember
      refine hloop ⟨?_, le_trans (peekMin_le hg.ordered hi) hle⟩
      unfold currentHeapSize
      omega

/-! ## Runs -/

theorem next_spec (hg : Good this s.fIdleHeap) (hok : Ok s a) :
    ∃ s', next this s a = some s' ∧ Serves this s a s' ∧ Good this s'.fIdleHeap := by
  cases a with
  | setIdleTimer task now msec =>
    obtain ⟨w', hs, hg', hpending⟩ := setIdleTimer_spec hg task hok.1 hok.2
    exact ⟨{ s with fIdleHeap := w' }, by simp [next, hs], ⟨rfl, hpending⟩, hg'⟩
  | cancelTimeout task =>
    obtain ⟨w', hs, hg', hpending⟩ := cancelTimeout_spec hg task hok
    exact ⟨{ s with fIdleHeap := w' }, by simp [next, hs], ⟨rfl, hpending⟩, hg'⟩
  | destroy task =>
    obtain ⟨w', hs, hg', hpending⟩ := destroy_spec hg task hok
    exact ⟨{ s with fIdleHeap := w' }, by simp [next, hs], ⟨rfl, hpending⟩, hg'⟩
  | pass now =>
    obtain ⟨tasks, w', hs, hg', hpass⟩ := signalExpired_spec hg now
    exact ⟨⟨w', s.signals ++ tasks⟩, by simp [next, hs], ⟨tasks, rfl, hpass⟩, hg'⟩

/-- A run that cancels timers only where the last leaf may take their place, whose deadlines
are in range and whose timers fit in the heap, fails no assertion and serves the timers at every
step. -/
theorem served_of_meets (this : HeapId) {s : State} (fresh : Fresh s) (as : List Action)
    (h : (system this).Meets (System.Before Ok) (some s) as) :
    (∃ s', (system this).Exec (some s) as (some s')) ∧
      (system this).Keeps (System.Succeeds (Serves this)) (some s) as := by
  have hkeeps := h.succeeds (P := Serves this) (fun s => Good this s.fIdleHeap)
    (fun s a hg _ hok => next_spec hg hok) fresh.good
  exact ⟨hkeeps.exec fun _ _ => trivial, hkeeps⟩

/-! ### Examples -/

/-- A new heap, and tasks without timers. -/
def freshState : State := ⟨freshWorld, []⟩

theorem freshState_fresh : Fresh freshState := ⟨⟨2, by decide, rfl⟩, fun _ => rfl⟩

def task (n : Nat) : Task := ⟨n + 1, Nat.succ_ne_zero n⟩

/-- Three timers, of which one is cancelled; then a pass at which one of the others is due. -/
def timersRun : List Action :=
  [.setIdleTimer (task 0) 100 5, .setIdleTimer (task 1) 101 20, .setIdleTimer (task 2) 102 1,
    .cancelTimeout (task 1), .pass 104]

theorem served_of_meets_timersRun :
    (system 1).Keeps (System.Succeeds (Serves 1)) (some freshState) timersRun := by
  refine (served_of_meets 1 freshState_fresh timersRun ?_).2
  decide +kernel

/-- Seven timers; the one in slot 4 of the heap is cancelled, and that due at 4 takes its
place, below the one due at 10. -/
def misplacedTimer : List Action :=
  [.setIdleTimer (task 0) 0 1, .setIdleTimer (task 1) 0 10, .setIdleTimer (task 2) 0 2,
    .setIdleTimer (task 3) 0 11, .setIdleTimer (task 4) 0 12, .setIdleTimer (task 5) 0 30,
    .setIdleTimer (task 6) 0 4, .cancelTimeout (task 3)] ++ [.pass 4]

/-- The pass leaves the timer below pending. -/
theorem misplacedTimer_not_served :
    ¬ (system 1).Keeps (System.Succeeds (Serves 1)) (some freshState) misplacedTimer := by
  intro keeps
  have hrun : ((misplacedTimer.foldlM (fun s a => if True then next 1 s a else none)
      freshState).map fun s => pending 1 s.fIdleHeap (task 6)) = some (some 4) := by
    decide +kernel
  obtain ⟨s', hs', hpending⟩ := Option.map_eq_some_iff.mp hrun
  obtain ⟨_, _, s, _, -, heq, tasks, -, hpass⟩ := keeps.last (System.exec_ofFallible hs')
  obtain rfl := Option.some.inj heq
  have hrest := hpass.rest (task 6)
  rw [hpending] at hrest
  split_ifs at hrest with hmem
  exact hmem ((hpass.mem_iff _).mpr ⟨4, hrest.symm, le_rfl⟩)

end IdleTask

end CxxFramework.Thread
