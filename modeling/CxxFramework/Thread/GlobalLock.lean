import CxxFramework.Core.RWMutex
import Mathlib.Logic.Function.Basic

/-!
# The global task lock

`TaskThread::Entry` holds `sRWMutex` around each `Run`, for writing if the task has asked
for that by `CallLocked`. The lock is released by the locker of `Entry`, whether or not
the task has called `GlobalUnlock` meanwhile.

## Main definitions

* `GlobalLock.next` — the steps of any number of threads that run any tasks.
* `GlobalLock.Balanced` — the lock of a `Run` is released once, and `sRWMutex` is free
  while no thread is inside a `Run`.
-/

namespace CxxFramework.Thread

open Transition CxxFramework.Core CxxFramework.Core.RWMutex

namespace GlobalLock

/-- The threads inside a `Run` are the holders of `sRWMutex`. -/
structure State (Tid Task : Type) where
  sRWMutex : RWMutex.State Tid := {}
  fWriteLock : Task → Bool := fun _ => false
  /-- The task that a thread runs, or has run last. -/
  theTask : Tid → Option Task := fun _ => none
  /-- How often the lock around the last `Run` of a thread has been released. -/
  releases : Tid → Nat := fun _ => 0

inductive Action (Tid Task : Type) where
  | run (t : Tid) (task : Task)
  | wake (t : Tid) (mode : Mode)
  | callLocked (t : Tid)
  | globalUnlock (t : Tid)
  | leave (t : Tid) (mode : Mode)
deriving DecidableEq, Repr

variable {Tid Task : Type} [DecidableEq Tid] [DecidableEq Task]

/-- Thread `t` is inside a `Run`. -/
abbrev State.Inside (s : State Tid Task) (t : Tid) : Prop :=
  t ∈ s.sRWMutex.holders.map Prod.fst

/-- The lock that `Entry` takes around the next `Run` of a task. -/
def State.mode (s : State Tid Task) (task : Task) : Mode :=
  if s.fWriteLock task then .write else .read

/-- `Entry` before the `Run` of a task: up to the lock, or to the wait for it. -/
def beginRun (s : State Tid Task) (t : Tid) (task : Task) : State Tid Task :=
  { s with
    sRWMutex := lock s.sRWMutex t (s.mode task)
    theTask := Function.update s.theTask t (some task)
    releases := Function.update s.releases t 0 }

/-- `Task::CallLocked`; the other thing it does, `ForceSameThread`, is left out. -/
def callLocked (s : State Tid Task) (task : Task) : State Tid Task :=
  { s with fWriteLock := Function.update s.fWriteLock task true }

/-- `Task::GlobalUnlock`, called by thread `t`. -/
def globalUnlock (s : State Tid Task) (t : Tid) (task : Task) : State Tid Task :=
  if s.fWriteLock task then
    { s with
      sRWMutex := { s.sRWMutex with mutex := s.sRWMutex.mutex.unlock }
      fWriteLock := Function.update s.fWriteLock task false
      releases := Function.update s.releases t (s.releases t + 1) }
  else s

/-- `Entry` after the `Run` of a task: the locker goes out of scope. -/
def endRun (s : State Tid Task) (t : Tid) (mode : Mode) (task : Task) : State Tid Task :=
  { s with
    sRWMutex :=
      { s.sRWMutex with
        mutex := s.sRWMutex.mutex.unlock
        holders := s.sRWMutex.holders.erase (t, mode) }
    fWriteLock :=
      if mode = .write then Function.update s.fWriteLock task false else s.fWriteLock
    releases := Function.update s.releases t (s.releases t + 1) }

/-- One step of one thread. -/
def next (s : State Tid Task) : Action Tid Task → Option (State Tid Task)
  | .run t task =>
    if s.sRWMutex.Blocked t ∨ s.Inside t then none else some (beginRun s t task)
  | .wake t mode =>
    (RWMutex.next s.sRWMutex (.wake t mode)).map fun sRWMutex => { s with sRWMutex }
  | .callLocked t => if s.Inside t then (s.theTask t).map (callLocked s) else none
  | .globalUnlock t => if s.Inside t then (s.theTask t).map (globalUnlock s t) else none
  | .leave t mode =>
    if (t, mode) ∈ s.sRWMutex.holders then (s.theTask t).map (endRun s t mode) else none

/-- No thread runs a task yet. -/
def Fresh (s : State Tid Task) : Prop := s.sRWMutex = {}

abbrev system (Tid Task : Type) [DecidableEq Tid] [DecidableEq Task] :
    System (State Tid Task) (Action Tid Task) :=
  .ofPartial Fresh next

/-- `sRWMutex` has no readers and no writer. -/
def State.Free (s : State Tid Task) : Prop :=
  s.sRWMutex.mutex.fState = 0 ∧ s.sRWMutex.mutex.fActiveReaders = 0

/-- When a `Run` is over, its lock has been released once, and when no thread is inside a
`Run`, the mutex is free. -/
def Balanced (_ : State Tid Task) (a : Action Tid Task) (s' : State Tid Task) : Prop :=
  (match a with
    | .leave t _ => s'.releases t = 1
    | _ => True) ∧
    (s'.sRWMutex.holders = [] → s'.Free)

/-- `GlobalUnlock` is not called while `fWriteLock` is set. -/
def Ok (s : State Tid Task) : Action Tid Task → Prop
  | .globalUnlock t => ∀ task ∈ s.theTask t, s.fWriteLock task = false
  | _ => True

instance (s : State Tid Task) : Decidable s.Free := inferInstanceAs (Decidable (_ ∧ _))

instance (s s' : State Tid Task) (a : Action Tid Task) : Decidable (Balanced s a s') := by
  unfold Balanced
  cases a <;> infer_instance

instance (s : State Tid Task) (a : Action Tid Task) : Decidable (Ok s a) := by
  unfold Ok
  cases a <;> infer_instance

/-! ## The state of the mutex -/

section Counted

variable {s : RWMutex.State Tid} {t : Tid} {mode : Mode}

/-- `fState` is bounded by the number of holders, and shows a writer only while there is
a holder. -/
structure Counted (s : RWMutex.State Tid) : Prop where
  le : s.mutex.fState ≤ s.holders.length
  range : s.mutex.fState < 2 ^ 31
  active : s.mutex.fState < 0 → s.holders ≠ []
  saved : s.mutex.fActiveReaders = s.mutex.fState

omit [DecidableEq Tid] in
/-- An `Unlock` takes one reader away, or the writer, and finds nothing to take away in a
free mutex. -/
theorem unlock_fState {m : RWMutex} (hrange : m.fState < 2 ^ 31) :
    m.unlock.fState = max (m.fState - 1) 0 := by
  rcases Int.lt_trichotomy m.fState 0 with hneg | hzero | hpos
  · rw [unlock_of_writer hneg]
    omega
  · have hunlock : m.unlock.fState = 0 := by
      have hdown : adjust 0 (-1) = -1 := by decide
      simp [unlock, releaseReader, activeWriter, activeReaders, removeActiveReader, adjustState,
        setState, saveActiveReaders, eNoWriterState, hzero, hdown]
    rw [hunlock, hzero]
    rfl
  · rw [unlock_of_reader hpos hrange]
    omega

omit [DecidableEq Tid] in
/-- One more reader adds one at most: the largest `int` is followed by the least one. -/
theorem adjust_one_le {count : Int} (hpos : 0 ≤ count) (hrange : count < 2 ^ 31) :
    adjust count 1 ≤ count + 1 ∧ adjust count 1 < 2 ^ 31 := by
  simp only [adjust, kIntSize, Int.bmod]
  omega

omit [DecidableEq Tid] in
theorem waitLoop_counted (h : Counted s) : Counted (waitLoop s t mode) := by
  obtain ⟨hle, hrange, hactive, hsaved⟩ := h
  unfold waitLoop
  split_ifs with hwait
  · exact ⟨hle, hrange, hactive, hsaved⟩
  · cases mode with
    | read =>
      have hpos : 0 ≤ s.mutex.fState := by
        simp only [mustWait, activeWriter, Bool.or_eq_true, decide_eq_true_eq, not_or] at hwait
        omega
      obtain ⟨hup, hrange'⟩ := adjust_one_le hpos hrange
      refine ⟨?_, hrange', fun _ => List.cons_ne_nil _ _, rfl⟩
      have henter : (s.mutex.enter .read).fState = adjust s.mutex.fState 1 := rfl
      simp only [henter, List.length_cons]
      omega
    | write =>
      have henter : (s.mutex.enter .write).fState = -1 := rfl
      refine ⟨?_, by simp [henter], fun _ => List.cons_ne_nil _ _, rfl⟩
      simp only [henter]
      omega

omit [DecidableEq Tid] in
theorem lock_counted (h : Counted s) : Counted (lock s t mode) := by
  refine waitLoop_counted ⟨?_, ?_, ?_, ?_⟩
  · simpa using h.le
  · simpa using h.range
  · simpa using h.active
  · cases mode <;> exact h.saved

theorem leave_counted (h : Counted s) (hmem : (t, mode) ∈ s.holders) :
    Counted { s with mutex := s.mutex.unlock, holders := s.holders.erase (t, mode) } := by
  obtain ⟨hle, hrange, -, -⟩ := h
  have hpos := List.length_pos_of_mem hmem
  refine ⟨?_, ?_, ?_, rfl⟩
  · simp only [unlock_fState hrange, List.length_erase_of_mem hmem]
    omega
  · simp only [unlock_fState hrange]
    omega
  · simp only [unlock_fState hrange]
    omega

omit [DecidableEq Tid] in
theorem waitLoop_perm : ((waitLoop s t mode).holders ++ (waitLoop s t mode).blocked).Perm
    ((t, mode) :: (s.holders ++ s.blocked)) := by
  unfold waitLoop
  split_ifs
  · exact List.perm_middle
  · exact .refl _

end Counted

/-! ## Releases -/

variable {s s' : State Tid Task} {t : Tid} {a : Action Tid Task} {as : List (Action Tid Task)}

/-- The threads inside a `Run` or on their way into one. -/
def State.busy (s : State Tid Task) : List Tid :=
  (s.sRWMutex.holders ++ s.sRWMutex.blocked).map Prod.fst

structure Inv (s : State Tid Task) : Prop where
  counted : Counted s.sRWMutex
  nodup : s.busy.Nodup
  unreleased : ∀ t ∈ s.busy, s.releases t = 0

omit [DecidableEq Tid] [DecidableEq Task] in
theorem Fresh.inv (h : Fresh s) : Inv s := by
  have hbusy : s.busy = [] := by simp [State.busy, show s.sRWMutex = {} from h]
  refine ⟨?_, by simp [hbusy], by simp [hbusy]⟩
  rw [show s.sRWMutex = {} from h]
  exact ⟨Int.le_refl 0, by simp, nofun, rfl⟩

omit [DecidableEq Tid] [DecidableEq Task] in
theorem Inv.free (hi : Inv s) (hnone : s.sRWMutex.holders = []) : s.Free := by
  have hle := hi.counted.le
  have hactive := mt hi.counted.active (not_not.mpr hnone)
  rw [hnone, List.length_nil] at hle
  have hzero : s.sRWMutex.mutex.fState = 0 := by omega
  exact ⟨hzero, hi.counted.saved.trans hzero⟩

omit [DecidableEq Tid] [DecidableEq Task] in
/-- The invariant speaks of the mutex and its threads only. -/
theorem Inv.congr (hi : Inv s) (hmutex : s'.sRWMutex = s.sRWMutex)
    (hreleases : s'.releases = s.releases) : Inv s' := by
  have hbusy : s'.busy = s.busy := by simp only [State.busy, hmutex]
  refine ⟨hmutex ▸ hi.counted, hbusy ▸ hi.nodup, ?_⟩
  rw [hbusy, hreleases]
  exact hi.unreleased

omit [DecidableEq Task] in
theorem beginRun_inv (hi : Inv s) (task : Task)
    (hblocked : ¬ s.sRWMutex.Blocked t) (hinside : ¬ s.Inside t) : Inv (beginRun s t task) := by
  have hidle : t ∉ s.busy := by
    simp only [State.busy, List.map_append, List.mem_append, not_or]
    exact ⟨hinside, hblocked⟩
  have hperm : (beginRun s t task).busy.Perm (t :: s.busy) :=
    (waitLoop_perm (s := { s.sRWMutex with
      mutex := s.sRWMutex.mutex.addWaiter (s.mode task) })).map Prod.fst
  refine ⟨lock_counted hi.counted, ?_, ?_⟩
  · exact hperm.nodup_iff.mpr (List.nodup_cons.mpr ⟨hidle, hi.nodup⟩)
  · intro u hu
    simp only [beginRun]
    by_cases hut : u = t
    · rw [hut, Function.update_self]
    · rw [Function.update_of_ne hut]
      exact hi.unreleased u ((List.mem_cons.mp (hperm.mem_iff.mp hu)).resolve_left hut)

omit [DecidableEq Task] in
theorem wake_inv (hi : Inv s) {mode : Mode} (hmem : (t, mode) ∈ s.sRWMutex.blocked) :
    Inv { s with
      sRWMutex := waitLoop
        { s.sRWMutex with blocked := s.sRWMutex.blocked.erase (t, mode) } t mode } := by
  have hperm : State.busy { s with
      sRWMutex := waitLoop
        { s.sRWMutex with blocked := s.sRWMutex.blocked.erase (t, mode) } t mode }
      |>.Perm s.busy := by
    refine (waitLoop_perm.trans ?_).map Prod.fst
    refine List.perm_middle.symm.trans ?_
    exact (List.perm_cons_erase hmem).symm.append_left s.sRWMutex.holders
  refine ⟨waitLoop_counted ⟨hi.counted.le, hi.counted.range, hi.counted.active, hi.counted.saved⟩, ?_, ?_⟩
  · exact hperm.nodup_iff.mpr hi.nodup
  · intro u hu
    exact hi.unreleased u (hperm.mem_iff.mp hu)

/-- A thread that leaves a `Run` with the lock unreleased releases it once, and is idle
then. -/
theorem endRun_inv (hi : Inv s) {mode : Mode} {task : Task}
    (hmem : (t, mode) ∈ s.sRWMutex.holders) :
    (endRun s t mode task).releases t = 1 ∧ Inv (endRun s t mode task) := by
  have hperm : s.busy.Perm (t :: (endRun s t mode task).busy) :=
    ((List.perm_cons_erase hmem).append_right _).map Prod.fst
  obtain ⟨hidle, hnodup⟩ := List.nodup_cons.mp (hperm.nodup_iff.mp hi.nodup)
  have hzero : s.releases t = 0 := hi.unreleased t (hperm.mem_iff.mpr List.mem_cons_self)
  refine ⟨by simp [endRun, hzero], leave_counted hi.counted hmem, hnodup, ?_⟩
  intro u hu
  have hut : u ≠ t := by
    rintro rfl
    exact hidle hu
  simp only [endRun, Function.update_of_ne hut]
  exact hi.unreleased u (hperm.mem_iff.mpr (List.mem_cons_of_mem t hu))

theorem next_inv (hi : Inv s) (h : next s a = some s') (hok : Ok s a) :
    Balanced s a s' ∧ Inv s' := by
  cases a with
  | run t task =>
    simp only [next, Option.ite_none_left_eq_some, Option.some.injEq, not_or] at h
    obtain ⟨⟨hblocked, hinside⟩, rfl⟩ := h
    have hinv := beginRun_inv hi task hblocked hinside
    exact ⟨⟨trivial, hinv.free⟩, hinv⟩
  | wake t mode =>
    simp only [next, RWMutex.next, Option.map_eq_some_iff, Option.ite_none_right_eq_some,
      Option.some.injEq] at h
    obtain ⟨_, ⟨hmem, rfl⟩, rfl⟩ := h
    have hinv := wake_inv hi hmem
    exact ⟨⟨trivial, hinv.free⟩, hinv⟩
  | callLocked t =>
    simp only [next, Option.ite_none_right_eq_some, Option.map_eq_some_iff] at h
    obtain ⟨-, task, -, rfl⟩ := h
    have hinv : Inv (callLocked s task) := ⟨hi.counted, hi.nodup, hi.unreleased⟩
    exact ⟨⟨trivial, hinv.free⟩, hinv⟩
  | globalUnlock t =>
    simp only [next, Option.ite_none_right_eq_some, Option.map_eq_some_iff] at h
    obtain ⟨-, task, htask, rfl⟩ := h
    have hsame : globalUnlock s t task = s := by
      unfold globalUnlock
      rw [hok task htask]
      exact if_neg Bool.false_ne_true
    rw [hsame]
    exact ⟨⟨trivial, hi.free⟩, hi⟩
  | leave t mode =>
    simp only [next, Option.ite_none_right_eq_some, Option.map_eq_some_iff] at h
    obtain ⟨hmem, task, -, rfl⟩ := h
    obtain ⟨hone, hinv⟩ := endRun_inv hi hmem
    exact ⟨⟨hone, hinv.free⟩, hinv⟩

/-! ## Second releases -/

omit [DecidableEq Tid] in
theorem waitLoop_holders {s : RWMutex.State Tid} {mode : Mode} :
    s.holders ⊆ (waitLoop s t mode).holders := by
  unfold waitLoop
  split_ifs
  · exact List.Subset.refl _
  · exact List.subset_cons_self _ _

/-- A thread whose lock is released while it is inside its `Run` stays inside, until it
leaves with a second release. -/
theorem next_released (hinside : s.Inside t) (hreleased : 0 < s.releases t)
    (h : next s a = some s') (hkeeps : Balanced s a s') :
    s'.Inside t ∧ 0 < s'.releases t := by
  cases a with
  | run u task =>
    simp only [next, Option.ite_none_left_eq_some, Option.some.injEq, not_or] at h
    obtain ⟨⟨-, hu⟩, rfl⟩ := h
    have hut : t ≠ u := by
      rintro rfl
      exact hu hinside
    refine ⟨List.map_subset Prod.fst waitLoop_holders hinside, ?_⟩
    simpa only [beginRun, Function.update_of_ne hut] using hreleased
  | wake u mode =>
    simp only [next, RWMutex.next, Option.map_eq_some_iff, Option.ite_none_right_eq_some,
      Option.some.injEq] at h
    obtain ⟨_, ⟨-, rfl⟩, rfl⟩ := h
    exact ⟨List.map_subset Prod.fst waitLoop_holders hinside, hreleased⟩
  | callLocked u =>
    simp only [next, Option.ite_none_right_eq_some, Option.map_eq_some_iff] at h
    obtain ⟨-, task, -, rfl⟩ := h
    exact ⟨hinside, hreleased⟩
  | globalUnlock u =>
    simp only [next, Option.ite_none_right_eq_some, Option.map_eq_some_iff] at h
    obtain ⟨-, task, -, rfl⟩ := h
    unfold globalUnlock
    split_ifs
    · refine ⟨hinside, ?_⟩
      grind [Function.update_apply]
    · exact ⟨hinside, hreleased⟩
  | leave u mode =>
    simp only [next, Option.ite_none_right_eq_some, Option.map_eq_some_iff] at h
    obtain ⟨-, task, -, rfl⟩ := h
    have hone : (endRun s u mode task).releases u = 1 := hkeeps.1
    simp only [endRun, Function.update_self] at hone
    have hut : t ≠ u := by
      rintro rfl
      omega
    refine ⟨?_, by simpa only [endRun, Function.update_of_ne hut] using hreleased⟩
    obtain ⟨⟨_, own⟩, hown, rfl⟩ := List.mem_map.mp hinside
    refine List.mem_map_of_mem (f := Prod.fst) ((List.mem_erase_of_ne ?_).mpr hown)
    intro heq
    exact hut (congrArg Prod.fst heq)

theorem not_keeps_of_released (hinside : s.Inside t) (hreleased : 0 < s.releases t)
    (hx : (system Tid Task).Exec s as s') (hnone : s'.sRWMutex.holders = []) :
    ¬ (system Tid Task).Keeps Balanced s as := by
  intro hkeeps
  induction hx with
  | nil s =>
    rw [State.Inside, hnone] at hinside
    exact absurd hinside List.not_mem_nil
  | cons hs _ ih =>
    obtain ⟨hbalanced, hrest⟩ := hkeeps _ hs
    obtain ⟨hinside', hreleased'⟩ := next_released hinside hreleased hs hbalanced
    exact ih hinside' hreleased' hnone hrest

/-- A call of `GlobalUnlock` with `fWriteLock` set releases the lock inside the `Run`. -/
theorem globalUnlock_released (h : next s (.globalUnlock t) = some s')
    (hok : ¬ Ok s (.globalUnlock t)) : s'.Inside t ∧ 0 < s'.releases t := by
  simp only [next, Option.ite_none_right_eq_some, Option.map_eq_some_iff] at h
  obtain ⟨hinside, task, htask, rfl⟩ := h
  have hset : s.fWriteLock task = true := by
    rw [← Bool.not_eq_false]
    intro hclear
    refine hok ?_
    intro u hu
    obtain rfl : task = u := Option.some.inj (htask.symm.trans hu)
    exact hclear
  unfold globalUnlock
  rw [if_pos hset]
  exact ⟨hinside, by simp⟩

/-! ## Runs -/

theorem balanced_of_meets (hi : Inv s) (h : (system Tid Task).Meets Ok s as) :
    (system Tid Task).Keeps Balanced s as :=
  h.keeps Inv (fun _ _ _ hi hs hok => next_inv hi hs hok) hi

theorem meets_of_balanced (hx : (system Tid Task).Exec s as s')
    (hnone : s'.sRWMutex.holders = []) (h : (system Tid Task).Keeps Balanced s as) :
    (system Tid Task).Meets Ok s as := by
  induction hx with
  | nil => trivial
  | @cons s a u as s' hs hrest ih =>
    intro v hv
    obtain rfl : u = v := Option.some.inj (hs.symm.trans hv)
    refine ⟨?_, ih hnone (h u hs).2⟩
    by_contra hok
    cases a with
    | globalUnlock t =>
      obtain ⟨hinside, hreleased⟩ := globalUnlock_released hs hok
      exact not_keeps_of_released hinside hreleased hrest hnone (h u hs).2
    | _ => exact hok trivial

/-- As long as no `GlobalUnlock` is called while `fWriteLock` is set, every lock around a
`Run` is released once, and the mutex is free while no thread is inside a `Run`. Once all
threads have left their `Run`s, this is so only if there was no such call. -/
theorem balanced_iff (Tid Task : Type) [DecidableEq Tid] [DecidableEq Task]
    {s : State Tid Task} (fresh : Fresh s) (as : List (Action Tid Task)) :
    ((system Tid Task).Meets Ok s as → (system Tid Task).Keeps Balanced s as) ∧
      ∀ s', (system Tid Task).Exec s as s' → s'.sRWMutex.holders = [] →
        (system Tid Task).Keeps Balanced s as → (system Tid Task).Meets Ok s as := by
  refine ⟨balanced_of_meets (Fresh.inv fresh), ?_⟩
  intro s' hx hnone
  exact meets_of_balanced hx hnone

/-! ### Examples -/

/-- Thread 0 runs a task twice, the second time under the write lock, and thread 1 waits
to run another one. -/
def lockedRun : List (Action Nat Nat) :=
  [.run 0 5, .callLocked 0, .leave 0 .read, .run 0 5, .run 1 6, .leave 0 .write,
    .wake 1 .read, .leave 1 .read]

theorem balanced_iff_lockedRun : (system Nat Nat).Keeps Balanced {} lockedRun :=
  (balanced_iff Nat Nat (s := {}) rfl lockedRun).1 (by decide)

/-- The locked `Run` calls `GlobalUnlock`; the locker of `Entry` unlocks once more. -/
def unlockedRun : List (Action Nat Nat) :=
  [.run 0 5, .callLocked 0, .leave 0 .read, .run 0 5, .globalUnlock 0, .leave 0 .write]

theorem unlockedRun_not_balanced : ¬ (system Nat Nat).Keeps Balanced {} unlockedRun := by
  decide

end GlobalLock

end CxxFramework.Thread
