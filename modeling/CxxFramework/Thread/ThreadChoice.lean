import CxxFramework.Thread.Task
import Mathlib.Algebra.Group.Int.Defs
import Mathlib.Algebra.Group.Nat.Defs
import Mathlib.Data.Int.Order.Basic

/-!
# The choice of a thread

`Task::Signal` takes the index of a thread from a counter, modulo the number of the short-task
threads or of the blocking threads. All of these are `UInt32`, and the counters wrap around.

Where there are no short-task threads, `CreateThreads` makes their number that of all threads, so
that all of them serve the short tasks. The index for a blocking task starts behind the short-task
threads, so it is then behind all threads; and where there are no blocking threads it is a
remainder by zero.

## Main definitions

* `ThreadCounts.signal` — `Signal` up to the queue it takes, with a fault for a division by zero
  and for an index behind the array.
* `ThreadCounts.InArray` — no counters make `Signal` fault.
* `ThreadCounts.Fits` — the numbers of threads for which a picker stays within the array.

`ThreadCounts.pick_eq_pick` ties these counts to the pool of `Task`, whose numbers have no bound.
-/

namespace CxxFramework.Thread

/-- The static numbers of threads, of which `sNumTaskThreads` are in `sTaskThreadArray`. -/
structure ThreadCounts where
  sNumTaskThreads : UInt32
  sNumShortTaskThreads : UInt32
  sNumBlockingTaskThreads : UInt32
deriving DecidableEq, Repr

/-- The static counters. -/
structure Pickers where
  sShortTaskThreadPicker : UInt32 := 0
  sBlockingTaskThreadPicker : UInt32 := 0
deriving DecidableEq, Repr

/-- The queue that `Signal` puts a task on, if any: that of a thread which the task names, or of
the thread at an index. -/
inductive Queued where
  | none
  | thread (i : Nat)
  | index (theThreadIndex : UInt32)
deriving DecidableEq, Repr

namespace ThreadCounts

/-- `TaskThreadPool::CreateThreads` -/
def createThreads (numShortTaskThreads numBlockingThreads : UInt32) : ThreadCounts :=
  let numToAdd := numShortTaskThreads + numBlockingThreads
  { sNumTaskThreads := numToAdd
    sNumShortTaskThreads := if numShortTaskThreads = 0 then numToAdd else numShortTaskThreads
    sNumBlockingTaskThreads := numBlockingThreads }

/-- `pickerToUse->fetch_add(1)` and the index made from it; none for a division by zero. -/
def pick (counts : ThreadCounts) (pickers : Pickers) : Picker → Option (Option UInt32 × Pickers)
  | .sShortTaskThreadPicker =>
    if counts.sNumShortTaskThreads = 0 then none
    else some (some (pickers.sShortTaskThreadPicker % counts.sNumShortTaskThreads),
      { pickers with sShortTaskThreadPicker := pickers.sShortTaskThreadPicker + 1 })
  | .sBlockingTaskThreadPicker =>
    if counts.sNumBlockingTaskThreads = 0 then none
    else some (some (pickers.sBlockingTaskThreadPicker % counts.sNumBlockingTaskThreads +
        counts.sNumShortTaskThreads),
      { pickers with sBlockingTaskThreadPicker := pickers.sBlockingTaskThreadPicker + 1 })
  | .other => some (none, pickers)

/-- `Task::Signal` for a task that is to be scheduled, with the queue it puts the task on. A
division by zero and an index behind the threads of the array are faults. -/
def chooseThread (counts : ThreadCounts) (pickers : Pickers) (task : Task) :
    Option (Queued × Pickers × Task) :=
  let task := task.useDefaultThread
  match task.fUseThisThread with
  | some i => some (.thread i, pickers, task)
  | none =>
    match counts.pick pickers task.pickerToUse with
    | none => none
    | some (none, pickers) => some (.none, pickers, task)
    | some (some theThreadIndex, pickers) =>
      if theThreadIndex < counts.sNumTaskThreads then
        some (.index theThreadIndex, pickers, task)
      else none

/-- `Task::Signal` -/
def signal (counts : ThreadCounts) (pickers : Pickers) (task : Task) (events : EventFlags) :
    Option (Queued × Pickers × Task) :=
  if !task.valid then some (.none, pickers, task)
  else
    let oldEvents := (task.fetchOr (events ||| kAlive)).1
    let task := (task.fetchOr (events ||| kAlive)).2
    if !alive oldEvents ∧ counts.sNumTaskThreads > 0 then counts.chooseThread pickers task
    else some (.none, pickers, task)

/-- No values of the counters make `Signal` fault. -/
def InArray (counts : ThreadCounts) (task : Task) (events : EventFlags) : Prop :=
  ∀ pickers, counts.signal pickers task events ≠ none

/-- The index from the picker is in the array, whatever the counter: there are no threads at
all, or their number does not overflow and there are threads of both kinds for blocking tasks. -/
def Fits (numShortTaskThreads numBlockingThreads : UInt32) (picker : Picker) : Prop :=
  let numThreads := numShortTaskThreads.toNat + numBlockingThreads.toNat
  numThreads = 0 ∨ numThreads = 2 ^ 32 ∨ numThreads < 2 ^ 32 ∧
    (picker = .sBlockingTaskThreadPicker → numShortTaskThreads ≠ 0 ∧ numBlockingThreads ≠ 0)

end ThreadCounts

/-- `Signal` makes an index from a counter for the task, if there are any threads. -/
def Task.Picks (task : Task) : Prop :=
  task.valid = true ∧ alive task.fEvents = false ∧
    task.fUseThisThread = none ∧ task.fDefaultThread = none ∧ task.pickerToUse ≠ .other

namespace ThreadCounts

variable {a b : UInt32} {counts : ThreadCounts} {pickers : Pickers} {task : Task} {picker : Picker}
  {events : EventFlags}

/-! ## The pickers -/

/-- The index that a picker selects is in the array. -/
def PicksIn (counts : ThreadCounts) (pickers : Pickers) (picker : Picker) : Prop :=
  ∃ r, counts.pick pickers picker = some r ∧ ∀ i ∈ r.1, i < counts.sNumTaskThreads

theorem picksIn_short (h : picker = .sShortTaskThreadPicker) : counts.PicksIn pickers picker ↔
    counts.sNumShortTaskThreads ≠ 0 ∧
      pickers.sShortTaskThreadPicker % counts.sNumShortTaskThreads < counts.sNumTaskThreads := by
  subst h
  by_cases hzero : counts.sNumShortTaskThreads = 0
  · simp [PicksIn, pick, hzero]
  · simp [PicksIn, pick, hzero]

theorem picksIn_blocking (h : picker = .sBlockingTaskThreadPicker) : counts.PicksIn pickers picker ↔
    counts.sNumBlockingTaskThreads ≠ 0 ∧
      pickers.sBlockingTaskThreadPicker % counts.sNumBlockingTaskThreads +
        counts.sNumShortTaskThreads < counts.sNumTaskThreads := by
  subst h
  by_cases hzero : counts.sNumBlockingTaskThreads = 0
  · simp [PicksIn, pick, hzero]
  · simp [PicksIn, pick, hzero]

theorem numToAdd_eq_zero : a + b = 0 ↔
    a.toNat + b.toNat = 0 ∨ a.toNat + b.toNat = 2 ^ 32 := by
  rw [← UInt32.toNat_inj, UInt32.toNat_add]
  have ha := a.toNat_lt
  have hb := b.toNat_lt
  change (a.toNat + b.toNat) % 2 ^ 32 = 0 ↔ _
  omega

theorem toNat_numToAdd (h : a.toNat + b.toNat < 2 ^ 32) :
    (a + b).toNat = a.toNat + b.toNat := by
  rw [UInt32.toNat_add]
  exact Nat.mod_eq_of_lt h

/-- A number of threads that overflows is less than that of the threads of either kind. -/
theorem numToAdd_lt (h : 2 ^ 32 ≤ a.toNat + b.toNat) : a + b < a ∧ a + b < b := by
  rw [UInt32.lt_iff_toNat_lt, UInt32.lt_iff_toNat_lt, UInt32.toNat_add]
  have ha := a.toNat_lt
  have hb := b.toNat_lt
  omega

/-- The short-task picker stays in the array. -/
theorem picksIn_short_iff (hthreads : a + b ≠ 0) :
    (∀ pickers, (createThreads a b).PicksIn pickers .sShortTaskThreadPicker) ↔
      a.toNat + b.toNat < 2 ^ 32 := by
  simp only [picksIn_short, createThreads]
  constructor
  · intro h
    by_contra hlarge
    obtain ⟨hlt, -⟩ := numToAdd_lt (a := a) (b := b) (by omega)
    have ha : a ≠ 0 := by
      rintro rfl
      exact absurd hlt UInt32.not_lt_zero
    -- the counter may be the number of threads itself
    have hindex := (h ⟨a + b, 0⟩).2
    rw [if_neg ha, UInt32.lt_iff_toNat_lt, UInt32.toNat_mod,
      Nat.mod_eq_of_lt (UInt32.lt_iff_toNat_lt.mp hlt)] at hindex
    exact absurd hindex (Nat.lt_irrefl _)
  · intro hfits pickers
    split_ifs with ha
    · exact ⟨hthreads, UInt32.mod_lt _ (UInt32.pos_iff_ne_zero.mpr hthreads)⟩
    · refine ⟨ha, UInt32.lt_of_lt_of_le (UInt32.mod_lt _ (UInt32.pos_iff_ne_zero.mpr ha)) ?_⟩
      rw [UInt32.le_iff_toNat_le, toNat_numToAdd hfits]
      omega

/-- The blocking picker stays in the array. -/
theorem picksIn_blocking_iff (hthreads : a + b ≠ 0) :
    (∀ pickers, (createThreads a b).PicksIn pickers .sBlockingTaskThreadPicker) ↔
      a.toNat + b.toNat < 2 ^ 32 ∧ a ≠ 0 ∧ b ≠ 0 := by
  simp only [picksIn_blocking, createThreads]
  constructor
  · intro h
    -- the counter may be zero
    obtain ⟨hb, hindex⟩ := h ⟨0, 0⟩
    rw [UInt32.zero_mod, UInt32.zero_add] at hindex
    have ha : a ≠ 0 := by
      rintro rfl
      simp at hindex
    refine ⟨?_, ha, hb⟩
    by_contra hlarge
    rw [if_neg ha] at hindex
    have hlt := (numToAdd_lt (a := a) (b := b) (by omega)).1
    exact UInt32.lt_irrefl _ (UInt32.lt_trans hindex hlt)
  · rintro ⟨hfits, ha, hb⟩ pickers
    refine ⟨hb, ?_⟩
    have hrest := UInt32.lt_iff_toNat_lt.mp
      (UInt32.mod_lt pickers.sBlockingTaskThreadPicker (UInt32.pos_iff_ne_zero.mpr hb))
    rw [if_neg ha, UInt32.lt_iff_toNat_lt, toNat_numToAdd (by omega), toNat_numToAdd hfits]
    omega

/-- As long as their number does not overflow, the threads are picked as in a pool whose numbers
are not bounded. -/
theorem pick_eq_pick (hfits : a.toNat + b.toNat < 2 ^ 32) (pickers : Pickers) (picker : Picker)
    (hboth : picker = .sBlockingTaskThreadPicker → a ≠ 0) :
    ((createThreads a b).pick pickers picker).map (fun r => r.1.map UInt32.toNat) =
      (({ TaskThreadPool.createThreads a.toNat b.toNat with
          sShortTaskThreadPicker := pickers.sShortTaskThreadPicker.toBitVec
          sBlockingTaskThreadPicker := pickers.sBlockingTaskThreadPicker.toBitVec }
        : TaskThreadPool).pick picker).map Prod.fst := by
  have hzero : ∀ c : UInt32, c.toNat = 0 ↔ c = 0 := fun c => by
    rw [← UInt32.toNat_inj, UInt32.toNat_zero]
  have hshort : (createThreads a b).sNumShortTaskThreads.toNat =
      (TaskThreadPool.createThreads a.toNat b.toNat).sNumShortTaskThreads := by
    simp only [createThreads, TaskThreadPool.createThreads, hzero]
    split_ifs
    · exact toNat_numToAdd hfits
    · rfl
  cases picker with
  | sShortTaskThreadPicker =>
    simp only [pick, TaskThreadPool.pick, ← hshort, hzero]
    split_ifs <;> simp
  | sBlockingTaskThreadPicker =>
    have ha := hboth rfl
    simp only [pick, TaskThreadPool.pick, ← hshort]
    simp only [createThreads, TaskThreadPool.createThreads, hzero, if_neg ha]
    split_ifs with hb
    · rfl
    · have hrest := UInt32.lt_iff_toNat_lt.mp
        (UInt32.mod_lt pickers.sBlockingTaskThreadPicker (UInt32.pos_iff_ne_zero.mpr hb))
      simp only [Option.map_some, Option.some.injEq]
      rw [toNat_numToAdd (by omega), UInt32.toNat_mod]
      rfl
  | other => rfl

/-! ## Signalling -/

theorem useDefaultThread_eq_none :
    task.useDefaultThread.fUseThisThread = none ↔
      task.fUseThisThread = none ∧ task.fDefaultThread = none := by
  unfold Task.useDefaultThread
  cases hdefault : task.fDefaultThread <;> cases huse : task.fUseThisThread <;> simp [huse]

theorem useDefaultThread_pickerToUse : task.useDefaultThread.pickerToUse = task.pickerToUse := by
  unfold Task.useDefaultThread
  split <;> rfl

/-- The choice of a thread faults exactly if it makes an index that is not in the array. -/
theorem chooseThread_eq_none_iff : counts.chooseThread pickers task = none ↔
    task.fUseThisThread = none ∧ task.fDefaultThread = none ∧
      ¬ counts.PicksIn pickers task.pickerToUse := by
  rw [← and_assoc, ← useDefaultThread_eq_none]
  unfold chooseThread PicksIn
  dsimp only
  rw [useDefaultThread_pickerToUse]
  cases task.useDefaultThread.fUseThisThread with
  | some i => simp
  | none =>
    rcases counts.pick pickers task.pickerToUse with _ | ⟨_ | i, pickers'⟩
    · simp
    · simp
    · simp

/-- `Signal` faults exactly if it makes an index for the task, and that is not in the array. -/
theorem signal_eq_none_iff : counts.signal pickers task events = none ↔
    task.Picks ∧ counts.sNumTaskThreads ≠ 0 ∧ ¬ counts.PicksIn pickers task.pickerToUse := by
  have hother : task.pickerToUse = .other → counts.PicksIn pickers task.pickerToUse := by
    intro hpicker
    exact ⟨(none, pickers), by rw [hpicker]; rfl, nofun⟩
  unfold signal Task.Picks
  cases hvalid : task.valid with
  | false => simp
  | true =>
    cases halive : alive task.fEvents with
    | true => simp [Task.fetchOr, halive]
    | false =>
      by_cases hthreads : counts.sNumTaskThreads = 0
      · simp [hthreads]
      · have hpos : 0 < counts.sNumTaskThreads := UInt32.pos_iff_ne_zero.mpr hthreads
        simp only [Task.fetchOr, halive, hpos, Bool.not_true, Bool.false_eq_true, if_false,
          Bool.not_false, and_self, if_true, chooseThread_eq_none_iff]
        grind

/-- `Signal` stays in the array for all counters exactly if it makes no index for the task, or
the picker of the task fits the numbers of the threads. -/
theorem inArray_iff (numShortTaskThreads numBlockingThreads : UInt32) (task : Task)
    (events : EventFlags) :
    (createThreads numShortTaskThreads numBlockingThreads).InArray task events ↔
      (task.Picks → Fits numShortTaskThreads numBlockingThreads task.pickerToUse) := by
  generalize numShortTaskThreads = a, numBlockingThreads = b
  have hsafe : (createThreads a b).InArray task events ↔
      (task.Picks → a + b ≠ 0 → ∀ pickers,
        (createThreads a b).PicksIn pickers task.pickerToUse) := by
    simp only [InArray, ne_eq, signal_eq_none_iff]
    change (∀ pickers, ¬ (task.Picks ∧ a + b ≠ 0 ∧ _)) ↔ _
    grind
  have hfits : task.Picks →
      (Fits a b task.pickerToUse ↔
        (a + b ≠ 0 → ∀ pickers, (createThreads a b).PicksIn pickers task.pickerToUse)) := by
    intro hpicks
    unfold Fits
    dsimp only
    rw [← or_assoc, ← numToAdd_eq_zero]
    by_cases hthreads : a + b = 0
    · simp [hthreads]
    · cases hpicker : task.pickerToUse with
      | sShortTaskThreadPicker => simp [hthreads, picksIn_short_iff hthreads]
      | sBlockingTaskThreadPicker => simp [hthreads, picksIn_blocking_iff hthreads]
      | other => exact absurd hpicker hpicks.2.2.2.2
  rw [hsafe]
  exact forall_congr' fun hpicks => (hfits hpicks).symm

/-- Blocking threads only: the first blocking task is sent to a thread behind the array. -/
theorem blockingOnly_not_inArray :
    ¬ (createThreads 0 1).InArray { pickerToUse := .sBlockingTaskThreadPicker } kStartEvent := by
  intro h
  exact h {} (by decide)

end ThreadCounts

end CxxFramework.Thread
