import CxxFramework.Thread.TaskEvents

/-!
# Where the tasks are

A live task is idle, or held by one `Signal` call that is scheduling it, by one place of
one queue, by one place of one timer heap, or by the one thread that runs it. `Signal`
calls go on to a queue as long as the thread they choose exists, which a pool without
short-task threads breaks for the blocking picker: `sNumShortTaskThreads` is all threads
then, and the index made from the picker lies behind them.

## Main definitions

* `State.whereabouts` — all places that have to do with a task, each as often as it has.
* `Slot` — the abstract model of one task: whether it is alive and valid, and the number
  of places that hold it.
* `Placed` — each live task is in one place, and the `Signal` calls can go on.
* `PickOk` — the blocking picker is used with short-task threads only.
-/

namespace CxxFramework.Thread

open Transition

variable {Id : Type} [DecidableEq Id]

/-! ## Places -/

inductive Place where
  | idle
  | signal (thread : Option Nat)
  | queue (i : Nat)
  | heap (i : Nat)
  | run (i : Nat)
deriving DecidableEq, Repr

/-- The places of thread `i` that hold a task. -/
def TaskThread.whereabouts (th : TaskThread Id) (x : Id) (i : Nat) : List Place :=
  List.replicate (th.point.tasks.count x) (.run i) ++
    List.replicate (th.fTaskQueue.count x) (.queue i) ++
    List.replicate (th.fHeap.count x) (.heap i)

def State.whereabouts (s : State Id) (x : Id) : List Place :=
  (if alive (s.tasks x).fEvents then [] else [.idle]) ++
    (s.calls.filter (·.1 = x)).map (fun call => .signal call.2) ++
    s.threads.zipIdx.flatMap fun th => th.1.whereabouts x th.2

/-- The next step of a `Signal` call is possible. -/
def State.GoesOn (s : State Id) : Id × Option Nat → Prop
  | (x, none) => (s.chooseThread x).isSome
  | (x, some i) => (s.enQueue x i).isSome

instance (s : State Id) : (call : Id × Option Nat) → Decidable (s.GoesOn call)
  | (_, none) | (_, some _) => inferInstanceAs (Decidable (_ = true))

/-- Each live task is in one place, and each `Signal` call goes on to a queue. -/
structure Placed (s : State Id) : Prop where
  once : ∀ x, (s.tasks x).valid → ∃ place, s.whereabouts x = [place]
  calls : ∀ call ∈ s.calls, s.GoesOn call

/-- The threads that a task names exist, and so do threads of the kind that its picker
selects. -/
structure Served (pool : TaskThreadPool) (n : Nat) (task : Task) : Prop where
  picker : match task.pickerToUse with
    | .sShortTaskThreadPicker => 0 < pool.sNumShortTaskThreads
    | .sBlockingTaskThreadPicker => 0 < pool.sNumBlockingTaskThreads
    | .other => False
  default : ∀ i ∈ task.fDefaultThread, i < n
  useThis : ∀ i ∈ task.fUseThisThread, i < n

/-- `Signal` does not use the blocking picker in a pool without short-task threads. -/
def PickOk (s : State Id) : Action Id → Prop
  | .chooseThread x =>
    (s.tasks x).useDefaultThread.fUseThisThread = none →
      (s.tasks x).pickerToUse = .sBlockingTaskThreadPicker →
        s.pool.sNumShortTaskThreads < s.threads.length
  | _ => True

instance (s : State Id) : (a : Action Id) → Decidable (PickOk s a)
  | .chooseThread _ => inferInstanceAs (Decidable (_ → _ → _))
  | .signal _ _ | .enQueue _ _ | .thread _ _ => inferInstanceAs (Decidable True)

/-! ## Counting the places -/

theorem TaskThread.length_whereabouts (th : TaskThread Id) (x : Id) (i : Nat) :
    (th.whereabouts x i).length = th.tasks.count x := by
  simp only [TaskThread.whereabouts, List.length_append, List.length_replicate, count_tasks]

theorem length_whereabouts (s : State Id) (x : Id) :
    (s.whereabouts x).length =
      (if alive (s.tasks x).fEvents then 0 else 1) + s.places.count x := by
  have hthreads : ∀ (l : List (TaskThread Id)) (k : Nat),
      ((l.zipIdx k).flatMap fun th => th.1.whereabouts x th.2).length =
        (l.flatMap TaskThread.tasks).count x := by
    intro l
    induction l with
    | nil =>
      intro k
      rfl
    | cons th l ih =>
      intro k
      simp only [List.zipIdx_cons, List.flatMap_cons, List.length_append, List.count_append, ih,
        TaskThread.length_whereabouts]
  have hcalls : (s.calls.filter (·.1 = x)).length = (s.calls.map Prod.fst).count x := by
    rw [List.count_eq_countP, List.countP_map, List.countP_eq_length_filter]
    congr 1
  unfold State.whereabouts
  rw [List.length_append, List.length_append, List.length_map, hcalls, hthreads, State.places,
    List.count_append, Nat.add_assoc]
  split_ifs <;> rfl

/-! ## The abstract model of a task -/

/-- Whether a task is alive and valid, and the number of places that hold it. -/
structure Slot where
  alive : Bool
  valid : Bool
  places : Nat

namespace Slot

/-- An idle task is scheduled, an alive one is let go of and idle again, or a task that is
deleted loses its places. -/
inductive Step : Slot → Slot → Prop
  | stay (w : Slot) : Step w w
  | wake {w : Slot} (idle : w.alive = false) : Step w ⟨true, w.valid, w.places + 1⟩
  | rest {w : Slot} (held : 0 < w.places) : Step w ⟨false, w.valid, w.places - 1⟩
  | drop {w : Slot} {n : Nat} (fewer : n ≤ w.places) : Step w ⟨w.alive, false, n⟩

/-- A task is held by at most one place, by one only if it is alive, and by one if it is
alive and not deleted. -/
structure Inv (w : Slot) : Prop where
  once : w.places ≤ 1
  alive : 0 < w.places → w.alive
  held : w.valid → w.alive → 0 < w.places

theorem Step.inv {w w' : Slot} (h : Step w w') (hi : w.Inv) : w'.Inv := by
  obtain ⟨honce, halive, hheld⟩ := hi
  cases h with
  | stay => exact ⟨honce, halive, hheld⟩
  | wake idle =>
    have hzero : ¬ 0 < w.places := by
      intro hpos
      rw [halive hpos] at idle
      cases idle
    exact ⟨by simp only; omega, fun _ => rfl, fun _ _ => Nat.succ_pos _⟩
  | rest held => exact ⟨by simp only; omega, fun hpos => by simp only at hpos; omega, nofun⟩
  | drop fewer =>
    exact ⟨Nat.le_trans fewer honce, fun hpos => halive (Nat.lt_of_lt_of_le hpos fewer), nofun⟩

end Slot

/-- What the abstract model of task `x` sees of a state. -/
def State.slot (s : State Id) (x : Id) : Slot :=
  ⟨alive (s.tasks x).fEvents, (s.tasks x).valid, s.places.count x⟩

theorem Slot.Inv.whereabouts {s : State Id} {x : Id} (hi : (s.slot x).Inv)
    (hvalid : (s.tasks x).valid) : ∃ place, s.whereabouts x = [place] := by
  rw [← List.length_eq_one_iff, length_whereabouts]
  have honce := hi.once
  have halive := hi.alive
  have hheld := hi.held hvalid
  simp only [State.slot] at honce halive hheld
  split_ifs with h
  · have := hheld h
    omega
  · have hzero : ¬ 0 < s.places.count x := fun hpos => h (halive hpos)
    omega

/-! ## The steps refine the abstract model -/

section Refinement

variable {s t : State Id} {x : Id} {i : Nat} {th : TaskThread Id}

theorem slot_eq (hevents : alive (t.tasks x).fEvents = alive (s.tasks x).fEvents)
    (hvalid : (t.tasks x).valid = (s.tasks x).valid)
    (hplaces : t.places.count x = s.places.count x) : (s.slot x).Step (t.slot x) := by
  have heq : t.slot x = s.slot x := by simp only [State.slot, hevents, hvalid, hplaces]
  rw [heq]
  exact .stay _

/-- A task is changed in a way that leaves it as alive and as valid as it was. -/
structure Like (task' task : Task) : Prop where
  alive : alive task'.fEvents = alive task.fEvents
  valid : task'.valid = task.valid

theorem like_setTask {task : Task} (h : Like task (s.tasks x)) (y : Id) :
    Like ((s.setTask x task).tasks y) (s.tasks y) := by
  rcases eq_or_ne y x with rfl | hne
  · simpa using h
  · rw [State.setTask_of_ne _ _ hne]
    exact ⟨rfl, rfl⟩

theorem like_useDefaultThread (task : Task) : Like task.useDefaultThread task := by
  unfold Task.useDefaultThread
  split <;> exact ⟨rfl, rfl⟩

/-- The places of a state with another thread `i`, and other tasks. -/
theorem count_setThread_of_eq {u : State Id} (hth : s.threads[i]? = some th)
    (th' : TaskThread Id) (hthreads : u.threads = s.threads) (hcalls : u.calls = s.calls)
    (y : Id) : (u.setThread i th').places.count y + th.tasks.count y =
      s.places.count y + th'.tasks.count y := by
  rw [← count_setThread hth th' y]
  simp [State.places, State.setThread, hthreads, hcalls]

/-- A thread that goes on to hold the same tasks, and tasks that are like before. -/
theorem setThread_slot {u : State Id} (hth : s.threads[i]? = some th) {th' : TaskThread Id}
    (hthreads : u.threads = s.threads) (hcalls : u.calls = s.calls)
    (hlike : ∀ y, Like (u.tasks y) (s.tasks y))
    (hheld : ∀ y, th'.tasks.count y = th.tasks.count y) (y : Id) :
    (s.slot y).Step ((u.setThread i th').slot y) := by
  refine slot_eq (hlike y).alive (hlike y).valid ?_
  have hcount := count_setThread_of_eq hth th' hthreads hcalls y
  rw [hheld] at hcount
  exact Nat.add_right_cancel hcount

/-- A deleted task is let go of. -/
theorem drop_slot {u : State Id} (hth : s.threads[i]? = some th) {th' : TaskThread Id}
    (hthreads : u.threads = s.threads) (hcalls : u.calls = s.calls)
    (hlike : ∀ y, alive (u.tasks y).fEvents = alive (s.tasks y).fEvents)
    (hvalid : ∀ y, y ≠ x → (u.tasks y).valid = (s.tasks y).valid)
    (hdeleted : (u.tasks x).valid = false)
    (hheld : ∀ y, th.tasks.count y = th'.tasks.count y + [x].count y) (y : Id) :
    (s.slot y).Step ((u.setThread i th').slot y) := by
  have hcount := count_setThread_of_eq hth th' hthreads hcalls y
  rw [hheld] at hcount
  by_cases hy : y = x
  · subst hy
    have hdrop := Slot.Step.drop (w := s.slot y) (n := (u.setThread i th').places.count y) (by
      simp only [State.slot]
      omega)
    simpa [State.slot, hlike, hdeleted] using hdrop
  · rw [List.count_eq_zero.mpr (mt List.mem_singleton.mp hy)] at hcount
    exact slot_eq (hlike y) (hvalid y hy) (by omega)

theorem signal_slot (hpool : 0 < s.pool.sNumTaskThreads) (x : Id) (events : EventFlags) (y : Id) :
    (s.slot y).Step ((s.signal x events).slot y) := by
  have hset : alive ((s.tasks x).fEvents ||| (events ||| kAlive)) = true := by
    rw [alive_or, alive_or, show alive kAlive = true by decide, Bool.or_true, Bool.or_true]
  unfold State.signal
  dsimp only
  split_ifs with hvalid hidle
  · exact .stay _
  · by_cases hy : y = x
    · subst hy
      have hwake := Slot.Step.wake (w := s.slot y)
        (by simpa [State.slot, Task.fetchOr] using hidle.1)
      simpa [State.slot, State.fetchOr, Task.fetchOr, State.places, State.setTask, State.setOwed,
        hset] using hwake
    · refine slot_eq ?_ ?_ ?_
      · simp [State.fetchOr, hy]
      · simp [State.fetchOr, hy]
      · simp [State.places, State.fetchOr, State.setTask, State.setOwed, Ne.symm hy]
  · have halive : alive (s.tasks x).fEvents = true := by
      by_contra hnot
      exact hidle ⟨by simpa [Task.fetchOr] using hnot, hpool⟩
    by_cases hy : y = x
    · subst hy
      refine slot_eq ?_ ?_ rfl
      · simp [State.fetchOr, Task.fetchOr, hset, halive]
      · simp [State.fetchOr, Task.fetchOr]
    · refine slot_eq ?_ ?_ rfl
      · simp [State.fetchOr, hy]
      · simp [State.fetchOr, hy]

theorem chooseThread_slot (hcall : (x, none) ∈ s.calls) (i : Nat) (pool : TaskThreadPool) (y : Id) :
    (s.slot y).Step (State.slot
      { s.setTask x (s.tasks x).useDefaultThread with
        calls := (x, some i) :: s.calls.erase (x, none)
        pool } y) := by
  have hlike := like_setTask (like_useDefaultThread (s.tasks x)) y
  refine slot_eq hlike.alive hlike.valid ?_
  have hcount := count_calls (x := y) hcall
  simp only [State.places, List.map_cons, State.setTask] at hcount ⊢
  simp only [List.cons_append, List.count_cons, beq_iff_eq]
  omega

theorem enQueue_slot (h : s.enQueue x i = some t) (y : Id) : (s.slot y).Step (t.slot y) := by
  unfold State.enQueue at h
  split_ifs at h with hcall
  obtain ⟨th, hth, rfl⟩ := Option.map_eq_some_iff.mp h
  refine slot_eq rfl rfl ?_
  have hcount := count_calls (x := y) hcall
  have hset := count_flatMap_set s.threads hth { th with fTaskQueue := th.fTaskQueue ++ [x] } y
  simp only [State.places, State.setThread, List.count_append, TaskThread.tasks,
    List.count_singleton, beq_iff_eq] at hcount hset ⊢
  omega

theorem taskReturned_slot (hth : s.threads[i]? = some th) (th' : TaskThread Id)
    (hheld : ∀ y,
      [x].count y + th'.fTaskQueue.count y + th'.fHeap.count y = th.tasks.count y) (y : Id) :
    (s.slot y).Step ((s.taskReturned i th' x).slot y) := by
  unfold State.taskReturned State.beginRun
  split_ifs with hvalid
  · refine setThread_slot (u := s.setTask x _) hth rfl rfl ?_ ?_ y
    · exact like_setTask ⟨rfl, rfl⟩
    · intro z
      rw [count_tasks { th' with point := .run x }]
      exact hheld z
  · refine drop_slot hth rfl rfl (fun _ => rfl) (fun _ _ => rfl) (by simpa using hvalid) ?_ y
    intro z
    rw [← hheld, count_tasks { th' with point := .returned }]
    simp only [Point.tasks, List.count_nil]
    omega

theorem runReturned_slot (hth : s.threads[i]? = some th) (hpoint : th.point = .run x)
    (theTimeout : Int) (y : Id) :
    (s.slot y).Step ((s.runReturned i th x theTimeout).slot y) := by
  have hheld := count_tasks th
  simp only [hpoint, Point.tasks] at hheld
  unfold State.runReturned
  split_ifs with hneg hzero
  · refine drop_slot (u := s.setTask x _) hth rfl rfl ?_ ?_ ?_ ?_ y (x := x)
    · intro z
      rcases eq_or_ne z x with rfl | hne
      · simp
      · simp [hne]
    · intro z hz
      simp [hz]
    · simp
    · intro z
      rw [hheld, count_tasks { th with point := .waitForTask }]
      simp only [Point.tasks, List.count_nil]
      omega
  · refine setThread_slot hth rfl rfl (fun _ => ⟨rfl, rfl⟩) ?_ y
    intro z
    rw [hheld, count_tasks { th with point := .readVal x }]
    rfl
  · refine setThread_slot (u := s.fetchOr x kIdleEvent) hth rfl rfl ?_ ?_ y
    · refine like_setTask ⟨?_, rfl⟩
      simp only [Task.fetchOr]
      rw [alive_or, show alive kIdleEvent = false by decide, Bool.or_false]
    · intro z
      rw [hheld, count_tasks { th with point := .waitForTask, fHeap := x :: th.fHeap }]
      simp only [Point.tasks, List.count_nil, List.count_cons]
      omega

theorem exchange_slot (hth : s.threads[i]? = some th) {expected : EventFlags}
    (hpoint : th.point = .exchange x expected) (spurious : Bool) (y : Id) :
    (s.slot y).Step ((s.exchange i th x expected spurious).slot y) := by
  have hheld := count_tasks th
  simp only [hpoint, Point.tasks] at hheld
  unfold State.exchange Task.compareExchangeWeak
  split_ifs with hok
  · have hcount := count_setThread_of_eq (u := s.setTask x { s.tasks x with fEvents := 0 }) hth
      { th with point := .waitForTask } rfl rfl y
    rw [hheld, count_tasks { th with point := .waitForTask }] at hcount
    simp only [Point.tasks, List.count_nil] at hcount
    by_cases hy : y = x
    · subst hy
      rw [List.count_singleton_self] at hcount
      have hrest := Slot.Step.rest (w := s.slot y) (by simp only [State.slot]; omega)
      convert hrest using 1
      simp only [State.slot, State.setThread_tasks, State.setTask_self, Slot.mk.injEq, true_and]
      exact ⟨by decide, by omega⟩
    · rw [List.count_eq_zero.mpr (mt List.mem_singleton.mp hy)] at hcount
      refine slot_eq ?_ ?_ ?_
      · simp [hy]
      · simp [hy]
      · exact Nat.add_right_cancel hcount
  · refine setThread_slot hth rfl rfl (fun _ => ⟨rfl, rfl⟩) ?_ y
    intro z
    rw [hheld, count_tasks { th with point := .writeVal x (s.tasks x).fEvents }]
    rfl

theorem threadStep_slot (hth : s.threads[i]? = some th) {a : ThreadAction Id}
    (h : s.threadStep i th a = some t) (y : Id) : (s.slot y).Step (t.slot y) := by
  have hheld := count_tasks th
  unfold State.threadStep at h
  split at h
  case h_1 x hpoint =>
    split_ifs at h with hmem
    obtain rfl := Option.some.inj h
    refine taskReturned_slot hth _ ?_ y
    intro z
    have := (List.perm_cons_erase hmem).count_eq z
    simp only [hheld, hpoint, Point.tasks, List.count_nil, List.count_cons] at this ⊢
    omega
  case h_2 hpoint =>
    cases hqueue : th.fTaskQueue with
    | nil => simp [hqueue] at h
    | cons x fTaskQueue =>
      simp only [hqueue, Option.some.injEq] at h
      subst h
      refine taskReturned_slot hth _ ?_ y
      intro z
      simp only [hheld, hpoint, Point.tasks, List.count_nil, hqueue, List.count_cons]
      omega
  case h_3 hpoint =>
    obtain rfl := Option.some.inj h
    refine setThread_slot hth rfl rfl (fun _ => ⟨rfl, rfl⟩) ?_ y
    intro z
    rw [hheld, count_tasks { th with point := .returned }, hpoint]
    rfl
  case h_4 x hpoint =>
    obtain rfl := Option.some.inj h
    have hevents : Like (s.tasks x).getEvents.2 (s.tasks x) := ⟨alive_and_kAlive _, rfl⟩
    have hlike := like_setTask hevents y
    exact slot_eq hlike.alive hlike.valid rfl
  case h_5 x hpoint =>
    obtain rfl := Option.some.inj h
    have hplaced : Like { s.tasks x with fUseThisThread := some i } (s.tasks x) := ⟨rfl, rfl⟩
    have hlike := like_setTask hplaced y
    exact slot_eq hlike.alive hlike.valid rfl
  case h_6 theTimeout x hpoint =>
    obtain rfl := Option.some.inj h
    exact runReturned_slot hth hpoint theTimeout y
  case h_7 x hpoint =>
    obtain rfl := Option.some.inj h
    refine setThread_slot hth rfl rfl (fun _ => ⟨rfl, rfl⟩) ?_ y
    intro z
    rw [hheld, count_tasks { th with point := .exchange x s.val }, hpoint]
    rfl
  case h_8 spurious x expected hpoint =>
    obtain rfl := Option.some.inj h
    exact exchange_slot hth hpoint spurious y
  case h_9 x observed hpoint =>
    obtain rfl := Option.some.inj h
    refine setThread_slot (u := State.setTask { s with val := observed } x _) hth rfl rfl ?_ ?_ y
    · exact like_setTask ⟨rfl, rfl⟩
    · intro z
      rw [hheld, count_tasks { th with point := .run x }, hpoint]
      rfl
  case h_10 => simp at h

/-! ## The choice of a thread -/

variable {n : Nat} {pool pool' : TaskThreadPool} {task task' : Task}

/-- What tasks and the pool keep in every step: the picker and the default thread of a
task, and the numbers of threads. -/
theorem Served.congr (h : Served pool n task) (hpicker : task'.pickerToUse = task.pickerToUse)
    (hdefault : task'.fDefaultThread = task.fDefaultThread)
    (huse : ∀ i ∈ task'.fUseThisThread, i < n) : Served pool n task' where
  picker := hpicker ▸ h.picker
  default := hdefault ▸ h.default
  useThis := huse

theorem Served.useDefaultThread (h : Served pool n task) :
    Served pool n task.useDefaultThread := by
  unfold Task.useDefaultThread
  split
  · exact h.congr rfl rfl h.default
  · exact h

theorem served_setTask (h : ∀ y, Served pool n (s.tasks y)) (hx : Served pool n task) (y : Id) :
    Served pool n ((s.setTask x task).tasks y) := by
  rcases eq_or_ne y x with rfl | hne
  · simpa using hx
  · simpa [hne] using h y

/-- The numbers of threads of a pool. -/
def TaskThreadPool.numbers (pool : TaskThreadPool) : Nat × Nat × Nat :=
  (pool.sNumTaskThreads, pool.sNumShortTaskThreads, pool.sNumBlockingTaskThreads)

theorem Served.of_numbers (h : Served pool n task) (hpool : pool'.numbers = pool.numbers) :
    Served pool' n task := by
  obtain ⟨-, hshort, hblocking⟩ : _ ∧ _ ∧ _ := by simpa [TaskThreadPool.numbers] using hpool
  refine ⟨?_, h.default, h.useThis⟩
  rw [hshort, hblocking]
  exact h.picker

/-- The index that a built-in picker selects. -/
theorem pick_eq (h : Served pool n task) :
    ∃ i pool', pool.pick task.pickerToUse = some (some i, pool') ∧
      pool'.numbers = pool.numbers ∧
      match task.pickerToUse with
      | .sShortTaskThreadPicker => i < pool.sNumShortTaskThreads
      | .sBlockingTaskThreadPicker => pool.sNumShortTaskThreads ≤ i ∧
          i < pool.sNumShortTaskThreads + pool.sNumBlockingTaskThreads
      | .other => False := by
  have hpos := h.picker
  unfold TaskThreadPool.pick
  cases hpicker : task.pickerToUse with
  | sShortTaskThreadPicker =>
    simp only [hpicker] at hpos
    exact ⟨_, _, if_neg (by omega), rfl, Nat.mod_lt _ hpos⟩
  | sBlockingTaskThreadPicker =>
    simp only [hpicker] at hpos
    have := Nat.mod_lt pool.sBlockingTaskThreadPicker.toNat hpos
    exact ⟨_, _, if_neg (by omega), rfl, by omega, by omega⟩
  | other => simp [hpicker] at hpos

/-- `Signal` chooses a thread, by the task or by its picker. -/
theorem chooseThread_eq (h : Served s.pool n (s.tasks x)) (hcall : (x, none) ∈ s.calls) :
    ∃ i pool, s.chooseThread x = some
        { s.setTask x (s.tasks x).useDefaultThread with
          calls := (x, some i) :: s.calls.erase (x, none)
          pool } ∧
      pool.numbers = s.pool.numbers ∧
      match (s.tasks x).useDefaultThread.fUseThisThread, (s.tasks x).pickerToUse with
      | some _, _ => i < n
      | none, .sShortTaskThreadPicker => i < s.pool.sNumShortTaskThreads
      | none, .sBlockingTaskThreadPicker => s.pool.sNumShortTaskThreads ≤ i ∧
          i < s.pool.sNumShortTaskThreads + s.pool.sNumBlockingTaskThreads
      | none, .other => False := by
  have hserved := h.useDefaultThread
  have hpicker : (s.tasks x).useDefaultThread.pickerToUse = (s.tasks x).pickerToUse := by
    unfold Task.useDefaultThread
    split <;> rfl
  unfold State.chooseThread
  rw [if_pos hcall]
  cases huse : (s.tasks x).useDefaultThread.fUseThisThread with
  | some i => exact ⟨i, s.pool, by simp [huse, State.setTask], rfl, hserved.useThis i huse⟩
  | none =>
    obtain ⟨i, pool', hpick, hnumbers, hi⟩ := pick_eq hserved
    rw [hpicker] at hi hpick
    refine ⟨i, pool', ?_, hnumbers, ?_⟩
    · simp [huse, hpick, hpicker]
    · cases hp : (s.tasks x).pickerToUse with
      | other => simp [hp] at hi
      | _ => simpa [hp] using hi

/-- A step of a thread keeps the pool, the `Signal` calls, and what the tasks name. -/
structure Kept (s t : State Id) : Prop where
  pool : t.pool = s.pool
  calls : t.calls = s.calls
  threads : t.threads.length = s.threads.length
  served : ∀ y, Served s.pool s.threads.length (t.tasks y)

omit [DecidableEq Id] in
theorem kept_setThread (hserved : ∀ y, Served s.pool s.threads.length (s.tasks y))
    (i : Nat) (th : TaskThread Id) : Kept s (s.setThread i th) :=
  ⟨rfl, rfl, List.length_set, hserved⟩

theorem kept_setTask (hserved : ∀ y, Served s.pool s.threads.length (s.tasks y))
    (hpicker : task.pickerToUse = (s.tasks x).pickerToUse)
    (hdefault : task.fDefaultThread = (s.tasks x).fDefaultThread)
    (huse : ∀ j ∈ task.fUseThisThread, j < s.threads.length) (i : Nat) (th : TaskThread Id) :
    Kept s ((s.setTask x task).setThread i th) :=
  ⟨rfl, rfl, List.length_set, served_setTask hserved ((hserved x).congr hpicker hdefault huse)⟩

theorem threadStep_kept (hth : s.threads[i]? = some th) {a : ThreadAction Id}
    (h : s.threadStep i th a = some t)
    (hserved : ∀ y, Served s.pool s.threads.length (s.tasks y)) : Kept s t := by
  have hi : i < s.threads.length := (List.getElem?_eq_some_iff.mp hth).1
  have returned : ∀ th' x, Kept s (s.taskReturned i th' x) := by
    intro th' x
    unfold State.taskReturned State.beginRun
    split_ifs
    · refine kept_setTask hserved ?_ ?_ ?_ i _
      · rfl
      · rfl
      · rintro _ ⟨⟩
    · exact kept_setThread hserved i _
  unfold State.threadStep at h
  split at h
  case h_1 x hpoint =>
    split_ifs at h
    obtain rfl := Option.some.inj h
    exact returned _ x
  case h_2 hpoint =>
    cases hqueue : th.fTaskQueue with
    | nil => simp [hqueue] at h
    | cons x fTaskQueue =>
      simp only [hqueue, Option.some.injEq] at h
      subst h
      exact returned _ x
  case h_3 hpoint =>
    obtain rfl := Option.some.inj h
    exact kept_setThread hserved i _
  case h_4 x hpoint =>
    obtain rfl := Option.some.inj h
    exact ⟨rfl, rfl, rfl,
      served_setTask hserved ((hserved x).congr rfl rfl (hserved x).useThis)⟩
  case h_5 x hpoint =>
    obtain rfl := Option.some.inj h
    refine ⟨rfl, rfl, rfl, served_setTask hserved ((hserved x).congr rfl rfl ?_)⟩
    rintro _ ⟨⟩
    exact hi
  case h_6 theTimeout x hpoint =>
    obtain rfl := Option.some.inj h
    unfold State.runReturned
    split_ifs
    · refine kept_setTask hserved ?_ ?_ ?_ i _
      · rfl
      · rfl
      · exact (hserved x).useThis
    · exact kept_setThread hserved i _
    · refine ⟨rfl, rfl, List.length_set, served_setTask hserved ?_⟩
      exact (hserved x).congr rfl rfl (hserved x).useThis
  case h_7 x hpoint =>
    obtain rfl := Option.some.inj h
    exact kept_setThread hserved i _
  case h_8 spurious x expected hpoint =>
    obtain rfl := Option.some.inj h
    unfold State.exchange Task.compareExchangeWeak
    split_ifs
    · refine kept_setTask hserved ?_ ?_ ?_ i _
      · rfl
      · rfl
      · exact (hserved x).useThis
    · exact kept_setThread hserved i _
  case h_9 x observed hpoint =>
    obtain rfl := Option.some.inj h
    exact ⟨rfl, rfl, List.length_set, served_setTask hserved ((hserved x).congr rfl rfl nofun)⟩
  case h_10 => simp at h

end Refinement

/-! ## Runs -/

section Placement

variable {s t : State Id} {a : Action Id}

structure PlacementInv (s : State Id) : Prop where
  nonempty : ∀ _ : Id, 0 < s.pool.sNumTaskThreads
  threads : s.threads.length = s.pool.sNumTaskThreads
  short : s.pool.sNumShortTaskThreads + s.pool.sNumBlockingTaskThreads =
      s.pool.sNumTaskThreads ∨ s.pool.sNumShortTaskThreads = s.pool.sNumTaskThreads
  served : ∀ x, Served s.pool s.threads.length (s.tasks x)
  calls : ∀ x i, (x, some i) ∈ s.calls → i < s.threads.length
  slot : ∀ x, (s.slot x).Inv

theorem PlacementInv.placed (hi : PlacementInv s) : Placed s where
  once x hvalid := (hi.slot x).whereabouts hvalid
  calls := by
    rintro ⟨x, _ | i⟩ hcall
    · obtain ⟨i, pool, heq, -⟩ := chooseThread_eq (hi.served x) hcall
      simp only [State.GoesOn, heq, Option.isSome_some]
    · have hin := hi.calls x i hcall
      simp only [State.GoesOn, State.enQueue, if_pos hcall, Option.isSome_map,
        List.getElem?_eq_getElem hin, Option.isSome_some]

/-- A step that keeps the numbers of threads, and the `Signal` calls in range. -/
theorem PlacementInv.step (hi : PlacementInv s) (hnumbers : t.pool.numbers = s.pool.numbers)
    (hthreads : t.threads.length = s.threads.length)
    (hserved : ∀ x, Served s.pool s.threads.length (t.tasks x))
    (hcalls : ∀ x i, (x, some i) ∈ t.calls → i < s.threads.length)
    (hslot : ∀ x, (s.slot x).Step (t.slot x)) : PlacementInv t := by
  obtain ⟨hnum, hshort, hblocking⟩ : _ ∧ _ ∧ _ := by
    simpa [TaskThreadPool.numbers] using hnumbers
  refine ⟨?_, ?_, ?_, ?_, ?_, fun x => (hslot x).inv (hi.slot x)⟩
  · rw [hnum]
    exact hi.nonempty
  · rw [hthreads, hnum]
    exact hi.threads
  · rw [hnum, hshort, hblocking]
    exact hi.short
  · rw [hthreads]
    intro x
    exact (hserved x).of_numbers hnumbers
  · rw [hthreads]
    exact hcalls

/-- The index that `Signal` makes is one of a thread unless the blocking picker is used
without short-task threads. -/
theorem lt_iff_pickOk (hi : PlacementInv s) {x : Id} {i : Nat}
    (h : match (s.tasks x).useDefaultThread.fUseThisThread, (s.tasks x).pickerToUse with
      | some _, _ => i < s.threads.length
      | none, .sShortTaskThreadPicker => i < s.pool.sNumShortTaskThreads
      | none, .sBlockingTaskThreadPicker => s.pool.sNumShortTaskThreads ≤ i ∧
          i < s.pool.sNumShortTaskThreads + s.pool.sNumBlockingTaskThreads
      | none, .other => False) :
    i < s.threads.length ↔ PickOk s (.chooseThread x) := by
  have hshort := hi.short
  have hthreads := hi.threads
  unfold PickOk
  cases huse : (s.tasks x).useDefaultThread.fUseThisThread with
  | some j =>
    simp only [huse] at h
    exact iff_of_true h (by simp [huse])
  | none =>
    cases hpicker : (s.tasks x).pickerToUse with
    | sShortTaskThreadPicker =>
      simp only [huse, hpicker] at h
      exact iff_of_true (by omega) (by simp [hpicker])
    | sBlockingTaskThreadPicker =>
      simp only [huse, hpicker] at h
      simp only [huse, hpicker, true_implies]
      omega
    | other => simp only [huse, hpicker] at h

theorem next_placed (hi : PlacementInv s) (h : s.next a = some t) :
    (Placed t ↔ PickOk s a) ∧ (PickOk s a → PlacementInv t) := by
  have hother : PlacementInv t → PickOk s a →
      (Placed t ↔ PickOk s a) ∧ (PickOk s a → PlacementInv t) := by
    intro hi' hok
    exact ⟨iff_of_true hi'.placed hok, fun _ => hi'⟩
  cases a with
  | signal x events =>
    obtain rfl := Option.some.inj h
    have hslot := signal_slot (hi.nonempty x) x events
    refine hother ?_ trivial
    have hserved : ∀ y,
        Served s.pool s.threads.length ((s.fetchOr x (events ||| kAlive)).tasks y) :=
      served_setTask hi.served ((hi.served x).congr rfl rfl (hi.served x).useThis)
    unfold State.signal at hslot ⊢
    dsimp only at hslot ⊢
    split_ifs at hslot ⊢
    · exact hi
    · refine hi.step rfl rfl hserved ?_ hslot
      intro y j hcall
      rcases List.mem_cons.mp hcall with heq | hcall
      · cases heq
      · exact hi.calls y j hcall
    · exact hi.step rfl rfl hserved hi.calls hslot
  | chooseThread x =>
    have hcall : (x, none) ∈ s.calls := by
      by_contra hnot
      simp only [State.next, State.chooseThread, if_neg hnot, reduceCtorEq] at h
    obtain ⟨i, pool, heq, hnumbers, hi'⟩ := chooseThread_eq (hi.served x) hcall
    obtain rfl := Option.some.inj (heq.symm.trans h)
    have hok := lt_iff_pickOk hi hi'
    have hinv : PickOk s (.chooseThread x) → PlacementInv
        { s.setTask x (s.tasks x).useDefaultThread with
          calls := (x, some i) :: s.calls.erase (x, none)
          pool } := by
      intro hpick
      refine hi.step hnumbers rfl ?_ ?_ ?_
      · exact served_setTask hi.served (hi.served x).useDefaultThread
      · intro y j hmem
        rcases List.mem_cons.mp hmem with heq | hmem
        · obtain ⟨rfl, rfl⟩ : y = x ∧ j = i := by simpa using heq
          exact hok.mpr hpick
        · exact hi.calls y j (List.mem_of_mem_erase hmem)
      · exact chooseThread_slot hcall i pool
    refine ⟨⟨?_, fun hpick => (hinv hpick).placed⟩, hinv⟩
    intro hplaced
    have hgoes := hplaced.calls (x, some i) List.mem_cons_self
    simp only [State.GoesOn, State.enQueue, List.mem_cons_self, if_true, Option.isSome_map] at hgoes
    refine hok.mp ?_
    by_contra hout
    simp [State.setTask, List.getElem?_eq_none (Nat.le_of_not_lt hout)] at hgoes
  | enQueue x i =>
    have hslot := enQueue_slot h
    simp only [State.next, State.enQueue, Option.ite_none_right_eq_some] at h
    obtain ⟨hcall, h⟩ := h
    obtain ⟨th, hth, rfl⟩ := Option.map_eq_some_iff.mp h
    refine hother (hi.step rfl List.length_set hi.served ?_ hslot) trivial
    intro y j hmem
    exact hi.calls y j (List.mem_of_mem_erase hmem)
  | thread i a =>
    obtain ⟨th, hth, hstep⟩ := Option.bind_eq_some_iff.mp h
    obtain ⟨hpool, hcalls, hthreads, hserved⟩ := threadStep_kept hth hstep hi.served
    exact hother (hi.step (by rw [hpool]) hthreads hserved (hcalls ▸ hi.calls)
      (threadStep_slot hth hstep)) trivial

theorem Fresh.placementInv (fresh : Fresh s)
    (served : ∀ x, Served s.pool s.threads.length (s.tasks x)) : PlacementInv s := by
  obtain ⟨htasks, ⟨numShort, numBlocking, hpool, hthreads⟩, hcalls, -, -⟩ := fresh
  refine ⟨?_, ?_, ?_, served, ?_, ?_⟩
  · intro x
    have hpicker := (served x).picker
    rw [hpool] at hpicker ⊢
    simp only [TaskThreadPool.createThreads] at hpicker ⊢
    grind
  · rw [hthreads, List.length_replicate]
  · rw [hpool]
    simp only [TaskThreadPool.createThreads]
    split_ifs <;> omega
  · simp [hcalls]
  · intro x
    have hplaces : s.places.count x = 0 := by
      rw [List.count_eq_zero, State.places, hcalls, hthreads]
      simp [TaskThread.tasks, Point.tasks]
    have hidle : alive (s.tasks x).fEvents = false := by rw [htasks]; decide
    exact ⟨by simp [State.slot, hplaces], by simp [State.slot, hplaces],
      by simp [State.slot, hidle]⟩

/-- Throughout a run of any number of signalling threads and task threads, each live task
is in one place and each `Signal` call can go on, exactly if the blocking picker is used
with short-task threads only. -/
theorem placed_iff (s : State Id) (fresh : Fresh s)
    (served : ∀ x, Served s.pool s.threads.length (s.tasks x)) (as : List (Action Id)) :
    (system Id).Keeps (fun _ _ t => Placed t) s as ↔ (system Id).Meets PickOk s as := by
  refine System.keeps_iff_meets PlacementInv ?_ ?_ (fresh.placementInv served) as
  · intro s a t hi hs hok
    obtain ⟨hiff, hinv⟩ := next_placed hi hs
    exact ⟨hiff.mpr hok, hinv hok⟩
  · intro s a t hi hs hplaced
    exact (next_placed hi hs).1.mp hplaced

end Placement

/-! ### Examples -/

/-- Tasks that use the blocking picker. -/
def blockingTasks (numShortTaskThreads numBlockingThreads : Nat) : State Nat :=
  { tasks := fun _ => { pickerToUse := .sBlockingTaskThreadPicker }
    pool := .createThreads numShortTaskThreads numBlockingThreads
    threads := List.replicate (numShortTaskThreads + numBlockingThreads) {} }

theorem blockingTasks_fresh (numShort numBlocking : Nat) :
    Fresh (blockingTasks numShort numBlocking) :=
  ⟨fun _ => rfl, ⟨numShort, numBlocking, rfl, rfl⟩, rfl, rfl, fun _ => rfl⟩

theorem blockingTasks_served (numShort : Nat) {numBlocking : Nat} (h : 0 < numBlocking) (x : Nat) :
    Served (blockingTasks numShort numBlocking).pool
      (blockingTasks numShort numBlocking).threads.length
      ((blockingTasks numShort numBlocking).tasks x) :=
  ⟨h, nofun, nofun⟩

/-- A task runs, and another one is put into the timer heap. -/
def twoTasks : List (Action Nat) :=
  [.signal 0 kStartEvent, .chooseThread 0, .signal 1 kStartEvent, .enQueue 0 1, .chooseThread 1,
    .thread 1 .fromQueue, .enQueue 1 1, .thread 1 (.runReturns 50), .signal 0 kReadEvent,
    .thread 1 .fromQueue, .thread 1 .forceSameThread]

theorem placed_iff_twoTasks :
    (system Nat).Keeps (fun _ _ t => Placed t) (blockingTasks 1 1) twoTasks :=
  (placed_iff _ (blockingTasks_fresh 1 1) (blockingTasks_served 1 (by decide)) twoTasks).mpr
    (by decide +kernel)

/-- One blocking thread and no short-task thread: the first index is 1, and there is no
such thread. -/
theorem not_placed_without_short :
    Fresh (blockingTasks 0 1) ∧
      (∀ x, Served (blockingTasks 0 1).pool 1 ((blockingTasks 0 1).tasks x)) ∧
      ¬ (system Nat).Keeps (fun _ _ t => Placed t) (blockingTasks 0 1)
        [.signal 0 kStartEvent, .chooseThread 0] := by
  refine ⟨blockingTasks_fresh 0 1, blockingTasks_served 0 (by decide), ?_⟩
  intro keeps
  obtain ⟨-, keeps⟩ := keeps _ rfl
  obtain ⟨placed, -⟩ := keeps _ rfl
  exact absurd (placed.calls (0, some 1) (by decide)) (by decide)

end CxxFramework.Thread
