import CxxFramework.Thread.Task
import Mathlib.Data.List.Count

/-!
# No lost events

An abstract model of one task: its event word, the events owed to it, and the number of
places that hold it, among the calls of `Signal` that are scheduling it and the points,
queues and heaps of the threads. Each step of the threads is a step of every task's
abstract model, apart from the compare-exchange that takes a task out of the alive state.

## Main definitions

* `Word` — the abstract model, its steps and its invariant.
* `NoneLost`, `LeavesIdle` — the events owed are pending; a task leaves the alive state
  without pending events.
* `Ok` — a compare-exchange against any other value than `kAlive` fails.
-/

namespace CxxFramework.Thread

open Transition

/-! ## Event flags -/

theorem getElem_kAlive : (i : Nat) → (h : i < 32) → kAlive[i] = decide (i = 31) := by
  decide

theorem getElem_kAliveOff : (i : Nat) → (h : i < 32) → kAliveOff[i] = decide (i ≠ 31) := by
  decide

theorem alive_iff (flags : EventFlags) : alive flags = flags[31] := by
  rw [Bool.eq_iff_iff, alive, bne_iff_ne]
  constructor
  · intro hne
    by_contra hbit
    refine hne (BitVec.eq_of_getElem_eq ?_)
    intro i hi
    rw [BitVec.getElem_and, getElem_kAlive i hi]
    cases hi31 : decide (i = 31) <;> simp_all
  · intro hbit heq
    have := congrArg (fun f : EventFlags => f[31]) heq
    simp [hbit, getElem_kAlive] at this

theorem alive_or (a b : EventFlags) : alive (a ||| b) = (alive a || alive b) := by
  simp [alive_iff]

theorem alive_and_kAlive (flags : EventFlags) : alive (flags &&& kAlive) = alive flags := by
  simp [alive_iff, getElem_kAlive]

theorem kAlive_and_kAliveOff (flags : EventFlags) : flags &&& kAlive &&& kAliveOff = 0 := by
  rw [BitVec.and_assoc, show kAlive &&& kAliveOff = 0 by decide]
  exact BitVec.and_zero

/-- Flags with the alive bit and no event are `kAlive`. -/
theorem eq_kAlive {flags : EventFlags} (ha : alive flags) (hoff : flags &&& kAliveOff = 0) :
    flags = kAlive := by
  refine BitVec.eq_of_getElem_eq ?_
  intro i hi
  have hbit := congrArg (fun f : EventFlags => f[i]) hoff
  rw [alive_iff] at ha
  rw [getElem_kAlive i hi]
  rcases eq_or_ne i 31 with rfl | hne
  · simpa using ha
  · simpa [getElem_kAliveOff i hi, hne] using hbit

/-! ## The abstract model of a task -/

/-- An event word, the events owed, and the number of places that hold the task. -/
structure Word where
  fEvents : EventFlags
  owed : EventFlags
  places : Nat

namespace Word

/-- What can happen to a task that stays alive: events are signalled, which adds a place
if it was not alive, `GetEvents` is called, or a place lets go of it. -/
inductive Step : Word → Word → Prop
  | fetchOr {w : Word} (events : EventFlags) {n : Nat} (one : n ≤ 1)
      (wakes : 0 < n → alive w.fEvents = false ∧ alive events) :
      Step w ⟨w.fEvents ||| events, w.owed ||| (events &&& kAliveOff), w.places + n⟩
  | getEvents {w : Word} : Step w ⟨w.fEvents &&& kAlive, 0, w.places⟩
  | drop {w : Word} {n : Nat} (fewer : n ≤ w.places) : Step w ⟨w.fEvents, w.owed, n⟩

/-- The compare-exchange with zero. -/
def leave (w : Word) : Word := ⟨0, w.owed, w.places - 1⟩

/-- Exactly the events owed are pending, and an alive task is in one place. -/
structure Inv (w : Word) : Prop where
  pending : w.owed = w.fEvents &&& kAliveOff
  once : w.places ≤ 1
  alive : 0 < w.places → alive w.fEvents

theorem Step.inv {w w' : Word} (h : Step w w') (hi : w.Inv) : w'.Inv := by
  cases h with
  | fetchOr events one wakes =>
    refine ⟨?_, ?_, fun hpos => ?_⟩
    · simp only [hi.pending]
      ext i
      simp only [BitVec.getElem_or, BitVec.getElem_and]
      grind
    · rcases Nat.eq_zero_or_pos w.places with hzero | hpos
      · simp only [hzero, Nat.zero_add]
        exact one
      · have hone := hi.once
        have : ¬ 0 < _ := fun h => by simpa [hi.alive hpos] using (wakes h).1
        simp only
        omega
    · simp only [alive_or, Bool.or_eq_true]
      rcases Nat.eq_zero_or_pos w.places with hzero | hplaces
      · exact .inr (wakes (by simpa [hzero] using hpos)).2
      · exact .inl (hi.alive hplaces)
  | getEvents =>
    exact ⟨(kAlive_and_kAliveOff _).symm, hi.once, fun h => by
      simpa [alive_and_kAlive] using hi.alive h⟩
  | drop fewer =>
    exact ⟨hi.pending, Nat.le_trans fewer hi.once, fun h => hi.alive (Nat.lt_of_lt_of_le h fewer)⟩

/-- A task that leaves the alive state with no event pending is as a new one. -/
theorem Inv.leave {w : Word} (hi : w.Inv) (h : w.fEvents = kAlive) : w.leave.Inv := by
  refine ⟨?_, ?_, fun hpos => ?_⟩
  · have := hi.pending
    simp only [Word.leave]
    rw [this, h]
    decide
  · have := hi.once
    simp only [Word.leave]
    omega
  · have := hi.once
    simp only [Word.leave] at hpos
    omega

/-- A task that leaves the alive state loses its events if there are any. -/
theorem Step.alive {w w' : Word} (h : Step w w') (ha : alive w.fEvents) : alive w'.fEvents := by
  cases h with
  | fetchOr => simp [alive_or, ha]
  | getEvents => simpa [alive_and_kAlive] using ha
  | drop => exact ha

end Word

/-! ## The threads -/

variable {Id : Type}

/-- The task that a thread works on. -/
def Point.tasks : Point Id → List Id
  | .run x | .readVal x | .exchange x _ | .writeVal x _ => [x]
  | .waitForTask | .returned => []

def TaskThread.tasks (th : TaskThread Id) : List Id :=
  th.point.tasks ++ (th.fTaskQueue ++ th.fHeap)

namespace State

/-- All places that hold a task. -/
def places (s : State Id) : List Id :=
  s.calls.map Prod.fst ++ s.threads.flatMap TaskThread.tasks

variable [DecidableEq Id]

/-- What the abstract model of task `x` sees of a state. -/
def word (s : State Id) (x : Id) : Word :=
  ⟨(s.tasks x).fEvents, s.owed x, s.places.count x⟩

end State

/-- Every event owed is pending. -/
def NoneLost (s : State Id) : Prop :=
  ∀ x, s.owed x &&& (s.tasks x).fEvents = s.owed x

/-- A step takes a task out of the alive state only if no event is pending. -/
def LeavesIdle (s t : State Id) : Prop :=
  ∀ x, alive (s.tasks x).fEvents → ¬ alive (t.tasks x).fEvents →
    (s.tasks x).fEvents &&& kAliveOff = 0

/-- The task and the expected value of the compare-exchange that thread `i` is about to
do. -/
def State.exchanging (s : State Id) (i : Nat) : Option (Id × EventFlags) :=
  s.threads[i]?.bind fun th =>
    match th.point with
    | .exchange x expected => some (x, expected)
    | _ => none

theorem State.exchanging_eq_some {s : State Id} {i : Nat} {x : Id} {expected : EventFlags} :
    s.exchanging i = some (x, expected) ↔
      ∃ th, s.threads[i]? = some th ∧ th.point = .exchange x expected := by
  simp only [State.exchanging, Option.bind_eq_some_iff]
  refine exists_congr fun th => and_congr_right ?_
  intro _
  cases th.point <;> simp

/-- A compare-exchange that can succeed expects no value but `kAlive`. -/
def Ok (s : State Id) : Action Id → Prop
  | .thread i (.exchange false) =>
    ∀ e ∈ s.exchanging i, (s.tasks e.1).fEvents = e.2 → e.2 = kAlive
  | _ => True

instance (s : State Id) : (a : Action Id) → Decidable (Ok s a)
  | .thread i (.exchange false) => inferInstanceAs (Decidable (∀ e ∈ s.exchanging i, _))
  | .thread _ (.exchange true) | .signal _ _ | .chooseThread _ | .enQueue _ _ |
    .thread _ (.fromHeap _) | .thread _ .fromQueue | .thread _ .stop | .thread _ .getEvents |
    .thread _ .forceSameThread | .thread _ (.runReturns _) | .thread _ .readVal |
    .thread _ .writeVal => inferInstanceAs (Decidable True)

/-! ## The steps refine the abstract model -/

section Refinement

variable [DecidableEq Id] {s t : State Id} {x : Id} {i : Nat} {th : TaskThread Id}

theorem count_flatMap_set (l : List (TaskThread Id)) (h : l[i]? = some th) (th' : TaskThread Id)
    (x : Id) :
    ((l.set i th').flatMap TaskThread.tasks).count x + th.tasks.count x =
      (l.flatMap TaskThread.tasks).count x + th'.tasks.count x := by
  induction l generalizing i with
  | nil => simp at h
  | cons a l ih =>
    cases i with
    | zero =>
      obtain rfl : a = th := by simpa using h
      simp only [List.set_cons_zero, List.flatMap_cons, List.count_append]
      omega
    | succ i =>
      have := ih (i := i) (by simpa using h)
      simp only [List.set_cons_succ, List.flatMap_cons, List.count_append]
      omega

/-- Replacing a thread changes the places of a task by what the thread holds. -/
theorem count_setThread (h : s.threads[i]? = some th) (th' : TaskThread Id) (x : Id) :
    (s.setThread i th').places.count x + th.tasks.count x =
      s.places.count x + th'.tasks.count x := by
  have := count_flatMap_set s.threads h th' x
  simp only [State.places, State.setThread, List.count_append]
  omega

/-- A step that leaves the word and the debt of a task alone, and adds no place. -/
theorem word_drop (hevents : (t.tasks x).fEvents = (s.tasks x).fEvents)
    (howed : t.owed x = s.owed x) (hplaces : t.places.count x ≤ s.places.count x) :
    (s.word x).Step (t.word x) := by
  have h := Word.Step.drop (w := s.word x) hplaces
  simpa [State.word, hevents, howed] using h

/-- A task whose event word a change leaves alone. -/
theorem fEvents_setTask {task : Task} (h : task.fEvents = (s.tasks x).fEvents) (y : Id) :
    ((s.setTask x task).tasks y).fEvents = (s.tasks y).fEvents := by
  rcases eq_or_ne y x with rfl | hne
  · simpa using h
  · simp [hne]

theorem fEvents_useDefaultThread (task : Task) :
    task.useDefaultThread.fEvents = task.fEvents := by
  unfold Task.useDefaultThread
  split <;> rfl

/-- Events are signalled to `x`, and `n` places are added that hold it. -/
theorem word_fetchOr (x : Id) (events : EventFlags) (n : Nat)
    (htasks : t.tasks = (s.fetchOr x events).tasks) (howed : t.owed = (s.fetchOr x events).owed)
    (hplaces : ∀ y, t.places.count y = s.places.count y + if y = x then n else 0)
    (one : n ≤ 1) (wakes : 0 < n → alive (s.tasks x).fEvents = false ∧ alive events) (y : Id) :
    (s.word y).Step (t.word y) := by
  rcases eq_or_ne y x with rfl | hne
  · have h := Word.Step.fetchOr (w := s.word y) events one wakes
    simpa [State.word, htasks, howed, hplaces, State.fetchOr, Task.fetchOr] using h
  · refine word_drop ?_ ?_ (by simp [hplaces, hne])
    · simp [htasks, State.fetchOr, hne]
    · simp [howed, State.fetchOr, hne]

theorem signal_step (s : State Id) (x : Id) (events : EventFlags) (y : Id) :
    (s.word y).Step ((s.signal x events).word y) := by
  unfold State.signal
  dsimp only
  split_ifs with hvalid hidle
  · exact word_drop rfl rfl (Nat.le_refl _)
  · refine word_fetchOr x (events ||| kAlive) 1 ?_ ?_ (fun z => ?_) (Nat.le_refl _)
      (fun _ => ⟨?_, ?_⟩) y
    · rfl
    · rfl
    · change ((x :: s.places).count z) = _
      rw [List.count_cons]
      grind
    · simpa [Task.fetchOr] using hidle.1
    · rw [alive_or, show alive kAlive = true by decide, Bool.or_true]
  · refine word_fetchOr x (events ||| kAlive) 0 rfl rfl (fun z => ?_) (Nat.zero_le _) nofun y
    simp [State.fetchOr, State.places, State.setTask, State.setOwed]

/-- A call of `Signal` that goes on holds its task as before. -/
theorem count_calls {call : Id × Option Nat} (h : call ∈ s.calls) :
    s.places.count x = (((s.calls.erase call).map Prod.fst) ++
      s.threads.flatMap TaskThread.tasks).count x + if call.1 = x then 1 else 0 := by
  have hperm := ((List.perm_cons_erase h).map Prod.fst).count_eq x
  simp only [State.places, List.count_append, hperm, List.map_cons, List.count_cons, beq_iff_eq]
  omega

theorem chooseThread_step (h : s.chooseThread x = some t) (y : Id) :
    (s.word y).Step (t.word y) := by
  unfold State.chooseThread at h
  dsimp only at h
  split_ifs at h with hcall
  have hcount := count_calls (x := y) hcall
  split at h
  · rename_i i _
    obtain rfl := Option.some.inj h
    refine word_drop (fEvents_setTask (fEvents_useDefaultThread _) y) rfl ?_
    simp only [State.places, List.map_cons, State.setTask] at hcount ⊢
    simp only [List.cons_append, List.count_cons, beq_iff_eq]
    omega
  · obtain ⟨⟨thread, pool⟩, -, h⟩ := Option.map_eq_some_iff.mp h
    cases thread with
    | none =>
      obtain rfl := h
      refine word_drop (fEvents_setTask (fEvents_useDefaultThread _) y) rfl ?_
      simp only [State.places, State.setTask] at hcount ⊢
      omega
    | some i =>
      obtain rfl := h
      refine word_drop (fEvents_setTask (fEvents_useDefaultThread _) y) rfl ?_
      simp only [State.places, List.map_cons, State.setTask] at hcount ⊢
      simp only [List.cons_append, List.count_cons, beq_iff_eq]
      omega

theorem enQueue_step (h : s.enQueue x i = some t) (y : Id) : (s.word y).Step (t.word y) := by
  unfold State.enQueue at h
  split_ifs at h with hcall
  obtain ⟨th, hth, rfl⟩ := Option.map_eq_some_iff.mp h
  refine word_drop rfl rfl ?_
  have hcount := count_calls (x := y) hcall
  have hset := count_flatMap_set s.threads hth { th with fTaskQueue := th.fTaskQueue ++ [x] } y
  simp only [State.places, State.setThread, List.count_append, TaskThread.tasks,
    List.count_singleton, beq_iff_eq] at hcount hset ⊢
  omega

/-- The places in one thread. -/
theorem count_tasks (th : TaskThread Id) (y : Id) :
    th.tasks.count y = th.point.tasks.count y + th.fTaskQueue.count y + th.fHeap.count y := by
  simp only [TaskThread.tasks, List.count_append]
  omega

/-- A thread that comes to hold no more tasks, and events and debts left alone. -/
theorem setThread_step {u : State Id} (hth : s.threads[i]? = some th) {th' : TaskThread Id}
    (hthreads : u.threads = s.threads) (hcalls : u.calls = s.calls)
    (hevents : ∀ y, (u.tasks y).fEvents = (s.tasks y).fEvents) (howed : u.owed = s.owed)
    (hheld : ∀ y, th'.tasks.count y ≤ th.tasks.count y) (y : Id) :
    (s.word y).Step ((u.setThread i th').word y) := by
  refine word_drop (hevents y) (congrFun howed y) ?_
  have hcount := count_setThread hth th' y
  have := hheld y
  have hplaces : (u.setThread i th').places = (s.setThread i th').places := by
    simp [State.places, State.setThread, hthreads, hcalls]
  rw [hplaces]
  omega

theorem taskReturned_step (hth : s.threads[i]? = some th) (th' : TaskThread Id)
    (hheld : ∀ y, [x].count y + th'.fTaskQueue.count y + th'.fHeap.count y ≤ th.tasks.count y)
    (y : Id) : (s.word y).Step ((s.taskReturned i th' x).word y) := by
  unfold State.taskReturned State.beginRun
  split_ifs with hvalid
  · refine setThread_step (u := s.setTask x _) hth rfl rfl ?_ rfl (fun z => ?_) y
    · exact fEvents_setTask rfl
    · rw [count_tasks { th' with point := .run x }]
      exact hheld z
  · refine setThread_step hth rfl rfl (fun _ => rfl) rfl (fun z => ?_) y
    rw [count_tasks { th' with point := .returned }]
    refine Nat.le_trans ?_ (hheld z)
    simp [Point.tasks, Nat.add_assoc]

theorem runReturned_step (hth : s.threads[i]? = some th) (hpoint : th.point = .run x)
    (theTimeout : Int) (y : Id) :
    (s.word y).Step ((s.runReturned i th x theTimeout).word y) := by
  have hheld := count_tasks th
  simp only [hpoint, Point.tasks] at hheld
  unfold State.runReturned
  split_ifs with hneg hzero
  · refine setThread_step (u := s.setTask x _) hth rfl rfl ?_ rfl (fun z => ?_) y
    · exact fEvents_setTask rfl
    · rw [hheld, count_tasks { th with point := .waitForTask }]
      simp [Point.tasks, Nat.add_assoc]
  · refine setThread_step hth rfl rfl (fun _ => rfl) rfl (fun z => ?_) y
    rw [hheld, count_tasks { th with point := .readVal x }]
    exact Nat.le_refl _
  · refine word_fetchOr x kIdleEvent 0 ?_ ?_ (fun z => ?_) (Nat.zero_le _) nofun y
    · rfl
    · rfl
    · have hcount := count_setThread hth
        { th with point := .waitForTask, fHeap := x :: th.fHeap } z
      have := hheld z
      simp only [count_tasks, Point.tasks, List.count_nil, List.count_cons] at hcount this
      change ((s.setThread i _).places.count z) = _
      simp only [ite_self]
      omega

/-- The compare-exchange takes the task out of the alive state, or changes nothing but
the thread. -/
theorem exchange_cases (hth : s.threads[i]? = some th) {expected : EventFlags}
    (hpoint : th.point = .exchange x expected) (spurious : Bool) :
    (¬ ((s.tasks x).fEvents = expected ∧ spurious = false) ∧
        ∀ y, (s.word y).Step ((s.exchange i th x expected spurious).word y)) ∨
      ((s.tasks x).fEvents = expected ∧ spurious = false ∧ 0 < (s.word x).places ∧
        ∀ y, (s.exchange i th x expected spurious).word y =
          if y = x then (s.word x).leave else s.word y) := by
  have hheld := count_tasks th
  simp only [hpoint, Point.tasks] at hheld
  unfold State.exchange Task.compareExchangeWeak
  cases hok : decide ((s.tasks x).fEvents = expected ∧ spurious = false) with
  | false =>
    refine .inl ⟨by simpa using hok, ?_⟩
    intro y
    have hif : ¬ ((s.tasks x).fEvents = expected ∧ (!spurious) = true) := by simpa using hok
    rw [if_neg hif]
    refine setThread_step hth rfl rfl (fun _ => rfl) rfl (fun z => ?_) y
    rw [hheld, count_tasks { th with point := .writeVal x (s.tasks x).fEvents }]
    exact Nat.le_refl _
  | true =>
    obtain ⟨hexp, hsp⟩ : (s.tasks x).fEvents = expected ∧ spurious = false := by simpa using hok
    have hif : (s.tasks x).fEvents = expected ∧ (!spurious) = true := by simp [hexp, hsp]
    have hcount : ∀ y, (s.setThread i { th with point := .waitForTask }).places.count y +
        (if x = y then 1 else 0) = s.places.count y := by
      intro y
      have := count_setThread hth { th with point := .waitForTask } y
      simp only [hheld, List.count_singleton, beq_iff_eq] at this
      simp only [count_tasks, Point.tasks, List.count_nil] at this
      omega
    have hpos : 0 < (s.word x).places := by
      have := hcount x
      simp only [if_true] at this
      simp only [State.word]
      omega
    refine .inr ⟨hexp, hsp, hpos, ?_⟩
    intro y
    rw [if_pos hif]
    have hcount := hcount y
    rcases eq_or_ne y x with rfl | hne
    · rw [if_pos rfl] at hcount ⊢
      simp only [State.word, Word.leave, State.setThread_tasks, State.setTask_self,
        State.setThread_owed, State.setTask_owed, Word.mk.injEq, true_and]
      exact Nat.eq_sub_of_add_eq hcount
    · rw [if_neg hne.symm] at hcount
      rw [if_neg hne]
      simp only [State.word, State.setThread_tasks, State.setTask_of_ne _ _ hne,
        State.setThread_owed, State.setTask_owed, Word.mk.injEq, true_and]
      exact hcount

/-- A step of a thread is a step of every task's abstract model, or the compare-exchange
that takes the thread's task out of the alive state. -/
theorem threadStep_cases (hth : s.threads[i]? = some th) {a : ThreadAction Id}
    (h : s.threadStep i th a = some t) :
    (∀ y, (s.word y).Step (t.word y)) ∨
      ∃ x expected, a = .exchange false ∧ th.point = .exchange x expected ∧
        (s.tasks x).fEvents = expected ∧ 0 < (s.word x).places ∧
        ∀ y, t.word y = if y = x then (s.word x).leave else s.word y := by
  have hheld := count_tasks th
  unfold State.threadStep at h
  split at h
  case h_1 x hpoint =>
    split_ifs at h with hmem
    obtain rfl := Option.some.inj h
    refine .inl (taskReturned_step hth _ ?_)
    intro z
    have := (List.perm_cons_erase hmem).count_eq z
    simp only [hheld, hpoint, Point.tasks, List.count_nil, List.count_cons] at this ⊢
    omega
  case h_2 hpoint =>
    cases hqueue : th.fTaskQueue with
    | nil => simp [hqueue] at h
    | cons x fTaskQueue =>
      simp only [hqueue, Option.some.injEq] at h
      subst h
      refine .inl (taskReturned_step hth _ ?_)
      intro z
      simp only [hheld, hpoint, Point.tasks, List.count_nil, hqueue, List.count_cons]
      omega
  case h_3 hpoint =>
    obtain rfl := Option.some.inj h
    refine .inl (setThread_step hth rfl rfl (fun _ => rfl) rfl ?_)
    intro z
    rw [hheld, count_tasks { th with point := .returned }, hpoint]
    exact Nat.le_refl _
  case h_4 x hpoint =>
    obtain rfl := Option.some.inj h
    refine .inl ?_
    intro y
    rcases eq_or_ne y x with rfl | hne
    · have := Word.Step.getEvents (w := s.word y)
      simp only [State.word, State.setOwed_tasks, State.setTask_self, State.setOwed_self]
      exact this
    · exact word_drop (by simp [hne]) (by simp [hne]) (Nat.le_refl _)
  case h_5 x hpoint =>
    obtain rfl := Option.some.inj h
    refine .inl fun y => word_drop ?_ rfl (Nat.le_refl _)
    refine fEvents_setTask ?_ y
    rfl
  case h_6 theTimeout x hpoint =>
    obtain rfl := Option.some.inj h
    exact .inl (runReturned_step hth hpoint theTimeout)
  case h_7 x hpoint =>
    obtain rfl := Option.some.inj h
    refine .inl (setThread_step hth rfl rfl (fun _ => rfl) rfl ?_)
    intro z
    rw [hheld, count_tasks { th with point := .exchange x s.val }, hpoint]
    exact Nat.le_refl _
  case h_8 spurious x expected hpoint =>
    obtain rfl := Option.some.inj h
    rcases exchange_cases hth hpoint spurious with ⟨-, hstep⟩ | ⟨hexp, rfl, hpos, hleave⟩
    · exact .inl hstep
    · exact .inr ⟨x, expected, rfl, hpoint, hexp, hpos, hleave⟩
  case h_9 x observed hpoint =>
    obtain rfl := Option.some.inj h
    refine .inl (setThread_step (u := State.setTask { s with val := observed } x _) hth rfl rfl ?_
      rfl fun z => ?_)
    · exact fEvents_setTask rfl
    · rw [hheld, count_tasks { th with point := .run x }, hpoint]
      exact Nat.le_refl _
  case h_10 => simp at h

/-- A step is a step of every task's abstract model, or the compare-exchange that takes a
task out of the alive state. -/
theorem next_cases {a : Action Id} (h : s.next a = some t) :
    (∀ y, (s.word y).Step (t.word y)) ∨
      ∃ i th x expected, a = .thread i (.exchange false) ∧ s.threads[i]? = some th ∧
        th.point = .exchange x expected ∧ (s.tasks x).fEvents = expected ∧
        0 < (s.word x).places ∧ ∀ y, t.word y = if y = x then (s.word x).leave else s.word y := by
  cases a with
  | signal x events =>
    obtain rfl := Option.some.inj h
    exact .inl (signal_step s x events)
  | chooseThread x => exact .inl (chooseThread_step h)
  | enQueue x i => exact .inl (enQueue_step h)
  | thread i a =>
    obtain ⟨th, hth, hstep⟩ := Option.bind_eq_some_iff.mp h
    rcases threadStep_cases hth hstep with hall | ⟨x, expected, rfl, hleave⟩
    · exact .inl hall
    · exact .inr ⟨i, th, x, expected, rfl, hth, hleave⟩

/-- The compare-exchange of a task whose word is the expected value. -/
theorem next_exchange {expected : EventFlags} (hth : s.threads[i]? = some th)
    (hpoint : th.point = .exchange x expected) (hexp : (s.tasks x).fEvents = expected)
    (h : s.next (.thread i (.exchange false)) = some t) :
    0 < (s.word x).places ∧ t.word x = (s.word x).leave := by
  simp only [State.next, hth, Option.bind_some, State.threadStep, hpoint, Option.some.injEq] at h
  subst h
  rcases exchange_cases hth hpoint false with ⟨hno, -⟩ | ⟨-, -, hpos, hleave⟩
  · exact absurd ⟨hexp, rfl⟩ hno
  · exact ⟨hpos, by simp [hleave]⟩

end Refinement

/-! ## Any run -/

section Runs

variable [DecidableEq Id] {s t : State Id} {a : Action Id}

theorem Fresh.inv (h : Fresh s) (x : Id) : (s.word x).Inv := by
  obtain ⟨htasks, ⟨_, _, -, hthreads⟩, hcalls, -, howed⟩ := h
  have hplaces : s.places.count x = 0 := by
    rw [List.count_eq_zero, State.places, hcalls, hthreads]
    simp [TaskThread.tasks, Point.tasks]
  refine ⟨?_, ?_, ?_⟩ <;> simp [State.word, htasks, howed, hplaces]

theorem noneLost_of_inv (h : ∀ x, (s.word x).Inv) : NoneLost s := by
  intro x
  have := (h x).pending
  simp only [State.word] at this
  rw [this, BitVec.and_assoc, BitVec.and_comm kAliveOff, ← BitVec.and_assoc, BitVec.and_self]

/-- A step that meets the condition loses no event. -/
theorem next_sound (hi : ∀ x, (s.word x).Inv) (hs : s.next a = some t) (hok : Ok s a) :
    (NoneLost t ∧ LeavesIdle s t) ∧ ∀ x, (t.word x).Inv := by
  rcases next_cases hs with hstep | ⟨i, th, x, expected, rfl, hth, hpoint, hexp, hpos, hleave⟩
  · have hi' := fun x => (hstep x).inv (hi x)
    exact ⟨⟨noneLost_of_inv hi', fun x ha hna => absurd ((hstep x).alive ha) hna⟩, hi'⟩
  · have hidle : (s.tasks x).fEvents = kAlive :=
      hexp.trans (hok (x, expected) (State.exchanging_eq_some.mpr ⟨th, hth, hpoint⟩) hexp)
    have hi' : ∀ y, (t.word y).Inv := by
      intro y
      rw [hleave]
      split_ifs with heq
      · exact (hi x).leave hidle
      · exact hi y
    refine ⟨⟨noneLost_of_inv hi', fun y ha hna => ?_⟩, hi'⟩
    have hy := hleave y
    split_ifs at hy with heq
    · subst heq
      rw [hidle]
      decide
    · have : (t.tasks y).fEvents = (s.tasks y).fEvents := congrArg Word.fEvents hy
      exact absurd (this ▸ ha) hna

/-- A compare-exchange that goes against the condition takes a task with pending events
out of the alive state. -/
theorem next_exact (hi : ∀ x, (s.word x).Inv) (hs : s.next a = some t) (hidle : LeavesIdle s t) :
    Ok s a := by
  unfold Ok
  split
  · rename_i i
    rintro ⟨x, expected⟩ hmem hexp
    obtain ⟨th, hth, hpoint⟩ := State.exchanging_eq_some.mp hmem
    obtain ⟨hpos, hleave⟩ := next_exchange hth hpoint hexp hs
    have halive := (hi x).alive hpos
    have hgone : (t.tasks x).fEvents = 0 := congrArg Word.fEvents hleave
    rw [← hexp]
    exact eq_kAlive halive (hidle x halive (by rw [hgone]; decide))
  · trivial

/-- In a run of any number of signalling threads and task threads, no event is lost and
no task leaves the alive state with an event pending, exactly if every compare-exchange
that could succeed expects `kAlive`. -/
theorem noneLost_iff (s : State Id) (h : Fresh s) (as : List (Action Id)) :
    (system Id).Keeps (fun s _ t => NoneLost t ∧ LeavesIdle s t) s as ↔
      (system Id).Meets Ok s as :=
  System.keeps_iff_meets (fun s => ∀ x, (s.word x).Inv)
    (fun _ _ _ hi hs hok => next_sound hi hs hok)
    (fun _ _ _ hi hs hkeeps => next_exact hi hs hkeeps.2) h.inv as

end Runs

/-- Two tasks that nobody has signalled, and one task thread. -/
def oneThread : State Nat :=
  { tasks := fun _ => {}, pool := .createThreads 1 0, threads := [{}] }

theorem oneThread_fresh : Fresh oneThread :=
  ⟨fun _ => rfl, ⟨1, 0, rfl, rfl⟩, rfl, rfl, fun _ => rfl⟩

/-- A task is signalled again between its `GetEvents` and the end of its `Run`, and runs
until the third compare-exchange finds it with the alive bit only. -/
def signalledTwice : List (Action Nat) :=
  [.signal 0 kStartEvent, .chooseThread 0, .enQueue 0 0, .thread 0 .fromQueue,
    .thread 0 .getEvents, .signal 0 kReadEvent, .thread 0 (.runReturns 0), .thread 0 .readVal,
    .thread 0 (.exchange false), .thread 0 .writeVal, .thread 0 .getEvents,
    .thread 0 (.runReturns 0), .thread 0 .readVal, .thread 0 (.exchange false),
    .thread 0 .writeVal, .thread 0 (.runReturns 0), .thread 0 .readVal,
    .thread 0 (.exchange false)]

theorem noneLost_iff_signalledTwice :
    (system Nat).Keeps (fun s _ t => NoneLost t ∧ LeavesIdle s t) oneThread signalledTwice :=
  (noneLost_iff oneThread oneThread_fresh signalledTwice).mpr (by decide +kernel)

/-- A task is signalled during each of two `Run`s. The first compare-exchange fails and
leaves the event of the first signal in `val`, which is what the second one finds in
`fEvents` and replaces by zero. -/
def signalledInEachRun : List (Action Nat) :=
  [.signal 0 kStartEvent, .chooseThread 0, .enQueue 0 0, .thread 0 .fromQueue,
    .thread 0 .getEvents, .signal 0 kReadEvent, .thread 0 (.runReturns 0), .thread 0 .readVal,
    .thread 0 (.exchange false), .thread 0 .writeVal, .thread 0 .getEvents,
    .signal 0 kReadEvent, .thread 0 (.runReturns 0), .thread 0 .readVal] ++
    [.thread 0 (.exchange false)]

theorem signalledInEachRun_loses_event :
    ¬ (system Nat).Keeps (fun s _ t => NoneLost t ∧ LeavesIdle s t) oneThread
      signalledInEachRun := by
  intro hkeeps
  have hrun : (signalledInEachRun.foldlM State.next oneThread).map
      (fun t => (t.owed 0, (t.tasks 0).fEvents)) = some (kReadEvent, 0) := by decide +kernel
  obtain ⟨u, hu, heq⟩ := Option.map_eq_some_iff.mp hrun
  obtain ⟨howed, hevents⟩ := Prod.mk.inj heq
  obtain ⟨t, -, hnone, -⟩ := hkeeps.last (System.exec_of_foldlM (fun _ _ _ h => h) hu)
  have hlost := hnone 0
  rw [howed, hevents] at hlost
  exact absurd hlost (by decide)

end CxxFramework.Thread
