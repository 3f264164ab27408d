import CxxFramework.Thread.Task
import Mathlib.Data.List.Induction
import Mathlib.Data.Int.Order.Basic

/-!
# Timeout tasks

`TimeoutTaskThread::Run` goes through the queue of the timeout tasks, signals those whose
time has come and works out when it wants to run again. The queue is the list of its
elements from head to tail.

The interval is lowered to one second past the time of a task, and it is compared with the
time that a task has left. So a task behind one with little time left may raise the interval
again, and a task with less than a second to the full interval raises it from the start.

## Main definitions

* `TimeoutTaskThread.run` — one `Run`: the interval and the tasks it signals.
* `TimeoutTaskThread.Polled` — the right tasks are signalled, and none has to wait for more
  than a second too long.
* `TimeoutTaskThread.Settles` — the queues for which that is so.
-/

namespace CxxFramework.Thread

def Task.kKillEvent : EventFlags := 0x1#32

/-- The queue element and the enclosing object of `fTask` are left out. -/
structure TimeoutTask (Id : Type) where
  fTask : Option Id
  fTimeoutAtThisTime : Int := 0
  fTimeoutInMilSecs : Int := 0
deriving DecidableEq, Repr

namespace TimeoutTask

variable {Id : Type}

/-- `TimeoutTask::SetTimeout` at a time `now` -/
def setTimeout (t : TimeoutTask Id) (now inTimeoutInMilSecs : Int) : TimeoutTask Id :=
  { t with
    fTimeoutInMilSecs := inTimeoutInMilSecs
    fTimeoutAtThisTime := if inTimeoutInMilSecs = 0 then 0 else now + inTimeoutInMilSecs }

/-- `TimeoutTask::RefreshTimeout` at a time `now` -/
def refreshTimeout (t : TimeoutTask Id) (now : Int) : TimeoutTask Id :=
  { t with fTimeoutAtThisTime := now + t.fTimeoutInMilSecs }

/-- `TimeoutTask::TimeoutTask` at a time `now` -/
def new (inTask : Option Id) (now inTimeoutInMilSecs : Int) : TimeoutTask Id :=
  setTimeout { fTask := inTask } now inTimeoutInMilSecs

/-- The time of the task has come. -/
abbrev Due (curTime : Int) (t : TimeoutTask Id) : Prop :=
  t.fTimeoutAtThisTime > 0 ∧ curTime ≥ t.fTimeoutAtThisTime

/-- The time that the task has left. -/
def remaining (curTime : Int) (t : TimeoutTask Id) : Int := t.fTimeoutAtThisTime - curTime

/-- The task is not yet due. -/
def Waits (curTime : Int) (t : TimeoutTask Id) : Prop := 0 < t.remaining curTime

/-- The task is one that the interval depends on. -/
def Counts (curTime : Int) (t : TimeoutTask Id) : Prop :=
  t.Waits curTime ∧ 0 < t.fTimeoutInMilSecs

instance (curTime : Int) (t : TimeoutTask Id) : Decidable (t.Waits curTime) :=
  inferInstanceAs (Decidable (_ < _))

instance (curTime : Int) (t : TimeoutTask Id) : Decidable (t.Counts curTime) :=
  inferInstanceAs (Decidable (_ ∧ _))

end TimeoutTask

namespace TimeoutTaskThread

open TimeoutTask

variable {Id : Type}

def kIntervalSeconds : Int := 15

/-- What the loop of `Run` has worked out so far. -/
structure Pass (Id : Type) where
  intervalMilli : Int := kIntervalSeconds * 1000
  signalled : List Id := []
deriving DecidableEq, Repr

/-- One round of the loop of `Run`. A task is signalled with `kTimeoutEvent`. -/
def visit (curTime : Int) (pass : Pass Id) (theTimeoutTask : TimeoutTask Id) : Pass Id :=
  if theTimeoutTask.fTimeoutAtThisTime > 0 ∧ curTime ≥ theTimeoutTask.fTimeoutAtThisTime then
    match theTimeoutTask.fTask with
    | some fTask => { pass with signalled := pass.signalled ++ [fTask] }
    | none => pass
  else
    let taskInterval := theTimeoutTask.fTimeoutAtThisTime - curTime
    if taskInterval > 0 ∧ theTimeoutTask.fTimeoutInMilSecs > 0 ∧
        pass.intervalMilli > taskInterval then
      { pass with intervalMilli := taskInterval + 1000 }
    else pass

/-- `TimeoutTaskThread::Run`: the result, and the tasks that get `kTimeoutEvent`. -/
def run (events : EventFlags) (curTime : Int) (fQueue : List (TimeoutTask Id)) :
    Int × List Id :=
  if events &&& Task.kKillEvent != 0 then (0, [])
  else
    let pass := fQueue.foldl (visit curTime) {}
    (pass.intervalMilli, pass.signalled)

/-- The tasks to signal, in the order of the queue. -/
def timedOut (curTime : Int) (fQueue : List (TimeoutTask Id)) : List Id :=
  (fQueue.filter (·.Due curTime)).filterMap fTask

/-- The tasks whose time has come are signalled, and no other ones. The interval is within
the bound, and it goes at most a second past the time of any task. -/
structure Polled (events : EventFlags) (curTime : Int) (fQueue : List (TimeoutTask Id)) : Prop where
  signalled : (run events curTime fQueue).2 = timedOut curTime fQueue
  within : (run events curTime fQueue).1 ≤ kIntervalSeconds * 1000
  near : ∀ t ∈ fQueue, t.Waits curTime → (run events curTime fQueue).1 ≤ t.remaining curTime + 1000

/-- A task with the least time left, at most a second less than the full interval, stands
in front of the others that are less than a second behind it; or there is no such need, as
all tasks have enough time left. -/
def Settles (curTime : Int) (fQueue : List (TimeoutTask Id)) : Prop :=
  (∀ t ∈ fQueue, t.Waits curTime →
      (kIntervalSeconds - 1) * 1000 ≤ t.remaining curTime ∧
        (t.Counts curTime → kIntervalSeconds * 1000 ≤ t.remaining curTime)) ∨
    ∃ front t back, fQueue = front ++ t :: back ∧ t.Counts curTime ∧
      t.remaining curTime ≤ (kIntervalSeconds - 1) * 1000 ∧
      (∀ u ∈ fQueue, u.Waits curTime → t.remaining curTime ≤ u.remaining curTime) ∧
      ∀ u ∈ back, u.Counts curTime → t.remaining curTime + 1000 ≤ u.remaining curTime

/-! ## The loop -/

variable {curTime interval : Int} {t : TimeoutTask Id} {fQueue : List (TimeoutTask Id)}
  {pass : Pass Id} {events : EventFlags}

/-- What a task makes of the interval. -/
def lower (curTime interval : Int) (t : TimeoutTask Id) : Int :=
  if t.Counts curTime ∧ t.remaining curTime < interval then t.remaining curTime + 1000
  else interval

theorem not_waits_of_due (h : t.Due curTime) : ¬ t.Waits curTime := by
  unfold Waits remaining
  omega

theorem visit_intervalMilli (curTime : Int) (pass : Pass Id) (t : TimeoutTask Id) :
    (visit curTime pass t).intervalMilli = lower curTime pass.intervalMilli t := by
  by_cases hdue : t.Due curTime
  · have hcounts : ¬ t.Counts curTime := fun h => not_waits_of_due hdue h.1
    rw [visit, if_pos hdue, lower, if_neg fun h => hcounts h.1]
    cases t.fTask <;> rfl
  · have hcond : (t.fTimeoutAtThisTime - curTime > 0 ∧ t.fTimeoutInMilSecs > 0 ∧
        pass.intervalMilli > t.fTimeoutAtThisTime - curTime) ↔
        t.Counts curTime ∧ t.remaining curTime < pass.intervalMilli := and_assoc.symm
    rw [visit, if_neg hdue, lower, if_congr hcond rfl rfl]
    split_ifs <;> rfl

theorem visit_signalled (curTime : Int) (pass : Pass Id) (t : TimeoutTask Id) :
    (visit curTime pass t).signalled = pass.signalled ++ timedOut curTime [t] := by
  by_cases hdue : t.Due curTime
  · rw [visit, if_pos hdue]
    cases htask : t.fTask <;> simp [timedOut, hdue, htask]
  · rw [visit, if_neg hdue]
    dsimp only
    split_ifs <;> simp [timedOut, hdue]

theorem foldl_visit_signalled (curTime : Int) (pass : Pass Id) (fQueue : List (TimeoutTask Id)) :
    (fQueue.foldl (visit curTime) pass).signalled = pass.signalled ++ timedOut curTime fQueue := by
  induction fQueue generalizing pass with
  | nil => simp [timedOut]
  | cons t fQueue ih =>
    rw [List.foldl_cons, ih, visit_signalled, List.append_assoc]
    congr 1
    rw [timedOut, timedOut, ← List.filterMap_append, ← List.filter_append, List.singleton_append]
    rfl

theorem foldl_visit_intervalMilli (curTime : Int) (pass : Pass Id)
    (fQueue : List (TimeoutTask Id)) :
    (fQueue.foldl (visit curTime) pass).intervalMilli =
      fQueue.foldl (lower curTime) pass.intervalMilli := by
  induction fQueue generalizing pass with
  | nil => rfl
  | cons t fQueue ih => rw [List.foldl_cons, ih, visit_intervalMilli, List.foldl_cons]

/-- Tasks with enough time left do not change the interval. -/
theorem foldl_lower_of_le
    (h : ∀ u ∈ fQueue, u.Counts curTime → interval ≤ u.remaining curTime) :
    fQueue.foldl (lower curTime) interval = interval := by
  induction fQueue with
  | nil => rfl
  | cons t fQueue ih =>
    have hstay : lower curTime interval t = interval := by
      refine if_neg ?_
      rintro ⟨hcounts, hlt⟩
      exact absurd (h t List.mem_cons_self hcounts) (not_le.mpr hlt)
    rw [List.foldl_cons, hstay]
    exact ih fun u hu => h u (List.mem_cons_of_mem t hu)

/-- The interval is the one at the start, or the one that the last task to change it made. -/
theorem foldl_lower_cases (curTime interval : Int) (fQueue : List (TimeoutTask Id)) :
    (fQueue.foldl (lower curTime) interval = interval ∧
      ∀ u ∈ fQueue, u.Counts curTime → interval ≤ u.remaining curTime) ∨
    ∃ front t back, fQueue = front ++ t :: back ∧ t.Counts curTime ∧
      fQueue.foldl (lower curTime) interval = t.remaining curTime + 1000 ∧
      ∀ u ∈ back, u.Counts curTime → t.remaining curTime + 1000 ≤ u.remaining curTime := by
  induction fQueue using List.reverseRecOn with
  | nil => exact .inl ⟨rfl, nofun⟩
  | append_singleton fQueue u ih =>
    rw [List.foldl_append, List.foldl_cons, List.foldl_nil]
    generalize fQueue.foldl (lower curTime) interval = interval' at ih ⊢
    by_cases hlower : u.Counts curTime ∧ u.remaining curTime < interval'
    · exact .inr ⟨fQueue, u, [], rfl, hlower.1, if_pos hlower, nofun⟩
    · have hstay : lower curTime interval' u = interval' := if_neg hlower
      have hle : u.Counts curTime → interval' ≤ u.remaining curTime := fun hcounts =>
        not_lt.mp fun hlt => hlower ⟨hcounts, hlt⟩
      rw [hstay]
      rcases ih with ⟨rfl, hall⟩ | ⟨front, t, back, rfl, hcounts, rfl, hback⟩
      · refine .inl ⟨rfl, ?_⟩
        intro v hv
        rcases List.mem_append.mp hv with hv | hv
        · exact hall v hv
        · rw [List.mem_singleton.mp hv]
          exact hle
      · refine .inr ⟨front, t, back ++ [u], by simp, hcounts, rfl, ?_⟩
        intro v hv
        rcases List.mem_append.mp hv with hv | hv
        · exact hback v hv
        · rw [List.mem_singleton.mp hv]
          exact hle

/-- A task with the least time left sets the interval, whatever stands in front of it. -/
theorem foldl_lower_of_least {front back : List (TimeoutTask Id)} (hcounts : t.Counts curTime)
    (hlt : t.remaining curTime < interval)
    (hfront : ∀ u ∈ front, u.Waits curTime → t.remaining curTime ≤ u.remaining curTime)
    (hback : ∀ u ∈ back, u.Counts curTime → t.remaining curTime + 1000 ≤ u.remaining curTime) :
    (front ++ t :: back).foldl (lower curTime) interval = t.remaining curTime + 1000 := by
  have hbefore : t.remaining curTime < front.foldl (lower curTime) interval := by
    rcases foldl_lower_cases curTime interval front with ⟨heq, -⟩ | ⟨_, u, _, rfl, hu, heq, -⟩
    · rwa [heq]
    · have hle := hfront u (List.mem_append_right _ List.mem_cons_self) hu.1
      rw [heq]
      omega
  rw [List.foldl_append, List.foldl_cons, lower, if_pos ⟨hcounts, hbefore⟩]
  exact foldl_lower_of_le hback

/-! ## Results -/

theorem run_signalled (hevents : ¬ (events &&& Task.kKillEvent != 0) = true) (curTime : Int)
    (fQueue : List (TimeoutTask Id)) : (run events curTime fQueue).2 = timedOut curTime fQueue := by
  rw [run, if_neg hevents]
  exact foldl_visit_signalled curTime {} fQueue

theorem run_interval (hevents : ¬ (events &&& Task.kKillEvent != 0) = true) (curTime : Int)
    (fQueue : List (TimeoutTask Id)) :
    (run events curTime fQueue).1 = fQueue.foldl (lower curTime) (kIntervalSeconds * 1000) := by
  rw [run, if_neg hevents]
  exact foldl_visit_intervalMilli curTime {} fQueue

theorem settles_iff (curTime : Int) (fQueue : List (TimeoutTask Id)) :
    (fQueue.foldl (lower curTime) (kIntervalSeconds * 1000) ≤ kIntervalSeconds * 1000 ∧
      ∀ t ∈ fQueue, t.Waits curTime →
        fQueue.foldl (lower curTime) (kIntervalSeconds * 1000) ≤ t.remaining curTime + 1000) ↔
      Settles curTime fQueue := by
  unfold Settles
  constructor
  · rintro ⟨hwithin, hnear⟩
    rcases foldl_lower_cases curTime (kIntervalSeconds * 1000) fQueue with
      ⟨heq, hall⟩ | ⟨front, t, back, hqueue, hcounts, heq, hback⟩
    · refine .inl fun t ht hwaits => ⟨?_, hall t ht⟩
      have hle := hnear t ht hwaits
      rw [heq] at hle
      omega
    · refine .inr ⟨front, t, back, hqueue, hcounts, ?_, ?_, hback⟩
      · rw [heq] at hwithin
        omega
      · intro u hu hwaits
        have hle := hnear u hu hwaits
        rw [heq] at hle
        omega
  · rintro (hall | ⟨front, t, back, rfl, hcounts, hle, hleast, hback⟩)
    · rw [foldl_lower_of_le fun u hu hcounts => (hall u hu hcounts.1).2 hcounts]
      refine ⟨le_refl _, ?_⟩
      intro u hu hwaits
      have hle := (hall u hu hwaits).1
      omega
    · rw [foldl_lower_of_least hcounts (by omega)
        (fun u hu => hleast u (List.mem_append_left _ hu)) hback]
      refine ⟨by omega, ?_⟩
      intro u hu hwaits
      have hle := hleast u hu hwaits
      omega

/-- A `Run` polls its tasks right exactly if it is not killed with a task due, and, if it is
not killed, its queue settles. -/
theorem polled_iff (events : EventFlags) (curTime : Int) (fQueue : List (TimeoutTask Id)) :
    Polled events curTime fQueue ↔
      if events &&& Task.kKillEvent != 0 then ∀ t ∈ fQueue, t.Due curTime → t.fTask = none
      else Settles curTime fQueue := by
  split_ifs with hkill
  · have hrun : run events curTime fQueue = (0, []) := if_pos hkill
    have hnone : timedOut curTime fQueue = [] ↔ ∀ t ∈ fQueue, t.Due curTime → t.fTask = none := by
      simp [timedOut, List.filterMap_eq_nil_iff, List.mem_filter]
    rw [← hnone]
    refine ⟨fun h => ?_, fun h => ⟨?_, ?_, ?_⟩⟩
    · rw [← h.signalled, hrun]
    · rw [hrun, h]
    · rw [hrun]
      exact (by decide : (0 : Int) ≤ kIntervalSeconds * 1000)
    · intro t _ hwaits
      rw [hrun]
      unfold Waits at hwaits
      omega
  · rw [← settles_iff, ← run_interval hkill]
    constructor
    · intro h
      exact ⟨h.within, h.near⟩
    · rintro ⟨hwithin, hnear⟩
      exact ⟨run_signalled hkill curTime fQueue, hwithin, hnear⟩

/-- Two tasks with one second and almost two seconds left: the second one makes the interval
longer than two seconds. -/
theorem raised_not_polled :
    ¬ Polled 0 1000000 [TimeoutTask.new (some 1) 1000000 1000,
      TimeoutTask.new (some 2) 1000000 1999] := by
  intro h
  exact absurd (h.near _ List.mem_cons_self (by decide)) (by decide)

end TimeoutTaskThread

end CxxFramework.Thread
