import CxxFramework.Library.Transition
import Mathlib.Logic.Function.Basic

/-!
# Tasks and task threads

`Task::Signal`, `Task::GetEvents` and `TaskThread::Entry`, with one step for each atomic
access to `fEvents`, to the thread pickers, to a task queue, and to the static variable
`val` that holds the expected value of the compare-exchange in `Entry`.

A `Run` may take any steps a task can take; what it does with its events is left open.
The time of the entries of `fHeap` is left out: any of them may be due. So is the global
`sRWMutex`, which only keeps some `Run`s from overlapping.
-/

namespace CxxFramework.Thread

open Transition

abbrev EventFlags := BitVec 32

def kIdleEvent : EventFlags := 0x2#32
def kStartEvent : EventFlags := 0x4#32
def kReadEvent : EventFlags := 0x10#32

def kAlive : EventFlags := 0x80000000#32
def kAliveOff : EventFlags := 0x7fffffff#32

/-- The flags have the alive bit. -/
def alive (flags : EventFlags) : Bool := flags &&& kAlive != 0

/-- The counter that `pickerToUse` points to. -/
inductive Picker where
  | sShortTaskThreadPicker
  | sBlockingTaskThreadPicker
  | other
deriving DecidableEq, Repr

/-- Threads are given by their index in `sTaskThreadArray`. -/
structure Task where
  fEvents : EventFlags := 0
  valid : Bool := true
  fUseThisThread : Option Nat := none
  fDefaultThread : Option Nat := none
  pickerToUse : Picker := .sShortTaskThreadPicker
deriving DecidableEq, Repr

namespace Task

/-- `fEvents.fetch_or` -/
def fetchOr (task : Task) (events : EventFlags) : EventFlags × Task :=
  (task.fEvents, { task with fEvents := task.fEvents ||| events })

/-- `Task::GetEvents` -/
def getEvents (task : Task) : EventFlags × Task :=
  (task.fEvents, { task with fEvents := task.fEvents &&& kAlive })

/-- `fEvents.compare_exchange_weak(expected, 0)`, with the value it reads. It may fail
without a reason. -/
def compareExchangeWeak (task : Task) (expected : EventFlags) (spurious : Bool) :
    Bool × EventFlags × Task :=
  if task.fEvents = expected ∧ !spurious then (true, task.fEvents, { task with fEvents := 0 })
  else (false, task.fEvents, task)

/-- The threads that `Signal` takes without a picker: the choice of the task, else its
default. -/
def useDefaultThread (task : Task) : Task :=
  if task.fDefaultThread.isSome ∧ task.fUseThisThread.isNone then
    { task with fUseThisThread := task.fDefaultThread }
  else task

end Task

structure TaskThreadPool where
  sNumTaskThreads : Nat
  sNumShortTaskThreads : Nat
  sNumBlockingTaskThreads : Nat
  sShortTaskThreadPicker : BitVec 32 := 0
  sBlockingTaskThreadPicker : BitVec 32 := 0
deriving DecidableEq, Repr

namespace TaskThreadPool

/-- `TaskThreadPool::CreateThreads` -/
def createThreads (numShortTaskThreads numBlockingThreads : Nat) : TaskThreadPool :=
  let numToAdd := numShortTaskThreads + numBlockingThreads
  { sNumTaskThreads := numToAdd
    sNumShortTaskThreads := if numShortTaskThreads = 0 then numToAdd else numShortTaskThreads
    sNumBlockingTaskThreads := numBlockingThreads }

/-- `pickerToUse->fetch_add(1)` and the index made from it: none for a counter that is
neither of the two. A division by zero is a fault. -/
def pick (pool : TaskThreadPool) : Picker → Option (Option Nat × TaskThreadPool)
  | .sShortTaskThreadPicker =>
    if pool.sNumShortTaskThreads = 0 then none
    else some (some (pool.sShortTaskThreadPicker.toNat % pool.sNumShortTaskThreads),
      { pool with sShortTaskThreadPicker := pool.sShortTaskThreadPicker + 1 })
  | .sBlockingTaskThreadPicker =>
    if pool.sNumBlockingTaskThreads = 0 then none
    else some (some (pool.sBlockingTaskThreadPicker.toNat % pool.sNumBlockingTaskThreads +
        pool.sNumShortTaskThreads),
      { pool with sBlockingTaskThreadPicker := pool.sBlockingTaskThreadPicker + 1 })
  | .other => some (none, pool)

end TaskThreadPool

/-- Where a task thread is in `Entry`. -/
inductive Point (Id : Type) where
  | waitForTask
  | run (theTask : Id)
  | readVal (theTask : Id)
  | exchange (theTask : Id) (expected : EventFlags)
  | writeVal (theTask : Id) (observed : EventFlags)
  | returned
deriving DecidableEq, Repr

structure TaskThread (Id : Type) where
  point : Point Id := .waitForTask
  fTaskQueue : List Id := []
  fHeap : List Id := []
deriving DecidableEq, Repr

/-- The tasks, the threads of the pool, and the calls of `Signal`, by any thread, that
still have to put their task on a queue: with the thread, once it is chosen. `owed` are
the events signalled since the last `GetEvents`. -/
structure State (Id : Type) where
  tasks : Id → Task
  pool : TaskThreadPool
  threads : List (TaskThread Id)
  calls : List (Id × Option Nat) := []
  val : EventFlags := kAlive
  owed : Id → EventFlags := fun _ => 0

/-- The steps of a task thread. -/
inductive ThreadAction (Id : Type) where
  | fromHeap (theTask : Id)
  | fromQueue
  | stop
  | getEvents
  | forceSameThread
  | runReturns (theTimeout : Int)
  | readVal
  | exchange (spurious : Bool)
  | writeVal
deriving DecidableEq, Repr

inductive Action (Id : Type) where
  | signal (task : Id) (events : EventFlags)
  | chooseThread (task : Id)
  | enQueue (task : Id) (thread : Nat)
  | thread (i : Nat) (a : ThreadAction Id)
deriving DecidableEq, Repr

namespace State

variable {Id : Type}

def setThread (s : State Id) (i : Nat) (th : TaskThread Id) : State Id :=
  { s with threads := s.threads.set i th }

@[simp] theorem setThread_tasks (s : State Id) (i : Nat) (th : TaskThread Id) :
    (s.setThread i th).tasks = s.tasks := rfl

@[simp] theorem setThread_owed (s : State Id) (i : Nat) (th : TaskThread Id) :
    (s.setThread i th).owed = s.owed := rfl

variable [DecidableEq Id]

def setTask (s : State Id) (x : Id) (task : Task) : State Id :=
  { s with tasks := Function.update s.tasks x task }

def setOwed (s : State Id) (x : Id) (events : EventFlags) : State Id :=
  { s with owed := Function.update s.owed x events }

section Fields

variable (s : State Id) (x : Id) (task : Task) (events : EventFlags)

@[simp] theorem setTask_owed : (s.setTask x task).owed = s.owed := rfl
@[simp] theorem setOwed_tasks : (s.setOwed x events).tasks = s.tasks := rfl

@[simp] theorem setTask_self : (s.setTask x task).tasks x = task := by simp [setTask]
@[simp] theorem setOwed_self : (s.setOwed x events).owed x = events := by simp [setOwed]

variable {x} {y : Id}

@[simp] theorem setTask_of_ne (h : y ≠ x) : (s.setTask x task).tasks y = s.tasks y := by
  simp [setTask, h]

@[simp] theorem setOwed_of_ne (h : y ≠ x) : (s.setOwed x events).owed y = s.owed y := by
  simp [setOwed, h]

end Fields

/-- `fetch_or` on a task, whose events are owed from then on. -/
def fetchOr (s : State Id) (x : Id) (events : EventFlags) : State Id :=
  (s.setTask x ((s.tasks x).fetchOr events).2).setOwed x (s.owed x ||| (events &&& kAliveOff))

/-- `Task::Signal` up to the scheduling of the task. -/
def signal (s : State Id) (x : Id) (events : EventFlags) : State Id :=
  if !(s.tasks x).valid then s
  else
    let oldEvents := ((s.tasks x).fetchOr (events ||| kAlive)).1
    let s := s.fetchOr x (events ||| kAlive)
    if !alive oldEvents ∧ s.pool.sNumTaskThreads > 0 then { s with calls := (x, none) :: s.calls }
    else s

/-- `Task::Signal`, the choice of the thread. -/
def chooseThread (s : State Id) (x : Id) : Option (State Id) :=
  if (x, none) ∈ s.calls then
    let calls := s.calls.erase (x, none)
    let task := (s.tasks x).useDefaultThread
    match task.fUseThisThread with
    | some i => some { s.setTask x task with calls := (x, some i) :: calls }
    | none => (s.pool.pick task.pickerToUse).map fun
      | (some i, pool) => { s.setTask x task with calls := (x, some i) :: calls, pool }
      | (none, pool) => { s.setTask x task with calls, pool }
  else none

/-- `fTaskQueue.EnQueue` at the end of `Task::Signal`. A thread outside the array is a
fault. -/
def enQueue (s : State Id) (x : Id) (i : Nat) : Option (State Id) :=
  if (x, some i) ∈ s.calls then
    s.threads[i]?.map fun th =>
      { s.setThread i { th with fTaskQueue := th.fTaskQueue ++ [x] } with
        calls := s.calls.erase (x, some i) }
  else none

/-- The head of the inner loop of `Entry`. -/
def beginRun (s : State Id) (i : Nat) (th : TaskThread Id) (x : Id) : State Id :=
  (s.setTask x { s.tasks x with fUseThisThread := none }).setThread i { th with point := .run x }

/-- `Entry` after `WaitForTask` has returned a task. -/
def taskReturned (s : State Id) (i : Nat) (th : TaskThread Id) (x : Id) : State Id :=
  if (s.tasks x).valid then s.beginRun i th x
  else s.setThread i { th with point := .returned }

/-- `Entry` after `Run` has returned `theTimeout`. -/
def runReturned (s : State Id) (i : Nat) (th : TaskThread Id) (x : Id) (theTimeout : Int) :
    State Id :=
  if theTimeout < 0 then
    (s.setTask x { s.tasks x with valid := false }).setThread i { th with point := .waitForTask }
  else if theTimeout = 0 then s.setThread i { th with point := .readVal x }
  else (s.fetchOr x kIdleEvent).setThread i
    { th with point := .waitForTask, fHeap := x :: th.fHeap }

/-- The compare-exchange of `Entry`. -/
def exchange (s : State Id) (i : Nat) (th : TaskThread Id) (x : Id) (expected : EventFlags)
    (spurious : Bool) : State Id :=
  match (s.tasks x).compareExchangeWeak expected spurious with
  | (true, _, task) => (s.setTask x task).setThread i { th with point := .waitForTask }
  | (false, observed, _) => s.setThread i { th with point := .writeVal x observed }

/-- One step of thread `i` of the pool. -/
def threadStep (s : State Id) (i : Nat) (th : TaskThread Id) (a : ThreadAction Id) :
    Option (State Id) :=
  match a, th.point with
  | .fromHeap x, .waitForTask =>
    if x ∈ th.fHeap then some (s.taskReturned i { th with fHeap := th.fHeap.erase x } x) else none
  | .fromQueue, .waitForTask =>
    match th.fTaskQueue with
    | x :: fTaskQueue => some (s.taskReturned i { th with fTaskQueue } x)
    | [] => none
  | .stop, .waitForTask => some (s.setThread i { th with point := .returned })
  | .getEvents, .run x => some ((s.setTask x (s.tasks x).getEvents.2).setOwed x 0)
  | .forceSameThread, .run x => some (s.setTask x { s.tasks x with fUseThisThread := some i })
  | .runReturns theTimeout, .run x => some (s.runReturned i th x theTimeout)
  | .readVal, .readVal x => some (s.setThread i { th with point := .exchange x s.val })
  | .exchange spurious, .exchange x expected => some (s.exchange i th x expected spurious)
  | .writeVal, .writeVal x observed => some ({ s with val := observed }.beginRun i th x)
  | _, _ => none

def next (s : State Id) : Action Id → Option (State Id)
  | .signal x events => some (s.signal x events)
  | .chooseThread x => s.chooseThread x
  | .enQueue x i => s.enQueue x i
  | .thread i a => s.threads[i]?.bind fun th => s.threadStep i th a

end State

/-- Tasks that nobody has signalled, and the waiting threads of a new pool. -/
def Fresh {Id : Type} (s : State Id) : Prop :=
  (∀ x, (s.tasks x).fEvents = 0) ∧
    (∃ numShortTaskThreads numBlockingThreads,
      s.pool = .createThreads numShortTaskThreads numBlockingThreads ∧
        s.threads = List.replicate s.pool.sNumTaskThreads {}) ∧
    s.calls = [] ∧ s.val = kAlive ∧ ∀ x, s.owed x = 0

abbrev system (Id : Type) [DecidableEq Id] : System (State Id) (Action Id) :=
  .ofPartial Fresh State.next

end CxxFramework.Thread
