import CxxFramework.Library.Transition
import Mathlib.Algebra.Group.Int.Defs
import Mathlib.Algebra.Group.Nat.Defs
import Mathlib.Data.Int.Order.Basic
import Mathlib.Data.List.Basic

/-!
# Readers and writers

`RWMutex` and the threads that use it. A critical section under the internal mutex is
one step. A condition wait gives the internal mutex back and takes it again later; it
may end at any time, since it has a timeout, so signals put no constraint on the steps
and are left out.

The counts are of type `int` and wrap around, so that `2 ^ 31` readers count as a writer.
-/

namespace CxxFramework.Core

open Transition

structure RWMutex where
  fState : Int := 0
  fWriteWaiters : Int := 0
  fReadWaiters : Int := 0
  fActiveReaders : Int := 0
deriving DecidableEq, Repr

namespace RWMutex

/-! ## The mutex -/

def eActiveWriterState : Int := -1
def eNoWriterState : Int := 0

def waitingWriters (m : RWMutex) : Bool := m.fWriteWaiters > 0
def active (m : RWMutex) : Bool := m.fState != 0
def activeReaders (m : RWMutex) : Bool := m.fState > 0
def activeWriter (m : RWMutex) : Bool := m.fState < 0

/-- The number of values of an `int`. -/
def kIntSize : Nat := 2 ^ 32

/-- `fState += i` and the like, on an `int`. -/
def adjust (count i : Int) : Int := (count + i).bmod kIntSize

def adjustState (m : RWMutex) (i : Int) : RWMutex := { m with fState := adjust m.fState i }
def adjustWriteWaiters (m : RWMutex) (i : Int) : RWMutex :=
  { m with fWriteWaiters := adjust m.fWriteWaiters i }
def adjustReadWaiters (m : RWMutex) (i : Int) : RWMutex :=
  { m with fReadWaiters := adjust m.fReadWaiters i }
def setState (m : RWMutex) (i : Int) : RWMutex := { m with fState := i }

def addWriteWaiter (m : RWMutex) : RWMutex := m.adjustWriteWaiters 1
def removeWriteWaiter (m : RWMutex) : RWMutex := m.adjustWriteWaiters (-1)
def addReadWaiter (m : RWMutex) : RWMutex := m.adjustReadWaiters 1
def removeReadWaiter (m : RWMutex) : RWMutex := m.adjustReadWaiters (-1)
def addActiveReader (m : RWMutex) : RWMutex := m.adjustState 1
def removeActiveReader (m : RWMutex) : RWMutex := m.adjustState (-1)
def saveActiveReaders (m : RWMutex) : RWMutex := { m with fActiveReaders := m.fState }

/-- What a thread asks the mutex for. -/
inductive Mode where
  | read
  | write
deriving DecidableEq, Repr

/-- The first statement of `LockRead` and `LockWrite`. -/
def addWaiter (m : RWMutex) : Mode → RWMutex
  | .read => m.addReadWaiter
  | .write => m.addWriteWaiter

/-- The test of the wait loop of `LockRead` and `LockWrite`. -/
def mustWait (m : RWMutex) : Mode → Bool
  | .read => m.activeWriter || m.waitingWriters
  | .write => m.activeReaders

/-- `LockRead` and `LockWrite` after the wait loop. -/
def enter (m : RWMutex) : Mode → RWMutex
  | .read => m.removeReadWaiter.addActiveReader.saveActiveReaders
  | .write => (m.removeWriteWaiter.setState eActiveWriterState).saveActiveReaders

/-- `TryLockRead` and `TryLockWrite` go on to lock. -/
def mayTry (m : RWMutex) : Mode → Bool
  | .read => !m.activeWriter && !m.waitingWriters
  | .write => !m.active && !m.waitingWriters

/-- The branch of `Unlock` for a reader. -/
def releaseReader (m : RWMutex) : RWMutex :=
  if m.removeActiveReader.activeReaders then m.removeActiveReader
  else m.removeActiveReader.setState eNoWriterState

/-- `RWMutex::Unlock` -/
def unlock (m : RWMutex) : RWMutex :=
  (if m.activeWriter then m.setState eNoWriterState else m.releaseReader).saveActiveReaders

/-- Counting down an `int` above 0. -/
theorem adjust_neg_one {count : Int} (h : 0 < count) (hmax : count < 2 ^ 31) :
    adjust count (-1) = count - 1 := by
  rw [adjust, kIntSize, Int.bmod_eq_of_le] <;> omega

/-- Counting up an `int` below the largest one. -/
theorem adjust_one {count : Int} (h : 0 ≤ count) (hmax : count < 2 ^ 31 - 1) :
    adjust count 1 = count + 1 := by
  rw [adjust, kIntSize, Int.bmod_eq_of_le] <;> omega

theorem unlock_of_writer {m : RWMutex} (h : m.fState < 0) : m.unlock.fState = 0 := by
  simp [unlock, activeWriter, h, saveActiveReaders, setState, eNoWriterState]

theorem unlock_of_reader {m : RWMutex} (h : 0 < m.fState) (hmax : m.fState < 2 ^ 31) :
    m.unlock.fState = m.fState - 1 := by
  have hw : ¬ m.fState < 0 := by omega
  have hdown := adjust_neg_one h hmax
  by_cases hlast : 1 < m.fState
  · simp [unlock, releaseReader, activeWriter, activeReaders, removeActiveReader, adjustState,
      saveActiveReaders, hw, hdown, hlast]
  · simp [unlock, releaseReader, activeWriter, activeReaders, removeActiveReader, adjustState,
      setState, saveActiveReaders, eNoWriterState, hw, hdown, hlast]
    omega

/-! ## The threads -/

/-- One mutex and its threads: the locks held, and the threads in a condition wait. -/
structure State (Tid : Type) where
  mutex : RWMutex := {}
  holders : List (Tid × Mode) := []
  blocked : List (Tid × Mode) := []
deriving DecidableEq, Repr

inductive Action (Tid : Type) where
  | lockRead (t : Tid)
  | lockWrite (t : Tid)
  | tryLockRead (t : Tid)
  | tryLockWrite (t : Tid)
  | wake (t : Tid) (mode : Mode)
  | unlock (t : Tid) (mode : Mode)
deriving DecidableEq, Repr

variable {Tid : Type}

/-- The wait loop of thread `t`, whose waiter is counted already. -/
def waitLoop (s : State Tid) (t : Tid) (mode : Mode) : State Tid :=
  if s.mutex.mustWait mode then { s with blocked := (t, mode) :: s.blocked }
  else { s with mutex := s.mutex.enter mode, holders := (t, mode) :: s.holders }

/-- Locking up to the return or the first wait. -/
def lock (s : State Tid) (t : Tid) (mode : Mode) : State Tid :=
  waitLoop { s with mutex := s.mutex.addWaiter mode } t mode

/-- Locking if that needs no wait. -/
def tryLock (s : State Tid) (t : Tid) (mode : Mode) : State Tid :=
  if s.mutex.mayTry mode then lock s t mode else s

def lockRead (s : State Tid) (t : Tid) : State Tid := lock s t .read
def lockWrite (s : State Tid) (t : Tid) : State Tid := lock s t .write
def tryLockRead (s : State Tid) (t : Tid) : State Tid := tryLock s t .read
def tryLockWrite (s : State Tid) (t : Tid) : State Tid := tryLock s t .write

/-- Thread `t` is in a condition wait. -/
def State.Blocked (s : State Tid) (t : Tid) : Prop := t ∈ s.blocked.map Prod.fst

instance [DecidableEq Tid] (s : State Tid) (t : Tid) : Decidable (s.Blocked t) :=
  inferInstanceAs (Decidable (t ∈ _))

/-- The equality by which waits and holders are looked up. -/
instance lawfulBEq_mode [DecidableEq Tid] : LawfulBEq (Tid × Mode) := inferInstance

variable [DecidableEq Tid] in
/-- One critical section of one thread. A thread in a wait can only wake up, and a
thread unlocks only what it holds. -/
def next (s : State Tid) : Action Tid → Option (State Tid)
  | .lockRead t => if s.Blocked t then none else some (lockRead s t)
  | .lockWrite t => if s.Blocked t then none else some (lockWrite s t)
  | .tryLockRead t => if s.Blocked t then none else some (tryLockRead s t)
  | .tryLockWrite t => if s.Blocked t then none else some (tryLockWrite s t)
  | .wake t mode =>
    if (t, mode) ∈ s.blocked then
      some (waitLoop { s with blocked := s.blocked.erase (t, mode) } t mode)
    else none
  | .unlock t mode =>
    if s.Blocked t then none
    else if (t, mode) ∈ s.holders then
      some { s with mutex := s.mutex.unlock, holders := s.holders.erase (t, mode) }
    else none

/-- A new mutex that no thread uses yet, and the steps of the threads. -/
def system (Tid : Type) [DecidableEq Tid] : System (State Tid) (Action Tid) :=
  .ofPartial (· = {}) next

/-- At most one thread holds the write lock, and while one does none holds a read lock. -/
def Exclusion (s : State Tid) : Prop :=
  (∀ t t', (t, .write) ∈ s.holders → (t', .write) ∈ s.holders → t = t') ∧
    ∀ t t', (t, .write) ∈ s.holders → (t', .read) ∉ s.holders

/-- The wait loop of `LockWrite` is not run while a writer is active. A reader has to wait
or finds fewer than `2 ^ 31 - 1` read locks. -/
def Guarded (s : State Tid) : Action Tid → Prop
  | .lockWrite _ | .wake _ .write => 0 ≤ s.mutex.fState
  | .lockRead _ | .tryLockRead _ | .wake _ .read =>
    s.mutex.mustWait .read ∨ s.mutex.fState < 2 ^ 31 - 1
  | .tryLockWrite _ | .unlock _ _ => True

instance (s : State Tid) : (a : Action Tid) → Decidable (Guarded s a)
  | .lockWrite _ | .wake _ .write => inferInstanceAs (Decidable (0 ≤ s.mutex.fState))
  | .lockRead _ | .tryLockRead _ | .wake _ .read =>
    inferInstanceAs (Decidable (s.mutex.mustWait .read ∨ s.mutex.fState < 2 ^ 31 - 1))
  | .tryLockWrite _ | .unlock _ _ => inferInstanceAs (Decidable True)

/-! ## Exclusion -/

/-- `fState` counts the read locks held, or is `-1` for one write lock. -/
def Held (s : State Tid) : Prop :=
  (s.mutex.fState = -1 ∧ ∃ w, s.holders = [(w, .write)]) ∨
    ((∀ h ∈ s.holders, h.2 = .read) ∧ s.mutex.fState = s.holders.length ∧
      s.mutex.fState < 2 ^ 31)

theorem Held.exclusion {s : State Tid} (h : Held s) : Exclusion s := by
  rcases h with ⟨_, w, hw⟩ | ⟨hread, _⟩
  · constructor <;> intro t t' <;> simp only [hw, List.mem_singleton, Prod.mk.injEq] <;> simp
    rintro rfl rfl; rfl
  · have hnone : ∀ t, (t, Mode.write) ∉ s.holders := fun t ht => by simpa using hread _ ht
    exact ⟨fun t _ ht => absurd ht (hnone t), fun t _ ht => absurd ht (hnone t)⟩

/-- The condition on a step that runs the wait loop for `mode`. -/
def MayEnter (m : RWMutex) : Mode → Prop
  | .read => m.mustWait .read ∨ m.fState < 2 ^ 31 - 1
  | .write => 0 ≤ m.fState

theorem waitLoop_held {s : State Tid} (h : Held s) (t : Tid) {mode : Mode}
    (ok : MayEnter s.mutex mode) : Held (waitLoop s t mode) := by
  unfold waitLoop
  split_ifs with hwait
  · exact h
  · cases mode with
    | read =>
      have hmax : s.mutex.fState < 2 ^ 31 - 1 := ok.resolve_left hwait
      have hpos : 0 ≤ s.mutex.fState := by
        simp only [mustWait, activeWriter, Bool.or_eq_true, decide_eq_true_eq, not_or] at hwait
        omega
      rcases h with ⟨hneg, _⟩ | ⟨hread, hlen, _⟩
      · omega
      · have hup : (s.mutex.enter .read).fState = s.mutex.fState + 1 := adjust_one hpos hmax
        refine .inr ⟨by simpa using hread, ?_, ?_⟩
        · simp [hup, hlen]
        · simp only [hup]
          omega
    | write =>
      have hzero : s.mutex.fState = 0 := by
        simp only [MayEnter] at ok
        simp only [mustWait, activeReaders, decide_eq_true_eq] at hwait
        omega
      rcases h with ⟨hneg, _⟩ | ⟨_, hlen, _⟩
      · omega
      · have hnil : s.holders = [] := List.length_eq_zero_iff.mp (by omega)
        exact .inl ⟨rfl, t, by simp [hnil]⟩

@[simp] theorem addWaiter_fState (m : RWMutex) (mode : Mode) :
    (m.addWaiter mode).fState = m.fState := by
  cases mode <;> rfl

/-- A reader that is counted as waiting does not keep another reader waiting. -/
theorem mayEnter_addWaiter {m : RWMutex} {mode : Mode} (ok : MayEnter m mode) :
    MayEnter (m.addWaiter mode) mode := by
  cases mode <;> exact ok

theorem lock_held {s : State Tid} (h : Held s) (t : Tid) {mode : Mode}
    (ok : MayEnter s.mutex mode) : Held (lock s t mode) :=
  waitLoop_held (by simpa [Held] using h) t (mayEnter_addWaiter ok)

theorem tryLock_held {s : State Tid} (h : Held s) (t : Tid) {mode : Mode}
    (ok : mode = .read → MayEnter s.mutex .read) : Held (tryLock s t mode) := by
  unfold tryLock
  split_ifs with htry
  · cases mode with
    | read => exact lock_held h t (ok rfl)
    | write =>
      simp only [mayTry, active, Bool.and_eq_true, Bool.not_eq_true', bne_eq_false_iff_eq] at htry
      have hfree : MayEnter s.mutex .write := le_of_eq htry.1.symm
      exact lock_held h t hfree
  · exact h

variable [DecidableEq Tid]

theorem unlock_held {s : State Tid} (h : Held s) {t : Tid} {mode : Mode}
    (hmem : (t, mode) ∈ s.holders) :
    Held { s with mutex := s.mutex.unlock, holders := s.holders.erase (t, mode) } := by
  rcases h with ⟨hneg, w, hw⟩ | ⟨hread, hlen, hmax⟩
  · rw [hw, List.mem_singleton] at hmem
    have hfree := unlock_of_writer (show s.mutex.fState < 0 by omega)
    refine .inr ⟨by simp [hw, hmem], ?_, ?_⟩
    · simp [hfree, hw, hmem]
    · simp [hfree]
  · have hpos := List.length_pos_of_mem hmem
    have hdown := unlock_of_reader (show 0 < s.mutex.fState by omega) hmax
    refine .inr ⟨fun x hx => hread x (List.mem_of_mem_erase hx), ?_, ?_⟩
    · simp only [hdown, List.length_erase_of_mem hmem]
      omega
    · simp only [hdown]
      omega

theorem next_held {s s' : State Tid} {a : Action Tid} (h : Held s) (ok : Guarded s a)
    (hs : next s a = some s') : Held s' := by
  cases a with
  | lockRead t =>
    simp only [next] at hs
    split_ifs at hs
    obtain rfl := Option.some.inj hs
    exact lock_held h t ok
  | lockWrite t =>
    simp only [next] at hs
    split_ifs at hs
    obtain rfl := Option.some.inj hs
    exact lock_held h t ok
  | tryLockRead t =>
    simp only [next] at hs
    split_ifs at hs
    obtain rfl := Option.some.inj hs
    exact tryLock_held h t fun _ => ok
  | tryLockWrite t =>
    simp only [next] at hs
    split_ifs at hs
    obtain rfl := Option.some.inj hs
    exact tryLock_held h t nofun
  | wake t mode =>
    simp only [next] at hs
    split_ifs at hs
    obtain rfl := Option.some.inj hs
    have hheld : Held { s with blocked := s.blocked.erase (t, mode) } := h
    have hok : MayEnter s.mutex mode := by cases mode <;> exact ok
    exact waitLoop_held hheld t hok
  | unlock t mode =>
    simp only [next] at hs
    split_ifs at hs with _ hmem
    obtain rfl := Option.some.inj hs
    exact unlock_held h hmem

/-- In every run that never runs the wait loop of `LockWrite` while a writer is active, nor
lets more than `2 ^ 31 - 1` readers in, readers and writers exclude each other. -/
theorem exclusion_of_guarded {s : State Tid}
    (h : ((system Tid).guard Guarded).Reachable s) : Exclusion s := by
  refine (h.invariant Held ?_ ?_).exclusion
  · rintro _ rfl
    exact .inr ⟨by simp, rfl, by simp⟩
  · intro _ _ _ hheld hs
    exact next_held hheld hs.1 hs.2

/-- One writer, and two readers that have to wait for it. -/
def writerThenReaders : List (Action Nat) :=
  [.lockWrite 0, .lockRead 1, .lockRead 2, .unlock 0 .write, .wake 1 .read, .wake 2 .read]

theorem exclusion_of_guarded_readers :
    Exclusion ({ mutex := ⟨2, 0, 0, 2⟩, holders := [(2, .read), (1, .read)] } : State Nat) :=
  exclusion_of_guarded (System.reachable_guard_ofPartial writerThenReaders rfl (by decide))

/-- A second writer that finds a writer active does not wait. -/
theorem second_writer {s : State Tid} {w t : Tid} (hw : s.holders = [(w, .write)])
    (hst : s.mutex.fState = -1) (hne : t ≠ w) (hidle : ¬ s.Blocked t) :
    ∃ s', next s (.lockWrite t) = some s' ∧ ¬ Exclusion s' := by
  refine ⟨lockWrite s t, if_neg hidle, fun hex => hne (hex.1 t w ?_ ?_)⟩ <;>
    simp [lockWrite, lock, waitLoop, mustWait, activeReaders, hst, hw]

theorem not_exclusion : ¬ ∀ s, (system Nat).Reachable s → Exclusion s := by
  intro hall
  have hrun : ([.lockWrite 0, .lockWrite 1] : List (Action Nat)).foldlM next {} =
      some { mutex := ⟨-1, 0, 0, -1⟩, holders := [(1, .write), (0, .write)] } := by decide
  have hx := hall _ (System.reachable_ofPartial _ rfl hrun)
  simpa using hx.1 0 1

end RWMutex

end CxxFramework.Core
