import CxxFramework.Thread.IdleTask
import Mathlib.Algebra.Group.Int.Defs
import Mathlib.Algebra.Group.Nat.Defs

/-!
# How long the schedulers sleep

A task thread and the idle task thread sleep until the least deadline in their heap, with a wait
on a condition. The deadlines are `SInt64`, the wait takes an `SInt32`, and so both cut off the
upper half of the time that is left. A time of `2 ^ 32` milliseconds, some fifty days, is cut
off to zero, and a wait of zero has no end.

## Main definitions

* `Cond.timedWait` — when a wait on a condition ends.
* `waitForTask`, `pass` — a turn of the loops of the two threads.
* `Sleeps` — a thread waits, for a time that is not zero and within a limit.
-/

namespace CxxFramework.Core

structure TimeVal where
  tv_sec : Int
  tv_usec : Int
deriving DecidableEq, Repr

structure TimeSpec where
  tv_sec : Int
  tv_nsec : Int
deriving DecidableEq, Repr

/-- What `gettimeofday` returns. -/
def TimeVal.Valid (tv : TimeVal) : Prop := 0 ≤ tv.tv_usec ∧ tv.tv_usec < 1000000

def TimeVal.nanos (tv : TimeVal) : Int := tv.tv_sec * 1000000000 + tv.tv_usec * 1000

def TimeSpec.nanos (ts : TimeSpec) : Int := ts.tv_sec * 1000000000 + ts.tv_nsec

/-- `pthread_cond_wait`, or `pthread_cond_timedwait` with its `ts` -/
inductive CondWait where
  | wait
  | timedwait (ts : TimeSpec)
deriving DecidableEq, Repr

/-- `Cond::TimedWait` at a time `tv`; none if an assertion fails. -/
def Cond.timedWait (tv : TimeVal) (inTimeoutInMilSecs : Int) : Option CondWait :=
  if inTimeoutInMilSecs = 0 then some .wait
  else
    let sec := inTimeoutInMilSecs.tdiv 1000
    let inTimeoutInMilSecs := inTimeoutInMilSecs - sec * 1000
    let usec := inTimeoutInMilSecs * 1000
    let tv_nsec := (tv.tv_usec + usec) * 1000
    if inTimeoutInMilSecs < 1000 ∧ tv.tv_usec < 1000000 ∧ tv_nsec < 2000000000 then
      if tv_nsec > 999999999 then some (.timedwait ⟨tv.tv_sec + sec + 1, tv_nsec - 1000000000⟩)
      else some (.timedwait ⟨tv.tv_sec + sec, tv_nsec⟩)
    else none

/-- A wait for a positive time ends exactly when it has passed. -/
theorem Cond.timedWait_of_pos {tv : TimeVal} (htv : tv.Valid) {inTimeoutInMilSecs : Int}
    (hpos : 0 < inTimeoutInMilSecs) :
    ∃ ts, Cond.timedWait tv inTimeoutInMilSecs = some (.timedwait ts) ∧
      ts.nanos = tv.nanos + inTimeoutInMilSecs * 1000000 ∧
      0 ≤ ts.tv_nsec ∧ ts.tv_nsec < 1000000000 := by
  obtain ⟨hlow, hhigh⟩ := htv
  have hdiv : inTimeoutInMilSecs.tdiv 1000 = inTimeoutInMilSecs / 1000 :=
    Int.tdiv_eq_ediv_of_nonneg hpos.le
  have hrest : 0 ≤ inTimeoutInMilSecs - inTimeoutInMilSecs / 1000 * 1000 ∧
      inTimeoutInMilSecs - inTimeoutInMilSecs / 1000 * 1000 < 1000 := by omega
  simp only [Cond.timedWait, if_neg hpos.ne', hdiv]
  rw [if_pos (by omega)]
  split_ifs
  · refine ⟨_, rfl, ?_, ?_⟩
    · simp only [TimeSpec.nanos, TimeVal.nanos]
      omega
    · dsimp only
      omega
  · refine ⟨_, rfl, ?_, ?_⟩
    · simp only [TimeSpec.nanos, TimeVal.nanos]
      omega
    · dsimp only
      omega

end CxxFramework.Core

namespace CxxFramework.Thread

open CxxFramework.Core CxxFramework.Core.Heap IdleTask

/-- Subtraction of `SInt64` values. -/
def sint64Sub (a b : Int) : Int := (a - b).bmod (2 ^ 64)

/-- The cast to `UInt32`. -/
def toUInt32 (a : Int) : Int := a % 2 ^ 32

/-- The cast to `SInt32`. -/
def toSInt32 (a : Int) : Int := a.bmod (2 ^ 32)

abbrev IsSInt64 (a : Int) : Prop := -2 ^ 63 ≤ a ∧ a < 2 ^ 63

/-- What a task thread does in a turn of the loop of `WaitForTask`. -/
inductive Turn where
  | task (elem : ElemPtr) (fHeap : HeapWorld)
  | wait (inTimeoutInMilSecs : Int)

/-- A turn of the loop of `TaskThread::WaitForTask`, up to its `DeQueueBlocking`; none if an
assertion fails. -/
def waitForTask (this : HeapId) (fHeap : HeapWorld) (theCurrentTime : Int) : Option Turn :=
  let peekMin := fHeap.heap.peekMin
  if peekMin ≠ nullptr ∧ fHeap.elems.value peekMin ≤ theCurrentTime then
    (extractMin this fHeap).map fun r => .task r.1 r.2
  else
    let theTimeout :=
      if peekMin ≠ nullptr then sint64Sub (fHeap.elems.value peekMin) theCurrentTime else 0
    if theTimeout ≥ 0 then
      let theTimeout := if theTimeout < 10 then 10 else theTimeout
      some (.wait (toSInt32 theTimeout))
    else none

/-- The end of the loop of `IdleTaskThread::Entry`: the time that it passes to `Wait`, if it
waits at all. None if an assertion fails. -/
def idleWait (w : HeapWorld) (msec : Int) : Option (Option Int) :=
  if w.heap.currentHeapSize > 0 then
    let timeoutTime := sint64Sub (w.elems.value w.heap.peekMin) msec
    if timeoutTime > 0 then
      let smallTime := toUInt32 timeoutTime
      some (some (toSInt32 smallTime))
    else none
  else some none

/-- A turn of the loop of `IdleTaskThread::Entry`, with the tasks it signals. -/
def pass (this : HeapId) (w : HeapWorld) (msec : Int) :
    Option (List ElemPtr × HeapWorld × Option Int) :=
  (signalExpired this msec w).bind fun r =>
    (idleWait r.2 msec).map fun wait => (r.1, r.2, wait)

/-- A wait for a time that is positive and within the limit, and has an end. -/
def SleepsFor (limit inTimeoutInMilSecs : Int) : Prop :=
  0 < inTimeoutInMilSecs ∧ inTimeoutInMilSecs ≤ limit ∧
    ∀ tv : TimeVal, tv.Valid → ∃ ts, Cond.timedWait tv inTimeoutInMilSecs = some (.timedwait ts) ∧
      ts.nanos = tv.nanos + inTimeoutInMilSecs * 1000000

/-- Both threads wait, for a time within the limit, if their heaps are `w` at a time `now`. -/
def Sleeps (this : HeapId) (w : HeapWorld) (now limit : Int) : Prop :=
  (∃ v, waitForTask this w now = some (.wait v) ∧ SleepsFor limit v) ∧
    ∃ v, pass this w now = some ([], w, some v) ∧ SleepsFor limit v

variable {this : HeapId} {w w' : HeapWorld} {now limit v deadline : Int} {tasks : List ElemPtr}

theorem sleepsFor_iff : SleepsFor limit v ↔ 0 < v ∧ v ≤ limit := by
  refine ⟨fun h => ⟨h.1, h.2.1⟩, fun ⟨hpos, hle⟩ => ⟨hpos, hle, ?_⟩⟩
  intro tv htv
  obtain ⟨ts, hts, hnanos, -⟩ := Cond.timedWait_of_pos htv hpos
  exact ⟨ts, hts, hnanos⟩

/-! ## The times -/

/-- The time that is left is positive, unless it overflows. -/
theorem sint64Sub_pos_iff (hd : IsSInt64 deadline) (hn : IsSInt64 now) (hlt : now < deadline) :
    0 ≤ sint64Sub deadline now ↔ deadline - now < 2 ^ 63 := by
  simp only [IsSInt64, sint64Sub, Int.bmod] at *
  omega

theorem sint64Sub_eq (hlt : now < deadline) (hfits : deadline - now < 2 ^ 63) :
    sint64Sub deadline now = deadline - now := by
  simp only [sint64Sub, Int.bmod]
  omega

theorem toSInt32_toUInt32 (a : Int) : toSInt32 (toUInt32 a) = toSInt32 a :=
  Int.emod_bmod ..

/-- A positive time grows no larger when it is cut off. -/
theorem toSInt32_le (hpos : 0 < v) : toSInt32 v ≤ v := by
  simp only [toSInt32, Int.bmod]
  omega

theorem toSInt32_pos_iff (a : Int) : 0 < toSInt32 a ↔ 0 < a % 2 ^ 32 ∧ a % 2 ^ 32 < 2 ^ 31 := by
  simp only [toSInt32, Int.bmod]
  omega

theorem toSInt32_of_small (hlow : 0 ≤ v) (hhigh : v < 2 ^ 31) : toSInt32 v = v := by
  simp only [toSInt32, Int.bmod]
  omega

section Deadline

variable (hmin : w.heap.peekMin ≠ nullptr) (hlt : now < w.elems.value w.heap.peekMin)
include hmin hlt

theorem waitForTask_eq : waitForTask this w now =
    if sint64Sub (w.elems.value w.heap.peekMin) now ≥ 0 then
      some (.wait (toSInt32 (max 10 (sint64Sub (w.elems.value w.heap.peekMin) now))))
    else none := by
  have hwait : ¬ (w.heap.peekMin ≠ nullptr ∧ w.elems.value w.heap.peekMin ≤ now) :=
    fun h => absurd h.2 (not_le.mpr hlt)
  simp only [waitForTask, if_neg hwait, if_pos hmin, max_def']
  grind

theorem pass_eq : pass this w now =
    if sint64Sub (w.elems.value w.heap.peekMin) now > 0 then
      some ([], w, some (toSInt32 (sint64Sub (w.elems.value w.heap.peekMin) now)))
    else none := by
  have hsize : w.heap.currentHeapSize > 0 := by
    by_contra hempty
    exact hmin (if_neg hempty)
  have hdone : signalExpired this now w = some ([], w) := by
    rw [signalExpired.eq_def, dif_neg fun h => absurd h.2 (not_le.mpr hlt)]
  rw [pass, hdone, Option.bind_some]
  simp only [idleWait, if_pos hsize, toSInt32_toUInt32]
  split_ifs <;> rfl

end Deadline

/-! ## Results -/

/-- For a deadline in the future both threads sleep, and not longer than until the deadline or
for ten milliseconds, exactly if the time that is left does not overflow and its lower half
alone is a positive `SInt32`. -/
theorem sleeps_iff (this : HeapId) (w : HeapWorld) (now deadline : Int)
    (hmin : w.heap.peekMin ≠ nullptr) (hdeadline : w.elems.value w.heap.peekMin = deadline)
    (hd : IsSInt64 deadline) (hn : IsSInt64 now) (hlt : now < deadline) :
    Sleeps this w now (max 10 (deadline - now)) ↔
      deadline - now < 2 ^ 63 ∧
        0 < (deadline - now) % 2 ^ 32 ∧ (deadline - now) % 2 ^ 32 < 2 ^ 31 := by
  rw [← toSInt32_pos_iff]
  subst hdeadline
  unfold Sleeps
  rw [waitForTask_eq hmin hlt, pass_eq hmin hlt]
  have hfits := sint64Sub_pos_iff hd hn hlt
  generalize w.elems.value w.heap.peekMin = deadline at *
  by_cases hsmall : deadline - now < 2 ^ 63
  · have hleft := sint64Sub_eq hlt hsmall
    have hle := toSInt32_le (v := deadline - now) (by omega)
    rw [hleft, if_pos (by omega), if_pos (by omega)]
    constructor
    · rintro ⟨-, v, heq, hsleeps⟩
      cases heq
      exact ⟨hsmall, hsleeps.1⟩
    · rintro ⟨-, hpos⟩
      refine ⟨⟨_, rfl, sleepsFor_iff.mpr ?_⟩, _, rfl, sleepsFor_iff.mpr ⟨hpos, by omega⟩⟩
      rcases le_total (deadline - now) 10 with hten | hten
      · rw [max_eq_left hten, toSInt32_of_small (by omega) (by omega)]
        exact ⟨by omega, le_refl _⟩
      · rw [max_eq_right hten]
        exact ⟨hpos, hle⟩
  · refine iff_of_false ?_ fun h => hsmall h.1
    rintro ⟨⟨v, hwait, -⟩, -⟩
    rw [if_neg fun h => hsmall (hfits.mp h)] at hwait
    cases hwait

/-- A heap with one timer in it. -/
def oneTimer (deadline : Int) : HeapWorld where
  heap := { fHeap := fun _ => 1, fFreeIndex := 2, fArraySize := 2 }
  elems := fun _ => ⟨deadline, some 1⟩

theorem sleeps_iff_oneTimer :
    Sleeps 1 (oneTimer 3000) 0 (max 10 (3000 - 0)) ↔
      (3000 : Int) - 0 < 2 ^ 63 ∧
        0 < ((3000 : Int) - 0) % 2 ^ 32 ∧ ((3000 : Int) - 0) % 2 ^ 32 < 2 ^ 31 :=
  sleeps_iff 1 (oneTimer 3000) 0 3000 (by decide) rfl (by decide) (by decide) (by decide)

/-- A deadline in `2 ^ 32` milliseconds is waited for without end. -/
theorem oneTimer_not_sleeps : ¬ Sleeps 1 (oneTimer (2 ^ 32)) 0 (max 10 (2 ^ 32 - 0)) := by
  rintro ⟨-, v, hpass, hpos, -⟩
  rw [pass_eq (by decide) (by decide)] at hpass
  have hzero : v = 0 := by
    cases hpass
    decide
  omega

end CxxFramework.Thread
