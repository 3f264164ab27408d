import CxxFramework.Library.Transition
import Mathlib.Logic.Function.Basic
import Mathlib.Tactic.SplitIfs

/-!
# Spin locks

`SpinLock::Lock` tries to exchange `false` for `true`. A failed exchange leaves in `unlatched`
the value that was found, and the next one expects it: a thread that has found the lock held
gets in if it still is.

An exchange is one step, as are `Unlock` and the start of `Lock`. An exchange may fail for no
reason, and leaves the value that was expected then.

## Main definitions

* `SpinLock.next` — the steps of any number of threads on one lock.
* `SpinLock.Exclusive` — at most one thread is inside.
* `SpinLock.Ok` — no thread that has found the lock held tries again while it is.
-/

namespace CxxFramework.Core.SpinLock

open Transition

/-- Where a thread is. Between its attempts it keeps what it expects the next one to find. -/
inductive Phase where
  | outside
  | spinning (unlatched : Bool)
  | inside
  deriving DecidableEq

structure State (Tid : Type) where
  lock : Bool := false
  phase : Tid → Phase := fun _ => .outside

inductive Action (Tid : Type) where
  /-- `Lock` is called. -/
  | lock (t : Tid)
  /-- `compare_exchange_weak`, which may fail for no reason. -/
  | exchange (t : Tid) (spurious : Bool)
  /-- `Unlock` -/
  | unlock (t : Tid)

variable {Tid : Type} [DecidableEq Tid] {s s' : State Tid} {a : Action Tid} {t u : Tid}

def State.enter (s : State Tid) (t : Tid) (phase : Phase) : State Tid :=
  { s with phase := Function.update s.phase t phase }

/-- An attempt of a thread that expects `unlatched`. -/
def compareExchange (s : State Tid) (t : Tid) (unlatched spurious : Bool) : State Tid :=
  if s.lock = unlatched then
    if spurious then s else { s.enter t .inside with lock := true }
  else s.enter t (.spinning s.lock)

def next (s : State Tid) : Action Tid → Option (State Tid)
  | .lock t => if s.phase t = .outside then some (s.enter t (.spinning false)) else none
  | .exchange t spurious =>
    match s.phase t with
    | .spinning unlatched => some (compareExchange s t unlatched spurious)
    | _ => none
  | .unlock t =>
    if s.phase t = .inside then some { s.enter t .outside with lock := false } else none

/-- Both locks of the event thread are zero at first. -/
def system (Tid : Type) [DecidableEq Tid] : System (State Tid) (Action Tid) :=
  .ofPartial (fun s => s = {}) next

/-- At most one thread is inside. -/
def Exclusive (s : State Tid) : Prop := ∀ t u, s.phase t = .inside → s.phase u = .inside → t = u

/-- No thread that has found the lock held tries again while it is, unless the attempt fails
for no reason. -/
def Ok (s : State Tid) : Action Tid → Prop
  | .exchange t spurious => s.lock = true → s.phase t = .spinning true → spurious = true
  | _ => True

/-- At most one thread is inside, and the lock tells if there is one. -/
structure Inv (s : State Tid) : Prop where
  exclusive : Exclusive s
  lock : s.lock = true ↔ ∃ t, s.phase t = .inside

@[simp]
theorem enter_phase_self (s : State Tid) (t : Tid) (phase : Phase) :
    (s.enter t phase).phase t = phase := Function.update_self ..

theorem enter_phase_of_ne (h : u ≠ t) (phase : Phase) : (s.enter t phase).phase u = s.phase u :=
  Function.update_of_ne h ..

@[simp]
theorem enter_lock (s : State Tid) (t : Tid) (phase : Phase) : (s.enter t phase).lock = s.lock :=
  rfl

/-- A thread that stays outside changes nothing for the others. -/
theorem inside_enter {phase : Phase} (hphase : phase ≠ .inside) (ht : s.phase t ≠ .inside) :
    (s.enter t phase).phase u = .inside ↔ s.phase u = .inside := by
  by_cases hu : u = t
  · subst hu
    simp [hphase, ht]
  · rw [enter_phase_of_ne hu]

theorem Inv.enter {phase : Phase} (h : Inv s) (hphase : phase ≠ .inside)
    (ht : s.phase t ≠ .inside) : Inv (s.enter t phase) where
  exclusive u v hu hv :=
    h.exclusive u v ((inside_enter hphase ht).mp hu) ((inside_enter hphase ht).mp hv)
  lock := by
    rw [enter_lock, h.lock]
    exact exists_congr fun u => (inside_enter hphase ht).symm

/-- A thread gets in when no other one is inside. -/
theorem Inv.exchange (h : Inv s) (hfree : s.lock = false) :
    Inv { s.enter t .inside with lock := true } where
  exclusive u v hu hv := by
    have hnone (w : Tid) : s.phase w ≠ .inside := fun hw =>
      absurd (h.lock.mpr ⟨w, hw⟩) (by simp [hfree])
    have hself (w : Tid) (hw : (s.enter t .inside).phase w = .inside) : w = t := by
      by_contra hne
      rw [enter_phase_of_ne hne] at hw
      exact hnone w hw
    rw [hself u hu, hself v hv]
  lock := iff_of_true rfl ⟨t, enter_phase_self s t .inside⟩

theorem Inv.unlock (h : Inv s) (ht : s.phase t = .inside) :
    Inv { s.enter t .outside with lock := false } := by
  have hnone (u : Tid) : (s.enter t .outside).phase u ≠ .inside := by
    intro hu
    by_cases heq : u = t
    · subst heq
      simp at hu
    · rw [enter_phase_of_ne heq] at hu
      exact heq (h.exclusive u t hu ht)
  exact ⟨fun u _ hu => absurd hu (hnone u), iff_of_false nofun fun ⟨u, hu⟩ => hnone u hu⟩

/-- What one step does: it keeps the invariant if it meets the condition, and lets a second
thread in otherwise. -/
theorem next_inv (h : Inv s) (hstep : next s a = some s') :
    (Ok s a → Inv s') ∧ (Exclusive s' → Ok s a) := by
  cases a with
  | lock t =>
    simp only [next, Option.ite_none_right_eq_some, Option.some.injEq] at hstep
    obtain ⟨ht, rfl⟩ := hstep
    exact ⟨fun _ => h.enter nofun (by rw [ht]; nofun), fun _ => trivial⟩
  | unlock t =>
    simp only [next, Option.ite_none_right_eq_some, Option.some.injEq] at hstep
    obtain ⟨ht, rfl⟩ := hstep
    exact ⟨fun _ => h.unlock ht, fun _ => trivial⟩
  | exchange t spurious =>
    cases ht : s.phase t with
    | outside => simp [next, ht] at hstep
    | inside => simp [next, ht] at hstep
    | spinning unlatched =>
      have hout : s.phase t ≠ .inside := by rw [ht]; nofun
      simp only [next, ht, Option.some.injEq] at hstep
      subst hstep
      unfold compareExchange
      split_ifs with hfound hspurious
      · exact ⟨fun _ => h, fun _ _ _ => hspurious⟩
      · cases hlock : s.lock with
        | false => exact ⟨fun _ => h.exchange hlock, fun _ hheld => absurd hheld (by simp [hlock])⟩
        | true =>
          -- the thread expects `true`, and the holder is still inside
          refine ⟨fun hok => absurd (hok hlock (by rw [ht, ← hfound, hlock])) hspurious, ?_⟩
          intro hexclusive
          obtain ⟨u, hu⟩ := h.lock.mp hlock
          have hne : u ≠ t := fun heq => hout (heq ▸ hu)
          exact absurd (hexclusive u t ((enter_phase_of_ne hne _).trans hu)
            (enter_phase_self s t .inside)) hne
      · refine ⟨fun _ => h.enter nofun hout, fun _ hlock hspinning => ?_⟩
        rw [ht] at hspinning
        cases hspinning
        exact absurd hlock hfound

omit [DecidableEq Tid] in
theorem inv_init : Inv ({} : State Tid) := ⟨nofun, iff_of_false nofun nofun⟩

/-- Two attempts let a thread in next to whoever holds the lock. -/
theorem lock_while_held (hheld : s.lock = true) (ht : s.phase t = .outside) :
    [Action.lock t, .exchange t false, .exchange t false].foldlM next s =
      some (s.enter t .inside) := by
  have hcall : next s (.lock t) = some (s.enter t (.spinning false)) := if_pos ht
  have hfirst : next (s.enter t (.spinning false)) (.exchange t false) =
      some (s.enter t (.spinning true)) := by
    simp [next, compareExchange, hheld, State.enter]
  have hsecond : next (s.enter t (.spinning true)) (.exchange t false) =
      some (s.enter t .inside) := by
    simp [next, compareExchange, hheld, State.enter]
  simp only [List.foldlM_cons, List.foldlM_nil, hcall, hfirst, hsecond, Option.bind_eq_bind,
    Option.bind_some, Option.pure_def]

/-- At most one thread is inside throughout a run if and only if no thread that has found the
lock held tries again while it is. Any thread gets in next to the holder by its second
attempt. -/
theorem exclusive_iff (Tid : Type) [DecidableEq Tid] :
    (∀ as, (system Tid).Keeps (fun _ _ s' => Exclusive s') {} as ↔ (system Tid).Meets Ok {} as) ∧
      ∀ (s : State Tid) (t : Tid), s.lock = true → s.phase t = .outside →
        [Action.lock t, .exchange t false, .exchange t false].foldlM next s =
          some (s.enter t .inside) := by
  refine ⟨fun as => System.keeps_iff_meets Inv ?_ ?_ inv_init as, fun _ _ => lock_while_held⟩
  · intro s a s' h hstep hok
    have hinv := (next_inv h hstep).1 hok
    exact ⟨hinv.exclusive, hinv⟩
  · intro s a s' h hstep hexclusive
    exact (next_inv h hstep).2 hexclusive

end CxxFramework.Core.SpinLock
