import CxxFramework.Core.Queue
import CxxFramework.Library.Transition
import Mathlib.Data.Fintype.Basic
import Mathlib.Data.Finset.Card
import Mathlib.Tactic.SplitIfs

/-!
# Blocking queues

`DeQueueBlocking` waits for a condition if it finds the queue empty, and looks into the queue once
more behind the wait, whatever has ended it: a signal, the timeout, or nothing at all. `EnQueue`
gives the mutex back before it signals, so that other threads come between its two parts.

What a thread does while it holds the mutex is one step. Any number of threads use any number of
queues, the same elements in all of them.

## Main definitions

* `BlockingQueue.next` — the steps of the threads.
* `BlockingQueue.Serves` — elements leave a queue in the order in which they came, each once, and
  no thread sleeps on an element that no other one is awake for.
* `BlockingQueue.Ok` — no queue comes to hold `2 ^ 32` elements.
-/

namespace CxxFramework.Core.BlockingQueue

open Transition

/-- Where a thread is in a call. -/
inductive Phase (Q : Type) where
  | idle
  /-- `EnQueue`, in front of `fCond.Signal` -/
  | signalling (queue : Q)
  /-- `DeQueueBlocking`, in `fCond.Wait` -/
  | sleeping (queue : Q)
  /-- `DeQueueBlocking`, on the way back into the mutex -/
  | woken (queue : Q)
deriving DecidableEq, Repr

/-- The queues and their threads, with what has been put into each queue and what has been taken
out of it so far. -/
structure State (Tid Q E : Type) where
  memory : QueueMemory Q E
  phase : Tid → Phase Q := fun _ => .idle
  entered : Q → List E := fun _ => []
  returned : Q → List E := fun _ => []

inductive Action (Tid Q E : Type) where
  /-- `EnQueue`, up to where it gives the mutex back. -/
  | enQueue (t : Tid) (queue : Q) (obj : E)
  /-- `fCond.Signal`, which wakes a thread if one sleeps. -/
  | signal (t : Tid) (wakes : Option Tid)
  | deQueue (t : Tid) (queue : Q)
  /-- `DeQueueBlocking`, up to its wait if it comes to one. -/
  | deQueueBlocking (t : Tid) (queue : Q)
  /-- A wait ends without a signal of `EnQueue`. -/
  | wake (t : Tid)
  /-- `DeQueueBlocking`, behind its wait. -/
  | resume (t : Tid)

variable {Tid Q E : Type} [DecidableEq Tid] [DecidableEq Q] [DecidableEq E]
  {s s' : State Tid Q E} {a : Action Tid Q E} {t u : Tid} {queue other : Q}

def State.enter (s : State Tid Q E) (t : Tid) (phase : Phase Q) : State Tid Q E :=
  { s with phase := Function.update s.phase t phase }

/-- `fQueue.EnQueue`; none if its assertion fails. -/
def State.put (s : State Tid Q E) (queue : Q) (obj : E) : Option (State Tid Q E) :=
  (s.memory.enQueue queue obj).map fun memory =>
    { s with
      memory
      entered :=
        -- an element that is in the queue already stays where it is
        if s.memory.fQueue obj = some queue then s.entered
        else Function.update s.entered queue (s.entered queue ++ [obj]) }

/-- `fQueue.DeQueue`; none if its assertion fails. -/
def State.take (s : State Tid Q E) (queue : Q) : Option (State Tid Q E) :=
  (s.memory.deQueue queue).map fun (retval, memory) =>
    { s with
      memory
      returned := Function.update s.returned queue (s.returned queue ++ retval.toList) }

variable [Fintype Tid]

def next (s : State Tid Q E) : Action Tid Q E → Option (State Tid Q E)
  | .enQueue t queue obj =>
    if s.phase t = .idle then (s.put queue obj).map (·.enter t (.signalling queue)) else none
  | .signal t wakes =>
    match s.phase t, wakes with
    | .signalling queue, some u =>
      if s.phase u = .sleeping queue then some ((s.enter u (.woken queue)).enter t .idle) else none
    | .signalling queue, none =>
      if ∀ u, s.phase u ≠ .sleeping queue then some (s.enter t .idle) else none
    | _, _ => none
  | .deQueue t queue => if s.phase t = .idle then s.take queue else none
  | .deQueueBlocking t queue =>
    if s.phase t = .idle then
      if s.memory.getLength queue = 0 then some (s.enter t (.sleeping queue)) else s.take queue
    else none
  | .wake t =>
    match s.phase t with
    | .sleeping queue => some (s.enter t (.woken queue))
    | _ => none
  | .resume t =>
    match s.phase t with
    | .woken queue => (s.take queue).map (·.enter t .idle)
    | _ => none

/-- Queues just constructed, of which no thread is in a call. -/
def Fresh (s : State Tid Q E) : Prop :=
  s.memory.Fresh ∧ (∀ t, s.phase t = .idle) ∧ (∀ queue, s.entered queue = []) ∧
    ∀ queue, s.returned queue = []

def system (Tid Q E : Type) [DecidableEq Tid] [DecidableEq Q] [DecidableEq E] [Fintype Tid] :
    System (State Tid Q E) (Action Tid Q E) :=
  .ofPartial Fresh next

/-- The threads that are going to signal, or to look into the queue. -/
def State.awake (s : State Tid Q E) (queue : Q) : Finset Tid :=
  {t | s.phase t = .signalling queue ∨ s.phase t = .woken queue}

/-- What a queue and the threads on it are when `waiting` is what it holds, the oldest first. -/
structure ServesQueue (s : State Tid Q E) (queue : Q) (waiting : List E) : Prop where
  /-- What has been put in and not been taken out, in its order. -/
  fifo : s.entered queue = s.returned queue ++ waiting
  length : s.memory.getLength queue = waiting.length
  /-- The oldest one is the next to be taken out. -/
  deQueue : (s.memory.deQueue queue).map (·.1) = some waiting.head?
  /-- No wakeup is lost: while a thread sleeps, there is one awake for each element. -/
  wakeup : ∀ t, s.phase t = .sleeping queue → waiting.length ≤ (s.awake queue).card

/-- Elements leave a queue in the order in which they came, each once, and no thread sleeps on an
element that no other one is awake for. -/
def Serves (s : State Tid Q E) : Prop := ∀ queue, ∃ waiting, ServesQueue s queue waiting

/-- No queue comes to hold `2 ^ 32` elements. -/
def Ok (s : State Tid Q E) : Action Tid Q E → Prop
  | .enQueue _ queue obj =>
    s.memory.fQueue obj = none → s.memory.getLength queue + 1 < kLengthSize
  | _ => True

/-! ## What a queue holds -/

/-- The queues hold `l`: what has been put in and not been taken out, in its order. -/
structure Holds (s : State Tid Q E) (l : Q → List E) : Prop where
  represents : s.memory.Represents l
  small : Small l
  fifo : ∀ queue, s.entered queue = s.returned queue ++ l queue

section Holds

variable {l : Q → List E} {obj : E}

omit [DecidableEq Q] [DecidableEq E] [Fintype Tid] in
theorem Holds.enter (h : Holds s l) (t : Tid) (phase : Phase Q) : Holds (s.enter t phase) l :=
  ⟨h.represents, h.small, h.fifo⟩

omit [DecidableEq Tid] [DecidableEq Q] [DecidableEq E] [Fintype Tid] in
theorem Holds.length (h : Holds s l) (queue : Q) :
    s.memory.getLength queue = (l queue).length :=
  (h.represents.length queue).trans (Nat.mod_eq_of_lt (h.small queue))

omit [DecidableEq Tid] [Fintype Tid] in
/-- The oldest element is taken out; there need not be one. -/
theorem Holds.take (h : Holds s l) (queue : Q) :
    ∃ s', s.take queue = some s' ∧ Holds s' (Function.update l queue (l queue).tail) ∧
      s'.phase = s.phase := by
  obtain ⟨m', hdequeue, hrepresents⟩ := h.represents.deQueue h.small queue
  have htake : s.take queue = some
      { s with
        memory := m'
        returned := Function.update s.returned queue
          (s.returned queue ++ (l queue).head?.toList) } := by
    rw [State.take, hdequeue]
    rfl
  refine ⟨_, htake, ⟨hrepresents, ?_, ?_⟩, rfl⟩
  · intro other
    have hsmall := h.small other
    simp only [Function.update_apply]
    split_ifs with heq
    · subst heq
      rw [List.length_tail]
      omega
    · exact hsmall
  · intro other
    have hfifo := h.fifo other
    simp only [Function.update_apply]
    split_ifs with heq
    · subst heq
      rw [hfifo, List.append_assoc]
      cases l other <;> rfl
    · exact hfifo

omit [DecidableEq Tid] [Fintype Tid] in
/-- An element in no queue becomes the youngest one, and one that is in the queue already stays
where it is. -/
theorem Holds.put (h : Holds s l) (hput : s.put queue obj = some s')
    (hok : s.memory.fQueue obj = none → s.memory.getLength queue + 1 < kLengthSize) :
    ∃ l', Holds s' l' ∧ s'.phase = s.phase ∧
      ∀ other, (l' other).length ≤ (l other).length + if other = queue then 1 else 0 := by
  obtain ⟨m', henqueue, rfl⟩ := Option.map_eq_some_iff.mp hput
  cases hobj : s.memory.fQueue obj with
  | none =>
    obtain ⟨m'', hm, hrepresents⟩ := h.represents.enQueue queue hobj
    obtain rfl : m' = m'' := Option.some.inj (henqueue.symm.trans hm)
    have hlength := hok hobj
    rw [h.length] at hlength
    refine ⟨_, ⟨hrepresents, ?_, ?_⟩, rfl, ?_⟩ <;> intro other
    · have hsmall := h.small other
      simp only [Function.update_apply]
      split_ifs
      · rwa [List.length_append]
      · exact hsmall
    · have hfifo := h.fifo other
      simp only [reduceCtorEq, if_false, Function.update_apply]
      split_ifs with heq
      · rw [← heq, hfifo, List.append_assoc]
      · exact hfifo
    · simp only [Function.update_apply]
      split_ifs with heq
      · rw [heq, List.length_append, List.length_singleton]
      · exact Nat.le_refl _
  | some other =>
    have hsame : other = queue ∧ m' = s.memory := by
      simp only [QueueMemory.enQueue, hobj] at henqueue
      grind
    obtain ⟨rfl, rfl⟩ := hsame
    refine ⟨l, ⟨h.represents, h.small, ?_⟩, rfl, fun _ => Nat.le_add_right _ _⟩
    simpa using h.fifo

omit [DecidableEq Tid] [Fintype Tid] in
/-- With one more element than its length can count, a queue passes for an empty one. -/
theorem Holds.not_full_of_put (h : Holds s l) (hput : s.put queue obj = some s')
    (hobj : s.memory.fQueue obj = none) {waiting : List E}
    (hfifo : s'.entered queue = s'.returned queue ++ waiting)
    (hlength : s'.memory.getLength queue = waiting.length) :
    s.memory.getLength queue + 1 < kLengthSize := by
  obtain ⟨m', henqueue, rfl⟩ := Option.map_eq_some_iff.mp hput
  obtain ⟨m'', hm, hrepresents⟩ := h.represents.enQueue queue hobj
  obtain rfl : m' = m'' := Option.some.inj (henqueue.symm.trans hm)
  have hwaiting : waiting = l queue ++ [obj] := by
    simp only [hobj, reduceCtorEq, if_false, Function.update_self, h.fifo queue,
      List.append_assoc] at hfifo
    exact (List.append_cancel_left hfifo).symm
  have hcount := hrepresents.length queue
  have hsmall := h.small queue
  rw [h.length]
  simp only [QueueMemory.getLength, hwaiting] at hlength
  rw [hlength, Function.update_self, List.length_append, List.length_singleton] at hcount
  by_contra hfull
  have heq : (l queue).length + 1 = kLengthSize := by omega
  rw [heq, Nat.mod_self] at hcount
  omega

end Holds

/-! ## The threads that are awake -/

section Awake

omit [DecidableEq E]

omit [DecidableEq Tid] in
@[simp]
theorem mem_awake :
    t ∈ s.awake queue ↔ s.phase t = .signalling queue ∨ s.phase t = .woken queue := by
  simp [State.awake]

omit [DecidableEq Q] [Fintype Tid] in
@[simp]
theorem enter_phase_self (s : State Tid Q E) (t : Tid) (phase : Phase Q) :
    (s.enter t phase).phase t = phase := Function.update_self ..

omit [DecidableEq Q] [Fintype Tid] in
theorem enter_phase_of_ne (h : u ≠ t) (phase : Phase Q) :
    (s.enter t phase).phase u = s.phase u := Function.update_of_ne h ..

theorem awake_enter {phase : Phase Q} (h : phase = .signalling queue ∨ phase = .woken queue) :
    (s.enter t phase).awake queue = insert t (s.awake queue) := by
  ext u
  by_cases hu : u = t
  · subst hu
    simp [h]
  · simp [enter_phase_of_ne hu, hu]

theorem awake_leave {phase : Phase Q} (h : ¬ (phase = .signalling queue ∨ phase = .woken queue)) :
    (s.enter t phase).awake queue = (s.awake queue).erase t := by
  ext u
  by_cases hu : u = t
  · subst hu
    simpa using h
  · simp [enter_phase_of_ne hu, hu]

/-- A thread that was not awake for a queue and is not going to be makes no difference to it. -/
theorem awake_enter_same {phase : Phase Q} (hbefore : t ∉ s.awake queue)
    (h : ¬ (phase = .signalling queue ∨ phase = .woken queue)) :
    (s.enter t phase).awake queue = s.awake queue := by
  rw [awake_leave h, Finset.erase_eq_of_notMem hbefore]

omit [DecidableEq Q] [Fintype Tid] in
theorem sleeping_enter {phase : Phase Q} (h : (s.enter t phase).phase u = .sleeping queue) :
    phase = .sleeping queue ∨ s.phase u = .sleeping queue := by
  by_cases hu : u = t
  · subst hu
    exact .inl ((enter_phase_self ..).symm.trans h)
  · exact .inr ((enter_phase_of_ne hu _).symm.trans h)

end Awake

/-- While a thread sleeps on a queue that holds `l`, there is one awake for each element. -/
def Watched (s : State Tid Q E) (l : Q → List E) : Prop :=
  ∀ t queue, s.phase t = .sleeping queue → (l queue).length ≤ (s.awake queue).card

section Watched

variable {l l' : Q → List E}

omit [DecidableEq E]

omit [DecidableEq Tid] in
/-- A queue with sleepers gets no more elements than threads that are awake for it. -/
theorem Watched.step (h : Watched s l)
    (hsleep : ∀ t queue, s'.phase t = .sleeping queue →
      l' queue = [] ∨ ∃ u, s.phase u = .sleeping queue)
    (hle : ∀ t queue, s.phase t = .sleeping queue → 0 < (l' queue).length →
      (l' queue).length + (s.awake queue).card ≤ (l queue).length + (s'.awake queue).card) :
    Watched s' l' := by
  intro t queue ht
  obtain hnil | ⟨u, hu⟩ := hsleep t queue ht
  · simp [hnil]
  · have hlength := h u queue hu
    have hchange := hle u queue hu
    omega

omit [DecidableEq Tid] in
theorem Watched.of_le (h : Watched s l) (hphase : s'.phase = s.phase)
    (hle : ∀ queue, (l' queue).length ≤ (l queue).length) : Watched s' l' := by
  intro t queue ht
  rw [hphase] at ht
  have hawake : s'.awake queue = s.awake queue := by
    ext u
    rw [mem_awake, mem_awake, hphase]
  rw [hawake]
  exact (hle queue).trans (h t queue ht)

theorem tail_length_le (l : Q → List E) (queue other : Q) :
    (Function.update l queue (l queue).tail other).length ≤ (l other).length := by
  simp only [Function.update_apply]
  split_ifs with heq
  · rw [heq, List.length_tail]
    omega
  · exact Nat.le_refl _

/-- A thread that has put an element in is awake until it has signalled. -/
theorem Watched.enQueue (h : Watched s l) (ht : s.phase t = .idle)
    (hle : ∀ other, (l' other).length ≤ (l other).length + if other = queue then 1 else 0) :
    Watched (s.enter t (.signalling queue)) l' := by
  refine h.step ?_ ?_
  · intro u other hu
    obtain heq | hu := sleeping_enter hu
    · cases heq
    · exact .inr ⟨u, hu⟩
  · intro u other hu _
    have hout : t ∉ s.awake other := by simp [ht]
    have hlength := hle other
    split_ifs at hlength with heq
    · subst heq
      rw [awake_enter (.inl rfl), Finset.card_insert_of_notMem hout]
      omega
    · rw [awake_enter_same hout (by simpa using Ne.symm heq)]
      omega

/-- The thread that signals hands over to the one that it wakes. -/
theorem Watched.signal (h : Watched s l) (ht : s.phase t = .signalling queue)
    (hu : s.phase u = .sleeping queue) :
    Watched ((s.enter u (.woken queue)).enter t .idle) l := by
  have hne : t ≠ u := by
    rintro rfl
    simp [ht] at hu
  refine h.step ?_ ?_
  · intro v other hv
    obtain heq | hv := sleeping_enter hv
    · cases heq
    · obtain heq | hv := sleeping_enter hv
      · cases heq
      · exact .inr ⟨v, hv⟩
  · intro v other hv _
    have hout : u ∉ s.awake other := by simp [hu]
    rw [awake_leave (by simp)]
    by_cases heq : queue = other
    · subst heq
      have hin : t ∈ s.awake queue := by simp [ht]
      rw [awake_enter (.inr rfl), Finset.card_erase_of_mem (Finset.mem_insert_of_mem hin),
        Finset.card_insert_of_notMem hout]
      omega
    · have hout' : t ∉ s.awake other := by simp [ht, heq]
      rw [awake_enter_same hout (by simpa using heq), Finset.erase_eq_of_notMem hout']

/-- A signal is lost only if no thread sleeps. -/
theorem Watched.signal_none (h : Watched s l) (ht : s.phase t = .signalling queue)
    (hnone : ∀ u, s.phase u ≠ .sleeping queue) : Watched (s.enter t .idle) l := by
  refine h.step ?_ ?_
  · intro u other hu
    obtain heq | hu := sleeping_enter hu
    · cases heq
    · exact .inr ⟨u, hu⟩
  · intro u other hu _
    have hne : queue ≠ other := by
      rintro rfl
      exact hnone u hu
    have hout : t ∉ s.awake other := by simp [ht, hne]
    rw [awake_enter_same hout (by simp)]

theorem Watched.sleep (h : Watched s l) (ht : s.phase t = .idle) (hnil : l queue = []) :
    Watched (s.enter t (.sleeping queue)) l := by
  refine h.step ?_ ?_
  · intro u other hu
    obtain heq | hu := sleeping_enter hu
    · cases heq
      exact .inl hnil
    · exact .inr ⟨u, hu⟩
  · intro u other hu _
    rw [awake_enter_same (by simp [ht]) (by simp)]

theorem Watched.wake (h : Watched s l) (ht : s.phase t = .sleeping queue) :
    Watched (s.enter t (.woken queue)) l := by
  refine h.step ?_ ?_
  · intro u other hu
    obtain heq | hu := sleeping_enter hu
    · cases heq
    · exact .inr ⟨u, hu⟩
  · intro u other hu _
    have hout : t ∉ s.awake other := by simp [ht]
    by_cases heq : queue = other
    · subst heq
      rw [awake_enter (.inr rfl), Finset.card_insert_of_notMem hout]
      omega
    · rw [awake_enter_same hout (by simpa using heq)]

/-- A thread that has been woken takes an element out, if there is still one. -/
theorem Watched.resume (h : Watched s l) (ht : s.phase t = .woken queue) :
    Watched (s.enter t .idle) (Function.update l queue (l queue).tail) := by
  refine h.step ?_ ?_
  · intro u other hu
    obtain heq | hu := sleeping_enter hu
    · cases heq
    · exact .inr ⟨u, hu⟩
  · intro u other hu hleft
    rw [awake_leave (by simp)]
    by_cases heq : queue = other
    · subst heq
      have hin : t ∈ s.awake queue := by simp [ht]
      rw [Function.update_self, List.length_tail] at hleft ⊢
      rw [Finset.card_erase_of_mem hin]
      omega
    · have hout : t ∉ s.awake other := by simp [ht, heq]
      rw [Finset.erase_eq_of_notMem hout, Function.update_of_ne (Ne.symm heq)]

end Watched

/-! ## Runs -/

def Inv (s : State Tid Q E) : Prop := ∃ l, Holds s l ∧ Watched s l

omit [DecidableEq Tid] in
theorem Inv.take (h : Inv s) (htake : s.take queue = some s') : Inv s' := by
  obtain ⟨l, hholds, hwatched⟩ := h
  obtain ⟨s'', htake', hholds', hphase⟩ := hholds.take queue
  obtain rfl : s' = s'' := Option.some.inj (htake.symm.trans htake')
  exact ⟨_, hholds', hwatched.of_le hphase (tail_length_le l queue)⟩

/-- What one step does. -/
theorem next_inv (h : Inv s) (hstep : next s a = some s') (hok : Ok s a) : Inv s' := by
  obtain ⟨l, hholds, hwatched⟩ := id h
  cases a with
  | enQueue t queue obj =>
    simp only [next, Option.ite_none_right_eq_some] at hstep
    obtain ⟨ht, hstep⟩ := hstep
    obtain ⟨s'', hput, rfl⟩ := Option.map_eq_some_iff.mp hstep
    obtain ⟨l', hholds', hphase, hlength⟩ := hholds.put hput hok
    -- the elements put in are counted against the thread's own signal
    have hwatched' : Watched (s.enter t (.signalling queue)) l' := hwatched.enQueue ht hlength
    refine ⟨l', hholds'.enter t _, hwatched'.of_le ?_ fun _ => Nat.le_refl _⟩
    simp [State.enter, hphase]
  | signal t wakes =>
    simp only [next] at hstep
    split at hstep
    · rename_i queue u ht
      simp only [Option.ite_none_right_eq_some, Option.some.injEq] at hstep
      obtain ⟨hu, rfl⟩ := hstep
      exact ⟨l, (hholds.enter u _).enter t _, hwatched.signal ht hu⟩
    · rename_i queue ht
      simp only [Option.ite_none_right_eq_some, Option.some.injEq] at hstep
      obtain ⟨hnone, rfl⟩ := hstep
      exact ⟨l, hholds.enter t _, hwatched.signal_none ht hnone⟩
    · cases hstep
  | deQueue t queue =>
    simp only [next, Option.ite_none_right_eq_some] at hstep
    exact h.take hstep.2
  | deQueueBlocking t queue =>
    simp only [next, Option.ite_none_right_eq_some] at hstep
    obtain ⟨ht, hstep⟩ := hstep
    split_ifs at hstep with hlength
    · cases hstep
      rw [hholds.length] at hlength
      exact ⟨l, hholds.enter t _, hwatched.sleep ht (List.eq_nil_of_length_eq_zero hlength)⟩
    · exact h.take hstep
  | wake t =>
    simp only [next] at hstep
    split at hstep
    · rename_i queue ht
      cases hstep
      exact ⟨l, hholds.enter t _, hwatched.wake ht⟩
    · cases hstep
  | resume t =>
    simp only [next] at hstep
    split at hstep
    · rename_i queue ht
      obtain ⟨s'', htake, rfl⟩ := Option.map_eq_some_iff.mp hstep
      obtain ⟨s₁, htake', hholds', hphase⟩ := hholds.take queue
      obtain rfl : s'' = s₁ := Option.some.inj (htake.symm.trans htake')
      have hwatched' := hwatched.resume ht
      refine ⟨_, hholds'.enter t _, hwatched'.of_le ?_ fun _ => Nat.le_refl _⟩
      simp [State.enter, hphase]
    · cases hstep

omit [DecidableEq Tid] in
theorem Inv.serves (h : Inv s) : Serves s := by
  obtain ⟨l, hholds, hwatched⟩ := h
  intro queue
  obtain ⟨m', hdequeue, -⟩ := hholds.represents.deQueue hholds.small queue
  exact ⟨l queue, hholds.fifo queue, hholds.length queue, by rw [hdequeue]; rfl,
    fun t => hwatched t queue⟩

theorem ok_of_serves (h : Inv s) (hstep : next s a = some s') (hserves : Serves s') : Ok s a := by
  obtain ⟨l, hholds, -⟩ := h
  cases a with
  | enQueue t queue obj =>
    intro hobj
    simp only [next, Option.ite_none_right_eq_some] at hstep
    obtain ⟨-, hstep⟩ := hstep
    obtain ⟨s'', hput, rfl⟩ := Option.map_eq_some_iff.mp hstep
    obtain ⟨waiting, hqueue⟩ := hserves queue
    exact hholds.not_full_of_put hput hobj hqueue.fifo hqueue.length
  | _ => trivial

omit [DecidableEq Tid] [DecidableEq E] in
theorem Fresh.inv (h : Fresh s) : Inv s := by
  obtain ⟨hmemory, hphase, hentered, hreturned⟩ := h
  refine ⟨fun _ => [], ⟨hmemory.represents, fun _ => Nat.two_pow_pos 32, ?_⟩, ?_⟩
  · intro queue
    rw [hentered, hreturned, List.append_nil]
  · intro t queue ht
    exact Nat.zero_le _

/-- In every run of any threads on any blocking queues, elements leave a queue in the order in
which they came, each once, and no thread sleeps on an element that no other one is awake for: if
and only if no queue comes to hold `2 ^ 32` elements. -/
theorem queueServes_iff (fresh : Fresh s) (as : List (Action Tid Q E)) :
    (system Tid Q E).Keeps (fun _ _ s' => Serves s') s as ↔ (system Tid Q E).Meets Ok s as := by
  refine System.keeps_iff_meets Inv ?_ ?_ fresh.inv as
  · intro s a s' h hstep hok
    have hinv := next_inv h hstep hok
    exact ⟨hinv.serves, hinv⟩
  · intro s a s' h hstep hserves
    exact ok_of_serves h hstep hserves

/-- A thread that finds the queue empty is woken for the element that another one puts in. -/
theorem queueServes_iff_wakeup :
    (system Bool Unit Nat).Keeps (fun _ _ s' => Serves s') { memory := QueueMemory.emptyMemory }
      [.deQueueBlocking true (), .enQueue false () 5, .signal false (some true), .resume true] := by
  have hfresh : Fresh ({ memory := QueueMemory.emptyMemory } : State Bool Unit Nat) :=
    ⟨QueueMemory.emptyMemory_fresh, fun _ => rfl, fun _ => rfl, fun _ => rfl⟩
  refine (queueServes_iff hfresh _).mpr ?_
  intro s₁ h₁
  refine ⟨trivial, fun s₂ _ => ⟨fun _ => ?_, fun _ _ => ⟨trivial, fun _ _ => ⟨trivial, trivial⟩⟩⟩⟩
  obtain rfl := Option.some.inj h₁
  decide

end CxxFramework.Core.BlockingQueue
