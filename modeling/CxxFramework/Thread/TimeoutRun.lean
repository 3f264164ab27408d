import CxxFramework.Library.Transition
import CxxFramework.Thread.TimeoutTask

/-!
# Runs of the timeout tasks

A timeout of zero means that the task is never signalled. `SetTimeout` writes zero to
`fTimeoutAtThisTime` then, the time that `Run` leaves alone. `RefreshTimeout` adds the timeout to
the time of the call, also when it is zero, so a task that is refreshed becomes due at once.

The tasks are named by the `TimeoutTask` that they were given to, so a signal says which
`TimeoutTask` it comes from.

## Main definitions

* `TimeoutRun.system` — the calls on the timeout tasks and the polling runs, with the clock.
* `TimeoutRun.Timely` — a step signals no task before its timeout has passed.
* `TimeoutRun.Unrefreshed` — the polling run finds no task that was refreshed without a timeout.
-/

namespace CxxFramework.Thread

open Transition

/-- What the callers have asked of a timeout task: the timeout of the last `SetTimeout`, when it
or a `RefreshTimeout` was called last, and whether it was a `RefreshTimeout`. -/
structure Asked where
  timeout : Int
  since : Int
  refreshed : Bool
deriving DecidableEq, Repr

/-- The time to signal the task has come. -/
def Asked.Passed (asked : Asked) (time : Int) : Prop :=
  asked.timeout ≠ 0 ∧ (0 < asked.timeout → asked.since + asked.timeout ≤ time)

instance (asked : Asked) (time : Int) : Decidable (asked.Passed time) :=
  inferInstanceAs (Decidable (_ ∧ (_ → _)))

/-- The timeout tasks `O` for tasks `T`, the queue of those that are alive, and the clock. -/
structure TimeoutRun (O T : Type) where
  now : Int
  fQueue : List O
  object : O → TimeoutTask (O × T)
  asked : O → Asked

inductive TimeoutCall (O T : Type) where
  | new (o : O) (inTask : Option T) (inTimeoutInMilSecs : Int)
  | delete (o : O)
  | setTask (o : O) (inTask : Option T)
  | setTimeout (o : O) (inTimeoutInMilSecs : Int)
  | refreshTimeout (o : O)
  | run (events : EventFlags)
deriving DecidableEq, Repr

namespace TimeoutRun

variable {O T : Type}

/-- No timeout tasks yet. -/
def start (now : Int) : TimeoutRun O T :=
  ⟨now, [], fun _ => { fTask := none }, fun _ => ⟨0, now, false⟩⟩

/-- The timeout tasks that a step signals, each with its task. -/
def signals (w : TimeoutRun O T) : Int × TimeoutCall O T → List (O × T)
  | (time, .run events) => (TimeoutTaskThread.run events time (w.fQueue.map w.object)).2
  | _ => []

/-- A step signals only tasks whose timeout has passed. -/
def Timely (w : TimeoutRun O T) (a : Int × TimeoutCall O T) (_ : TimeoutRun O T) : Prop :=
  ∀ r ∈ w.signals a, (w.asked r.1).Passed a.1

/-- A polling run that is not killed finds no task that was refreshed and has no timeout. -/
def Unrefreshed (w : TimeoutRun O T) : Int × TimeoutCall O T → Prop
  | (_, .run events) => (events &&& Task.kKillEvent != 0) = true ∨
    ∀ o ∈ w.fQueue, (w.object o).fTask ≠ none → (w.asked o).timeout = 0 → ¬ (w.asked o).refreshed
  | _ => True

instance (w : TimeoutRun O T) (a : Int × TimeoutCall O T) (w' : TimeoutRun O T) :
    Decidable (w.Timely a w') :=
  inferInstanceAs (Decidable (∀ r ∈ _, _))

section Operations

variable [DecidableEq O]

/-- Writes a timeout task, and what has been asked of it. -/
def set (w : TimeoutRun O T) (o : O) (t : TimeoutTask (O × T)) (asked : Asked) : TimeoutRun O T :=
  { w with object := Function.update w.object o t, asked := Function.update w.asked o asked }

/-- A call at the time `w.now`; none if there is no such timeout task, or an assertion fails. -/
def call (w : TimeoutRun O T) : TimeoutCall O T → Option (TimeoutRun O T)
  | .new o inTask inTimeoutInMilSecs =>
    if o ∈ w.fQueue then none
    else
      let t := TimeoutTask.new (inTask.map (o, ·)) w.now inTimeoutInMilSecs
      some { w.set o t ⟨inTimeoutInMilSecs, w.now, false⟩ with fQueue := w.fQueue ++ [o] }
  | .delete o => if o ∈ w.fQueue then some { w with fQueue := w.fQueue.erase o } else none
  | .setTask o inTask =>
    if o ∈ w.fQueue then
      some (w.set o { w.object o with fTask := inTask.map (o, ·) } (w.asked o))
    else none
  | .setTimeout o inTimeoutInMilSecs =>
    if o ∈ w.fQueue then
      some (w.set o ((w.object o).setTimeout w.now inTimeoutInMilSecs)
        ⟨inTimeoutInMilSecs, w.now, false⟩)
    else none
  | .refreshTimeout o =>
    let t := (w.object o).refreshTimeout w.now
    if o ∈ w.fQueue ∧ t.fTimeoutAtThisTime > 0 then
      some (w.set o t { w.asked o with since := w.now, refreshed := true })
    else none
  | .run _ => some w

/-- A call at a time that the clock has not passed yet. -/
def next (w : TimeoutRun O T) (a : Int × TimeoutCall O T) : Option (TimeoutRun O T) :=
  if w.now ≤ a.1 then { w with now := a.1 }.call a.2 else none

abbrev system : System (TimeoutRun O T) (Int × TimeoutCall O T) :=
  .ofPartial (fun w => w.fQueue = []) next

end Operations

/-! ## What the fields of a timeout task say -/

/-- A timeout task has the timeout that was asked for, and the time that follows from it. -/
structure Kept (o : O) (t : TimeoutTask (O × T)) (asked : Asked) (now : Int) : Prop where
  named : ∀ r, t.fTask = some r → r.1 = o
  timeout : t.fTimeoutInMilSecs = asked.timeout
  never : asked.timeout = 0 → asked.refreshed = false → t.fTimeoutAtThisTime = 0
  time : asked.timeout ≠ 0 ∨ asked.refreshed = true →
    t.fTimeoutAtThisTime = asked.since + asked.timeout
  positive : asked.refreshed = true → 0 < t.fTimeoutAtThisTime
  since : asked.since ≤ now

def Inv (w : TimeoutRun O T) : Prop := ∀ o ∈ w.fQueue, Kept o (w.object o) (w.asked o) w.now

variable {o : O} {t : TimeoutTask (O × T)} {asked : Asked} {now time : Int} {w w' : TimeoutRun O T}

theorem Kept.later (h : Kept o t asked now) (hle : now ≤ time) : Kept o t asked time :=
  { h with since := le_trans h.since hle }

theorem Kept.setTimeout (htask : ∀ r, t.fTask = some r → r.1 = o) (now inTimeoutInMilSecs : Int) :
    Kept o (t.setTimeout now inTimeoutInMilSecs) ⟨inTimeoutInMilSecs, now, false⟩ now where
  named := htask
  timeout := rfl
  never h _ := if_pos h
  time h := if_neg (by simpa using h)
  positive := nofun
  since := le_refl now

theorem Kept.refreshTimeout (h : Kept o t asked now)
    (hpos : (t.refreshTimeout now).fTimeoutAtThisTime > 0) :
    Kept o (t.refreshTimeout now) { asked with since := now, refreshed := true } now where
  named := h.named
  timeout := h.timeout
  never := nofun
  time _ := congrArg (now + ·) h.timeout
  positive _ := hpos
  since := le_refl now

theorem Kept.setTask (h : Kept o t asked now) (inTask : Option T) :
    Kept o { t with fTask := inTask.map (o, ·) } asked now where
  named := by simp +contextual
  timeout := h.timeout
  never := h.never
  time := h.time
  positive := h.positive
  since := h.since

/-- A task that is due has had its timeout, unless it was refreshed and has none. -/
theorem Kept.passed_iff (h : Kept o t asked now) (hdue : t.Due time) :
    asked.Passed time ↔ ¬ (asked.timeout = 0 ∧ asked.refreshed = true) := by
  obtain ⟨hpos, htime⟩ := hdue
  unfold Asked.Passed
  constructor
  · rintro ⟨hne, -⟩ ⟨hzero, -⟩
    exact hne hzero
  · intro hnot
    have hne : asked.timeout ≠ 0 := by
      intro hzero
      have hnever := h.never hzero (by grind)
      omega
    have hat := h.time (.inl hne)
    exact ⟨hne, fun _ => by omega⟩

/-- A task that was refreshed and has no timeout is due. -/
theorem Kept.due (h : Kept o t asked now) (hle : now ≤ time) (hzero : asked.timeout = 0)
    (hrefreshed : asked.refreshed = true) : t.Due time := by
  have hat := h.time (.inr hrefreshed)
  have hpos := h.positive hrefreshed
  have hsince := h.since
  exact ⟨hpos, by omega⟩

/-! ## Steps -/

theorem mem_signals {a : Int × TimeoutCall O T} {r : O × T} :
    r ∈ w.signals a ↔ ∃ events, a.2 = .run events ∧ ¬ (events &&& Task.kKillEvent != 0) = true ∧
      ∃ o ∈ w.fQueue, (w.object o).Due a.1 ∧ (w.object o).fTask = some r := by
  obtain ⟨time, c⟩ := a
  cases c with
  | run events =>
    by_cases hkill : (events &&& Task.kKillEvent != 0) = true
    · have hnone : (TimeoutTaskThread.run events time (w.fQueue.map w.object)).2 = [] := by
        rw [TimeoutTaskThread.run, if_pos hkill]
      simp only [signals, hnone, TimeoutCall.run.injEq, ↓existsAndEq, true_and]
      exact ⟨fun h => absurd h List.not_mem_nil, fun h => absurd hkill h.1⟩
    · rw [signals, TimeoutTaskThread.run_signalled hkill]
      simp only [TimeoutCall.run.injEq, ↓existsAndEq, true_and, iff_true_intro hkill]
      simp [TimeoutTaskThread.timedOut, and_assoc]
  | _ => simp [signals]

section Operations

variable [DecidableEq O]

/-- Writing a timeout task keeps the others. -/
theorem Inv.set (h : Inv w) {fQueue : List O} (hmem : ∀ o' ∈ fQueue, o' = o ∨ o' ∈ w.fQueue)
    (hkept : Kept o t asked w.now) : Inv { w.set o t asked with fQueue := fQueue } := by
  intro o' ho'
  by_cases heq : o' = o
  · subst heq
    simpa [TimeoutRun.set] using hkept
  · simpa [TimeoutRun.set, heq] using h o' ((hmem o' ho').resolve_left heq)

theorem Inv.call (h : Inv w) {c : TimeoutCall O T} (hcall : w.call c = some w') : Inv w' := by
  cases c with
  | new o inTask inTimeoutInMilSecs =>
    simp only [TimeoutRun.call, Option.ite_none_left_eq_some, Option.some.injEq] at hcall
    obtain ⟨-, rfl⟩ := hcall
    refine h.set (fun o' ho' => by simpa [or_comm] using ho') (Kept.setTimeout ?_ _ _)
    simp +contextual
  | delete o =>
    simp only [TimeoutRun.call, Option.ite_none_right_eq_some, Option.some.injEq] at hcall
    obtain ⟨-, rfl⟩ := hcall
    exact fun o' ho' => h o' (List.mem_of_mem_erase ho')
  | setTask o inTask =>
    simp only [TimeoutRun.call, Option.ite_none_right_eq_some, Option.some.injEq] at hcall
    obtain ⟨ho, rfl⟩ := hcall
    exact h.set (fun _ => .inr) ((h o ho).setTask inTask)
  | setTimeout o inTimeoutInMilSecs =>
    simp only [TimeoutRun.call, Option.ite_none_right_eq_some, Option.some.injEq] at hcall
    obtain ⟨ho, rfl⟩ := hcall
    exact h.set (fun _ => .inr) (Kept.setTimeout (h o ho).named _ _)
  | refreshTimeout o =>
    simp only [TimeoutRun.call, Option.ite_none_right_eq_some, Option.some.injEq] at hcall
    obtain ⟨⟨ho, hpos⟩, rfl⟩ := hcall
    exact h.set (fun _ => .inr) ((h o ho).refreshTimeout hpos)
  | run events =>
    cases hcall
    exact h

theorem next_eq_some {a : Int × TimeoutCall O T} (h : w.next a = some w') :
    w.now ≤ a.1 ∧ { w with now := a.1 }.call a.2 = some w' := by
  simpa [next] using h

theorem Inv.next (h : Inv w) {a : Int × TimeoutCall O T} (hnext : w.next a = some w') : Inv w' := by
  obtain ⟨hle, hcall⟩ := next_eq_some hnext
  have hlater : Inv { w with now := a.1 } := fun o ho => (h o ho).later hle
  exact hlater.call hcall

omit [DecidableEq O] in
/-- A step is timely exactly if it is no polling run with a task that was refreshed and has no
timeout. -/
theorem Inv.timely_iff (h : Inv w) {a : Int × TimeoutCall O T} (hle : w.now ≤ a.1) :
    w.Timely a w' ↔ w.Unrefreshed a := by
  obtain ⟨time, c⟩ := a
  cases c with
  | run events =>
    unfold Timely Unrefreshed
    constructor
    · intro htimely
      by_contra hnot
      push Not at hnot
      obtain ⟨hkill, o, ho, htask, hzero, hrefreshed⟩ := hnot
      obtain ⟨r, hr⟩ := Option.ne_none_iff_exists'.mp htask
      have hkept := h o ho
      have hdue := hkept.due hle hzero hrefreshed
      have hpassed := htimely r (mem_signals.mpr ⟨events, rfl, hkill, o, ho, hdue, hr⟩)
      rw [hkept.named r hr] at hpassed
      exact hpassed.1 hzero
    · intro hok r hr
      obtain ⟨_, ⟨⟩, hkill, o, ho, hdue, htask⟩ := mem_signals.mp hr
      have hkept := h o ho
      rw [hkept.named r htask, hkept.passed_iff hdue]
      rintro ⟨hzero, hrefreshed⟩
      exact hok.resolve_left hkill o ho (by simp [htask]) hzero hrefreshed
  | _ => simp [Timely, Unrefreshed, signals]

/-! ## Results -/

/-- A run signals every task in time, and never without a timeout, exactly if no polling run in it
finds a task that was refreshed and has no timeout. -/
theorem keepsTimely_iff (now : Int) (as : List (Int × TimeoutCall O T)) :
    system.Keeps Timely (start now) as ↔ system.Meets Unrefreshed (start now) as := by
  have hstart : Inv (start now : TimeoutRun O T) := nofun
  refine System.keeps_iff_meets Inv ?_ ?_ hstart as
  · intro w a w' hinv hstep hok
    exact ⟨(hinv.timely_iff (next_eq_some hstep).1).mpr hok, hinv.next hstep⟩
  · intro w a w' hinv hstep htimely
    exact (hinv.timely_iff (next_eq_some hstep).1).mp htimely

/-- A task without a timeout is refreshed, and the next run signals it. -/
theorem refreshed_not_keepsTimely :
    ¬ system.Keeps (Timely (T := Nat)) (start 1)
      [(1, .new 0 (some 7) 0), (2, .refreshTimeout 0), (2, .run 0)] := by
  decide

end Operations

end TimeoutRun

end CxxFramework.Thread
