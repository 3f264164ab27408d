import CxxFramework.Socket.EventLoop

/-!
# The end of the server

The exit of `CFMain` and the event thread agree on two bits of `sState`: the main thread sets one
and waits, the event thread does what it asks for and clears it. `^=` clears the bit only because
it is set then, and nobody else changes the word.

## Main definitions

* `EventLoop.Stage` — how far the two threads have got.
* `EventLoop.Orderly` — the listeners are told first, then the contexts are cleaned up, then the
  event thread ends, and the event layer after it.
-/

namespace CxxFramework.Net.EventLoop

open Transition

variable {L : Type} {s s' : State L} {a : Action} {listeners : List L}

/-- The event thread has not seen a bit. -/
def EventPoint.Quiet (point : EventPoint) : Prop :=
  point = .top ∨ point = .waiting ∨ point = .testStop

/-- The points on the way to what `kKillListener` asks for. -/
def EventPoint.OnKill (point : EventPoint) : Prop :=
  point.Quiet ∨ point = .testKill ∨ point = .killing ∨ point = .killed

/-- The points on the way to what `kCleanEvent` asks for. -/
def EventPoint.OnClean (point : EventPoint) : Prop :=
  point.Quiet ∨ point = .testKill ∨ point = .testClean ∨ point = .cleaning ∨ point = .cleaned

/-- How far the two threads have got. -/
inductive Stage (s : State L) : Prop where
  | serving (main : s.main = .serving) (word : s.sState = 0) (stop : s.fStopRequested = false)
      (point : s.point.Quiet) (cleanups : s.cleanups = 0)
  /-- The event thread has not cleared `kKillListener` yet. -/
  | killing (main : s.main = .killListener) (word : s.sState = kKillListener)
      (stop : s.fStopRequested = false) (point : s.point.OnKill)
      (left : s.point = .killed → s.sListenerSocket = []) (cleanups : s.cleanups = 0)
  | killed (main : s.main = .killListener ∨ s.main = .listenersKilled) (word : s.sState = 0)
      (stop : s.fStopRequested = false) (point : s.point.Quiet) (left : s.sListenerSocket = [])
      (cleanups : s.cleanups = 0)
  | disabled (main : s.main = .eventsDisabled) (word : s.sState = kDisableEvent)
      (stop : s.fStopRequested = false) (point : s.point.Quiet) (left : s.sListenerSocket = [])
      (cleanups : s.cleanups = 0)
  /-- The event thread has not cleared `kCleanEvent` yet. -/
  | cleaning (main : s.main = .cleanEvent) (word : s.sState = kDisableEvent ||| kCleanEvent)
      (stop : s.fStopRequested = false) (point : s.point.OnClean) (left : s.sListenerSocket = [])
      (cleanups : s.cleanups = if s.point = .cleaned then 1 else 0)
  | cleaned (main : s.main = .cleanEvent ∨ s.main = .eventsCleaned)
      (word : s.sState = kDisableEvent)
      (stop : s.fStopRequested = false) (point : s.point.Quiet) (left : s.sListenerSocket = [])
      (cleanups : s.cleanups = 1)
  | joining (main : s.main = .joining) (word : s.sState = kDisableEvent)
      (stop : s.fStopRequested = true) (point : s.point.Quiet ∨ s.point = .exited)
      (left : s.sListenerSocket = []) (cleanups : s.cleanups = 1)
  | stopped (main : s.main = .released ∨ s.main = .stopped) (word : s.sState = kDisableEvent)
      (point : s.point = .exited) (left : s.sListenerSocket = []) (cleanups : s.cleanups = 1)

/-- The main thread waits for the event thread to clear a bit. -/
def Waits (s : State L) : Prop :=
  s.main = .killListener ∧ s.sState.has kKillListener ∨
    s.main = .cleanEvent ∧ s.sState.has kCleanEvent

/-- The listeners are told first, each once, then new events are disabled and the contexts
cleaned up, then the event thread ends, and the event layer after it. -/
structure Orderly (listeners : List L) (s : State L) : Prop where
  told : s.told ++ s.sListenerSocket = listeners
  killed : s.main ≠ .serving → s.main ≠ .killListener → s.told = listeners
  disabled : 0 < s.cleanups →
    s.told = listeners ∧ s.cleanups = 1 ∧ s.sState.has kDisableEvent = true
  cleaned : s.fStopRequested = true → s.cleanups = 1
  stopped : s.main = .stopped → s.point = .exited
  /-- A bit is toggled only to be cleared. -/
  toggles : (s.point = .killed → s.sState.has kKillListener = true) ∧
    (s.point = .cleaned → s.sState.has kCleanEvent = true)
  /-- The event thread goes on while the main thread waits, ... -/
  goesOn : Waits s → ∀ gDataMap entries, (next s (.event gDataMap entries)).isSome
  /-- ... and the wait ends after so many steps of it. -/
  returns : ∀ as s', (system listeners).Exec s as s' → s'.main = s.main → Waits s' →
    as.countP Action.IsEvent ≤ s.sListenerSocket.length + 6

structure Inv (listeners : List L) (s : State L) : Prop where
  codes : Codes s
  told : s.told ++ s.sListenerSocket = listeners
  stage : Stage s

/-- A bound on the steps that the event thread takes until it clears a bit. -/
def turnsLeft (s : State L) : Nat :=
  match s.point with
  | .killed | .cleaned | .exited => 0
  | .cleaning => 1
  | .testClean => 2
  | .killing => s.sListenerSocket.length + 1
  | .testKill => s.sListenerSocket.length + 3
  | .testStop => s.sListenerSocket.length + 4
  | .waiting => s.sListenerSocket.length + 5
  | .top => s.sListenerSocket.length + 6

/-! ## Steps of the event thread -/

/-- What the two threads share stays as it is. -/
structure Kept (s s' : State L) : Prop where
  main : s'.main = s.main
  word : s'.sState = s.sState
  stop : s'.fStopRequested = s.fStopRequested
  left : s'.sListenerSocket = s.sListenerSocket
  told : s'.told = s.told
  cleanups : s'.cleanups = s.cleanups

theorem kept_endTurn (h : s.endTurn = some s') : Kept s s' ∧ s'.point = .top := by
  obtain ⟨-, rfl⟩ | ⟨-, rfl⟩ := endTurn_cases h <;> exact ⟨⟨rfl, rfl, rfl, rfl, rfl, rfl⟩, rfl⟩

theorem kept_setErr (h : s.setErr = some s') : Kept s s' ∧ s'.point = .top := by
  obtain ⟨h, hpoint⟩ := kept_endTurn h
  exact ⟨⟨h.main, h.word, h.stop, h.left, h.told, h.cleanups⟩, hpoint⟩

variable {gDataMap : Fd → Option Nat} {entries : Batch}

/-- Until it sees a bit, the event thread goes around its loop. -/
theorem quiet_next (hquiet : s.point.Quiet) (hstep : eventStep s gDataMap entries = some s') :
    Kept s s' ∧
      (s.point = .top ∧ s'.point = (if s.fStopRequested then .exited else .waiting) ∨
        s.point = .waiting ∧ s'.point = .testStop ∨
        s.point = .testStop ∧ s'.point = if s.sState.has sStopState then .testKill else .top) := by
  obtain hpoint | hpoint | hpoint := hquiet <;> simp only [eventStep, hpoint] at hstep
  · cases hstep
    exact ⟨⟨rfl, rfl, rfl, rfl, rfl, rfl⟩, .inl ⟨hpoint, rfl⟩⟩
  · cases hstep
    exact ⟨⟨rfl, rfl, rfl, rfl, rfl, rfl⟩, .inr (.inl ⟨hpoint, rfl⟩)⟩
  · split_ifs at hstep with hbits
    · cases hstep
      exact ⟨⟨rfl, rfl, rfl, rfl, rfl, rfl⟩, .inr (.inr ⟨hpoint, (if_pos hbits).symm⟩)⟩
    · obtain ⟨hkept, htop⟩ := kept_setErr hstep
      exact ⟨hkept, .inr (.inr ⟨hpoint, htop.trans (if_neg hbits).symm⟩)⟩

/-- No bit is set, and none is seen. -/
theorem quiet_of_clear (hquiet : s.point.Quiet) (hword : s.sState.has sStopState = false)
    (hstop : s.fStopRequested = false) (hstep : eventStep s gDataMap entries = some s') :
    Kept s s' ∧ s'.point.Quiet := by
  obtain ⟨hkept, h⟩ := quiet_next hquiet hstep
  refine ⟨hkept, ?_⟩
  obtain ⟨-, h⟩ | ⟨-, h⟩ | ⟨-, h⟩ := h <;> rw [h]
  · rw [hstop]
    exact .inr (.inl rfl)
  · exact .inr (.inr rfl)
  · rw [hword]
    exact .inl rfl

/-- A bit is set, and is going to be seen. -/
theorem quiet_of_set (hquiet : s.point.Quiet) (hword : s.sState.has sStopState = true)
    (hstop : s.fStopRequested = false) (hstep : eventStep s gDataMap entries = some s') :
    Kept s s' ∧ (s'.point.Quiet ∨ s'.point = .testKill) ∧ turnsLeft s' < turnsLeft s := by
  obtain ⟨hkept, h⟩ := quiet_next hquiet hstep
  rw [turnsLeft, turnsLeft, hkept.left]
  rw [hword, hstop] at h
  obtain ⟨hpoint, hpoint'⟩ | ⟨hpoint, hpoint'⟩ | ⟨hpoint, hpoint'⟩ := h <;>
    rw [hpoint, hpoint'] <;> refine ⟨hkept, ?_, Nat.lt_succ_self _⟩
  · exact .inl (.inr (.inl rfl))
  · exact .inl (.inr (.inr rfl))
  · exact .inr rfl

/-- What a step of the event thread does: it goes on towards clearing the bit that is set, if one
is. -/
structure Goes (s s' : State L) : Prop where
  told : s'.told ++ s'.sListenerSocket = s.told ++ s.sListenerSocket
  main : s'.main = s.main
  stage : Stage s'
  turns : Waits s' → Waits s ∧ turnsLeft s' < turnsLeft s

/-- What `kKillListener` asks for: the listeners are told one after the other, and then the bit is
cleared. -/
theorem killing_next (hmain : s.main = .killListener) (hword : s.sState = kKillListener)
    (hstop : s.fStopRequested = false) (hpoint : s.point.OnKill)
    (hleft : s.point = .killed → s.sListenerSocket = []) (hcleanups : s.cleanups = 0)
    (hstep : eventStep s gDataMap entries = some s') :
    Goes s s' := by
  have hwaits : Waits s := .inl ⟨hmain, by rw [hword]; rfl⟩
  obtain hquiet | hpoint | hpoint | hpoint := hpoint
  · obtain ⟨hkept, hpoint, hlt⟩ := quiet_of_set hquiet (by rw [hword]; rfl) hstop hstep
    refine ⟨by rw [hkept.told, hkept.left], hkept.main, ?_, fun _ => ⟨hwaits, hlt⟩⟩
    refine .killing (hkept.main.trans hmain) (hkept.word.trans hword) (hkept.stop.trans hstop) ?_ ?_
      (hkept.cleanups.trans hcleanups)
    · exact hpoint.imp_right .inl
    · intro hkilled
      rw [hkilled] at hpoint
      simp [EventPoint.Quiet] at hpoint
  · have hkill : s.sState.has kKillListener = true := by
      rw [hword]
      rfl
    simp only [eventStep, hpoint, hkill, if_true, Option.some.injEq] at hstep
    subst hstep
    refine ⟨rfl, rfl, .killing hmain hword hstop (.inr (.inr (.inl rfl))) ?_ hcleanups,
      fun _ => ⟨hwaits, ?_⟩⟩
    · intro hkilled
      cases hkilled
    · simp [turnsLeft, hpoint]
  · simp only [eventStep, hpoint] at hstep
    cases hlist : s.sListenerSocket with
    | nil =>
      simp only [hlist, Option.some.injEq] at hstep
      subst hstep
      refine ⟨by simp [hlist], rfl,
        .killing hmain hword hstop (.inr (.inr (.inr rfl))) (fun _ => rfl) hcleanups,
        fun _ => ⟨hwaits, ?_⟩⟩
      simp [turnsLeft, hpoint]
    | cons listener rest =>
      simp only [hlist, Option.some.injEq] at hstep
      subst hstep
      refine ⟨by simp [hlist], rfl,
        .killing hmain hword hstop (.inr (.inr (.inl rfl))) ?_ hcleanups,
        fun _ => ⟨hwaits, ?_⟩⟩
      · intro hkilled
        cases hkilled
      · simp [turnsLeft, hpoint, hlist]
  · simp only [eventStep, hpoint] at hstep
    obtain ⟨hkept, htop⟩ := kept_endTurn hstep
    have hclear : s'.sState = 0 := by
      rw [hkept.word, State.toggle, hword]
      rfl
    refine ⟨by rw [hkept.told, hkept.left]; rfl, hkept.main, ?_, fun h => absurd h ?_⟩
    · exact .killed (.inl (hkept.main.trans hmain)) hclear (hkept.stop.trans hstop) (.inl htop)
        (hkept.left.trans (hleft hpoint)) (hkept.cleanups.trans hcleanups)
    · simp [Waits, hclear, Bits.has]

/-- What `kCleanEvent` asks for: all contexts are cleaned up once, and then the bit is cleared. -/
theorem cleaning_next (hmain : s.main = .cleanEvent)
    (hword : s.sState = kDisableEvent ||| kCleanEvent) (hstop : s.fStopRequested = false)
    (hpoint : s.point.OnClean) (hleft : s.sListenerSocket = [])
    (hcleanups : s.cleanups = if s.point = .cleaned then 1 else 0)
    (hstep : eventStep s gDataMap entries = some s') :
    Goes s s' := by
  have hwaits : Waits s := .inr ⟨hmain, by rw [hword]; rfl⟩
  obtain hquiet | hpoint | hpoint | hpoint | hpoint := hpoint
  · obtain ⟨hkept, hpoint, hlt⟩ := quiet_of_set hquiet (by rw [hword]; rfl) hstop hstep
    have hnot {point : EventPoint} (h : point.Quiet ∨ point = .testKill) : point ≠ .cleaned := by
      rintro rfl
      simp [EventPoint.Quiet] at h
    refine ⟨by rw [hkept.told, hkept.left], hkept.main, ?_, fun _ => ⟨hwaits, hlt⟩⟩
    refine .cleaning (hkept.main.trans hmain) (hkept.word.trans hword) (hkept.stop.trans hstop)
      (hpoint.imp_right .inl) (hkept.left.trans hleft) ?_
    rw [hkept.cleanups, hcleanups, if_neg (hnot (.inl hquiet)), if_neg (hnot hpoint)]
  · have hkill : s.sState.has kKillListener = false := by
      rw [hword]
      rfl
    simp only [eventStep, hpoint, hkill, Bool.false_eq_true, if_false, Option.some.injEq] at hstep
    subst hstep
    refine ⟨rfl, rfl, .cleaning hmain hword hstop (.inr (.inr (.inl rfl))) hleft ?_,
      fun _ => ⟨hwaits, ?_⟩⟩
    · simpa [hpoint] using hcleanups
    · simp [turnsLeft, hpoint]
  · have hclean : s.sState.has kCleanEvent = true := by
      rw [hword]
      rfl
    simp only [eventStep, hpoint, hclean, if_true, Option.some.injEq] at hstep
    subst hstep
    refine ⟨rfl, rfl, .cleaning hmain hword hstop (.inr (.inr (.inr (.inl rfl)))) hleft ?_,
      fun _ => ⟨hwaits, ?_⟩⟩
    · simpa [hpoint] using hcleanups
    · simp [turnsLeft, hpoint]
  · simp only [eventStep, hpoint, Option.some.injEq] at hstep
    subst hstep
    refine ⟨rfl, rfl, .cleaning hmain hword hstop (.inr (.inr (.inr (.inr rfl)))) hleft ?_,
      fun _ => ⟨hwaits, ?_⟩⟩
    · simpa [hpoint] using hcleanups
    · simp [turnsLeft, hpoint]
  · simp only [eventStep, hpoint] at hstep
    obtain ⟨hkept, htop⟩ := kept_endTurn hstep
    have hclear : s'.sState = kDisableEvent := by
      rw [hkept.word, State.toggle, hword]
      rfl
    have hone : s.cleanups = 1 := by simpa [hpoint] using hcleanups
    refine ⟨by rw [hkept.told, hkept.left]; rfl, hkept.main, ?_, fun h => absurd h ?_⟩
    · exact .cleaned (.inl (hkept.main.trans hmain)) hclear (hkept.stop.trans hstop) (.inl htop)
        (hkept.left.trans hleft) (hkept.cleanups.trans hone)
    · simp [Waits, hclear, Bits.has, kDisableEvent, kKillListener, kCleanEvent]

/-- No bit is set, and the event thread goes around its loop. -/
theorem calm_next (hpoint : s.point.Quiet) (hstop : s.fStopRequested = false)
    (hword : s.sState.has kKillListener = false ∧ s.sState.has kCleanEvent = false)
    (hbits : s.sState.has sStopState = false) (hstep : eventStep s gDataMap entries = some s')
    (hstage : Kept s s' → s'.point.Quiet → Stage s') : Goes s s' := by
  obtain ⟨hkept, hquiet⟩ := quiet_of_clear hpoint hbits hstop hstep
  refine ⟨by rw [hkept.told, hkept.left], hkept.main, hstage hkept hquiet, fun hwaits => ?_⟩
  simp [Waits, hkept.word, hword.1, hword.2] at hwaits

/-- What one step of the event thread does. -/
theorem event_next (h : Stage s) (hstep : eventStep s gDataMap entries = some s') : Goes s s' := by
  cases h with
  | serving hmain hword hstop hpoint hcleanups =>
    refine calm_next hpoint hstop (by rw [hword]; exact ⟨rfl, rfl⟩) (by rw [hword]; rfl) hstep ?_
    intro hkept hquiet
    exact .serving (hkept.main.trans hmain) (hkept.word.trans hword) (hkept.stop.trans hstop) hquiet
      (hkept.cleanups.trans hcleanups)
  | killing hmain hword hstop hpoint hleft hcleanups =>
    exact killing_next hmain hword hstop hpoint hleft hcleanups hstep
  | killed hmain hword hstop hpoint hleft hcleanups =>
    refine calm_next hpoint hstop (by rw [hword]; exact ⟨rfl, rfl⟩) (by rw [hword]; rfl) hstep ?_
    intro hkept hquiet
    exact .killed (by rwa [hkept.main]) (hkept.word.trans hword) (hkept.stop.trans hstop) hquiet
      (hkept.left.trans hleft) (hkept.cleanups.trans hcleanups)
  | disabled hmain hword hstop hpoint hleft hcleanups =>
    refine calm_next hpoint hstop (by rw [hword]; exact ⟨rfl, rfl⟩) (by rw [hword]; rfl) hstep ?_
    intro hkept hquiet
    exact .disabled (hkept.main.trans hmain) (hkept.word.trans hword) (hkept.stop.trans hstop)
      hquiet (hkept.left.trans hleft) (hkept.cleanups.trans hcleanups)
  | cleaning hmain hword hstop hpoint hleft hcleanups =>
    exact cleaning_next hmain hword hstop hpoint hleft hcleanups hstep
  | cleaned hmain hword hstop hpoint hleft hcleanups =>
    refine calm_next hpoint hstop (by rw [hword]; exact ⟨rfl, rfl⟩) (by rw [hword]; rfl) hstep ?_
    intro hkept hquiet
    exact .cleaned (by rwa [hkept.main]) (hkept.word.trans hword) (hkept.stop.trans hstop) hquiet
      (hkept.left.trans hleft) (hkept.cleanups.trans hcleanups)
  | joining hmain hword hstop hpoint hleft hcleanups =>
    obtain hquiet | hpoint := hpoint
    · have hbits : s.sState.has sStopState = false := by
        rw [hword]
        rfl
      obtain ⟨hkept, hnext⟩ := quiet_next hquiet hstep
      refine ⟨by rw [hkept.told, hkept.left], hkept.main, ?_, fun hwaits => ?_⟩
      · refine .joining (hkept.main.trans hmain) (hkept.word.trans hword)
          (hkept.stop.trans hstop) ?_
          (hkept.left.trans hleft) (hkept.cleanups.trans hcleanups)
        obtain ⟨-, h⟩ | ⟨-, h⟩ | ⟨-, h⟩ := hnext <;> rw [h]
        · rw [hstop]
          exact .inr rfl
        · exact .inl (.inr (.inr rfl))
        · rw [hbits]
          exact .inl (.inl rfl)
      · simp [Waits, hkept.main, hmain] at hwaits
    · simp [eventStep, hpoint] at hstep
  | stopped hmain hword hpoint hleft hcleanups => simp [eventStep, hpoint] at hstep

/-! ## Steps of the main thread -/

theorem EventPoint.Quiet.ne (h : s.point.Quiet) : s.point ≠ .killed ∧ s.point ≠ .cleaned := by
  constructor <;> intro hpoint <;> rw [hpoint] at h <;> simp [EventPoint.Quiet] at h

/-- The order of the points. -/
def MainPoint.order : MainPoint → Nat
  | .serving => 0
  | .killListener => 1
  | .listenersKilled => 2
  | .eventsDisabled => 3
  | .cleanEvent => 4
  | .eventsCleaned => 5
  | .joining => 6
  | .released => 7
  | .stopped => 8

/-- The main thread goes on to the next point, unless it waits. -/
theorem mainStep_order (h : mainStep s = some s') :
    s' = s ∧ Waits s ∨ s'.main.order = s.main.order + 1 := by
  cases hmain : s.main <;> simp only [mainStep, hmain] at h
  case killListener =>
    split_ifs at h with hbit <;> cases h
    · exact .inl ⟨rfl, .inl ⟨hmain, hbit⟩⟩
    · exact .inr rfl
  case cleanEvent =>
    split_ifs at h with hbit <;> cases h
    · exact .inl ⟨rfl, .inr ⟨hmain, hbit⟩⟩
    · exact .inr rfl
  case joining =>
    split_ifs at h
    cases h
    exact .inr rfl
  case stopped => cases h
  all_goals
    cases h
    exact .inr rfl

/-- What one step of the main thread does. -/
theorem main_next (h : Stage s) (hstep : mainStep s = some s') : Stage s' := by
  cases h with
  | serving hmain hword hstop hpoint hcleanups =>
    simp only [mainStep, hmain, hword, Option.some.injEq] at hstep
    subst hstep
    exact .killing rfl rfl hstop (.inl hpoint) (fun h => absurd h hpoint.ne.1) hcleanups
  | killing hmain hword hstop hpoint hleft hcleanups =>
    have hbit : s.sState.has kKillListener = true := by
      rw [hword]
      rfl
    simp only [mainStep, hmain, hbit, if_true, Option.some.injEq] at hstep
    subst hstep
    exact .killing hmain hword hstop hpoint hleft hcleanups
  | killed hmain hword hstop hpoint hleft hcleanups =>
    have hbit : s.sState.has kKillListener = false := by
      rw [hword]
      rfl
    obtain hmain | hmain := hmain
    · simp only [mainStep, hmain, hbit, Bool.false_eq_true, if_false, Option.some.injEq] at hstep
      subst hstep
      exact .killed (.inr rfl) hword hstop hpoint hleft hcleanups
    · simp only [mainStep, hmain, hword, Option.some.injEq] at hstep
      subst hstep
      exact .disabled rfl rfl hstop hpoint hleft hcleanups
  | disabled hmain hword hstop hpoint hleft hcleanups =>
    simp only [mainStep, hmain, hword, Option.some.injEq] at hstep
    subst hstep
    exact .cleaning rfl rfl hstop (.inl hpoint) hleft (hcleanups.trans (if_neg hpoint.ne.2).symm)
  | cleaning hmain hword hstop hpoint hleft hcleanups =>
    have hbit : s.sState.has kCleanEvent = true := by
      rw [hword]
      rfl
    simp only [mainStep, hmain, hbit, if_true, Option.some.injEq] at hstep
    subst hstep
    exact .cleaning hmain hword hstop hpoint hleft hcleanups
  | cleaned hmain hword hstop hpoint hleft hcleanups =>
    have hbit : s.sState.has kCleanEvent = false := by
      rw [hword]
      rfl
    obtain hmain | hmain := hmain
    · simp only [mainStep, hmain, hbit, Bool.false_eq_true, if_false, Option.some.injEq] at hstep
      subst hstep
      exact .cleaned (.inr rfl) hword hstop hpoint hleft hcleanups
    · simp only [mainStep, hmain, Option.some.injEq] at hstep
      subst hstep
      exact .joining rfl hword rfl (.inl hpoint) hleft hcleanups
  | joining hmain hword hstop hpoint hleft hcleanups =>
    simp only [mainStep, hmain, Option.ite_none_right_eq_some, Option.some.injEq] at hstep
    obtain ⟨hexited, rfl⟩ := hstep
    exact .stopped (.inl rfl) hword hexited hleft hcleanups
  | stopped hmain hword hpoint hleft hcleanups =>
    obtain hmain | hmain := hmain <;>
      simp only [mainStep, hmain, Option.some.injEq, reduceCtorEq] at hstep
    subst hstep
    exact .stopped (.inr rfl) hword hpoint hleft hcleanups

/-! ## Runs -/

theorem Inv.next (h : Inv listeners s) (hstep : next s a = some s') : Inv listeners s' := by
  have hcodes := h.codes.next hstep
  cases a with
  | main =>
    obtain ⟨_, _, _, hframe⟩ := mainStep_frame hstep
    refine ⟨hcodes, ?_, main_next h.stage hstep⟩
    rw [hframe]
    exact h.told
  | event gDataMap entries =>
    have hgoes := event_next h.stage hstep
    exact ⟨hcodes, hgoes.told.trans h.told, hgoes.stage⟩

theorem Started.inv (h : Started listeners s) : Inv listeners s := by
  obtain ⟨wait, rfl⟩ := h
  exact ⟨⟨.inl rfl, .inl rfl⟩, rfl, .serving rfl rfl rfl (.inl rfl) rfl⟩

/-- One step, by either thread: the points of the main thread are passed in their order, and if
it still waits at the same one the event thread has come closer to clearing the bit. -/
theorem next_turns (h : Inv listeners s) (hstep : next s a = some s') :
    s.main.order ≤ s'.main.order ∧
      (s'.main.order = s.main.order → Waits s' →
        Waits s ∧ turnsLeft s' + [a].countP Action.IsEvent ≤ turnsLeft s) := by
  cases a with
  | main =>
    obtain ⟨rfl, -⟩ | horder := mainStep_order hstep
    · exact ⟨Nat.le_refl _, fun _ hwaits => ⟨hwaits, Nat.le_refl _⟩⟩
    · refine ⟨by omega, fun heq => ?_⟩
      omega
  | event gDataMap entries =>
    have hgoes := event_next h.stage hstep
    exact ⟨Nat.le_of_eq (by rw [hgoes.main]), fun _ => hgoes.turns⟩

theorem exec_turns {as : List Action} (hexec : (system listeners).Exec s as s')
    (h : Inv listeners s) :
    s.main.order ≤ s'.main.order ∧
      (s'.main.order = s.main.order → Waits s' →
        Waits s ∧ turnsLeft s' + as.countP Action.IsEvent ≤ turnsLeft s) := by
  induction hexec with
  | nil s => exact ⟨Nat.le_refl _, fun _ hwaits => ⟨hwaits, Nat.le_refl _⟩⟩
  | @cons s a t as u hstep hexec ih =>
    obtain ⟨hle, hturns⟩ := next_turns h hstep
    obtain ⟨hle', hturns'⟩ := ih (h.next hstep)
    refine ⟨Nat.le_trans hle hle', fun heq hwaits => ?_⟩
    obtain ⟨hwaits', hcount'⟩ := hturns' (by omega) hwaits
    obtain ⟨hwaits'', hcount⟩ := hturns (by omega) hwaits'
    refine ⟨hwaits'', ?_⟩
    rw [← List.singleton_append, List.countP_append]
    omega

theorem endTurn_isSome (h : s.theErr = 0 ∨ s.theErr = EINTR) : s.endTurn.isSome := by
  unfold State.endTurn
  by_cases hintr : s.theErr = EINTR
  · rw [if_pos hintr]
    rfl
  · rw [if_neg hintr, if_pos (h.resolve_right hintr)]
    rfl

/-- Only a thread that has ended takes no step. -/
theorem eventStep_isSome (hcodes : Codes s) (hpoint : s.point ≠ .exited) :
    (eventStep s gDataMap entries).isSome := by
  have hset : s.setErr.isSome := endTurn_isSome (s := { s with theErr := _ }) hcodes.ret
  have htoggle (state : Bits) : (s.toggle state).endTurn.isSome :=
    endTurn_isSome (s := s.toggle state) hcodes.err
  unfold eventStep
  split <;> (try split) <;> simp_all

theorem Stage.point_ne_exited (h : Stage s) (hwaits : Waits s) : s.point ≠ .exited := by
  intro hexited
  cases h with
  | serving _ _ _ hpoint _ | killed _ _ _ hpoint _ _ | disabled _ _ _ hpoint _ _
  | cleaned _ _ _ hpoint _ _ =>
    rw [hexited] at hpoint
    simp [EventPoint.Quiet] at hpoint
  | killing _ _ _ hpoint _ _ =>
    rw [hexited] at hpoint
    simp [EventPoint.OnKill, EventPoint.Quiet] at hpoint
  | cleaning _ _ _ hpoint _ _ =>
    rw [hexited] at hpoint
    simp [EventPoint.OnClean, EventPoint.Quiet] at hpoint
  | joining hmain _ _ _ _ _ => simp [Waits, hmain] at hwaits
  | stopped hmain _ _ _ _ => obtain hmain | hmain := hmain <;> simp [Waits, hmain] at hwaits

/-- From `WaitProcessState(kKillListener)` on there are no listeners left to be told. -/
theorem Stage.left_nil (h : Stage s) (hserving : s.main ≠ .serving)
    (hkill : s.main = .killListener → s.sState.has kKillListener = false) :
    s.sListenerSocket = [] := by
  cases h with
  | serving hmain _ _ _ _ => exact absurd hmain hserving
  | killing hmain hword _ _ _ _ =>
    have hclear := hkill hmain
    rw [hword] at hclear
    cases hclear
  | killed _ _ _ _ hleft _ | disabled _ _ _ _ hleft _ | cleaning _ _ _ _ hleft _
  | cleaned _ _ _ _ hleft _ | joining _ _ _ _ hleft _ | stopped _ _ _ hleft _ => exact hleft

theorem Stage.orderly_cleanups (h : Stage s) (hpos : 0 < s.cleanups) :
    s.sListenerSocket = [] ∧ s.cleanups = 1 ∧ s.sState.has kDisableEvent = true := by
  cases h with
  | serving _ _ _ _ hcleanups | killing _ _ _ _ _ hcleanups | killed _ _ _ _ _ hcleanups
  | disabled _ _ _ _ _ hcleanups => omega
  | cleaning _ hword _ _ hleft hcleanups =>
    split_ifs at hcleanups
    · exact ⟨hleft, hcleanups, by rw [hword]; rfl⟩
    · omega
  | cleaned _ hword _ _ hleft hcleanups | joining _ hword _ _ hleft hcleanups
  | stopped _ hword _ hleft hcleanups => exact ⟨hleft, hcleanups, by rw [hword]; rfl⟩

theorem Stage.stop (h : Stage s) (hstop : s.fStopRequested = true) : s.cleanups = 1 := by
  cases h with
  | serving _ _ hnot _ _ | killing _ _ hnot _ _ _ | killed _ _ hnot _ _ _ | disabled _ _ hnot _ _ _
  | cleaning _ _ hnot _ _ _ => simp [hnot] at hstop
  | cleaned _ _ _ _ _ hcleanups | joining _ _ _ _ _ hcleanups | stopped _ _ _ _ hcleanups =>
    exact hcleanups

theorem Stage.toggles (h : Stage s) :
    (s.point = .killed → s.sState.has kKillListener = true) ∧
      (s.point = .cleaned → s.sState.has kCleanEvent = true) := by
  cases h with
  | serving _ _ _ hpoint _ | killed _ _ _ hpoint _ _ | disabled _ _ _ hpoint _ _
  | cleaned _ _ _ hpoint _ _ =>
    exact ⟨fun hnot => absurd hnot hpoint.ne.1, fun hnot => absurd hnot hpoint.ne.2⟩
  | killing _ hword _ hpoint _ _ =>
    refine ⟨fun _ => by rw [hword]; rfl, fun hnot => ?_⟩
    rw [hnot] at hpoint
    simp [EventPoint.OnKill, EventPoint.Quiet] at hpoint
  | cleaning _ hword _ hpoint _ _ =>
    refine ⟨fun hnot => ?_, fun _ => by rw [hword]; rfl⟩
    rw [hnot] at hpoint
    simp [EventPoint.OnClean, EventPoint.Quiet] at hpoint
  | joining _ _ _ hpoint _ _ =>
    obtain hpoint | hpoint := hpoint
    · exact ⟨fun hnot => absurd hnot hpoint.ne.1, fun hnot => absurd hnot hpoint.ne.2⟩
    · simp [hpoint]
  | stopped _ _ hpoint _ _ => simp [hpoint]

theorem turnsLeft_le (s : State L) : turnsLeft s ≤ s.sListenerSocket.length + 6 := by
  unfold turnsLeft
  split <;> omega

theorem Inv.orderly (h : Inv listeners s) : Orderly listeners s where
  told := h.told
  killed hserving hkill := by
    rw [← h.told, h.stage.left_nil hserving fun hmain => absurd hmain hkill, List.append_nil]
  disabled hpos := by
    obtain ⟨hleft, hone, hbit⟩ := h.stage.orderly_cleanups hpos
    exact ⟨by rw [← h.told, hleft, List.append_nil], hone, hbit⟩
  cleaned := h.stage.stop
  stopped hmain := by
    cases h.stage <;> simp_all
  toggles := h.stage.toggles
  goesOn hwaits gDataMap entries := eventStep_isSome h.codes (h.stage.point_ne_exited hwaits)
  returns as s' hexec hmain hwaits := by
    obtain ⟨-, hcount⟩ := (exec_turns hexec h).2 (by rw [hmain]) hwaits
    exact Nat.le_trans (Nat.le_trans (Nat.le_add_left _ _) hcount) (turnsLeft_le s)

/-- The end of the server is orderly in every run, whatever the listeners and the events. -/
theorem orderly_of_reachable (h : (system listeners).Reachable s) : Orderly listeners s :=
  (h.invariant (Inv listeners) (fun _ (hstarted : Started listeners _) => hstarted.inv)
    (fun _ _ _ hinv hstep => hinv.next hstep)).orderly

/-- The end of a server with one listener. -/
theorem orderly_of_reachable_exit :
    ∃ s, exitSteps.foldlM next { sListenerSocket := [5], wait := startWait } = some s ∧
      s.main = .stopped ∧ Orderly [5] s := by
  obtain ⟨s, hs⟩ := Option.isSome_iff_exists.mp
    (show (exitSteps.foldlM next { sListenerSocket := [5], wait := startWait }).isSome by decide)
  have hmain : ∀ s ∈ exitSteps.foldlM next { sListenerSocket := [5], wait := startWait },
      s.main = .stopped := by decide
  exact ⟨s, hs, hmain s hs,
    orderly_of_reachable (System.reachable_ofPartial exitSteps ⟨startWait, rfl⟩ hs)⟩

end CxxFramework.Net.EventLoop
