import CxxFramework.Library.Transition
import CxxFramework.Socket.Epoll
import Mathlib.Tactic.SplitIfs

/-!
# The loop of the event thread, and its end

`EventThread::Entry` waits for events and handles them, one after the other. The main thread stops
it in steps, through the bits of `sState`: it sets a bit and waits until the event thread has
cleared it. A turn of the loop that does what a bit asks for goes back to the test of `theErr`
without the assignment, so what happens to the event of that turn depends on an earlier one.

The main thread and the event thread take their steps in any order, each one access to what they
share. What `epoll_wait` stores is an input.

## Main definitions

* `EventLoop.eventStep`, `EventLoop.mainStep` — the steps of the two threads.
* `EventLoop.Delivered` — the events that the waits have handed over are handled, each once.
* `EventLoop.Ok` — the condition on the turns that do what a bit asks for.
-/

namespace CxxFramework.Net.EventLoop

open Transition

/-! ## `CFState` -/

def kKillListener : Bits := 0x01
def kDisableEvent : Bits := 0x02
def kCleanEvent : Bits := 0x04

def sStopState : Bits := kKillListener ||| kCleanEvent

/-- Where the event thread is. -/
inductive EventPoint where
  /-- In front of `IsStopRequested`. -/
  | top
  /-- In `select_waitevent`. -/
  | waiting
  /-- In front of the tests of `sState` for `sStopState`, `kKillListener` and `kCleanEvent`. -/
  | testStop
  | testKill
  | testClean
  /-- In the loop over `sListenerSocket`, and behind it. -/
  | killing
  | killed
  /-- In front of the loop over the reference table, and behind it. -/
  | cleaning
  | cleaned
  | exited
deriving DecidableEq, Repr

/-- Where the main thread is: in its service, or in a step of its exit. -/
inductive MainPoint where
  | serving
  /-- In `WaitProcessState(kKillListener)`, and behind it. -/
  | killListener
  | listenersKilled
  | eventsDisabled
  /-- In `WaitProcessState(kCleanEvent)`, and behind it. -/
  | cleanEvent
  | eventsCleaned
  /-- In `Socket::Release`, in front of `select_stopevents`, and behind it. -/
  | joining
  | released
  | stopped
deriving DecidableEq, Repr

/-- The two threads, and what they share. `L` are the listeners. The events of contexts that the
waits have handed over and that have been handled, the listeners that have been told to stop, and
the times that all contexts have been cleaned up, are recorded. -/
structure State (L : Type) where
  sState : Bits := 0
  sListenerSocket : List L
  fStopRequested : Bool := false
  main : MainPoint := .serving
  point : EventPoint := .top
  wait : WaitState
  theCurrentEvent : Eventreq := {}
  theReturnValue : Int := 0
  theErr : Int := 0
  taken : List Eventreq := []
  handled : List Eventreq := []
  told : List L := []
  cleanups : Nat := 0

inductive Action where
  | main
  /-- A step of the event thread. If it is `epoll_waitevent`, and that comes to `epoll_wait`, this
  stores `entries`. -/
  | event (gDataMap : Fd → Option Nat) (entries : Batch)

def Action.IsEvent : Action → Bool
  | .main => false
  | .event _ _ => true

variable {L : Type} {s s' : State L} {a : Action} {listeners : List L}

/-- `sState ^= state` -/
def State.toggle (s : State L) (state : Bits) : State L := { s with sState := s.sState ^^^ state }

/-- The end of a turn, from the test of `theErr` on; none if the assertion behind the loop
fails. -/
def State.endTurn (s : State L) : Option (State L) :=
  if s.theErr = EINTR then some { s with point := .top }
  else if s.theErr = 0 then
    some
      { s with
        handled :=
          if s.theCurrentEvent.erData ≠ 0 then s.handled ++ [s.theCurrentEvent] else s.handled
        point := .top }
  else none

/-- A turn that has found no bit set. `select_waitevent` never returns a negative number. -/
def State.setErr (s : State L) : Option (State L) :=
  { s with theErr := s.theReturnValue }.endTurn

/-- A step of `EventThread::Entry`. -/
def eventStep (s : State L) (gDataMap : Fd → Option Nat) (entries : Batch) : Option (State L) :=
  match s.point with
  | .top => some { s with point := if s.fStopRequested then .exited else .waiting }
  | .waiting =>
    let r := selectWaitevent s.wait gDataMap s.theCurrentEvent [entries]
    some
      { s with
        wait := r.wait
        theCurrentEvent := r.req
        theReturnValue := r.ret
        taken := if r.ret = 0 ∧ r.req.erData ≠ 0 then s.taken ++ [r.req] else s.taken
        point := .testStop }
  | .testStop => if s.sState.has sStopState then some { s with point := .testKill } else s.setErr
  | .testKill =>
    some { s with point := if s.sState.has kKillListener then .killing else .testClean }
  | .killing =>
    match s.sListenerSocket with
    | [] => some { s with point := .killed }
    | listener :: rest =>
      some { s with sListenerSocket := rest, told := s.told ++ [listener] }
  | .killed => (s.toggle kKillListener).endTurn
  | .testClean => if s.sState.has kCleanEvent then some { s with point := .cleaning } else s.setErr
  | .cleaning => some { s with cleanups := s.cleanups + 1, point := .cleaned }
  | .cleaned => (s.toggle kCleanEvent).endTurn
  | .exited => none

/-- A step of `CFMain` from the end of its service on; none as long as it waits for the event
thread to end. -/
def mainStep (s : State L) : Option (State L) :=
  match s.main with
  | .serving => some { s with sState := s.sState ||| kKillListener, main := .killListener }
  | .killListener =>
    some (if s.sState.has kKillListener then s else { s with main := .listenersKilled })
  | .listenersKilled =>
      some { s with sState := s.sState ||| kDisableEvent, main := .eventsDisabled }
  | .eventsDisabled => some { s with sState := s.sState ||| kCleanEvent, main := .cleanEvent }
  | .cleanEvent => some (if s.sState.has kCleanEvent then s else { s with main := .eventsCleaned })
  | .eventsCleaned => some { s with fStopRequested := true, main := .joining }
  | .joining => if s.point = .exited then some { s with main := .released } else none
  | .released => some { s with main := .stopped }
  | .stopped => none

def next (s : State L) : Action → Option (State L)
  | .main => mainStep s
  | .event gDataMap entries => eventStep s gDataMap entries

/-- The server is in service, with `listeners`, and the event thread has just started. -/
def Started (listeners : List L) (s : State L) : Prop :=
  ∃ wait, s = { sListenerSocket := listeners, wait }

def system (listeners : List L) : System (State L) Action := .ofPartial (Started listeners) next

/-! ## The events -/

/-- Between two turns of the loop. -/
def EventPoint.AtRest : EventPoint → Prop
  | .top | .waiting | .exited => True
  | _ => False

/-- Between two turns, the events that the waits have handed over are handled, each once. -/
def Delivered (s : State L) : Prop := s.point.AtRest → s.handled = s.taken

/-- A turn that does what a bit asks for has waited as the last turn without one: both have got
an event, or both have not. Or the last event is that of no context. -/
def Ok (s : State L) : Action → Prop
  | .main => True
  | .event _ _ => s.point = .killed ∨ s.point = .cleaned →
    s.theErr = s.theReturnValue ∨ s.theCurrentEvent.erData = 0

/-- The two values are return values of `select_waitevent`. -/
structure Codes (s : State L) : Prop where
  err : s.theErr = 0 ∨ s.theErr = EINTR
  ret : s.theReturnValue = 0 ∨ s.theReturnValue = EINTR

/-- In a turn whose wait has got an event, this is the last one, and not handled yet. -/
def InTurn (s : State L) : Prop :=
  s.taken = s.handled ++
    if s.theReturnValue = 0 ∧ s.theCurrentEvent.erData ≠ 0 then [s.theCurrentEvent] else []

structure Tracks (s : State L) : Prop extends Codes s where
  rest : s.point.AtRest → s.handled = s.taken
  turn : ¬ s.point.AtRest → InTurn s

/-- What the end of a turn does. -/
theorem endTurn_cases (h : s.endTurn = some s') :
    s.theErr = EINTR ∧ s' = { s with point := .top } ∨
      s.theErr = 0 ∧
        s' =
          { s with
            handled :=
              if s.theCurrentEvent.erData ≠ 0 then s.handled ++ [s.theCurrentEvent] else s.handled
            point := .top } := by
  unfold State.endTurn at h
  by_cases hintr : s.theErr = EINTR
  · rw [if_pos hintr] at h
    exact .inl ⟨hintr, (Option.some.inj h).symm⟩
  · rw [if_neg hintr, Option.ite_none_right_eq_some] at h
    exact .inr ⟨h.1, (Option.some.inj h.2).symm⟩

/-- What a step of the main thread does: it leaves the event thread alone. -/
theorem mainStep_frame (h : mainStep s = some s') :
    ∃ sState main fStopRequested, s' = { s with sState, main, fStopRequested } := by
  unfold mainStep at h
  split at h <;> (try split_ifs at h) <;> simp only [Option.some.injEq, reduceCtorEq] at h
  all_goals exact ⟨_, _, _, h.symm⟩

theorem Codes.endTurn (h : Codes s) (hend : s.endTurn = some s') : Codes s' := by
  obtain ⟨-, rfl⟩ | ⟨-, rfl⟩ := endTurn_cases hend <;> exact ⟨h.err, h.ret⟩

theorem Codes.setErr (h : Codes s) (hend : s.setErr = some s') : Codes s' :=
  Codes.endTurn (s := { s with theErr := s.theReturnValue }) ⟨h.ret, h.ret⟩ hend

theorem selectWaitevent_ret (wait : WaitState) (gDataMap : Fd → Option Nat) (req : Eventreq)
    (batches : List Batch) :
    (selectWaitevent wait gDataMap req batches).ret = 0 ∨
      (selectWaitevent wait gDataMap req batches).ret = EINTR := by
  unfold selectWaitevent
  split
  · exact .inl rfl
  · exact .inr rfl

theorem Codes.next (h : Codes s) (hstep : next s a = some s') : Codes s' := by
  cases a with
  | main =>
    obtain ⟨_, _, _, rfl⟩ := mainStep_frame hstep
    exact ⟨h.err, h.ret⟩
  | event gDataMap entries =>
    cases hpoint : s.point <;> simp only [EventLoop.next, eventStep, hpoint] at hstep
    case top | testKill | cleaning =>
      cases hstep
      exact ⟨h.err, h.ret⟩
    case waiting =>
      cases hstep
      exact ⟨h.err, selectWaitevent_ret ..⟩
    case testStop | testClean =>
      split_ifs at hstep
      · cases hstep
        exact ⟨h.err, h.ret⟩
      · exact h.setErr hstep
    case killing => split at hstep <;> cases hstep <;> exact ⟨h.err, h.ret⟩
    case killed | cleaned => exact Codes.endTurn (s := s.toggle _) ⟨h.err, h.ret⟩ hstep
    case exited => cases hstep

/-- A turn handles its event if the test of `theErr` finds what its wait has returned, and only
then. -/
theorem endTurn_handled (hcodes : Codes s) (hturn : InTurn s) (hend : s.endTurn = some s') :
    s'.point = .top ∧
      (s'.handled = s'.taken ↔
        s.theErr = s.theReturnValue ∨ s.theCurrentEvent.erData = 0) := by
  have hne : EINTR ≠ 0 := by decide
  unfold InTurn at hturn
  obtain ⟨herr, rfl⟩ | ⟨herr, rfl⟩ := endTurn_cases hend <;> refine ⟨rfl, ?_⟩ <;>
    obtain hret | hret := hcodes.ret <;> by_cases hdata : s.theCurrentEvent.erData = 0 <;>
    simp [herr, hret, hturn, hne, hne.symm, hdata]

/-- The end of a turn in which the wait has returned what `theErr` says. -/
theorem tracks_endTurn (hcodes : Codes s) (hturn : InTurn s) (hend : s.endTurn = some s')
    (heq : s.theErr = s.theReturnValue ∨ s.theCurrentEvent.erData = 0) : Tracks s' := by
  obtain ⟨hpoint, hhandled⟩ := endTurn_handled hcodes hturn hend
  refine ⟨hcodes.endTurn hend, fun _ => hhandled.mpr heq, fun hnot => ?_⟩
  rw [hpoint] at hnot
  exact absurd trivial hnot

theorem Tracks.setErr (h : Tracks s) (hpoint : ¬ s.point.AtRest) (hend : s.setErr = some s') :
    Tracks s' :=
  tracks_endTurn (s := { s with theErr := s.theReturnValue }) ⟨h.ret, h.ret⟩ (h.turn hpoint) hend
    (.inl rfl)

/-- What one step does: it handles the event of a turn that ends. -/
theorem Tracks.next (h : Tracks s) (hstep : next s a = some s') (hok : Ok s a) : Tracks s' := by
  have hcodes := h.toCodes.next hstep
  cases a with
  | main =>
    obtain ⟨_, _, _, rfl⟩ := mainStep_frame hstep
    exact ⟨hcodes, h.rest, h.turn⟩
  | event gDataMap entries =>
    have hrest := h.rest
    have hturn := h.turn
    cases hpoint : s.point <;> simp only [EventLoop.next, eventStep, hpoint] at hstep <;>
      rw [hpoint] at hrest hturn
    case top =>
      cases hstep
      have hpoint' (stop : Bool) : (if stop then EventPoint.exited else .waiting).AtRest := by
        cases stop <;> trivial
      exact ⟨hcodes, fun _ => hrest trivial, fun hnot => absurd (hpoint' _) hnot⟩
    case waiting =>
      cases hstep
      refine ⟨hcodes, False.elim, fun _ => ?_⟩
      simp only [InTurn, hrest trivial]
      split_ifs <;> simp
    case testStop | testClean =>
      split_ifs at hstep
      · cases hstep
        exact ⟨hcodes, False.elim, fun _ => hturn id⟩
      · exact h.setErr (by rw [hpoint]; exact id) hstep
    case testKill =>
      cases hstep
      have hpoint' (kill : Bool) : ¬ (if kill then EventPoint.killing else .testClean).AtRest := by
        cases kill <;> exact id
      exact ⟨hcodes, fun hrest => absurd hrest (hpoint' _), fun _ => hturn id⟩
    case killing =>
      split at hstep <;> cases hstep
      · exact ⟨hcodes, False.elim, fun _ => hturn id⟩
      · refine ⟨hcodes, fun hrest => ?_, fun _ => hturn id⟩
        simp only at hrest
        exact hrest.elim
    case killed =>
      exact tracks_endTurn (s := s.toggle _) ⟨h.err, h.ret⟩ (hturn id) hstep (hok (.inl hpoint))
    case cleaning =>
      cases hstep
      exact ⟨hcodes, False.elim, fun _ => hturn id⟩
    case cleaned =>
      exact tracks_endTurn (s := s.toggle _) ⟨h.err, h.ret⟩ (hturn id) hstep (hok (.inr hpoint))
    case exited => cases hstep

/-- A turn that does what a bit asks for loses its event otherwise, or handles an old one. -/
theorem Tracks.ok (h : Tracks s) (hstep : EventLoop.next s a = some s')
    (hdelivered : Delivered s') :
    Ok s a := by
  cases a with
  | main => trivial
  | event gDataMap entries =>
    have hend (state : Bits) (hrest : ¬ s.point.AtRest)
        (hend : (s.toggle state).endTurn = some s') :
        s.theErr = s.theReturnValue ∨ s.theCurrentEvent.erData = 0 := by
      obtain ⟨hpoint, hhandled⟩ :=
        endTurn_handled (s := s.toggle state) ⟨h.err, h.ret⟩ (h.turn hrest) hend
      refine hhandled.mp (hdelivered ?_)
      rw [hpoint]
      trivial
    rintro (hpoint | hpoint)
    · have hrest : ¬ s.point.AtRest := by rw [hpoint]; exact id
      simp only [EventLoop.next, eventStep, hpoint] at hstep
      exact hend _ hrest hstep
    · have hrest : ¬ s.point.AtRest := by rw [hpoint]; exact id
      simp only [EventLoop.next, eventStep, hpoint] at hstep
      exact hend _ hrest hstep

theorem Started.tracks (h : Started listeners s) : Tracks s := by
  obtain ⟨wait, rfl⟩ := h
  exact ⟨⟨.inl rfl, .inl rfl⟩, fun _ => rfl, fun hnot => absurd trivial hnot⟩

/-- The events that the waits hand over are handled in their order, each once: if and only if
each turn that does what a bit asks for has waited as the last turn without one, unless the event
is that of no context. -/
theorem eventsDelivered_iff (hstarted : Started listeners s) (as : List Action) :
    (system listeners).Keeps (fun _ _ s' => Delivered s') s as ↔
      (system listeners).Meets Ok s as := by
  refine System.keeps_iff_meets Tracks ?_ ?_ hstarted.tracks as
  · intro s a s' h hstep hok
    have htracks := h.next hstep hok
    exact ⟨htracks.rest, htracks⟩
  · intro s a s' h hstep hdelivered
    exact h.ok hstep hdelivered

/-- The array of events before the first wait. -/
def startWait : WaitState := ⟨fun _ => ⟨0, 0⟩, 0, 0⟩

instance (s : State L) : (a : Action) → Decidable (Ok s a)
  | .main => inferInstanceAs (Decidable True)
  | .event _ _ => inferInstanceAs (Decidable (_ → _))

/-- Steps of the event thread. Each wait gets an event of the same context. -/
def eventSteps (n : Nat) : List Action :=
  List.replicate n (.event (fun _ => some 7) ⟨[⟨3, EPOLLIN⟩], Nat.le_of_ble_eq_true rfl⟩)

/-- An event is handled. Then the main thread has a listener told and all contexts cleaned up, and
stops the event thread. -/
def exitSteps : List Action :=
  eventSteps 3 ++ [.main] ++ eventSteps 7 ++ [.main, .main, .main] ++ eventSteps 7 ++
    [.main, .main] ++ eventSteps 1 ++ [.main, .main]

/-- The events of the turns that do what the main thread asks for are handled too. -/
theorem eventsDelivered_iff_exit :
    (system [5]).Keeps (fun _ _ s' => Delivered s') { sListenerSocket := [5], wait := startWait }
      exitSteps :=
  (eventsDelivered_iff ⟨startWait, rfl⟩ exitSteps).mpr (by unfold system; decide)

end CxxFramework.Net.EventLoop
