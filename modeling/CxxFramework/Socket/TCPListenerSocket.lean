import CxxFramework.Socket.EventContext
import CxxFramework.Socket.Socket
import CxxFramework.Thread.Task

/-!
# The listener

`TCPListenerSocket::ProcessEvent` accepts a connection, gets a session task for it from
`GetSessionTask`, gives the descriptor to the socket of the session and arms that. If `accept`
fails, it returns or ends the program for three error numbers. For all others it goes on as if
there were a descriptor: the session gets the descriptor `-1`.

What `accept` and `GetSessionTask` do is an input. The calls on a descriptor that `accept` has
returned succeed, those on `-1` fail, and so do the assertions about them.

## Main definitions

* `TCPListenerSocket.processEvent` — what `ProcessEvent` does.
* `TCPListenerSocket.system` — accepts one after the other, and sessions that end.
* `TCPListenerSocket.Serves` — each descriptor gets one session, a failed accept gets none.
* `TCPListenerSocket.Handled` — the accepts for which that is so.
-/

namespace CxxFramework.Net

open Transition

def ENFILE : OS_Error := 23
def EMFILE : OS_Error := 24

def EV_REOS : Bits := EV_RE ||| EV_OS

/-- The `TCPSocket` of a session, and the task of the session once it has been set. -/
structure SessionSocket where
  ctx : EventContext := { fFileDesc := kInvalidFileDesc }
  /-- The bits `kBound` and `kConnected` of `fState`. -/
  bound : Bool := false
  connected : Bool := false
  fRemoteAddr : UInt32 × UInt16 := (0, 0)
  /-- Whether the task of the session is set, with the picker it has then. -/
  fTask : Option Thread.Picker := none
deriving DecidableEq, Repr

/-- `TCPSocket::Set`, without the local address -/
def SessionSocket.set (s : SessionSocket) (inSocket : Fd) (remoteaddr : UInt32 × UInt16) :
    SessionSocket :=
  let s := { s with fRemoteAddr := remoteaddr, ctx := { s.ctx with fFileDesc := inSocket } }
  if inSocket ≠ kInvalidFileDesc then { s with bound := true, connected := true }
  else { s with bound := false, connected := false }

/-- A program runs, has called `exit`, or was stopped by an assertion. -/
inductive Program where
  | running
  | exited
  | aborted
deriving DecidableEq, Repr

/-- The listener with the sessions, the event layer, and the identifiers in the reference table
of the event thread. With an `AssertLogger` the program goes on after an assertion fails. -/
structure TCPListenerSocket where
  ctx : EventContext
  fOutOfDescriptors : Bool := false
  fSleepBetweenAccepts : Bool := false
  idleTimer : Option Int := none
  sessions : List SessionSocket := []
  epoll : Epoll
  fRefTable : List Nat := []
  disableEvent : Bool := false
  assertLogger : Bool := false
  program : Program := .running

/-- What `accept` returns. -/
inductive Accepted where
  | descriptor (osSocket : Fd)
  | failed (acceptError : OS_Error)
deriving DecidableEq, Repr

/-- An accept: what the call returns and leaves in `addr`; whether `GetSessionTask` returns a new
task, which socket it returns if it does not, and what it makes of `fSleepBetweenAccepts`; and
the identifier for a session that is armed. -/
structure Accept where
  accepted : Accepted
  addr : UInt32 × UInt16 := (0, 0)
  givesTask : Bool := true
  theSocket : Option Nat := none
  fSleepBetweenAccepts : Bool := false
  newID : Nat
deriving DecidableEq, Repr

inductive ListenerAction where
  | processEvent (a : Accept)
  | ended (session : Nat)
deriving DecidableEq, Repr

namespace TCPListenerSocket

def kTimeBetweenAcceptsInMsec : Int := 1000

/-- `RequestEvent` on a context of the program -/
def requestEvent (l : TCPListenerSocket) (ctx : EventContext) (theMask : Bits) (newID : Nat) :
    EventWorld :=
  EventContext.requestEvent
    { epoll := l.epoll, ctx, fRefTable := l.fRefTable, disableEvent := l.disableEvent }
    theMask newID

/-- The branch of `ProcessEvent` without a task. The `close` is left out: nobody watches the
descriptor yet. -/
def disconnect (l : TCPListenerSocket) (theSocket : Option Nat) : TCPListenerSocket :=
  match theSocket with
  | none => l
  | some i => { l with sessions := l.sessions.modify i fun s => { s with connected := false } }

/-- The branch of `ProcessEvent` with a task. -/
def startSession (l : TCPListenerSocket) (osSocket : Fd) (a : Accept) : TCPListenerSocket :=
  if osSocket = kInvalidFileDesc ∧ !l.assertLogger then { l with program := .aborted }
  else
    let theSocket := SessionSocket.set {} osSocket a.addr
    let theSocket := { theSocket with fTask := some .sBlockingTaskThreadPicker }
    let requested := l.requestEvent theSocket.ctx EV_REOS a.newID
    { l with
      sessions := l.sessions ++ [{ theSocket with ctx := requested.ctx }]
      epoll := requested.epoll
      fRefTable := requested.fRefTable }

/-- The end of `ProcessEvent`. -/
def sleep (l : TCPListenerSocket) : TCPListenerSocket :=
  let l :=
    if l.fSleepBetweenAccepts then
      { l with
        epoll := (l.requestEvent l.ctx EV_RM 0).epoll
        idleTimer := some kTimeBetweenAcceptsInMsec }
    else l
  { l with fOutOfDescriptors := false }

/-- `ProcessEvent` from the call of `GetSessionTask` on. -/
def serve (l : TCPListenerSocket) (osSocket : Fd) (a : Accept) : TCPListenerSocket :=
  let l := { l with fSleepBetweenAccepts := a.fSleepBetweenAccepts }
  let l := if a.givesTask then l.startSession osSocket a else l.disconnect a.theSocket
  if l.program = .running then l.sleep else l

/-- `TCPListenerSocket::ProcessEvent` -/
def processEvent (l : TCPListenerSocket) (a : Accept) : TCPListenerSocket :=
  match a.accepted with
  | .descriptor osSocket => l.serve osSocket a
  | .failed acceptError =>
    if acceptError = EAGAIN then l
    else if acceptError = EMFILE ∨ acceptError = ENFILE then { l with program := .exited }
    else l.serve kInvalidFileDesc a

/-- A session ends: its descriptor is closed, and the kernel drops its interest in it. -/
def sessionEnded (l : TCPListenerSocket) (i : Nat) (s : SessionSocket) : TCPListenerSocket :=
  { l with
    sessions := l.sessions.eraseIdx i
    epoll.interest := Function.update l.epoll.interest s.ctx.fFileDesc none
    fRefTable := l.fRefTable.erase s.ctx.fUniqueID }

/-- A descriptor that `accept` returns is not open anywhere else. -/
def Accepted.Possible (l : TCPListenerSocket) : Accepted → Prop
  | .descriptor osSocket => osSocket ≠ kInvalidFileDesc ∧ osSocket ≠ l.ctx.fFileDesc ∧
    l.epoll.interest osSocket = none
  | .failed _ => True

instance (l : TCPListenerSocket) : (accepted : Accepted) → Decidable (Accepted.Possible l accepted)
  | .descriptor _ => inferInstanceAs (Decidable (_ ∧ _ ∧ _))
  | .failed _ => inferInstanceAs (Decidable True)

def next (l : TCPListenerSocket) : ListenerAction → Option TCPListenerSocket
  | .processEvent a =>
    if l.program = .running ∧ Accepted.Possible l a.accepted ∧ a.newID ∉ l.fRefTable then
      some (l.processEvent a)
    else none
  | .ended i => if l.program = .running then l.sessions[i]?.map (l.sessionEnded i) else none

/-- A listener that is open, in a program without sessions, events being enabled. -/
structure Fresh (l : TCPListenerSocket) : Prop where
  opened : l.ctx.fFileDesc ≠ kInvalidFileDesc
  enabled : l.disableEvent = false
  sessions : l.sessions = []
  program : l.program = .running

abbrev system : System TCPListenerSocket ListenerAction := .ofPartial Fresh next

/-- The session of a descriptor has a task and is connected, and it is registered for the next
time that there is something to read. -/
structure Armed (l : TCPListenerSocket) (s : SessionSocket) (osSocket : Fd) : Prop where
  fFileDesc : s.ctx.fFileDesc = osSocket
  fTask : s.fTask = some .sBlockingTaskThreadPicker
  connected : s.connected = true
  interest : l.epoll.interest osSocket = some (interestOf EV_REOS).events
  gDataMap : l.epoll.gDataMap osSocket = some s.ctx.fUniqueID
  fRefTable : s.ctx.fUniqueID ∈ l.fRefTable

/-- An accept adds one session for a descriptor, which is armed; if it fails it adds none. It
registers nothing else, and does not stop at an assertion. -/
def ServesAccept (l : TCPListenerSocket) (accepted : Accepted) (l' : TCPListenerSocket) : Prop :=
  l'.program ≠ .aborted ∧
    match accepted with
    | .descriptor osSocket =>
      (∃ s, l'.sessions = l.sessions ++ [s] ∧ l'.Armed s osSocket) ∧
        ∀ fd, fd ≠ osSocket → fd ≠ l.ctx.fFileDesc → l'.epoll.interest fd = l.epoll.interest fd
    | .failed _ => l'.sessions.map SessionSocket.ctx = l.sessions.map SessionSocket.ctx ∧
      l'.fRefTable = l.fRefTable ∧
        ∀ fd, fd ≠ l.ctx.fFileDesc → l'.epoll.interest fd = l.epoll.interest fd

/-- No session has an invalid descriptor, and each accept is served. -/
def Serves (l : TCPListenerSocket) (a : ListenerAction) (l' : TCPListenerSocket) : Prop :=
  (∀ s ∈ l'.sessions, s.ctx.fFileDesc ≠ kInvalidFileDesc) ∧
    match a with
    | .processEvent a => ServesAccept l a.accepted l'
    | .ended _ => True

/-- `GetSessionTask` gives a task for a descriptor, and `accept` fails only with an error number
for which `ProcessEvent` returns or exits, or `GetSessionTask` gives no task then. -/
def Handled (_ : TCPListenerSocket) : ListenerAction → Prop
  | .processEvent a =>
    match a.accepted with
    | .descriptor _ => a.givesTask = true
    | .failed acceptError => acceptError = EAGAIN ∨ acceptError = EMFILE ∨ acceptError = ENFILE ∨
      a.givesTask = false
  | .ended _ => True

variable {l l' : TCPListenerSocket} {a : Accept} {fd osSocket : Fd}

/-! ## The parts of `ProcessEvent` -/

/-- The listener is open, events are enabled, and every session has a descriptor. -/
structure Good (l : TCPListenerSocket) : Prop where
  opened : l.ctx.fFileDesc ≠ kInvalidFileDesc
  enabled : l.disableEvent = false
  valid : ∀ s ∈ l.sessions, s.ctx.fFileDesc ≠ kInvalidFileDesc

/-- A part of `ProcessEvent` leaves the listener as it is. -/
structure SameListener (l l' : TCPListenerSocket) : Prop where
  ctx : l'.ctx = l.ctx
  disableEvent : l'.disableEvent = l.disableEvent
  program : l'.program = l.program

theorem SameListener.trans {l'' : TCPListenerSocket} (h : SameListener l l')
    (h' : SameListener l' l'') : SameListener l l'' :=
  ⟨h'.ctx.trans h.ctx, h'.disableEvent.trans h.disableEvent, h'.program.trans h.program⟩

theorem sleep_listener (l : TCPListenerSocket) : SameListener l l.sleep := by
  unfold sleep
  split_ifs <;> exact ⟨rfl, rfl, rfl⟩

@[simp] theorem sleep_sessions (l : TCPListenerSocket) : l.sleep.sessions = l.sessions := by
  unfold sleep
  split_ifs <;> rfl

@[simp] theorem sleep_fRefTable (l : TCPListenerSocket) : l.sleep.fRefTable = l.fRefTable := by
  unfold sleep
  split_ifs <;> rfl

/-- Slowing down touches no registration but that of the listener. -/
theorem sleep_epoll (l : TCPListenerSocket) (hfd : fd ≠ l.ctx.fFileDesc) :
    l.sleep.epoll.interest fd = l.epoll.interest fd ∧
      l.sleep.epoll.gDataMap fd = l.epoll.gDataMap fd := by
  unfold sleep
  split_ifs
  · have hrm : EV_RM.has EV_RM = true := by decide
    simp only [requestEvent, EventContext.requestEvent, hrm, if_true]
    split_ifs
    · exact ⟨rfl, rfl⟩
    · unfold selectRemoveevent Epoll.ctlDel
      split_ifs <;> simp [hfd]
    · exact ⟨rfl, rfl⟩
  · exact ⟨rfl, rfl⟩

theorem disconnect_spec (l : TCPListenerSocket) (theSocket : Option Nat) :
    SameListener l (l.disconnect theSocket) ∧
      (l.disconnect theSocket).sessions.map SessionSocket.ctx = l.sessions.map SessionSocket.ctx ∧
      (l.disconnect theSocket).fRefTable = l.fRefTable ∧
      (l.disconnect theSocket).epoll = l.epoll := by
  unfold disconnect
  cases theSocket with
  | none => exact ⟨⟨rfl, rfl, rfl⟩, rfl, rfl, rfl⟩
  | some i =>
    refine ⟨⟨rfl, rfl, rfl⟩, ?_, rfl, rfl⟩
    apply List.ext_getElem?
    intro j
    simp only [List.getElem?_map, List.getElem?_modify]
    cases l.sessions[j]? with
    | none => rfl
    | some s => by_cases hij : i = j <;> simp [hij]

/-- The first request of a context watches its descriptor. -/
theorem requestEvent_first (henabled : l.disableEvent = false) {ctx : EventContext}
    (hctx : ctx = { fFileDesc := osSocket }) (hfd : osSocket ≠ kInvalidFileDesc) (newID : Nat) :
    l.requestEvent ctx EV_REOS newID =
      let fEventReq : Eventreq := ⟨osSocket, newID, EV_REOS⟩
      { epoll := (selectWatchevent l.epoll fEventReq EV_REOS).2
        ctx := { ctx with fEventReq, fUniqueID := newID, fWatchEventCalled := true }
        fRefTable := newID :: l.fRefTable
        disableEvent := l.disableEvent } := by
  have hrm : EV_REOS.has EV_RM = false := by decide
  subst hctx
  simp [requestEvent, EventContext.requestEvent, EventContext.watchMask, henabled, hrm, hfd]

theorem selectWatchevent_new {e : Epoll} {req : Eventreq} {which : Bits}
    (hfree : e.interest req.erHandle = none) :
    (selectWatchevent e req which).2 =
      { interest := Function.update e.interest req.erHandle (some (interestOf which).events)
        gDataMap := Function.update e.gDataMap req.erHandle (some req.erData) } := by
  simp only [selectWatchevent, selectModwatch0, Epoll.ctl, hfree, watchEvents_eq]

/-- A new session on a descriptor is armed, and nothing else is registered. -/
theorem startSession_spec (henabled : l.disableEvent = false) (hfd : osSocket ≠ kInvalidFileDesc)
    (hfree : l.epoll.interest osSocket = none) (a : Accept) :
    SameListener l (l.startSession osSocket a) ∧
      (∃ s, (l.startSession osSocket a).sessions = l.sessions ++ [s] ∧
        (l.startSession osSocket a).Armed s osSocket) ∧
      ∀ fd, fd ≠ osSocket →
        (l.startSession osSocket a).epoll.interest fd = l.epoll.interest fd := by
  have hset : (SessionSocket.set {} osSocket a.addr).ctx = { fFileDesc := osSocket } := by
    unfold SessionSocket.set
    rw [if_pos hfd]
  have hconnected : (SessionSocket.set {} osSocket a.addr).connected = true := by
    unfold SessionSocket.set
    rw [if_pos hfd]
  have hreq := requestEvent_first henabled hset hfd a.newID
  have hwatch : (selectWatchevent l.epoll ⟨osSocket, a.newID, EV_REOS⟩ EV_REOS).2 = _ :=
    selectWatchevent_new hfree
  dsimp only [startSession]
  rw [if_neg fun h => hfd h.1, hreq]
  refine ⟨⟨rfl, rfl, rfl⟩, ⟨_, rfl, ?_, rfl, hconnected, ?_, ?_, ?_⟩, ?_⟩
  · rw [hset]
  · simp [hwatch]
  · simp [hwatch]
  · simp
  · intro fd hne
    simp [hwatch, hne]

/-! ## Steps -/

theorem serve_of_task (h : Good l) (hrunning : l.program = .running)
    (hpossible : Accepted.Possible l (.descriptor osSocket)) (htask : a.givesTask = true) :
    ServesAccept l (.descriptor osSocket) (l.serve osSocket a) ∧ Good (l.serve osSocket a) := by
  obtain ⟨hfd, hother, hfree⟩ := hpossible
  obtain ⟨hsame, ⟨s, hsessions, harmed⟩, hrest⟩ := startSession_spec
    (l := { l with fSleepBetweenAccepts := a.fSleepBetweenAccepts }) h.enabled hfd hfree a
  have hserve : l.serve osSocket a =
      (startSession { l with fSleepBetweenAccepts := a.fSleepBetweenAccepts } osSocket
        a).sleep := by
    simp only [serve, htask, if_true]
    rw [if_pos (hsame.program.trans hrunning)]
  rw [hserve]
  generalize startSession { l with fSleepBetweenAccepts := a.fSleepBetweenAccepts } osSocket a = m
    at hsame hsessions harmed hrest
  obtain ⟨hctx, hdisable, hprogram⟩ := hsame.trans (sleep_listener m)
  have hlistener : m.ctx.fFileDesc = l.ctx.fFileDesc := congrArg EventContext.fFileDesc hsame.ctx
  obtain ⟨hinterest, hdata⟩ := sleep_epoll m (hlistener ▸ hother)
  refine ⟨⟨?_, ⟨s, by rw [sleep_sessions, hsessions], ?_⟩, ?_⟩, ?_, ?_, ?_⟩
  · rw [hprogram]
    simp [hrunning]
  · refine ⟨harmed.fFileDesc, harmed.fTask, harmed.connected, hinterest.trans harmed.interest,
      hdata.trans harmed.gDataMap, ?_⟩
    rw [sleep_fRefTable]
    exact harmed.fRefTable
  · intro fd hne hne'
    exact (sleep_epoll m (hlistener ▸ hne')).1.trans (hrest fd hne)
  · rw [hctx]
    exact h.opened
  · exact hdisable.trans h.enabled
  · rw [sleep_sessions, hsessions]
    intro s' hs'
    rcases List.mem_append.mp hs' with hs' | hs'
    · exact h.valid s' hs'
    · rw [List.mem_singleton.mp hs', harmed.fFileDesc]
      exact hfd

/-- Without a task no session comes, and nothing is registered. -/
theorem serve_of_noTask (h : Good l) (hrunning : l.program = .running) (htask : a.givesTask = false)
    (osSocket : Fd) (errno : OS_Error) :
    ServesAccept l (.failed errno) (l.serve osSocket a) ∧ Good (l.serve osSocket a) := by
  obtain ⟨hsame, hsessions, hrefs, hepoll⟩ :=
    disconnect_spec { l with fSleepBetweenAccepts := a.fSleepBetweenAccepts } a.theSocket
  have hserve : l.serve osSocket a =
      (disconnect { l with fSleepBetweenAccepts := a.fSleepBetweenAccepts } a.theSocket).sleep := by
    simp only [serve, htask, Bool.false_eq_true, if_false]
    rw [if_pos (hsame.program.trans hrunning)]
  rw [hserve]
  generalize disconnect { l with fSleepBetweenAccepts := a.fSleepBetweenAccepts } a.theSocket = m
    at hsame hsessions hrefs hepoll
  obtain ⟨hctx, hdisable, hprogram⟩ := hsame.trans (sleep_listener m)
  have hlistener : m.ctx.fFileDesc = l.ctx.fFileDesc := congrArg EventContext.fFileDesc hsame.ctx
  refine ⟨⟨?_, ?_, ?_, ?_⟩, ?_, ?_, ?_⟩
  · rw [hprogram]
    simp [hrunning]
  · rw [sleep_sessions, hsessions]
  · rw [sleep_fRefTable, hrefs]
  · intro fd hne
    rw [(sleep_epoll m (hlistener ▸ hne)).1, hepoll]
  · rw [hctx]
    exact h.opened
  · exact hdisable.trans h.enabled
  · rw [sleep_sessions]
    intro s hs
    obtain ⟨s', hs', heq⟩ := List.mem_map.mp (hsessions ▸ List.mem_map_of_mem hs)
    rw [← heq]
    exact h.valid s' hs'

theorem requestEvent_fFileDesc (l : TCPListenerSocket) (ctx : EventContext) (theMask : Bits)
    (newID : Nat) : (l.requestEvent ctx theMask newID).ctx.fFileDesc = ctx.fFileDesc := by
  dsimp only [requestEvent, EventContext.requestEvent]
  split_ifs <;> rfl

/-- A session for an accept that failed has no descriptor, unless an assertion stops the
program. -/
theorem serve_of_failed (hrunning : l.program = .running) (htask : a.givesTask = true) :
    (l.serve kInvalidFileDesc a).program = .aborted ∨
      ∃ s ∈ (l.serve kInvalidFileDesc a).sessions, s.ctx.fFileDesc = kInvalidFileDesc := by
  simp only [serve, htask, if_true, startSession, true_and]
  cases hlogger : l.assertLogger with
  | false => simp
  | true =>
    refine .inr ?_
    simp only [Bool.not_true, Bool.false_eq_true, if_false, hrunning, if_true, sleep_sessions]
    exact ⟨_, List.mem_append_right _ (List.mem_singleton.mpr rfl), requestEvent_fFileDesc ..⟩

theorem not_serves_of_failed (hrunning : l.program = .running) (htask : a.givesTask = true)
    (action : Accept) :
    ¬ Serves l (.processEvent action) (l.serve kInvalidFileDesc a) := by
  rintro ⟨hvalid, hprogram, -⟩
  rcases serve_of_failed hrunning htask with haborted | ⟨s, hs, hinvalid⟩
  · exact hprogram haborted
  · exact hvalid s hs hinvalid

/-- A step serves its accept exactly if the accept is handled. -/
theorem processEvent_spec (h : Good l) (hrunning : l.program = .running)
    (hpossible : Accepted.Possible l a.accepted) :
    (Serves l (.processEvent a) (l.processEvent a) ↔ Handled l (.processEvent a)) ∧
      (Handled l (.processEvent a) → Good (l.processEvent a)) := by
  suffices hcases : Serves l (.processEvent a) (l.processEvent a) ∧ Good (l.processEvent a) ∧
        Handled l (.processEvent a) ∨
      ¬ Serves l (.processEvent a) (l.processEvent a) ∧ ¬ Handled l (.processEvent a) by
    grind
  simp only [Serves, Handled, processEvent]
  cases haccept : a.accepted with
  | descriptor osSocket =>
    rw [haccept] at hpossible
    cases htask : a.givesTask with
    | true =>
      obtain ⟨hserves, hgood⟩ := serve_of_task h hrunning hpossible htask
      exact .inl ⟨⟨hgood.valid, hserves⟩, hgood, rfl⟩
    | false =>
      obtain ⟨⟨-, hsessions, -⟩, -⟩ := serve_of_noTask h hrunning htask osSocket 0
      refine .inr ⟨?_, by simp⟩
      rintro ⟨-, -, ⟨s, hs, -⟩, -⟩
      have hlength := congrArg List.length hsessions
      simp [hs] at hlength
  | failed acceptError =>
    dsimp only
    by_cases hagain : acceptError = EAGAIN
    · rw [if_pos hagain]
      refine .inl ⟨⟨h.valid, ?_, rfl, rfl, fun _ _ => rfl⟩, h, .inl hagain⟩
      simp [hrunning]
    · rw [if_neg hagain]
      by_cases hfiles : acceptError = EMFILE ∨ acceptError = ENFILE
      · rw [if_pos hfiles]
        refine .inl ⟨⟨h.valid, nofun, rfl, rfl, fun _ _ => rfl⟩, ⟨h.opened, h.enabled, h.valid⟩, ?_⟩
        exact .inr (or_assoc.mp (.inl hfiles))
      · rw [if_neg hfiles]
        cases htask : a.givesTask with
        | true =>
          refine .inr ⟨?_, ?_⟩
          · have hnot := not_serves_of_failed hrunning htask a
            simpa only [Serves, haccept] using hnot
          · rintro (heq | heq | heq | heq)
            · exact hagain heq
            · exact hfiles (.inl heq)
            · exact hfiles (.inr heq)
            · cases heq
        | false =>
          obtain ⟨hserves, hgood⟩ := serve_of_noTask h hrunning htask kInvalidFileDesc acceptError
          exact .inl ⟨⟨hgood.valid, hserves⟩, hgood, .inr (.inr (.inr rfl))⟩

theorem sessionEnded_good (h : Good l) (i : Nat) (s : SessionSocket) :
    Good (l.sessionEnded i s) :=
  ⟨h.opened, h.enabled, fun s' hs' => h.valid s' (List.mem_of_mem_eraseIdx hs')⟩

theorem next_spec (h : Good l) {action : ListenerAction} (hnext : l.next action = some l') :
    (Serves l action l' ↔ Handled l action) ∧ (Handled l action → Good l') := by
  cases action with
  | processEvent a =>
    simp only [next, Option.ite_none_right_eq_some, Option.some.injEq] at hnext
    obtain ⟨⟨hrunning, hpossible, -⟩, rfl⟩ := hnext
    exact processEvent_spec h hrunning hpossible
  | ended i =>
    simp only [next, Option.ite_none_right_eq_some, Option.map_eq_some_iff] at hnext
    obtain ⟨-, s, -, rfl⟩ := hnext
    have hgood := sessionEnded_good h i s
    exact ⟨⟨fun _ => trivial, fun _ => ⟨hgood.valid, trivial⟩⟩, fun _ => hgood⟩

/-! ## Results -/

/-- In every run of accepts, each descriptor gets one session that is armed, and failed accepts get
none, exactly if `accept` fails only in a way that `ProcessEvent` handles. -/
theorem serves_iff (l : TCPListenerSocket) (fresh : Fresh l) (as : List ListenerAction) :
    system.Keeps Serves l as ↔ system.Meets Handled l as := by
  have hgood : Good l := ⟨fresh.opened, fresh.enabled, by simp [fresh.sessions]⟩
  refine System.keeps_iff_meets Good ?_ ?_ hgood as
  · intro l action l' h hnext hok
    obtain ⟨hiff, hgood⟩ := next_spec h hnext
    exact ⟨hiff.mpr hok, hgood hok⟩
  · intro l action l' h hnext hserves
    exact (next_spec h hnext).1.mp hserves

/-! ### Examples -/

/-- A listener on descriptor 5. -/
def newListener (assertLogger : Bool) : TCPListenerSocket :=
  { ctx := { fFileDesc := 5 }, epoll := ⟨fun _ => none, fun _ => none⟩, assertLogger }

theorem newListener_fresh (assertLogger : Bool) : Fresh (newListener assertLogger) :=
  ⟨(by decide : (5 : Fd) ≠ kInvalidFileDesc), rfl, rfl, rfl⟩

/-- A connection, a spurious event, and another connection. -/
def twoConnections : List ListenerAction :=
  [.processEvent { accepted := .descriptor 6, newID := 1 },
    .processEvent { accepted := .failed EAGAIN, newID := 2 },
    .processEvent { accepted := .descriptor 7, newID := 2 }]

theorem serves_iff_twoConnections :
    system.Keeps Serves (newListener true) twoConnections ↔
      system.Meets Handled (newListener true) twoConnections :=
  serves_iff (newListener true) (newListener_fresh true) twoConnections

def ECONNABORTED : OS_Error := 103

/-- The connection has been aborted in the meantime, and assertions are logged. -/
def abortedConnection : List ListenerAction :=
  [.processEvent { accepted := .failed ECONNABORTED, newID := 1 }]

theorem abortedConnection_not_serves :
    ¬ system.Keeps Serves (newListener true) abortedConnection := by
  intro keeps
  have hnext : (newListener true).next
      (.processEvent { accepted := .failed ECONNABORTED, newID := 1 }) =
      some ((newListener true).serve kInvalidFileDesc
        { accepted := .failed ECONNABORTED, newID := 1 }) := by rfl
  exact not_serves_of_failed rfl rfl _ (keeps _ hnext).1

end TCPListenerSocket

end CxxFramework.Net
