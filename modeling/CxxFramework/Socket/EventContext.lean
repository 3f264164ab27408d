import CxxFramework.Library.Transition
import CxxFramework.Socket.Epoll

/-!
# Event contexts

`EventContext::RequestEvent` arms a context: its first call watches the descriptor,
each later one modifies the watch, and a mask with `EV_RM` removes it. Whether the
descriptor is watched is remembered in `fWatchEventCalled`, apart from the kernel's
interest list. A removal leaves that flag set, so that the next call modifies a watch
that is no longer there.
-/

namespace CxxFramework.Net

open Transition

def kInvalidFileDesc : Fd := -1

structure EventContext where
  fFileDesc : Fd
  fEventReq : Eventreq := {}
  fUseETMode : Bool := false
  fUniqueID : Nat := 0
  fWatchEventCalled : Bool := false
deriving DecidableEq, Repr

/-- One context, the event layer, and the identifiers in the event thread's reference
table. `disableEvent` is the bit `kDisableEvent` of `CFState::sState`. -/
structure EventWorld where
  epoll : Epoll
  ctx : EventContext
  fRefTable : List Nat := []
  disableEvent : Bool := false

namespace EventContext

/-- The mask that `RequestEvent` passes on. -/
def watchMask (ctx : EventContext) (theMask : Bits) : Bits :=
  if ctx.fUseETMode then theMask ||| EV_ET else theMask

/-- `EventContext::RequestEvent`. `newID` is the identifier on which the allocation loop
settles, one that is not in the reference table. -/
def requestEvent (w : EventWorld) (theMask : Bits) (newID : Nat) : EventWorld :=
  if w.disableEvent then w
  else if theMask.has EV_RM then
    if w.ctx.fWatchEventCalled then
      { w with epoll := (selectRemoveevent w.epoll w.ctx.fFileDesc).2 }
    else w
  else
    let theMask := w.ctx.watchMask theMask
    if w.ctx.fWatchEventCalled then
      let fEventReq := { w.ctx.fEventReq with erEventbits := theMask }
      { w with
        ctx := { w.ctx with fEventReq }
        epoll := (selectModwatch w.epoll fEventReq theMask).2 }
    else if w.ctx.fFileDesc = kInvalidFileDesc then w
    else
      let fEventReq : Eventreq :=
        { erHandle := w.ctx.fFileDesc, erData := newID, erEventbits := theMask }
      { w with
        ctx := { w.ctx with fEventReq, fUniqueID := newID, fWatchEventCalled := true }
        fRefTable := newID :: w.fRefTable
        epoll := (selectWatchevent w.epoll fEventReq theMask).2 }

/-- The event layer takes the watch of a request, as the assertions of `RequestEvent` have
it. -/
def requestAsserts (w : EventWorld) (theMask : Bits) (newID : Nat) : Bool :=
  if w.disableEvent then true
  else if theMask.has EV_RM then true
  else
    let theMask := w.ctx.watchMask theMask
    if w.ctx.fWatchEventCalled then
      (selectModwatch w.epoll { w.ctx.fEventReq with erEventbits := theMask } theMask).1 == 0
    else if w.ctx.fFileDesc = kInvalidFileDesc then true
    else
      let fEventReq : Eventreq :=
        { erHandle := w.ctx.fFileDesc, erData := newID, erEventbits := theMask }
      (selectWatchevent w.epoll fEventReq theMask).1 == 0

/-- `EventContext::RequestEvent` with its assertions; none if one of them fails. -/
def requestEventChecked (w : EventWorld) (theMask : Bits) (newID : Nat) : Option EventWorld :=
  if requestAsserts w theMask newID then some (requestEvent w theMask newID) else none

/-- What can happen to a context: a request, an event of its descriptor, and whatever
the contexts of other descriptors do. -/
inductive Action where
  | requestEvent (theMask : Bits) (newID : Nat)
  | fired
  | other (fd : Fd) (events : Option Bits)
deriving DecidableEq, Repr

/-- The kernel drops the interest, but not the entry, of a one-shot watch that fires. -/
def disarm (events : Bits) : Bits :=
  if events.has EPOLLONESHOT then events &&& (EPOLLONESHOT ||| EPOLLET) else events

def next (w : EventWorld) : Action → Option EventWorld
  | .requestEvent theMask newID =>
    if newID ∈ w.fRefTable then none else some (requestEvent w theMask newID)
  | .fired =>
    let events := (w.epoll.interest w.ctx.fFileDesc).map disarm
    some { w with epoll.interest := Function.update w.epoll.interest w.ctx.fFileDesc events }
  | .other fd events =>
    if fd = w.ctx.fFileDesc then none
    else some { w with epoll.interest := Function.update w.epoll.interest fd events }

/-- A new context on an open descriptor that nobody watches, events being enabled. -/
def Fresh (w : EventWorld) : Prop :=
  w.ctx.fFileDesc ≠ kInvalidFileDesc ∧ w.ctx.fWatchEventCalled = false ∧
    w.epoll.interest w.ctx.fFileDesc = none ∧ w.disableEvent = false

def system : System EventWorld Action := .ofPartial Fresh next

/-- A request without `EV_RM` leaves the descriptor registered with exactly the interest
its mask stands for. -/
def Rearmed : Action → EventWorld → Prop
  | .requestEvent theMask _, w' => theMask.has EV_RM = false →
    w'.epoll.interest w'.ctx.fFileDesc = some (interestOf (w'.ctx.watchMask theMask)).events
  | _, _ => True

/-- A request without `EV_RM` does not come after a removal. -/
def NotRemoved (w : EventWorld) : Action → Prop
  | .requestEvent theMask _ => theMask.has EV_RM = false → w.ctx.fWatchEventCalled = true →
    (w.epoll.interest w.ctx.fFileDesc).isSome
  | _ => True

instance (w : EventWorld) : (a : Action) → Decidable (NotRemoved w a)
  | .requestEvent theMask _ => inferInstanceAs (Decidable (theMask.has EV_RM = false →
      w.ctx.fWatchEventCalled = true → (w.epoll.interest w.ctx.fFileDesc).isSome))
  | .fired | .other _ _ => inferInstanceAs (Decidable True)

/-- The context is enabled, and its request is for its own descriptor; a descriptor that
was never watched is not registered. -/
structure Inv (w : EventWorld) : Prop where
  opened : w.ctx.fFileDesc ≠ kInvalidFileDesc
  enabled : w.disableEvent = false
  handle : w.ctx.fWatchEventCalled = true → w.ctx.fEventReq.erHandle = w.ctx.fFileDesc
  unwatched : w.ctx.fWatchEventCalled = false → w.epoll.interest w.ctx.fFileDesc = none

theorem Fresh.inv {w : EventWorld} (h : Fresh w) : Inv w where
  opened := h.1
  enabled := h.2.2.2
  handle hw := by simp [h.2.1] at hw
  unwatched _ := h.2.2.1

theorem selectModwatch_interest (e : Epoll) (req : Eventreq) (which : Bits) :
    (selectModwatch e req which).2.interest req.erHandle =
      if (e.interest req.erHandle).isSome then some (interestOf which).events else none := by
  rw [selectModwatch, selectModwatch0_interest]
  cases e.interest req.erHandle <;> simp

theorem selectWatchevent_interest (e : Epoll) (req : Eventreq) (which : Bits)
    (h : e.interest req.erHandle = none) :
    (selectWatchevent e req which).2.interest req.erHandle = some (interestOf which).events := by
  rw [selectWatchevent, selectModwatch0_interest]
  simp [h]

/-- What a request does, by the flag and the mask. -/
theorem requestEvent_cases {w : EventWorld} (h : Inv w) (theMask : Bits) (newID : Nat) :
    (theMask.has EV_RM = true ∧ (requestEvent w theMask newID).ctx = w.ctx ∧
        (w.ctx.fWatchEventCalled = false → requestEvent w theMask newID = w)) ∨
      (theMask.has EV_RM = false ∧ w.ctx.fWatchEventCalled = true ∧
        (requestEvent w theMask newID).ctx =
          { w.ctx with
            fEventReq := { w.ctx.fEventReq with erEventbits := w.ctx.watchMask theMask } } ∧
        (requestEvent w theMask newID).epoll.interest w.ctx.fFileDesc =
          if (w.epoll.interest w.ctx.fFileDesc).isSome then
            some (interestOf (w.ctx.watchMask theMask)).events
          else none) ∨
      (theMask.has EV_RM = false ∧ w.ctx.fWatchEventCalled = false ∧
        (requestEvent w theMask newID).ctx =
          { w.ctx with
            fEventReq :=
              { erHandle := w.ctx.fFileDesc, erData := newID
                erEventbits := w.ctx.watchMask theMask }
            fUniqueID := newID
            fWatchEventCalled := true } ∧
        (requestEvent w theMask newID).epoll.interest w.ctx.fFileDesc =
          some (interestOf (w.ctx.watchMask theMask)).events) := by
  cases hrm : theMask.has EV_RM <;> cases hflag : w.ctx.fWatchEventCalled
  · refine .inr (.inr ⟨rfl, rfl, ?_⟩)
    have hadd := selectWatchevent_interest w.epoll
      { erHandle := w.ctx.fFileDesc, erData := newID, erEventbits := w.ctx.watchMask theMask }
      (w.ctx.watchMask theMask) (h.unwatched hflag)
    simp [requestEvent, h.enabled, hrm, hflag, h.opened, hadd]
  · refine .inr (.inl ⟨rfl, rfl, ?_⟩)
    have hmod := selectModwatch_interest w.epoll
      { w.ctx.fEventReq with erEventbits := w.ctx.watchMask theMask } (w.ctx.watchMask theMask)
    rw [h.handle hflag] at hmod
    simpa [requestEvent, h.enabled, hrm, hflag] using hmod
  · exact .inl (by simp [requestEvent, h.enabled, hrm, hflag])
  · exact .inl (by simp [requestEvent, h.enabled, hrm, hflag])

theorem requestEvent_disableEvent (w : EventWorld) (theMask : Bits) (newID : Nat) :
    (requestEvent w theMask newID).disableEvent = w.disableEvent := by
  dsimp only [requestEvent]
  split_ifs <;> rfl

theorem requestEvent_inv {w : EventWorld} (h : Inv w) (theMask : Bits) (newID : Nat) :
    Inv (requestEvent w theMask newID) := by
  have henabled := (requestEvent_disableEvent w theMask newID).trans h.enabled
  rcases requestEvent_cases h theMask newID with
    ⟨_, hctx, hsame⟩ | ⟨_, hflag, hctx, _⟩ | ⟨_, _, hctx, _⟩
  · refine ⟨by rw [hctx]; exact h.opened, henabled, by rw [hctx]; exact h.handle, ?_⟩
    intro hflag
    rw [hctx] at hflag
    rw [hsame hflag]
    exact h.unwatched hflag
  · refine ⟨by rw [hctx]; exact h.opened, henabled, by rw [hctx]; exact h.handle, ?_⟩
    intro hfalse
    simp [hctx, hflag] at hfalse
  · refine ⟨by rw [hctx]; exact h.opened, henabled, fun _ => by rw [hctx], ?_⟩
    intro hfalse
    simp [hctx] at hfalse

theorem next_inv {w w' : EventWorld} {a : Action} (h : Inv w) (hs : next w a = some w') :
    Inv w' := by
  cases a with
  | requestEvent theMask newID =>
    simp only [next] at hs
    split_ifs at hs
    obtain rfl := Option.some.inj hs
    exact requestEvent_inv h theMask newID
  | fired =>
    obtain rfl := Option.some.inj hs
    refine ⟨h.opened, h.enabled, h.handle, ?_⟩
    intro hflag
    simp [h.unwatched hflag]
  | other fd events =>
    simp only [next] at hs
    split_ifs at hs with hfd
    obtain rfl := Option.some.inj hs
    refine ⟨h.opened, h.enabled, h.handle, ?_⟩
    intro hflag
    simp [Function.update_of_ne (Ne.symm hfd), h.unwatched hflag]

theorem next_rearmed_iff {w w' : EventWorld} {a : Action} (h : Inv w)
    (hs : next w a = some w') : Rearmed a w' ↔ NotRemoved w a := by
  cases a with
  | requestEvent theMask newID =>
    simp only [next] at hs
    split_ifs at hs
    obtain rfl := Option.some.inj hs
    rcases requestEvent_cases h theMask newID with
      ⟨hrm, _⟩ | ⟨hrm, hflag, hctx, hreg⟩ | ⟨hrm, hflag, hctx, hreg⟩
    · simp [Rearmed, NotRemoved, hrm]
    · simp [Rearmed, NotRemoved, hrm, hflag, hctx, watchMask, hreg, Option.isSome_iff_ne_none]
    · simp [Rearmed, NotRemoved, hrm, hflag, hctx, watchMask, hreg]
  | fired => exact Iff.rfl
  | other fd events => exact Iff.rfl

/-- A run re-arms its context with every request exactly when no request follows a
removal of the descriptor. -/
theorem rearmed_iff (w : EventWorld) (h : Fresh w) (as : List Action) :
    system.Keeps (fun _ => Rearmed) w as ↔ system.Meets NotRemoved w as := by
  refine System.keeps_iff_meets Inv ?_ ?_ h.inv as
  · intro w a w' hw hs hok
    exact ⟨(next_rearmed_iff hw hs).mpr hok, next_inv hw hs⟩
  · intro w a w' hw hs
    exact (next_rearmed_iff hw hs).mp

/-- A new context on descriptor 5. -/
def freshWorld : EventWorld := ⟨⟨fun _ => none, fun _ => none⟩, { fFileDesc := 5 }, [], false⟩

/-- A one-shot watch that fires twice and is armed again each time. -/
def oneShot : List Action :=
  [.requestEvent (EV_RE ||| EV_OS) 1, .fired, .requestEvent (EV_RE ||| EV_OS) 2, .fired,
    .requestEvent (EV_WR ||| EV_OS) 2]

theorem rearmed_iff_oneShot : system.Keeps (fun _ => Rearmed) freshWorld oneShot := by
  have hmeets : (System.ofPartial Fresh next).Meets NotRemoved freshWorld oneShot := by decide
  exact (rearmed_iff freshWorld ⟨by decide, rfl, rfl, rfl⟩ oneShot).mpr hmeets

/-- The listener slows down and resumes: armed, removed, armed again. -/
def slowDown : List Action :=
  [.requestEvent EV_RE 1, .requestEvent EV_RM 2] ++ [.requestEvent EV_RE 3]

theorem slowDown_not_rearmed : ¬ system.Keeps (fun _ => Rearmed) freshWorld slowDown := by
  intro keeps
  have hrun : ((slowDown.foldlM next freshWorld).map fun w =>
      w.epoll.interest w.ctx.fFileDesc) = some none := by decide
  obtain ⟨w, hw, hnone⟩ := Option.map_eq_some_iff.mp hrun
  obtain ⟨_, _, hrearmed⟩ := keeps.last (System.exec_of_foldlM (fun _ _ _ h => h) hw)
  have hreg := hrearmed (by decide)
  simp [hnone] at hreg

end EventContext

end CxxFramework.Net
