import CxxFramework.Core.RefTable
import CxxFramework.Socket.EventCleanup

/-!
# Handing over an event context

`TCPSocket::SnarfSocket` takes a connection away from another socket: the descriptor, and with
`EventContext::SnarfEventContext` the identifier, the event request and the place in the reference
table. In the other context only `fFileDesc` is cleared. Its `fWatchEventCalled` and its
`fEventReq` stay, so a later `RequestEvent` of it still modifies the watch of the descriptor. Both
contexts have the same event thread.

## Main definitions

* `HandOver.snarfSocket` — the hand-over.
* `HandOver.next` — what the two contexts, and others, do afterwards.
* `HandOver.Right` — the events go to the target, and the source leaves the descriptor alone.
* `HandOver.Neutral` — the source does not ask for other events.
-/

namespace CxxFramework.Net

open Transition CxxFramework.Core

/-- The two contexts of a hand-over. -/
inductive Party where
  | source
  | target
deriving DecidableEq, Repr

/-- `fUniqueIDStr`, the eight bytes of the identifier. -/
def uniqueIDStr (fUniqueID : Nat) : StrPtrLen :=
  some ((List.range 8).map fun i => UInt8.ofNat (fUniqueID >>> (8 * i)))

/-- The two contexts, and what they share. `fd` and `fUniqueID` are the descriptor that is handed
over and its identifier. -/
structure HandOver where
  contexts : Party → EventContext
  address : Party → Nat
  fAutoCleanup : Party → Bool
  destructed : Party → Bool := fun _ => false
  epoll : Epoll
  isOpen : Fd → Bool
  fRefTable : RefTable
  disableEvent : Bool := false
  fd : Fd
  fUniqueID : Nat

namespace HandOver

def set (w : HandOver) (who : Party) (ctx : EventContext) : HandOver :=
  { w with contexts := Function.update w.contexts who ctx }

/-- `fRef` -/
def ref (w : HandOver) (who : Party) : Ref :=
  ⟨w.address who, uniqueIDStr (w.contexts who).fUniqueID⟩

/-- `EventContext::SnarfEventContext`; none as long as `UnRegister` has to wait, or if `Swap`
finds no ref. -/
def snarfEventContext (w : HandOver) : Option HandOver :=
  let fromContext := { w.contexts .source with fFileDesc := kInvalidFileDesc }
  let w := w.set .source fromContext
  let w := w.set .target
    { w.contexts .target with
      fWatchEventCalled := fromContext.fWatchEventCalled
      fUniqueID := fromContext.fUniqueID
      fEventReq := fromContext.fEventReq }
  (w.fRefTable.swap (w.ref .target)).bind fun fRefTable =>
    (fRefTable.unRegister (w.ref .source) 0).map fun fRefTable => { w with fRefTable }

/-- `TCPSocket::SnarfSocket`; none if the assertion fails. -/
def snarfSocket (w : HandOver) : Option HandOver :=
  if (w.contexts .target).fFileDesc = kInvalidFileDesc then
    let w := w.set .target
      { w.contexts .target with fFileDesc := (w.contexts .source).fFileDesc }
    let w := w.set .source { w.contexts .source with fFileDesc := kInvalidFileDesc }
    w.snarfEventContext
  else none

/-! ## Afterwards -/

/-- `EventContext::RequestEvent` of one of the contexts, which registers its ref if it takes an
identifier. -/
def requestEvent (w : HandOver) (who : Party) (theMask : Bits) (newID : Nat) : HandOver :=
  let r := EventContext.requestEvent ⟨w.epoll, w.contexts who, [], w.disableEvent⟩ theMask newID
  let w := { w.set who r.ctx with epoll := r.epoll }
  if r.fRefTable = [] then w
  else { w with fRefTable := (w.fRefTable.register (w.ref who)).elim w.fRefTable Prod.snd }

/-- `EventContext::Cleanup` of one of the contexts; none as long as `UnRegister` has to wait. -/
def cleanup (w : HandOver) (who : Party) : Option HandOver :=
  let ctx := w.contexts who
  let isOpen :=
    if ctx.fFileDesc ≠ kInvalidFileDesc then Function.update w.isOpen ctx.fFileDesc false
    else w.isOpen
  let fRefTable :=
    if ctx.unregisters then w.fRefTable.unRegister (w.ref who) 0 else some w.fRefTable
  fRefTable.map fun fRefTable =>
    { w.set who ctx.cleanedUp with epoll := ctx.cleanupEpoll w.epoll, isOpen, fRefTable }

/-- `~EventContext` -/
def destruct (w : HandOver) (who : Party) : Option HandOver :=
  (if w.fAutoCleanup who then w.cleanup who else some w).map fun w =>
    { w with destructed := Function.update w.destructed who true }

/-- The context that is found for an event of the descriptor: the event has `gDataMap[fd]`, which
the event thread looks up in the reference table. -/
def resolved (w : HandOver) : Option Ref :=
  (w.epoll.gDataMap w.fd).bind fun erData => w.fRefTable.fTable.map (uniqueIDStr erData)

/-- The ref that is registered under the identifier. -/
def registered (w : HandOver) : Option Ref := w.fRefTable.fTable.map (uniqueIDStr w.fUniqueID)

inductive Action where
  | requestEvent (who : Party) (theMask : Bits) (newID : Nat)
  | cleanup (who : Party)
  | destruct (who : Party)
  | fired
  /-- The contexts of other descriptors, and the event thread. -/
  | others (epoll : Epoll) (isOpen : Fd → Bool) (fRefTable : RefTable)

/-- The context whose operation it is. -/
def Action.by? : Action → Option Party
  | .requestEvent who _ _ | .cleanup who | .destruct who => some who
  | .fired | .others _ _ _ => none

/-- A step after the hand-over. Other contexts have other descriptors, and do not have the
identifier as long as the target has it. -/
def next (w : HandOver) : Action → Option HandOver
  | .requestEvent who theMask newID =>
    if w.destructed who then none else some (w.requestEvent who theMask newID)
  | .cleanup who => if w.destructed who then none else w.cleanup who
  | .destruct who => if w.destructed who then none else w.destruct who
  | .fired =>
    let events := (w.epoll.interest w.fd).map EventContext.disarm
    some { w with epoll.interest := Function.update w.epoll.interest w.fd events }
  | .others epoll isOpen fRefTable =>
    let w' := { w with epoll, isOpen, fRefTable }
    if epoll.interest w.fd = w.epoll.interest w.fd ∧ epoll.gDataMap w.fd = w.epoll.gDataMap w.fd ∧
        isOpen w.fd = w.isOpen w.fd ∧
        ((w.contexts .target).fFileDesc = w.fd → w'.registered = w.registered) then
      some w'
    else none

/-- The source is registered, and the target is not. -/
structure Registered (w : HandOver) : Prop where
  opened : w.fd ≠ kInvalidFileDesc
  address : w.address .source ≠ w.address .target
  fileDesc : (w.contexts .source).fFileDesc = w.fd
  watched : (w.contexts .source).fWatchEventCalled = true
  uniqueID : (w.contexts .source).fUniqueID = w.fUniqueID
  request : (w.contexts .source).fEventReq.erHandle = w.fd ∧
    (w.contexts .source).fEventReq.erData = w.fUniqueID
  data : (w.epoll.interest w.fd).isSome → w.epoll.gDataMap w.fd = some w.fUniqueID
  table : w.fRefTable.fTable.Valid
  ref : w.ref .source ∈ w.fRefTable.fTable.entries
  unwatched : (w.contexts .target).fWatchEventCalled = false

abbrev system : System HandOver Action :=
  .ofPartial (fun w => ∃ w₀, Registered w₀ ∧ w₀.snarfSocket = some w) next

/-- As long as the descriptor has events, they are for the target. -/
def Delivers (w : HandOver) : Prop :=
  (w.epoll.interest w.fd).isSome → ∃ ref, w.resolved = some ref ∧ ref.address = w.address .target

/-- The registration of the descriptor and its state. -/
def registration (w : HandOver) : Option Bits × Option Nat × Bool × Option Ref :=
  (w.epoll.interest w.fd, w.epoll.gDataMap w.fd, w.isOpen w.fd, w.registered)

/-- The events go to the target, and the source leaves the descriptor alone. -/
def Right (w : HandOver) (a : Action) (w' : HandOver) : Prop :=
  w'.Delivers ∧ (a.by? = some .source → w'.registration = w.registration)

/-- The source does not ask for other events than those that are watched, unless it has been
cleaned up. -/
def Neutral (w : HandOver) : Action → Prop
  | .requestEvent .source theMask _ =>
    w.disableEvent = true ∨ theMask.has EV_RM = true ∨
      (w.contexts .source).fWatchEventCalled = false ∨
      ∀ events ∈ w.epoll.interest w.fd,
        events = (interestOf ((w.contexts .source).watchMask theMask)).events
  | _ => True

instance (w : HandOver) : DecidablePred w.Neutral
  | .requestEvent .source _ _ => inferInstanceAs (Decidable (_ ∨ _ ∨ _ ∨ _))
  | .requestEvent .target _ _ => isTrue trivial
  | .cleanup _ => isTrue trivial
  | .destruct _ => isTrue trivial
  | .fired => isTrue trivial
  | .others _ _ _ => isTrue trivial

/-! ## The hand-over -/

variable {w w' w₀ : HandOver} {who : Party} {a : Action}

/-- The target has the descriptor and the identifier. -/
structure Holds (w : HandOver) : Prop where
  fileDesc : (w.contexts .target).fFileDesc = w.fd
  watched : (w.contexts .target).fWatchEventCalled = true
  registered : ∃ ref, w.registered = some ref ∧ ref.address = w.address .target

/-- The target has been cleaned up. -/
structure Closed (w : HandOver) : Prop where
  fileDesc : (w.contexts .target).fFileDesc = kInvalidFileDesc
  unwatched : (w.contexts .target).fWatchEventCalled = false
  interest : w.epoll.interest w.fd = none

/-- The source has no descriptor. A context that still has its flag has its request for the
descriptor. -/
structure Inv (w : HandOver) : Prop where
  opened : w.fd ≠ kInvalidFileDesc
  source : (w.contexts .source).fFileDesc = kInvalidFileDesc
  request : ∀ who, (w.contexts who).fWatchEventCalled = true →
    (w.contexts who).fEventReq.erHandle = w.fd ∧ (w.contexts who).fEventReq.erData = w.fUniqueID
  data : (w.epoll.interest w.fd).isSome → w.epoll.gDataMap w.fd = some w.fUniqueID
  target : w.Holds ∨ w.Closed

theorem Inv.delivers (h : Inv w) : w.Delivers := by
  intro hsome
  rcases h.target with hholds | hclosed
  · obtain ⟨ref, href, haddress⟩ := hholds.registered
    refine ⟨ref, ?_, haddress⟩
    rw [resolved, h.data hsome, Option.bind_some]
    exact href
  · rw [hclosed.interest] at hsome
    cases hsome

/-- What the hand-over leaves behind. -/
theorem snarfSocket_inv (h : Registered w₀) (hs : w₀.snarfSocket = some w) : Inv w := by
  unfold snarfSocket at hs
  split_ifs at hs with htarget
  obtain ⟨swapped, hswapped, hs⟩ := Option.bind_eq_some_iff.mp hs
  obtain ⟨fRefTable, hunregister, rfl⟩ := Option.map_eq_some_iff.mp hs
  have hne : w₀.address .target ≠ w₀.address .source := h.address.symm
  have hold : (⟨w₀.address .source, uniqueIDStr w₀.fUniqueID⟩ : Ref) ∈
      w₀.fRefTable.fTable.entries := by
    have href := h.ref
    rwa [ref, h.uniqueID] at href
  simp only [set, ref, ne_eq, reduceCtorEq, not_false_eq_true, Function.update_self,
    Function.update_of_ne, h.uniqueID] at hswapped hunregister
  obtain ⟨hvSwap, -, hswap⟩ := RefTable.swap_spec h.table hswapped
  have hnew := (hswap ⟨w₀.address .target, uniqueIDStr w₀.fUniqueID⟩).mpr
    (by rw [if_pos rfl]; exact ⟨rfl, _, hold, rfl⟩)
  obtain ⟨hv, -, -, hmem⟩ := RefTable.unRegister_spec hvSwap hunregister
  have hregistered : fRefTable.fTable.map (uniqueIDStr w₀.fUniqueID) =
      some ⟨w₀.address .target, uniqueIDStr w₀.fUniqueID⟩ :=
    (HashTable.map_eq_some_iff hv).mpr
      ⟨(hmem _).mpr ⟨hnew, fun heq => hne (congrArg Ref.address heq)⟩, rfl⟩
  constructor
  · exact h.opened
  · simp [set]
  · rintro (_ | _) - <;> simp [set, h.request]
  · exact h.data
  · refine .inl ⟨by simp [set, h.fileDesc], by simp [set, h.watched], _, hregistered, rfl⟩

/-! ## Requests -/

theorem selectRemoveevent_of_ne (e : Epoll) {which fd : Fd} (hne : fd ≠ which) :
    (selectRemoveevent e which).2.interest fd = e.interest fd ∧
      (selectRemoveevent e which).2.gDataMap fd = e.gDataMap fd := by
  unfold selectRemoveevent Epoll.ctlDel
  cases e.interest which <;> simp [Function.update_of_ne hne]

theorem selectRemoveevent_self (e : Epoll) (which : Fd) :
    (selectRemoveevent e which).2.interest which = none := by
  unfold selectRemoveevent Epoll.ctlDel
  cases h : e.interest which <;> simp [h]

theorem selectModwatch_gDataMap (e : Epoll) (req : Eventreq) (which : Bits) :
    (selectModwatch e req which).2.gDataMap req.erHandle =
      if (e.interest req.erHandle).isSome then some req.erData else e.gDataMap req.erHandle := by
  unfold selectModwatch selectModwatch0 Epoll.ctl
  cases e.interest req.erHandle <;> simp

/-- The request that `RequestEvent` sends. -/
def requested (ctx : EventContext) (theMask : Bits) : Eventreq :=
  { ctx.fEventReq with erEventbits := ctx.watchMask theMask }

theorem set_self (w : HandOver) (who : Party) : w.set who (w.contexts who) = w := by
  simp [set]

/-- A request of a context that is watched, or has no descriptor: nothing happens, or the watch is
removed or modified. -/
theorem requestEvent_cases (theMask : Bits) (newID : Nat)
    (hready : (w.contexts who).fWatchEventCalled = true ∨
      (w.contexts who).fFileDesc = kInvalidFileDesc) :
    w.requestEvent who theMask newID = w ∧ (w.disableEvent = true ∨ theMask.has EV_RM = true ∨
        (w.contexts who).fWatchEventCalled = false) ∨
      (w.contexts who).fWatchEventCalled = true ∧ w.disableEvent = false ∧
        theMask.has EV_RM = true ∧ w.requestEvent who theMask newID =
          { w with epoll := (selectRemoveevent w.epoll (w.contexts who).fFileDesc).2 } ∨
      (w.contexts who).fWatchEventCalled = true ∧ w.disableEvent = false ∧
        theMask.has EV_RM = false ∧ w.requestEvent who theMask newID =
          { w.set who
              { w.contexts who with fEventReq := requested (w.contexts who) theMask } with
            epoll := (selectModwatch w.epoll (requested (w.contexts who) theMask)
              ((w.contexts who).watchMask theMask)).2 } := by
  have hsame : ∀ b, w.disableEvent = b → { w with disableEvent := b } = w := by
    rintro _ rfl
    rfl
  cases hdisable : w.disableEvent
  · cases hflag : (w.contexts who).fWatchEventCalled
    · have hfd : (w.contexts who).fFileDesc = kInvalidFileDesc := by simpa [hflag] using hready
      cases hrm : theMask.has EV_RM <;>
        simpa [requestEvent, EventContext.requestEvent, set_self, hdisable, hflag, hrm, hfd]
          using hsame _ hdisable
    · cases hrm : theMask.has EV_RM <;>
        simp [requestEvent, EventContext.requestEvent, set_self, hdisable, hflag, hrm, requested]
  · simpa [requestEvent, EventContext.requestEvent, set_self, hdisable] using hsame _ hdisable

/-- The event layer changes, but the descriptor keeps its identifier, and is not watched if it was
not. -/
theorem Inv.withEpoll (h : Inv w) {epoll : Epoll}
    (hdata : (epoll.interest w.fd).isSome → epoll.gDataMap w.fd = some w.fUniqueID)
    (hnone : w.epoll.interest w.fd = none → epoll.interest w.fd = none) :
    Inv { w with epoll } where
  opened := h.opened
  source := h.source
  request := h.request
  data := hdata
  target := h.target.imp (fun hholds => ⟨hholds.fileDesc, hholds.watched, hholds.registered⟩)
    fun hclosed => ⟨hclosed.fileDesc, hclosed.unwatched, hnone hclosed.interest⟩

/-- A context changes, but keeps its descriptor, its flag, and the handle of its request. -/
theorem Inv.set (h : Inv w) (who : Party) (ctx : EventContext)
    (hfd : ctx.fFileDesc = (w.contexts who).fFileDesc)
    (hflag : ctx.fWatchEventCalled = (w.contexts who).fWatchEventCalled)
    (hhandle : ctx.fEventReq.erHandle = (w.contexts who).fEventReq.erHandle)
    (hdata : ctx.fEventReq.erData = (w.contexts who).fEventReq.erData) : Inv (w.set who ctx) := by
  have hfields : ∀ who', ((w.set who ctx).contexts who').fFileDesc = (w.contexts who').fFileDesc ∧
      ((w.set who ctx).contexts who').fWatchEventCalled =
        (w.contexts who').fWatchEventCalled ∧
      ((w.set who ctx).contexts who').fEventReq.erHandle =
        (w.contexts who').fEventReq.erHandle ∧
      ((w.set who ctx).contexts who').fEventReq.erData = (w.contexts who').fEventReq.erData := by
    intro who'
    by_cases hwho : who' = who
    · subst hwho
      simp [HandOver.set, hfd, hflag, hhandle, hdata]
    · simp [HandOver.set, Function.update_of_ne hwho]
  constructor
  · exact h.opened
  · exact (hfields .source).1.trans h.source
  · intro who' hwatched
    obtain ⟨-, hflag', hhandle', hdata'⟩ := hfields who'
    rw [hflag'] at hwatched
    rw [hhandle', hdata']
    exact h.request who' hwatched
  · exact h.data
  · obtain ⟨hfd', hflag', -⟩ := hfields .target
    exact h.target.imp
      (fun hholds => ⟨hfd'.trans hholds.fileDesc, hflag'.trans hholds.watched,
        hholds.registered⟩)
      fun hclosed => ⟨hfd'.trans hclosed.fileDesc, hflag'.trans hclosed.unwatched,
        hclosed.interest⟩

/-- A context is watched, or has no descriptor. -/
theorem Inv.ready (h : Inv w) (who : Party) : (w.contexts who).fWatchEventCalled = true ∨
    (w.contexts who).fFileDesc = kInvalidFileDesc := by
  cases who with
  | source => exact .inr h.source
  | target => exact h.target.imp Holds.watched Closed.fileDesc

/-- A watch that is modified has the events of the request, and the identifier. -/
theorem requested_modwatch (h : Inv w) (hflag : (w.contexts who).fWatchEventCalled = true)
    (theMask : Bits) :
    (selectModwatch w.epoll (requested (w.contexts who) theMask)
      ((w.contexts who).watchMask theMask)).2.interest w.fd =
      (if (w.epoll.interest w.fd).isSome then
        some (interestOf ((w.contexts who).watchMask theMask)).events else none) ∧
    (selectModwatch w.epoll (requested (w.contexts who) theMask)
      ((w.contexts who).watchMask theMask)).2.gDataMap w.fd =
      if (w.epoll.interest w.fd).isSome then some w.fUniqueID else w.epoll.gDataMap w.fd := by
  obtain ⟨hhandle, hdata⟩ := h.request who hflag
  have hinterest := EventContext.selectModwatch_interest w.epoll
    (requested (w.contexts who) theMask) ((w.contexts who).watchMask theMask)
  have hgDataMap := selectModwatch_gDataMap w.epoll
    (requested (w.contexts who) theMask) ((w.contexts who).watchMask theMask)
  rw [show (requested (w.contexts who) theMask).erHandle = w.fd from hhandle] at hinterest hgDataMap
  rw [show (requested (w.contexts who) theMask).erData = w.fUniqueID from hdata] at hgDataMap
  exact ⟨hinterest, hgDataMap⟩

theorem requestEvent_inv (h : Inv w) (who : Party) (theMask : Bits) (newID : Nat) :
    Inv (w.requestEvent who theMask newID) := by
  obtain ⟨hsame, -⟩ | ⟨-, -, -, hremove⟩ | ⟨hflag, -, -, hmodify⟩ :=
    requestEvent_cases theMask newID (h.ready who)
  · rw [hsame]
    exact h
  · rw [hremove]
    by_cases hfd : w.fd = (w.contexts who).fFileDesc
    · have hnone := selectRemoveevent_self w.epoll w.fd
      rw [← hfd]
      exact h.withEpoll (fun hsome => by simp [hnone] at hsome) fun _ => hnone
    · obtain ⟨hinterest, hgDataMap⟩ := selectRemoveevent_of_ne w.epoll hfd
      refine h.withEpoll ?_ fun hnone => hinterest.trans hnone
      rw [hinterest, hgDataMap]
      exact h.data
  · rw [hmodify]
    have hset := h.set who
      { w.contexts who with fEventReq := requested (w.contexts who) theMask } rfl rfl rfl rfl
    obtain ⟨hinterest, hgDataMap⟩ := requested_modwatch h hflag theMask
    refine hset.withEpoll ?_ fun hnone => ?_
    · intro hsome
      refine hgDataMap.trans (if_pos ?_)
      by_contra hnone
      rw [HandOver.set, hinterest, if_neg hnone] at hsome
      cases hsome
    · refine hinterest.trans (if_neg ?_)
      rw [show w.epoll.interest w.fd = none from hnone]
      exact nofun

/-- A request of the source leaves the descriptor alone exactly if it asks for nothing new. -/
theorem request_registration (h : Inv w) (theMask : Bits) (newID : Nat) :
    (w.requestEvent .source theMask newID).registration = w.registration ↔
      w.Neutral (.requestEvent .source theMask newID) := by
  obtain ⟨hsame, hneutral⟩ | ⟨hflag, hdisable, hrm, hremove⟩ | ⟨hflag, hdisable, hrm, hmodify⟩ :=
    requestEvent_cases theMask newID (h.ready .source)
  · rw [hsame]
    refine iff_of_true rfl ?_
    rcases hneutral with hdisable | hrm | hflag
    · exact .inl hdisable
    · exact .inr (.inl hrm)
    · exact .inr (.inr (.inl hflag))
  · refine iff_of_true ?_ (.inr (.inl hrm))
    have hne : w.fd ≠ (w.contexts .source).fFileDesc := h.source ▸ h.opened
    obtain ⟨hinterest, hgDataMap⟩ := selectRemoveevent_of_ne w.epoll hne
    simp only [hremove, registration, registered, hinterest, hgDataMap]
  · have hiff : w.Neutral (.requestEvent .source theMask newID) ↔
        ∀ events ∈ w.epoll.interest w.fd,
          events = (interestOf ((w.contexts .source).watchMask theMask)).events := by
      simp [Neutral, hdisable, hrm, hflag]
    obtain ⟨hinterest, hgDataMap⟩ := requested_modwatch h hflag theMask
    rw [hiff, hmodify]
    simp only [registration, registered, set, Prod.mk.injEq, and_true]
    rw [hinterest, hgDataMap]
    cases hold : w.epoll.interest w.fd with
    | none => simp
    | some events =>
      have hdata := h.data (by rw [hold]; rfl)
      simp [hdata, eq_comm]

/-! ## Cleaning up -/

/-- A context without a descriptor only loses its flag and its identifier. -/
theorem cleanup_of_invalid (hfd : (w.contexts who).fFileDesc = kInvalidFileDesc) :
    w.cleanup who = some (w.set who (w.contexts who).cleanedUp) := by
  simp [cleanup, EventContext.unregisters, EventContext.cleanupEpoll, hfd, set]

theorem cleanedUp_fields (w : HandOver) (who : Party) :
    ((w.set who (w.contexts who).cleanedUp).contexts who).fFileDesc = kInvalidFileDesc ∧
      ((w.set who (w.contexts who).cleanedUp).contexts who).fWatchEventCalled = false ∧
      ∀ who' ≠ who, (w.set who (w.contexts who).cleanedUp).contexts who' = w.contexts who' := by
  refine ⟨by simp [set, EventContext.cleanedUp], by simp [set, EventContext.cleanedUp], ?_⟩
  exact fun who' hne => Function.update_of_ne hne ..

/-- If the descriptor is not watched any more, the target may lose it. -/
theorem Inv.cleanedUp (h : Inv w) (who : Party)
    (hclosed : who = .target → w.epoll.interest w.fd = none) :
    Inv (w.set who (w.contexts who).cleanedUp) := by
  obtain ⟨hfd, hflag, hother⟩ := cleanedUp_fields w who
  constructor
  · exact h.opened
  · cases who with
    | source => exact hfd
    | target => rw [hother .source nofun]; exact h.source
  · intro who' hwatched
    by_cases hwho : who' = who
    · rw [hwho, hflag] at hwatched
      cases hwatched
    · rw [hother who' hwho] at hwatched ⊢
      exact h.request who' hwatched
  · exact h.data
  · cases who with
    | source =>
      have htarget := hother .target nofun
      exact h.target.imp
        (fun hholds => ⟨htarget ▸ hholds.fileDesc, htarget ▸ hholds.watched, hholds.registered⟩)
        fun hclosed => ⟨htarget ▸ hclosed.fileDesc, htarget ▸ hclosed.unwatched,
          hclosed.interest⟩
    | target => exact .inr ⟨hfd, hflag, hclosed rfl⟩

theorem cleanupEpoll_interest {ctx : EventContext} (epoll : Epoll)
    (hfd : ctx.fFileDesc ≠ kInvalidFileDesc) :
    (ctx.cleanupEpoll epoll).interest ctx.fFileDesc = none := by
  simp [EventContext.cleanupEpoll, hfd, Epoll.close]

/-- Nothing is watched after the target has closed the descriptor. -/
theorem Inv.unregistered (h : Inv w) {epoll : Epoll} (hnone : epoll.interest w.fd = none)
    (isOpen : Fd → Bool) (fRefTable : RefTable)
    (htarget : (w.contexts .target).fFileDesc = kInvalidFileDesc) : Inv { w with
      epoll, isOpen, fRefTable } where
  opened := h.opened
  source := h.source
  request := h.request
  data hsome := by rw [show epoll.interest w.fd = none from hnone] at hsome; cases hsome
  target := by
    rcases h.target with hholds | hclosed
    · exact absurd (hholds.fileDesc.symm.trans htarget) h.opened
    · exact .inr ⟨htarget, hclosed.unwatched, hnone⟩

theorem cleanup_spec (h : Inv w) (hs : w.cleanup who = some w') :
    Inv w' ∧ (who = .source → w'.registration = w.registration) := by
  by_cases hfd : (w.contexts who).fFileDesc = kInvalidFileDesc
  · rw [cleanup_of_invalid hfd] at hs
    obtain rfl := Option.some.inj hs
    refine ⟨h.cleanedUp who ?_, fun _ => rfl⟩
    rintro rfl
    rcases h.target with hholds | hclosed
    · exact absurd (hholds.fileDesc.symm.trans hfd) h.opened
    · exact hclosed.interest
  · -- only the target has a descriptor
    obtain rfl : who = .target := by
      cases who with
      | source => exact absurd h.source hfd
      | target => rfl
    refine ⟨?_, nofun⟩
    obtain ⟨fRefTable, -, rfl⟩ := Option.map_eq_some_iff.mp hs
    have hnone : ((w.contexts .target).cleanupEpoll w.epoll).interest w.fd = none := by
      have hinterest := cleanupEpoll_interest w.epoll hfd
      rcases h.target with hholds | hclosed
      · rwa [hholds.fileDesc] at hinterest
      · exact absurd hclosed.fileDesc hfd
    have hinv : Inv { w with epoll := (w.contexts .target).cleanupEpoll w.epoll } :=
      h.withEpoll (fun hsome => by rw [hnone] at hsome; cases hsome) fun _ => hnone
    exact (hinv.cleanedUp .target fun _ => hnone).unregistered hnone _ _
      (cleanedUp_fields w .target).1

theorem Inv.withDestructed (h : Inv w) (destructed : Party → Bool) :
    Inv { w with destructed } where
  opened := h.opened
  source := h.source
  request := h.request
  data := h.data
  target := h.target.imp (fun hholds => ⟨hholds.fileDesc, hholds.watched, hholds.registered⟩)
    fun hclosed => ⟨hclosed.fileDesc, hclosed.unwatched, hclosed.interest⟩

theorem destruct_spec (h : Inv w) (hs : w.destruct who = some w') :
    Inv w' ∧ (who = .source → w'.registration = w.registration) := by
  obtain ⟨u, hu, rfl⟩ := Option.map_eq_some_iff.mp hs
  split_ifs at hu
  · obtain ⟨hinv, hframe⟩ := cleanup_spec h hu
    exact ⟨hinv.withDestructed _, hframe⟩
  · obtain rfl := Option.some.inj hu
    exact ⟨h.withDestructed _, fun _ => rfl⟩

/-! ## Runs -/

theorem next_right (h : Inv w) (hs : next w a = some w') :
    (Right w a w' ↔ Neutral w a) ∧ Inv w' := by
  cases a with
  | requestEvent who theMask newID =>
    simp only [next] at hs
    split_ifs at hs
    obtain rfl := Option.some.inj hs
    have hinv := requestEvent_inv h who theMask newID
    refine ⟨?_, hinv⟩
    cases who with
    | source =>
      rw [← request_registration h]
      exact ⟨fun hright => hright.2 rfl, fun hframe => ⟨hinv.delivers, fun _ => hframe⟩⟩
    | target => exact iff_of_true ⟨hinv.delivers, nofun⟩ trivial
  | cleanup who =>
    simp only [next] at hs
    split_ifs at hs
    obtain ⟨hinv, hframe⟩ := cleanup_spec h hs
    exact ⟨iff_of_true ⟨hinv.delivers, fun hwho => hframe (Option.some.inj hwho)⟩ trivial, hinv⟩
  | destruct who =>
    simp only [next] at hs
    split_ifs at hs
    obtain ⟨hinv, hframe⟩ := destruct_spec h hs
    exact ⟨iff_of_true ⟨hinv.delivers, fun hwho => hframe (Option.some.inj hwho)⟩ trivial, hinv⟩
  | fired =>
    obtain rfl := Option.some.inj hs
    let events := (w.epoll.interest w.fd).map EventContext.disarm
    have hinv : Inv
        { w with epoll.interest := Function.update w.epoll.interest w.fd events } := by
      refine h.withEpoll (fun hsome => h.data ?_) fun hnone => ?_
      · simpa [events] using hsome
      · simp [events, hnone]
    exact ⟨iff_of_true ⟨hinv.delivers, nofun⟩ trivial, hinv⟩
  | others epoll isOpen fRefTable =>
    simp only [next] at hs
    split_ifs at hs with hothers
    obtain rfl := Option.some.inj hs
    obtain ⟨hinterest, hgDataMap, -, hregistered⟩ := hothers
    have hinv : Inv { w with epoll, isOpen, fRefTable } := by
      refine ⟨h.opened, h.source, h.request, ?_, ?_⟩
      · simp only [hinterest, hgDataMap]
        exact h.data
      · refine h.target.imp (fun hholds => ⟨hholds.fileDesc, hholds.watched, ?_⟩)
          fun hclosed => ⟨hclosed.fileDesc, hclosed.unwatched, hinterest.trans hclosed.interest⟩
        rw [hregistered hholds.fileDesc]
        exact hholds.registered
    exact ⟨iff_of_true ⟨hinv.delivers, nofun⟩ trivial, hinv⟩

/-- After a hand-over the events go to the target. They stay there, and the source leaves the
descriptor alone, exactly in the runs in which the source asks for nothing new. -/
theorem right_iff (h : Registered w₀) (hs : w₀.snarfSocket = some w) (as : List Action) :
    w.Delivers ∧ (system.Keeps Right w as ↔ system.Meets Neutral w as) := by
  have hinv := snarfSocket_inv h hs
  refine ⟨hinv.delivers, System.keeps_iff_meets Inv ?_ ?_ hinv as⟩
  · exact fun _ _ _ hw hstep hok => ⟨(next_right hw hstep).1.mpr hok, (next_right hw hstep).2⟩
  · exact fun _ _ _ hw hstep => (next_right hw hstep).1.mp

/-- A connection on descriptor 5 that is watched for writing, with the identifier 1. -/
def connected : HandOver where
  contexts
    | .source => {
        fFileDesc := 5
        fEventReq := { erHandle := 5, erData := 1, erEventbits := EV_WR }
        fUniqueID := 1
        fWatchEventCalled := true }
    | .target => { fFileDesc := kInvalidFileDesc }
  address
    | .source => 100
    | .target => 200
  fAutoCleanup _ := true
  epoll := {
    interest := Function.update (fun _ => none) 5 (some (watchEvents EV_WR))
    gDataMap := Function.update (fun _ => none) 5 (some 1) }
  isOpen fd := fd = 5
  fRefTable := { fTable := (HashTable.new 2747).add ⟨100, uniqueIDStr 1⟩ }
  fd := 5
  fUniqueID := 1

theorem connected_valid : connected.fRefTable.fTable.Valid :=
  HashTable.add_valid (HashTable.new_valid (by decide)) (by simp [HashTable.new_entries])

theorem connected_registered : Registered connected where
  opened := by decide
  address := by decide
  fileDesc := rfl
  watched := rfl
  uniqueID := rfl
  request := ⟨rfl, rfl⟩
  data _ := rfl
  table := connected_valid
  ref := by
    have hmap : connected.fRefTable.fTable.map (uniqueIDStr 1) = some (connected.ref .source) := rfl
    exact ((HashTable.map_eq_some_iff connected_valid).mp hmap).1
  unwatched := rfl

/-- The connection has been handed over. -/
def handed : HandOver := connected.snarfSocket.getD connected

theorem snarfSocket_connected : connected.snarfSocket = some handed := by
  rfl

/-- The source is used only to remove its watch and is destructed, while the target goes on. -/
theorem right_iff_connected :
    system.Keeps Right handed [.requestEvent .source EV_RM 0, .requestEvent .target EV_RE 0,
      .destruct .source, .cleanup .target] :=
  (right_iff connected_registered snarfSocket_connected _).2.mpr (by decide)

/-- The source asks for events again. -/
theorem requestAgain_not_right :
    ¬ ∀ (w₀ w : HandOver) (as : List Action), Registered w₀ → w₀.snarfSocket = some w →
      system.Keeps Right w as := by
  intro hkeeps
  have keeps := hkeeps connected handed [.requestEvent .source EV_RE 0] connected_registered
    snarfSocket_connected
  have hinv := snarfSocket_inv connected_registered snarfSocket_connected
  have hneutral : Neutral handed (.requestEvent .source EV_RE 0) :=
    (next_right hinv rfl).1.mp (keeps _ rfl).1
  rcases hneutral with hdisable | hrm | hflag | hevents
  · cases hdisable
  · exact absurd hrm (by decide)
  · cases hflag
  · exact absurd (hevents (watchEvents EV_WR) rfl) (by decide)

end HandOver

end CxxFramework.Net
