import Mathlib.Data.List.Basic

/-!
# The epoll event layer

The functions of `epollev.cpp`: watching, modifying and removing a file descriptor,
and taking the events of one `epoll_wait` batch one after the other.

The kernel's interest list is part of the state. `epoll_ctl` refuses to add a
descriptor that is present, and to modify or delete one that is absent. The read
cursor into the event array is kept in static variables over the calls.
-/

namespace CxxFramework.Net

/-- A file descriptor. -/
abbrev Fd := Int

/-- A set of bits in a 32-bit word. -/
abbrev Bits := BitVec 32

/-- `word & bits` is true in the sense of C. -/
def Bits.has (word bits : Bits) : Bool := word &&& bits != 0

/-! ## Constants -/

def EV_RE : Bits := 0x01
def EV_WR : Bits := 0x02
def EV_RM : Bits := 0x08
def EV_OS : Bits := 0x10
def EV_ET : Bits := 0x20

def EPOLLIN : Bits := 0x001
def EPOLLOUT : Bits := 0x004
def EPOLLERR : Bits := 0x008
def EPOLLHUP : Bits := 0x010
def EPOLLONESHOT : Bits := 0x40000000
def EPOLLET : Bits := 0x80000000

def MAX_EPOLL_FD : Nat := 20000

def EINTR : Int := 4

/-- The `eventreq` fields the event layer uses. -/
structure Eventreq where
  erHandle : Fd := 0
  erData : Nat := 0
  erEventbits : Bits := 0
deriving DecidableEq, Repr

/-! ## Watching descriptors -/

/-- The kernel's interest list, and `gDataMap`. -/
structure Epoll where
  interest : Fd → Option Bits
  gDataMap : Fd → Option Nat

inductive CtlOp where
  | add
  | mod
deriving DecidableEq, Repr

/-- `epoll_ctl` with `EPOLL_CTL_ADD` or `EPOLL_CTL_MOD`. -/
def Epoll.ctl (e : Epoll) (op : CtlOp) (fd : Fd) (events : Bits) : Option Epoll :=
  match op, e.interest fd with
  | .add, none | .mod, some _ =>
    some { e with interest := Function.update e.interest fd (some events) }
  | .add, some _ | .mod, none => none

/-- `epoll_ctl` with `EPOLL_CTL_DEL`. -/
def Epoll.ctlDel (e : Epoll) (fd : Fd) : Option Epoll :=
  if (e.interest fd).isSome then
    some { e with interest := Function.update e.interest fd none }
  else none

/-- The `ev.events` word that `selectModwatch0` builds from its mask. -/
def watchEvents (which : Bits) : Bits :=
  let events : Bits := 0
  let events := if which.has EV_ET then events ||| EPOLLET else events
  let events := if which.has EV_OS then events ||| EPOLLONESHOT else events
  let events := if which.has EV_RE then events ||| (EPOLLIN ||| EPOLLHUP ||| EPOLLERR) else events
  if which.has EV_WR then events ||| EPOLLOUT else events

/-- `selectModwatch0`; the returned number is that of `epoll_ctl`. -/
def selectModwatch0 (e : Epoll) (req : Eventreq) (which : Bits) (op : CtlOp) : Int × Epoll :=
  match e.ctl op req.erHandle (watchEvents which) with
  | some e => (0, { e with gDataMap := Function.update e.gDataMap req.erHandle (some req.erData) })
  | none => (-1, e)

def selectModwatch (e : Epoll) (req : Eventreq) (which : Bits) : Int × Epoll :=
  selectModwatch0 e req which .mod

def selectWatchevent (e : Epoll) (req : Eventreq) (which : Bits) : Int × Epoll :=
  selectModwatch0 e req which .add

def selectRemoveevent (e : Epoll) (which : Fd) : Int × Epoll :=
  match e.ctlDel which with
  | some e => (0, { e with gDataMap := Function.update e.gDataMap which none })
  | none => (-1, e)

/-- The interest a mask of `EV_` bits stands for. -/
structure Interest where
  read : Bool
  write : Bool
  oneShot : Bool
  edge : Bool
deriving DecidableEq, Repr

def interestOf (mask : Bits) : Interest where
  read := mask.has EV_RE
  write := mask.has EV_WR
  oneShot := mask.has EV_OS
  edge := mask.has EV_ET

/-- The epoll word of an interest: reading covers hang-ups and errors. -/
def Interest.events (i : Interest) : Bits :=
  (if i.read then EPOLLIN ||| EPOLLHUP ||| EPOLLERR else 0) ||| (if i.write then EPOLLOUT else 0) |||
    (if i.oneShot then EPOLLONESHOT else 0) ||| (if i.edge then EPOLLET else 0)

theorem watchEvents_eq (which : Bits) : watchEvents which = (interestOf which).events := by
  dsimp only [watchEvents, Interest.events, interestOf]
  split_ifs <;> rfl

theorem selectModwatch0_interest (e : Epoll) (req : Eventreq) (which : Bits) (op : CtlOp) :
    (selectModwatch0 e req which op).2.interest req.erHandle =
      if (e.interest req.erHandle).isSome = (op = .mod) then some (interestOf which).events
      else e.interest req.erHandle := by
  unfold selectModwatch0 Epoll.ctl
  cases op <;> cases h : e.interest req.erHandle <;> simp [h, watchEvents_eq]

/-! ## Waiting for events -/

/-- An `epoll_event`. -/
structure EpollEvent where
  fd : Fd
  events : Bits
deriving DecidableEq, Repr

/-- What one `epoll_wait` stores: at most as many entries as it was asked for. A wait
that times out or fails stores none. -/
abbrev Batch := { entries : List EpollEvent // entries.length ≤ MAX_EPOLL_FD }

/-- The static variables of the read side. -/
structure WaitState where
  gEpollEvents : Nat → EpollEvent
  gCurEventReadPos : Nat
  gCurTotalEvents : Nat

/-- The array after the kernel has stored a batch at its start. -/
def store (gEpollEvents : Nat → EpollEvent) (entries : List EpollEvent) : Nat → EpollEvent :=
  fun i => (entries[i]?).getD (gEpollEvents i)

/-- `selectStartevents` -/
def selectStartevents (s : WaitState) : WaitState :=
  { s with gCurEventReadPos := 0, gCurTotalEvents := 0 }

/-- The first part of `epoll_waitevent`: `epoll_wait` once the array is used up. The
batches it has still to report are an input. -/
def refill (s : WaitState) (batches : List Batch) : WaitState × List Batch :=
  if s.gCurTotalEvents = 0 then
    match batches with
    | [] => ({ s with gCurEventReadPos := 0 }, [])
    | b :: rest =>
      ({ gEpollEvents := store s.gEpollEvents b.val
         gCurEventReadPos := 0
         gCurTotalEvents := b.val.length }, rest)
  else (s, batches)

/-- The second part of `epoll_waitevent`: the position of the next event, or `none`
for `-1`. -/
def takeEvent (s : WaitState) : Option Nat × WaitState :=
  if s.gCurTotalEvents > 0 then
    let curreadPos := s.gCurEventReadPos
    let gCurEventReadPos := s.gCurEventReadPos + 1
    if gCurEventReadPos ≥ s.gCurTotalEvents - 1 then
      (some curreadPos, { s with gCurEventReadPos := 0, gCurTotalEvents := 0 })
    else (some curreadPos, { s with gCurEventReadPos })
  else (none, s)

def epollWaitevent (s : WaitState) (batches : List Batch) :
    Option Nat × WaitState × List Batch :=
  let (s, batches) := refill s batches
  let (pos, s) := takeEvent s
  (pos, s, batches)

/-- The `erEventbits` that `selectWaitevent` leaves in the request. -/
def eventbits (events old : Bits) : Bits :=
  if events = EPOLLIN ∨ events = EPOLLHUP ∨ events = EPOLLERR then EV_RE
  else if events = EPOLLOUT then EV_WR
  else old

/-- What a call of `selectWaitevent` returns and leaves behind. -/
structure WaitResult where
  ret : Int
  req : Eventreq
  wait : WaitState
  gDataMap : Fd → Option Nat
  batches : List Batch

/-- `selectWaitevent`. Reading `gDataMap[fd]` enters a null pointer for an absent `fd`. -/
def selectWaitevent (s : WaitState) (gDataMap : Fd → Option Nat) (req : Eventreq)
    (batches : List Batch) : WaitResult :=
  match epollWaitevent s batches with
  | (some eventPos, s, batches) =>
    let ev := s.gEpollEvents eventPos
    let erData := (gDataMap ev.fd).getD 0
    { ret := 0
      req :=
        { erHandle := ev.fd
          erData
          erEventbits := eventbits ev.events req.erEventbits }
      wait := s
      gDataMap := Function.update gDataMap ev.fd (some erData)
      batches }
  | (none, s, batches) => { ret := EINTR, req, wait := s, gDataMap, batches }

end CxxFramework.Net
