import CxxFramework.Socket.Epoll

/-!
# The event bits of the event thread

`EventThread::Entry` hands one and the same request to every call of `selectWaitevent`. An
event whose mask is none of the four single bits leaves the event bits of the request as
they are, so it is reported with the bits of some earlier event, or with none.
-/

namespace CxxFramework.Net

/-- The event that a call of `selectWaitevent` takes, if it takes one. -/
def takenEvent (s : WaitState) (batches : List Batch) : Option EpollEvent :=
  match epollWaitevent s batches with
  | (some eventPos, s, _) => some (s.gEpollEvents eventPos)
  | (none, _, _) => none

/-- The events that the event thread takes by successive calls, and the event bits that each
of them is reported with. Each call has its own view of `gDataMap`. -/
def reports (s : WaitState) (theCurrentEvent : Eventreq) (batches : List Batch) :
    List (Fd → Option Nat) → List (EpollEvent × Bits)
  | [] => []
  | gDataMap :: calls =>
    let r := selectWaitevent s gDataMap theCurrentEvent batches
    match takenEvent s batches with
    | some event => (event, r.req.erEventbits) :: reports r.wait r.req r.batches calls
    | none => reports r.wait r.req r.batches calls

/-- A non-empty combination of the bits that epoll reports. -/
def Combination (events : Bits) : Prop :=
  events ≠ 0 ∧ ∃ readable writable hangUp error : Bool,
    events = (if readable then EPOLLIN else 0) ||| (if writable then EPOLLOUT else 0) |||
      (if hangUp then EPOLLHUP else 0) ||| (if error then EPOLLERR else 0)

/-- There is something to read, a hang-up or an error. -/
def Readable (events : Bits) : Prop :=
  events.has EPOLLIN ∨ events.has EPOLLHUP ∨ events.has EPOLLERR

instance (events : Bits) : Decidable (Readable events) :=
  inferInstanceAs (Decidable (_ ∨ _ ∨ _))

/-- The event bits say what the mask of an event says. -/
def Classified (events bits : Bits) : Prop :=
  (Readable events → bits.has EV_RE) ∧
    (events.has EPOLLOUT → ¬ Readable events → bits.has EV_WR)

instance (events bits : Bits) : Decidable (Classified events bits) :=
  inferInstanceAs (Decidable (_ ∧ _))

/-- The event is reported with the event bits, by an event thread that has just started, after
some batches of events. -/
def Reported (event : EpollEvent) (bits : Bits) : Prop :=
  ∃ s batches calls, (∀ b ∈ batches, ∀ e ∈ b.val, Combination e.events) ∧
    (event, bits) ∈ reports (selectStartevents s) {} batches calls

/-- The event is reported as its mask says, and always with the same event bits. -/
def ReportedRight (event : EpollEvent) : Prop :=
  (∀ bits, Reported event bits → Classified event.events bits) ∧
    ∀ bits bits', Reported event bits → Reported event bits' → bits = bits'

/-- The masks that `selectWaitevent` looks for. -/
def Recognized (events : Bits) : Prop :=
  events = EPOLLIN ∨ events = EPOLLHUP ∨ events = EPOLLERR ∨ events = EPOLLOUT

variable {s : WaitState} {req : Eventreq} {batches : List Batch} {event : EpollEvent} {bits : Bits}

/-- What is reported is worked out from the event and from what the request held before. -/
theorem selectWaitevent_taken (gDataMap : Fd → Option Nat) (req : Eventreq)
    (h : takenEvent s batches = some event) :
    (selectWaitevent s gDataMap req batches).req.erEventbits =
      eventbits event.events req.erEventbits := by
  unfold takenEvent at h
  unfold selectWaitevent
  generalize epollWaitevent s batches = waited at h ⊢
  obtain ⟨pos, s', batches'⟩ := waited
  cases pos with
  | none => cases h
  | some eventPos =>
    cases h
    rfl

theorem reports_spec {calls : List (Fd → Option Nat)}
    (h : (event, bits) ∈ reports s req batches calls) :
    ∃ old, bits = eventbits event.events old := by
  induction calls generalizing s req batches with
  | nil => cases h
  | cons gDataMap calls ih =>
    unfold reports at h
    cases htaken : takenEvent s batches with
    | none =>
      simp only [htaken] at h
      exact ih h
    | some taken =>
      simp only [htaken, List.mem_cons, Prod.mk.injEq] at h
      rcases h with ⟨rfl, rfl⟩ | h
      · exact ⟨_, selectWaitevent_taken gDataMap req htaken⟩
      · exact ih h

/-- A recognized mask is reported whatever came before. -/
theorem eventbits_recognized {events : Bits} (h : Recognized events) (old : Bits) :
    eventbits events old = eventbits events 0 ∧ Classified events (eventbits events 0) := by
  rcases h with rfl | rfl | rfl | rfl
  all_goals exact ⟨rfl, by decide⟩

theorem eventbits_other {events : Bits} (h : ¬ Recognized events) (old : Bits) :
    eventbits events old = old := by
  simp only [Recognized, not_or] at h
  obtain ⟨hin, hhup, herr, hout⟩ := h
  simp [eventbits, hin, hhup, herr, hout]

/-- The empty request says nothing about an event. -/
theorem not_classified_zero {events : Bits} (h : Combination events) : ¬ Classified events 0 := by
  obtain ⟨hne, readable, writable, hangUp, error, rfl⟩ := h
  revert hne
  revert readable writable hangUp error
  decide

theorem single_fits (event : EpollEvent) : [event].length ≤ MAX_EPOLL_FD := by
  simp [MAX_EPOLL_FD]

/-- The first event of an event thread. -/
theorem reports_first (event : EpollEvent) :
    (event, eventbits event.events 0) ∈
      reports (selectStartevents ⟨fun _ => event, 0, 0⟩) {} [⟨[event], single_fits event⟩]
        [fun _ => none] :=
  List.mem_cons_self

/-- An event is reported right exactly if its mask is one that `selectWaitevent` looks for. -/
theorem reportedRight_iff (h : Combination event.events) :
    ReportedRight event ↔ Recognized event.events := by
  constructor
  · rintro ⟨hright, -⟩
    by_contra hother
    have hreported : Reported event (eventbits event.events 0) :=
      ⟨_, _, _, by simpa using h, reports_first event⟩
    rw [eventbits_other hother] at hreported
    exact not_classified_zero h (hright 0 hreported)
  · intro hmask
    have hbits : ∀ bits, Reported event bits → bits = eventbits event.events 0 := by
      rintro bits ⟨s, batches, calls, -, hmem⟩
      obtain ⟨old, rfl⟩ := reports_spec hmem
      exact (eventbits_recognized hmask old).1
    refine ⟨fun bits hreported => ?_, fun bits bits' hreported hreported' => ?_⟩
    · rw [hbits bits hreported]
      exact (eventbits_recognized hmask 0).2
    · rw [hbits bits hreported, hbits bits' hreported']

theorem reportedRight_iff_hangUp : ReportedRight ⟨7, EPOLLHUP⟩ ↔ Recognized EPOLLHUP :=
  reportedRight_iff ⟨by decide, false, false, true, false, by decide⟩

/-- A descriptor that can be read and is hung up, after one that can be written to. -/
def readAfterWrite : List Batch :=
  [⟨[⟨7, EPOLLOUT⟩], by decide⟩, ⟨[⟨8, EPOLLIN ||| EPOLLHUP⟩], by decide⟩]

/-- What can be read is reported as what can be written to. -/
theorem readAfterWrite_not_classified :
    reports (selectStartevents ⟨fun _ => ⟨-1, 0⟩, 0, 0⟩) {} readAfterWrite
        [fun _ => none, fun _ => none] =
      [(⟨7, EPOLLOUT⟩, EV_WR), (⟨8, EPOLLIN ||| EPOLLHUP⟩, EV_WR)] ∧
      ¬ Classified (EPOLLIN ||| EPOLLHUP) EV_WR := by
  decide

end CxxFramework.Net
