import CxxFramework.Socket.Epoll
import Mathlib.Algebra.GroupWithZero.Nat
import Mathlib.Algebra.Order.BigOperators.Group.List
import Mathlib.Algebra.Order.Group.Nat

/-!
# Delivery of epoll events

Which entries of the `epoll_wait` batches reach the event thread. The cursor is taken
back one entry too early, so a batch of two or more entries loses its last one; a batch
of at most one entry is handed over in full.
-/

namespace CxxFramework.Net

/-- The descriptors of a batch, in order. -/
def Batch.fds (b : Batch) : List Fd := b.val.map EpollEvent.fd

/-- The descriptors handed over by successive calls of `selectWaitevent`. Each call has
its own view of `gDataMap`, which other threads change, and its own request. -/
def deliveries (s : WaitState) (batches : List Batch) :
    List ((Fd → Option Nat) × Eventreq) → List Fd
  | [] => []
  | (gDataMap, req) :: calls =>
    let r := selectWaitevent s gDataMap req batches
    if r.ret = 0 then r.req.erHandle :: deliveries r.wait r.batches calls
    else deliveries r.wait r.batches calls

/-- The entries a batch hands over: all but the last, if there is more than one. -/
def Batch.handed (b : Batch) : List Fd :=
  if b.val.length ≤ 1 then b.fds else b.fds.dropLast

/-- The entries of the current batch that are still to be handed over. -/
def WaitState.remaining (s : WaitState) : List Fd :=
  if s.gCurTotalEvents = 0 then []
  else
    (List.range' s.gCurEventReadPos (max 1 (s.gCurTotalEvents - 1) - s.gCurEventReadPos)).map
      fun i => (s.gEpollEvents i).fd

/-- The cursor is at rest, or stands on an entry that is still to be handed over. -/
def WaitState.Valid (s : WaitState) : Prop :=
  s.gCurTotalEvents = 0 ∨ s.gCurEventReadPos < max 1 (s.gCurTotalEvents - 1)

/-- Everything that is still to be handed over. -/
def handover (s : WaitState) (batches : List Batch) : List Fd :=
  s.remaining ++ batches.flatMap Batch.handed

/-- The calls it takes at most to read past the batches. -/
def callsFor (batches : List Batch) : Nat := (batches.map fun b => max 1 b.val.length).sum

@[simp] theorem remaining_of_rest {s : WaitState} (h : s.gCurTotalEvents = 0) :
    s.remaining = [] := by
  simp [WaitState.remaining, h]

theorem store_fds (events : Nat → EpollEvent) (entries : List EpollEvent) {n : Nat}
    (hn : n ≤ entries.length) :
    (List.range' 0 n).map (fun i => (store events entries i).fd) =
      (entries.take n).map EpollEvent.fd := by
  apply List.ext_getElem
  · simp [hn]
  · intro i hi _
    have hlt : i < entries.length := by simp at hi; omega
    simp [store, hlt]

/-- A freshly stored batch hands over all its entries but the last. -/
theorem remaining_store (s : WaitState) (b : Batch) :
    WaitState.remaining ⟨store s.gEpollEvents b.val, 0, b.val.length⟩ = b.handed := by
  unfold WaitState.remaining Batch.handed Batch.fds
  rcases hlen : b.val.length with _ | _ | n
  · simp [List.length_eq_zero_iff.mp hlen]
  · have hn : max 1 (0 + 1 - 1) - 0 = b.val.length := by omega
    simp only [hn]
    rw [store_fds _ _ le_rfl, List.take_length]
    simp
  · have hn : max 1 (n + 1 + 1 - 1) - 0 = b.val.length - 1 := by omega
    simp only [hn]
    rw [store_fds _ _ (Nat.sub_le _ _), ← List.dropLast_eq_take, List.map_dropLast]
    simp

/-! ## One call -/

theorem refill_spec {s : WaitState} (h : s.Valid) (batches : List Batch) :
    (refill s batches).1.Valid ∧
      handover (refill s batches).1 (refill s batches).2 = handover s batches ∧
      (refill s batches).1.remaining.length + callsFor (refill s batches).2 ≤
        s.remaining.length + callsFor batches ∧
      ((refill s batches).1.gCurTotalEvents = 0 →
        callsFor (refill s batches).2 = callsFor batches - 1 ∧ s.gCurTotalEvents = 0) := by
  unfold refill
  split_ifs with hrest
  · cases batches with
    | nil => simp [WaitState.Valid, handover, hrest, callsFor]
    | cons b rest =>
      have hhanded := remaining_store s b
      refine ⟨.inr (Nat.lt_of_lt_of_le Nat.one_pos (Nat.le_max_left 1 _)), ?_, ?_, ?_⟩
      · simp [handover, hhanded, remaining_of_rest hrest]
      · have hle : b.handed.length ≤ b.val.length := by
          unfold Batch.handed Batch.fds; split_ifs <;> simp
        simp only [hhanded, remaining_of_rest hrest, callsFor, List.map_cons, List.sum_cons]
        omega
      · intro hlen
        simp only at hlen
        refine ⟨?_, hrest⟩
        simp only [callsFor, List.map_cons, List.sum_cons, hlen]
        omega
  · exact ⟨h, rfl, le_rfl, fun hzero => absurd hzero hrest⟩

theorem takeEvent_none {s : WaitState} (h : s.gCurTotalEvents = 0) : takeEvent s = (none, s) := by
  simp [takeEvent, h]

/-- Taking an event hands over the first of the remaining ones. -/
theorem takeEvent_spec {s : WaitState} (h : s.Valid) (ht : s.gCurTotalEvents ≠ 0) :
    ∃ s', takeEvent s = (some s.gCurEventReadPos, s') ∧ s'.Valid ∧
      s'.gEpollEvents = s.gEpollEvents ∧
      s.remaining = (s.gEpollEvents s.gCurEventReadPos).fd :: s'.remaining := by
  have hp : s.gCurEventReadPos < max 1 (s.gCurTotalEvents - 1) := h.resolve_left ht
  have hpos : 0 < s.gCurTotalEvents := Nat.pos_of_ne_zero ht
  obtain ⟨m, hm⟩ : ∃ m, max 1 (s.gCurTotalEvents - 1) - s.gCurEventReadPos = m + 1 :=
    ⟨max 1 (s.gCurTotalEvents - 1) - s.gCurEventReadPos - 1, by omega⟩
  have hhead : s.remaining = (s.gEpollEvents s.gCurEventReadPos).fd ::
      (List.range' (s.gCurEventReadPos + 1) m).map fun i => (s.gEpollEvents i).fd := by
    rw [WaitState.remaining, if_neg ht, hm, List.range'_succ, List.map_cons]
  by_cases hlast : s.gCurEventReadPos + 1 ≥ s.gCurTotalEvents - 1
  · refine ⟨{ s with gCurEventReadPos := 0, gCurTotalEvents := 0 }, ?_, .inl rfl, rfl, ?_⟩
    · simp [takeEvent, hpos, hlast]
    · have hm0 : m = 0 := by omega
      rw [hhead, hm0, remaining_of_rest rfl]
      rfl
  · refine ⟨{ s with gCurEventReadPos := s.gCurEventReadPos + 1 }, ?_, .inr ?_, rfl, ?_⟩
    · simp [takeEvent, hpos, hlast]
    · simp only; omega
    · have hm' : max 1 (s.gCurTotalEvents - 1) - (s.gCurEventReadPos + 1) = m := by omega
      rw [hhead, WaitState.remaining, if_neg ht]
      simp only [hm']

/-- One call either hands over the first of the entries to come, or consumes an empty
batch; either way the calls still needed go down. -/
theorem selectWaitevent_spec {s : WaitState} (h : s.Valid) (gDataMap : Fd → Option Nat)
    (req : Eventreq) (batches : List Batch) (r : WaitResult)
    (hr : r = selectWaitevent s gDataMap req batches) :
    r.wait.Valid ∧
      r.wait.remaining.length + callsFor r.batches ≤ s.remaining.length + callsFor batches - 1 ∧
      (r.ret = 0 → handover s batches = r.req.erHandle :: handover r.wait r.batches) ∧
      (r.ret ≠ 0 → handover s batches = handover r.wait r.batches) := by
  obtain ⟨hvalid, hsame, hcalls, hzero⟩ := refill_spec h batches
  by_cases ht : (refill s batches).1.gCurTotalEvents = 0
  · have hr' : r = ⟨EINTR, req, (refill s batches).1, gDataMap, (refill s batches).2⟩ := by
      simp [hr, selectWaitevent, epollWaitevent, takeEvent_none ht]
    obtain ⟨hless, hrest⟩ := hzero ht
    subst hr'
    refine ⟨hvalid, ?_, by simp [EINTR], fun _ => hsame.symm⟩
    simp only [remaining_of_rest ht, remaining_of_rest hrest, List.length_nil]
    omega
  · obtain ⟨s', htake, hvalid', hevents, hhead⟩ := takeEvent_spec hvalid ht
    have hr' : r.ret = 0 ∧ r.wait = s' ∧ r.batches = (refill s batches).2 ∧ r.req.erHandle =
        ((refill s batches).1.gEpollEvents (refill s batches).1.gCurEventReadPos).fd := by
      simp [hr, selectWaitevent, epollWaitevent, htake, hevents]
    obtain ⟨hret, hwait, hbatches, hfd⟩ := hr'
    refine ⟨hwait ▸ hvalid', ?_, fun _ => ?_, fun hne => absurd hret hne⟩
    · rw [hwait, hbatches]
      have := congrArg List.length hhead
      simp only [List.length_cons] at this
      omega
    · rw [← hsame, handover, hhead, hfd, hwait, hbatches]
      rfl

/-! ## Successive calls -/

/-- Enough calls hand over everything there is to hand over. -/
theorem deliveries_eq_handover {s : WaitState} (h : s.Valid) {batches : List Batch}
    {calls : List ((Fd → Option Nat) × Eventreq)}
    (enough : s.remaining.length + callsFor batches ≤ calls.length) :
    deliveries s batches calls = handover s batches := by
  induction calls generalizing s batches with
  | nil =>
    simp only [List.length_nil, Nat.le_zero, Nat.add_eq_zero_iff] at enough
    have hrem : s.remaining = [] := List.length_eq_zero_iff.mp enough.1
    have hnil : batches = [] := by
      cases batches with
      | nil => rfl
      | cons b rest =>
        have hpos := enough.2
        simp only [callsFor, List.map_cons, List.sum_cons] at hpos
        omega
    simp [deliveries, handover, hrem, hnil]
  | cons call calls ih =>
    obtain ⟨gDataMap, req⟩ := call
    obtain ⟨hvalid, hless, hsome, hnone⟩ := selectWaitevent_spec h gDataMap req batches _ rfl
    simp only [List.length_cons] at enough
    have hrest := ih hvalid (hless.trans (by omega))
    simp only [deliveries]
    split_ifs with hret
    · rw [hrest, ← hsome hret]
    · rw [hrest, ← hnone hret]

/-- From the start of the event layer, enough calls hand over all but the last entry of
every batch that has more than one. -/
theorem deliveries_start (s : WaitState) {batches : List Batch}
    {calls : List ((Fd → Option Nat) × Eventreq)} (enough : callsFor batches ≤ calls.length) :
    deliveries (selectStartevents s) batches calls = batches.flatMap Batch.handed := by
  have hrest : (selectStartevents s).remaining = [] := remaining_of_rest rfl
  rw [deliveries_eq_handover (.inl rfl) (by simpa [hrest] using enough), handover, hrest,
    List.nil_append]

theorem handed_length_lt {b : Batch} (h : 1 < b.val.length) : b.handed.length < b.fds.length := by
  rw [Batch.handed, if_neg (not_le.mpr h), List.length_dropLast, Batch.fds, List.length_map]
  omega

theorem handed_length_le (b : Batch) : b.handed.length ≤ b.fds.length := by
  unfold Batch.handed; split_ifs <;> simp

theorem handed_flatMap_length_le (batches : List Batch) :
    (batches.flatMap Batch.handed).length ≤ (batches.flatMap Batch.fds).length := by
  simp only [List.length_flatMap]
  exact List.sum_le_sum fun b _ => handed_length_le b

/-- Nothing is lost or duplicated exactly when no batch has more than one entry. -/
theorem handed_eq_fds_iff (batches : List Batch) :
    batches.flatMap Batch.handed = batches.flatMap Batch.fds ↔ ∀ b ∈ batches, b.val.length ≤ 1 := by
  induction batches with
  | nil => simp
  | cons b rest ih =>
    rw [List.forall_mem_cons, ← ih, List.flatMap_cons, List.flatMap_cons]
    constructor
    · intro heq
      have hb : b.val.length ≤ 1 := by
        by_contra hgt
        have h1 := handed_length_lt (not_le.mp hgt)
        have h2 := handed_flatMap_length_le rest
        have h3 := congrArg List.length heq
        simp only [List.length_append] at h3
        omega
      exact ⟨hb, by simpa [Batch.handed, hb] using heq⟩
    · rintro ⟨hb, hrest⟩
      simp [Batch.handed, hb, hrest]

/-- From the start of the event layer, enough calls of `selectWaitevent` hand over the
concatenation of all batches exactly when no batch has more than one entry. -/
theorem deliveries_eq_iff (s : WaitState) (batches : List Batch)
    (calls : List ((Fd → Option Nat) × Eventreq)) (enough : callsFor batches ≤ calls.length) :
    deliveries (selectStartevents s) batches calls = batches.flatMap Batch.fds ↔
      ∀ b ∈ batches, b.val.length ≤ 1 := by
  rw [deliveries_start s enough, handed_eq_fds_iff]

/-- An event array that has not been filled yet. -/
def emptyWait : WaitState := ⟨fun _ => ⟨-1, 0⟩, 0, 0⟩

/-- Four batches, the second one empty; the first and the last are of one descriptor. -/
def shortBatches : List Batch :=
  [⟨[⟨7, EPOLLIN⟩], by decide⟩, ⟨[], by decide⟩, ⟨[⟨8, EPOLLOUT⟩], by decide⟩,
    ⟨[⟨7, EPOLLHUP⟩], by decide⟩]

/-- One batch of two events. -/
def twoEvents : List Batch := [⟨[⟨7, EPOLLIN⟩, ⟨8, EPOLLIN⟩], by decide⟩]

/-- Calls that find descriptor 7 registered at first and descriptor 8 later. -/
def sixCalls : List ((Fd → Option Nat) × Eventreq) :=
  List.replicate 2 ((fun fd => if fd = 7 then some 3 else none), ({} : Eventreq)) ++
    List.replicate 4 ((fun fd => if fd = 8 then some 4 else none), ({} : Eventreq))

theorem deliveries_eq_iff_shortBatches :
    deliveries (selectStartevents emptyWait) shortBatches sixCalls = [7, 8, 7] ∧
      deliveries (selectStartevents emptyWait) (shortBatches ++ twoEvents) sixCalls ≠
        [7, 8, 7, 7, 8] := by
  constructor
  · exact (deliveries_eq_iff emptyWait shortBatches sixCalls (by decide)).mpr (by decide)
  · intro hall
    have hshort := (deliveries_eq_iff emptyWait (shortBatches ++ twoEvents) sixCalls
      (by decide)).mp hall
    exact absurd hshort (by decide)

/-- However many calls are made, the second of the two events is not handed over. -/
theorem deliveries_lose_event :
    ¬ ∃ n, deliveries (selectStartevents emptyWait) twoEvents
      (List.replicate n (fun _ => none, {})) = twoEvents.flatMap Batch.fds := by
  rintro ⟨n, hn⟩
  rcases n with _ | _ | n
  · exact absurd hn (by decide)
  · exact absurd hn (by decide)
  · have henough : callsFor twoEvents ≤ (List.replicate (n + 2) ((fun _ => none, {}) :
        (Fd → Option Nat) × Eventreq)).length := by
      rw [List.length_replicate, show callsFor twoEvents = 2 from rfl]
      omega
    rw [deliveries_start emptyWait henough] at hn
    exact absurd hn (by decide)

end CxxFramework.Net
