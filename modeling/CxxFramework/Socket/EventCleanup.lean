import CxxFramework.Core.HashTableIter
import CxxFramework.Core.RefTable
import CxxFramework.Socket.EventContext

/-!
# Cleaning up event contexts

`EventContext::Cleanup` closes the descriptor of a context and takes the context out of the
reference table of the event thread. It invalidates `fFileDesc` first, so the
`select_removeevent` that follows is for no descriptor: the kernel drops its interest when the
descriptor is closed, but the entry in `gDataMap` stays.

On `kCleanEvent` the event thread cleans up all the contexts in its reference table, while it
iterates over that table.

`select_waitevent` enters a null pointer in `gDataMap` for a descriptor that is not there. An
event that it hands out behind the removal of its descriptor leaves such an entry.

## Main definitions

* `EventContext.cleanup` — what `Cleanup` does to a context and to the event layer.
* `EventThread.cleanEvent` — the loop of the event thread.
* `EventContext.happen` — what happens to a context and to its descriptor.
* `EventContext.LeavesNothing` — nothing of a registration is left behind.
-/

namespace CxxFramework.Net

open CxxFramework.Core LinkedChain

/-- The kernel drops its interest in a descriptor that is closed. -/
def Epoll.close (e : Epoll) (fd : Fd) : Epoll :=
  { e with interest := Function.update e.interest fd none }

namespace EventContext

/-- Whether `Cleanup` takes the context out of the reference table. -/
def unregisters (ctx : EventContext) : Bool :=
  ctx.fFileDesc != kInvalidFileDesc && decide (0 < ctx.fUniqueID)

/-- The calls that `Cleanup` makes to the event layer, and its `close`. -/
def cleanupEpoll (ctx : EventContext) (epoll : Epoll) : Epoll :=
  if ctx.fFileDesc ≠ kInvalidFileDesc then
    -- the field holds no descriptor any more
    let epoll := if ctx.fUniqueID > 0 then (selectRemoveevent epoll kInvalidFileDesc).2 else epoll
    epoll.close ctx.fFileDesc
  else epoll

/-- The variable `err` of `Cleanup`; `closed` is what `close` returns. -/
def cleanupErr (ctx : EventContext) (closed : Int) : Int :=
  if ctx.fFileDesc ≠ kInvalidFileDesc then closed else 0

theorem cleanupErr_zero (ctx : EventContext) : ctx.cleanupErr 0 = 0 := ite_self 0

/-- The fields that `Cleanup` leaves behind. -/
def cleanedUp (ctx : EventContext) : EventContext :=
  { ctx with fFileDesc := kInvalidFileDesc, fWatchEventCalled := false, fUniqueID := 0 }

end EventContext

/-! ## The loop of the event thread -/

/-- The contexts, given by their addresses, with the event layer and the reference table of
the event thread. Each context has its own `Ref`, with the hash value that was set last. -/
structure EventThread where
  contexts : Nat → EventContext
  epoll : Epoll
  fRefTable : LinkedTable Nat
  fNextHashEntry : Links Nat
  fHashValue : Nat → Nat

namespace EventThread

/-- `RefTable::UnRegister`; `looks k` is what the look number `k` at the count of the ref
finds. None if it has not found a count that is low enough within `n` looks. -/
def unRegister (thread : EventThread) (looks : Nat → Nat) (ref refCount n : Nat) :
    Option EventThread :=
  if ∃ k < n, looks k ≤ refCount then
    (thread.fRefTable.remove thread.fNextHashEntry ref (thread.fHashValue ref) n).map fun removed =>
      { thread with fRefTable := removed.1, fNextHashEntry := removed.2 }
  else none

/-- `EventContext::Cleanup`; `closes c` is what `close` returns for the context `c`. None also
if the assertion at its end fails. -/
def cleanup (looks : Nat → Nat → Nat) (closes : Nat → Int) (n c : Nat) (thread : EventThread) :
    Option EventThread :=
  let ctx := thread.contexts c
  let thread :=
    { thread with
      contexts := Function.update thread.contexts c ctx.cleanedUp
      epoll := ctx.cleanupEpoll thread.epoll }
  (if ctx.unregisters then thread.unRegister (looks c) c 0 n else some thread).bind fun thread =>
    if ctx.cleanupErr (closes c) = 0 then some thread else none

def table (thread : EventThread) : LinkedTable Nat × Links Nat :=
  (thread.fRefTable, thread.fNextHashEntry)

/-- The branch of `EventThread::Entry` for `kCleanEvent`. -/
def cleanEvent (looks : Nat → Nat → Nat) (closes : Nat → Int) (fCurrent : Option Nat) (n : Nat)
    (thread : EventThread) : Option EventThread :=
  (HashTableIter.first thread.fRefTable fCurrent).bind fun iter =>
    (HashTableIter.visits table (cleanup looks closes) n thread iter).map Prod.snd

/-- The reference table of the thread, its chains as lists. -/
structure Registry (thread : EventThread) (h : HashTable Ref) : Prop where
  linked : h.Linked
  represents : thread.fRefTable.Represents thread.fNextHashEntry h Ref.address
  hash : ∀ ref ∈ h.entries, thread.fHashValue ref.address = hashString ref.fString

/-- The contexts of the refs have descriptors and identifiers. -/
def Armed (thread : EventThread) (h : HashTable Ref) : Prop :=
  ∀ ref ∈ h.entries, (thread.contexts ref.address).unregisters

def Empty (t : LinkedTable Nat) : Prop := (∀ i, t.fHashTable i = none) ∧ t.fNumEntries = 0

/-- The loop ends and all contexts that were registered are cleaned up, and no others. The
table is empty then, if the contexts had descriptors and identifiers. Each ref is released some
time, and each `close` succeeds. -/
def CleansUp (thread : EventThread) (h : HashTable Ref) : Prop :=
  ∀ (looks : Nat → Nat → Nat) (closes : Nat → Int) (fCurrent : Option Nat),
    (∀ c, ∃ k, looks c k = 0) → (∀ c, closes c = 0) →
    ∃ thread' m, (∀ n ≥ m, thread.cleanEvent looks closes fCurrent n = some thread') ∧
      (∀ ref ∈ h.entries,
        thread'.contexts ref.address = (thread.contexts ref.address).cleanedUp) ∧
      (∀ c, (∀ ref ∈ h.entries, ref.address ≠ c) → thread'.contexts c = thread.contexts c) ∧
      (thread.Armed h → Empty thread'.fRefTable)

variable {thread thread₀ : EventThread} {h h₀ : HashTable Ref} {ref : Ref}
  {looks : Nat → Nat → Nat} {closes : Nat → Int} {rest : List Ref}

/-- The state of the loop with the refs that are left to visit: the contexts of the others are
cleaned up, and of these only the refs of contexts that were not armed are in the table. -/
structure Left (thread₀ : EventThread) (h₀ : HashTable Ref) (rest : List Ref) (h : HashTable Ref)
    (thread : EventThread) : Prop where
  registry : thread.Registry h
  size : h.fSize = h₀.fSize
  nodup : rest.Nodup
  sub : ∀ ref ∈ rest, ref ∈ h.entries ∧ ref ∈ h₀.entries
  gone : ∀ ref ∈ h.entries, ref ∈ rest ∨ ¬ (thread₀.contexts ref.address).unregisters
  entry : ∀ ref ∈ h.entries, ref ∈ h₀.entries
  passed : ∀ ref ∈ h₀.entries, ref ∉ rest →
    thread.contexts ref.address = (thread₀.contexts ref.address).cleanedUp
  others : ∀ c, (∀ ref ∈ h₀.entries, ref ∉ rest → ref.address ≠ c) →
    thread.contexts c = thread₀.contexts c

/-- Cleaning up a context takes its ref out, if the context is armed. -/
theorem cleanup_spec (hreg : thread.Registry h) (href : ref ∈ h.entries)
    (hlooks : ∃ k, looks ref.address k = 0) (hcloses : closes ref.address = 0) :
    ∃ thread' m, (∀ n ≥ m, cleanup looks closes n ref.address thread = some thread') ∧
      thread'.contexts =
        Function.update thread.contexts ref.address (thread.contexts ref.address).cleanedUp ∧
      thread'.Registry (if (thread.contexts ref.address).unregisters then h.remove ref else h) := by
  have herr : (thread.contexts ref.address).cleanupErr (closes ref.address) = 0 := by
    rw [hcloses, EventContext.cleanupErr_zero]
  cases harmed : (thread.contexts ref.address).unregisters with
  | false =>
    refine ⟨{ thread with
        contexts := Function.update thread.contexts ref.address
          (thread.contexts ref.address).cleanedUp
        epoll := (thread.contexts ref.address).cleanupEpoll thread.epoll }, 0, fun n _ => ?_, rfl,
      hreg.linked, hreg.represents, hreg.hash⟩
    rw [cleanup, harmed, if_neg Bool.false_ne_true, Option.bind_some, if_pos herr]
  | true =>
    obtain ⟨k, hk⟩ := hlooks
    have hsame : ∀ ref' ∈ h.entries, ref'.address = ref.address → ref' = ref :=
      fun ref' href' heq => hreg.represents.inj ref' href' ref href heq
    obtain ⟨t', links', m, hremove, hr'⟩ := hreg.represents.remove hreg.linked hsame
    have hhash : thread.fHashValue ref.address = HashEntry.getHashKey Ref (HashEntry.key ref) :=
      hreg.hash ref href
    refine ⟨{ thread with
        contexts := Function.update thread.contexts ref.address
          (thread.contexts ref.address).cleanedUp
        epoll := (thread.contexts ref.address).cleanupEpoll thread.epoll
        fRefTable := t', fNextHashEntry := links' }, max m (k + 1), ?_, rfl, ?_, hr', ?_⟩
    · intro n hn
      rw [cleanup, if_pos harmed, unRegister, if_pos ⟨k, by omega, by omega⟩, hhash,
        hremove n (by omega), Option.map_some, Option.bind_some, if_pos herr]
    · exact HashTable.remove_linked hreg.linked ref
    · intro ref' href'
      exact hreg.hash ref' ((HashTable.mem_remove hreg.linked).mp href').1

theorem Left.step (hinj : ∀ ref ∈ h₀.entries, ∀ ref' ∈ h₀.entries,
      ref.address = ref'.address → ref = ref')
    (hlooks : ∀ c, ∃ k, looks c k = 0) (hcloses : ∀ c, closes c = 0)
    (hleft : Left thread₀ h₀ (ref :: rest) h thread) :
    ∃ thread' m, (∀ n ≥ m, cleanup looks closes n ref.address thread = some thread') ∧
      (Left thread₀ h₀ rest h thread' ∨ Left thread₀ h₀ rest (h.remove ref) thread') := by
  obtain ⟨hnot, hnodup⟩ := List.nodup_cons.mp hleft.nodup
  obtain ⟨href, href₀⟩ := hleft.sub ref List.mem_cons_self
  obtain ⟨thread', m, hcleanup, hcontexts, hreg⟩ :=
    cleanup_spec hleft.registry href (hlooks ref.address) (hcloses ref.address)
  -- nothing has touched the context so far
  have hcur : thread.contexts ref.address = thread₀.contexts ref.address := by
    refine hleft.others ref.address fun ref' href' hout heq => ?_
    obtain rfl := hinj ref' href' ref href₀ heq
    exact hout List.mem_cons_self
  have hpassed : ∀ ref' ∈ h₀.entries, ref' ∉ rest →
      thread'.contexts ref'.address = (thread₀.contexts ref'.address).cleanedUp := by
    intro ref' href' hout
    rw [hcontexts]
    by_cases heq : ref' = ref
    · rw [heq, Function.update_self, hcur]
    · rw [Function.update_of_ne fun haddr => heq (hinj ref' href' ref href₀ haddr)]
      exact hleft.passed ref' href' (by simp [heq, hout])
  have hothers : ∀ c, (∀ ref ∈ h₀.entries, ref ∉ rest → ref.address ≠ c) →
      thread'.contexts c = thread₀.contexts c := by
    intro c hc
    rw [hcontexts, Function.update_of_ne (hc ref href₀ hnot).symm]
    refine hleft.others c fun ref' href' hout => hc ref' href' ?_
    exact fun hmem => hout (List.mem_cons_of_mem ref hmem)
  refine ⟨thread', m, hcleanup, ?_⟩
  rw [hcur] at hreg
  split_ifs at hreg with harmed
  · have hmem : ∀ {e}, e ∈ (h.remove ref).entries ↔ e ∈ h.entries ∧ e ≠ ref :=
      HashTable.mem_remove hleft.registry.linked
    refine .inr ⟨hreg, ?_, hnodup, ?_, ?_, ?_, hpassed, hothers⟩
    · rw [HashTableIter.remove_fSize]
      exact hleft.size
    · intro ref' href'
      obtain ⟨hin, hin₀⟩ := hleft.sub ref' (List.mem_cons_of_mem ref href')
      refine ⟨hmem.mpr ⟨hin, ?_⟩, hin₀⟩
      rintro rfl
      exact hnot href'
    · intro ref' href'
      obtain ⟨hin, hne⟩ := hmem.mp href'
      exact (hleft.gone ref' hin).imp_left fun hor => (List.mem_cons.mp hor).resolve_left hne
    · exact fun ref' href' => hleft.entry ref' (hmem.mp href').1
  · refine .inl ⟨hreg, hleft.size, hnodup, ?_, ?_, hleft.entry, hpassed, hothers⟩
    · exact fun ref' href' => hleft.sub ref' (List.mem_cons_of_mem ref href')
    · intro ref' href'
      rcases hleft.gone ref' href' with hor | hunarmed
      · rcases List.mem_cons.mp hor with rfl | hrest
        · exact .inr harmed
        · exact .inl hrest
      · exact .inr hunarmed

theorem Left.empty (harmed : thread₀.Armed h₀) (hleft : Left thread₀ h₀ [] h thread) :
    Empty thread.fRefTable := by
  have hnone : h.entries = [] := List.eq_nil_iff_forall_not_mem.mpr fun ref href =>
    (hleft.gone ref href).elim List.not_mem_nil fun hunarmed =>
      hunarmed (harmed ref (hleft.entry ref href))
  constructor
  · intro i
    have hchain := hleft.registry.represents.chain i
    have hnil : h.fHashTable i = [] := List.eq_nil_iff_forall_not_mem.mpr fun ref href => by
      have hin := hleft.registry.linked.mem_entries href
      rw [hnone] at hin
      exact List.not_mem_nil hin
    rwa [hnil] at hchain
  · rw [hleft.registry.represents.num, hleft.registry.linked.count, hnone]
    rfl

theorem cleansUp (hreg : thread.Registry h) (hpos : 0 < h.fSize) (hsize : h.fSize ≤ kIntIndices) :
    thread.CleansUp h := by
  intro looks closes fCurrent hlooks hcloses
  obtain ⟨iter, hfirst, hrem⟩ := HashTableIter.first_spec hreg.represents hpos hsize fCurrent
  have hstart : Left thread h h.entries h thread :=
    ⟨hreg, rfl, hreg.linked.nodup, fun _ href => ⟨href, href⟩, fun _ href => .inl href,
      fun _ href => href, fun _ href hout => absurd href hout, fun _ _ => rfl⟩
  obtain ⟨thread', h', m, hvisits, hleft⟩ :=
    HashTableIter.visits_spec table (cleanup looks closes) (Left thread h)
      (fun _ _ _ hg => ⟨hg.registry.linked, hg.registry.represents, by rwa [hg.size]⟩)
      (fun _ _ _ _ hg => hg.step hreg.represents.inj hlooks hcloses) hreg.linked.nodup hstart hrem
  refine ⟨thread', m, ?_, ?_, ?_, fun harmed => hleft.empty harmed⟩
  · intro n hn
    rw [cleanEvent, hfirst, Option.bind_some, hvisits n hn]
    rfl
  · exact fun ref href => hleft.passed ref href List.not_mem_nil
  · exact fun c hc => hleft.others c fun ref href _ => hc ref href

/-- In every table that an `int` can index, an iteration passes each entry once, whatever it
removes on the way, and the loop of the event thread cleans up all that is registered. -/
theorem visitsAll_and_cleansUp :
    (∀ (T K P : Type) [HashEntry T K] [DecidableEq T] [DecidableEq P] (t : LinkedTable P)
        (links : Links P) (h : HashTable T) (ptr : T → P),
      h.Linked → t.Represents links h ptr → 0 < h.fSize → h.fSize ≤ kIntIndices →
      HashTableIter.VisitsAll t links h ptr) ∧
    ∀ (thread : EventThread) (h : HashTable Ref),
      thread.Registry h → 0 < h.fSize → h.fSize ≤ kIntIndices → thread.CleansUp h :=
  ⟨fun _ _ _ _ _ _ _ _ _ _ hl hr hpos hsize => HashTableIter.visitsAll hl hr hpos hsize,
    fun _ _ hreg hpos hsize => cleansUp hreg hpos hsize⟩

/-! ### Examples -/

/-- The ref of the context at an address, with the bytes of its identifier. -/
def refOf (address : Nat) (fUniqueID : UInt8) : Ref := ⟨address, some [fUniqueID, 0, 0, 0, 0, 0, 0, 0]⟩

/-- Three refs in a table of three chains: the first one is empty, and the last one has two. -/
def threeTable : HashTable Ref :=
  (((HashTable.new 3).add (refOf 7 1)).add (refOf 8 2)).add (refOf 9 4)

/-- Their contexts, at the addresses 7, 8 and 9. -/
def threeContexts : EventThread where
  contexts c := { fFileDesc := c, fUniqueID := if c = 9 then 4 else c - 6, fWatchEventCalled := true }
  epoll := ⟨fun _ => none, fun _ => none⟩
  fRefTable := { (LinkedTable.new 3 : LinkedTable Nat) with
    fHashTable := fun i => if i = 1 then some 8 else if i = 2 then some 9 else none
    fNumEntries := 3 }
  fNextHashEntry c := if c = 9 then some 7 else none
  fHashValue c := if c = 9 then 32 else 8 * (c - 6)

theorem threeTable_linked : threeTable.Linked := by
  have hnew : (HashTable.new 3 : HashTable Ref).Linked := (HashTable.new_valid (by decide)).linked
  have hone : ((HashTable.new 3).add (refOf 7 1)).Linked :=
    HashTable.add_linked hnew (by simp [HashTable.new_entries])
  have htwo : (((HashTable.new 3).add (refOf 7 1)).add (refOf 8 2)).Linked :=
    HashTable.add_linked hone (by decide)
  exact HashTable.add_linked htwo (by decide)

theorem threeTable_entries : threeTable.entries = [refOf 8 2, refOf 9 4, refOf 7 1] := by decide

theorem threeContexts_registry : threeContexts.Registry threeTable := by
  refine ⟨threeTable_linked, ⟨rfl, rfl, rfl, ?_, ?_, ?_⟩, ?_⟩
  · intro i
    rcases i with _ | _ | _ | i
    · exact rfl
    · exact ⟨rfl, rfl⟩
    · exact ⟨rfl, rfl, rfl⟩
    · exact rfl
  · rw [threeTable_entries]
    decide
  · intro p hp
    rw [threeTable_entries] at hp
    have hnine : p ≠ 9 := by
      rintro rfl
      exact hp (refOf 9 4) (by decide) rfl
    exact if_neg hnine
  · rw [threeTable_entries]
    decide

theorem threeContexts_armed : threeContexts.Armed threeTable := by
  rw [Armed, threeTable_entries]
  decide

/-- The loop passes the three contexts, and the table is empty then. -/
theorem visitsAll_and_cleansUp_threeContexts :
    HashTableIter.VisitsAll threeContexts.fRefTable threeContexts.fNextHashEntry threeTable
        Ref.address ∧
      ∃ thread' m, (∀ n ≥ m, threeContexts.cleanEvent (fun _ k => 2 - k) (fun _ => 0) none n =
          some thread') ∧ Empty thread'.fRefTable := by
  have hreg := threeContexts_registry
  refine ⟨visitsAll_and_cleansUp.1 Ref _ Nat _ _ threeTable Ref.address hreg.linked
    hreg.represents (by decide) (by decide), ?_⟩
  obtain ⟨thread', m, hruns, -, -, hempty⟩ :=
    visitsAll_and_cleansUp.2 _ threeTable hreg (by decide) (by decide) (fun _ k => 2 - k)
      (fun _ => 0) none (fun _ => ⟨2, rfl⟩) (fun _ => rfl)
  exact ⟨thread', m, hruns, hempty threeContexts_armed⟩

/-- In a table of size 0 the iterator stands at whatever its memory holds, which the loop then
takes for an entry. -/
theorem new_zero_not_visitsAll :
    ¬ HashTableIter.VisitsAll (LinkedTable.new 0) (fun _ => none) (HashTable.new 0)
      Ref.address := by
  intro hvisits
  obtain ⟨iter, t', links', h', m, hfirst, hloop, -⟩ :=
    hvisits (fun _ => 0) (fun _ => false) (some 5) (by simp [HashTable.new_entries])
  have hiter : iter = ⟨some 5, 0⟩ := by
    rw [HashTableIter.first, HashTableIter.scan] at hfirst
    exact (Option.some.inj hfirst).symm
  have hnext : iter.next (LinkedTable.new 0) (fun _ => none) = some ⟨none, 1⟩ := by
    rw [hiter, HashTableIter.next, HashTableIter.scan]
    rfl
  have hrun := hloop (m + 2) (by omega)
  simp only [HashTableIter.visits, id_eq, hnext] at hrun
  simp [hiter, HashTableIter.removing, HashTable.new_entries] at hrun

/-- A table with the ref of one context, which has the identifier 0. -/
def zeroTable : HashTable Ref := (HashTable.new 3).add (refOf 7 0)

def zeroContext : EventThread where
  contexts _ := { fFileDesc := 5, fUniqueID := 0, fWatchEventCalled := true }
  epoll := ⟨fun _ => none, fun _ => none⟩
  fRefTable := { (LinkedTable.new 3 : LinkedTable Nat) with
    fHashTable := fun i => if i = 0 then some 7 else none
    fNumEntries := 1 }
  fNextHashEntry _ := none
  fHashValue _ := 0

theorem zeroContext_registry : zeroContext.Registry zeroTable := by
  have hnew : (HashTable.new 3 : HashTable Ref).Linked := (HashTable.new_valid (by decide)).linked
  have hentries : zeroTable.entries = [refOf 7 0] := by decide
  refine ⟨HashTable.add_linked hnew (by simp [HashTable.new_entries]),
    ⟨rfl, rfl, rfl, ?_, ?_, fun _ _ => rfl⟩, ?_⟩
  · intro i
    rcases i with _ | i
    · exact ⟨rfl, rfl⟩
    · exact rfl
  · rw [hentries]
    decide
  · rw [hentries]
    decide

/-- A context with the identifier 0 is cleaned up, but its ref stays in the table. -/
theorem zeroContext_not_emptied :
    ∃ thread', zeroContext.cleanEvent (fun _ _ => 0) (fun _ => 0) none 2 = some thread' ∧
      ¬ Empty thread'.fRefTable := by
  have hfirst : HashTableIter.first zeroContext.fRefTable none = some ⟨some 7, 0⟩ := by
    rw [HashTableIter.first, HashTableIter.scan]
    rfl
  have hnext : HashTableIter.next zeroContext.fRefTable zeroContext.fNextHashEntry ⟨some 7, 0⟩ =
      some ⟨none, 3⟩ := by
    rw [HashTableIter.next, HashTableIter.scan, HashTableIter.scan, HashTableIter.scan]
    rfl
  refine ⟨(zeroContext.cleanup (fun _ _ => 0) (fun _ => 0) 1 7).getD zeroContext, ?_, ?_⟩
  · rw [cleanEvent, hfirst, Option.bind_some, HashTableIter.visits]
    simp only [table, hnext, Option.bind_some]
    rfl
  · intro hempty
    exact Option.some_ne_none 7 (hempty.1 0)

/-- A table of size 0 is not iterated over, and a table with a context of identifier 0 is not
emptied. -/
theorem not_visitsAll_not_emptied :
    ¬ HashTableIter.VisitsAll (LinkedTable.new 0) (fun _ => none) (HashTable.new 0) Ref.address ∧
      zeroContext.Registry zeroTable ∧
      ∃ thread', zeroContext.cleanEvent (fun _ _ => 0) (fun _ => 0) none 2 = some thread' ∧
        ¬ Empty thread'.fRefTable :=
  ⟨new_zero_not_visitsAll, zeroContext_registry, zeroContext_not_emptied⟩

end EventThread

/-! ## What a registration leaves behind -/

namespace EventContext

/-- `EventContext::Cleanup`; `closed` is what `close` returns. None if the assertion at the end
fails. -/
def cleanup (w : EventWorld) (closed : Int) : Option EventWorld :=
  if w.ctx.cleanupErr closed = 0 then
    some
      { w with
        ctx := w.ctx.cleanedUp
        epoll := w.ctx.cleanupEpoll w.epoll
        fRefTable :=
          if w.ctx.unregisters then w.fRefTable.erase w.ctx.fUniqueID else w.fRefTable }
  else none

/-- What can happen before the clean-up: a request, under a bit `kDisableEvent`; an event of the
descriptor in the kernel; whatever the contexts of other descriptors do; and a call of
`select_waitevent`, which may hand out an event from an earlier batch. -/
inductive Happening where
  | request (disableEvent : Bool) (theMask : Bits) (newID : Nat)
  | fired
  | other (fd : Fd) (events : Option Bits)
  | waited (s : WaitState) (req : Eventreq) (batches : List Batch)

/-- None if an assertion of `RequestEvent` fails. -/
def happen (w : EventWorld) : Happening → Option EventWorld
  | .request disableEvent theMask newID => requestEventChecked { w with disableEvent } theMask newID
  | .fired =>
    let events := (w.epoll.interest w.ctx.fFileDesc).map disarm
    some { w with epoll.interest := Function.update w.epoll.interest w.ctx.fFileDesc events }
  | .other fd events =>
    some { w with epoll.interest := Function.update w.epoll.interest fd events }
  | .waited s req batches =>
    some { w with epoll.gDataMap := (selectWaitevent s w.epoll.gDataMap req batches).gDataMap }

/-- The identifier of a request is one that is free, and another descriptor is another one. -/
def Legal (w : EventWorld) : Happening → Prop
  | .request _ _ newID => newID ∉ w.fRefTable
  | .other fd _ => fd ≠ w.ctx.fFileDesc
  | .fired | .waited .. => True

def LegalRun : EventWorld → List Happening → Prop
  | _, [] => True
  | w, a :: as => Legal w a ∧ ∀ w', happen w a = some w' → LegalRun w' as

instance (w : EventWorld) : (a : Happening) → Decidable (Legal w a)
  | .request _ _ newID => inferInstanceAs (Decidable (newID ∉ w.fRefTable))
  | .other fd _ => inferInstanceAs (Decidable (fd ≠ w.ctx.fFileDesc))
  | .fired | .waited .. => inferInstanceAs (Decidable True)

instance decidableLegalRun : (w : EventWorld) → (as : List Happening) → Decidable (LegalRun w as)
  | _, [] => isTrue trivial
  | w, a :: as =>
    match h : happen w a with
    | none => decidable_of_iff (Legal w a)
        ⟨fun hlegal => ⟨hlegal, fun w' hw' => by simp [h] at hw'⟩, And.left⟩
    | some w' =>
      have := decidableLegalRun w' as
      decidable_of_iff (Legal w a ∧ LegalRun w' as)
        ⟨fun hrun => ⟨hrun.1, fun _ hu => Option.some.inj (h.symm.trans hu) ▸ hrun.2⟩,
          fun hrun => ⟨hrun.1, hrun.2 w' h⟩⟩

/-- A context that has made no request, on a descriptor that the event layer does not know. -/
structure Unregistered (w : EventWorld) : Prop where
  opened : w.ctx.fFileDesc ≠ kInvalidFileDesc
  unwatched : w.ctx.fWatchEventCalled = false
  uniqueID : w.ctx.fUniqueID = 0
  interest : w.epoll.interest w.ctx.fFileDesc = none
  data : w.epoll.gDataMap w.ctx.fFileDesc = none

/-- What concerns the entry of the descriptor: the mask of a request that finds events enabled,
or an event of the descriptor that is handed out. -/
inductive Touch where
  | request (theMask : Bits)
  | handed
deriving DecidableEq, Repr

/-- A request with `EV_RM`. -/
def Touch.IsRemoval : Touch → Prop
  | .request theMask => theMask.has EV_RM
  | .handed => False

instance : (t : Touch) → Decidable t.IsRemoval
  | .request theMask => inferInstanceAs (Decidable (theMask.has EV_RM = true))
  | .handed => inferInstanceAs (Decidable False)

/-- A watch is removed, and behind its removal there are only removals. -/
def Removed : List Touch → Prop
  | [] => False
  | t :: rest => if t.IsRemoval then ∀ t ∈ rest, t.IsRemoval else Removed rest

instance decidableRemoved : (l : List Touch) → Decidable (Removed l)
  | [] => isFalse id
  | t :: rest =>
    have := decidableRemoved rest
    inferInstanceAs (Decidable (if t.IsRemoval then ∀ t ∈ rest, t.IsRemoval else Removed rest))

/-- The entry of the descriptor is gone in the end. Before the descriptor is watched, `entered`
tells whether there is one. -/
def Removes : (entered : Bool) → List Touch → Prop
  | entered, [] => entered = false
  | _, .handed :: rest => Removes true rest
  | entered, .request theMask :: rest =>
    if theMask.has EV_RM then Removes entered rest else Removed rest

instance decidableRemoves : (entered : Bool) → (l : List Touch) → Decidable (Removes entered l)
  | entered, [] => inferInstanceAs (Decidable (entered = false))
  | _, .handed :: rest => decidableRemoves true rest
  | entered, .request theMask :: rest =>
    have := decidableRemoves entered rest
    inferInstanceAs (Decidable (if theMask.has EV_RM then Removes entered rest else Removed rest))

/-! ### The registration of a descriptor -/

/-- Whether a context has been watched, and whether its descriptor still is. Where it is not,
there may be an entry of `gDataMap` that the event layer has made by itself. -/
inductive Phase where
  | idle (entered : Bool)
  | watched
  | removed (entered : Bool)
deriving DecidableEq, Repr

namespace Phase

/-- Whether `gDataMap` has an entry. -/
def entered : Phase → Bool
  | .idle entered | .removed entered => entered
  | .watched => true

/-- The value of `fWatchEventCalled`. -/
def called : Phase → Bool
  | .idle _ => false
  | .watched | .removed _ => true

/-- Whether the kernel has the descriptor. -/
def live : Phase → Bool
  | .watched => true
  | .idle _ | .removed _ => false

/-- What becomes of the registration. A watch cannot be modified behind its removal. -/
def after : Phase → Touch → Option Phase
  | .idle _, .handed => some (.idle true)
  | .idle entered, .request theMask =>
    some (if theMask.has EV_RM then .idle entered else .watched)
  | .watched, .handed => some .watched
  | .watched, .request theMask => some (if theMask.has EV_RM then .removed false else .watched)
  | .removed _, .handed => some (.removed true)
  | .removed entered, .request theMask =>
    if theMask.has EV_RM then some (.removed entered) else none

end Phase

/-- What holds of a context between its requests. -/
structure Tracked (w : EventWorld) (phase : Phase) : Prop where
  opened : w.ctx.fFileDesc ≠ kInvalidFileDesc
  data : (w.epoll.gDataMap w.ctx.fFileDesc).isSome = phase.entered
  interest : (w.epoll.interest w.ctx.fFileDesc).isSome = phase.live
  called : w.ctx.fWatchEventCalled = phase.called
  handle : w.ctx.fWatchEventCalled = true → w.ctx.fEventReq.erHandle = w.ctx.fFileDesc
  once : 0 < w.ctx.fUniqueID → w.fRefTable.count w.ctx.fUniqueID ≤ 1

variable {w w' : EventWorld} {phase phase' : Phase}

/-- The event layer alone has changed. -/
theorem Tracked.epoll (h : Tracked w phase) {epoll : Epoll}
    (hdata : (epoll.gDataMap w.ctx.fFileDesc).isSome = phase'.entered)
    (hinterest : (epoll.interest w.ctx.fFileDesc).isSome = phase'.live)
    (hcalled : phase'.called = phase.called) : Tracked { w with epoll } phase' where
  opened := h.opened
  data := hdata
  interest := hinterest
  called := h.called.trans hcalled.symm
  handle := h.handle
  once := h.once

/-! ### One step -/

end EventContext

end CxxFramework.Net
