import CxxFramework.Library.Transition
import CxxFramework.Socket.UDPDemuxer
import CxxFramework.Socket.UDPSocketPool
import Mathlib.Data.List.Nodup
import Mathlib.Data.List.Range

/-!
# Pairs of UDP sockets and their holders

`UDPSocketPool::GetUDPSocketPair` shares a pair of the pool if the packets of the sender can still
be told apart, and otherwise creates one. The references to a pair are counted in 32 bits, and
`ReleaseUDPSocketPair` destructs it when the count is 0.

Pairs are numbered as they are constructed. The demuxer of a pair is changed by calls that the
pool does not see, and may be any other one after them.

## Main definitions

* `UDPSocketPool.getUDPSocketPair`, `UDPSocketPool.releaseUDPSocketPair` — the calls.
* `PoolWorld.next` — a call, with the number of holders of each pair.
* `PoolWorld.Right` — what a step is to establish.
-/

namespace CxxFramework.Net

open Transition

variable {P : Type}

/-- A pair: the local address and port of `fSocketA`, and the demuxer of `fSocketB`. -/
structure UDPSocketPair (P : Type) where
  localAddr : UInt32 := 0
  localPort : UInt16 := 0
  demuxer : Option (UDPDemuxer P) := none
  fRefCount : UInt32 := 0

namespace UDPSocketPair

/-- Neither a task for all packets nor one for this source is in the demuxer; none if a loop takes
`n` steps and more. -/
def admits (pair : UDPSocketPair P) (inSrc : RemoteAddr) (n : Nat) : Option Bool :=
  match pair.demuxer with
  | none => some true
  | some d => (d.getTask (0, 0) n).bind fun wildcard =>
    if wildcard.isSome then some false else (d.getTask inSrc n).map Option.isNone

/-- Neither the source nor the wildcard is in the demuxer. -/
def Lacks (pair : UDPSocketPair P) (inSrc : RemoteAddr) : Prop :=
  ∀ d, pair.demuxer = some d →
    ∃ n, d.getTask (0, 0) n = some none ∧ d.getTask inSrc n = some none

end UDPSocketPair

/-- The pool. The queue is in the order of its iterator, with the oldest pair first. -/
structure UDPSocketPool (P : Type) where
  fUDPQueue : List Nat := []
  pairs : Nat → UDPSocketPair P := fun _ => {}
  constructed : Nat := 0
  destructed : List Nat := []

/-- How the loop over the queue ends. -/
inductive PairSearch where
  | found (theElem : Nat)
  /-- The pair with the requested port cannot be shared. -/
  | refused
  | exhausted
deriving DecidableEq, Repr

def PairSearch.pair? : PairSearch → Option Nat
  | .found theElem => some theElem
  | _ => none

namespace UDPSocketPool

def searchFrom (pool : UDPSocketPool P) (inIPAddr : UInt32) (inPort : UInt16)
    (inSrc : RemoteAddr) (n : Nat) : List Nat → Option PairSearch
  | [] => some .exhausted
  | theElem :: rest =>
    let pair := pool.pairs theElem
    if pair.localAddr = inIPAddr ∧ (inPort = 0 ∨ pair.localPort = inPort) then
      (pair.admits inSrc n).bind fun free =>
        if free then some (.found theElem)
        else if inPort ≠ 0 then some .refused
        else pool.searchFrom inIPAddr inPort inSrc n rest
    else pool.searchFrom inIPAddr inPort inSrc n rest

/-- The first part of `GetUDPSocketPair`. -/
def search (pool : UDPSocketPool P) (inIPAddr : UInt32) (inPort : UInt16)
    (inSrc : RemoteAddr) (n : Nat) : Option PairSearch :=
  if inSrc.1 ≠ 0 ∨ inSrc.2 ≠ 0 then pool.searchFrom inIPAddr inPort inSrc n pool.fUDPQueue
  else some .exhausted

/-- `fRefCount++` -/
def retain (pool : UDPSocketPool P) (theElem : Nat) : UDPSocketPool P :=
  let pair := pool.pairs theElem
  { pool with
    pairs := Function.update pool.pairs theElem { pair with fRefCount := pair.fRefCount + 1 } }

/-- A number of pairs are constructed, and destructed at once. -/
def discard (pool : UDPSocketPool P) (m : Nat) : UDPSocketPool P :=
  { pool with
    constructed := pool.constructed + m
    destructed := List.range' pool.constructed m ++ pool.destructed }

/-- A pair is constructed, and enqueued. -/
def enQueue (pool : UDPSocketPool P) (pair : UDPSocketPair P) : UDPSocketPool P :=
  { pool with
    fUDPQueue := pool.fUDPQueue ++ [pool.constructed]
    pairs := Function.update pool.pairs pool.constructed { pair with fRefCount := 1 }
    constructed := pool.constructed + 1 }

/-- `CreateUDPSocketPair` on the pool, and the pair that it returns, if any. -/
def create (pool : UDPSocketPool P) (inAddr : UInt32) (inPort : UInt16)
    (tries : Nat → PairTry) (demuxer : Option (UDPDemuxer P)) (n : Nat) :
    Option (UDPSocketPool P × Option Nat) :=
  (createUDPSocketPair tries inPort n).map fun r =>
    match r.1 with
    | some ports =>
      let pool := pool.discard (r.2 - 1)
      (pool.enQueue { localAddr := inAddr, localPort := ports.1, demuxer }, some pool.constructed)
    | none => (pool.discard r.2, none)

/-- `UDPSocketPool::GetUDPSocketPair`. How the tries to bind a new pair go is an input, and the
demuxer of its `fSocketB`. -/
def getUDPSocketPair (pool : UDPSocketPool P) (inIPAddr : UInt32) (inPort : UInt16)
    (inSrc : RemoteAddr) (tries : Nat → PairTry) (demuxer : Option (UDPDemuxer P)) (n : Nat) :
    Option (UDPSocketPool P × Option Nat) :=
  (pool.search inIPAddr inPort inSrc n).bind fun
    | .found theElem => some (pool.retain theElem, some theElem)
    | .refused => some (pool, none)
    | .exhausted => pool.create inIPAddr inPort tries demuxer n

/-- `UDPSocketPool::ReleaseUDPSocketPair` -/
def releaseUDPSocketPair (pool : UDPSocketPool P) (inPair : Nat) : UDPSocketPool P :=
  let fRefCount := (pool.pairs inPair).fRefCount - 1
  let pool :=
    { pool with
      pairs := Function.update pool.pairs inPair { pool.pairs inPair with fRefCount } }
  if fRefCount = 0 then
    { pool with
      fUDPQueue := pool.fUDPQueue.erase inPair
      destructed := inPair :: pool.destructed }
  else pool

/-- The pair has been constructed, and not been destructed. -/
def Live (pool : UDPSocketPool P) (thePair : Nat) : Prop :=
  thePair < pool.constructed ∧ thePair ∉ pool.destructed

end UDPSocketPool

/-- The pool, and the number of holders of each pair. -/
structure PoolWorld (P : Type) where
  pool : UDPSocketPool P := {}
  holders : Nat → Nat := fun _ => 0

namespace PoolWorld

inductive Action (P : Type) where
  | get (inIPAddr : UInt32) (inPort : UInt16) (inSrc : RemoteAddr) (tries : Nat → PairTry)
      (demuxer : Option (UDPDemuxer P)) (n : Nat)
  | release (inPair : Nat)
  /-- Tasks are registered and unregistered at the demuxer of a pair. -/
  | register (thePair : Nat) (demuxer : UDPDemuxer P)

/-- A call. Only a holder of a pair releases it. -/
def next (w : PoolWorld P) : Action P → Option (PoolWorld P)
  | .get inIPAddr inPort inSrc tries demuxer n =>
    (w.pool.getUDPSocketPair inIPAddr inPort inSrc tries demuxer n).map fun r =>
      match r.2 with
      | some thePair =>
        { pool := r.1, holders := Function.update w.holders thePair (w.holders thePair + 1) }
      | none => { w with pool := r.1 }
  | .release inPair =>
    if 0 < w.holders inPair then
      some {
        pool := w.pool.releaseUDPSocketPair inPair
        holders := Function.update w.holders inPair (w.holders inPair - 1) }
    else none
  | .register thePair demuxer =>
    let pairs := Function.update w.pool.pairs thePair
      { w.pool.pairs thePair with demuxer := some demuxer }
    some { w with pool := { w.pool with pairs } }

abbrev system (P : Type) : System (PoolWorld P) (Action P) := .ofPartial (· = {}) next

structure Sound (w : PoolWorld P) : Prop where
  queue : ∀ thePair, w.pool.Live thePair → w.pool.fUDPQueue.count thePair = 1
  count : ∀ thePair, w.pool.Live thePair →
    (w.pool.pairs thePair).fRefCount.toNat = w.holders thePair ∧ 0 < w.holders thePair
  once : w.pool.destructed.Nodup

/-- The pool is sound after the step. A pair that has been handed out is destructed when its last
holder releases it, and a pair is shared only if the source can be told apart. -/
def Right (w : PoolWorld P) (a : Action P) (w' : PoolWorld P) : Prop :=
  Sound w' ∧
    match a with
    | .get inIPAddr inPort inSrc tries demuxer n =>
      (∃ failed, w'.pool.destructed = failed ++ w.pool.destructed ∧
        ∀ thePair ∈ failed, w.pool.constructed ≤ thePair) ∧
      ∀ thePair,
        w.pool.getUDPSocketPair inIPAddr inPort inSrc tries demuxer n =
          some (w'.pool, some thePair) →
        inSrc.1 ≠ 0 ∨ inSrc.2 ≠ 0 →
        w.pool.constructed ≤ thePair ∨ (w.pool.pairs thePair).Lacks inSrc
    | .release inPair =>
      w'.pool.destructed =
        if w.holders inPair = 1 then inPair :: w.pool.destructed else w.pool.destructed
    | .register _ _ => w'.pool.destructed = w.pool.destructed

/-- A pair that is shared has less than 2 ^ 32 - 1 holders. -/
def Countable (w : PoolWorld P) : Action P → Prop
  | .get inIPAddr inPort inSrc _ _ n =>
    ∀ thePair ∈ (w.pool.search inIPAddr inPort inSrc n).bind PairSearch.pair?,
      w.holders thePair + 1 < 2 ^ 32
  | _ => True

instance (w : PoolWorld P) : DecidablePred w.Countable
  | .get _ _ _ _ _ _ => inferInstanceAs (Decidable (∀ thePair ∈ Option.bind _ _, _))
  | .release _ => isTrue trivial
  | .register _ _ => isTrue trivial

end PoolWorld

/-! ## The search -/

namespace UDPSocketPool

variable {pool pool' : UDPSocketPool P} {inIPAddr : UInt32} {inPort : UInt16} {inSrc : RemoteAddr}
  {tries : Nat → PairTry} {demuxer : Option (UDPDemuxer P)} {n theElem : Nat}

theorem lacks_of_admits {pair : UDPSocketPair P} (h : pair.admits inSrc n = some true) :
    pair.Lacks inSrc := by
  intro d hd
  simp only [UDPSocketPair.admits, hd, Option.bind_eq_some_iff] at h
  obtain ⟨wildcard, hwildcard, hsrc⟩ := h
  cases wildcard with
  | some task => simp at hsrc
  | none =>
    simp only [Option.isSome_none, Bool.false_eq_true, if_false, Option.map_eq_some_iff,
      Option.isNone_iff_eq_none] at hsrc
    obtain ⟨src, hsrc, rfl⟩ := hsrc
    exact ⟨n, hwildcard, hsrc⟩

/-- A pair that is found is in the queue, and can be shared. -/
theorem searchFrom_found {queue : List Nat}
    (h : pool.searchFrom inIPAddr inPort inSrc n queue = some (.found theElem)) :
    theElem ∈ queue ∧ (pool.pairs theElem).Lacks inSrc := by
  induction queue with
  | nil => simp [searchFrom] at h
  | cons elem rest ih =>
    have hrest : pool.searchFrom inIPAddr inPort inSrc n rest = some (.found theElem) →
        theElem ∈ elem :: rest ∧ (pool.pairs theElem).Lacks inSrc := fun hrest =>
      ⟨List.mem_cons_of_mem _ (ih hrest).1, (ih hrest).2⟩
    by_cases hmatch : (pool.pairs elem).localAddr = inIPAddr ∧
        (inPort = 0 ∨ (pool.pairs elem).localPort = inPort)
    · simp only [searchFrom, if_pos hmatch, Option.bind_eq_some_iff] at h
      obtain ⟨free, hadmits, hfree⟩ := h
      by_cases hshare : free = true
      · obtain rfl : elem = theElem := by simpa [hshare] using hfree
        rw [hshare] at hadmits
        exact ⟨List.mem_cons_self, lacks_of_admits hadmits⟩
      · rw [if_neg hshare] at hfree
        split_ifs at hfree
        · simp at hfree
        · exact hrest hfree
    · simp only [searchFrom, if_neg hmatch] at h
      exact hrest h

theorem search_found (h : pool.search inIPAddr inPort inSrc n = some (.found theElem)) :
    theElem ∈ pool.fUDPQueue ∧ (pool.pairs theElem).Lacks inSrc := by
  unfold search at h
  split_ifs at h
  · exact searchFrom_found h
  · simp at h

/-- What `GetUDPSocketPair` does: it shares a pair, returns no pair and destructs all that it has
constructed, or returns the last one of these. -/
theorem getUDPSocketPair_cases {r : Option Nat}
    (h : pool.getUDPSocketPair inIPAddr inPort inSrc tries demuxer n = some (pool', r)) :
    (∃ theElem, pool.search inIPAddr inPort inSrc n = some (.found theElem) ∧
      pool' = pool.retain theElem ∧ r = some theElem) ∨
    (∃ m, pool' = pool.discard m ∧ r = none) ∨
    ∃ m pair, pool' = (pool.discard m).enQueue pair ∧ r = some (pool.constructed + m) := by
  obtain ⟨found, hsearch, hfound⟩ := Option.bind_eq_some_iff.mp h
  cases found with
  | found theElem =>
    obtain ⟨rfl, rfl⟩ := Prod.mk.inj (Option.some.inj hfound)
    exact .inl ⟨theElem, hsearch, rfl, rfl⟩
  | refused =>
    obtain ⟨rfl, rfl⟩ := Prod.mk.inj (Option.some.inj hfound)
    exact .inr (.inl ⟨0, by simp [discard], rfl⟩)
  | exhausted =>
    obtain ⟨⟨ports, m⟩, -, hcreated⟩ := Option.map_eq_some_iff.mp hfound
    cases ports with
    | none =>
      obtain ⟨rfl, rfl⟩ := Prod.mk.inj hcreated
      exact .inr (.inl ⟨m, rfl, rfl⟩)
    | some ports =>
      obtain ⟨rfl, rfl⟩ := Prod.mk.inj hcreated
      exact .inr (.inr ⟨m - 1, _, rfl, rfl⟩)

end UDPSocketPool

/-! ## The invariant -/

namespace PoolWorld

open UDPSocketPool

/-- The queue has just the live pairs, each of them once, and these are the pairs with holders. -/
structure Inv (w : PoolWorld P) : Prop where
  queue : ∀ thePair, thePair ∈ w.pool.fUDPQueue ↔ w.pool.Live thePair
  nodup : w.pool.fUDPQueue.Nodup
  count : ∀ thePair, (w.pool.pairs thePair).fRefCount.toNat = w.holders thePair
  live : ∀ thePair, 0 < w.holders thePair ↔ w.pool.Live thePair
  once : w.pool.destructed.Nodup
  below : ∀ thePair ∈ w.pool.destructed, thePair < w.pool.constructed

variable {w w' : PoolWorld P} {thePair : Nat}

theorem Inv.sound (h : Inv w) : Sound w where
  queue thePair hlive := List.count_eq_one_of_mem h.nodup ((h.queue thePair).mpr hlive)
  count thePair hlive := ⟨h.count thePair, (h.live thePair).mpr hlive⟩
  once := h.once

theorem inv_start : Inv ({} : PoolWorld P) := by
  constructor <;> simp [Live]

theorem Inv.retain (h : Inv w) (hmem : thePair ∈ w.pool.fUDPQueue)
    (hlt : w.holders thePair + 1 < 2 ^ 32) :
    Inv { pool := w.pool.retain thePair,
          holders := Function.update w.holders thePair (w.holders thePair + 1) } where
  queue := h.queue
  nodup := h.nodup
  count q := by
    by_cases hq : q = thePair
    · subst hq
      have hcount := h.count q
      have hadd : ((w.pool.pairs q).fRefCount + 1).toNat = w.holders q + 1 := by
        rw [UInt32.toNat_add, hcount]
        exact Nat.mod_eq_of_lt hlt
      simpa [UDPSocketPool.retain] using hadd
    · simpa [UDPSocketPool.retain, Function.update_of_ne hq] using h.count q
  live q := by
    change 0 < Function.update w.holders _ _ q ↔ w.pool.Live q
    by_cases hq : q = thePair
    · subst hq
      have hlive := (h.queue q).mp hmem
      simpa using hlive
    · rw [Function.update_of_ne hq]
      exact h.live q
  once := h.once
  below := h.below

theorem live_discard (pool : UDPSocketPool P) (m q : Nat) :
    (pool.discard m).Live q ↔ pool.Live q := by
  simp only [UDPSocketPool.Live, UDPSocketPool.discard, List.mem_append, List.mem_range'_1]
  constructor
  · rintro ⟨hlt, hnot⟩
    exact ⟨by_contra fun hge => hnot (.inl ⟨by omega, hlt⟩), fun hmem => hnot (.inr hmem)⟩
  · rintro ⟨hlt, hnot⟩
    exact ⟨by omega, fun hmem => hmem.elim (fun hnew => by omega) hnot⟩

theorem Inv.discard (h : Inv w) (m : Nat) : Inv { w with pool := w.pool.discard m } where
  queue q := (h.queue q).trans (live_discard _ m q).symm
  nodup := h.nodup
  count := h.count
  live q := (h.live q).trans (live_discard _ m q).symm
  once := by
    refine List.nodup_append.mpr ⟨List.nodup_range', h.once, ?_⟩
    rintro q hq q' hq' rfl
    have hge := (List.mem_range'_1.mp hq).1
    have hlt := h.below q hq'
    omega
  below q hq := by
    simp only [UDPSocketPool.discard, List.mem_append, List.mem_range'_1] at hq ⊢
    rcases hq with hq | hq
    · exact hq.2
    · have hlt := h.below q hq
      omega

theorem Inv.enQueue (h : Inv w) (pair : UDPSocketPair P) :
    Inv { pool := w.pool.enQueue pair,
          holders := Function.update w.holders w.pool.constructed
            (w.holders w.pool.constructed + 1) } := by
  have hnew : ¬ w.pool.Live w.pool.constructed := fun hlive => Nat.lt_irrefl _ hlive.1
  have hzero : w.holders w.pool.constructed = 0 :=
    Nat.eq_zero_of_not_pos (mt (h.live _).mp hnew)
  have hfresh : w.pool.constructed ∉ w.pool.destructed := fun hmem =>
    Nat.lt_irrefl _ (h.below _ hmem)
  have hlive : ∀ q, (w.pool.enQueue pair).Live q ↔ w.pool.Live q ∨ q = w.pool.constructed := by
    intro q
    change q < w.pool.constructed + 1 ∧ _ ↔ _
    by_cases hq : q = w.pool.constructed
    · subst hq
      exact iff_of_true ⟨Nat.lt_succ_self _, hfresh⟩ (.inr rfl)
    · have hlt : q < w.pool.constructed + 1 ↔ q < w.pool.constructed := by omega
      rw [hlt, or_iff_left hq]
      rfl
  constructor
  · intro q
    refine Iff.trans ?_ (hlive q).symm
    simp [UDPSocketPool.enQueue, h.queue]
  · refine List.nodup_append.mpr ⟨h.nodup, List.nodup_singleton _, ?_⟩
    rintro q hq q' hq' rfl
    rw [List.mem_singleton.mp hq', h.queue] at hq
    exact hnew hq
  · intro q
    by_cases hq : q = w.pool.constructed
    · subst hq
      simp [UDPSocketPool.enQueue, hzero]
    · simpa [UDPSocketPool.enQueue, Function.update_of_ne hq] using h.count q
  · intro q
    refine Iff.trans ?_ (hlive q).symm
    change 0 < Function.update w.holders _ _ q ↔ _
    by_cases hq : q = w.pool.constructed
    · subst hq
      simp
    · rw [Function.update_of_ne hq, h.live, or_iff_left hq]
  · exact h.once
  · intro q hq
    exact Nat.lt_succ_of_lt (h.below q hq)

theorem release_pairs (pool : UDPSocketPool P) (thePair : Nat) :
    (pool.releaseUDPSocketPair thePair).pairs = Function.update pool.pairs thePair
      { pool.pairs thePair with fRefCount := (pool.pairs thePair).fRefCount - 1 } := by
  by_cases h : (pool.pairs thePair).fRefCount - 1 = 0 <;> simp [releaseUDPSocketPair, h]

theorem release_last {pool : UDPSocketPool P} (h : (pool.pairs thePair).fRefCount - 1 = 0) :
    (pool.releaseUDPSocketPair thePair).fUDPQueue = pool.fUDPQueue.erase thePair ∧
    (pool.releaseUDPSocketPair thePair).destructed = thePair :: pool.destructed ∧
    (pool.releaseUDPSocketPair thePair).constructed = pool.constructed := by
  simp only [releaseUDPSocketPair, if_pos h, and_self]

theorem release_shared {pool : UDPSocketPool P} (h : (pool.pairs thePair).fRefCount - 1 ≠ 0) :
    (pool.releaseUDPSocketPair thePair).fUDPQueue = pool.fUDPQueue ∧
    (pool.releaseUDPSocketPair thePair).destructed = pool.destructed ∧
    (pool.releaseUDPSocketPair thePair).constructed = pool.constructed := by
  simp only [releaseUDPSocketPair, if_neg h, and_self]

theorem Inv.release_toNat (h : Inv w) (hpos : 0 < w.holders thePair) :
    ((w.pool.pairs thePair).fRefCount - 1).toNat = w.holders thePair - 1 := by
  have hcount := h.count thePair
  have hle : 1 ≤ (w.pool.pairs thePair).fRefCount := by
    rw [UInt32.le_iff_toNat_le, hcount]
    exact hpos
  rw [UInt32.toNat_sub_of_le _ _ hle, hcount]
  rfl

/-- The count is 0 just when the last holder has released the pair. -/
theorem Inv.release_eq_zero (h : Inv w) (hpos : 0 < w.holders thePair) :
    (w.pool.pairs thePair).fRefCount - 1 = 0 ↔ w.holders thePair = 1 := by
  rw [← UInt32.toNat_inj, h.release_toNat hpos]
  change _ = 0 ↔ _
  omega

/-- A holder releases a pair. -/
def releasedBy (w : PoolWorld P) (thePair : Nat) : PoolWorld P where
  pool := w.pool.releaseUDPSocketPair thePair
  holders := Function.update w.holders thePair (w.holders thePair - 1)

theorem Inv.released_count (h : Inv w) (hpos : 0 < w.holders thePair) (q : Nat) :
    ((w.releasedBy thePair).pool.pairs q).fRefCount.toNat = (w.releasedBy thePair).holders q := by
  simp only [releasedBy, release_pairs]
  by_cases hq : q = thePair
  · subst hq
    simpa only [Function.update_self] using h.release_toNat hpos
  · simpa only [Function.update_of_ne hq] using h.count q

theorem Inv.releaseLast (h : Inv w) (hone : w.holders thePair = 1) :
    Inv (w.releasedBy thePair) := by
  have hpos : 0 < w.holders thePair := by omega
  have hlive := (h.live thePair).mp hpos
  obtain ⟨hqueue, hdestructed, hconstructed⟩ := release_last ((h.release_eq_zero hpos).mpr hone)
  have hlive' : ∀ q, (w.releasedBy thePair).pool.Live q ↔ q ≠ thePair ∧ w.pool.Live q := by
    intro q
    simp only [UDPSocketPool.Live, releasedBy, hdestructed, hconstructed, List.mem_cons]
    tauto
  constructor
  · intro q
    rw [hlive', ← h.queue]
    change q ∈ (w.pool.releaseUDPSocketPair thePair).fUDPQueue ↔ _
    rw [hqueue]
    exact h.nodup.mem_erase_iff
  · change (w.pool.releaseUDPSocketPair thePair).fUDPQueue.Nodup
    rw [hqueue]
    exact h.nodup.erase _
  · exact h.released_count hpos
  · intro q
    rw [hlive']
    change 0 < Function.update w.holders _ _ q ↔ _
    by_cases hq : q = thePair
    · subst hq
      simp [hone]
    · rw [Function.update_of_ne hq, h.live, and_iff_right hq]
  · change (w.pool.releaseUDPSocketPair thePair).destructed.Nodup
    rw [hdestructed]
    exact List.nodup_cons.mpr ⟨hlive.2, h.once⟩
  · intro q hq
    change q ∈ (w.pool.releaseUDPSocketPair thePair).destructed at hq
    change q < (w.pool.releaseUDPSocketPair thePair).constructed
    rw [hdestructed] at hq
    rw [hconstructed]
    rcases List.mem_cons.mp hq with rfl | hq
    · exact hlive.1
    · exact h.below q hq

theorem Inv.releaseShared (h : Inv w) (hmany : 1 < w.holders thePair) :
    Inv (w.releasedBy thePair) := by
  have hpos : 0 < w.holders thePair := by omega
  have hlive := (h.live thePair).mp hpos
  obtain ⟨hqueue, hdestructed, hconstructed⟩ := release_shared
    (mt (h.release_eq_zero hpos).mp (by omega))
  have hlive' : ∀ q, (w.releasedBy thePair).pool.Live q ↔ w.pool.Live q := by
    intro q
    simp only [UDPSocketPool.Live, releasedBy, hdestructed, hconstructed]
  constructor
  · intro q
    rw [hlive', ← h.queue, ← hqueue]
    rfl
  · exact hqueue ▸ h.nodup
  · exact h.released_count hpos
  · intro q
    rw [hlive']
    change 0 < Function.update w.holders _ _ q ↔ _
    by_cases hq : q = thePair
    · subst hq
      rw [Function.update_self]
      exact iff_of_true (by omega) hlive
    · rw [Function.update_of_ne hq]
      exact h.live q
  · exact hdestructed ▸ h.once
  · intro q hq
    change q ∈ (w.pool.releaseUDPSocketPair thePair).destructed at hq
    change q < (w.pool.releaseUDPSocketPair thePair).constructed
    rw [hdestructed] at hq
    rw [hconstructed]
    exact h.below q hq

theorem Inv.release (h : Inv w) (hpos : 0 < w.holders thePair) :
    Inv (w.releasedBy thePair) ∧ (w.releasedBy thePair).pool.destructed =
      if w.holders thePair = 1 then thePair :: w.pool.destructed else w.pool.destructed := by
  by_cases hone : w.holders thePair = 1
  · rw [if_pos hone]
    exact ⟨h.releaseLast hone, (release_last ((h.release_eq_zero hpos).mpr hone)).2.1⟩
  · rw [if_neg hone]
    exact ⟨h.releaseShared (by omega),
      (release_shared (mt (h.release_eq_zero hpos).mp hone)).2.1⟩

/-- The calls of a demuxer leave the pool alone. -/
theorem Inv.register (h : Inv w) (thePair : Nat) (demuxer : UDPDemuxer P) :
    Inv { w with
      pool := { w.pool with
        pairs := Function.update w.pool.pairs thePair
          { w.pool.pairs thePair with demuxer := some demuxer } } } where
  queue := h.queue
  nodup := h.nodup
  count q := by
    by_cases hq : q = thePair
    · subst hq
      simpa using h.count q
    · simpa [Function.update_of_ne hq] using h.count q
  live := h.live
  once := h.once
  below := h.below

/-! ## Runs -/

theorem next_right (h : Inv w) {a : Action P} (hok : Countable w a) (hs : next w a = some w') :
    Right w a w' ∧ Inv w' := by
  cases a with
  | get inIPAddr inPort inSrc tries demuxer n =>
    obtain ⟨⟨pool', r⟩, hget, hw'⟩ := Option.map_eq_some_iff.mp hs
    obtain ⟨theElem, hsearch, rfl, rfl⟩ | ⟨m, rfl, rfl⟩ | ⟨m, pair, rfl, rfl⟩ :=
      getUDPSocketPair_cases hget
    · subst hw'
      obtain ⟨hmem, hlacks⟩ := search_found hsearch
      have hlt := hok theElem (by simp [hsearch, PairSearch.pair?])
      have hinv := h.retain hmem hlt
      refine ⟨⟨hinv.sound, ⟨[], rfl, nofun⟩, fun thePair hgot _ => ?_⟩, hinv⟩
      have heq := Option.some.inj (hget.symm.trans hgot)
      obtain rfl : theElem = thePair := Option.some.inj (congrArg Prod.snd heq)
      exact .inr hlacks
    · subst hw'
      have hinv := h.discard m
      refine ⟨⟨hinv.sound, ⟨_, rfl, ?_⟩, fun thePair hgot _ => ?_⟩, hinv⟩
      · exact fun q hq => (List.mem_range'_1.mp hq).1
      · have heq := Option.some.inj (hget.symm.trans hgot)
        exact absurd (congrArg Prod.snd heq) (by simp)
    · subst hw'
      have hinv := (h.discard m).enQueue pair
      refine ⟨⟨hinv.sound, ⟨_, rfl, ?_⟩, fun thePair hgot _ => .inl ?_⟩, hinv⟩
      · exact fun q hq => (List.mem_range'_1.mp hq).1
      · have heq := Option.some.inj (hget.symm.trans hgot)
        have hpair : w.pool.constructed + m = thePair := Option.some.inj (congrArg Prod.snd heq)
        omega
  | release inPair =>
    simp only [next] at hs
    split_ifs at hs with hpos
    obtain rfl := Option.some.inj hs
    obtain ⟨hinv, hdestructed⟩ := h.release hpos
    exact ⟨⟨hinv.sound, hdestructed⟩, hinv⟩
  | register thePair demuxer =>
    obtain rfl := Option.some.inj hs
    have hinv := h.register thePair demuxer
    exact ⟨⟨hinv.sound, rfl⟩, hinv⟩

/-- In a run that never shares a pair that has 2 ^ 32 - 1 holders, every step does what it
should. -/
theorem keeps_right (as : List (Action P)) (meets : (system P).Meets Countable {} as) :
    (system P).Keeps Right {} as :=
  System.Meets.keeps Inv (P := Right) (fun _ _ _ hw hs hok => next_right hw hok hs) inv_start meets

/-- A new pair at port 6970. -/
def opensBoth (_ : Nat) : PairTry := ⟨true, true, true, some 0, some 0⟩

/-- A request for a pair that is shared if there is one. -/
def getAny : Action Nat := .get 0 0 (1, 1) opensBoth none 1

theorem keeps_right_twoHolders :
    (system Nat).Keeps Right {} [getAny, getAny, .release 0, .register 0 UDPDemuxer.newDemuxer,
      .release 0] :=
  keeps_right _ (by decide)

/-- A pair with a number of holders. -/
def shared (n : Nat) : PoolWorld Nat where
  pool := {
    fUDPQueue := [0]
    pairs := Function.update (fun _ => {}) 0 { localPort := 6970, fRefCount := UInt32.ofNat n }
    constructed := 1 }
  holders := Function.update (fun _ => 0) 0 n

theorem next_getAny (n : Nat) : next (shared n) getAny = some (shared (n + 1)) := by
  have hsearch : (shared n).pool.search 0 0 (1, 1) 1 = some (.found 0) := rfl
  have hadd : UInt32.ofNat n + 1 = UInt32.ofNat (n + 1) := (UInt32.ofNat_add n 1).symm
  have hretain : (shared n).pool.retain 0 = (shared (n + 1)).pool := by
    simp only [UDPSocketPool.retain, shared, Function.update_self, Function.update_idem, hadd]
  simp only [next, getAny, getUDPSocketPair, hsearch, Option.bind_some, Option.map_some, hretain]
  simp only [shared, Function.update_self, Function.update_idem]

theorem run_getAny (n : Nat) :
    (List.replicate (n + 1) getAny).foldlM next {} = some (shared (n + 1)) := by
  induction n with
  | zero => rfl
  | succ n ih =>
    rw [List.replicate_succ', List.foldlM_append, ih]
    simpa using next_getAny (n + 1)

/-- The count is in 32 bits, and right only as long as the number of holders is, too. -/
theorem toNat_of_keeps {n : Nat}
    (h : (system Nat).Keeps Right {} (List.replicate (n + 1) getAny)) :
    (UInt32.ofNat (n + 1)).toNat = n + 1 := by
  have hrun := System.exec_of_foldlM (S := system Nat) (fun _ _ _ hs => hs) (run_getAny n)
  rw [List.replicate_succ'] at h hrun
  obtain ⟨w, -, hsound, -⟩ := System.Keeps.last h hrun
  exact (hsound.count 0 ⟨Nat.zero_lt_one, List.not_mem_nil⟩).1

/-- The count of a pair with 2 ^ 32 holders is 0. -/
theorem overflow_not_keeps : ¬ ∀ as, (system Nat).Keeps Right {} as := by
  intro h
  have hcount := toNat_of_keeps (h (List.replicate (2 ^ 32 - 1 + 1) getAny))
  rw [UInt32.toNat_ofNat'] at hcount
  omega

end PoolWorld

end CxxFramework.Net
