import CxxFramework.Core.HashTable
import CxxFramework.Core.StringParser
import CxxFramework.Library.Transition
import Mathlib.Data.List.Perm.Subperm

/-!
# Reference tables

`RefTable` registers refs by their string ids and counts how often each one is resolved.
Each critical section under `fMutex` is one step. `UnRegister` waits on the condition of
the ref until its count is low enough; the wait may end at any time, and the count is
looked at again then.

A count is a `UInt32`. The assertions behind its increment and its decrement end the run
before it wraps around, so that it is the number of the resolves that are not released yet.
A failed assertion is the result `none`.

## Main definitions

* `RefTable.next` — the calls of any number of threads on one table.
* `RefTable.Consistent` — what holds of the table between the calls.
* `RefTable.Effect` — what a call may do to the registered refs.
-/

namespace CxxFramework.Core

open Transition

/-- A ref is given by its address and its id. -/
structure Ref where
  address : Nat
  fString : StrPtrLen
deriving DecidableEq, Repr

/-- `RefTableUtils::HashString` -/
def hashString : StrPtrLen → Nat
  | none | some [] => 0
  | some theData =>
    let quarterLen := theData.length >>> 2
    let at_ (i : Nat) := (theData.getD i 0).toNat
    theData.length *
      (at_ 0 + at_ quarterLen + at_ (quarterLen * 2) + at_ (quarterLen * 3) +
        at_ (theData.length - 1)) % 2 ^ 32

instance : HashEntry Ref StrPtrLen := ⟨Ref.fString, hashString⟩

/-- The number range of `fRefCount`. -/
def kRefCountSize : Nat := 2 ^ 32

structure RefTable where
  fTable : HashTable Ref
  fRefCount : Ref → Nat := fun _ => 0

namespace RefTable

def OS_NoErr : Int := 0
def EPERM : Int := 1

def kUInt32_Max : Nat := 2 ^ 32 - 1

/-- The bound on the counts in the assertion of `Release`. -/
def kMaxReleasedCount : Nat := 1048576

/-! ## Operations -/

/-- `RefTable::Register`, of a ref that is not null. The assertion on its count is made before
the lock is taken, and says nothing about the critical section. -/
def register (table : RefTable) (inRef : Ref) : Option (Int × RefTable) :=
  -- the assertions on the string; the test for `EPERM` behind them is the same
  if inRef.fString = none ∨ inRef.fString = some [] then none
  else
    match table.fTable.map inRef.fString with
    | some _ => some (EPERM, table)
    | none => some (OS_NoErr, { table with fTable := table.fTable.add inRef })

def setRefCount (table : RefTable) (ref : Ref) (count : Nat) : RefTable :=
  { table with fRefCount := Function.update table.fRefCount ref count }

/-- `RefTable::Resolve` -/
def resolve (table : RefTable) (inUniqueID : StrPtrLen) : Option (Option Ref × RefTable) :=
  match table.fTable.map inUniqueID with
  | some ref =>
    let fRefCount := (table.fRefCount ref + 1) % kRefCountSize
    if fRefCount > 0 then some (some ref, table.setRefCount ref fRefCount) else none
  | none => some (none, table)

/-- `RefTable::RegisterOrResolve`; its assertion on the count is made before the lock is taken. -/
def registerOrResolve (table : RefTable) (inRef : Ref) : Option (Option Ref × RefTable) :=
  (table.resolve inRef.fString).map fun
    | (some duplicateRef, table) => (some duplicateRef, table)
    | (none, table) => (none, { table with fTable := table.fTable.add inRef })

/-- `RefTable::UnRegister`; `none` as long as it has to wait. -/
def unRegister (table : RefTable) (ref : Ref) (refCount : Nat) : Option RefTable :=
  if table.fRefCount ref > refCount then none
  else some { table with fTable := table.fTable.remove ref }

/-- `RefTable::TryUnRegister` -/
def tryUnRegister (table : RefTable) (ref : Ref) (refCount : Nat) : Bool × RefTable :=
  match table.unRegister ref refCount with
  | none => (false, table)
  | some table => (true, table)

/-- `RefTable::Release` -/
def release (table : RefTable) (ref : Ref) : Option RefTable :=
  let fRefCount := (table.fRefCount ref + kRefCountSize - 1) % kRefCountSize
  if fRefCount < kMaxReleasedCount then some (table.setRefCount ref fRefCount) else none

/-- `RefTable::Swap` -/
def swap (table : RefTable) (newRef : Ref) : Option RefTable :=
  match table.fTable.map newRef.fString with
  | some oldRef => some { table with fTable := (table.fTable.remove oldRef).add newRef }
  | none => none

/-- `RefTable::GetNumRefsInTable`; the result is a `UInt32`. -/
def getNumRefsInTable (table : RefTable) : Option Nat :=
  if table.fTable.fNumEntries < kUInt32_Max then some (table.fTable.fNumEntries % 2 ^ 32) else none

/-! ## Runs -/

/-- A table, the `UnRegister` calls that wait on it, each with its level, and how often
each ref has been resolved and released. -/
structure State where
  table : RefTable
  waiting : List (Ref × Nat) := []
  resolves : Ref → Nat := fun _ => 0
  releases : Ref → Nat := fun _ => 0

inductive Action where
  | register (inRef : Ref)
  | registerOrResolve (inRef : Ref)
  | unRegister (ref : Ref) (refCount : Nat)
  | wake (ref : Ref) (refCount : Nat)
  | tryUnRegister (ref : Ref) (refCount : Nat)
  | resolve (inUniqueID : StrPtrLen)
  | release (ref : Ref)
  | swap (newRef : Ref)
deriving DecidableEq, Repr

/-- The table after a call that has resolved a ref, or has not. -/
def State.resolved (s : State) : Option Ref × RefTable → State
  | (some ref, table) =>
    { s with table, resolves := Function.update s.resolves ref (s.resolves ref + 1) }
  | (none, table) => { s with table }

/-- The registered refs. -/
def State.refs (s : State) : List Ref := s.table.fTable.entries

/-- The number of addresses. -/
def kAddressSize : Nat := 2 ^ 64

/-- A pointer to a ref is not null, and a ref keeps its string while it is registered. -/
def State.Admits (s : State) (inRef : Ref) : Prop :=
  (0 < inRef.address ∧ inRef.address < kAddressSize) ∧
    ∀ ref ∈ s.refs, ref.address = inRef.address → ref = inRef

instance (s : State) (inRef : Ref) : Decidable (s.Admits inRef) :=
  inferInstanceAs (Decidable (_ ∧ _))

/-- One critical section; none also if an assertion fails. -/
def next (s : State) : Action → Option State
  | .register inRef =>
    if s.Admits inRef then (s.table.register inRef).map fun r => { s with table := r.2 } else none
  | .registerOrResolve inRef =>
    if s.Admits inRef then (s.table.registerOrResolve inRef).map s.resolved else none
  | .unRegister ref refCount =>
    match s.table.unRegister ref refCount with
    | none => some { s with waiting := (ref, refCount) :: s.waiting }
    | some table => some { s with table }
  | .wake ref refCount =>
    if (ref, refCount) ∈ s.waiting then
      match s.table.unRegister ref refCount with
      | none => some s
      | some table => some { s with table, waiting := s.waiting.erase (ref, refCount) }
    else none
  | .tryUnRegister ref refCount => some { s with table := (s.table.tryUnRegister ref refCount).2 }
  | .resolve inUniqueID => (s.table.resolve inUniqueID).map s.resolved
  | .release ref =>
    (s.table.release ref).map fun table =>
      { s with table, releases := Function.update s.releases ref (s.releases ref + 1) }
  | .swap newRef =>
    if s.Admits newRef then (s.table.swap newRef).map fun table => { s with table } else none

/-- A new table, of any positive size. -/
def Fresh (s : State) : Prop :=
  ∃ tableSize, 0 < tableSize ∧ s = { table := { fTable := .new tableSize } }

abbrev system : System State Action := .ofPartial Fresh next

/-- The ids of the registered refs differ, and `Resolve` returns the ref of an id or nothing. The
count of a ref is that of its resolves that are not released, and the number of refs is that of
the entries, unless the assertion on it fails. -/
structure Consistent (s : State) : Prop where
  ids : (s.refs.map Ref.fString).Nodup
  resolve : ∀ id result table, s.table.resolve id = some (result, table) →
    ∀ ref, result = some ref ↔ ref ∈ s.refs ∧ ref.fString = id
  count : ∀ ref, (s.table.fRefCount ref : Int) = (s.resolves ref : Int) - s.releases ref
  num : s.table.getNumRefsInTable =
    if s.refs.length < kUInt32_Max then some s.refs.length else none

/-- A ref leaves the table when it is unregistered at a count that is low enough, or when
it is swapped for a ref of the same id. -/
structure Effect (s : State) (a : Action) (s' : State) : Prop where
  out : ∀ ref ∈ s.refs, ref ∉ s'.refs →
    match a with
    | .unRegister ref' refCount | .wake ref' refCount | .tryUnRegister ref' refCount =>
      ref' = ref ∧ s.table.fRefCount ref ≤ refCount
    | .swap newRef => newRef ≠ ref ∧ newRef.fString = ref.fString
    | _ => False
  swap : ∀ newRef, a = .swap newRef → ∀ ref,
    ref ∈ s'.refs ↔
      if ref.fString = newRef.fString then
        ref = newRef ∧ ∃ oldRef ∈ s.refs, oldRef.fString = newRef.fString
      else ref ∈ s.refs

/-! ## The table -/

variable {table table' : RefTable} {ref inRef newRef : Ref} {id : StrPtrLen}
  {result : Option Ref} {s s' : State} {a : Action}

/-- `Resolve` finds the ref of an id, and counts it up; or it finds nothing. -/
theorem resolve_cases (h : table.resolve id = some (result, table')) :
    result = table.fTable.map id ∧
      ((∃ ref, result = some ref ∧ 0 < (table.fRefCount ref + 1) % kRefCountSize ∧
        table' = table.setRefCount ref ((table.fRefCount ref + 1) % kRefCountSize)) ∨
      (result = none ∧ table' = table)) := by
  unfold resolve at h
  cases hmap : table.fTable.map id with
  | none =>
    simp only [hmap, Option.some.injEq, Prod.mk.injEq] at h
    exact ⟨h.1.symm, .inr ⟨h.1.symm, h.2.symm⟩⟩
  | some ref =>
    simp only [hmap] at h
    split_ifs at h with hcount
    obtain ⟨rfl, rfl⟩ := Prod.mk.inj (Option.some.inj h)
    exact ⟨rfl, .inl ⟨ref, rfl, hcount, rfl⟩⟩

theorem resolve_fTable (h : table.resolve id = some (result, table')) :
    table'.fTable = table.fTable := by
  obtain ⟨-, ⟨_, -, -, rfl⟩ | ⟨-, rfl⟩⟩ := resolve_cases h <;> rfl

/-- `Register` adds a ref whose id is new, or does nothing. -/
theorem register_cases {error : Int} (h : table.register inRef = some (error, table')) :
    table' = table ∨ (table.fTable.map inRef.fString = none ∧
      table' = { table with fTable := table.fTable.add inRef }) := by
  unfold register at h
  split_ifs at h
  cases hmap : table.fTable.map inRef.fString with
  | none =>
    simp only [hmap, Option.some.injEq, Prod.mk.injEq] at h
    exact .inr ⟨rfl, h.2.symm⟩
  | some _ =>
    simp only [hmap, Option.some.injEq, Prod.mk.injEq] at h
    exact .inl h.2.symm

/-- `RegisterOrResolve` resolves the ref that has the id, or adds its own. -/
theorem registerOrResolve_cases (h : table.registerOrResolve inRef = some (result, table')) :
    (∃ ref, result = some ref ∧ table.resolve inRef.fString = some (result, table')) ∨
      (result = none ∧ table.fTable.map inRef.fString = none ∧
        table' = { table with fTable := table.fTable.add inRef }) := by
  unfold registerOrResolve at h
  obtain ⟨⟨found, resolved⟩, hresolve, heq⟩ := Option.map_eq_some_iff.mp h
  cases found with
  | some ref =>
    obtain ⟨rfl, rfl⟩ := Prod.mk.inj heq
    exact .inl ⟨ref, rfl, hresolve⟩
  | none =>
    obtain ⟨rfl, rfl⟩ := Prod.mk.inj heq
    obtain ⟨hmap, ⟨_, hsome, -⟩ | ⟨-, rfl⟩⟩ := resolve_cases hresolve
    · cases hsome
    · exact .inr ⟨rfl, hmap.symm, rfl⟩

/-- Adding a ref of a new id keeps the table valid, and the refs that are in it. -/
theorem add_valid (hv : table.fTable.Valid) (hmap : table.fTable.map inRef.fString = none) :
    (table.fTable.add inRef).Valid ∧ table.fTable.entries ⊆ (table.fTable.add inRef).entries := by
  refine ⟨HashTable.add_valid hv ((HashTable.map_eq_none_iff hv).mp hmap), ?_⟩
  intro ref href
  exact (HashTable.mem_add hv.linked).mpr (.inr href)

/-- `UnRegister` takes out the ref alone, at a count that is low enough. -/
theorem unRegister_spec (hv : table.fTable.Valid) {refCount : Nat}
    (h : table.unRegister ref refCount = some table') :
    table'.fTable.Valid ∧ table'.fRefCount = table.fRefCount ∧
      table.fRefCount ref ≤ refCount ∧
      ∀ r, r ∈ table'.fTable.entries ↔ r ∈ table.fTable.entries ∧ r ≠ ref := by
  unfold unRegister at h
  split_ifs at h with hcount
  obtain rfl := Option.some.inj h
  exact ⟨HashTable.remove_valid hv ref, rfl, not_lt.mp hcount,
    fun r => HashTable.mem_remove hv.linked⟩

/-- `Swap` puts a ref in the place of the one with its id. -/
theorem swap_spec (hv : table.fTable.Valid) (h : table.swap newRef = some table') :
    table'.fTable.Valid ∧ table'.fRefCount = table.fRefCount ∧
      ∀ ref, ref ∈ table'.fTable.entries ↔
        if ref.fString = newRef.fString then
          ref = newRef ∧ ∃ oldRef ∈ table.fTable.entries, oldRef.fString = newRef.fString
        else ref ∈ table.fTable.entries := by
  unfold swap at h
  cases hmap : table.fTable.map newRef.fString with
  | none => simp [hmap] at h
  | some oldRef =>
    simp only [hmap, Option.some.injEq] at h
    subst h
    obtain ⟨hold, hoid⟩ := (HashTable.map_eq_some_iff hv).mp hmap
    have hv' := HashTable.remove_valid hv oldRef
    have hnew : ∀ ref ∈ (table.fTable.remove oldRef).entries, ref.fString ≠ newRef.fString := by
      intro ref href hid
      obtain ⟨hmem, hne⟩ := (HashTable.mem_remove hv.linked).mp href
      exact hne (hv.eq_of_key_eq hmem hold (hid.trans hoid.symm))
    refine ⟨HashTable.add_valid hv' hnew, rfl, ?_⟩
    intro ref
    rw [HashTable.mem_add hv'.linked]
    split_ifs with hid
    · constructor
      · rintro (rfl | href)
        · exact ⟨rfl, oldRef, hold, hoid⟩
        · exact absurd hid (hnew ref href)
      · rintro ⟨rfl, -⟩
        exact .inl rfl
    · rw [HashTable.mem_remove hv.linked]
      constructor
      · rintro (rfl | ⟨href, -⟩)
        · exact absurd rfl hid
        · exact href
      · intro href
        refine .inr ⟨href, ?_⟩
        rintro rfl
        exact hid hoid

/-! ## The counts -/

/-- The count of each ref is that of its resolves that are not released. -/
def Counted (fRefCount resolves releases : Ref → Nat) : Prop :=
  ∀ ref, fRefCount ref < kRefCountSize ∧
    (fRefCount ref : Int) = (resolves ref : Int) - releases ref

/-- The refs in the table are at different addresses, none of which is null. -/
def Placed (refs : List Ref) : Prop :=
  (∀ ref ∈ refs, 0 < ref.address ∧ ref.address < kAddressSize) ∧
    ∀ ref ∈ refs, ∀ ref' ∈ refs, ref.address = ref'.address → ref = ref'

structure Inv (s : State) : Prop where
  valid : s.table.fTable.Valid
  counted : Counted s.table.fRefCount s.resolves s.releases
  placed : Placed s.refs

/-- The count of one ref is set to that of its resolves and releases. -/
theorem Counted.update {fRefCount resolves releases : Ref → Nat}
    (h : Counted fRefCount resolves releases) (ref : Ref) {count resolved released : Nat}
    (hrange : count < kRefCountSize) (hcount : (count : Int) = (resolved : Int) - released) :
    Counted (Function.update fRefCount ref count) (Function.update resolves ref resolved)
      (Function.update releases ref released) := by
  intro r
  by_cases hre : r = ref
  · rw [hre, Function.update_self, Function.update_self, Function.update_self]
    exact ⟨hrange, hcount⟩
  · rw [Function.update_of_ne hre, Function.update_of_ne hre, Function.update_of_ne hre]
    exact h r

/-- The assertion behind the increment holds only below the largest count. -/
theorem resolve_counted (h : Counted s.table.fRefCount s.resolves s.releases)
    (hs : s.table.resolve id = some (result, table')) :
    Counted (s.resolved (result, table')).table.fRefCount (s.resolved (result, table')).resolves
      (s.resolved (result, table')).releases := by
  obtain ⟨-, ⟨ref, rfl, hpos, rfl⟩ | ⟨rfl, rfl⟩⟩ := resolve_cases hs
  · obtain ⟨hrange, hcount⟩ := h ref
    have hcounts : (((s.table.fRefCount ref + 1) % kRefCountSize : Nat) : Int) =
        ((s.resolves ref + 1 : Nat) : Int) - s.releases ref := by
      unfold kRefCountSize at *
      omega
    have hup := h.update ref (Nat.mod_lt _ (by decide)) hcounts
    rwa [Function.update_eq_self] at hup
  · exact h

/-- The assertion behind the decrement holds only above the count 0. -/
theorem release_counted (h : Counted s.table.fRefCount s.resolves s.releases)
    (hs : s.table.release ref = some table') :
    table'.fTable = s.table.fTable ∧ Counted table'.fRefCount s.resolves
      (Function.update s.releases ref (s.releases ref + 1)) := by
  simp only [release, Option.ite_none_right_eq_some, Option.some.injEq] at hs
  obtain ⟨hmax, rfl⟩ := hs
  refine ⟨rfl, ?_⟩
  obtain ⟨hrange, hcount⟩ := h ref
  have hcounts : (((s.table.fRefCount ref + kRefCountSize - 1) % kRefCountSize : Nat) : Int) =
      s.resolves ref - ((s.releases ref + 1 : Nat) : Int) := by
    unfold kRefCountSize kMaxReleasedCount at *
    omega
  have hdown := h.update ref (Nat.mod_lt _ (by decide)) hcounts
  rwa [Function.update_eq_self] at hdown

theorem Placed.subset {refs refs' : List Ref} (h : Placed refs) (hsub : refs' ⊆ refs) :
    Placed refs' :=
  ⟨fun ref href => h.1 ref (hsub href), fun ref href ref' href' => h.2 ref (hsub href) ref' (hsub href')⟩

theorem Placed.entered (h : Placed s.refs) (hadmits : s.Admits inRef) : Placed (inRef :: s.refs) := by
  obtain ⟨hrange, hown⟩ := hadmits
  refine ⟨List.forall_mem_cons.mpr ⟨hrange, h.1⟩, ?_⟩
  intro ref href ref' href' heq
  rcases List.mem_cons.mp href with rfl | hin <;> rcases List.mem_cons.mp href' with rfl | hin'
  · rfl
  · exact (hown ref' hin' heq.symm).symm
  · exact hown ref hin heq
  · exact h.2 ref hin ref' hin' heq

/-- There are fewer refs than addresses. -/
theorem Placed.length_lt {refs : List Ref} (h : Placed refs) (hnodup : refs.Nodup) :
    refs.length < kAddressSize := by
  have hmap : (refs.map Ref.address).Nodup :=
    hnodup.map_on fun ref href ref' href' heq => h.2 ref href ref' href' heq
  have hsub : refs.map Ref.address ⊆ List.range' 1 (kAddressSize - 1) := by
    intro address hmem
    obtain ⟨ref, href, rfl⟩ := List.mem_map.mp hmem
    obtain ⟨hpos, hlt⟩ := h.1 ref href
    exact List.mem_range'_1.mpr ⟨hpos, by omega⟩
  have hle := (List.subperm_of_subset hmap hsub).length_le
  rw [List.length_map, List.length_range'] at hle
  have hpos : 0 < kAddressSize := Nat.two_pow_pos 64
  omega

theorem Inv.consistent (hi : Inv s) : Consistent s where
  ids := hi.valid.unique
  resolve id result table hs ref := by
    rw [(resolve_cases hs).1]
    exact HashTable.map_eq_some_iff hi.valid
  count ref := (hi.counted ref).2
  num := by
    have hlt : s.refs.length < kAddressSize := hi.placed.length_lt hi.valid.linked.nodup
    have hnum : s.table.fTable.fNumEntries = s.refs.length :=
      hi.valid.count.trans (Nat.mod_eq_of_lt hlt)
    simp only [getNumRefsInTable, hnum]
    split_ifs with hmax
    · rw [Nat.mod_eq_of_lt (by unfold kUInt32_Max at hmax; omega)]
    · rfl

/-! ## Steps -/

/-- The effect of a call that takes no ref out and is no `Swap`. -/
theorem effect_of_subset (h : s.refs ⊆ s'.refs) (hswap : ∀ newRef, a ≠ .swap newRef) :
    Effect s a s' where
  out _ href hout := absurd (h href) hout
  swap newRef ha := absurd ha (hswap newRef)

/-- A ref of a new id is added. -/
theorem add_inv (hi : Inv s) (hadmits : s.Admits inRef)
    (hmap : s.table.fTable.map inRef.fString = none) :
    s.refs ⊆ (s.table.fTable.add inRef).entries ∧
      Inv { s with table.fTable := s.table.fTable.add inRef } := by
  obtain ⟨hv, hsub⟩ := add_valid hi.valid hmap
  refine ⟨hsub, hv, hi.counted, (hi.placed.entered hadmits).subset ?_⟩
  intro ref href
  exact List.mem_cons.mpr ((HashTable.mem_add hi.valid.linked).mp href)

theorem resolve_inv (hi : Inv s) (hs : s.table.resolve id = some (result, table')) :
    (s.resolved (result, table')).refs = s.refs ∧ Inv (s.resolved (result, table')) := by
  have htable : (s.resolved (result, table')).table.fTable = s.table.fTable := by
    rw [← resolve_fTable hs]
    cases result <;> rfl
  have hrefs : (s.resolved (result, table')).refs = s.refs := congrArg HashTable.entries htable
  exact ⟨hrefs, htable ▸ hi.valid, resolve_counted hi.counted hs, hrefs ▸ hi.placed⟩

/-- A successful `UnRegister`, of a call that may have waited. -/
theorem unRegister_inv (hi : Inv s) {refCount : Nat}
    (h : s.table.unRegister ref refCount = some table) (waiting : List (Ref × Nat)) :
    (∀ r ∈ s.refs, r ∉ table.fTable.entries → ref = r ∧ s.table.fRefCount r ≤ refCount) ∧
      Inv { s with table, waiting } := by
  obtain ⟨hv, hcount, hle, hmem⟩ := unRegister_spec hi.valid h
  refine ⟨?_, hv, ?_, hi.placed.subset fun r hr => ((hmem r).mp hr).1⟩
  · intro r hr hout
    by_cases hne : r = ref
    · subst hne
      exact ⟨rfl, hle⟩
    · exact absurd ((hmem r).mpr ⟨hr, hne⟩) hout
  · rw [show ({ s with table, waiting } : State).table.fRefCount = _ from hcount]
    exact hi.counted

/-- A swap takes out no other ref than the one of the same id. -/
theorem swap_inv (hi : Inv s) (hadmits : s.Admits newRef)
    (hs : s.table.swap newRef = some table) :
    Effect s (.swap newRef) { s with table } ∧ Inv { s with table } := by
  obtain ⟨hv, hcount, hmem⟩ := swap_spec hi.valid hs
  refine ⟨⟨?_, ?_⟩, hv, ?_, (hi.placed.entered hadmits).subset ?_⟩
  · intro ref href hout
    have hid : ref.fString = newRef.fString := by
      by_contra hid
      exact hout ((hmem ref).mpr (by rwa [if_neg hid]))
    refine ⟨?_, hid.symm⟩
    rintro rfl
    exact hout ((hmem newRef).mpr (by rw [if_pos rfl]; exact ⟨rfl, newRef, href, rfl⟩))
  · rintro _ ⟨⟩
    exact hmem
  · rw [show ({ s with table } : State).table.fRefCount = _ from hcount]
    exact hi.counted
  · intro ref href
    have hin := (hmem ref).mp href
    split_ifs at hin
    · exact List.mem_cons.mpr (.inl hin.1)
    · exact List.mem_cons_of_mem newRef hin

theorem next_inv (hi : Inv s) (h : next s a = some s') : Effect s a s' ∧ Inv s' := by
  cases a with
  | register inRef =>
    simp only [next, Option.ite_none_right_eq_some, Option.map_eq_some_iff] at h
    obtain ⟨hadmits, ⟨error, table⟩, hs, rfl⟩ := h
    rcases register_cases hs with rfl | ⟨hmap, rfl⟩
    · exact ⟨effect_of_subset (List.Subset.refl _) nofun, hi⟩
    · obtain ⟨hsub, hi'⟩ := add_inv hi hadmits hmap
      exact ⟨effect_of_subset hsub nofun, hi'⟩
  | registerOrResolve inRef =>
    simp only [next, Option.ite_none_right_eq_some, Option.map_eq_some_iff] at h
    obtain ⟨hadmits, ⟨result, table⟩, hs, rfl⟩ := h
    rcases registerOrResolve_cases hs with ⟨ref, -, hresolve⟩ | ⟨rfl, hmap, rfl⟩
    · obtain ⟨hrefs, hi'⟩ := resolve_inv hi hresolve
      exact ⟨effect_of_subset (hrefs ▸ List.Subset.refl _) nofun, hi'⟩
    · obtain ⟨hsub, hi'⟩ := add_inv hi hadmits hmap
      exact ⟨effect_of_subset hsub nofun, hi'⟩
  | unRegister ref refCount =>
    simp only [next] at h
    cases hun : s.table.unRegister ref refCount with
    | none =>
      simp only [hun, Option.some.injEq] at h
      subst h
      exact ⟨effect_of_subset (List.Subset.refl _) nofun, hi.valid, hi.counted, hi.placed⟩
    | some table =>
      simp only [hun, Option.some.injEq] at h
      subst h
      obtain ⟨hout, hi'⟩ := unRegister_inv hi hun s.waiting
      exact ⟨⟨hout, nofun⟩, hi'⟩
  | wake ref refCount =>
    simp only [next, Option.ite_none_right_eq_some] at h
    obtain ⟨-, h⟩ := h
    cases hun : s.table.unRegister ref refCount with
    | none =>
      simp only [hun, Option.some.injEq] at h
      subst h
      exact ⟨effect_of_subset (List.Subset.refl _) nofun, hi⟩
    | some table =>
      simp only [hun, Option.some.injEq] at h
      subst h
      obtain ⟨hout, hi'⟩ := unRegister_inv hi hun (s.waiting.erase (ref, refCount))
      exact ⟨⟨hout, nofun⟩, hi'⟩
  | tryUnRegister ref refCount =>
    simp only [next, tryUnRegister] at h
    cases hun : s.table.unRegister ref refCount with
    | none =>
      simp only [hun, Option.some.injEq] at h
      subst h
      exact ⟨effect_of_subset (List.Subset.refl _) nofun, hi⟩
    | some table =>
      simp only [hun, Option.some.injEq] at h
      subst h
      obtain ⟨hout, hi'⟩ := unRegister_inv hi hun s.waiting
      exact ⟨⟨hout, nofun⟩, hi'⟩
  | resolve id =>
    simp only [next, Option.map_eq_some_iff] at h
    obtain ⟨⟨result, table⟩, hs, rfl⟩ := h
    obtain ⟨hrefs, hi'⟩ := resolve_inv hi hs
    exact ⟨effect_of_subset (hrefs ▸ List.Subset.refl _) nofun, hi'⟩
  | release ref =>
    simp only [next, Option.map_eq_some_iff] at h
    obtain ⟨table, hs, rfl⟩ := h
    obtain ⟨htable, hcounted⟩ := release_counted hi.counted hs
    have hrefs : table.fTable.entries = s.refs := congrArg HashTable.entries htable
    refine ⟨effect_of_subset (hrefs ▸ List.Subset.refl _) nofun, ?_, hcounted, ?_⟩
    · simpa [htable] using hi.valid
    · simpa [State.refs, htable] using hi.placed
  | swap newRef =>
    simp only [next, Option.ite_none_right_eq_some, Option.map_eq_some_iff] at h
    obtain ⟨hadmits, table, hs, rfl⟩ := h
    exact swap_inv hi hadmits hs

theorem Fresh.inv (fresh : Fresh s) : Inv s := by
  obtain ⟨tableSize, hsize, rfl⟩ := fresh
  refine ⟨HashTable.new_valid hsize, fun _ => ⟨Nat.two_pow_pos 32, rfl⟩, ?_⟩
  simp [State.refs, HashTable.new_entries, Placed]

theorem reachable_inv (h : system.Reachable s) : Inv s := by
  refine h.invariant Inv ?_ ?_
  · intro s fresh
    exact Fresh.inv fresh
  · intro s a s' hi hs
    exact (next_inv hi hs).2

/-- In every state that calls on a new table can reach, the table is consistent, and every
further call has only the effect it may have. -/
theorem consistent_of_reachable {s : State} (h : system.Reachable s) :
    Consistent s ∧ ∀ a s', next s a = some s' → Effect s a s' := by
  refine ⟨(reachable_inv h).consistent, ?_⟩
  intro a s' hs
  exact (next_inv (reachable_inv h) hs).1

/-- A ref is registered and resolved; an `UnRegister` has to wait, the ref is released, and
another ref of its id is swapped in and taken out. Then there is a ref of another id. -/
def swapRun : List Action :=
  [.register ⟨1, some [65]⟩, .resolve (some [65]), .unRegister ⟨1, some [65]⟩ 0,
    .registerOrResolve ⟨3, some [65]⟩, .release ⟨1, some [65]⟩, .swap ⟨2, some [65]⟩,
    .release ⟨1, some [65]⟩, .wake ⟨1, some [65]⟩ 0, .registerOrResolve ⟨3, some [66]⟩,
    .tryUnRegister ⟨2, some [65]⟩ 0]

theorem consistent_of_reachable_swapRun :
    ∃ s, swapRun.foldlM next { table := { fTable := .new 1193 } } = some s ∧ Consistent s := by
  have hrun : (swapRun.foldlM next { table := { fTable := .new 1193 } }).isSome := by
    decide +kernel
  obtain ⟨s, hs⟩ := Option.isSome_iff_exists.mp hrun
  refine ⟨s, hs, (consistent_of_reachable ?_).1⟩
  exact System.reachable_ofPartial swapRun ⟨1193, by decide, rfl⟩ hs

end RefTable

end CxxFramework.Core
