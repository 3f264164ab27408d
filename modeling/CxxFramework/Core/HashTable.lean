import CxxFramework.Library.Chains
import Mathlib.Data.Nat.Bitwise

/-!
# Hash tables

`HashTable<T, K>` keeps its entries in chains, one for each index that a hash key can
have. The table may hold entries of equal keys; `Map` finds the first one.

## Main definitions

* `HashTable.add`, `HashTable.remove`, `HashTable.map` — the operations.
* `HashTable.entries` — all entries, in some order.
* `HashTable.Linked` — each entry is in the chain of its key, once.
* `HashTable.Valid` — so it is, and no two keys are equal.
-/

namespace CxxFramework.Core

open Chains

/-- What a table needs of its entries: the constructor `K(entry)` and `GetHashKey`. -/
class HashEntry (T : Type) (K : outParam Type) where
  key : T → K
  getHashKey : K → Nat

/-- The number range of `fNumEntries`. -/
def kNumEntriesSize : Nat := 2 ^ 64

/-- A chain is the list of the entries that `fNextHashEntry` links. -/
structure HashTable (T : Type) where
  fHashTable : Nat → List T
  fSize : Nat
  fMask : Nat
  fNumEntries : Nat

namespace HashTable

variable {T K : Type} [HashEntry T K]

/-! ## Operations -/

/-- `HashTable::HashTable` for a positive size; the mask is used if that is a power of
two. -/
def new (size : Nat) : HashTable T where
  fHashTable _ := []
  fSize := size
  fMask := if (size - 1) &&& size ≠ 0 then 0 else size - 1
  fNumEntries := 0

def computeIndex (h : HashTable T) (hashKey : Nat) : Nat :=
  if h.fMask ≠ 0 then hashKey &&& h.fMask else hashKey % h.fSize

/-- The chain of a key. -/
def index (h : HashTable T) (key : K) : Nat := h.computeIndex (HashEntry.getHashKey T key)

/-- `HashTable::Add` -/
def add (h : HashTable T) (entry : T) : HashTable T :=
  let theIndex := h.index (HashEntry.key entry)
  { h with
    fHashTable := Function.update h.fHashTable theIndex (entry :: h.fHashTable theIndex)
    fNumEntries := (h.fNumEntries + 1) % kNumEntriesSize }

/-- `HashTable::Remove` -/
def remove [DecidableEq T] (h : HashTable T) (entry : T) : HashTable T :=
  let theIndex := h.index (HashEntry.key entry)
  if entry ∈ h.fHashTable theIndex then
    { h with
      fHashTable := Function.update h.fHashTable theIndex ((h.fHashTable theIndex).erase entry)
      fNumEntries := (h.fNumEntries + kNumEntriesSize - 1) % kNumEntriesSize }
  else h

/-- `HashTable::Map` -/
def map [DecidableEq K] (h : HashTable T) (key : K) : Option T :=
  (h.fHashTable (h.index key)).find? fun elem => HashEntry.key elem = key

/-! ## Valid tables -/

def entries (h : HashTable T) : List T := all h.fSize h.fHashTable

structure Valid (h : HashTable T) : Prop where
  index_lt : ∀ hashKey, h.computeIndex hashKey < h.fSize
  placed : ∀ i, ∀ e ∈ h.fHashTable i, h.index (HashEntry.key e) = i
  unique : (h.entries.map HashEntry.key).Nodup
  count : h.fNumEntries = h.entries.length % kNumEntriesSize

/-- A table whose entries may have equal keys. -/
structure Linked (h : HashTable T) : Prop where
  index_lt : ∀ hashKey, h.computeIndex hashKey < h.fSize
  placed : ∀ i, ∀ e ∈ h.fHashTable i, h.index (HashEntry.key e) = i
  nodup : h.entries.Nodup
  count : h.fNumEntries = h.entries.length % kNumEntriesSize

variable {h : HashTable T} {e entry : T} {key : K}

theorem Valid.linked (hv : h.Valid) : h.Linked :=
  ⟨hv.index_lt, hv.placed, hv.unique.of_map, hv.count⟩

omit [HashEntry T K] in
theorem new_entries (size : Nat) : (new size : HashTable T).entries = [] :=
  List.flatMap_eq_nil_iff.mpr fun _ _ => rfl

theorem new_valid {size : Nat} (hsize : 0 < size) : (new size : HashTable T).Valid where
  index_lt hashKey := by
    unfold computeIndex
    split_ifs with hmask
    · have hle : hashKey &&& (new size : HashTable T).fMask ≤ (new size : HashTable T).fMask :=
        Nat.and_le_right
      refine Nat.lt_of_le_of_lt hle ?_
      dsimp only [new]
      split_ifs <;> omega
    · exact Nat.mod_lt hashKey hsize
  placed _ _ he := absurd he List.not_mem_nil
  unique := by
    rw [new_entries]
    exact List.nodup_nil
  count := by
    rw [new_entries]
    rfl

theorem Linked.mem_chain (hl : h.Linked) :
    e ∈ h.entries ↔ e ∈ h.fHashTable (h.index (HashEntry.key e)) := by
  unfold entries
  rw [mem_all]
  constructor
  · rintro ⟨i, -, he⟩
    rwa [hl.placed i e he]
  · intro he
    exact ⟨_, hl.index_lt _, he⟩

/-- What is in a chain is in the table. -/
theorem Linked.mem_entries {i : Nat} (hl : h.Linked) (he : e ∈ h.fHashTable i) : e ∈ h.entries := by
  rw [hl.mem_chain, hl.placed i e he]
  exact he

theorem Valid.eq_of_key_eq (hv : h.Valid) (he : e ∈ h.entries) (hentry : entry ∈ h.entries)
    (hkey : HashEntry.key e = HashEntry.key entry) : e = entry :=
  List.inj_on_of_nodup_map hv.unique he hentry hkey

section Map

variable [DecidableEq K]

/-- `Map` returns the entry of the key, if there is one. -/
theorem map_eq_some_iff (hv : h.Valid) :
    h.map key = some e ↔ e ∈ h.entries ∧ HashEntry.key e = key := by
  unfold map
  constructor
  · intro hfind
    have hkey : HashEntry.key e = key := by simpa using List.find?_some hfind
    refine ⟨hv.linked.mem_chain.mpr ?_, hkey⟩
    rw [hkey]
    exact List.mem_of_find?_eq_some hfind
  · rintro ⟨he, rfl⟩
    have hsome : ((h.fHashTable (h.index (HashEntry.key e))).find?
        fun elem => HashEntry.key elem = HashEntry.key e).isSome := by
      rw [List.find?_isSome]
      exact ⟨e, hv.linked.mem_chain.mp he, by simp⟩
    obtain ⟨elem, hfind⟩ := Option.isSome_iff_exists.mp hsome
    have hkey : HashEntry.key elem = HashEntry.key e := by simpa using List.find?_some hfind
    have helem : elem ∈ h.entries := by
      rw [hv.linked.mem_chain, hkey]
      exact List.mem_of_find?_eq_some hfind
    rw [hfind, hv.eq_of_key_eq helem he hkey]

theorem map_eq_none_iff (hv : h.Valid) :
    h.map key = none ↔ ∀ e ∈ h.entries, HashEntry.key e ≠ key := by
  rw [Option.eq_none_iff_forall_ne_some]
  constructor
  · intro hnone e he hkey
    exact hnone e ((map_eq_some_iff hv).mpr ⟨he, hkey⟩)
  · intro hall e he
    obtain ⟨hmem, hkey⟩ := (map_eq_some_iff hv).mp he
    exact hall e hmem hkey

end Map

theorem add_entries (hl : h.Linked) (entry : T) :
    (h.add entry).entries.Perm (entry :: h.entries) :=
  all_cons (hl.index_lt _) entry

theorem mem_add (hl : h.Linked) : e ∈ (h.add entry).entries ↔ e = entry ∨ e ∈ h.entries := by
  rw [(add_entries hl entry).mem_iff, List.mem_cons]

/-- An entry that is not in the table can be added. -/
theorem add_linked (hl : h.Linked) (hnew : entry ∉ h.entries) : (h.add entry).Linked where
  index_lt := hl.index_lt
  placed i e he := by
    simp only [add] at he
    by_cases hi : i = h.index (HashEntry.key entry)
    · subst hi
      rw [Function.update_self, List.mem_cons] at he
      rcases he with rfl | he
      · rfl
      · exact hl.placed _ e he
    · rw [Function.update_of_ne hi] at he
      exact hl.placed i e he
  nodup := by
    rw [(add_entries hl entry).nodup_iff, List.nodup_cons]
    exact ⟨hnew, hl.nodup⟩
  count := by
    rw [(add_entries hl entry).length_eq, List.length_cons]
    simp only [add, hl.count, Nat.mod_add_mod]

/-- An entry of a new key can be added. -/
theorem add_valid (hv : h.Valid) (hnew : ∀ e ∈ h.entries, HashEntry.key e ≠ HashEntry.key entry) :
    (h.add entry).Valid := by
  have hl := add_linked hv.linked fun hmem => hnew entry hmem rfl
  refine ⟨hl.index_lt, hl.placed, ?_, hl.count⟩
  rw [((add_entries hv.linked entry).map _).nodup_iff, List.map_cons, List.nodup_cons]
  refine ⟨?_, hv.unique⟩
  intro hmem
  obtain ⟨e, he, hkey⟩ := List.mem_map.mp hmem
  exact hnew e he hkey

section Remove

variable [DecidableEq T]

theorem remove_of_mem (hl : h.Linked) (hentry : entry ∈ h.entries) :
    h.remove entry =
      { h with
        fHashTable := Function.update h.fHashTable (h.index (HashEntry.key entry))
          ((h.fHashTable (h.index (HashEntry.key entry))).erase entry)
        fNumEntries := (h.fNumEntries + kNumEntriesSize - 1) % kNumEntriesSize } :=
  if_pos (hl.mem_chain.mp hentry)

theorem remove_of_not_mem (hl : h.Linked) (hentry : entry ∉ h.entries) : h.remove entry = h :=
  if_neg (mt hl.mem_chain.mpr hentry)

theorem remove_entries (hl : h.Linked) (hentry : entry ∈ h.entries) :
    (h.remove entry).entries.Perm (h.entries.erase entry) := by
  rw [remove_of_mem hl hentry]
  exact all_erase (hl.index_lt _) (hl.mem_chain.mp hentry)

/-- Removing an entry leaves the others. -/
theorem mem_remove (hl : h.Linked) : e ∈ (h.remove entry).entries ↔ e ∈ h.entries ∧ e ≠ entry := by
  by_cases hentry : entry ∈ h.entries
  · rw [(remove_entries hl hentry).mem_iff, hl.nodup.mem_erase_iff, and_comm]
  · rw [remove_of_not_mem hl hentry]
    refine ⟨fun he => ⟨he, ?_⟩, And.left⟩
    rintro rfl
    exact hentry he

theorem remove_linked (hl : h.Linked) (entry : T) : (h.remove entry).Linked := by
  by_cases hentry : entry ∈ h.entries
  · have hperm := remove_entries hl hentry
    have hpos := List.length_pos_of_mem hentry
    rw [remove_of_mem hl hentry] at hperm ⊢
    refine ⟨hl.index_lt, ?_, ?_, ?_⟩
    · intro i e he
      refine hl.placed i e ?_
      by_cases hi : i = h.index (HashEntry.key entry)
      · subst hi
        simp only [Function.update_self] at he
        exact List.mem_of_mem_erase he
      · simpa only [Function.update_of_ne hi] using he
    · rw [hperm.nodup_iff]
      exact hl.nodup.erase entry
    · rw [hperm.length_eq, List.length_erase_of_mem hentry]
      simp only [hl.count, kNumEntriesSize]
      omega
  · rw [remove_of_not_mem hl hentry]
    exact hl

theorem remove_valid (hv : h.Valid) (entry : T) : (h.remove entry).Valid := by
  have hl := remove_linked hv.linked entry
  refine ⟨hl.index_lt, hl.placed, ?_, hl.count⟩
  by_cases hentry : entry ∈ h.entries
  · rw [((remove_entries hv.linked hentry).map _).nodup_iff]
    exact hv.unique.sublist (List.erase_sublist.map _)
  · rw [remove_of_not_mem hv.linked hentry]
    exact hv.unique

end Remove

end HashTable

end CxxFramework.Core
