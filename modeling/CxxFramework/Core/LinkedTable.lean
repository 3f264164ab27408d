import CxxFramework.Core.HashTable
import CxxFramework.Library.LinkedChain
import Mathlib.Data.List.Find

/-!
# Hash tables of linked entries

`HashTable<T, K>` owns an array of pointers only: the entries of a chain are linked by their
own field `fNextHashEntry`. Here the operations work on the pointers. They are those of a
`HashTable` whose chains are lists, as long as each entry is in one chain, once.

The loops of `Remove` and `Map` end where a link is null. How many steps they may take is an
argument; on a chain that comes back to itself no number is enough.

## Main definitions

* `LinkedTable.add`, `LinkedTable.remove`, `LinkedTable.map` — the operations.
* `LinkedTable.Represents` — the links run through the chains of a `HashTable`.
-/

namespace CxxFramework.Core

open LinkedChain

/-- The links of the entries, which are given by their addresses. -/
abbrev Links (P : Type) := P → Option P

structure LinkedTable (P : Type) where
  fHashTable : Nat → Option P
  fSize : Nat
  fMask : Nat
  fNumEntries : Nat

namespace LinkedTable

variable {P : Type} [DecidableEq P]

/-! ## Operations -/

omit [DecidableEq P] in
/-- `HashTable::HashTable` -/
def new (size : Nat) : LinkedTable P where
  fHashTable _ := none
  fSize := size
  fMask := if (size - 1) &&& size ≠ 0 then 0 else size - 1
  fNumEntries := 0

def computeIndex (t : LinkedTable P) (hashKey : Nat) : Nat :=
  if t.fMask ≠ 0 then hashKey &&& t.fMask else hashKey % t.fSize

/-- `HashTable::Add` of an entry whose key has the hash value `hashKey`; none if the
assertion on its link fails. -/
def add (t : LinkedTable P) (fNextHashEntry : Links P) (entry : P) (hashKey : Nat) :
    Option (LinkedTable P × Links P) :=
  if fNextHashEntry entry ≠ none then none
  else
    let theIndex := t.computeIndex hashKey
    some
      ({ t with
          fHashTable := Function.update t.fHashTable theIndex (some entry)
          fNumEntries := (t.fNumEntries + 1) % kNumEntriesSize },
        Function.update fNextHashEntry entry (t.fHashTable theIndex))

/-- The end of `Remove`: `elem` is taken out of the chain behind `last`. -/
def takeOut (t : LinkedTable P) (fNextHashEntry : Links P) (theIndex : Nat) (elem : P)
    (last : Option P) : LinkedTable P × Links P :=
  let unlinked := unlink fNextHashEntry (t.fHashTable theIndex) elem last
  ({ t with
      fHashTable := Function.update t.fHashTable theIndex unlinked.1
      fNumEntries := (t.fNumEntries + kNumEntriesSize - 1) % kNumEntriesSize },
    unlinked.2)

/-- `HashTable::Remove`; none if its loop takes `n` steps and more. -/
def remove (t : LinkedTable P) (fNextHashEntry : Links P) (entry : P) (hashKey n : Nat) :
    Option (LinkedTable P × Links P) :=
  let theIndex := t.computeIndex hashKey
  match walk fNextHashEntry (· == entry) n (t.fHashTable theIndex) none with
  | some (some elem, last) => some (t.takeOut fNextHashEntry theIndex elem last)
  | some (none, _) => some (t, fNextHashEntry)
  | none => none

omit [DecidableEq P] in
/-- `HashTable::Map` to the first entry with a key that is equal; none if its loop takes `n`
steps and more. -/
def map (t : LinkedTable P) (fNextHashEntry : Links P) (equal : P → Bool) (hashKey n : Nat) :
    Option (Option P) :=
  (walk fNextHashEntry equal n (t.fHashTable (t.computeIndex hashKey)) none).map Prod.fst

/-! ## Chains as lists -/

variable {T K : Type} [HashEntry T K] {t t' : LinkedTable P} {links links' : Links P}
  {h : HashTable T} {ptr : T → P} {e e' : T} {i j n : Nat} {p : P}

omit [DecidableEq P] in
/-- The links run through the chains of a table of lists, each entry is in one chain, and the
entries outside the table are not linked. -/
structure Represents (t : LinkedTable P) (links : Links P) (h : HashTable T) (ptr : T → P) :
    Prop where
  size : t.fSize = h.fSize
  mask : t.fMask = h.fMask
  num : t.fNumEntries = h.fNumEntries
  chain : ∀ i, Chain links (t.fHashTable i) ((h.fHashTable i).map ptr)
  inj : ∀ e ∈ h.entries, ∀ e' ∈ h.entries, ptr e = ptr e' → e = e'
  outside : ∀ p, (∀ e ∈ h.entries, ptr e ≠ p) → links p = none

omit [DecidableEq P] in
theorem Represents.computeIndex (hr : Represents t links h ptr) (hashKey : Nat) :
    t.computeIndex hashKey = h.computeIndex hashKey := by
  rw [LinkedTable.computeIndex, HashTable.computeIndex, hr.size, hr.mask]

omit [DecidableEq P] in
theorem new_represents (size : Nat) (ptr : T → P) :
    Represents (new size) (fun _ => none) (.new size : HashTable T) ptr where
  size := rfl
  mask := rfl
  num := rfl
  chain _ := rfl
  inj e he := by simp [HashTable.new_entries] at he
  outside _ _ := rfl

omit [DecidableEq P] in
/-- The chains have no entry in common. -/
theorem Represents.apart (hr : Represents t links h ptr) (hl : h.Linked) (he : e ∈ h.fHashTable i)
    (hij : i ≠ j) : ptr e ∉ (h.fHashTable j).map ptr := by
  intro hmem
  obtain ⟨e', he', heq⟩ := List.mem_map.mp hmem
  obtain rfl := hr.inj e' (hl.mem_entries he') e (hl.mem_entries he) heq
  exact hij ((hl.placed i e' he).symm.trans (hl.placed j e' he'))

/-- An entry that is not in the table can be added. -/
theorem Represents.add (hr : Represents t links h ptr) (hl : h.Linked)
    (hout : ∀ e' ∈ h.entries, ptr e' ≠ ptr e) :
    ∃ t' links', t.add links (ptr e) (HashEntry.getHashKey T (HashEntry.key e)) =
      some (t', links') ∧
      Represents t' links' (h.add e) ptr := by
  have hfree := hr.outside (ptr e) hout
  have hnot : ∀ j, ptr e ∉ (h.fHashTable j).map ptr := by
    intro j hmem
    obtain ⟨e', he', heq⟩ := List.mem_map.mp hmem
    exact hout e' (hl.mem_entries he') heq
  refine ⟨_, _, if_neg (not_not.mpr hfree), ?_⟩
  rw [hr.computeIndex]
  refine ⟨hr.size, hr.mask, ?_, ?_, ?_, ?_⟩
  · simp only [HashTable.add, hr.num]
  · intro j
    simp only [HashTable.add, HashTable.index]
    by_cases hj : j = h.computeIndex (HashEntry.getHashKey T (HashEntry.key e))
    · subst hj
      rw [Function.update_self, Function.update_self, List.map_cons]
      exact (hr.chain _).push (hnot _)
    · rw [Function.update_of_ne hj, Function.update_of_ne hj]
      exact (hr.chain j).update (hnot j) _
  · intro a ha b hb hab
    rw [HashTable.mem_add hl] at ha hb
    rcases ha with rfl | ha <;> rcases hb with rfl | hb
    · rfl
    · exact absurd hab.symm (hout b hb)
    · exact absurd hab (hout a ha)
    · exact hr.inj a ha b hb hab
  · intro p hp
    have hne : p ≠ ptr e := fun heq => hp e ((HashTable.mem_add hl).mpr (.inl rfl)) heq.symm
    rw [Function.update_of_ne hne]
    exact hr.outside p fun e' he' => hp e' ((HashTable.mem_add hl).mpr (.inr he'))

omit [DecidableEq P] in
/-- The walk of `Map` finds what the list of the chain has. -/
theorem Represents.map [DecidableEq K] (hr : Represents t links h ptr) (hl : h.Linked) (key : K)
    (equal : P → Bool) (hequal : ∀ e ∈ h.entries, equal (ptr e) = decide (HashEntry.key e = key)) :
    ∃ m, ∀ n ≥ m, t.map links equal (HashEntry.getHashKey T key) n =
      some ((h.map key).map ptr) := by
  refine ⟨((h.fHashTable (h.index key)).map ptr).length + 1, ?_⟩
  intro n hn
  have hchain := hr.chain (h.index key)
  obtain ⟨last, hwalk⟩ := hchain.walk_eq_find equal none (n := n) (by omega)
  have hfind : ((h.fHashTable (h.index key)).map ptr).find? equal = (h.map key).map ptr := by
    rw [List.find?_map, HashTable.map]
    congr 1
    refine List.find?_congr fun e he => ?_
    exact hequal e (hl.mem_entries he)
  rw [LinkedTable.map, hr.computeIndex]
  simp only [HashTable.index] at hwalk hfind ⊢
  rw [hwalk, hfind]
  rfl

section Remove

variable [DecidableEq T] {front back : List T}

/-- An entry is taken out behind the one in front of it. -/
theorem Represents.takeOut (hr : Represents t links h ptr) (hl : h.Linked) (he : e ∈ h.entries)
    (hsplit : h.fHashTable (h.index (HashEntry.key e)) = front ++ e :: back)
    (herase : (h.fHashTable (h.index (HashEntry.key e))).erase e = front ++ back) :
    Represents
      (t.takeOut links (h.index (HashEntry.key e)) (ptr e) (before (front.map ptr) none)).1
      (t.takeOut links (h.index (HashEntry.key e)) (ptr e) (before (front.map ptr) none)).2
      (h.remove e) ptr := by
  have hin := hl.mem_chain.mp he
  have hchain := hr.chain (h.index (HashEntry.key e))
  rw [hsplit, List.map_append, List.map_cons] at hchain
  have hlast : ∀ p, before (front.map ptr) none = some p →
      ∃ a ∈ h.fHashTable (h.index (HashEntry.key e)), ptr a = p := by
    intro p hp
    obtain ⟨a, ha, rfl⟩ := List.mem_map.mp (mem_of_before hp)
    refine ⟨a, ?_, rfl⟩
    rw [hsplit]
    exact List.mem_append_left _ ha
  have hremove := HashTable.remove_of_mem hl he
  refine ⟨?_, ?_, ?_, ?_, ?_, ?_⟩
  · rw [hremove]
    exact hr.size
  · rw [hremove]
    exact hr.mask
  · rw [hremove]
    simp only [LinkedTable.takeOut, hr.num]
  · intro j
    rw [hremove]
    simp only [LinkedTable.takeOut]
    by_cases hj : j = h.index (HashEntry.key e)
    · subst hj
      rw [herase, Function.update_self, Function.update_self, List.map_append]
      exact hchain.unlink
    · rw [Function.update_of_ne hj, Function.update_of_ne hj]
      refine (hr.chain j).unlink_apart (hr.apart hl hin (Ne.symm hj)) ?_
      intro p hp
      obtain ⟨a, ha, rfl⟩ := hlast p hp
      exact hr.apart hl ha (Ne.symm hj)
  · intro a ha b hb
    exact hr.inj a ((HashTable.mem_remove hl).mp ha).1 b ((HashTable.mem_remove hl).mp hb).1
  · intro p hp
    by_cases hpe : p = ptr e
    · rw [hpe]
      exact unlink_self
    · have hout : ∀ a ∈ h.entries, ptr a ≠ p := by
        rintro a ha rfl
        refine hp a ((HashTable.mem_remove hl).mpr ⟨ha, ?_⟩) rfl
        rintro rfl
        exact hpe rfl
      have hapart : before (front.map ptr) none ≠ some p := by
        intro hp'
        obtain ⟨a, ha, rfl⟩ := hlast p hp'
        exact hout a (hl.mem_entries ha) rfl
      exact (unlink_of_ne hpe hapart).trans (hr.outside p hout)

/-- The walk of `Remove` comes to the entry, if that is in the table, and takes it out. -/
theorem Represents.remove (hr : Represents t links h ptr) (hl : h.Linked)
    (hmem : ∀ e' ∈ h.entries, ptr e' = ptr e → e' = e) :
    ∃ t' links' m,
      (∀ n ≥ m, t.remove links (ptr e) (HashEntry.getHashKey T (HashEntry.key e)) n =
        some (t', links')) ∧
      Represents t' links' (h.remove e) ptr := by
  have hchain := hr.chain (h.index (HashEntry.key e))
  -- what is not `e` is passed
  have hpass : ∀ l : List T, (∀ a ∈ l, a ∈ h.entries) → e ∉ l →
      ∀ p ∈ l.map ptr, (p == ptr e) = false := by
    intro l hin hout p hp
    obtain ⟨a, ha, rfl⟩ := List.mem_map.mp hp
    refine beq_false_of_ne fun heq => ?_
    obtain rfl := hmem a (hin a ha) heq
    exact hout ha
  by_cases he : e ∈ h.entries
  · obtain ⟨front, back, hfront, hsplit, herase⟩ := List.exists_erase_eq (hl.mem_chain.mp he)
    have hin : ∀ a ∈ front, a ∈ h.entries := by
      intro a ha
      refine hl.mem_entries (i := h.index (HashEntry.key e)) ?_
      rw [hsplit]
      exact List.mem_append_left _ ha
    rw [hsplit, List.map_append, List.map_cons] at hchain
    have hwalk := fun n => hchain.walk_found (n := n) (hpass front hin hfront)
      (beq_self_eq_true (ptr e)) none
    refine ⟨_, _, front.length + 1, fun n hn => ?_, hr.takeOut hl he hsplit herase⟩
    simp only [LinkedTable.remove, hr.computeIndex]
    simp only [HashTable.index] at hwalk
    rw [hwalk n (by rw [List.length_map]; omega)]
    rfl
  · refine ⟨t, links, ((h.fHashTable (h.index (HashEntry.key e))).map ptr).length + 1, ?_, ?_⟩
    · intro n hn
      have habsent := hpass (h.fHashTable (h.index (HashEntry.key e)))
        (fun a ha => hl.mem_entries ha) fun hin => he (hl.mem_entries hin)
      have hwalk := hchain.walk_absent (n := n) habsent none (by omega)
      simp only [LinkedTable.remove, hr.computeIndex]
      simp only [HashTable.index] at hwalk
      rw [hwalk]
    · rw [HashTable.remove_of_not_mem hl he]
      exact hr

end Remove

end LinkedTable

end CxxFramework.Core
