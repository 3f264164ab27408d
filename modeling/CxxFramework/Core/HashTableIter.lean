import CxxFramework.Core.LinkedTable

/-!
# Iteration over a hash table

`HashTableIter` goes through the chains in the order of the array. It holds the current entry
and the index of its chain, and moves on by the link of the entry. So the entry that was
passed last may be taken out of the table: the iterator stands behind it already.

`GetTableEntry` takes an `int`, so an index from `2 ^ 31` on leads out of the array. In a table
of size 0 the iterator does not set its current entry at all.

## Main definitions

* `HashTableIter.first`, `HashTableIter.next` — the iterator.
* `HashTableIter.visits` — the loop that passes each entry, and does something with it then.
* `HashTableIter.Remaining` — the entries that the iterator has not passed yet.
-/

namespace CxxFramework.Core

open LinkedChain Chains

/-- The number of the indices that an `int` can hold. -/
def kIntIndices : Nat := 2 ^ 31

namespace LinkedTable

/-- `HashTable::GetTableEntry`; none stands for an access outside the array. -/
def getTableEntry {P : Type} (t : LinkedTable P) (i : Nat) : Option (Option P) :=
  if i < kIntIndices then some (t.fHashTable i) else none

end LinkedTable

structure HashTableIter (P : Type) where
  fCurrent : Option P
  fIndex : Nat
deriving DecidableEq, Repr

namespace HashTableIter

variable {P : Type}

/-- The loops of `First` and `Next` over the array, from `fIndex` on. -/
def scan (t : LinkedTable P) (fIndex : Nat) (fCurrent : Option P) : Option (HashTableIter P) :=
  if fIndex < t.fSize then
    match t.getTableEntry fIndex with
    | some (some e) => some ⟨some e, fIndex⟩
    | some none => scan t (fIndex + 1) none
    | none => none
  else some ⟨fCurrent, fIndex⟩
termination_by t.fSize - fIndex

/-- `HashTableIter::First`; `fCurrent` is what the iterator holds before. -/
def first (t : LinkedTable P) (fCurrent : Option P) : Option (HashTableIter P) := scan t 0 fCurrent

/-- `HashTableIter::Next`; none if there is no current entry. -/
def next (t : LinkedTable P) (links : Links P) (iter : HashTableIter P) :
    Option (HashTableIter P) :=
  match iter.fCurrent with
  | some e =>
    match links e with
    | some e' => some { iter with fCurrent := some e' }
    | none => scan t (iter.fIndex + 1) none
  | none => none

/-- A loop that calls `Next` and then runs its body on the entry just passed, which may change
the table. It runs until `IsDone`; none if `n` steps are not enough. -/
def visits {σ : Type} (table : σ → LinkedTable P × Links P) (body : Nat → P → σ → Option σ) :
    (n : Nat) → σ → HashTableIter P → Option (List P × σ)
  | 0, _, _ => none
  | n + 1, s, iter =>
    match iter.fCurrent with
    | none => some ([], s)
    | some e =>
      (iter.next (table s).1 (table s).2).bind fun iter =>
        (body n e s).bind fun s =>
          (visits table body n s iter).map fun r => (e :: r.1, r.2)

/-- The body that removes the entries that `removes` tells. -/
def removing [DecidableEq P] (removes : P → Bool) (getHashKey : P → Nat) (n : Nat) (e : P)
    (s : LinkedTable P × Links P) : Option (LinkedTable P × Links P) :=
  if removes e then s.1.remove s.2 e (getHashKey e) n else some s

/-! ## What is left to visit -/

variable {T K : Type} [HashEntry T K] {t t' : LinkedTable P} {links links' : Links P}
  {h : HashTable T} {ptr : T → P} {iter iter' : HashTableIter P} {e : T} {rest : List T} {i n : Nat}

omit [HashEntry T K] in
/-- The entries of the chains from index `i` on. -/
def entriesFrom (h : HashTable T) (i : Nat) : List T :=
  (List.range' i (h.fSize - i)).flatMap h.fHashTable

omit [HashEntry T K] in
theorem entriesFrom_of_lt (hi : i < h.fSize) :
    entriesFrom h i = h.fHashTable i ++ entriesFrom h (i + 1) := by
  rw [entriesFrom, show h.fSize - i = (h.fSize - (i + 1)) + 1 by omega, List.range'_succ,
    List.flatMap_cons]
  rfl

omit [HashEntry T K] in
theorem entriesFrom_of_le (hi : h.fSize ≤ i) : entriesFrom h i = [] := by
  rw [entriesFrom, Nat.sub_eq_zero_of_le hi]
  rfl

omit [HashEntry T K] in
theorem entriesFrom_zero : entriesFrom h 0 = h.entries := by
  rw [entriesFrom, HashTable.entries, all, List.range_eq_range', Nat.sub_zero]

/-- The iterator stands in front of `rest`: at an entry whose chain goes on with the first part
of it, or at the end. -/
inductive Remaining (h : HashTable T) (ptr : T → P) (iter : HashTableIter P) : List T → Prop
  | done : iter.fCurrent = none → Remaining h ptr iter []
  | at_ {back e} : iter.fCurrent = some (ptr e) → iter.fIndex < h.fSize →
      e :: back <:+ h.fHashTable iter.fIndex →
      Remaining h ptr iter (e :: (back ++ entriesFrom h (iter.fIndex + 1)))

theorem scan_spec (hr : t.Represents links h ptr) (hsize : h.fSize ≤ kIntIndices) (i : Nat)
    (fCurrent : Option P) (hcur : h.fSize ≤ i → fCurrent = none) :
    ∃ iter, scan t i fCurrent = some iter ∧ Remaining h ptr iter (entriesFrom h i) := by
  fun_induction scan t i fCurrent with
  | case1 i _ hi e hentry =>
    rw [hr.size] at hi
    simp only [LinkedTable.getTableEntry] at hentry
    split_ifs at hentry
    have hchain := hr.chain i
    rw [Option.some.inj hentry] at hchain
    cases hlist : h.fHashTable i with
    | nil =>
      rw [hlist] at hchain
      cases hchain
    | cons a back =>
      rw [hlist] at hchain
      obtain ⟨ha, -⟩ := hchain
      refine ⟨_, rfl, ?_⟩
      rw [entriesFrom_of_lt hi, hlist, List.cons_append]
      exact .at_ ha hi (hlist ▸ List.suffix_refl _)
  | case2 i _ hi hentry ih =>
    rw [hr.size] at hi
    simp only [LinkedTable.getTableEntry] at hentry
    split_ifs at hentry
    have hchain := hr.chain i
    rw [Option.some.inj hentry, chain_none, List.map_eq_nil_iff] at hchain
    obtain ⟨iter, hscan, hrem⟩ := ih fun _ => rfl
    refine ⟨iter, hscan, ?_⟩
    rwa [entriesFrom_of_lt hi, hchain, List.nil_append]
  | case3 i _ hi hentry =>
    rw [hr.size] at hi
    simp only [LinkedTable.getTableEntry] at hentry
    split_ifs at hentry with hin
    exact absurd (lt_of_lt_of_le hi hsize) hin
  | case4 i fCurrent hi =>
    rw [hr.size, not_lt] at hi
    refine ⟨_, rfl, ?_⟩
    rw [entriesFrom_of_le hi]
    exact .done (hcur hi)

/-- `Next` passes the current entry. -/
theorem next_spec (hr : t.Represents links h ptr) (hsize : h.fSize ≤ kIntIndices)
    (hrem : Remaining h ptr iter (e :: rest)) :
    iter.fCurrent = some (ptr e) ∧
      ∃ iter', iter.next t links = some iter' ∧ Remaining h ptr iter' rest := by
  cases hrem with
  | @at_ back _ hcur hi hback =>
    refine ⟨hcur, ?_⟩
    obtain ⟨front, hfront⟩ := hback
    have hchain := hr.chain iter.fIndex
    rw [← hfront, List.map_append, List.map_cons] at hchain
    obtain ⟨-, hlinks⟩ := hchain.behind
    cases back with
    | nil =>
      have hnull : links (ptr e) = none := hlinks
      obtain ⟨iter', hscan, hrem⟩ := scan_spec hr hsize (iter.fIndex + 1) none fun _ => rfl
      refine ⟨iter', ?_, hrem⟩
      simp only [next, hcur, hnull, hscan]
    | cons a back =>
      have hlink : links (ptr e) = some (ptr a) := hlinks.1
      refine ⟨{ iter with fCurrent := some (ptr a) }, ?_, ?_⟩
      · simp only [next, hcur, hlink]
      · rw [List.cons_append]
        refine .at_ rfl hi ⟨front ++ [e], ?_⟩
        rw [← hfront, List.append_assoc]
        rfl

section Removal

variable [DecidableEq T]

/-- Taking out an entry leaves alone what a chain has behind it. -/
theorem suffix_remove {back : List T} (hl : h.Linked) (hback : back <:+ h.fHashTable i)
    (he : e ∉ back) : back <:+ (h.remove e).fHashTable i := by
  by_cases hin : e ∈ h.entries
  · rw [HashTable.remove_of_mem hl hin]
    by_cases hi : i = h.index (HashEntry.key e)
    · subst hi
      have hchain := hl.mem_chain.mp hin
      obtain ⟨front, hfront⟩ := hback
      simp only [Function.update_self]
      rw [← hfront] at hchain ⊢
      have hmem : e ∈ front := (List.mem_append.mp hchain).resolve_right he
      rw [List.erase_append_left back hmem]
      exact List.suffix_append _ _
    · simpa only [Function.update_of_ne hi] using hback
  · rw [HashTable.remove_of_not_mem hl hin]
    exact hback

theorem remove_fSize (h : HashTable T) (e : T) : (h.remove e).fSize = h.fSize := by
  rw [HashTable.remove]
  exact (apply_ite HashTable.fSize _ _ _).trans (ite_self _)

theorem entriesFrom_remove (hl : h.Linked) (i : Nat) (he : e ∉ entriesFrom h i) :
    entriesFrom (h.remove e) i = entriesFrom h i := by
  by_cases hin : e ∈ h.entries
  · rw [HashTable.remove_of_mem hl hin]
    refine List.flatMap_congr fun j hj => ?_
    by_cases hji : j = h.index (HashEntry.key e)
    · subst hji
      exact absurd (List.mem_flatMap.mpr ⟨_, hj, hl.mem_chain.mp hin⟩) he
    · exact Function.update_of_ne hji ..
  · rw [HashTable.remove_of_not_mem hl hin]

/-- Taking out an entry that is passed leaves the rest to visit. -/
theorem Remaining.remove (hl : h.Linked) (hrem : Remaining h ptr iter rest) (he : e ∉ rest) :
    Remaining (h.remove e) ptr iter rest := by
  cases hrem with
  | done hcur => exact .done hcur
  | @at_ back a hcur hi hback =>
    rw [← List.cons_append] at he
    obtain ⟨hnot, hnot'⟩ := not_or.mp (List.mem_append.not.mp he)
    rw [← entriesFrom_remove hl _ hnot']
    exact .at_ hcur (by rwa [remove_fSize]) (suffix_remove hl hback hnot)

/-- The rule of the loop: a body that leaves its entry or takes it out, and whatever else
`Good` says of the state with the entries that are left to visit. -/
theorem visits_spec {σ : Type} (table : σ → LinkedTable P × Links P)
    (body : Nat → P → σ → Option σ) (Good : List T → HashTable T → σ → Prop)
    (good : ∀ rest h s, Good rest h s →
      h.Linked ∧ (table s).1.Represents (table s).2 h ptr ∧ h.fSize ≤ kIntIndices)
    (step : ∀ e rest h s, Good (e :: rest) h s →
      ∃ s' m, (∀ n ≥ m, body n (ptr e) s = some s') ∧
        (Good rest h s' ∨ Good rest (h.remove e) s'))
    {s : σ} (hnodup : rest.Nodup) (hgood : Good rest h s) (hrem : Remaining h ptr iter rest) :
    ∃ s' h' m, (∀ n ≥ m, visits table body n s iter = some (rest.map ptr, s')) ∧ Good [] h' s' := by
  induction rest generalizing h s iter with
  | nil =>
    cases hrem with
    | done hcur =>
      refine ⟨s, h, 1, ?_, hgood⟩
      intro n hn
      obtain ⟨n, rfl⟩ : ∃ k, n = k + 1 := ⟨n - 1, by omega⟩
      simp only [visits, hcur, List.map_nil]
  | cons e rest ih =>
    obtain ⟨hnot, hnodup⟩ := List.nodup_cons.mp hnodup
    obtain ⟨hl, hr, hsize⟩ := good _ _ _ hgood
    obtain ⟨hcur, iter', hnext, hrem'⟩ := next_spec hr hsize hrem
    obtain ⟨s₁, m₁, hbody, hgood₁⟩ := step e rest h s hgood
    -- the iterator stands behind `e` already, whether that is taken out or not
    obtain ⟨s', h', m, hvisits, hgood'⟩ := hgood₁.elim
      (fun hkept => ih hnodup hkept hrem')
      (fun hout => ih hnodup hout (hrem'.remove hl hnot))
    refine ⟨s', h', max m₁ m + 1, ?_, hgood'⟩
    intro n hn
    obtain ⟨n, rfl⟩ : ∃ k, n = k + 1 := ⟨n - 1, by omega⟩
    simp only [visits, hcur, hnext, Option.bind_some, hbody n (by omega), hvisits n (by omega),
      Option.map_some, List.map_cons]

omit [DecidableEq T] in
/-- The iterator of a table starts in front of all of its entries. -/
theorem first_spec (hr : t.Represents links h ptr) (hpos : 0 < h.fSize)
    (hsize : h.fSize ≤ kIntIndices) (fCurrent : Option P) :
    ∃ iter, first t fCurrent = some iter ∧ Remaining h ptr iter h.entries := by
  obtain ⟨iter, hfirst, hrem⟩ := scan_spec hr hsize 0 fCurrent fun hle => by omega
  rw [entriesFrom_zero] at hrem
  exact ⟨iter, hfirst, hrem⟩

variable [DecidableEq P]

/-- A loop over a table passes each of its entries once, whichever of them it removes on the
way; those that it does not remove stay. -/
def VisitsAll (t : LinkedTable P) (links : Links P) (h : HashTable T) (ptr : T → P) : Prop :=
  ∀ (getHashKey : P → Nat) (removes : P → Bool) (fCurrent : Option P),
    (∀ e ∈ h.entries, getHashKey (ptr e) = HashEntry.getHashKey T (HashEntry.key e)) →
    ∃ iter t' links' h' m, first t fCurrent = some iter ∧
      (∀ n ≥ m, visits id (removing removes getHashKey) n (t, links) iter =
        some (h.entries.map ptr, t', links')) ∧
      (h.entries.map ptr).Nodup ∧ t'.Represents links' h' ptr ∧
      ∀ e, e ∈ h'.entries ↔ e ∈ h.entries ∧ removes (ptr e) = false

theorem visitsAll (hl : h.Linked) (hr : t.Represents links h ptr) (hpos : 0 < h.fSize)
    (hsize : h.fSize ≤ kIntIndices) : VisitsAll t links h ptr := by
  intro getHashKey removes fCurrent hkey
  obtain ⟨iter, hfirst, hrem⟩ := first_spec hr hpos hsize fCurrent
  -- what has gone is what has been passed and was to be removed
  let Good (rest : List T) (h' : HashTable T) (s : LinkedTable P × Links P) : Prop :=
    h'.Linked ∧ s.1.Represents s.2 h' ptr ∧ h'.fSize ≤ kIntIndices ∧
      (∀ e ∈ rest, e ∈ h'.entries) ∧ rest.Nodup ∧
      ∀ e, e ∈ h'.entries ↔ e ∈ h.entries ∧ (e ∈ rest ∨ removes (ptr e) = false)
  have hstep : ∀ e rest h' s, Good (e :: rest) h' s →
      ∃ s' m, (∀ n ≥ m, removing removes getHashKey n (ptr e) s = some s') ∧
        (Good rest h' s' ∨ Good rest (h'.remove e) s') := by
    rintro e rest h' ⟨t', links'⟩ ⟨hl', hr', hsize', hin, hnodup, hmem⟩
    obtain ⟨hnot, hnodup⟩ := List.nodup_cons.mp hnodup
    have hins := fun a ha => hin a (List.mem_cons_of_mem e ha)
    have he := (hmem e).mp (hin e List.mem_cons_self)
    by_cases hremove : removes (ptr e)
    · have hsame : ∀ e' ∈ h'.entries, ptr e' = ptr e → e' = e := fun e' he' heq =>
        hr'.inj e' he' e (hin e List.mem_cons_self) heq
      obtain ⟨t₁, links₁, m, hrm, hr₁⟩ := hr'.remove hl' hsame
      refine ⟨(t₁, links₁), m, ?_, .inr ⟨HashTable.remove_linked hl' e, hr₁, ?_, ?_, hnodup, ?_⟩⟩
      · intro n hn
        rw [removing, if_pos hremove, hkey e he.1, hrm n hn]
      · rwa [remove_fSize]
      · intro a ha
        refine (HashTable.mem_remove hl').mpr ⟨hins a ha, ?_⟩
        rintro rfl
        exact hnot ha
      · intro a
        rw [HashTable.mem_remove hl', hmem, List.mem_cons]
        grind
    · refine ⟨(t', links'), 0, fun n _ => if_neg hremove, .inl ⟨hl', hr', hsize', hins, hnodup, ?_⟩⟩
      intro a
      rw [hmem, List.mem_cons]
      grind
  obtain ⟨⟨t', links'⟩, h', m, hvisits, -, hr', -, -, -, hmem⟩ :=
    visits_spec id (removing removes getHashKey) Good (s := (t, links))
      (fun _ _ _ hg => ⟨hg.1, hg.2.1, hg.2.2.1⟩) hstep hl.nodup
      ⟨hl, hr, hsize, fun _ he => he, hl.nodup, fun e => by tauto⟩ hrem
  refine ⟨iter, t', links', h', m, hfirst, hvisits, ?_, hr', by simpa using hmem⟩
  exact hl.nodup.map_on fun a ha b hb hab => hr.inj a ha b hb hab

end Removal

end HashTableIter

end CxxFramework.Core
