import CxxFramework.Core.LinkedTable
import CxxFramework.Socket.Socket

/-!
# UDP demuxers

A `UDPDemuxer` finds the task for the packets from a remote address and port. Its tasks are the
entries of a hash table themselves: a task has the address and port that it was registered
under last, and the link of its chain. `RegisterTask` writes the address and port before it adds
the task to the table, also when the task is in the table already.

## Main definitions

* `UDPDemuxer.registerTask`, `UDPDemuxer.unregisterTask`, `UDPDemuxer.getTask` — the calls.
* `DemuxerMap` — what they are for: a map from addresses and ports to tasks.
* `UDPDemuxer.Refines` — a sequence of calls does what it does to the map.
-/

namespace CxxFramework.Net

open CxxFramework.Core

/-- The address and port of a sender. -/
abbrev RemoteAddr := UInt32 × UInt16

/-- `UDPDemuxerUtils::ComputeHashValue` -/
def computeHashValue (key : RemoteAddr) : UInt32 := (key.1 <<< 16) + key.2.toUInt32

def kMaxHashTableSize : Nat := 2747

def EPERM : OS_Error := 1

/-- The demuxer, and the fields of the tasks. -/
structure UDPDemuxer (P : Type) where
  fHashTable : LinkedTable P
  fNextHashEntry : Links P
  fRemote : P → RemoteAddr
  fHashValue : P → UInt32

inductive DemuxerCall (P : Type) where
  | registerTask (inRemote : RemoteAddr) (inTaskP : P)
  | unregisterTask (inRemote : RemoteAddr) (inTaskP : P)
deriving DecidableEq, Repr

variable {P : Type}

namespace UDPDemuxer

/-- `UDPDemuxer::GetTask`; none if it takes `n` steps and more. -/
def getTask (d : UDPDemuxer P) (inRemote : RemoteAddr) (n : Nat) : Option (Option P) :=
  d.fHashTable.map d.fNextHashEntry (fun elem => d.fRemote elem = inRemote)
    (computeHashValue inRemote).toNat n

section Operations

variable [DecidableEq P]

/-- `UDPDemuxerTask::set` -/
def set (d : UDPDemuxer P) (task : P) (inRemote : RemoteAddr) : UDPDemuxer P :=
  { d with
    fRemote := Function.update d.fRemote task inRemote
    fHashValue := Function.update d.fHashValue task (computeHashValue inRemote) }

/-- `UDPDemuxer::RegisterTask` -/
def registerTask (d : UDPDemuxer P) (inRemote : RemoteAddr) (inTaskP : P) (n : Nat) :
    Option (OS_Error × UDPDemuxer P) :=
  match d.getTask inRemote n with
  | none => none
  | some (some _) => some (EPERM, d)
  | some none =>
    let d := d.set inTaskP inRemote
    (d.fHashTable.add d.fNextHashEntry inTaskP (d.fHashValue inTaskP).toNat).map fun added =>
      (OS_NoErr, { d with fHashTable := added.1, fNextHashEntry := added.2 })

/-- `UDPDemuxer::UnregisterTask` -/
def unregisterTask (d : UDPDemuxer P) (inRemote : RemoteAddr) (inTaskP : P) (n : Nat) :
    Option (OS_Error × UDPDemuxer P) :=
  match d.getTask inRemote n with
  | none => none
  | some theTask =>
    if theTask = some inTaskP then
      (d.fHashTable.remove d.fNextHashEntry inTaskP (d.fHashValue inTaskP).toNat n).map
        fun removed => (OS_NoErr, { d with fHashTable := removed.1, fNextHashEntry := removed.2 })
    else some (EPERM, d)

def step (d : UDPDemuxer P) (n : Nat) : DemuxerCall P → Option (OS_Error × UDPDemuxer P)
  | .registerTask inRemote inTaskP => d.registerTask inRemote inTaskP n
  | .unregisterTask inRemote inTaskP => d.unregisterTask inRemote inTaskP n

/-- Calls one after the other, with what they return; none if a loop takes `n` steps and more,
or an assertion fails. -/
def run (n : Nat) : UDPDemuxer P → List (DemuxerCall P) → Option (List OS_Error × UDPDemuxer P)
  | d, [] => some ([], d)
  | d, call :: calls =>
    (d.step n call).bind fun r => (run n r.2 calls).map fun t => (r.1 :: t.1, t.2)

end Operations

end UDPDemuxer

/-! ## The map -/

/-- Which task is registered under an address and port. -/
abbrev DemuxerMap (P : Type) := RemoteAddr → Option P

namespace DemuxerMap

variable [DecidableEq P]

def step (M : DemuxerMap P) : DemuxerCall P → OS_Error × DemuxerMap P
  | .registerTask inRemote inTaskP =>
    if M inRemote = none then (OS_NoErr, Function.update M inRemote (some inTaskP)) else (EPERM, M)
  | .unregisterTask inRemote inTaskP =>
    if M inRemote = some inTaskP then (OS_NoErr, Function.update M inRemote none) else (EPERM, M)

def run : DemuxerMap P → List (DemuxerCall P) → List OS_Error × DemuxerMap P
  | M, [] => ([], M)
  | M, call :: calls =>
    let rest := run (M.step call).2 calls
    ((M.step call).1 :: rest.1, rest.2)

/-- A registration that succeeds is of a task that is not registered. -/
def Unregistered (M : DemuxerMap P) : DemuxerCall P → Prop
  | .registerTask inRemote inTaskP => M inRemote = none → ∀ key, M key ≠ some inTaskP
  | .unregisterTask _ _ => True

/-- No task is registered a second time before its registration is undone. -/
def RegistersOnce : DemuxerMap P → List (DemuxerCall P) → Prop
  | _, [] => True
  | M, call :: calls => M.Unregistered call ∧ RegistersOnce (M.step call).2 calls

end DemuxerMap

namespace UDPDemuxer

variable [DecidableEq P] {d d' : UDPDemuxer P} {M : DemuxerMap P} {key : RemoteAddr} {task : P}

/-- A new demuxer, and tasks that are in no table. -/
structure Fresh (d : UDPDemuxer P) : Prop where
  table : d.fHashTable = .new kMaxHashTableSize
  links : d.fNextHashEntry = fun _ => none

/-- The calls return what the map says, and then `GetTask` ends and finds what is in the map. -/
def Refines (d : UDPDemuxer P) (calls : List (DemuxerCall P)) : Prop :=
  ∃ d' m, (∀ n ≥ m, run n d calls = some ((DemuxerMap.run (fun _ => none) calls).1, d')) ∧
    ∀ key, ∃ k, ∀ n ≥ k, d'.getTask key n = some ((DemuxerMap.run (fun _ => none) calls).2 key)

/-- A task in the table with the key that it has there. -/
structure Registration (P : Type) where
  task : P
  key : RemoteAddr
deriving DecidableEq, Repr

instance : HashEntry (Registration P) RemoteAddr :=
  ⟨Registration.key, fun key => (computeHashValue key).toNat⟩

/-- The table holds the registrations in the map, and the tasks have their keys. -/
structure Holds (d : UDPDemuxer P) (M : DemuxerMap P) (h : HashTable (Registration P)) : Prop where
  valid : h.Valid
  represents : d.fHashTable.Represents d.fNextHashEntry h Registration.task
  remote : ∀ e ∈ h.entries, d.fRemote e.task = e.key
  hash : ∀ e ∈ h.entries, d.fHashValue e.task = computeHashValue e.key
  mem : ∀ key task, M key = some task ↔ ⟨task, key⟩ ∈ h.entries

omit [DecidableEq P] in
theorem Fresh.holds (fresh : Fresh d) : Holds d (fun _ => none) (.new kMaxHashTableSize) where
  valid := HashTable.new_valid (by decide)
  represents := by
    rw [fresh.table, fresh.links]
    exact LinkedTable.new_represents kMaxHashTableSize Registration.task
  remote e he := by simp [HashTable.new_entries] at he
  hash e he := by simp [HashTable.new_entries] at he
  mem := by simp [HashTable.new_entries]

variable {h : HashTable (Registration P)}

omit [DecidableEq P] in
/-- `GetTask` finds what is in the map. -/
theorem Holds.getTask (hd : Holds d M h) (key : RemoteAddr) :
    ∃ k, ∀ n ≥ k, d.getTask key n = some (M key) := by
  have hequal : ∀ e ∈ h.entries,
      decide (d.fRemote e.task = key) = decide (HashEntry.key e = key) := by
    intro e he
    rw [hd.remote e he]
    rfl
  obtain ⟨m, hmap⟩ := hd.represents.map hd.valid.linked key
    (fun elem => decide (d.fRemote elem = key)) hequal
  refine ⟨m, fun n hn => (hmap n hn).trans ?_⟩
  congr 1
  cases hM : M key with
  | some task =>
    have hsome : h.map key = some ⟨task, key⟩ :=
      (HashTable.map_eq_some_iff hd.valid).mpr ⟨(hd.mem key task).mp hM, rfl⟩
    rw [hsome]
    rfl
  | none =>
    have hnone : h.map key = none := by
      rw [HashTable.map_eq_none_iff hd.valid]
      rintro ⟨task, key'⟩ he (rfl : key' = key)
      rw [← hd.mem, hM] at he
      cases he
    rw [hnone]
    rfl

/-- A task that is not registered can be, under a key that is free. -/
theorem Holds.registerTask (hd : Holds d M h) (hfree : M key = none)
    (hout : ∀ key, M key ≠ some task) :
    ∃ d' m, (∀ n ≥ m, d.registerTask key task n = some (OS_NoErr, d')) ∧
      Holds d' (Function.update M key (some task)) (h.add ⟨task, key⟩) := by
  have hapart : ∀ e ∈ h.entries, e.task ≠ task := by
    rintro ⟨task', key'⟩ he rfl
    exact hout key' ((hd.mem key' task').mpr he)
  have hnew : ∀ e ∈ h.entries, HashEntry.key e ≠ HashEntry.key (⟨task, key⟩ : Registration P) := by
    rintro ⟨task', key'⟩ he (rfl : key' = key)
    rw [← hd.mem, hfree] at he
    cases he
  obtain ⟨t', links', hadd, hr'⟩ :=
    hd.represents.add hd.valid.linked (e := ⟨task, key⟩) hapart
  obtain ⟨k, hget⟩ := hd.getTask key
  rw [hfree] at hget
  have hmem : ∀ {e}, e ∈ (h.add ⟨task, key⟩).entries ↔ e = ⟨task, key⟩ ∨ e ∈ h.entries :=
    HashTable.mem_add hd.valid.linked
  refine ⟨{ d.set task key with fHashTable := t', fNextHashEntry := links' }, k, ?_,
    HashTable.add_valid hd.valid hnew, hr', ?_, ?_, ?_⟩
  · intro n hn
    have hhash : (d.set task key).fHashValue task = computeHashValue key := Function.update_self ..
    simp only [UDPDemuxer.registerTask, hget n hn, hhash]
    rw [show (d.set task key).fHashTable.add (d.set task key).fNextHashEntry task
      (computeHashValue key).toNat = some (t', links') from hadd]
    rfl
  · intro e he
    rcases hmem.mp he with rfl | he
    · exact Function.update_self ..
    · exact (Function.update_of_ne (hapart e he) ..).trans (hd.remote e he)
  · intro e he
    rcases hmem.mp he with rfl | he
    · exact Function.update_self ..
    · exact (Function.update_of_ne (hapart e he) ..).trans (hd.hash e he)
  · intro key' task'
    rw [hmem, ← hd.mem]
    by_cases hkey : key' = key
    · subst hkey
      simp [hfree, eq_comm]
    · simp [hkey]

/-- A registration is undone. -/
theorem Holds.unregisterTask (hd : Holds d M h) (htask : M key = some task) :
    ∃ d' m, (∀ n ≥ m, d.unregisterTask key task n = some (OS_NoErr, d')) ∧
      Holds d' (Function.update M key none) (h.remove ⟨task, key⟩) := by
  have hin := (hd.mem key task).mp htask
  have hsame : ∀ e ∈ h.entries, e.task = task → e = ⟨task, key⟩ := fun e he heq =>
    hd.represents.inj e he _ hin heq
  obtain ⟨t', links', m, hremove, hr'⟩ :=
    hd.represents.remove hd.valid.linked (e := ⟨task, key⟩) hsame
  obtain ⟨k, hget⟩ := hd.getTask key
  have hmem : ∀ {e}, e ∈ (h.remove ⟨task, key⟩).entries ↔ e ∈ h.entries ∧ e ≠ ⟨task, key⟩ :=
    HashTable.mem_remove hd.valid.linked
  refine ⟨{ d with fHashTable := t', fNextHashEntry := links' }, max k m, ?_,
    HashTable.remove_valid hd.valid _, hr', ?_, ?_, ?_⟩
  · intro n hn
    have hhash : d.fHashValue task = computeHashValue key := hd.hash _ hin
    simp only [UDPDemuxer.unregisterTask, hget n (by omega), if_pos htask, hhash]
    rw [show d.fHashTable.remove d.fNextHashEntry task (computeHashValue key).toNat n =
      some (t', links') from hremove n (by omega)]
    rfl
  · exact fun e he => hd.remote e (hmem.mp he).1
  · exact fun e he => hd.hash e (hmem.mp he).1
  · intro key' task'
    rw [hmem, ← hd.mem]
    by_cases hkey : key' = key
    · subst hkey
      simp [htask, eq_comm]
    · simp [hkey]

/-- Each call does to the table what it does to the map, if it registers no task twice. -/
theorem Holds.step (hd : Holds d M h) (call : DemuxerCall P) (honce : M.Unregistered call) :
    ∃ d' h' m, (∀ n ≥ m, d.step n call = some ((M.step call).1, d')) ∧
      Holds d' (M.step call).2 h' := by
  cases call with
  | registerTask key task =>
    rw [DemuxerMap.step]
    by_cases hfree : M key = none
    · rw [if_pos hfree]
      obtain ⟨d', m, hregister, hd'⟩ := hd.registerTask hfree (honce hfree)
      exact ⟨d', _, m, hregister, hd'⟩
    · rw [if_neg hfree]
      obtain ⟨k, hget⟩ := hd.getTask key
      obtain ⟨taken, htaken⟩ := Option.ne_none_iff_exists'.mp hfree
      refine ⟨d, h, k, fun n hn => ?_, hd⟩
      simp only [UDPDemuxer.step, UDPDemuxer.registerTask, hget n hn, htaken]
  | unregisterTask key task =>
    rw [DemuxerMap.step]
    by_cases htask : M key = some task
    · rw [if_pos htask]
      obtain ⟨d', m, hunregister, hd'⟩ := hd.unregisterTask htask
      exact ⟨d', _, m, hunregister, hd'⟩
    · rw [if_neg htask]
      obtain ⟨k, hget⟩ := hd.getTask key
      refine ⟨d, h, k, fun n hn => ?_, hd⟩
      simp only [UDPDemuxer.step, UDPDemuxer.unregisterTask, hget n hn, if_neg htask]

theorem Holds.run (hd : Holds d M h) (calls : List (DemuxerCall P))
    (honce : DemuxerMap.RegistersOnce M calls) :
    ∃ d' h' m, (∀ n ≥ m, UDPDemuxer.run n d calls = some ((DemuxerMap.run M calls).1, d')) ∧
      Holds d' (DemuxerMap.run M calls).2 h' := by
  induction calls generalizing d M h with
  | nil => exact ⟨d, h, 0, fun _ _ => rfl, hd⟩
  | cons call calls ih =>
    obtain ⟨hcall, hrest⟩ := honce
    obtain ⟨d₁, h₁, m₁, hstep, hd₁⟩ := hd.step call hcall
    obtain ⟨d', h', m, hrun, hd'⟩ := ih hd₁ hrest
    refine ⟨d', h', max m₁ m, fun n hn => ?_, hd'⟩
    rw [UDPDemuxer.run, hstep n (by omega), Option.bind_some, hrun n (by omega)]
    rfl

/-- A demuxer refines the map in every run that registers no task twice. -/
theorem refines_map (d : UDPDemuxer P) (fresh : Fresh d) (calls : List (DemuxerCall P))
    (honce : DemuxerMap.RegistersOnce (fun _ => none) calls) : Refines d calls := by
  obtain ⟨d', h', m, hrun, hd'⟩ := fresh.holds.run calls honce
  exact ⟨d', m, hrun, hd'.getTask⟩

/-- A new demuxer whose tasks are numbers. -/
def newDemuxer : UDPDemuxer Nat :=
  ⟨.new kMaxHashTableSize, fun _ => none, fun _ => (0, 0), fun _ => 0⟩

theorem newDemuxer_fresh : Fresh newDemuxer := ⟨rfl, rfl⟩

/-- Two tasks whose hash values collide, and the removal of the first. -/
theorem refines_newDemuxer :
    Refines newDemuxer
      [.registerTask (1, 0) 7, .registerTask (65537, 0) 8, .unregisterTask (1, 0) 7] :=
  refines_map newDemuxer newDemuxer_fresh _ (by
    refine ⟨fun _ key => nofun, ?_, trivial, trivial⟩
    intro _ key
    change Function.update (fun _ => none) (1, 0) (some 7) key ≠ some 8
    rw [Function.update_apply]
    split_ifs <;> simp)

/-- Task 7 is registered under two addresses. It has the second one then, so it is not found
under the first. -/
def registersTwice : List (DemuxerCall Nat) := [.registerTask (1, 0) 7, .registerTask (2, 0) 7]

theorem registersTwice_not_refines : ¬ Refines newDemuxer registersTwice := by
  rintro ⟨d', m, hrun, hget⟩
  obtain ⟨k, hget⟩ := hget (1, 0)
  have hlost : (run (m + 2) newDemuxer registersTwice).map
      (fun r => r.2.getTask (1, 0) (k + 2)) = some (some none) := by rfl
  rw [hrun (m + 2) (by omega), Option.map_some, hget (k + 2) (by omega)] at hlost
  exact absurd hlost (by decide)

end UDPDemuxer

end CxxFramework.Net
