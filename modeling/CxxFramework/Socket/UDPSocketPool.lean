import Mathlib.Data.List.Basic
import Mathlib.Tactic.Tauto

/-!
# The search for a pair of ports

`UDPSocketPool::CreateUDPSocketPair` binds two sockets to adjacent ports. Without a requested
port it starts at `kLowestUDPPort`, and goes on two ports higher each time that a `Bind` fails.
The counter is a `UInt16` and takes even values, so it never is `kHighestUDPPort`: behind 65534
comes 0, and the search goes on with the ports below `kLowestUDPPort`.

How the system calls of each try go is an input.

## Main definitions

* `createUDPSocketPair` — the search.
* `FindsPair` — it ends, and a pair that it returns has the ports it should have.
-/

namespace CxxFramework.Net

def kLowestUDPPort : UInt16 := 6970
def kHighestUDPPort : UInt16 := 65535

/-- How one try goes. A `Bind` that succeeds comes with the port that the kernel takes in case
that the port is 0. -/
structure PairTry where
  constructed : Bool
  openA : Bool
  openB : Bool
  bindA : Option UInt16
  bindB : Option UInt16
deriving DecidableEq, Repr

namespace PairTry

/-- The port of a socket after `Bind`. -/
def localPort (port chosen : UInt16) : UInt16 := if port = 0 then chosen else port

/-- The body of the loop: the ports of the pair, null if it gives up, and none if a `Bind` has
failed. -/
def attempt (t : PairTry) (socketAPort : UInt16) : Option (Option (UInt16 × UInt16)) :=
  if t.constructed ∧ t.openA ∧ t.openB then
    match t.bindA, t.bindB with
    | some chosenA, some chosenB =>
      let socketBPort := socketAPort + 1
      some (some (localPort socketAPort chosenA, localPort socketBPort chosenB))
    | _, _ => none
  else some none

/-- Both sockets are opened, and a `Bind` fails. -/
def BindFails (t : PairTry) : Prop :=
  t.constructed ∧ t.openA ∧ t.openB ∧ (t.bindA = none ∨ t.bindB = none)

/-- Both sockets are bound. -/
def Binds (t : PairTry) : Prop :=
  t.constructed ∧ t.openA ∧ t.openB ∧ t.bindA ≠ none ∧ t.bindB ≠ none

end PairTry

/-- The loop of `CreateUDPSocketPair` from try number `k` on: what it returns, and how many
pairs it has constructed then. None if it takes `n` tries and more. -/
def createFrom (tries : Nat → PairTry) (inPort : UInt16) :
    (n k : Nat) → (socketAPort : UInt16) → Option (Option (UInt16 × UInt16) × Nat)
  | 0, _, _ => none
  | n + 1, k, socketAPort =>
    if socketAPort < kHighestUDPPort then
      match (tries k).attempt socketAPort with
      | some thePair => some (thePair, k + (tries k).constructed.toNat)
      | none =>
        if inPort ≠ 0 then some (none, k + 1)
        else createFrom tries inPort n (k + 1) (socketAPort + 2)
    else some (none, k)

/-- `UDPSocketPool::CreateUDPSocketPair`. All pairs that are constructed and not returned are
destructed. -/
def createUDPSocketPair (tries : Nat → PairTry) (inPort : UInt16) (n : Nat) :
    Option (Option (UInt16 × UInt16) × Nat) :=
  createFrom tries inPort n 0 (if inPort ≠ 0 then inPort else kLowestUDPPort)

/-- The search ends, and a pair it returns has adjacent ports: the requested one and the next,
or, without a requested port, none below the lowest. -/
def FindsPair (tries : Nat → PairTry) (inPort : UInt16) : Prop :=
  ∃ n r, createUDPSocketPair tries inPort n = some r ∧
    ∀ portA portB, r.1 = some (portA, portB) → portB.toNat = portA.toNat + 1 ∧
      if inPort = 0 then kLowestUDPPort ≤ portA else portA = inPort

/-- The port of try number `k`. -/
def portAt (k : Nat) : UInt16 := UInt16.ofNat (6970 + 2 * k)

/-- Some try is the first one without a `Bind` that fails, and if it binds both sockets, the
counter is not below the lowest port then. -/
def Ends (tries : Nat → PairTry) : Prop :=
  ∃ k, (∀ i < k, (tries i).BindFails) ∧ ¬ (tries k).BindFails ∧
    ((tries k).Binds → 6970 ≤ (6970 + 2 * k) % 65536)

/-! ## One try -/

variable {t : PairTry} {tries : Nat → PairTry} {port inPort portA portB : UInt16} {n k : Nat}

theorem attempt_eq_none (port : UInt16) : t.attempt port = none ↔ t.BindFails := by
  unfold PairTry.attempt PairTry.BindFails
  split_ifs with hopen
  · cases t.bindA <;> cases t.bindB <;> simp [hopen]
  · simp only [false_iff]
    tauto

/-- A pair is found only if both sockets are bound. -/
theorem attempt_eq_some (h : t.attempt port = some (some (portA, portB))) :
    t.Binds ∧ (port ≠ 0 → portA = port) ∧ (port + 1 ≠ 0 → portB = port + 1) := by
  unfold PairTry.attempt at h
  unfold PairTry.Binds
  split_ifs at h with hopen
  · cases hA : t.bindA <;> cases hB : t.bindB <;> simp only [hA, hB, reduceCtorEq] at h
    obtain ⟨rfl, rfl⟩ := Prod.mk.inj (Option.some.inj (Option.some.inj h))
    exact ⟨by simp [hopen], fun hne => if_neg hne, fun hne => if_neg hne⟩
  · cases Option.some.inj h

theorem attempt_of_binds (port : UInt16) (h : t.Binds) :
    ∃ portA portB, t.attempt port = some (some (portA, portB)) := by
  obtain ⟨hc, hA, hB, hbindA, hbindB⟩ := h
  obtain ⟨chosenA, hA'⟩ := Option.ne_none_iff_exists'.mp hbindA
  obtain ⟨chosenB, hB'⟩ := Option.ne_none_iff_exists'.mp hbindB
  exact ⟨_, _, by simp only [PairTry.attempt, hc, hA, hB, hA', hB']; rfl⟩

/-! ## The ports of a search -/

theorem portAt_toNat (k : Nat) : (portAt k).toNat = (6970 + 2 * k) % 65536 := by
  simp [portAt]

/-- The counter is even, so the loop never stops at the highest port. -/
theorem portAt_lt (k : Nat) : portAt k < kHighestUDPPort := by
  rw [UInt16.lt_iff_toNat_lt, portAt_toNat]
  change _ < 65535
  omega

theorem portAt_succ (k : Nat) : portAt k + 2 = portAt (k + 1) := by
  apply UInt16.toNat_inj.mp
  rw [UInt16.toNat_add, portAt_toNat, portAt_toNat]
  change (_ + 2) % 65536 = _
  omega

theorem portAt_next_toNat (k : Nat) : (portAt k + 1).toNat = (portAt k).toNat + 1 := by
  have hlt := portAt_lt k
  rw [UInt16.lt_iff_toNat_lt] at hlt
  change _ < 65535 at hlt
  rw [UInt16.toNat_add]
  change (_ + 1) % 65536 = _
  omega

/-- Without a requested port, the search ends at the first try without a `Bind` that fails. -/
theorem createFrom_eq_some {r : Option (UInt16 × UInt16) × Nat} :
    createFrom tries 0 n k (portAt k) = some r ↔
      ∃ j, k ≤ j ∧ j < k + n ∧ (∀ i, k ≤ i → i < j → (tries i).BindFails) ∧
        ∃ thePair, (tries j).attempt (portAt j) = some thePair ∧
          r = (thePair, j + (tries j).constructed.toNat) := by
  induction n generalizing k with
  | zero =>
    simp only [createFrom, reduceCtorEq, false_iff]
    rintro ⟨j, hj, hj', -⟩
    omega
  | succ n ih =>
    rw [createFrom, if_pos (portAt_lt k)]
    cases hattempt : (tries k).attempt (portAt k) with
    | some thePair =>
      have hgoes : ¬ (tries k).BindFails := by
        rw [← attempt_eq_none (portAt k), hattempt]
        exact nofun
      simp only [Option.some.injEq]
      constructor
      · rintro rfl
        exact ⟨k, Nat.le_refl k, by omega, fun i hi hi' => by omega, thePair, hattempt, rfl⟩
      · rintro ⟨j, hj, -, hfails, thePair', hj', rfl⟩
        obtain rfl : k = j := by
          by_contra hne
          exact hgoes (hfails k (Nat.le_refl k) (by omega))
        rw [hattempt] at hj'
        rw [Option.some.inj hj']
    | none =>
      have hfails := (attempt_eq_none _).mp hattempt
      simp only [ne_eq, not_true_eq_false, if_false]
      rw [portAt_succ, ih]
      constructor
      · rintro ⟨j, hj, hj', hrest, hend⟩
        refine ⟨j, by omega, by omega, fun i hi hi' => ?_, hend⟩
        rcases Nat.eq_or_lt_of_le hi with rfl | hlt
        · exact hfails
        · exact hrest i hlt hi'
      · rintro ⟨j, hj, hj', hrest, hend⟩
        have hne : k ≠ j := by
          rintro rfl
          obtain ⟨thePair, hsome, -⟩ := hend
          rw [hattempt] at hsome
          cases hsome
        exact ⟨j, by omega, by omega, fun i hi hi' => hrest i (by omega) hi', hend⟩

/-- The ports of a pair that is found without a requested port. -/
theorem found_ports (h : (tries k).attempt (portAt k) = some (some (portA, portB))) :
    portB.toNat = portA.toNat + 1 ∧ kLowestUDPPort ≤ portA ↔ 6970 ≤ (6970 + 2 * k) % 65536 := by
  obtain ⟨-, hA, hB⟩ := attempt_eq_some h
  have hnext := portAt_next_toNat k
  have hport := portAt_toNat k
  have hB' : portB = portAt k + 1 := by
    refine hB fun hzero => ?_
    rw [hzero] at hnext
    change 0 = _ at hnext
    omega
  rw [UInt16.le_iff_toNat_le, hB', hnext, hport]
  change _ ∧ 6970 ≤ _ ↔ _
  constructor
  · rintro ⟨heq, hle⟩
    omega
  · intro hle
    have hne : portAt k ≠ 0 := by
      intro hzero
      rw [hzero] at hport
      change 0 = _ at hport
      omega
    rw [hA hne, hport]
    exact ⟨rfl, hle⟩

theorem findsPair_zero : FindsPair tries 0 ↔ Ends tries := by
  have hcreate : ∀ n, createUDPSocketPair tries 0 n = createFrom tries 0 n 0 (portAt 0) :=
    fun _ => rfl
  constructor
  · rintro ⟨n, r, hr, hports⟩
    rw [hcreate, createFrom_eq_some] at hr
    obtain ⟨k, -, -, hfails, thePair, hattempt, rfl⟩ := hr
    refine ⟨k, fun i hi => hfails i (Nat.zero_le i) hi, ?_, ?_⟩
    · rw [← attempt_eq_none (portAt k), hattempt]
      exact nofun
    · intro hbinds
      obtain ⟨portA, portB, hfound⟩ := attempt_of_binds (portAt k) hbinds
      have hpair := Option.some.inj (hattempt.symm.trans hfound)
      exact (found_ports hfound).mp (hports portA portB hpair)
  · rintro ⟨k, hfails, hgoes, hlow⟩
    rw [← attempt_eq_none (portAt k)] at hgoes
    obtain ⟨thePair, hattempt⟩ := Option.ne_none_iff_exists'.mp hgoes
    refine ⟨k + 1, (thePair, k + (tries k).constructed.toNat), ?_, ?_⟩
    · rw [hcreate, createFrom_eq_some]
      exact ⟨k, Nat.zero_le k, by omega, fun i _ hi => hfails i hi, thePair, hattempt, rfl⟩
    · rintro portA portB (rfl : thePair = _)
      exact (found_ports hattempt).mpr (hlow (attempt_eq_some hattempt).1)

/-- A requested port is tried once. -/
theorem findsPair_of_ne (hport : inPort ≠ 0) : FindsPair tries inPort := by
  have hcreate : createUDPSocketPair tries inPort 1 = createFrom tries inPort 1 0 inPort := by
    rw [createUDPSocketPair, if_pos hport]
  by_cases hlt : inPort < kHighestUDPPort
  · cases hattempt : (tries 0).attempt inPort with
    | none =>
      refine ⟨1, (none, 1), ?_, nofun⟩
      rw [hcreate, createFrom, if_pos hlt, hattempt]
      exact if_pos hport
    | some thePair =>
      refine ⟨1, (thePair, 0 + (tries 0).constructed.toNat), ?_, ?_⟩
      · rw [hcreate, createFrom, if_pos hlt, hattempt]
      · rintro portA portB (rfl : thePair = _)
        obtain ⟨-, hA, hB⟩ := attempt_eq_some hattempt
        have hle : inPort.toNat < 65535 := UInt16.lt_iff_toNat_lt.mp hlt
        have hnext : (inPort + 1).toNat = inPort.toNat + 1 := by
          rw [UInt16.toNat_add]
          change (_ + 1) % 65536 = _
          omega
        have hB' := hB fun hzero => by
          rw [hzero] at hnext
          change 0 = _ at hnext
          omega
        rw [hA hport, hB', if_neg hport]
        exact ⟨hnext, rfl⟩
  · refine ⟨1, (none, 0), ?_, nofun⟩
    rw [hcreate, createFrom, if_neg hlt]

/-- The search does what it should exactly if a port is requested, or some try ends it before
the counter is below the lowest port. -/
theorem findsPair_iff (tries : Nat → PairTry) (inPort : UInt16) :
    FindsPair tries inPort ↔ inPort ≠ 0 ∨ Ends tries := by
  by_cases hport : inPort = 0
  · subst hport
    simpa using findsPair_zero
  · exact iff_of_true (findsPair_of_ne hport) (.inl hport)

/-- All ports are taken. -/
def allTaken (_ : Nat) : PairTry := ⟨true, true, true, none, none⟩

theorem allTaken_not_findsPair : ¬ ∀ tries inPort, FindsPair tries inPort := by
  intro h
  obtain ⟨k, -, hgoes, -⟩ := findsPair_zero.mp (h allTaken 0)
  exact hgoes ⟨rfl, rfl, rfl, .inl rfl⟩

end CxxFramework.Net
