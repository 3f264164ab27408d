import CxxFramework.Library.Transition
import Mathlib.Algebra.Group.Nat.Defs
import Mathlib.Data.List.Nodup
import Mathlib.Data.Nat.Init
import Mathlib.Logic.Function.Basic
import Mathlib.Tactic.SplitIfs

/-!
# Identifiers of events

The first `RequestEvent` of a context takes an identifier from the counter `sUniqueID` until it
finds one that is not in the reference table, and registers it there. The counter is to go back to
1 at 10000000. But `compare_exchange_weak` writes the value of the counter to `topVal` when it
fails, so from the first call on the counter is compared with a value of its own past, and only two
calls at once make it go back.

Between the look into the table and the registration another context may register the identifier.
`Register` then fails, which nobody notices.

## Main definitions

* `EventIdentifiers.next` — the atomic steps of any number of contexts.
* `EventIdentifiers.Sound` — the identifiers are in their range and differ.
* `EventIdentifiers.Room` — a step does not leave the range, and takes no identifier that is taken.
-/

namespace CxxFramework.Net.EventIdentifiers

open Transition

/-- Where a context is in the loop of its first `RequestEvent`. -/
inductive Phase where
  | start
  /-- `compare_exchange_weak` has failed, and `++sUniqueID` is next. -/
  | failed
  /-- There is an identifier to be looked up. -/
  | chosen
  /-- The identifier was not in the table. -/
  | free
  | watched
deriving DecidableEq, Repr

structure Context where
  phase : Phase := .start
  fUniqueID : Nat := 0
deriving DecidableEq, Repr

/-- The contexts of an event thread, by their addresses. The table has the identifiers that are
registered, each with its context. -/
structure World where
  sUniqueID : Nat := 1
  topVal : Nat := 10000000
  contexts : Nat → Context := fun _ => {}
  fRefTable : List (Nat × Nat) := []

namespace World

def set (w : World) (c : Nat) (context : Context) : World :=
  { w with contexts := Function.update w.contexts c context }

/-- The identifier of the context is registered. -/
def Taken (w : World) (c : Nat) : Prop := (w.contexts c).fUniqueID ∈ w.fRefTable.map Prod.fst

instance (w : World) (c : Nat) : Decidable (w.Taken c) := inferInstanceAs (Decidable (_ ∈ _))

end World

inductive Action where
  /-- `compare_exchange_weak`, which may fail for no reason. -/
  | compareExchange (c : Nat) (spurious : Bool)
  | increment (c : Nat)
  | resolve (c : Nat)
  | register (c : Nat)
  | cleanup (c : Nat)
deriving DecidableEq, Repr

/-- An atomic step of a context. -/
def next (w : World) : Action → Option World
  | .compareExchange c spurious =>
    if (w.contexts c).phase = .start then
      if w.sUniqueID = w.topVal ∧ spurious = false then
        some ({ w with sUniqueID := 1 }.set c { phase := .chosen, fUniqueID := 1 })
      else
        some ({ w with topVal := w.sUniqueID }.set c { w.contexts c with phase := .failed })
    else none
  | .increment c =>
    if (w.contexts c).phase = .failed then
      let id := (w.sUniqueID + 1) % 2 ^ 32
      some ({ w with sUniqueID := id }.set c { phase := .chosen, fUniqueID := id })
    else none
  | .resolve c =>
    if (w.contexts c).phase = .chosen then
      some (w.set c { w.contexts c with phase := if w.Taken c then .start else .free })
    else none
  | .register c =>
    if (w.contexts c).phase = .free then
      let fRefTable :=
        if w.Taken c then w.fRefTable else ((w.contexts c).fUniqueID, c) :: w.fRefTable
      some ({ w with fRefTable }.set c { w.contexts c with phase := .watched })
    else none
  | .cleanup c =>
    if (w.contexts c).phase = .watched then
      let fRefTable :=
        if (w.contexts c).fUniqueID > 0 then w.fRefTable.erase ((w.contexts c).fUniqueID, c)
        else w.fRefTable
      some ({ w with fRefTable }.set c {})
    else none

abbrev system : System World Action := .ofPartial (· = {}) next

/-- The identifiers that have been assigned are in their range, and differ. -/
structure Sound (w : World) : Prop where
  range : ∀ c, (w.contexts c).phase = .watched →
    1 ≤ (w.contexts c).fUniqueID ∧ (w.contexts c).fUniqueID ≤ 10000000
  differ : ∀ c c', (w.contexts c).phase = .watched → (w.contexts c').phase = .watched →
    (w.contexts c).fUniqueID = (w.contexts c').fUniqueID → c = c'

/-- The counter is not counted past 10000000, and an identifier is registered that is still free. -/
def Room (w : World) : Action → Prop
  | .increment _ => w.sUniqueID < 10000000
  | .register c => ¬ w.Taken c
  | _ => True

instance (w : World) : DecidablePred (Room w)
  | .increment _ => inferInstanceAs (Decidable (_ < _))
  | .register _ => inferInstanceAs (Decidable (¬ _))
  | .compareExchange _ _ => isTrue trivial
  | .resolve _ => isTrue trivial
  | .cleanup _ => isTrue trivial

/-! ## Runs with room -/

/-- The counter and the identifiers are in their range. The table has just the identifiers that have
been assigned, each of them once. -/
structure Inv (w : World) : Prop where
  counter : 1 ≤ w.sUniqueID ∧ w.sUniqueID ≤ 10000000
  range : ∀ c, (w.contexts c).phase = .chosen ∨ (w.contexts c).phase = .free ∨
    (w.contexts c).phase = .watched →
      1 ≤ (w.contexts c).fUniqueID ∧ (w.contexts c).fUniqueID ≤ 10000000
  table : ∀ c, (w.contexts c).phase = .watched → ((w.contexts c).fUniqueID, c) ∈ w.fRefTable
  watched : ∀ entry ∈ w.fRefTable,
    (w.contexts entry.2).phase = .watched ∧ (w.contexts entry.2).fUniqueID = entry.1
  ids : (w.fRefTable.map Prod.fst).Nodup

variable {w w' : World} {c : Nat} {a : Action}

theorem Inv.sound (h : Inv w) : Sound w where
  range c hc := h.range c (.inr (.inr hc))
  differ c c' hc hc' heq := by
    have hmem := h.table c hc
    have hmem' := h.table c' hc'
    rw [heq] at hmem
    exact congrArg Prod.snd (List.inj_on_of_nodup_map h.ids hmem hmem' rfl)

theorem inv_start : Inv {} where
  counter := by decide
  range c hc := by simp at hc
  table c hc := by simp at hc
  watched entry hentry := by simp at hentry
  ids := List.nodup_nil

/-- A step of a context that is not watched, and does not get there, leaves the table right. -/
theorem Inv.apart {context : Context} (h : Inv w)
    (hcounter : 1 ≤ w'.sUniqueID ∧ w'.sUniqueID ≤ 10000000) (htable : w'.fRefTable = w.fRefTable)
    (hcontexts : w'.contexts = Function.update w.contexts c context)
    (hc : (w.contexts c).phase ≠ .watched) (hcontext : context.phase ≠ .watched)
    (hrange : context.phase = .chosen ∨ context.phase = .free →
      1 ≤ context.fUniqueID ∧ context.fUniqueID ≤ 10000000) : Inv w' where
  counter := hcounter
  range d hd := by
    rw [hcontexts] at hd ⊢
    by_cases hdc : d = c
    · subst hdc
      rw [Function.update_self] at hd ⊢
      rcases hd with hd | hd | hd
      · exact hrange (.inl hd)
      · exact hrange (.inr hd)
      · exact absurd hd hcontext
    · rw [Function.update_of_ne hdc] at hd ⊢
      exact h.range d hd
  table d hd := by
    rw [hcontexts] at hd ⊢
    by_cases hdc : d = c
    · subst hdc
      rw [Function.update_self] at hd
      exact absurd hd hcontext
    · rw [Function.update_of_ne hdc] at hd ⊢
      exact htable ▸ h.table d hd
  watched entry hentry := by
    rw [htable] at hentry
    have hwatched := h.watched entry hentry
    have hne : entry.2 ≠ c := fun heq => hc (heq ▸ hwatched.1)
    rw [hcontexts, Function.update_of_ne hne]
    exact hwatched
  ids := htable ▸ h.ids

/-- An identifier is registered that is not in the table. -/
theorem Inv.register (h : Inv w) (hfree : (w.contexts c).phase = .free) (htaken : ¬ w.Taken c) :
    Inv ({ w with fRefTable := ((w.contexts c).fUniqueID, c) :: w.fRefTable }.set c
      { w.contexts c with phase := .watched }) where
  counter := h.counter
  range d hd := by
    by_cases hdc : d = c
    · subst hdc
      simp only [World.set, Function.update_self]
      exact h.range d (.inr (.inl hfree))
    · simp only [World.set, Function.update_of_ne hdc] at hd ⊢
      exact h.range d hd
  table d hd := by
    by_cases hdc : d = c
    · subst hdc
      simp only [World.set, Function.update_self]
      exact List.mem_cons_self
    · simp only [World.set, Function.update_of_ne hdc] at hd ⊢
      exact List.mem_cons_of_mem _ (h.table d hd)
  watched entry hentry := by
    rcases List.mem_cons.mp hentry with rfl | hentry
    · simp [World.set]
    · have hwatched := h.watched entry hentry
      have hne : entry.2 ≠ c := by
        rintro rfl
        rw [hfree] at hwatched
        cases hwatched.1
      simp only [World.set, Function.update_of_ne hne]
      exact hwatched
  ids := List.nodup_cons.mpr ⟨htaken, h.ids⟩

theorem Inv.cleanup (h : Inv w) (hwatched : (w.contexts c).phase = .watched) :
    Inv ({ w with fRefTable := w.fRefTable.erase ((w.contexts c).fUniqueID, c) }.set c {}) where
  counter := h.counter
  range d hd := by
    by_cases hdc : d = c
    · subst hdc
      simp [World.set] at hd
    · simp only [World.set, Function.update_of_ne hdc] at hd ⊢
      exact h.range d hd
  table d hd := by
    by_cases hdc : d = c
    · subst hdc
      simp [World.set] at hd
    · simp only [World.set, Function.update_of_ne hdc] at hd ⊢
      have hne : ((w.contexts d).fUniqueID, d) ≠ ((w.contexts c).fUniqueID, c) := fun heq =>
        hdc (congrArg Prod.snd heq)
      exact (List.mem_erase_of_ne hne).mpr (h.table d hd)
  watched entry hentry := by
    have hentry' := (List.Nodup.of_map _ h.ids).mem_erase_iff.mp hentry
    have hentryWatched := h.watched entry hentry'.2
    have hne : entry.2 ≠ c := by
      intro heq
      refine hentry'.1 (Prod.ext ?_ heq)
      rw [← hentryWatched.2, heq]
    simp only [World.set, Function.update_of_ne hne]
    exact hentryWatched
  ids := (List.erase_sublist.map Prod.fst).nodup h.ids

theorem next_inv (h : Inv w) (hroom : Room w a) (hs : next w a = some w') : Inv w' := by
  cases a with
  | compareExchange c spurious =>
    simp only [next] at hs
    split_ifs at hs with hphase htop
    · obtain rfl := Option.some.inj hs
      exact h.apart (by simp [World.set]) rfl rfl (by simp [hphase]) (by simp) (by simp)
    · obtain rfl := Option.some.inj hs
      exact h.apart h.counter rfl rfl (by simp [hphase]) (by simp) (by simp)
  | increment c =>
    simp only [next] at hs
    split_ifs at hs with hphase
    obtain rfl := Option.some.inj hs
    have hlt : w.sUniqueID < 10000000 := hroom
    have hid : (w.sUniqueID + 1) % 2 ^ 32 = w.sUniqueID + 1 := Nat.mod_eq_of_lt (by omega)
    have hrange : 1 ≤ (w.sUniqueID + 1) % 2 ^ 32 ∧ (w.sUniqueID + 1) % 2 ^ 32 ≤ 10000000 := by
      omega
    exact h.apart hrange rfl rfl (by simp [hphase]) (by simp) fun _ => hrange
  | resolve c =>
    simp only [next] at hs
    split_ifs at hs with hphase
    · obtain rfl := Option.some.inj hs
      exact h.apart h.counter rfl rfl (by simp [hphase]) (by simp) (by simp)
    · obtain rfl := Option.some.inj hs
      exact h.apart h.counter rfl rfl (by simp [hphase]) (by simp) fun _ => h.range c (.inl hphase)
  | register c =>
    have htaken : ¬ w.Taken c := hroom
    simp only [next, if_neg htaken] at hs
    split_ifs at hs with hphase
    obtain rfl := Option.some.inj hs
    exact h.register hphase htaken
  | cleanup c =>
    simp only [next] at hs
    split_ifs at hs with hphase hpos
    · obtain rfl := Option.some.inj hs
      exact h.cleanup hphase
    · exact absurd (h.range c (.inr (.inr hphase))).1 hpos

/-- In every run whose steps have room, the identifiers are in their range and differ. -/
theorem sound_of_room (h : (system.guard Room).Reachable w) : Sound w := by
  refine (System.Reachable.invariant Inv ?_ ?_ h).sound
  · rintro w rfl
    exact inv_start
  · rintro w a w' hw ⟨hroom, hs⟩
    exact next_inv hw hroom hs

/-- The first `RequestEvent` of a context that is not disturbed, and finds its identifier free. -/
def request (c : Nat) : List Action :=
  [.compareExchange c false, .increment c, .resolve c, .register c]

theorem sound_of_room_twoRequests :
    ∃ w, (system.guard Room).Reachable w ∧ Sound w ∧ (w.contexts 1).fUniqueID = 3 := by
  have hrun : (system.guard Room).Reachable _ :=
    System.reachable_guard_ofPartial (request 0 ++ request 1) rfl rfl
  exact ⟨_, hrun, sound_of_room hrun, rfl⟩

/-! ## One call at a time -/

/-- A number of contexts have made their requests one after the other. -/
def requested (n : Nat) : World where
  sUniqueID := n + 1
  topVal := if n = 0 then 10000000 else n
  contexts c := if c < n then { phase := .watched, fUniqueID := c + 2 } else {}
  fRefTable := (List.range n).reverse.map fun c => (c + 2, c)

theorem requested_set (n : Nat) :
    Function.update (requested n).contexts n { phase := .watched, fUniqueID := n + 2 } =
      (requested (n + 1)).contexts := by
  funext c
  by_cases hc : c = n
  · subst hc
    simp [requested]
  · have hlt : c < n + 1 ↔ c < n := by omega
    rw [Function.update_of_ne hc]
    simp only [requested, hlt]

theorem not_mem_requested (n : Nat) : n + 2 ∉ (requested n).fRefTable.map Prod.fst := by
  simp [requested]

/-- The counter is never at `topVal` again, so every call counts it up by one. -/
theorem request_requested {n : Nat} (hn : n + 2 < 2 ^ 32) :
    (request n).foldlM next (requested n) = some (requested (n + 1)) := by
  have hne : ¬ (requested n).sUniqueID = (requested n).topVal := by
    unfold requested
    split_ifs with h <;> simp only <;> omega
  have hid : ((requested n).sUniqueID + 1) % 2 ^ 32 = n + 2 := Nat.mod_eq_of_lt hn
  have hphase : ((requested n).contexts n).phase = .start := by simp [requested]
  have hfree := not_mem_requested n
  simp only [request, List.foldlM_cons, List.foldlM_nil, next, hphase, hne, hid, World.set,
    World.Taken, if_true, false_and, if_false, Option.bind_eq_bind, Option.bind_some,
    Function.update_self, Function.update_idem, hfree, requested_set]
  simp [requested, List.range_succ]

/-- The counter never goes back if no two calls meet. -/
theorem reachable_requested {n : Nat} (hn : n + 1 < 2 ^ 32) : system.Reachable (requested n) := by
  induction n with
  | zero =>
    have hstart : requested 0 = {} := by simp [requested]
    exact .init hstart
  | succ n ih =>
    have hrun := request_requested (n := n) (by omega)
    exact (ih (by omega)).exec (System.exec_of_foldlM (fun _ _ _ h => h) hrun)

/-- The ten-millionth context gets the identifier 10000001. -/
theorem tenMillion_not_sound : ∃ w, system.Reachable w ∧ ¬ Sound w := by
  refine ⟨requested 10000000, reachable_requested (by decide), fun h => ?_⟩
  have hrange := h.range 9999999 (by simp [requested])
  simp [requested] at hrange

end CxxFramework.Net.EventIdentifiers
