import Mathlib.Tactic.TypeStar

/-!
# Refinement of calls

A component answers calls one after the other, each of which may fail. It refines another one,
which says what the component is for, if it gives the same answers to every sequence of calls,
and fails where the other one fails.

## Main definitions

* `perform step s calls` — the answers to the calls, and the state in the end.
* `Agrees R x y` — both fail, or both give the same answer and states that are related.
-/

namespace CxxFramework.Refinement

variable {σ τ ι ρ : Type*}

/-- Calls one after the other, with the answers. -/
def perform (step : σ → ι → Option (ρ × σ)) : σ → List ι → Option (List ρ × σ)
  | s, [] => some ([], s)
  | s, call :: calls =>
    (step s call).bind fun (answer, s) =>
      (perform step s calls).map fun (answers, s) => (answer :: answers, s)

/-- Both fail, or both give the same answer and states that are related. -/
def Agrees (R : σ → τ → Prop) : Option (ρ × σ) → Option (ρ × τ) → Prop
  | none, none => True
  | some (answer, s), some (answer', t) => answer = answer' ∧ R s t
  | _, _ => False

theorem Agrees.mono {R R' : σ → τ → Prop} {x : Option (ρ × σ)} {y : Option (ρ × τ)}
    (h : Agrees R x y) (hR : ∀ s t, R s t → R' s t) : Agrees R' x y := by
  match x, y, h with
  | none, none, _ => trivial
  | some (_, s), some (_, t), h => exact ⟨h.1, hR s t h.2⟩

theorem agrees_some {R : σ → τ → Prop} {x : Option (ρ × σ)} {answer : ρ} {t : τ}
    (h : Agrees R x (some (answer, t))) : ∃ s, x = some (answer, s) ∧ R s t := by
  match x, h with
  | some (_, s), h => exact ⟨s, by rw [h.1], h.2⟩

/-- If each call agrees, then the sequence of calls does. The relation may depend on the number
of the calls that follow. -/
theorem agrees_perform {concrete : σ → ι → Option (ρ × σ)} {abstract : τ → ι → Option (ρ × τ)}
    {R : Nat → σ → τ → Prop}
    (hstep : ∀ k s t call, R (k + 1) s t → Agrees (R k) (concrete s call) (abstract t call))
    {s : σ} {t : τ} (calls : List ι) (h : R calls.length s t) :
    Agrees (R 0) (perform concrete s calls) (perform abstract t calls) := by
  induction calls generalizing s t with
  | nil => exact ⟨rfl, h⟩
  | cons call calls ih =>
    have hcall := hstep calls.length s t call h
    rw [perform, perform]
    cases hs : concrete s call with
    | none =>
      cases ht : abstract t call with
      | none => trivial
      | some r =>
        rw [hs, ht] at hcall
        exact hcall.elim
    | some r =>
      cases ht : abstract t call with
      | none =>
        rw [hs, ht] at hcall
        exact hcall.elim
      | some r' =>
        rw [hs, ht] at hcall
        obtain ⟨answer, s'⟩ := r
        obtain ⟨answer', t'⟩ := r'
        obtain ⟨rfl, hR⟩ := hcall
        have hrest := ih hR
        simp only [Option.bind_some]
        cases hs' : perform concrete s' calls <;> cases ht' : perform abstract t' calls <;>
          rw [hs', ht'] at hrest
        · trivial
        · exact hrest.elim
        · exact hrest.elim
        · exact ⟨congrArg _ hrest.1, hrest.2⟩

end CxxFramework.Refinement
