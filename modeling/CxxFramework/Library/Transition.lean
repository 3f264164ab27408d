import Mathlib.Tactic.TypeStar

/-!
# Labelled transition systems

Executions of a system whose steps carry a label, the induction rules for its
reachable states, and the comparison of what a run keeps true with a condition
on the steps it takes.

## Main definitions

* `System` — initial states and a labelled step relation.
* `System.Reachable` — the states some execution from an initial state reaches.
* `System.guard` — the same system, restricted to steps that meet a condition.
* `System.Keeps`, `System.Meets` — along a list of labels, every step establishes
  a property, respectively meets a condition beforehand.
* `System.ofPartial`, `System.ofFallible` — the systems of a function that is undefined where
  a step is impossible, respectively of an operation whose failure ends the run.
-/

namespace CxxFramework.Transition

/-- Initial states and labelled steps. -/
structure System (σ α : Type*) where
  init : σ → Prop
  step : σ → α → σ → Prop

namespace System

variable {σ α : Type*} {S : System σ α}

/-! ## Reachable states -/

/-- States reached by finitely many steps from an initial one. -/
inductive Reachable (S : System σ α) : σ → Prop
  | init {s} : S.init s → Reachable S s
  | step {s a t} : Reachable S s → S.step s a t → Reachable S t

/-- An inductive invariant holds in every reachable state. -/
theorem Reachable.invariant (Inv : σ → Prop) (initial : ∀ s, S.init s → Inv s)
    (preserved : ∀ s a t, Inv s → S.step s a t → Inv t) {s : σ} (h : S.Reachable s) :
    Inv s := by
  induction h with
  | init h => exact initial _ h
  | step _ hs ih => exact preserved _ _ _ ih hs

/-- The system that only takes steps which meet the condition `ok`. -/
def guard (S : System σ α) (ok : σ → α → Prop) : System σ α where
  init := S.init
  step s a t := ok s a ∧ S.step s a t

/-! ## Executions -/

/-- The execution that takes the listed steps in order. -/
inductive Exec (S : System σ α) : σ → List α → σ → Prop
  | nil (s) : Exec S s [] s
  | cons {s a t as u} : S.step s a t → Exec S t as u → Exec S s (a :: as) u

theorem Exec.append {s t u : σ} {as bs : List α} (h : S.Exec s as t) (h' : S.Exec t bs u) :
    S.Exec s (as ++ bs) u := by
  induction h with
  | nil => exact h'
  | cons hs _ ih => exact .cons hs (ih h')

theorem Reachable.exec {s t : σ} {as : List α} (h : S.Reachable s) (hx : S.Exec s as t) :
    S.Reachable t := by
  induction hx with
  | nil => exact h
  | cons hs _ ih => exact ih (.step h hs)

/-- Every step of every execution along `as` establishes `P`. -/
def Keeps (S : System σ α) (P : σ → α → σ → Prop) : σ → List α → Prop
  | _, [] => True
  | s, a :: as => ∀ t, S.step s a t → P s a t ∧ S.Keeps P t as

/-- Every step of every execution along `as` is taken from a state that meets `ok`. -/
def Meets (S : System σ α) (ok : σ → α → Prop) : σ → List α → Prop
  | _, [] => True
  | s, a :: as => ∀ t, S.step s a t → ok s a ∧ S.Meets ok t as

/-- If a step that meets `ok` establishes `P` and leads from good states to good ones,
then a run that meets `ok` throughout establishes `P` throughout. -/
theorem Meets.keeps (Good : σ → Prop) {P : σ → α → σ → Prop} {ok : σ → α → Prop}
    (sound : ∀ s a t, Good s → S.step s a t → ok s a → P s a t ∧ Good t)
    {s : σ} (good : Good s) {as : List α} (meets : S.Meets ok s as) : S.Keeps P s as := by
  induction as generalizing s with
  | nil => trivial
  | cons a as ih =>
    intro t hs
    obtain ⟨hok, rest⟩ := meets t hs
    obtain ⟨hP, good'⟩ := sound s a t good hs hok
    exact ⟨hP, ih good' rest⟩

/-- Among the runs that meet `within` throughout: if a step that meets `ok` establishes `P`
and leads from good states to good ones, and only such a step establishes `P`, then a run
establishes `P` throughout exactly when it meets `ok` throughout. -/
theorem Meets.keeps_iff_meets (Good : σ → Prop) {P : σ → α → σ → Prop} {within ok : σ → α → Prop}
    (sound : ∀ s a t, Good s → S.step s a t → within s a → ok s a → P s a t ∧ Good t)
    (exact : ∀ s a t, Good s → S.step s a t → within s a → P s a t → ok s a)
    {s : σ} (good : Good s) {as : List α} (h : S.Meets within s as) :
    S.Keeps P s as ↔ S.Meets ok s as := by
  induction as generalizing s with
  | nil => exact Iff.rfl
  | cons a as ih =>
    constructor
    · intro keeps t hs
      obtain ⟨hwithin, hrest⟩ := h t hs
      obtain ⟨hP, rest⟩ := keeps t hs
      have hok := exact s a t good hs hwithin hP
      exact ⟨hok, (ih (sound s a t good hs hwithin hok).2 hrest).mp rest⟩
    · intro meets t hs
      obtain ⟨hwithin, hrest⟩ := h t hs
      obtain ⟨hok, rest⟩ := meets t hs
      obtain ⟨hP, good'⟩ := sound s a t good hs hwithin hok
      exact ⟨hP, (ih good' hrest).mpr rest⟩

theorem meets_of_forall {ok : σ → α → Prop} (h : ∀ s a, ok s a) (s : σ) (as : List α) :
    S.Meets ok s as := by
  induction as generalizing s with
  | nil => trivial
  | cons a as ih => exact fun t _ => ⟨h s a, ih t⟩

/-- Without a condition on the runs. -/
theorem keeps_iff_meets (Good : σ → Prop) {P : σ → α → σ → Prop} {ok : σ → α → Prop}
    (sound : ∀ s a t, Good s → S.step s a t → ok s a → P s a t ∧ Good t)
    (exact : ∀ s a t, Good s → S.step s a t → P s a t → ok s a)
    {s : σ} (good : Good s) (as : List α) : S.Keeps P s as ↔ S.Meets ok s as :=
  have always : S.Meets (fun _ _ => True) s as := meets_of_forall (fun _ _ => trivial) s as
  always.keeps_iff_meets Good (fun s a t hg hs _ => sound s a t hg hs)
    (fun s a t hg hs _ => exact s a t hg hs) good

/-- What a run establishes throughout holds of the last step of any of its executions. -/
theorem Keeps.last {P : σ → α → σ → Prop} {s u : σ} {as : List α} {a : α}
    (keeps : S.Keeps P s (as ++ [a])) (hx : S.Exec s (as ++ [a]) u) :
    ∃ t, S.step t a u ∧ P t a u := by
  induction as generalizing s with
  | nil =>
    cases hx with
    | cons hs rest =>
      cases rest
      exact ⟨s, hs, (keeps _ hs).1⟩
  | cons b as ih =>
    cases hx with
    | cons hs rest => exact ih (keeps _ hs).2 rest

/-! ## Systems given by a partial function -/

/-- The system whose step is a function, undefined where the step is impossible. -/
def ofPartial (init : σ → Prop) (next : σ → α → Option σ) : System σ α where
  init := init
  step s a t := next s a = some t

/-- Running a function whose results are steps gives an execution. -/
theorem exec_of_foldlM {next : σ → α → Option σ} (sound : ∀ s a t, next s a = some t → S.step s a t)
    {s t : σ} {as : List α} (h : as.foldlM next s = some t) : S.Exec s as t := by
  induction as generalizing s with
  | nil =>
    obtain rfl : s = t := by simpa using h
    exact .nil s
  | cons a as ih =>
    obtain ⟨u, hu, hrest⟩ : ∃ u, next s a = some u ∧ as.foldlM next u = some t := by
      simpa [List.foldlM_cons, Option.bind_eq_some_iff] using h
    exact .cons (sound s a u hu) (ih hrest)

theorem reachable_ofPartial {init : σ → Prop} {next : σ → α → Option σ} {s t : σ} (as : List α)
    (hs : init s) (h : as.foldlM next s = some t) : (ofPartial init next).Reachable t :=
  Reachable.exec (.init hs) (exec_of_foldlM (fun _ _ _ h => h) h)

/-- A run that evaluates to a state, and meets `ok` on the way, reaches it under the guard. -/
theorem reachable_guard_ofPartial {init : σ → Prop} {next : σ → α → Option σ}
    {ok : σ → α → Prop} [∀ s a, Decidable (ok s a)] {s t : σ} (as : List α) (hs : init s)
    (h : as.foldlM (fun s a => if ok s a then next s a else none) s = some t) :
    ((ofPartial init next).guard ok).Reachable t :=
  Reachable.exec (.init hs)
    (exec_of_foldlM (fun s a t hst => by simpa [guard, ofPartial] using hst) h)

/-- Whether a run keeps a property can be computed, step by step. -/
def decideKeeps (init : σ → Prop) (next : σ → α → Option σ) (P : σ → α → σ → Prop)
    [∀ s a t, Decidable (P s a t)] :
    (s : σ) → (as : List α) → Decidable ((ofPartial init next).Keeps P s as)
  | _, [] => isTrue trivial
  | s, a :: as =>
    match h : next s a with
    | none => isTrue fun t ht => by simp [ofPartial, h] at ht
    | some t =>
      have := decideKeeps init next P t as
      decidable_of_iff (P s a t ∧ (ofPartial init next).Keeps P t as)
        ⟨fun hk u hu => by cases h.symm.trans hu; exact hk, fun hk => hk t h⟩

/-- Whether a run meets a condition can be computed, step by step. -/
def decideMeets (init : σ → Prop) (next : σ → α → Option σ) (ok : σ → α → Prop)
    [∀ s a, Decidable (ok s a)] :
    (s : σ) → (as : List α) → Decidable ((ofPartial init next).Meets ok s as)
  | _, [] => isTrue trivial
  | s, a :: as =>
    match h : next s a with
    | none => isTrue fun t ht => by simp [ofPartial, h] at ht
    | some t =>
      have := decideMeets init next ok t as
      decidable_of_iff (ok s a ∧ (ofPartial init next).Meets ok t as)
        ⟨fun hk u hu => by cases h.symm.trans hu; exact hk, fun hk => hk t h⟩

instance {init : σ → Prop} {next : σ → α → Option σ} {P : σ → α → σ → Prop}
    [∀ s a t, Decidable (P s a t)] (s : σ) (as : List α) :
    Decidable ((ofPartial init next).Keeps P s as) := decideKeeps init next P s as

instance {init : σ → Prop} {next : σ → α → Option σ} {ok : σ → α → Prop}
    [∀ s a, Decidable (ok s a)] (s : σ) (as : List α) :
    Decidable ((ofPartial init next).Meets ok s as) := decideMeets init next ok s as

/-! ## Systems given by an operation that may fail -/

/-- Along the legal labels the system takes the steps of an operation. When that fails there
is no state any more, and no further step. -/
def ofFallible (init : σ → Prop) (legal : σ → α → Prop) [∀ w a, Decidable (legal w a)]
    (next : σ → α → Option σ) : System (Option σ) α :=
  .ofPartial (fun s => ∃ w, s = some w ∧ init w) fun s a =>
    s.bind fun w => if legal w a then some (next w a) else none

/-- The step does not fail, and establishes `P`. -/
def Succeeds (P : σ → α → σ → Prop) (s : Option σ) (a : α) (t : Option σ) : Prop :=
  ∃ w w', s = some w ∧ t = some w' ∧ P w a w'

/-- The state before the step meets `ok`. -/
def Before (ok : σ → α → Prop) (s : Option σ) (a : α) : Prop := ∀ w, s = some w → ok w a

instance {ok : σ → α → Prop} [∀ w a, Decidable (ok w a)] :
    (s : Option σ) → (a : α) → Decidable (Before ok s a)
  | none, _ => isTrue fun _ h => by cases h
  | some w, a => decidable_of_iff (ok w a) ⟨fun h _ hw => Option.some.inj hw ▸ h, fun h => h w rfl⟩

section Fallible

variable {init : σ → Prop} {legal : σ → α → Prop} [∀ w a, Decidable (legal w a)]
  {next : σ → α → Option σ} {P : σ → α → σ → Prop} {ok : σ → α → Prop} {w : σ} {as : List α}

theorem step_ofFallible {t : Option σ} {a : α} :
    (ofFallible init legal next).step (some w) a t ↔ legal w a ∧ next w a = t := by
  simp [ofFallible, ofPartial]

instance (s : Option σ) (as : List α) [∀ w a, Decidable (ok w a)] :
    Decidable ((ofFallible init legal next).Meets (Before ok) s as) :=
  inferInstanceAs (Decidable ((ofPartial _ _).Meets _ _ _))

/-- If an operation that meets `ok` succeeds, establishes `P` and leads from good states to
good ones, then a run that meets `ok` throughout succeeds and establishes `P` throughout. -/
theorem Meets.succeeds (Good : σ → Prop)
    (sound : ∀ w a, Good w → legal w a → ok w a → ∃ w', next w a = some w' ∧ P w a w' ∧ Good w')
    (good : Good w) (h : (ofFallible init legal next).Meets (Before ok) (some w) as) :
    (ofFallible init legal next).Keeps (Succeeds P) (some w) as := by
  refine h.keeps (fun s => ∃ w, s = some w ∧ Good w) ?_ ⟨w, rfl, good⟩
  rintro s a t ⟨w, rfl, hg⟩ hs hok
  obtain ⟨hlegal, rfl⟩ := step_ofFallible.mp hs
  obtain ⟨w', hnext, hP, hg'⟩ := sound w a hg hlegal (hok w rfl)
  exact ⟨⟨w, w', rfl, hnext, hP⟩, w', hnext, hg'⟩

/-- If moreover, among the runs that meet `within`, only operations that meet `ok` succeed and
establish `P`, then such a run does so throughout exactly when it meets `ok` throughout. -/
theorem Meets.succeeds_iff (Good : σ → Prop) {within : σ → α → Prop}
    (sound : ∀ w a, Good w → legal w a → within w a → ok w a →
      ∃ w', next w a = some w' ∧ P w a w' ∧ Good w')
    (exact : ∀ w a w', Good w → legal w a → within w a → next w a = some w' → P w a w' → ok w a)
    (good : Good w) (h : (ofFallible init legal next).Meets (Before within) (some w) as) :
    (ofFallible init legal next).Keeps (Succeeds P) (some w) as ↔
      (ofFallible init legal next).Meets (Before ok) (some w) as := by
  refine h.keeps_iff_meets (fun s => ∃ w, s = some w ∧ Good w) ?_ ?_ ⟨w, rfl, good⟩
  · rintro s a t ⟨w, rfl, hg⟩ hs hwithin hok
    obtain ⟨hlegal, rfl⟩ := step_ofFallible.mp hs
    obtain ⟨w', hnext, hP, hg'⟩ := sound w a hg hlegal (hwithin w rfl) (hok w rfl)
    exact ⟨⟨w, w', rfl, hnext, hP⟩, w', hnext, hg'⟩
  · rintro s a t ⟨w, rfl, hg⟩ hs hwithin ⟨w₁, w', hw, hnext, hP⟩ w₂ hw₂
    obtain ⟨hlegal, rfl⟩ := step_ofFallible.mp hs
    obtain rfl := Option.some.inj hw
    obtain rfl := Option.some.inj hw₂
    exact exact w a w' hg hlegal (hwithin w rfl) hnext hP

/-- If all labels are legal, a run that succeeds throughout comes to its end. -/
theorem Keeps.exec (total : ∀ w a, legal w a)
    (h : (ofFallible init legal next).Keeps (Succeeds P) (some w) as) :
    ∃ w', (ofFallible init legal next).Exec (some w) as (some w') := by
  induction as generalizing w with
  | nil => exact ⟨w, .nil _⟩
  | cons a as ih =>
    have hs : (ofFallible init legal next).step (some w) a (next w a) :=
      step_ofFallible.mpr ⟨total w a, rfl⟩
    obtain ⟨⟨_, w₁, -, hnext, -⟩, rest⟩ := h _ hs
    rw [hnext] at hs rest
    obtain ⟨w', hx⟩ := ih rest
    exact ⟨w', .cons hs hx⟩

/-- Running the operation along legal labels gives an execution. -/
theorem exec_ofFallible {w' : σ}
    (h : as.foldlM (fun w a => if legal w a then next w a else none) w = some w') :
    (ofFallible init legal next).Exec (some w) as (some w') := by
  induction as generalizing w with
  | nil =>
    obtain rfl : w = w' := by simpa using h
    exact .nil _
  | cons a as ih =>
    rw [List.foldlM_cons] at h
    obtain ⟨u, hu, hrest⟩ := Option.bind_eq_some_iff.mp h
    by_cases hlegal : legal w a
    · rw [if_pos hlegal] at hu
      exact .cons (step_ofFallible.mpr ⟨hlegal, hu⟩) (ih hrest)
    · rw [if_neg hlegal] at hu
      cases hu

end Fallible

end System

end CxxFramework.Transition
