import CxxFramework.Http.SessionSteps

/-!
# The lifetime of a session

A `Run` that returns -1 has its session deleted, which is to happen only while nobody counts
as a holder of the session. The end of `Run` looks at the count and then returns, in two
steps, and a `Run` with a timeout event returns without a look at the count.

## Main definitions

* `HTTPSession.Lifetime` — a session, of which a `Run` may be about to return -1.
* `HTTPSession.Unheld` — a deleted session has no holders.
* `HTTPSession.LeaveOk` — the condition on timeouts and on the holders.
-/

namespace CxxFramework.Net.HTTPSession

open CxxFramework.Core Thread Transition

/-- A session; `leaving`, where its `Run` has come to `return -1`. -/
structure Lifetime where
  config : Point × HTTPSession
  leaving : Bool := false

inductive LifetimeAction where
  | session (a : SessionAction)
  | returns

/-- The steps of other threads. -/
def fromOutside : SessionAction → Bool
  | .signal _ | .incrementObjectHolderCount | .decrementObjectHolderCount => true
  | .run | .loop | .switch _ => false

variable {mapping : List HTTPMapping}

/-- The steps of a session, with the return of -1 as a step of its own. -/
def nextLifetime (sDispatcher : HTTPDispatcher mapping) (l : Lifetime) :
    LifetimeAction → Option Lifetime
  | .session a =>
    if l.leaving && !fromOutside a then none
    else
      (next sDispatcher l.config a).map fun d =>
        if d.1 = .deleted then { config := (l.config.1, d.2), leaving := true }
        else { l with config := d }
  | .returns =>
    if l.leaving then some { config := (.deleted, l.config.2), leaving := false } else none

abbrev lifetimes (sDispatcher : HTTPDispatcher mapping) : System Lifetime LifetimeAction :=
  .ofPartial (fun l => Fresh l.config ∧ l.leaving = false) (nextLifetime sDispatcher)

/-- A session is deleted only while it has no holders. -/
def Unheld (l : Lifetime) : Prop := l.config.1 = .deleted → l.config.2.fObjectHolders = 0

instance (l : Lifetime) : Decidable (Unheld l) := inferInstanceAs (Decidable (_ → _))

/-- A `Run` that finds a timeout event begins while there are no holders, and nobody comes
or goes between the look at the count and the return. -/
def LeaveOk (l : Lifetime) : LifetimeAction → Prop
  | .session .run => l.config.2.task.getEvents.1 &&& kTimeoutEvent ≠ 0 →
      l.config.2.fObjectHolders = 0
  | .session .incrementObjectHolderCount | .session .decrementObjectHolderCount =>
    l.leaving = false
  | _ => True

instance (l : Lifetime) (a : LifetimeAction) : Decidable (LeaveOk l a) := by
  rcases a with (_ | _ | _ | _ | _ | _) | _ <;> unfold LeaveOk <;> infer_instance

/-! ## The steps that delete -/

variable {sDispatcher : HTTPDispatcher mapping} {s t : HTTPSession} {c d : Point × HTTPSession}
  {a : SessionAction} {p : Point} {err : CF_Error} {env : Env}

/-- No section of the `switch` returns -1. -/
theorem runSection_point (h : runSection sDispatcher env s err = some (p, t)) : p ≠ .deleted := by
  unfold runSection at h
  cases hstate : s.fState with
  | kReadingFirstRequest =>
    rw [hstate] at h
    obtain ⟨result, -, heq⟩ := Option.map_eq_some_iff.mp h
    dsimp only at heq
    split_ifs at heq <;> cases heq <;> nofun
  | kReadingRequest =>
    rw [hstate] at h
    obtain ⟨result, -, heq⟩ := Option.map_eq_some_iff.mp h
    dsimp only at heq
    split_ifs at heq <;> cases heq <;> nofun
  | kHaveCompleteMessage =>
    rw [hstate] at h
    obtain ⟨result, -, heq⟩ := Option.map_eq_some_iff.mp h
    dsimp only at heq
    split_ifs at heq <;> cases heq <;> nofun
  | kFilteringRequest =>
    rw [hstate] at h
    obtain ⟨result, -, heq⟩ := Option.map_eq_some_iff.mp h
    dsimp only at heq
    split_ifs at heq <;> cases heq <;> nofun
  | kPreprocessingRequest =>
    rw [hstate] at h
    obtain ⟨fRequest, -, h⟩ := Option.bind_eq_some_iff.mp h
    obtain ⟨fResponse, -, h⟩ := Option.bind_eq_some_iff.mp h
    cases h
    nofun
  | kProcessingRequest =>
    rw [hstate] at h
    obtain ⟨fRequest, -, h⟩ := Option.bind_eq_some_iff.mp h
    obtain ⟨fResponse, -, h⟩ := Option.bind_eq_some_iff.mp h
    cases h
    nofun
  | kSendingResponse =>
    rw [hstate] at h
    obtain ⟨result, -, heq⟩ := Option.map_eq_some_iff.mp h
    dsimp only at heq
    split_ifs at heq <;> cases heq <;> nofun
  | kCleaningUp =>
    rw [hstate] at h
    cases h
    nofun

theorem cleanup_holders (s : HTTPSession) :
    s.cleanupRequestAndResponse.fObjectHolders = s.fObjectHolders := by
  unfold cleanupRequestAndResponse
  dsimp only
  split_ifs <;> rfl

/-- A step that deletes a session is the start of a `Run` with a timeout event, or the end
of one while there are no holders. -/
theorem next_deleted (h : next sDispatcher c a = some d) (hbefore : c.1 ≠ .deleted)
    (hafter : d.1 = .deleted) :
    d.2.fObjectHolders = c.2.fObjectHolders ∧
      (a = .run ∧ c.2.task.getEvents.1 &&& kTimeoutEvent ≠ 0 ∨
        a = .loop ∧ c.2.fObjectHolders = 0) := by
  obtain ⟨p, s⟩ := c
  cases a with
  | signal events | incrementObjectHolderCount | decrementObjectHolderCount =>
    simp only [next, Option.ite_none_left_eq_some, Option.some.injEq] at h
    obtain ⟨-, rfl⟩ := h
    exact absurd hafter hbefore
  | run =>
    simp only [next, Option.ite_none_right_eq_some, Option.some.injEq] at h
    obtain ⟨-, rfl⟩ := h
    refine ⟨rfl, .inl ⟨rfl, fun hnone => ?_⟩⟩
    simp [beginRun, hnone] at hafter
  | loop =>
    cases p with
    | loop err =>
      simp only [next, Option.some.injEq] at h
      split_ifs at h with hlive
      · subst h
        cases hafter
      · subst h
        refine ⟨cleanup_holders s, .inr ⟨rfl, ?_⟩⟩
        by_contra hheld
        simp only [endRun, if_neg hheld] at hafter
        cases hafter
    | waiting | switch _ | deleted => cases h
  | switch env =>
    cases p with
    | switch err =>
      obtain ⟨q, t⟩ := d
      exact absurd hafter (runSection_point h)
    | waiting | loop _ | deleted => cases h

/-! ## Any run -/

/-- What holds of a session between the steps. -/
structure Kept (l : Lifetime) : Prop where
  unheld : Unheld l
  leaving : l.leaving = true → l.config.2.fObjectHolders = 0 ∧ l.config.1 ≠ .deleted

/-- Only the two counting steps change the number of holders. -/
theorem next_holders (h : next sDispatcher c a = some d) (hout : fromOutside a = true)
    (hincrement : a ≠ .incrementObjectHolderCount) (hdecrement : a ≠ .decrementObjectHolderCount) :
    d.2.fObjectHolders = c.2.fObjectHolders ∧ d.1 = c.1 := by
  cases a with
  | signal events =>
    simp only [next, Option.ite_none_left_eq_some, Option.some.injEq] at h
    obtain ⟨-, rfl⟩ := h
    exact ⟨rfl, rfl⟩
  | incrementObjectHolderCount => exact absurd rfl hincrement
  | decrementObjectHolderCount => exact absurd rfl hdecrement
  | run | loop | switch _ => cases hout

/-- No step is taken after the deletion. -/
theorem next_none (h : c.1 = .deleted) : next sDispatcher c a = none := by
  obtain ⟨p, s⟩ := c
  obtain rfl : p = .deleted := h
  cases a <;> simp [next]

theorem nextLifetime_kept {l m : Lifetime} {a : LifetimeAction} (hk : Kept l) (hok : LeaveOk l a)
    (h : nextLifetime sDispatcher l a = some m) : Kept m := by
  cases a with
  | returns =>
    simp only [nextLifetime, Option.ite_none_right_eq_some, Option.some.injEq] at h
    obtain ⟨hleaving, rfl⟩ := h
    exact ⟨fun _ => (hk.leaving hleaving).1, nofun⟩
  | session a =>
    simp only [nextLifetime, Option.ite_none_left_eq_some] at h
    obtain ⟨hallowed, h⟩ := h
    obtain ⟨d, hnext, rfl⟩ := Option.map_eq_some_iff.mp h
    have hbefore : l.config.1 ≠ .deleted := fun hdeleted => by
      rw [next_none hdeleted] at hnext
      cases hnext
    split_ifs with hafter
    · obtain ⟨hsame, hcause⟩ := next_deleted hnext hbefore hafter
      have hnone : l.config.2.fObjectHolders = 0 := by
        rcases hcause with ⟨rfl, htimeout⟩ | ⟨rfl, hnone⟩
        · exact hok htimeout
        · exact hnone
      exact ⟨fun hdeleted => absurd hdeleted hbefore, fun _ => ⟨hsame.trans hnone, hbefore⟩⟩
    · refine ⟨fun hdeleted => absurd hdeleted hafter, fun hleaving => ?_⟩
      have hleaving' : l.leaving = true := hleaving
      have hout : fromOutside a = true := by simpa [hleaving'] using hallowed
      obtain ⟨hsame, -⟩ := next_holders hnext hout
        (by rintro rfl; simp [LeaveOk, hleaving'] at hok)
        (by rintro rfl; simp [LeaveOk, hleaving'] at hok)
      exact ⟨hsame.trans (hk.leaving hleaving').1, hafter⟩

/-- In every run in which a timeout comes to a `Run` only while there are no holders, and
nobody comes or goes while a `Run` is returning, the session is deleted without holders. -/
theorem unheld_of_ok (sDispatcher : HTTPDispatcher mapping) {l : Lifetime} (fresh : Fresh l.config)
    (hleaving : l.leaving = false) {as : List LifetimeAction}
    (h : (lifetimes sDispatcher).Meets LeaveOk l as) :
    (lifetimes sDispatcher).Keeps (fun _ _ m => Unheld m) l as := by
  refine System.Meets.keeps Kept (fun l a m hk hstep hok => ?_) ⟨fun hdeleted => ?_, fun h => ?_⟩ h
  · have hk' := nextLifetime_kept hk hok hstep
    exact ⟨hk'.unheld, hk'⟩
  · cases fresh.waiting.symm.trans hdeleted
  · cases hleaving.symm.trans h

/-! ### Examples -/

/-- A session whose client goes away, and that has a holder until then. -/
def clientGone : List LifetimeAction :=
  [.session .incrementObjectHolderCount, .session (.signal kKillEvent),
    .session .decrementObjectHolderCount, .session .run, .session .loop, .returns]

theorem unheld_of_ok_clientGone :
    (lifetimes defaultDispatcher).Keeps (fun _ _ m => Unheld m)
      { config := newSession [] [] } clientGone :=
  unheld_of_ok defaultDispatcher (newSession_fresh [] []) rfl (by decide +kernel)

/-- A session with a holder is deleted after a timeout, and also if the holder comes while
`Run` is returning. -/
theorem timeout_not_unheld :
    (¬ (lifetimes defaultDispatcher).Keeps (fun _ _ m => Unheld m) { config := newSession [] [] }
      [.session .incrementObjectHolderCount, .session (.signal kTimeoutEvent), .session .run,
        .returns]) ∧
    ¬ (lifetimes defaultDispatcher).Keeps (fun _ _ m => Unheld m) { config := newSession [] [] }
      [.session (.signal kKillEvent), .session .run, .session .loop,
        .session .incrementObjectHolderCount, .returns] := by
  decide +kernel

end CxxFramework.Net.HTTPSession
