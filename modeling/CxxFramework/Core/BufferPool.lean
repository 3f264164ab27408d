import CxxFramework.Core.Queue
import CxxFramework.Library.Transition
import Mathlib.Data.List.Nodup
import Mathlib.Tactic.SplitIfs

/-!
# Buffer pools

`Get` takes a buffer out of the pool, or allocates one if the pool is empty, and `Put` puts it
back. A pool never gives memory back to the heap. The `QueueElem` in front of a buffer links it
into the pool, and tells `Put` if the buffer is in it already.

## Main definitions

* `BufferPool.next` — the calls of any clients.
* `BufferPool.Sound` — no buffer is with two clients, or with one and in the pool, and there are
  as many as have been out at one time.
* `BufferPool.Ok` — no client puts back a buffer that only another one has.
-/

namespace CxxFramework.Core.BufferPool

open Transition

/-- A pool, with the buffers that it has allocated, those that clients have, and the most that
they have had at one time. -/
structure State (C B : Type) where
  memory : QueueMemory Unit B
  fTotNumBuffers : Nat := 0
  allocated : List B := []
  out : List (C × B) := []
  most : Nat := 0

inductive Action (C B : Type) where
  /-- `Get`, with what `new` returns if it comes to it. -/
  | get (c : C) (theNewBuf : B)
  | put (c : C) (inBuffer : B)

variable {C B : Type} [DecidableEq C] [DecidableEq B] {s s' : State C B} {a : Action C B}
  {c : C} {b : B}

omit [DecidableEq C] [DecidableEq B] in
/-- A client gets a buffer. -/
def State.handOut (s : State C B) (c : C) (b : B) : State C B :=
  { s with out := (c, b) :: s.out, most := max s.most (s.out.length + 1) }

omit [DecidableEq C] in
/-- The construction of the `QueueElem` in front of a new buffer. -/
def construct (m : QueueMemory Unit B) (theNewBuf : B) : QueueMemory Unit B :=
  { m with fQueue := Function.update m.fQueue theNewBuf none }

omit [DecidableEq C] in
/-- `BufferPool::Get`; none if `new` returns a block in use, or if there is no element to take
the buffer from. -/
def get (s : State C B) (c : C) (theNewBuf : B) : Option (State C B) :=
  if s.memory.getLength () = 0 then
    if theNewBuf ∈ s.allocated then none
    else
      some ({ s with
        memory := construct s.memory theNewBuf
        fTotNumBuffers := (s.fTotNumBuffers + 1) % kLengthSize
        allocated := theNewBuf :: s.allocated }.handOut c theNewBuf)
  else
    match s.memory.deQueue () with
    | some (some b, memory) => some ({ s with memory }.handOut c b)
    | _ => none

/-- `BufferPool::Put` of a buffer that came from `Get`. -/
def put (s : State C B) (c : C) (inBuffer : B) : Option (State C B) :=
  if inBuffer ∈ s.allocated then
    (s.memory.enQueue () inBuffer).map fun memory =>
      { s with memory, out := s.out.erase (c, inBuffer) }
  else none

def next (s : State C B) : Action C B → Option (State C B)
  | .get c theNewBuf => get s c theNewBuf
  | .put c inBuffer => put s c inBuffer

def Fresh (s : State C B) : Prop :=
  s.memory.Fresh ∧ s.fTotNumBuffers = 0 ∧ s.allocated = [] ∧ s.out = [] ∧ s.most = 0

def system (C B : Type) [DecidableEq C] [DecidableEq B] : System (State C B) (Action C B) :=
  .ofPartial Fresh next

/-- No buffer is with two clients, or with one and in the pool, and there are as many as have
been out at one time. -/
def Sound (s : State C B) : Prop :=
  ∃ available, (∀ b, s.memory.fQueue b = some () ↔ b ∈ available) ∧
    s.memory.getLength () = available.length ∧ (s.out.map Prod.snd ++ available).Nodup ∧
    s.fTotNumBuffers = s.out.length + available.length ∧ s.fTotNumBuffers = s.most

/-- No client puts back a buffer that only another one has, and no `2 ^ 32` buffers are
allocated. A buffer that is in the pool may be put back again. -/
def Ok (s : State C B) : Action C B → Prop
  | .get _ _ => s.memory.getLength () = 0 → s.fTotNumBuffers + 1 < kLengthSize
  | .put c inBuffer => ∀ d, (d, inBuffer) ∈ s.out → (c, inBuffer) ∈ s.out

/-- The pool holds `l`: what is allocated and not out. -/
structure Inv (s : State C B) (l : List B) : Prop where
  represents : s.memory.Represents fun _ => l
  perm : s.allocated.Perm (s.out.map Prod.snd ++ l)
  nodup : s.allocated.Nodup
  total : s.fTotNumBuffers = s.allocated.length
  small : s.allocated.length < kLengthSize
  most : s.most = s.allocated.length

section Inv

variable {l : List B}

omit [DecidableEq C] [DecidableEq B] in
theorem Inv.length (h : Inv s l) : s.out.length + l.length = s.allocated.length := by
  rw [h.perm.length_eq, List.length_append, List.length_map]

omit [DecidableEq C] [DecidableEq B] in
theorem Inv.getLength (h : Inv s l) : s.memory.getLength () = l.length := by
  have hlength := h.length
  have hsmall := h.small
  exact (h.represents.length ()).trans (Nat.mod_eq_of_lt (by omega))

omit [DecidableEq C] [DecidableEq B] in
theorem Inv.sound (h : Inv s l) : Sound s :=
  ⟨l, fun b => h.represents.member b (), h.getLength, h.perm.nodup_iff.mp h.nodup,
    h.total.trans h.length.symm, h.total.trans h.most.symm⟩

omit [DecidableEq B] in
theorem update_pool (l l' : List B) : Function.update (fun _ : Unit => l) () l' = fun _ => l' :=
  funext fun _ => Function.update_self ..

omit [DecidableEq C] in
/-- An element that stands in front of new memory is in no queue. -/
theorem Inv.construct (h : Inv s l) (hb : b ∉ s.allocated) :
    construct s.memory b = s.memory := by
  have hnone : s.memory.fQueue b = none := by
    rw [Option.eq_none_iff_forall_ne_some]
    intro queue hqueue
    have hmem := (h.represents.member b queue).mp hqueue
    exact hb (h.perm.mem_iff.mpr (List.mem_append_right _ hmem))
  rw [BufferPool.construct, ← hnone, Function.update_eq_self]

omit [DecidableEq C] in
theorem Inv.get (h : Inv s l) (hget : get s c b = some s')
    (hok : s.memory.getLength () = 0 → s.fTotNumBuffers + 1 < kLengthSize) : ∃ l', Inv s' l' := by
  have hlength := h.length
  have hmost := h.most
  unfold BufferPool.get at hget
  rw [h.getLength] at hget hok
  split_ifs at hget with hnil hb
  · cases hget
    have htotal := hok hnil
    rw [h.total] at htotal
    refine ⟨l, ?_, h.perm.cons b, List.nodup_cons.mpr ⟨hb, h.nodup⟩, ?_, htotal, ?_⟩
    · exact (h.construct hb).symm ▸ h.represents
    · simp only [State.handOut, h.total, List.length_cons]
      exact Nat.mod_eq_of_lt htotal
    · -- everything allocated is out
      simp only [State.handOut, List.length_cons]
      omega
  · obtain ⟨front, back, rfl⟩ : ∃ front back, l = front :: back :=
      List.exists_cons_of_ne_nil fun heq => hnil (by rw [heq, List.length_nil])
    obtain ⟨m', hdequeue, hrepresents⟩ := h.represents.deQueue
      (fun _ => by have := h.small; simp only [List.length_cons] at hlength ⊢; omega) ()
    rw [hdequeue] at hget
    cases hget
    rw [update_pool] at hrepresents
    refine ⟨back, hrepresents, ?_, h.nodup, h.total, h.small, ?_⟩
    · exact h.perm.trans List.perm_middle
    · simp only [State.handOut]
      rw [List.length_cons] at hlength
      omega

theorem Inv.put (h : Inv s l) (hput : put s c b = some s')
    (hok : ∀ d, (d, b) ∈ s.out → (c, b) ∈ s.out) : ∃ l', Inv s' l' := by
  unfold BufferPool.put at hput
  rw [Option.ite_none_right_eq_some] at hput
  obtain ⟨hb, hput⟩ := hput
  obtain ⟨m', henqueue, rfl⟩ := Option.map_eq_some_iff.mp hput
  have hnodup := h.perm.nodup_iff.mp h.nodup
  cases hqueue : s.memory.fQueue b with
  | some queue =>
    -- the buffer is in the pool already
    have hmem := (h.represents.member b queue).mp hqueue
    have hout : (c, b) ∉ s.out := fun hc =>
      (List.nodup_append.mp hnodup).2.2 b (List.mem_map_of_mem hc) b hmem rfl
    rw [QueueMemory.enQueue, if_pos hqueue] at henqueue
    cases henqueue
    rw [List.erase_of_not_mem hout]
    exact ⟨l, h⟩
  | none =>
    obtain ⟨m'', hm, hrepresents⟩ := h.represents.enQueue () hqueue
    obtain rfl : m' = m'' := Option.some.inj (henqueue.symm.trans hm)
    have hnot : b ∉ l := by
      intro hmem
      rw [← h.represents.member b ()] at hmem
      simp [hqueue] at hmem
    have hc : (c, b) ∈ s.out := by
      obtain hout | hmem := List.mem_append.mp (h.perm.mem_iff.mp hb)
      · obtain ⟨⟨d, b'⟩, hd, rfl⟩ := List.mem_map.mp hout
        exact hok d hd
      · exact absurd hmem hnot
    rw [update_pool] at hrepresents
    refine ⟨l ++ [b], hrepresents, ?_, h.nodup, h.total, h.small, h.most⟩
    have hback := ((List.perm_cons_erase hc).map Prod.snd).append_right l
    have hlast := (List.perm_append_singleton b ((s.out.erase (c, b)).map Prod.snd ++ l)).symm
    rw [List.append_assoc] at hlast
    exact h.perm.trans (hback.trans hlast)

omit [DecidableEq C] in
theorem ok_of_sound_get (h : Inv s l) (hget : get s c b = some s') (hsound : Sound s')
    (hnil : s.memory.getLength () = 0) : s.fTotNumBuffers + 1 < kLengthSize := by
  obtain ⟨available, -, -, -, htotal, -⟩ := hsound
  have hsmall := h.small
  unfold BufferPool.get at hget
  rw [if_pos hnil] at hget
  split_ifs at hget with hb
  cases hget
  simp only [State.handOut, List.length_cons] at htotal
  rw [h.total] at htotal ⊢
  by_contra hfull
  have heq : s.allocated.length + 1 = kLengthSize := by omega
  rw [heq, Nat.mod_self] at htotal
  omega

/-- A buffer put back while another client has it is in two places. -/
theorem ok_of_sound_put (h : Inv s l) (hput : put s c b = some s') (hsound : Sound s') {d : C}
    (hd : (d, b) ∈ s.out) : (c, b) ∈ s.out := by
  obtain ⟨available, hmember, -, hnodup, -⟩ := hsound
  unfold BufferPool.put at hput
  rw [Option.ite_none_right_eq_some] at hput
  obtain ⟨hb, hput⟩ := hput
  obtain ⟨m', henqueue, rfl⟩ := Option.map_eq_some_iff.mp hput
  by_contra hc
  have hout : b ∈ s.out.map Prod.snd := List.mem_map_of_mem hd
  have hqueue : s.memory.fQueue b = none := by
    rw [Option.eq_none_iff_forall_ne_some]
    intro queue hqueue
    have hmem := (h.represents.member b queue).mp hqueue
    exact (List.nodup_append.mp (h.perm.nodup_iff.mp h.nodup)).2.2 b hout b hmem rfl
  obtain ⟨m'', hm, hrepresents⟩ := h.represents.enQueue () hqueue
  obtain rfl : m' = m'' := Option.some.inj (henqueue.symm.trans hm)
  have hin : b ∈ available := by
    rw [← hmember, hrepresents.member, Function.update_self]
    exact List.mem_append_right _ (List.mem_singleton.mpr rfl)
  rw [List.erase_of_not_mem hc] at hnodup
  exact (List.nodup_append.mp hnodup).2.2 b hout b hin rfl

omit [DecidableEq C] [DecidableEq B] in
theorem Fresh.inv (h : Fresh s) : Inv s [] := by
  obtain ⟨hmemory, htotal, hallocated, hout, hmost⟩ := h
  refine ⟨hmemory.represents, ?_, ?_, ?_, ?_, ?_⟩
  · rw [hallocated, hout]
    exact List.Perm.refl _
  · rw [hallocated]
    exact List.nodup_nil
  · rw [htotal, hallocated, List.length_nil]
  · rw [hallocated]
    exact Nat.two_pow_pos 32
  · rw [hmost, hallocated, List.length_nil]

end Inv

/-- Throughout a run of any clients no buffer is with two of them, or with one and in the pool,
and no more have been allocated than have been out at one time: if and only if no client puts
back a buffer that only another one has. -/
theorem sound_iff (fresh : Fresh s) (as : List (Action C B)) :
    (system C B).Keeps (fun _ _ s' => Sound s') s as ↔ (system C B).Meets Ok s as := by
  refine System.keeps_iff_meets (fun s => ∃ l, Inv s l) ?_ ?_ ⟨[], fresh.inv⟩ as
  · intro s a s' h hstep hok
    obtain ⟨l, h⟩ := h
    obtain ⟨l', h'⟩ : ∃ l', Inv s' l' := by
      cases a with
      | get c theNewBuf => exact h.get hstep hok
      | put c inBuffer => exact h.put hstep hok
    exact ⟨h'.sound, l', h'⟩
  · intro s a s' h hstep hsound
    obtain ⟨l, h⟩ := h
    cases a with
    | get c theNewBuf => exact ok_of_sound_get h hstep hsound
    | put c inBuffer => exact fun d hd => ok_of_sound_put h hstep hsound hd

/-- A buffer is put back twice, and only one client gets it then. -/
theorem sound_iff_putTwice :
    (system Bool Nat).Keeps (fun _ _ s' => Sound s') { memory := QueueMemory.emptyMemory }
      [.get true 7, .put true 7, .put true 7, .get true 8, .get false 8] := by
  have hfresh : Fresh (C := Bool) { memory := QueueMemory.emptyMemory } :=
    ⟨QueueMemory.emptyMemory_fresh, rfl, rfl, rfl, rfl⟩
  refine (sound_iff hfresh _).mpr ?_
  intro s₁ h₁
  refine ⟨fun _ => by decide, fun s₂ h₂ => ?_⟩
  obtain rfl := Option.some.inj h₁
  have hput (d : Bool) (hd : (d, 7) ∈ [(true, 7)]) : (true, 7) ∈ [(true, 7)] :=
    List.mem_singleton.mpr rfl
  refine ⟨hput, fun s₃ h₃ => ?_⟩
  obtain rfl := Option.some.inj h₂
  refine ⟨nofun, fun s₄ h₄ => ?_⟩
  obtain rfl := Option.some.inj h₃
  refine ⟨nofun, fun s₅ h₅ => ?_⟩
  obtain rfl := Option.some.inj h₄
  exact ⟨fun _ => by decide, trivial⟩

end CxxFramework.Core.BufferPool
