import Mathlib.Data.List.Basic
import Mathlib.Algebra.Order.Group.Nat

/-!
# A send queue with a pending copy

A queue of items to send, whose front has been copied out; the copy is being sent, and
the queue is shortened only when all of the copy is sent. `Agree` says that queue, copy
and the items sent so far account for all items accepted, in order.
-/

namespace CxxFramework.PendingCopy

variable {α : Type*}

/-- `sent` items of `copy`, a start of `queue`, are among the `wire` items; behind the
wire the accepted items go on with the rest of the queue. -/
structure Agree (accepted wire queue copy : List α) (sent : Nat) : Prop where
  front : copy <+: queue
  sent_le : sent ≤ copy.length
  accepted_eq : accepted = wire ++ queue.drop sent

variable {accepted wire queue copy : List α} {sent : Nat}

theorem Agree.start (h : Agree accepted wire queue copy sent) : wire <+: accepted :=
  ⟨_, h.accepted_eq.symm⟩

/-- New items go to the end of the queue. -/
theorem Agree.append (h : Agree accepted wire queue copy sent) (items : List α) :
    Agree (accepted ++ items) wire (queue ++ items) copy sent where
  front := h.front.trans (List.prefix_append _ _)
  sent_le := h.sent_le
  accepted_eq := by
    rw [h.accepted_eq, List.drop_append_of_le_length (h.sent_le.trans h.front.length_le),
      List.append_assoc]

/-- Without a pending copy, any start of the queue can be copied out. -/
theorem Agree.copyOut (h : Agree accepted wire queue [] sent) {front : List α}
    (hfront : front <+: queue) : Agree accepted wire queue front 0 where
  front := hfront
  sent_le := Nat.zero_le _
  accepted_eq := by
    have hsent : sent = 0 := Nat.le_zero.mp h.sent_le
    rw [h.accepted_eq, hsent]

/-- Some more items of the copy are sent. -/
theorem Agree.sendPart (h : Agree accepted wire queue copy sent) {n : Nat}
    (hn : n ≤ (copy.drop sent).length) :
    Agree accepted (wire ++ (copy.drop sent).take n) queue copy (sent + n) where
  front := h.front
  sent_le := by
    have := h.sent_le
    rw [List.length_drop] at hn
    omega
  accepted_eq := by
    obtain ⟨rest, rfl⟩ := h.front
    rw [h.accepted_eq, List.append_assoc, ← List.drop_drop,
      List.drop_append_of_le_length h.sent_le, List.drop_append_of_le_length hn,
      ← List.append_assoc ((copy.drop sent).take n), List.take_append_drop]

/-- All of the copy is sent, and leaves the queue. -/
theorem Agree.sendAll (h : Agree accepted wire queue copy sent) :
    Agree accepted (wire ++ copy.drop sent) (queue.drop copy.length) [] 0 where
  front := List.nil_prefix
  sent_le := le_rfl
  accepted_eq := by
    obtain ⟨rest, rfl⟩ := h.front
    rw [h.accepted_eq, List.drop_append_of_le_length h.sent_le, List.drop_left, List.append_assoc,
      List.drop_zero]

/-- Without a pending copy, a start of the queue can be sent directly. -/
theorem Agree.sendFront (h : Agree accepted wire queue [] sent) (n : Nat) :
    Agree accepted (wire ++ queue.take n) (queue.drop n) [] 0 where
  front := List.nil_prefix
  sent_le := le_rfl
  accepted_eq := by
    have hsent : sent = 0 := Nat.le_zero.mp h.sent_le
    rw [h.accepted_eq, hsent, List.drop_zero, List.append_assoc, List.drop_zero,
      List.take_append_drop]

/-- Past an empty queue, items can be accepted and sent at once. -/
theorem Agree.sendPast (h : Agree accepted wire [] copy sent) (items : List α) :
    Agree (accepted ++ items) (wire ++ items) [] copy sent where
  front := h.front
  sent_le := h.sent_le
  accepted_eq := by rw [h.accepted_eq, List.drop_nil, List.append_nil, List.append_nil]

/-- An empty queue leaves nothing to send. -/
theorem Agree.of_nil (h : Agree accepted wire [] copy sent) : copy = [] ∧ accepted = wire :=
  ⟨List.prefix_nil.mp h.front, by rw [h.accepted_eq, List.drop_nil, List.append_nil]⟩

end CxxFramework.PendingCopy
