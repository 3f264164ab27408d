import CxxFramework.Core.StringFormatter
import CxxFramework.Library.Buffer
import CxxFramework.Socket.Socket

/-!
# The buffer of a response stream

`HTTPResponseStream` and `HTTPClientResponseStream` buffer what is put into them. Of the bytes in
the buffer, the first `fBytesSentInBuffer` count as sent. Their `WriteV` is the same code over
the socket that each of them has.

## Main definitions

* `ResponseBuffer.writeV` — `WriteV`, with the outcome of the one `writev` it makes.
* `ResponseBuffer.Accounts` — what an account of the bytes has to allow, so that `WriteV` keeps it.
-/

namespace CxxFramework.Net

open CxxFramework.Core Buffer

/-- What `WriteV` does with data that could not be sent. -/
inductive SendType where
  | kDontBuffer
  | kAllOrNothing
  | kAlwaysBuffer
deriving DecidableEq, Repr

structure ResponseBuffer where
  formatter : StringFormatter
  fBytesSentInBuffer : Nat := 0
deriving DecidableEq, Repr

namespace ResponseBuffer

/-- The bytes in the buffer that do not count as sent. -/
def pending (b : ResponseBuffer) : Bytes := b.formatter.content.drop b.fBytesSentInBuffer

/-- The buffer after all of it was sent. -/
def emptied (b : ResponseBuffer) : ResponseBuffer :=
  { formatter := b.formatter.reset, fBytesSentInBuffer := 0 }

/-- The first part of `WriteV`: send the buffered data and the vectors with one `writev`.
The result is the error, the number of bytes of the vectors sent, the buffer and the socket. -/
def writeNow (b : ResponseBuffer) (fSocket : Socket) (inVec : List Bytes) :
    OS_Error × Nat × ResponseBuffer × Socket :=
  let amtInBuffer := b.formatter.getCurrentOffset - b.fBytesSentInBuffer
  if amtInBuffer > 0 then
    let r := fSocket.send (slice b.formatter.content b.fBytesSentInBuffer amtInBuffer ++
      inVec.flatten)
    if r.sent ≥ amtInBuffer then (r.err, r.sent - amtInBuffer, b.emptied, r.socket)
    else (r.err, 0, { b with fBytesSentInBuffer := b.fBytesSentInBuffer + r.sent }, r.socket)
  else if inVec ≠ [] then
    let r := fSocket.send inVec.flatten
    (r.err, r.sent, b, r.socket)
  else (OS_NoErr, 0, b, fSocket)

/-- The vectors that were not sent in full, without the bytes that were sent. Reading
past the last vector is a fault. -/
def skipSent : List Bytes → Nat → Option (List Bytes)
  | [], _ => none
  | v :: vs, theLengthSent =>
    if theLengthSent ≥ v.length then skipSent vs (theLengthSent - v.length)
    else some (v.drop theLengthSent :: vs)

/-- `WriteV`; `inVec` are the vectors after the reserved first one. The result is the error,
`outLengthSent` if it is written, the buffer and the socket. -/
def writeV (b : ResponseBuffer) (fSocket : Socket) (inVec : List Bytes) (inTotalLength : Nat)
    (inSendType : SendType) : Option (OS_Error × Option Nat × ResponseBuffer × Socket) :=
  let (theErr, theLengthSent, b, fSocket) := b.writeNow fSocket inVec
  if theErr ≠ OS_NoErr ∧ theErr ≠ EAGAIN then some (theErr, none, b, fSocket)
  else
    let fBytesWritten := (b.formatter.fBytesWritten + theLengthSent) % uint32Size
    let b := { b with formatter.fBytesWritten := fBytesWritten }
    if theLengthSent = inTotalLength then some (OS_NoErr, some theLengthSent, b, fSocket)
    else if inSendType = .kDontBuffer then some (theErr, some theLengthSent, b, fSocket)
    else if inSendType = .kAllOrNothing ∧ theLengthSent = 0 then
      some (EAGAIN, some theLengthSent, b, fSocket)
    else
      (skipSent inVec theLengthSent).bind fun rest =>
        (rest.foldlM ResizeableStringFormatter.put b.formatter).map fun formatter =>
          (OS_NoErr, some inTotalLength, { b with formatter }, fSocket)

/-! ## The one writev -/

theorem length_pending (b : ResponseBuffer) :
    b.pending.length = b.formatter.getCurrentOffset - b.fBytesSentInBuffer := List.length_drop

theorem slice_pending (b : ResponseBuffer) :
    slice b.formatter.content b.fBytesSentInBuffer
      (b.formatter.getCurrentOffset - b.fBytesSentInBuffer) = b.pending := by
  rw [← length_pending]
  exact List.take_of_length_le le_rfl

/-- What `writeNow` does, by how much of the buffered data the socket takes. -/
theorem writeNow_cases (b : ResponseBuffer) (fSocket : Socket) (inVec : List Bytes) :
    let r := fSocket.send (b.pending ++ inVec.flatten)
    (b.pending.length ≤ r.sent ∧ b.pending ≠ [] ∧
        b.writeNow fSocket inVec = (r.err, r.sent - b.pending.length, b.emptied, r.socket)) ∨
      (r.sent < b.pending.length ∧
        b.writeNow fSocket inVec =
          (r.err, 0, { b with fBytesSentInBuffer := b.fBytesSentInBuffer + r.sent }, r.socket)) ∨
      (b.pending = [] ∧ inVec ≠ [] ∧ b.writeNow fSocket inVec = (r.err, r.sent, b, r.socket)) ∨
      (b.pending = [] ∧ inVec = [] ∧ b.writeNow fSocket inVec = (OS_NoErr, 0, b, fSocket)) := by
  intro r
  have hamt := length_pending b
  by_cases hempty : b.pending = []
  · have hzero : ¬ b.formatter.getCurrentOffset - b.fBytesSentInBuffer > 0 := by
      rw [← hamt, hempty]
      simp
    by_cases hvec : inVec = []
    · exact .inr (.inr (.inr ⟨hempty, hvec, by simp [writeNow, hzero, hvec]⟩))
    · have hr : r = fSocket.send inVec.flatten := by simp only [r, hempty, List.nil_append]
      exact .inr (.inr (.inl ⟨hempty, hvec, by simp [writeNow, hzero, hvec, hr]⟩))
  · have hpos : b.formatter.getCurrentOffset - b.fBytesSentInBuffer > 0 := by
      rw [← hamt]
      exact List.length_pos_of_ne_nil hempty
    by_cases hall : b.pending.length ≤ r.sent
    · refine .inl ⟨hall, hempty, ?_⟩
      simp only [writeNow, hpos, if_true, slice_pending]
      rw [if_pos (by rw [← hamt]; exact hall), ← hamt]
    · refine .inr (.inl ⟨not_le.mp hall, ?_⟩)
      simp only [writeNow, hpos, if_true, slice_pending]
      rw [if_neg (by rw [← hamt]; exact hall)]

/-- The number of bytes of the vectors that a `writev` takes. -/
def lengthSent (b : ResponseBuffer) (fSocket : Socket) (inVec : List Bytes) : Nat :=
  (fSocket.send (b.pending ++ inVec.flatten)).sent - b.pending.length

theorem skipSent_spec {inVec rest : List Bytes} {n : Nat} (h : skipSent inVec n = some rest) :
    rest.flatten = inVec.flatten.drop n := by
  fun_induction skipSent inVec n with
  | case1 => simp at h
  | case2 v vs n hle ih =>
    rw [ih h, List.flatten_cons, List.drop_append, List.drop_of_length_le hle]
    simp
  | case3 v vs n hlt =>
    obtain rfl := Option.some.inj h
    rw [List.flatten_cons, List.flatten_cons, List.drop_append_of_le_length (by omega)]

/-- A vector that was not sent in full is found exactly if there is one. -/
theorem skipSent_isSome_iff (inVec : List Bytes) (n : Nat) :
    (skipSent inVec n).isSome ↔ n < inVec.flatten.length := by
  fun_induction skipSent inVec n with
  | case1 => simp
  | case2 v vs n hle ih =>
    rw [ih, List.flatten_cons, List.length_append]
    omega
  | case3 v vs n hlt =>
    rw [List.flatten_cons, List.length_append]
    exact iff_of_true rfl (by omega)

/-! ## The account of the bytes -/

/-- An account of the bytes accepted does not depend on the formatter's counter, and counts the
bytes that are put into the buffer. -/
structure Accounts (Inv : ResponseBuffer → Socket → Bytes → Prop) : Prop where
  countBytes {b : ResponseBuffer} {fSocket : Socket} {accepted : Bytes} :
    Inv b fSocket accepted → ∀ fBytesWritten,
      Inv { b with formatter.fBytesWritten := fBytesWritten } fSocket accepted
  put {b : ResponseBuffer} {fSocket : Socket} {accepted buffer : Bytes}
      {formatter : StringFormatter} : Inv b fSocket accepted →
    ResizeableStringFormatter.put b.formatter buffer = some formatter →
      Inv { b with formatter } fSocket (accepted ++ buffer)

variable {Inv : ResponseBuffer → Socket → Bytes → Prop} {b b' : ResponseBuffer}
  {fSocket fSocket' : Socket} {accepted : Bytes}

theorem Accounts.putAll (account : Accounts Inv) (h : Inv b fSocket accepted) {rest : List Bytes}
    {formatter : StringFormatter}
    (hput : rest.foldlM ResizeableStringFormatter.put b.formatter = some formatter) :
    Inv { b with formatter } fSocket (accepted ++ rest.flatten) := by
  induction rest generalizing b accepted with
  | nil =>
    obtain rfl : b.formatter = formatter := by simpa using hput
    simpa using h
  | cons v vs ih =>
    obtain ⟨f, hf, hrest⟩ : ∃ f, ResizeableStringFormatter.put b.formatter v = some f ∧
        vs.foldlM ResizeableStringFormatter.put f = some formatter := by
      simpa [List.foldlM_cons, Option.bind_eq_some_iff] using hput
    have h' := ih (account.put h hf) hrest
    rwa [List.append_assoc] at h'

/-- If the account is right behind the `writev`, and an error means that none of the vectors was
sent, then it is right behind `WriteV`, which has accepted the bytes it reports as sent. -/
theorem Accounts.writeV (account : Accounts Inv) {inVec : List Bytes} {inSendType : SendType}
    {err theErr : OS_Error} {n : Nat} {b₁ : ResponseBuffer} {fSocket₁ : Socket}
    {outLengthSent : Option Nat} (hnow : b.writeNow fSocket inVec = (err, n, b₁, fSocket₁))
    (hinv : Inv b₁ fSocket₁ (accepted ++ inVec.flatten.take n)) (hzero : err ≠ OS_NoErr → n = 0)
    (hw : b.writeV fSocket inVec inVec.flatten.length inSendType =
      some (theErr, outLengthSent, b', fSocket')) :
    Inv b' fSocket' (accepted ++ inVec.flatten.take (outLengthSent.getD 0)) := by
  simp only [ResponseBuffer.writeV, hnow] at hw
  have hcounted := account.countBytes hinv ((b₁.formatter.fBytesWritten + n) % uint32Size)
  split_ifs at hw with hbad htotal hdont hall
  · obtain ⟨rfl, rfl, rfl, rfl⟩ := by simpa using hw
    have hn : n = 0 := hzero hbad.1
    simpa [hn] using hinv
  · obtain ⟨rfl, rfl, rfl, rfl⟩ := by simpa using hw
    exact hcounted
  · obtain ⟨rfl, rfl, rfl, rfl⟩ := by simpa using hw
    exact hcounted
  · obtain ⟨rfl, rfl, rfl, rfl⟩ := by simpa using hw
    exact hcounted
  · -- the caller should consider all data sent
    obtain ⟨rest, hskip, hput⟩ := Option.bind_eq_some_iff.mp hw
    obtain ⟨formatter, hfold, heq⟩ := Option.map_eq_some_iff.mp hput
    obtain ⟨rfl, rfl, rfl, rfl⟩ := by simpa only [Prod.mk.injEq] using heq
    have h' := account.putAll hcounted hfold
    rw [skipSent_spec hskip, List.append_assoc, List.take_append_drop] at h'
    rw [Option.getD_some, List.take_length]
    exact h'

end ResponseBuffer

end CxxFramework.Net
