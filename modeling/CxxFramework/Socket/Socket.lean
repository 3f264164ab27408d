import CxxFramework.Core.StringFormatter

/-!
# Sockets

`Socket::Send`, `Socket::WriteV` and `Socket::Read` on a connected stream socket. What
the kernel answers to each system call is an input: a send takes some of the bytes or
fails with an `errno`, and the bytes to be received come as a list of segments with
failures and the end of the connection between them.
-/

namespace CxxFramework.Net

open CxxFramework.Core

abbrev OS_Error := Int

def OS_NoErr : OS_Error := 0
def EAGAIN : OS_Error := 11
def ENOTCONN : OS_Error := 107
def EINPROGRESS : OS_Error := 115

/-- An error number. A call interrupted by a signal is repeated, and not seen here. -/
abbrev Errno := { errno : OS_Error // errno ≠ OS_NoErr }

def Errno.eagain : Errno := ⟨EAGAIN, by decide⟩

/-- The answer of the kernel to one `send` or `writev`: it takes `k + 1` bytes, or all
if there are fewer, or fails. -/
inductive SendOutcome where
  | sent (k : Nat)
  | failed (errno : Errno)
deriving DecidableEq, Repr

/-- What stands in the receive queue of a socket. A segment is not empty. -/
inductive RecvEvent where
  | segment (first : UInt8) (rest : Bytes)
  | failed (errno : Errno)
  | closed
deriving DecidableEq, Repr

structure Socket where
  /-- The bit `kBound` of `fState`. -/
  bound : Bool := true
  /-- The bit `kConnected` of `fState`. -/
  connected : Bool := true
  /-- The bytes the kernel has taken for sending. -/
  wire : Bytes := []
  /-- What `send` will report. At the end of the list it would block. -/
  outgoing : List SendOutcome := []
  /-- What `recv` will report. At the end of the list it would block. -/
  incoming : List RecvEvent := []
  /-- The bytes `recv` has handed over. -/
  received : Bytes := []
deriving DecidableEq, Repr

namespace Socket

/-- The result of a call: the error, `outLength` if it was written, and the socket. -/
structure SendResult where
  err : OS_Error
  outLengthSent : Option Nat
  socket : Socket
deriving DecidableEq, Repr

/-- `Socket::Send` and `Socket::WriteV`. Sending no bytes at all always succeeds. -/
def send (s : Socket) (inData : Bytes) : SendResult :=
  if !s.connected then ⟨ENOTCONN, none, s⟩
  else if inData = [] then ⟨OS_NoErr, some 0, s⟩
  else
    match s.outgoing with
    | [] => ⟨EAGAIN, none, s⟩
    | .sent k :: outgoing =>
      ⟨OS_NoErr, some (min (k + 1) inData.length),
        { s with wire := s.wire ++ inData.take (k + 1), outgoing }⟩
    | .failed errno :: outgoing =>
      let connected := errno = Errno.eagain
      ⟨errno, none, { s with connected, outgoing }⟩

/-- The number of bytes a send reports. -/
def SendResult.sent (r : SendResult) : Nat := r.outLengthSent.getD 0

/-- A send puts the reported number of bytes on the wire. -/
theorem send_wire (s : Socket) (inData : Bytes) :
    (s.send inData).socket.wire = s.wire ++ inData.take (s.send inData).sent ∧
      (s.send inData).sent ≤ inData.length := by
  unfold send SendResult.sent
  split_ifs
  · simp
  · simp
  · rcases s.outgoing with _ | ⟨k | errno, outgoing⟩
    · simp
    · simp [List.take_eq_take_iff]
    · simp

/-- A send without error takes a byte if there is one; one with an error takes none. -/
theorem send_err (s : Socket) (inData : Bytes) :
    ((s.send inData).err = OS_NoErr ∧ ((s.send inData).sent = 0 → inData = [])) ∨
      ((s.send inData).err ≠ OS_NoErr ∧ (s.send inData).sent = 0) := by
  unfold send SendResult.sent
  split_ifs with hconn hnil
  · exact .inr ⟨(by decide : ENOTCONN ≠ OS_NoErr), rfl⟩
  · exact .inl ⟨rfl, fun _ => hnil⟩
  · rcases s.outgoing with _ | ⟨k | errno, outgoing⟩
    · exact .inr ⟨Errno.eagain.property, rfl⟩
    · exact .inl ⟨rfl, by simp⟩
    · exact .inr ⟨errno.property, rfl⟩

theorem send_nil {s : Socket} (hconnected : s.connected = true) :
    s.send [] = ⟨OS_NoErr, some 0, s⟩ := by
  simp [send, hconnected]

/-- A send of which the kernel takes everything. -/
theorem send_all {s : Socket} {k : Nat} {outgoing : List SendOutcome} {inData : Bytes}
    (hconnected : s.connected = true) (hout : s.outgoing = .sent k :: outgoing)
    (hne : inData ≠ []) (hle : inData.length ≤ k + 1) :
    s.send inData =
      ⟨OS_NoErr, some inData.length, { s with wire := s.wire ++ inData, outgoing }⟩ := by
  simp [send, hconnected, hout, hne, min_eq_right hle, List.take_of_length_le hle]

/-- The next send takes nothing. -/
def refuses : List SendOutcome → Bool
  | .sent _ :: _ => false
  | .failed _ :: _ | [] => true

theorem send_refused (s : Socket) (inData : Bytes) (h : refuses s.outgoing = true) :
    (s.send inData).sent = 0 := by
  unfold send SendResult.sent
  split_ifs
  · rfl
  · rfl
  · rcases hout : s.outgoing with _ | ⟨k | errno, outgoing⟩
    · rfl
    · simp [hout, refuses] at h
    · rfl

/-! ## Receiving -/

/-- The result of a call: the error, the bytes received if there are any, and the
socket. -/
structure RecvResult where
  err : OS_Error
  data : Option Bytes
  socket : Socket
deriving DecidableEq, Repr

/-- The receive queue with bytes put back at its front. -/
def putBack : Bytes → List RecvEvent → List RecvEvent
  | [], incoming => incoming
  | first :: rest, incoming => .segment first rest :: incoming

/-- `Socket::Read`. If `recv` returns no byte, which it also does for a buffer of no
length when there are bytes to receive, the client counts as disconnected. -/
def read (s : Socket) (length : Nat) : RecvResult :=
  if !s.connected then ⟨ENOTCONN, none, s⟩
  else
    match s.incoming with
    | [] => ⟨EAGAIN, none, s⟩
    | .failed errno :: incoming =>
      let connected := errno = Errno.eagain
      ⟨errno, none, { s with connected, incoming }⟩
    | .closed :: _ => ⟨ENOTCONN, none, { s with connected := false }⟩
    | .segment first rest :: incoming =>
      if length = 0 then ⟨ENOTCONN, none, { s with connected := false }⟩
      else
        let data := (first :: rest).take length
        ⟨OS_NoErr, some data,
          { s with
            incoming := putBack ((first :: rest).drop length) incoming
            received := s.received ++ data }⟩

/-- A read hands over some bytes, no more than fit, or fails and hands over none. -/
theorem read_cases (s : Socket) (length : Nat) :
    ((s.read length).err ≠ OS_NoErr ∧ (s.read length).data = none ∧
        (s.read length).socket.received = s.received) ∨
      ∃ data, (s.read length).err = OS_NoErr ∧ (s.read length).data = some data ∧
        data ≠ [] ∧ data.length ≤ length ∧
        (s.read length).socket.received = s.received ++ data := by
  have hnot : ENOTCONN ≠ OS_NoErr := by decide
  unfold read
  cases s.connected with
  | false => exact .inl ⟨hnot, rfl, rfl⟩
  | true =>
    rcases s.incoming with _ | ⟨⟨first, rest⟩ | errno | _, incoming⟩
    · exact .inl ⟨Errno.eagain.property, rfl, rfl⟩
    · rcases Nat.eq_zero_or_pos length with rfl | hpos
      · exact .inl ⟨hnot, rfl, rfl⟩
      · have hne : length ≠ 0 := Nat.ne_of_gt hpos
        refine .inr ⟨(first :: rest).take length, ?_, ?_, by simp [hne], by simp, ?_⟩ <;> simp [hne]
    · exact .inl ⟨errno.property, rfl, rfl⟩
    · exact .inl ⟨hnot, rfl, rfl⟩

/-- The bytes that a receive queue holds. -/
def queued : List RecvEvent → Bytes
  | [] => []
  | .segment first rest :: incoming => first :: rest ++ queued incoming
  | .failed _ :: incoming | .closed :: incoming => queued incoming

theorem queued_putBack (data : Bytes) (incoming : List RecvEvent) :
    queued (putBack data incoming) = data ++ queued incoming := by
  cases data <;> rfl

/-- A read moves bytes from the queue to the bytes received. -/
theorem read_queued (s : Socket) (length : Nat) :
    (s.read length).socket.received ++ queued (s.read length).socket.incoming =
      s.received ++ queued s.incoming := by
  unfold read
  cases s.connected with
  | false => rfl
  | true =>
    rcases hincoming : s.incoming with _ | ⟨⟨first, rest⟩ | errno | _, incoming⟩
    · simp [hincoming]
    · rcases Nat.eq_zero_or_pos length with rfl | hpos
      · simp
      · have hne : length ≠ 0 := Nat.ne_of_gt hpos
        simp only [Bool.not_true, Bool.false_eq_true, if_false, hne, queued_putBack, queued]
        rw [List.append_assoc, ← List.append_assoc (List.take length _), List.take_append_drop]
    · simp [queued]
    · simp

theorem read_nil {s : Socket} (hconnected : s.connected = true) (h : s.incoming = [])
    (length : Nat) : s.read length = ⟨EAGAIN, none, s⟩ := by
  simp [read, hconnected, h]

theorem read_wouldBlock {s : Socket} {incoming : List RecvEvent} (hconnected : s.connected = true)
    (h : s.incoming = .failed .eagain :: incoming) (length : Nat) :
    s.read length = ⟨EAGAIN, none, { s with connected := true, incoming }⟩ := by
  simp [read, hconnected, h, Errno.eagain]

/-- A read takes what fits of the next segment, and leaves the rest of it. -/
theorem read_segment {s : Socket} {first : UInt8} {rest : Bytes} {incoming : List RecvEvent}
    (hconnected : s.connected = true) (h : s.incoming = .segment first rest :: incoming)
    {length : Nat} (hlength : length ≠ 0) :
    s.read length =
      ⟨OS_NoErr, some ((first :: rest).take length),
        { s with
          incoming := putBack ((first :: rest).drop length) incoming
          received := s.received ++ (first :: rest).take length }⟩ := by
  simp [read, hconnected, h, hlength]

/-- A read sends nothing. -/
@[simp] theorem read_wire (s : Socket) (length : Nat) : (s.read length).socket.wire = s.wire := by
  unfold read
  cases s.connected with
  | false => rfl
  | true =>
    rcases s.incoming with _ | ⟨⟨first, rest⟩ | errno | _, incoming⟩
    · rfl
    · cases length <;> rfl
    · rfl
    · rfl

/-- Two sockets at the same point of what there is to receive. -/
def SameInput (s t : Socket) : Prop := t.incoming = s.incoming ∧ t.received = s.received

theorem send_sameInput (s : Socket) (inData : Bytes) : SameInput s (s.send inData).socket := by
  unfold send
  split_ifs
  · exact ⟨rfl, rfl⟩
  · exact ⟨rfl, rfl⟩
  · split <;> exact ⟨rfl, rfl⟩

end Socket

end CxxFramework.Net
