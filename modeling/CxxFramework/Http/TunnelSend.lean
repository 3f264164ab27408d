import CxxFramework.Http.Base64StreamRun
import CxxFramework.Library.Transition
import CxxFramework.Socket.HTTPClientSend

/-!
# Messages over the HTTP tunnel

Runs of `HTTPClientSocket::SendV`, with calls of `Read` between them, and what the server
decodes from the connection. A message is sent again until it is accepted. The POST goes out
once, and behind it the characters of each message, however little the kernel takes at a time.

`Read` shares the send buffer with `SendV`. It leaves it alone if the answer to the GET is there
and nothing is pending.

## Main definitions

* `HTTPTunnelSocket.system` — the calls on one socket, with what was accepted.
* `HTTPTunnelSocket.Ok` — the condition on a call.
* `HTTPTunnelSocket.OnWire` — the POST connection carries the POST and the messages.
-/

namespace CxxFramework.Net

open CxxFramework.Core Transition

/-- A send that takes something, or would block. -/
def SendOutcome.Blocks : SendOutcome → Prop
  | .sent _ => True
  | .failed errno => errno = Errno.eagain

/-- No send fails but by blocking. -/
def OnlyBlocks (outgoing : List SendOutcome) : Prop := ∀ outcome ∈ outgoing, outcome.Blocks

instance : (outcome : SendOutcome) → Decidable outcome.Blocks
  | .sent _ => isTrue trivial
  | .failed _ => inferInstanceAs (Decidable (_ = _))

instance (outgoing : List SendOutcome) : Decidable (OnlyBlocks outgoing) :=
  List.decidableBAll _ outgoing

namespace ClientSocket

variable {c : ClientSocket} {s : Socket} {text : Bytes}

theorem HoldsText.unsent (h : c.HoldsText text) : c.unsent = text.drop c.fSentLength := by
  rw [ClientSocket.unsent, h.len, h.content]

/-- The connection is up. -/
structure IsUp (s : Socket) : Prop where
  bound : s.bound = true
  connected : s.connected = true

/-- A connection of which no send fails stays up. -/
theorem send_isUp (hblocks : OnlyBlocks s.outgoing) (hup : IsUp s) (inData : Bytes) :
    IsUp (s.send inData).socket ∧ OnlyBlocks (s.send inData).socket.outgoing := by
  have hnot : ¬ (!s.connected) = true := by simp [hup.connected]
  unfold Socket.send
  rw [if_neg hnot]
  split_ifs
  · exact ⟨hup, hblocks⟩
  · rcases hout : s.outgoing with _ | ⟨k | errno, outgoing⟩
    · exact ⟨hup, hblocks⟩
    · exact ⟨⟨hup.bound, hup.connected⟩,
        fun o hmem => hblocks o (hout ▸ List.mem_cons_of_mem _ hmem)⟩
    · have heagain : errno = Errno.eagain :=
        hblocks (.failed errno) (hout ▸ List.mem_cons_self ..)
      exact ⟨⟨hup.bound, decide_eq_true heagain⟩,
        fun o hmem => hblocks o (hout ▸ List.mem_cons_of_mem _ hmem)⟩

theorem sendLoop_isUp (hblocks : OnlyBlocks s.outgoing) (hup : IsUp s) :
    IsUp (sendLoop c s).2.2 := by
  fun_induction sendLoop c s with
  | case1 c s r c' hpos ih =>
    obtain ⟨hup', hblocks'⟩ := send_isUp hblocks hup c.unsent
    exact ih hblocks' hup'
  | case2 c s r c' hpos => exact (send_isUp hblocks hup c.unsent).1

theorem sendSendBuffer_isUp (hblocks : OnlyBlocks s.outgoing) (hup : IsUp s) :
    IsUp (sendSendBuffer c s).2.2 := by
  have hloop := sendLoop_isUp (c := c) hblocks hup
  dsimp only [sendSendBuffer]
  split_ifs
  · exact hup
  · exact hloop
  · exact hloop

/-- A text goes out from where it was left, in part or to its end. -/
theorem sendSendBuffer_text (htext : c.HoldsText text) (hne : text ≠ []) :
    ((sendSendBuffer c s).1 = OS_NoErr ∧ (sendSendBuffer c s).2.1.HoldsText [] ∧
        (sendSendBuffer c s).2.1.fSentLength = 0 ∧
        (sendSendBuffer c s).2.2.wire = s.wire ++ text.drop c.fSentLength) ∨
      ((sendSendBuffer c s).1 ≠ OS_NoErr ∧ (sendSendBuffer c s).2.1.HoldsText text ∧
        (sendSendBuffer c s).2.2.wire ++ text.drop (sendSendBuffer c s).2.1.fSentLength =
          s.wire ++ text.drop c.fSentLength) := by
  have hlen : c.sendBufferLen ≠ 0 := by
    rw [htext.len]
    exact Nat.ne_of_gt (List.length_pos_iff.mpr hne)
  have hunsent := htext.unsent
  rcases sendSendBuffer_spec c s hlen with ⟨herr, hclient, hwire⟩ | ⟨herr, j, -, hclient, hwire⟩
  · refine .inl ⟨herr, ?_, by rw [hclient], by rw [hwire, hunsent]⟩
    rw [hclient]
    exact ⟨htext.size, rfl, List.take_zero, List.not_mem_nil⟩
  · refine .inr ⟨herr, ?_, ?_⟩
    · rw [hclient]
      exact ⟨htext.size, htext.len, htext.content, htext.noZero⟩
    · rw [hwire, hclient, hunsent, List.append_assoc, ← List.drop_drop, List.take_append_drop]

theorem connect_of_isUp (hup : IsUp s) (outcome : ConnectOutcome) :
    c.connect s outcome = (OS_NoErr, c, s) := by
  simp [connect, openSocket, hup.bound, hup.connected]

/-- Where there is no connection, there is one afterwards, or the socket was not opened. -/
theorem connect_of_down (hdown : s.connected = false) (outcome : ConnectOutcome) :
    (c.connect s outcome).2.2.outgoing = s.outgoing ∧
      (IsUp (c.connect s outcome).2.2 ∨
        (c.connect s outcome).2.2.connected = false ∧ (c.connect s outcome).1 ≠ OS_NoErr) := by
  unfold connect openSocket
  cases hbound : s.bound with
  | true =>
    simp only [hdown, ne_eq, not_true_eq_false, if_false, if_true, Bool.false_eq_true]
    split_ifs <;> exact ⟨rfl, .inl ⟨hbound, rfl⟩⟩
  | false =>
    by_cases hopen : outcome.openErr = OS_NoErr
    · simp only [hopen, hdown, ne_eq, not_true_eq_false, if_false, Bool.false_eq_true]
      split_ifs <;> exact ⟨rfl, .inl ⟨rfl, rfl⟩⟩
    · simp only [hopen, ne_eq, not_false_eq_true, if_true, if_false, Bool.false_eq_true]
      exact ⟨trivial, .inr ⟨hdown, trivial⟩⟩

end ClientSocket

/-- Any number of calls. -/
theorem Base64RequestStream.Sound.calls {state : Base64RequestStream.State}
    (h : Base64RequestStream.Sound inVec state) (n : Nat) :
    ∃ t, Base64RequestStream.calls n state = some t ∧ Base64RequestStream.Sound inVec t := by
  induction n generalizing state with
  | zero => exact ⟨state, rfl, h⟩
  | succ n ih =>
    obtain ⟨err, stream, socket, hread, hnext⟩ := h.call
    obtain ⟨t, ht, hsound⟩ := ih hnext
    exact ⟨t, by rw [Base64RequestStream.calls, hread]; exact ht, hsound⟩

namespace HTTPTunnelSocket

/-! ## Runs -/

/-- A socket with the messages that were accepted, and the one that is pending. -/
structure Sender where
  socket : HTTPTunnelSocket
  accepted : List (List Bytes) := []
  pending : Option (List Bytes) := none

inductive SenderAction where
  /-- A call of `SendV`, with what connecting and sending will report. -/
  | sendV (inVec : List Bytes) (outcome : ConnectOutcome) (outgoing : List SendOutcome)
  /-- A call of `Read` into a buffer. -/
  | read (inBuffer : Bytes) (outcome : ConnectOutcome)

/-- The POST connection with the answers of the kernel to the next sends. -/
def answering (h : HTTPTunnelSocket) (outgoing : List SendOutcome) : HTTPTunnelSocket :=
  { h with fPostSocket := some { h.postSocket with outgoing } }

/-- The sender after a call of `SendV`. -/
def Sender.after (s : Sender) (inVec : List Bytes) (result : OS_Error × HTTPTunnelSocket) :
    Sender :=
  if result.1 = OS_NoErr then { socket := result.2, accepted := s.accepted ++ [inVec] }
  else { s with socket := result.2, pending := some inVec }

/-- `none` stands for an access outside a buffer. -/
def nextSender (s : Sender) : SenderAction → Option Sender
  | .sendV inVec outcome outgoing =>
    ((s.socket.answering outgoing).sendV inVec outcome).map (s.after inVec)
  | .read inBuffer outcome =>
    (s.socket.toHTTPClientSocket.read inBuffer 0 outcome).map fun (_, _, _, h) =>
      { s with socket.toHTTPClientSocket := h }

/-- A new socket, or one that has received the answer to its GET. -/
def FreshSender (s : Sender) : Prop :=
  s.socket.client.fSendBuf.length = kSendBufferLen + 1 ∧ s.socket.client.fSentLength = 0 ∧
    s.socket.client.sendBufferLen = 0 ∧ s.socket.fPostSocket = none ∧ s.accepted = [] ∧
      s.pending = none

abbrev system : System Sender SenderAction := .ofPartial FreshSender nextSender

/-- A message that is pending is sent again, and no send fails but by blocking. `Read` is called
when nothing is pending, and the GET is answered. -/
def Ok (s : Sender) : SenderAction → Prop
  | .sendV inVec _ outgoing => (∀ v ∈ s.pending, inVec = v) ∧ OnlyBlocks outgoing
  | .read _ _ => s.pending = none ∧ s.socket.fGetSocket.connected = true

/-- The characters of messages. -/
def characters (messages : List (List Bytes)) : Bytes :=
  HTTPClientSocket.encodeVec [] messages.flatten

/-- The POST connection carries a start of the POST and the messages, and all of them if none is
pending. -/
def OnWire (s : Sender) : Prop :=
  s.socket.postSocket.wire <+:
      s.socket.postText ++ characters (s.accepted ++ s.pending.toList) ∧
    (s.pending = none → s.accepted ≠ [] →
      s.socket.postSocket.wire = s.socket.postText ++ characters s.accepted)

/-! ## What holds between the calls -/

/-- There is no connection, or it carries all that was accepted and a part of the message that
is pending. -/
inductive Carrying (s : Sender) : Prop where
  | down (hdown : s.socket.postSocket.connected = false) (hwire : s.socket.postSocket.wire = [])
      (hsize : s.socket.client.fSendBuf.length = kSendBufferLen + 1)
      (hsent : s.socket.client.fSentLength = 0)
      (hempty : s.pending = none → s.socket.client.sendBufferLen = 0) (haccepted : s.accepted = [])
  | idle (hup : ClientSocket.IsUp s.socket.postSocket) (hempty : s.socket.client.HoldsText [])
      (hsent : s.socket.client.fSentLength = 0) (hpending : s.pending = none)
      (hwire : s.socket.postSocket.wire = s.socket.postText ++ characters s.accepted)
  | busy (hup : ClientSocket.IsUp s.socket.postSocket) {text : Bytes}
      (htext : s.socket.client.HoldsText text) (hne : text ≠ []) {message : List Bytes}
      (hpending : s.pending = some message)
      (hwire : s.socket.postSocket.wire ++ text.drop s.socket.client.fSentLength =
        s.socket.postText ++ characters (s.accepted ++ [message]))

variable {s s' : Sender} {a : SenderAction} {h : HTTPTunnelSocket} {inVec : List Bytes}
  {text : Bytes}

theorem characters_append (l l' : List (List Bytes)) :
    characters (l ++ l') = characters l ++ characters l' := by
  simp only [characters, HTTPClientSocket.encodeVec_eq List.not_mem_nil, List.nil_append,
    List.flatten_append, List.map_append]

theorem encodeVec_eq_characters (text : Bytes) (hzero : 0 ∉ text) (inVec : List Bytes) :
    HTTPClientSocket.encodeVec text inVec = text ++ characters [inVec] := by
  simp only [characters, HTTPClientSocket.encodeVec_eq hzero,
    HTTPClientSocket.encodeVec_eq List.not_mem_nil, List.nil_append, List.flatten_singleton]

theorem Carrying.onWire (h : Carrying s) : OnWire s := by
  cases h with
  | down hdown hwire hsize hsent hempty haccepted =>
    exact ⟨hwire ▸ List.nil_prefix, fun _ hne => absurd haccepted hne⟩
  | idle hup hempty hsent hpending hwire =>
    have hall : s.socket.postSocket.wire =
        s.socket.postText ++ characters (s.accepted ++ s.pending.toList) := by
      rw [hwire, hpending, Option.toList_none, List.append_nil]
    exact ⟨hall ▸ List.prefix_refl _, fun _ _ => hwire⟩
  | busy hup htext hne hpending hwire =>
    refine ⟨?_, fun hnone => nomatch hpending.symm.trans hnone⟩
    rw [hpending, Option.toList_some, ← hwire]
    exact List.prefix_append ..

theorem encodeVec_fSentLength {c c' : ClientSocket} {inVec : List Bytes}
    (h : c.encodeVec inVec = some c') : c'.fSentLength = c.fSentLength := by
  induction inVec generalizing c with
  | nil =>
    obtain rfl : c = c' := Option.some.inj h
    rfl
  | cons iov inVec ih =>
    obtain ⟨c₁, hencode, hrest⟩ := Option.bind_eq_some_iff.mp h
    obtain ⟨fSendBuf, hwrite, rfl⟩ := Option.map_eq_some_iff.mp hencode
    have hsame := ih (show ClientSocket.encodeVec _ inVec = some c' from hrest)
    exact hsame

/-- What a call does once the connection is up and the buffer holds what is left to send. -/
theorem transmit (hup : ClientSocket.IsUp h.postSocket) (hblocks : OnlyBlocks h.postSocket.outgoing)
    (htext : h.client.HoldsText text) (hne : text ≠ [])
    (hwire : h.postSocket.wire ++ text.drop h.client.fSentLength =
      h.postText ++ characters (s.accepted ++ [inVec])) :
    let sent := h.client.sendSendBuffer h.postSocket
    Carrying (s.after inVec
      (sent.1, { h with client := sent.2.1, fPostSocket := some sent.2.2 })) := by
  have hup' := ClientSocket.sendSendBuffer_isUp (c := h.client) hblocks hup
  dsimp only
  rcases ClientSocket.sendSendBuffer_text (s := h.postSocket) htext hne with
    ⟨herr, hholds, hsent, hout⟩ | ⟨herr, hholds, hout⟩
  · rw [Sender.after, if_pos herr]
    exact .idle hup' hholds hsent rfl (hout.trans hwire)
  · rw [Sender.after, if_neg herr]
    exact .busy hup' hholds hne rfl (hout.trans hwire)

/-- With nothing to send, the call succeeds at once. -/
theorem transmit_nothing (hup : ClientSocket.IsUp h.postSocket) (hempty : h.client.HoldsText [])
    (hsent : h.client.fSentLength = 0)
    (hwire : h.postSocket.wire = h.postText ++ characters (s.accepted ++ [inVec])) :
    let sent := h.client.sendSendBuffer h.postSocket
    Carrying (s.after inVec
      (sent.1, { h with client := sent.2.1, fPostSocket := some sent.2.2 })) := by
  have hnone : h.client.sendSendBuffer h.postSocket = (OS_NoErr, h.client, h.postSocket) :=
    if_pos hempty.len
  dsimp only
  rw [hnone, Sender.after, if_pos rfl]
  exact .idle hup hempty hsent rfl hwire

/-- The POST and the message are in the buffer, where there is no connection. -/
theorem bringUpPost_down (hdown : h.postSocket.connected = false)
    (hsize : h.client.fSendBuf.length = kSendBufferLen + 1) {h' : HTTPTunnelSocket}
    (hbring : h.bringUpPost inVec = some h') :
    h'.client.HoldsText (h.postText ++ characters [inVec]) ∧
      h'.client.fSentLength = h.client.fSentLength ∧ h'.postSocket = h.postSocket ∧
        h'.postText = h.postText := by
  rw [bringUpPost, hdown, if_neg Bool.false_ne_true] at hbring
  obtain ⟨formatted, hformat, hencode⟩ := Option.bind_eq_some_iff.mp hbring
  have hpost := formatPost_holdsText hsize hformat
  obtain ⟨fSendBuf, hwrite, rfl⟩ := Option.map_eq_some_iff.mp hformat
  obtain ⟨client, hclient, rfl⟩ := Option.map_eq_some_iff.mp hencode
  have htext := hpost.encodeVec hclient
  rw [encodeVec_eq_characters _ (zero_notMem_postText h)] at htext
  have hsame := encodeVec_fSentLength hclient
  exact ⟨htext, hsame, rfl, rfl⟩

/-- A call over a new connection sends the POST, and the message behind it. -/
theorem sendV_down (hdown : s.socket.postSocket.connected = false)
    (hwire : s.socket.postSocket.wire = [])
    (hsize : s.socket.client.fSendBuf.length = kSendBufferLen + 1)
    (hsent : s.socket.client.fSentLength = 0) (haccepted : s.accepted = [])
    {outcome : ConnectOutcome} {outgoing : List SendOutcome} (hblocks : OnlyBlocks outgoing)
    {result : OS_Error × HTTPTunnelSocket}
    (hcall : (s.socket.answering outgoing).sendV inVec outcome = some result) :
    Carrying (s.after inVec result) := by
  obtain ⟨h, hbring, hrest⟩ := Option.bind_eq_some_iff.mp hcall
  obtain ⟨htext, hzero, hpost, hsame⟩ := bringUpPost_down (h := s.socket.answering outgoing)
    hdown hsize hbring
  have hne : s.socket.postText ++ characters [inVec] ≠ [] := fun hnil =>
    absurd (length_postText_pos s.socket) (by simp [(List.append_eq_nil_iff.mp hnil).1])
  have hdown' : h.postSocket.connected = false := hpost ▸ hdown
  have hwire' : h.postSocket.wire = [] := hpost ▸ hwire
  obtain ⟨hconnectWire, fEventMask, hclient⟩ := h.client.connect_spec h.postSocket outcome
  obtain ⟨houtgoing, hconnect⟩ :=
    ClientSocket.connect_of_down (c := h.client) (s := h.postSocket) hdown' outcome
  have htext' := holdsText_connect htext h.postSocket outcome
  have hzero' : (h.client.connect h.postSocket outcome).2.1.fSentLength = 0 := by
    rw [hclient]
    exact hzero.trans hsent
  have hall : (h.client.connect h.postSocket outcome).2.2.wire ++
      (s.socket.postText ++ characters [inVec]).drop
        (h.client.connect h.postSocket outcome).2.1.fSentLength =
      h.postText ++ characters (s.accepted ++ [inVec]) := by
    rw [hconnectWire, hwire', hzero', haccepted, hsame]
    rfl
  have hholds : (h.client.connect h.postSocket outcome).2.1.sendBufferLen ≠ 0 := by
    rw [htext'.len]
    exact Nat.ne_of_gt (List.length_pos_iff.mpr hne)
  have hblocks' : OnlyBlocks (h.client.connect h.postSocket outcome).2.2.outgoing := by
    rw [houtgoing, hpost]
    exact hblocks
  rw [hwire'] at hconnectWire
  clear hclient houtgoing
  generalize h.client.connect h.postSocket outcome = connected at *
  obtain ⟨err, client, post⟩ := connected
  dsimp only at hrest
  split_ifs at hrest with herr
  · cases hrest
    rw [Sender.after, if_neg herr]
    rcases hconnect with hup | ⟨hstill, -⟩
    · exact .busy hup htext' hne rfl hall
    · exact .down hstill hconnectWire htext'.size hzero' nofun haccepted
  · cases hrest
    have hup : ClientSocket.IsUp post := hconnect.resolve_right fun h => herr h.2
    exact transmit (h := { h with client, fPostSocket := some post }) hup hblocks' htext' hne hall

theorem sendV_carrying (hc : Carrying s) {outcome : ConnectOutcome}
    {outgoing : List SendOutcome} (hsame : ∀ v ∈ s.pending, inVec = v)
    (hblocks : OnlyBlocks outgoing) {result : OS_Error × HTTPTunnelSocket}
    (hcall : (s.socket.answering outgoing).sendV inVec outcome = some result) :
    Carrying (s.after inVec result) := by
  have hbring (hup : ClientSocket.IsUp s.socket.postSocket) :
      (s.socket.answering outgoing).bringUpPost inVec = some (s.socket.answering outgoing) :=
    if_pos hup.connected
  cases hc with
  | down hdown hwire hsize hsent hempty haccepted =>
    exact sendV_down hdown hwire hsize hsent haccepted hblocks hcall
  | idle hup hempty hsent hpending hwire =>
    have hup' : ClientSocket.IsUp (s.socket.answering outgoing).postSocket := ⟨hup.1, hup.2⟩
    have hlen : (s.socket.answering outgoing).client.sendBufferLen = 0 := hempty.len
    rw [sendV, hbring hup, Option.bind_some, ClientSocket.connect_of_isUp hup'] at hcall
    simp only [ne_eq, not_true_eq_false, if_false, if_pos hlen] at hcall
    obtain ⟨h, hencode, rfl⟩ := Option.map_eq_some_iff.mp hcall
    obtain ⟨client, hclient, rfl⟩ := Option.map_eq_some_iff.mp hencode
    have htext := hempty.encodeVec hclient
    rw [encodeVec_eq_characters [] List.not_mem_nil, List.nil_append] at htext
    have hsent' : client.fSentLength = 0 := (encodeVec_fSentLength hclient).trans hsent
    have hall : s.socket.postSocket.wire ++ (characters [inVec]).drop client.fSentLength =
        s.socket.postText ++ characters (s.accepted ++ [inVec]) := by
      rw [hwire, hsent', characters_append, List.drop_zero, List.append_assoc]
    by_cases hne : characters [inVec] = []
    · rw [hne] at htext
      rw [hne, List.drop_nil, List.append_nil] at hall
      exact transmit_nothing (h := { s.socket.answering outgoing with client })
        hup' htext hsent' hall
    · exact transmit (h := { s.socket.answering outgoing with client }) hup' hblocks htext hne hall
  | busy hup htext hne hpending hwire =>
    have hup' : ClientSocket.IsUp (s.socket.answering outgoing).postSocket := ⟨hup.1, hup.2⟩
    rw [sendV, hbring hup, Option.bind_some, ClientSocket.connect_of_isUp hup'] at hcall
    obtain rfl := hsame _ hpending
    have hholds : (s.socket.answering outgoing).client.sendBufferLen ≠ 0 := by
      rw [show (s.socket.answering outgoing).client = s.socket.client from rfl, htext.len]
      exact Nat.ne_of_gt (List.length_pos_iff.mpr hne)
    simp only [ne_eq, not_true_eq_false, if_false, hholds, Option.map_some] at hcall
    cases hcall
    exact transmit (h := s.socket.answering outgoing) hup' hblocks htext hne hwire

/-- `Read` on a connection with an answered GET leaves the send buffer alone. -/
theorem read_keeps {g g' : HTTPClientSocket} (hup : g.fGetSocket.connected = true)
    (hempty : g.client.sendBufferLen = 0) (hsent : g.client.fSentLength = 0) {inBuffer : Bytes}
    {outcome : ConnectOutcome} {theErr : OS_Error} {n : Nat} {buffer : Bytes}
    (hread : g.read inBuffer 0 outcome = some (theErr, n, buffer, g')) :
    ∃ fEventMask fGetSocket,
      g' = { g with client := { g.client with fEventMask }, fGetSocket } := by
  have hconnect : ∃ err fGetSocket, g.client.connect g.fGetSocket outcome =
      (err, g.client, fGetSocket) := by
    unfold ClientSocket.connect ClientSocket.openSocket
    cases hbound : g.fGetSocket.bound <;> by_cases hopen : outcome.openErr = OS_NoErr <;>
      simp [hup, hopen]
  obtain ⟨err, fGetSocket, hconnect⟩ := hconnect
  have hbring : g.bringUp outcome = some (err, { g with fGetSocket }) := by
    simp only [HTTPClientSocket.bringUp, hup, if_true, Option.map_some, HTTPClientSocket.sendGet,
      hconnect, hempty, Nat.lt_irrefl, gt_iff_lt, if_false]
    split_ifs with herr
    · rfl
    · rw [not_not.mp herr]
  rw [HTTPClientSocket.read, hbring, Option.bind_some] at hread
  dsimp only at hread
  split_ifs at hread with hassert hopens herr hpending
  · cases hread
    exact ⟨_, _, rfl⟩
  · exact absurd hsent (Nat.ne_of_gt hpending)
  · obtain ⟨mem, -, hread⟩ := Option.map_eq_some_iff.mp hread
    cases hread
    exact ⟨_, _, rfl⟩

theorem next_carrying (hc : Carrying s) (hok : Ok s a) (hstep : nextSender s a = some s') :
    Carrying s' := by
  cases a with
  | sendV inVec outcome outgoing =>
    obtain ⟨result, hcall, rfl⟩ := Option.map_eq_some_iff.mp hstep
    exact sendV_carrying hc hok.1 hok.2 hcall
  | read inBuffer outcome =>
    obtain ⟨hnone, hup⟩ := hok
    obtain ⟨⟨theErr, n, buffer, g⟩, hread, rfl⟩ := Option.map_eq_some_iff.mp hstep
    cases hc with
    | down hdown hwire hsize hsent hempty haccepted =>
      obtain ⟨mask, get, rfl⟩ := read_keeps hup (hempty hnone) hsent hread
      exact .down hdown hwire hsize hsent hempty haccepted
    | idle hpost hempty hsent hpending hwire =>
      obtain ⟨mask, get, rfl⟩ := read_keeps hup hempty.len hsent hread
      exact .idle hpost ⟨hempty.size, hempty.len, hempty.content, hempty.noZero⟩
        hsent hpending hwire
    | busy hpost htext hne hpending hwire => exact nomatch hpending.symm.trans hnone

theorem FreshSender.carrying (h : FreshSender s) : Carrying s := by
  obtain ⟨hsize, hsent, hempty, hnone, haccepted, hpending⟩ := h
  refine .down ?_ ?_ hsize hsent (fun _ => hempty) haccepted <;> simp [postSocket, hnone]

/-- What was sent is what a server decodes behind the POST, once nothing is pending. -/
def Delivers (s : Sender) : Prop :=
  OnWire s ∧ (s.pending = none → s.accepted ≠ [] → ∀ server, Base64RequestStream.Fresh server →
    Socket.queued server.fSocket.incoming =
        s.socket.postSocket.wire.drop s.socket.postText.length →
      ∀ n, ∃ t, Base64RequestStream.calls n server = some t ∧
        Base64RequestStream.RoundTrip s.accepted.flatten t)

theorem OnWire.delivers (h : OnWire s) : Delivers s := by
  refine ⟨h, fun hnone hne server hfresh hincoming n => ?_⟩
  rw [h.2 hnone hne, List.drop_left] at hincoming
  obtain ⟨t, ht, hsound⟩ := (hfresh.sound hincoming).calls n
  exact ⟨t, ht, hsound.roundTrip⟩

/-- In every run in which messages that are pending are sent again, the POST connection carries
the POST and the messages, each once and in order. However the characters behind the POST
arrive, a server decodes the messages from them. -/
theorem delivers_of_ok (s : Sender) (fresh : FreshSender s) (as : List SenderAction)
    (hok : system.Meets Ok s as) : system.Keeps (fun _ _ t => Delivers t) s as :=
  hok.keeps Carrying (fun _ _ _ hc hstep ho =>
    have hc' := next_carrying hc ho hstep
    ⟨hc'.onWire.delivers, hc'⟩) fresh.carrying

instance (s : Sender) : (a : SenderAction) → Decidable (Ok s a)
  | .sendV _ _ _ => inferInstanceAs (Decidable (_ ∧ _))
  | .read _ _ => inferInstanceAs (Decidable (_ ∧ _))

/-- A socket whose GET is answered. -/
def answered : Sender where
  socket :=
    { fURL := ascii "/s"
      fCookie := 7
      fGetSocket := { incoming := [.segment 36 [0, 0, 1, 65]] } }

/-- The first message is sent in three calls, a call of `Read` follows, and the second message
is sent. -/
def twoMessages : List SenderAction :=
  [.sendV [ascii "ab", ascii "c"] { connectErr := EINPROGRESS } [],
    .sendV [ascii "ab", ascii "c"] {} [.sent 20, .failed .eagain],
    .sendV [ascii "ab", ascii "c"] {} [.sent 4095], .read (List.replicate 10 0) {},
    .sendV [ascii "def"] {} [.sent 1, .sent 9]]

theorem delivers_of_ok_twoMessages :
    system.Keeps (fun _ _ t => Delivers t) answered twoMessages :=
  delivers_of_ok answered ⟨List.length_replicate, rfl, rfl, rfl, rfl, rfl⟩ twoMessages
    (by decide +kernel)

end HTTPTunnelSocket

end CxxFramework.Net
