import CxxFramework.Library.Transition
import CxxFramework.Socket.ClientSocket

/-!
# Connecting

`ClientSocket::Connect` calls `connect` only if the state of the socket does not say that it is
connected. `TCPSocket::Connect` turns that state on whatever `connect` returns. So after a
`connect` that has failed the next `Connect` returns without an error and without trying again,
until a `Send` or `Read` of the socket has found out that there is no connection.

## Main definitions

* `ConnectRun.system` — the calls of a client, with what has become of its connection.
* `ConnectRun.Reported` — what `Connect` returns is right, and it does not give up.
* `ConnectRun.Noticed` — the socket does not count as connected after a `connect` that failed.
-/

namespace CxxFramework.Net

open CxxFramework.Core Transition

namespace TCPClientSocket

/-- `TCPClientSocket::Read` -/
def read (t : TCPClientSocket) (inLength : Nat) (outcome : ConnectOutcome) :
    OS_Error × TCPClientSocket :=
  let connected := t.client.connect t.fSocket outcome
  let r := connected.2.2.read inLength
  let client :=
    if r.err ≠ OS_NoErr then { connected.2.1 with fEventMask := EV_RE } else connected.2.1
  (r.err, ⟨client, r.socket⟩)

/-- `ClientSocket::Connect` on the socket of the client -/
def connect (t : TCPClientSocket) (outcome : ConnectOutcome) : OS_Error × TCPClientSocket :=
  let connected := t.client.connect t.fSocket outcome
  (connected.1, ⟨connected.2.1, connected.2.2⟩)

end TCPClientSocket

/-- What has become of the connection of a socket: it was never tried, is under way, has come
up, or has been reported as failed. -/
inductive Connection where
  | closed
  | started
  | established
  | failed
deriving DecidableEq, Repr

/-- The connection is up, or under way. -/
def Connection.Live (connection : Connection) : Prop :=
  connection = .started ∨ connection = .established

instance (connection : Connection) : Decidable connection.Live :=
  inferInstanceAs (Decidable (_ ∨ _))

structure ConnectRun where
  t : TCPClientSocket
  connection : Connection := .closed
deriving DecidableEq, Repr

inductive ClientCall where
  | connect (outcome : ConnectOutcome)
  | sendV (inVec : List Bytes) (outcome : ConnectOutcome)
  | read (inLength : Nat) (outcome : ConnectOutcome)
deriving DecidableEq, Repr

/-- How a `connect` ends that the call makes. -/
def ClientCall.outcome : ClientCall → ConnectOutcome
  | .connect outcome | .sendV _ outcome | .read _ outcome => outcome

namespace ConnectRun

/-- A client that was never connected, and what the kernel will answer to it. -/
def start (outgoing : List SendOutcome) (incoming : List RecvEvent) : ConnectRun :=
  ⟨{ fSocket := { bound := false, connected := false, outgoing, incoming } }, .closed⟩

/-- The call goes on to `connect`. -/
def Tries (w : ConnectRun) (outcome : ConnectOutcome) : Prop :=
  (ClientSocket.openSocket w.t.fSocket outcome).1 = OS_NoErr ∧ w.t.fSocket.connected = false

instance (w : ConnectRun) (outcome : ConnectOutcome) : Decidable (w.Tries outcome) :=
  inferInstanceAs (Decidable (_ ∧ _))

/-- The connection after `Connect`. -/
def afterConnect (w : ConnectRun) (outcome : ConnectOutcome) : Connection :=
  if w.Tries outcome then
    if outcome.connectErr = OS_NoErr then .established
    else if outcome.connectErr = EINPROGRESS ∨ outcome.connectErr = EAGAIN then .started
    else .failed
  else w.connection

/-- The connection after a call that has gone on to send or receive: one that the socket has
given up has been reported as failed. -/
def afterTransfer (connection : Connection) (t : TCPClientSocket) : Connection :=
  if t.fSocket.connected ∨ connection = .closed then connection else .failed

/-- A call; none if `SendV` copies past the end of its buffer. -/
def next (w : ConnectRun) (call : ClientCall) : Option ConnectRun :=
  let connection := w.afterConnect call.outcome
  match call with
  | .connect outcome => some ⟨(w.t.connect outcome).2, connection⟩
  | .sendV inVec outcome =>
    (w.t.sendV inVec outcome).map fun r => ⟨r.2, afterTransfer connection r.2⟩
  | .read inLength outcome =>
    let t := (w.t.read inLength outcome).2
    some ⟨t, afterTransfer connection t⟩

abbrev system : System ConnectRun ClientCall :=
  .ofPartial (fun w => ∃ outgoing incoming, w = start outgoing incoming) next

/-- `Connect` returns without error only with a connection that is up or under way, and after a
failure it tries again or returns an error. -/
def Reported (w : ConnectRun) (call : ClientCall) (_ : ConnectRun) : Prop :=
  ((w.t.connect call.outcome).1 = OS_NoErr → (w.afterConnect call.outcome).Live) ∧
    (w.connection = .failed →
      w.Tries call.outcome ∨ (w.t.connect call.outcome).1 ≠ OS_NoErr)

/-- The socket does not count as connected if its connection has failed. -/
def Noticed (w : ConnectRun) (_ : ClientCall) : Prop :=
  w.connection = .failed → w.t.fSocket.connected = false

instance (w : ConnectRun) (call : ClientCall) (w' : ConnectRun) : Decidable (w.Reported call w') :=
  inferInstanceAs (Decidable ((_ → _) ∧ (_ → _)))

/-! ## What the calls do to the state of the socket -/

/-- A socket that counts as connected has been opened, and a connection was tried. -/
def Inv (w : ConnectRun) : Prop :=
  w.t.fSocket.connected = true → w.t.fSocket.bound = true ∧ w.connection ≠ .closed

/-- Sending and receiving open no socket, and connect none. -/
def Fades (s s' : Socket) : Prop :=
  s'.bound = s.bound ∧ (s'.connected = true → s.connected = true)

theorem Fades.refl (s : Socket) : Fades s s := ⟨rfl, id⟩

theorem Fades.trans {s s' s'' : Socket} (h : Fades s s') (h' : Fades s' s'') : Fades s s'' :=
  ⟨h'.1.trans h.1, fun hs => h.2 (h'.2 hs)⟩

theorem send_fades (s : Socket) (inData : Bytes) : Fades s (s.send inData).socket := by
  unfold Socket.send
  cases hconnected : s.connected with
  | false => exact Fades.refl s
  | true =>
    simp only [Bool.not_true, Bool.false_eq_true, if_false]
    split_ifs
    · exact Fades.refl s
    · rcases s.outgoing with _ | ⟨k | errno, outgoing⟩
      · exact Fades.refl s
      · exact ⟨rfl, fun _ => hconnected⟩
      · exact ⟨rfl, fun _ => hconnected⟩

theorem read_fades (s : Socket) (length : Nat) : Fades s (s.read length).socket := by
  unfold Socket.read
  cases hconnected : s.connected with
  | false => exact Fades.refl s
  | true =>
    rcases s.incoming with _ | ⟨⟨first, rest⟩ | errno | _, incoming⟩
    · exact Fades.refl s
    · cases length <;> exact ⟨rfl, fun _ => hconnected⟩
    · exact ⟨rfl, fun _ => hconnected⟩
    · exact ⟨rfl, fun _ => hconnected⟩

theorem sendLoop_fades (c : ClientSocket) (s : Socket) : Fades s (c.sendLoop s).2.2 := by
  fun_induction ClientSocket.sendLoop c s with
  | case1 c s r c' hpos ih => exact (send_fades s c.unsent).trans ih
  | case2 c s r c' hpos => exact send_fades s c.unsent

theorem sendSendBuffer_fades (c : ClientSocket) (s : Socket) :
    Fades s (c.sendSendBuffer s).2.2 := by
  have hloop := sendLoop_fades c s
  dsimp only [ClientSocket.sendSendBuffer]
  split_ifs
  · exact Fades.refl s
  · exact hloop
  · exact hloop

/-! ## What `Connect` does -/

variable {w w' : ConnectRun} {call : ClientCall} {outcome : ConnectOutcome}

/-- The socket is opened, or fails to open. -/
theorem openSocket_cases (s : Socket) (outcome : ConnectOutcome) :
    (s.bound = false ∧ outcome.openErr ≠ OS_NoErr ∧
        ClientSocket.openSocket s outcome = (outcome.openErr, s)) ∨
      ClientSocket.openSocket s outcome = (OS_NoErr, { s with bound := true }) := by
  unfold ClientSocket.openSocket
  split_ifs with hbound herr
  · exact .inr (by rw [← hbound])
  · exact .inl ⟨Bool.eq_false_iff.mpr hbound, herr, rfl⟩
  · exact .inr rfl

/-- `Connect` fails to open the socket, has nothing to do, or returns what `connect` does. -/
theorem connect_cases (w : ConnectRun) (outcome : ConnectOutcome) :
    let r := w.t.connect outcome
    (w.t.fSocket.bound = false ∧ r.1 ≠ OS_NoErr ∧ r.2.fSocket = w.t.fSocket ∧ ¬ w.Tries outcome) ∨
      (r.1 = OS_NoErr ∧ r.2.fSocket = { w.t.fSocket with bound := true } ∧
        w.t.fSocket.connected = true ∧ ¬ w.Tries outcome) ∨
      (r.1 = outcome.connectErr ∧
        r.2.fSocket = { w.t.fSocket with bound := true, connected := true } ∧ w.Tries outcome) := by
  unfold TCPClientSocket.connect ClientSocket.connect Tries
  rcases openSocket_cases w.t.fSocket outcome with ⟨hbound, herr, hopen⟩ | hopen
  · refine .inl ?_
    simp [hopen, hbound, herr]
  · cases hconnected : w.t.fSocket.connected with
    | true =>
      refine .inr (.inl ?_)
      simp [hopen, hconnected]
    | false =>
      refine .inr (.inr ?_)
      simp only [hopen]
      split_ifs <;> simp_all

theorem afterConnect_ne_closed (h : w.Tries outcome) : w.afterConnect outcome ≠ .closed := by
  unfold afterConnect
  rw [if_pos h]
  split_ifs <;> decide

/-- After a `Connect` the invariant holds again. -/
theorem connect_inv (h : Inv w) (outcome : ConnectOutcome) :
    Inv ⟨(w.t.connect outcome).2, w.afterConnect outcome⟩ := by
  unfold Inv at *
  rcases connect_cases w outcome with ⟨-, -, hs, htries⟩ | ⟨-, hs, hconnected, htries⟩ |
    ⟨-, hs, htries⟩
  · rw [hs, afterConnect, if_neg htries]
    exact h
  · rw [hs, afterConnect, if_neg htries]
    exact fun _ => ⟨rfl, (h hconnected).2⟩
  · rw [hs]
    exact fun _ => ⟨rfl, afterConnect_ne_closed htries⟩

/-- Sending and receiving keep the invariant. -/
theorem Inv.afterTransfer {t t' : TCPClientSocket} {connection : Connection}
    (h : Inv ⟨t, connection⟩) (hfades : Fades t.fSocket t'.fSocket) :
    Inv ⟨t', afterTransfer connection t'⟩ := by
  intro hconnected
  obtain ⟨hbound, hopen⟩ := h (hfades.2 hconnected)
  refine ⟨hfades.1.trans hbound, ?_⟩
  rw [ConnectRun.afterTransfer, if_pos (.inl hconnected)]
  exact hopen

/-! ## Steps -/

theorem connectAndSend_fades (t : TCPClientSocket) (outcome : ConnectOutcome) :
    Fades (t.connect outcome).2.fSocket (t.connectAndSend outcome).2.fSocket := by
  dsimp only [TCPClientSocket.connectAndSend, TCPClientSocket.connect]
  split_ifs
  · exact Fades.refl _
  · exact sendSendBuffer_fades _ _

theorem next_inv (h : Inv w) (hnext : w.next call = some w') : Inv w' := by
  cases call with
  | connect outcome =>
    cases hnext
    exact connect_inv h outcome
  | sendV inVec outcome =>
    have hsend : ∀ client, Inv ⟨(TCPClientSocket.connectAndSend { w.t with client } outcome).2,
        afterTransfer (w.afterConnect outcome)
          (TCPClientSocket.connectAndSend { w.t with client } outcome).2⟩ := by
      intro client
      have hconnect : Inv ⟨(TCPClientSocket.connect { w.t with client } outcome).2,
          w.afterConnect outcome⟩ :=
        connect_inv (w := ⟨{ w.t with client }, w.connection⟩) h outcome
      exact hconnect.afterTransfer (connectAndSend_fades _ outcome)
    simp only [next, TCPClientSocket.sendV, ClientCall.outcome] at hnext
    split_ifs at hnext
    · obtain ⟨r, hr, rfl⟩ := Option.map_eq_some_iff.mp hnext
      obtain ⟨client, -, rfl⟩ := Option.map_eq_some_iff.mp hr
      exact hsend client
    · cases hnext
      exact hsend w.t.client
  | read inLength outcome =>
    cases hnext
    exact (connect_inv h outcome).afterTransfer (read_fades _ inLength)

/-- `Connect` reports what has become of the connection exactly if the socket has noticed a
failure before. -/
theorem reported_iff (h : Inv w) : w.Reported call w' ↔ w.Noticed call := by
  unfold Reported Noticed
  rcases connect_cases w call.outcome with ⟨hbound, herr, -, htries⟩ |
    ⟨hok, -, hconnected, htries⟩ | ⟨herr, -, htries⟩
  · -- the socket cannot be opened, so it does not count as connected either
    have hconnected : w.t.fSocket.connected = false := by
      rw [← Bool.not_eq_true]
      intro hconnected
      rw [(h hconnected).1] at hbound
      cases hbound
    exact iff_of_true ⟨fun hok => absurd hok herr, fun _ => .inr herr⟩ fun _ => hconnected
  · -- nothing is tried, and no error returned
    have hopen := (h hconnected).2
    rw [afterConnect, if_neg htries]
    simp only [hok, hconnected, htries, Connection.Live]
    cases hconnection : w.connection with
    | closed => exact absurd hconnection hopen
    | _ => simp
  · -- `connect` is called
    refine iff_of_true ⟨fun hok => ?_, fun _ => .inl htries⟩ fun _ => htries.2
    rw [afterConnect, if_pos htries, if_pos (herr.symm.trans hok)]
    exact .inr rfl

/-! ## Results -/

/-- In every run of a client `Connect` returns without error only with a connection, and tries
again after a failure, exactly if no call finds the socket counted as connected after a `connect`
that failed. -/
theorem keepsReported_iff (outgoing : List SendOutcome) (incoming : List RecvEvent)
    (calls : List ClientCall) :
    system.Keeps Reported (start outgoing incoming) calls ↔
      system.Meets Noticed (start outgoing incoming) calls := by
  have hstart : Inv (start outgoing incoming) := nofun
  refine System.keeps_iff_meets Inv ?_ ?_ hstart calls
  · intro w call w' h hnext hok
    exact ⟨(reported_iff h).mpr hok, next_inv h hnext⟩
  · intro w call w' h hnext hreported
    exact (reported_iff h).mp hreported

def ECONNREFUSED : OS_Error := 111

/-- The connection is refused, and the next `Connect` returns without error. -/
theorem refused_not_keepsReported :
    ¬ system.Keeps Reported (start [] [])
      [.connect { connectErr := ECONNREFUSED }, .connect {}] := by
  decide

end ConnectRun

end CxxFramework.Net
