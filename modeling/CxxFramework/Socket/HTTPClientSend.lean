import CxxFramework.Socket.HTTPClientSocket
import Mathlib.Algebra.GroupWithZero.Nat

/-!
# Sending over the HTTP tunnel

`HTTPClientSocket::SendV`: the client writes a POST and, behind it, the vectors in base64
into `fSendBuf`, and sends that over the POST connection. Once the POST is sent, only the
vectors are written.

`none` stands for an access outside a buffer. The assertions on the length, which end the
program if they fail, are left out: `EncodesWithin` and `CopiesWithin` say when they hold.

## Main definitions

* `ClientSocket.CopiesWithin` — each copy of `TCPClientSocket::SendV` is inside the array, and
  its assertion holds.
* `ClientSocket.EncodesWithin` — likewise for `encodeVec`.
-/

namespace CxxFramework.Net

open CxxFramework.Core Buffer

namespace ClientSocket

/-- One pass of the loop of `encodeVec`; the length is what `strlen` says. -/
def encode (c : ClientSocket) (iov : Bytes) : Option ClientSocket :=
  (write c.fSendBuf c.sendBufferLen (base64encode iov)).map fun fSendBuf =>
    { c with fSendBuf, sendBufferLen := (cString fSendBuf).length }

/-- `encodeVec` -/
def encodeVec (c : ClientSocket) (inVec : List Bytes) : Option ClientSocket :=
  inVec.foldlM encode c

/-- Every pass of the copy loop of `SendV` stays inside the array and meets the assertion
behind it. -/
def CopiesWithin (c : ClientSocket) : List Bytes → Prop
  | [] => True
  | v :: inVec => ∃ fSendBuf, write c.fSendBuf c.sendBufferLen v = some fSendBuf ∧
      c.sendBufferLen + v.length < kSendBufferLen ∧
      CopiesWithin { c with fSendBuf, sendBufferLen := c.sendBufferLen + v.length } inVec

/-- Every pass of the loop of `encodeVec` stays inside the array and meets the assertion on
the length that `Base64encode` returns. -/
def EncodesWithin (c : ClientSocket) : List Bytes → Prop
  | [] => True
  | iov :: inVec => ∃ c', c.encode iov = some c' ∧
      c.sendBufferLen + (base64encode iov).length < kSendBufferLen ∧ c'.EncodesWithin inVec

/-- The lengths of the encodings together. -/
def encodedLength (inVec : List Bytes) : Nat := (inVec.map fun iov => (iov.length + 2) / 3 * 4).sum

/-- The copies fit if and only if the vectors together are shorter than the buffer. -/
theorem copiesWithin_iff {c : ClientSocket} (hlen : c.fSendBuf.length = kSendBufferLen + 1)
    (inVec : List Bytes) :
    c.CopiesWithin inVec ↔ inVec = [] ∨
      c.sendBufferLen + inVec.flatten.length < kSendBufferLen := by
  induction inVec generalizing c with
  | nil => simp [CopiesWithin]
  | cons v inVec ih =>
    rw [List.flatten_cons, List.length_append, ← Nat.add_assoc]
    constructor
    · rintro ⟨fSendBuf, hwrite, hlt, hrest⟩
      rw [ih ((length_write hwrite).trans hlen)] at hrest
      rcases hrest with rfl | hrest
      · exact .inr (by simpa using hlt)
      · exact .inr hrest
    · rintro (hnil | hlt)
      · cases hnil
      · obtain ⟨fSendBuf, hwrite⟩ : ∃ mem, write c.fSendBuf c.sendBufferLen v = some mem :=
          ⟨_, write_of_le (by omega)⟩
        exact ⟨fSendBuf, hwrite, by omega,
          (ih ((length_write hwrite).trans hlen)).mpr (.inr hlt)⟩

/-- The send buffer holds a string. -/
structure HoldsText (c : ClientSocket) (text : Bytes) : Prop where
  size : c.fSendBuf.length = kSendBufferLen + 1
  len : c.sendBufferLen = text.length
  content : c.fSendBuf.take text.length = text
  noZero : 0 ∉ text

variable {c c' : ClientSocket} {text : Bytes}

/-- What a pass of `encodeVec` leaves. -/
theorem HoldsText.encode (hc : HoldsText c text) {iov : Bytes} (h : c.encode iov = some c') :
    HoldsText c' (text ++ encodeChars iov) := by
  obtain ⟨fSendBuf, hwrite, rfl⟩ := Option.map_eq_some_iff.mp h
  have htake := take_write hwrite
  rw [hc.len, hc.content, base64encode, ← List.append_assoc, List.length_append,
    List.length_singleton, ← Nat.add_assoc, ← List.length_append] at htake
  have hnone : 0 ∉ text ++ encodeChars iov := by
    rw [List.mem_append, not_or]
    exact ⟨hc.noZero, zero_notMem_encodeChars iov⟩
  have hstring : cString fSendBuf = text ++ encodeChars iov := by
    rw [cString_of_take htake, cString_of_noZero hnone]
  refine ⟨(length_write hwrite).trans hc.size, congrArg List.length hstring, ?_, hnone⟩
  have hfront := congrArg (List.take (text ++ encodeChars iov).length) htake
  rwa [List.take_take, min_eq_left (Nat.le_succ _), List.take_left] at hfront

/-- `encodeVec` puts the encodings behind the text. -/
theorem HoldsText.encodeVec (hc : HoldsText c text) {inVec : List Bytes}
    (h : c.encodeVec inVec = some c') : HoldsText c' (HTTPClientSocket.encodeVec text inVec) := by
  rw [HTTPClientSocket.encodeVec_eq hc.noZero]
  induction inVec generalizing c text with
  | nil =>
    obtain rfl : c = c' := Option.some.inj h
    simpa using hc
  | cons iov inVec ih =>
    obtain ⟨c₁, hencode, hrest⟩ := Option.bind_eq_some_iff.mp h
    have hc' := ih (hc.encode hencode) hrest
    rwa [List.append_assoc, ← List.flatten_cons, ← List.map_cons (f := encodeChars)] at hc'

/-- The encodings fit if and only if they are shorter than the buffer, with the zero that
`Base64encode` counts. -/
theorem encodesWithin_iff (hc : HoldsText c text) (inVec : List Bytes) :
    c.EncodesWithin inVec ↔
      inVec = [] ∨ text.length + encodedLength inVec + 1 < kSendBufferLen := by
  induction inVec generalizing c text with
  | nil => simp [EncodesWithin]
  | cons iov inVec ih =>
    have hsum : encodedLength (iov :: inVec) = (encodeChars iov).length + encodedLength inVec := by
      simp [encodedLength, length_encodeChars]
    have hencoded : (base64encode iov).length = (encodeChars iov).length + 1 := by
      simp [base64encode]
    have hlen := hc.len
    have hsize := hc.size
    rw [hsum, EncodesWithin, hencoded]
    constructor
    · rintro ⟨c', hencode, hlt, hrest⟩
      rw [ih (hc.encode hencode), List.length_append] at hrest
      rcases hrest with rfl | hrest
      · refine .inr ?_
        simp only [encodedLength, List.map_nil, List.sum_nil]
        omega
      · exact .inr (by omega)
    · rintro (hnil | hlt)
      · cases hnil
      · obtain ⟨fSendBuf, hwrite⟩ : ∃ mem, write c.fSendBuf c.sendBufferLen (base64encode iov) =
            some mem := ⟨_, write_of_le (by omega)⟩
        have hencode : c.encode iov =
            some { c with fSendBuf, sendBufferLen := (cString fSendBuf).length } := by
          rw [ClientSocket.encode, hwrite, Option.map_some]
        refine ⟨_, hencode, by omega, (ih (hc.encode hencode)).mpr (.inr ?_)⟩
        rw [List.length_append]
        omega

end ClientSocket

/-- A client of an HTTP tunnel, with the connection that its data goes out over. -/
structure HTTPTunnelSocket extends HTTPClientSocket where
  /-- `fPostSocket`; `none` is the null pointer. -/
  fPostSocket : Option Socket := none
deriving DecidableEq, Repr

namespace HTTPTunnelSocket

/-- The text of the POST. -/
def postText (h : HTTPTunnelSocket) : Bytes :=
  ascii "POST " ++ cString h.fURL ++ ascii " HTTP/1.0\r\nX-SessionCookie: " ++ decimal h.fCookie ++
    ascii ("\r\nAccept: application/x-rtsp-rtp-interleaved\r\nUser-Agent: QTSS/2.0\r\n\r\n")

/-- The POST connection, which is made where there is none. -/
def postSocket (h : HTTPTunnelSocket) : Socket :=
  h.fPostSocket.getD { bound := false, connected := false }

/-- Writing the POST into the send buffer. -/
def formatPost (h : HTTPTunnelSocket) : Option HTTPTunnelSocket :=
  (write h.client.fSendBuf 0 (h.postText ++ [0])).map fun fSendBuf =>
    { h with client.fSendBuf := fSendBuf, client.sendBufferLen := h.postText.length }

def encodeVec (h : HTTPTunnelSocket) (inVec : List Bytes) : Option HTTPTunnelSocket :=
  (h.client.encodeVec inVec).map fun client => { h with client }

/-- The first part of `SendV`: the POST and the vectors, if there is no connection. -/
def bringUpPost (h : HTTPTunnelSocket) (inVec : List Bytes) : Option HTTPTunnelSocket :=
  if h.postSocket.connected then some h else h.formatPost.bind fun h => h.encodeVec inVec

/-- `SendV` -/
def sendV (h : HTTPTunnelSocket) (inVec : List Bytes) (outcome : ConnectOutcome) :
    Option (OS_Error × HTTPTunnelSocket) :=
  (h.bringUpPost inVec).bind fun h =>
    let connected := h.client.connect h.postSocket outcome
    let h := { h with client := connected.2.1, fPostSocket := some connected.2.2 }
    if connected.1 ≠ OS_NoErr then some (connected.1, h)
    else
      (if h.client.sendBufferLen = 0 then h.encodeVec inVec else some h).map fun h =>
        let sent := h.client.sendSendBuffer h.postSocket
        (sent.1, { h with client := sent.2.1, fPostSocket := some sent.2.2 })

/-- What `SendV` writes stays inside the array, and its assertions hold: where it writes the
POST and the vectors, and where it writes the vectors to a connection that is up. -/
def SendsWithin (h : HTTPTunnelSocket) (inVec : List Bytes) (outcome : ConnectOutcome) : Prop :=
  (h.postSocket.connected = false →
    ∃ h', h.formatPost = some h' ∧ h'.client.EncodesWithin inVec) ∧
  ∀ h', h.bringUpPost inVec = some h' →
    let connected := h'.client.connect h'.postSocket outcome
    connected.1 = OS_NoErr → connected.2.1.sendBufferLen = 0 →
      connected.2.1.EncodesWithin inVec

/-- The texts that `SendV` writes are short enough, if it writes any. -/
def RequestFits (h : HTTPTunnelSocket) (inVec : List Bytes) : Prop :=
  if h.postSocket.connected then
    h.client.sendBufferLen ≠ 0 ∨ inVec = [] ∨
      ClientSocket.encodedLength inVec + 1 < kSendBufferLen
  else
    h.postText.length ≤ kSendBufferLen ∧
      (inVec = [] ∨ h.postText.length + ClientSocket.encodedLength inVec + 1 < kSendBufferLen)

theorem zero_notMem_postText (h : HTTPTunnelSocket) : 0 ∉ h.postText := by
  have hverb : 0 ∉ ascii "POST " := by decide
  have hversion : 0 ∉ ascii " HTTP/1.0\r\nX-SessionCookie: " := by decide
  have hrest : 0 ∉ ascii
      "\r\nAccept: application/x-rtsp-rtp-interleaved\r\nUser-Agent: QTSS/2.0\r\n\r\n" := by decide
  simp only [postText, List.mem_append, not_or]
  exact ⟨⟨⟨⟨hverb, zero_notMem_cString _⟩, hversion⟩, zero_notMem_decimal _⟩, hrest⟩

theorem length_postText_pos (h : HTTPTunnelSocket) : 0 < h.postText.length := by
  have hverb : 0 < (ascii "POST ").length := by decide
  simp only [postText, List.length_append]
  omega

variable {h h' : HTTPTunnelSocket} {inVec : List Bytes}

theorem formatPost_holdsText (hlen : h.client.fSendBuf.length = kSendBufferLen + 1)
    (hformat : h.formatPost = some h') : h'.client.HoldsText h.postText := by
  obtain ⟨fSendBuf, hwrite, rfl⟩ := Option.map_eq_some_iff.mp hformat
  have htake := take_write hwrite
  rw [Nat.zero_add, List.take_zero, List.nil_append, List.length_append,
    List.length_singleton] at htake
  refine ⟨(length_write hwrite).trans hlen, rfl, ?_, zero_notMem_postText h⟩
  have hfront := congrArg (List.take h.postText.length) htake
  rwa [List.take_take, min_eq_left (Nat.le_succ _), List.take_left] at hfront

/-- Connecting changes the buffer no more than it sends. -/
theorem holdsText_connect {c : ClientSocket} {text : Bytes} (hc : c.HoldsText text) (s : Socket)
    (outcome : ConnectOutcome) : (c.connect s outcome).2.1.HoldsText text := by
  obtain ⟨-, fEventMask, heq⟩ := c.connect_spec s outcome
  rw [heq]
  exact ⟨hc.size, hc.len, hc.content, hc.noZero⟩

/-- The POST and the vectors, written where there is no connection. -/
theorem sendsWithin_iff_down (hlen : h.client.fSendBuf.length = kSendBufferLen + 1)
    (hdown : h.postSocket.connected = false) (outcome : ConnectOutcome) :
    h.SendsWithin inVec outcome ↔ h.postText.length ≤ kSendBufferLen ∧
      (inVec = [] ∨ h.postText.length + ClientSocket.encodedLength inVec + 1 < kSendBufferLen) := by
  have hzero : (h.postText ++ [0]).length = h.postText.length + 1 := by simp
  constructor
  · rintro ⟨hpost, -⟩
    obtain ⟨h', hformat, hencodes⟩ := hpost hdown
    obtain ⟨fSendBuf, hwrite, -⟩ := Option.map_eq_some_iff.mp hformat
    have hfits := (write_eq_some_iff.mp hwrite).1
    refine ⟨by omega, ?_⟩
    exact (ClientSocket.encodesWithin_iff (formatPost_holdsText hlen hformat) inVec).mp hencodes
  · rintro ⟨hpost, hvectors⟩
    obtain ⟨fSendBuf, hwrite⟩ : ∃ mem, write h.client.fSendBuf 0 (h.postText ++ [0]) = some mem :=
      ⟨_, write_of_le (by omega)⟩
    obtain ⟨h', hformat⟩ : ∃ h', h.formatPost = some h' := ⟨_, by rw [formatPost, hwrite]; rfl⟩
    have hholds := formatPost_holdsText hlen hformat
    refine ⟨fun _ => ⟨h', hformat, (ClientSocket.encodesWithin_iff hholds inVec).mpr hvectors⟩, ?_⟩
    -- something is in the buffer then, so that nothing more is written to it
    intro h'' hup connected _ hempty
    rw [bringUpPost, hdown, if_neg Bool.false_ne_true, hformat, Option.bind_some] at hup
    obtain ⟨client, hencode, rfl⟩ := Option.map_eq_some_iff.mp hup
    have hcontent := holdsText_connect (hholds.encodeVec hencode)
      (HTTPTunnelSocket.postSocket { h' with client }) outcome
    have hcount := hcontent.len
    rw [HTTPClientSocket.encodeVec_eq (zero_notMem_postText h), List.length_append] at hcount
    have hpos := length_postText_pos h
    have hnone := hcount.symm.trans hempty
    omega

/-- The vectors, written to a connection that is up and has nothing to send. -/
theorem sendsWithin_iff_up (hlen : h.client.fSendBuf.length = kSendBufferLen + 1)
    (hup : h.postSocket.connected = true) :
    (∀ outcome, h.SendsWithin inVec outcome) ↔ h.client.sendBufferLen ≠ 0 ∨ inVec = [] ∨
      ClientSocket.encodedLength inVec + 1 < kSendBufferLen := by
  have hbring : h.bringUpPost inVec = some h := if_pos hup
  constructor
  · intro hwithin
    by_contra hnot
    rw [not_or, not_not] at hnot
    obtain ⟨hempty, hlong⟩ := hnot
    have hholds : h.client.HoldsText [] := ⟨hlen, hempty, rfl, List.not_mem_nil⟩
    have hconnect : (h.client.connect h.postSocket {}).1 = OS_NoErr := by
      unfold ClientSocket.connect ClientSocket.openSocket
      split_ifs <;> simp_all
    have hencodes := (hwithin {}).2 h hbring hconnect (holdsText_connect hholds _ _).len
    rw [ClientSocket.encodesWithin_iff (holdsText_connect hholds _ _), List.length_nil,
      Nat.zero_add] at hencodes
    exact hlong hencodes
  · intro hfits outcome
    refine ⟨fun hdown => by simp [hup] at hdown, ?_⟩
    intro h' hbring' connected _ hempty
    obtain rfl : h = h' := Option.some.inj (hbring.symm.trans hbring')
    obtain ⟨-, fEventMask, heq⟩ := h.client.connect_spec h.postSocket outcome
    have hnone : h.client.sendBufferLen = 0 := by
      have hsame := congrArg ClientSocket.sendBufferLen heq
      exact hsame.symm.trans hempty
    have hholds : h.client.HoldsText [] := ⟨hlen, hnone, rfl, List.not_mem_nil⟩
    refine (ClientSocket.encodesWithin_iff (holdsText_connect hholds _ _) inVec).mpr ?_
    rw [List.length_nil, Nat.zero_add]
    exact hfits.resolve_left (not_not.mpr hnone)

/-- `SendV` stays inside its buffer exactly if the texts are short enough. -/
theorem sendsWithin_iff (hlen : h.client.fSendBuf.length = kSendBufferLen + 1) :
    (∀ outcome, h.SendsWithin inVec outcome) ↔ h.RequestFits inVec := by
  unfold RequestFits
  split_ifs with hup
  · exact sendsWithin_iff_up hlen hup
  · have hdown : h.postSocket.connected = false := by simpa using hup
    rw [← sendsWithin_iff_down hlen hdown {}]
    refine ⟨fun hwithin => hwithin {}, fun hwithin outcome => ?_⟩
    exact (sendsWithin_iff_down hlen hdown outcome).mpr
      ((sendsWithin_iff_down hlen hdown {}).mp hwithin)

end HTTPTunnelSocket

end CxxFramework.Net
