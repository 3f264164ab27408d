import CxxFramework.Http.RequestStreamRun
import Mathlib.Algebra.Group.Int.Defs

/-!
# Reading the body of a request

`HTTPSessionInterface::Read` keeps its callers from reading past the body of a request, if
the length of the body is known. What is left of it is signed and the length of a call is
not; the comparison of the two converts the latter.

## Main definitions

* `HTTPSessionInterface.read` — a read of at most what is left of the body.
* `HTTPSessionInterface.Guarded` — no more than the body was read, and the rest is left.
* `HTTPSessionInterface.Clamped` — the calls that keep it so.
-/

namespace CxxFramework.Net

open CxxFramework.Core Transition

def CF_NoMoreData : CF_Error := -17

/-- The bytes that the next read finds, however many it asks for. -/
def Socket.nextLength (s : Socket) : Nat :=
  match s.connected, s.incoming with
  | true, .segment _ rest :: _ => rest.length + 1
  | _, _ => 0

theorem Socket.length_read (s : Socket) {length : Nat} (hlength : length ≠ 0) :
    ((s.read length).data.getD []).length = min length s.nextLength := by
  unfold Socket.read Socket.nextLength
  cases s.connected with
  | false => simp
  | true =>
    rcases s.incoming with _ | ⟨⟨first, rest⟩ | errno | _, incoming⟩
    · simp
    · simp [hlength]
    · simp
    · simp

/-- The bytes that one call of `Read` can hand over. -/
def HTTPRequestStream.available (r : HTTPRequestStream) (fSocket : Socket) : Nat :=
  r.fRetreatBytes + fSocket.nextLength

theorem HTTPRequestStream.length_read {r r' : HTTPRequestStream} {fSocket fSocket' : Socket}
    {inBufLen : Nat} {err : CF_Error} {data : Bytes} (hi : HTTPRequestStream.Inv r)
    (h : r.read fSocket inBufLen = some (err, data, r', fSocket')) :
    data.length = min inBufLen (r.available fSocket) := by
  have htotal := hi.total
  have hsize := hi.size
  unfold kRequestBufferSizeInBytes at htotal hsize
  have hslice := Buffer.length_slice r.fRequestBuffer (r.requestLen + r.fRetreatBytesRead)
    (min r.fRetreatBytes inBufLen)
  unfold HTTPRequestStream.read at h
  unfold HTTPRequestStream.available
  dsimp only at h
  split_ifs at h with hfits hall
  · cases h
    omega
  · cases h
    have hlength : inBufLen - min r.fRetreatBytes inBufLen ≠ 0 := by omega
    have hread := fSocket.length_read hlength
    rw [List.length_append, hslice, hread]
    omega

/-- A session, as far as `Read` goes. -/
structure HTTPSessionInterface where
  fInputStream : HTTPRequestStream
  fSocket : Socket := {}
  fRequestBodyLen : Int32 := -1

namespace HTTPSessionInterface

def setRequestBodyLength (s : HTTPSessionInterface) (inLength : Int32) : HTTPSessionInterface :=
  { s with fRequestBodyLen := inLength }

/-- `HTTPSessionInterface::Read`: the error and the bytes read. -/
def read (s : HTTPSessionInterface) (inLength : UInt32) :
    Option (CF_Error × Bytes × HTTPSessionInterface) :=
  if s.fRequestBodyLen = 0 then some (CF_NoMoreData, [], s)
  else
    let inLength :=
      if s.fRequestBodyLen > 0 ∧ inLength.toInt32 > s.fRequestBodyLen then
        s.fRequestBodyLen.toUInt32
      else inLength
    (s.fInputStream.read s.fSocket inLength.toNat).map
      fun (theErr, data, fInputStream, fSocket) =>
        let theLenRead := UInt32.ofNat data.length
        let fRequestBodyLen :=
          if s.fRequestBodyLen ≥ 0 then (s.fRequestBodyLen.toUInt32 - theLenRead).toInt32
          else s.fRequestBodyLen
        (theErr, data, { fInputStream, fSocket, fRequestBodyLen })

/-! ## Runs -/

/-- A session, and the number of bytes that its calls have returned. -/
structure Reading where
  session : HTTPSessionInterface
  returned : Nat := 0

/-- Calls of `Read` with the given lengths, on a stream that any calls have led to, once the
length of the body is set. -/
abbrev system (n : Int32) : Transition.System (Option Reading) UInt32 :=
  .ofPartial
    (fun state => ∃ s delivered, HTTPRequestStream.system.Reachable
        (some ⟨s.fInputStream, s.fSocket, delivered⟩) ∧
      state = some { session := setRequestBodyLength s n })
    fun state inLength => some (state.bind fun s =>
      (s.session.read inLength).map fun (_, data, session) =>
        { session, returned := s.returned + data.length })

/-- No more than `n` bytes were returned, and the rest of them is left of the body. -/
def Guarded (n : Int32) : Option Reading → Prop
  | some s => (s.returned : Int) ≤ n.toInt ∧ s.session.fRequestBodyLen.toInt = n.toInt - s.returned
  | none => False

/-- The length of a call does not turn negative, or there is no more to read than what is
left of the body. -/
def Clamped : Option Reading → UInt32 → Prop
  | some s, inLength =>
    inLength.toNat < 2 ^ 31 ∨ s.session.fRequestBodyLen = 0 ∨
      (s.session.fInputStream.available s.session.fSocket : Int) ≤ s.session.fRequestBodyLen.toInt
  | none, _ => True

/-- What holds of a session between the calls. -/
structure Good (n : Int32) (s : Reading) : Prop where
  inv : HTTPRequestStream.Inv s.session.fInputStream
  guarded : Guarded n (some s)

/-! ## The arithmetic -/

theorem toInt_toInt32 (x : UInt32) :
    x.toInt32.toInt = if x.toNat < 2 ^ 31 then (x.toNat : Int) else x.toNat - 2 ^ 32 := by
  have hbits : x.toInt32.toInt = x.toBitVec.toInt := rfl
  have hnat : x.toBitVec.toNat = x.toNat := rfl
  rw [hbits, BitVec.toInt_eq_toNat_cond, hnat]
  split_ifs <;> omega

theorem toNat_toUInt32 {b : Int32} (hb : 0 ≤ b.toInt) : (b.toUInt32.toNat : Int) = b.toInt := by
  have hle : (0 : Int32) ≤ b := Int32.le_iff_toInt_le.mpr hb
  have hclamp : b.toNatClampNeg = b.toInt.toNat := rfl
  rw [Int32.toNat_toUInt32_of_le hle, hclamp, Int.toNat_of_nonneg hb]

/-- The difference is right if it is not negative. -/
theorem toInt_sub_ofNat {b : Int32} {m : Nat} (hb : 0 ≤ b.toInt) (hm : (m : Int) ≤ b.toInt) :
    (b.toUInt32 - UInt32.ofNat m).toInt32.toInt = b.toInt - m := by
  have hlt : b.toInt < 2 ^ 31 := Int32.toInt_lt b
  have hnat := toNat_toUInt32 hb
  have hofNat : (UInt32.ofNat m).toNat = m := UInt32.toNat_ofNat_of_lt' (by
    rw [UInt32.size]
    omega)
  have hle : UInt32.ofNat m ≤ b.toUInt32 := by
    rw [UInt32.le_iff_toNat_le, hofNat]
    omega
  rw [toInt_toInt32, UInt32.toNat_sub_of_le _ _ hle, hofNat]
  split_ifs <;> omega

/-- The length that is handed on to the stream. -/
theorem clamped_length {b : Int32} (hb : 0 < b.toInt) (inLength : UInt32) :
    ((if b > 0 ∧ inLength.toInt32 > b then b.toUInt32 else inLength).toNat : Int) =
      if inLength.toNat < 2 ^ 31 then min (inLength.toNat : Int) b.toInt else inLength.toNat := by
  have hpos : b > 0 := Int32.lt_iff_toInt_lt.mpr hb
  have hcast := toInt_toInt32 inLength
  have hnat := toNat_toUInt32 hb.le
  have hlt := inLength.toNat_lt
  by_cases hgt : inLength.toInt32 > b
  · have hgt' := Int32.lt_iff_toInt_lt.mp hgt
    rw [if_pos ⟨hpos, hgt⟩, hnat]
    split_ifs at hcast ⊢ <;> omega
  · have hle : ¬ b.toInt < inLength.toInt32.toInt := fun h => hgt (Int32.lt_iff_toInt_lt.mpr h)
    rw [if_neg fun h => hgt h.2]
    split_ifs at hcast ⊢ <;> omega

/-! ## Any run -/

variable {n : Int32} {s : Reading} {inLength : UInt32}

/-- A call on a session that is guarded. -/
theorem read_spec (hg : Good n s) (inLength : UInt32) :
    ∃ err data session, s.session.read inLength = some (err, data, session) ∧
      HTTPRequestStream.Inv session.fInputStream ∧
      (Clamped (some s) inLength ↔ (data.length : Int) ≤ s.session.fRequestBodyLen.toInt) ∧
      ((data.length : Int) ≤ s.session.fRequestBodyLen.toInt →
        session.fRequestBodyLen.toInt = s.session.fRequestBodyLen.toInt - data.length) := by
  obtain ⟨hle, hleft⟩ := hg.guarded
  unfold read Clamped
  by_cases hzero : s.session.fRequestBodyLen = 0
  · rw [if_pos hzero]
    refine ⟨_, [], _, rfl, hg.inv, iff_of_true (.inr (.inl hzero)) ?_, fun _ => ?_⟩ <;>
      simp [hzero]
  · have hpos : 0 < s.session.fRequestBodyLen.toInt := by
      have hne : s.session.fRequestBodyLen.toInt ≠ 0 := fun h => hzero (Int32.toInt_inj.mp h)
      omega
    have hnonneg : s.session.fRequestBodyLen ≥ 0 := Int32.le_iff_toInt_le.mpr hpos.le
    have hlength := clamped_length hpos inLength
    have hlt := Int32.toInt_lt s.session.fRequestBodyLen
    generalize (if s.session.fRequestBodyLen > 0 ∧ inLength.toInt32 > s.session.fRequestBodyLen
      then s.session.fRequestBodyLen.toUInt32 else inLength) = length at hlength
    obtain ⟨err, data, stream, socket, hread⟩ : ∃ err data stream socket,
        s.session.fInputStream.read s.session.fSocket length.toNat =
          some (err, data, stream, socket) := HTTPRequestStream.read_total hg.inv _ _
    have hdata := HTTPRequestStream.length_read hg.inv hread
    rw [if_neg hzero]
    simp only [hread, Option.map_some, if_pos hnonneg]
    refine ⟨_, data, _, rfl, HTTPRequestStream.read_inv hg.inv hread, ?_, toInt_sub_ofNat hpos.le⟩
    constructor
    · rintro (hsmall | hnone | hfew)
      · rw [if_pos hsmall] at hlength
        omega
      · exact absurd hnone hzero
      · omega
    · intro hfits
      by_cases hsmall : inLength.toNat < 2 ^ 31
      · exact .inl hsmall
      · rw [if_neg hsmall] at hlength
        refine .inr (.inr ?_)
        omega

/-- The bytes returned never exceed the length of the body, and what is left of it is the
rest, throughout a run exactly if no call of a length that turns negative finds more bytes
than are left. -/
theorem guarded_iff {n : Int32} (hn : 0 ≤ n) {session : HTTPSessionInterface} {delivered : Bytes}
    (reached : HTTPRequestStream.system.Reachable
      (some ⟨session.fInputStream, session.fSocket, delivered⟩)) (lengths : List UInt32) :
    (system n).Keeps (fun _ _ t => Guarded n t)
        (some { session := session.setRequestBodyLength n }) lengths ↔
      (system n).Meets Clamped (some { session := session.setRequestBodyLength n }) lengths := by
  have hstep : ∀ {s : Reading} {inLength : UInt32} {t : Option Reading}, Good n s →
      (system n).step (some s) inLength t →
      (Guarded n t ↔ Clamped (some s) inLength) ∧
        (Guarded n t → ∃ t', t = some t' ∧ Good n t') := by
    intro s inLength t hg hstep
    obtain ⟨err, data, session, hread, hinv, hclamped, hleft⟩ := read_spec hg inLength
    obtain rfl : some { session, returned := s.returned + data.length } = t := by
      simpa [hread] using Option.some.inj hstep
    obtain ⟨hle, hrest⟩ := hg.guarded
    have hguarded : Guarded n (some { session, returned := s.returned + data.length }) ↔
        (data.length : Int) ≤ s.session.fRequestBodyLen.toInt := by
      constructor
      · rintro ⟨hle', -⟩
        simp only at hle'
        omega
      · intro hfits
        have hleft := hleft hfits
        refine ⟨?_, ?_⟩ <;>
          · simp only
            omega
    exact ⟨hguarded.trans hclamped.symm, fun h => ⟨_, rfl, hinv, h⟩⟩
  have hgood : Good n { session := session.setRequestBodyLength n } := by
    refine ⟨HTTPRequestStream.inv_of_reachable reached, ?_, ?_⟩
    · exact Int32.le_iff_toInt_le.mp hn
    · simp [setRequestBodyLength]
  refine System.keeps_iff_meets (fun s => ∃ s', s = some s' ∧ Good n s') ?_ ?_ ⟨_, rfl, hgood⟩
    lengths
  · rintro _ inLength t ⟨s, rfl, hg⟩ hs hok
    obtain ⟨hiff, hnext⟩ := hstep hg hs
    exact ⟨hiff.mpr hok, hnext (hiff.mpr hok)⟩
  · rintro _ inLength t ⟨s, rfl, hg⟩ hs hguarded
    exact (hstep hg hs).1.mp hguarded

instance : (state : Option Reading) → (inLength : UInt32) → Decidable (Clamped state inLength)
  | some _, _ => inferInstanceAs (Decidable (_ ∨ _ ∨ _))
  | none, _ => isTrue trivial

instance : (state : Option Reading) → Decidable (Guarded n state)
  | some _ => inferInstanceAs (Decidable (_ ∧ _))
  | none => isFalse id

/-- A session whose socket has three bytes to receive. -/
def threeBytes : HTTPSessionInterface where
  fInputStream := { fRequestBuffer := List.replicate kRequestBufferSizeInBytes 0 }
  fSocket.incoming := [.segment 97 [98, 99]]

theorem threeBytes_reached : HTTPRequestStream.system.Reachable
    (some ⟨threeBytes.fInputStream, threeBytes.fSocket, []⟩) :=
  .init ⟨_, rfl, rfl, List.length_replicate, rfl, rfl⟩

/-- Of a body of two bytes, both are read by a call for ten, and none by the next one. -/
theorem guarded_iff_threeBytes :
    (system 2).Keeps (fun _ _ t => Guarded 2 t)
      (some { session := threeBytes.setRequestBodyLength 2 }) [10, 10] :=
  (guarded_iff (by decide) threeBytes_reached [10, 10]).mpr (by decide +kernel)

/-- A call for `2 ^ 31` bytes reads past the body. -/
theorem negativeLength_not_guarded :
    ¬ (system 2).Keeps (fun _ _ t => Guarded 2 t)
      (some { session := threeBytes.setRequestBodyLength 2 }) [0x80000000] := by
  decide +kernel

end HTTPSessionInterface

end CxxFramework.Net
