import CxxFramework.Basic.MD5Context
import CxxFramework.Basic.MD5Encode

/-!
# Digests for authentication

The hashes of digest authentication, and `MD5Encode`, computed with the contexts of MD5. The
calls give the hashes of the joined strings, and a password is hashed as if a context were the
bytes it was given.

The strings are given by pointer and length; `none` is a `NULL` pointer.

## Main definitions

* `calcHA1`, `calcHA1Md5Sess`, `calcRequestDigest` — the functions of the same names.
* `hA1`, `requestDigest` — what they stand for.
* `md5Encode` — `MD5Encode` on contexts.
-/

namespace CxxFramework.Basic.MD5Digest

open CxxFramework.Core MD5Context
open MD5 (Digest Fault kHashLen dufrId toInt strlen refineSalt orFault putSalt putGroups groups
  strncpy)

abbrev StrPtrLen := Option Bytes

def bytes (s : StrPtrLen) : Bytes := s.getD []

/-- `StrPtrLen::Equal` -/
def equal : StrPtrLen → StrPtrLen → Bool
  | none, none => true
  | some s, some compare => s == compare
  | _, _ => false

def sColon : StrPtrLen := some (ascii ":")
def sMD5Sess : StrPtrLen := some (ascii "md5-sess")
def sQopAuthInt : StrPtrLen := some (ascii "auth-int")

def hexDigit (c : UInt8) : UInt8 := if c ≤ 9 then c + 48 else c + 97 - 10

/-- `HashToString` -/
def hashToString (aHash : Bytes) : Bytes :=
  aHash.flatMap fun (c : UInt8) => [hexDigit (c >>> 4 &&& 0xf), hexDigit (c &&& 0xf)]

/-- `MD5_Update` with a string. -/
def add (fuel : Nat) (context : Context) (s : StrPtrLen) : Except Failure Context :=
  update fuel context (bytes s) (BitVec.ofNat 32 (bytes s).length)

/-- `CalcMD5HA1` -/
def calcMD5HA1 (fuel : Nat) (context : Context) (userName realm userPassword : StrPtrLen) :
    Except Failure Bytes := do
  let context ← add fuel (init context) userName
  let context ← add fuel context sColon
  let context ← add fuel context realm
  let context ← add fuel context sColon
  let context ← add fuel context userPassword
  let (aHash, _) ← final fuel context
  return aHash

/-- The hash of a hash with the nonces, in `CalcHA1` and `CalcHA1Md5Sess`. -/
def calcSession (fuel : Nat) (context : Context) (aHash : Bytes) (nonce cNonce : StrPtrLen) :
    Except Failure Bytes := do
  let context ← update fuel (init context) aHash kHashLen
  let context ← add fuel context sColon
  let context ← add fuel context nonce
  let context ← add fuel context sColon
  let context ← add fuel context cNonce
  let (aHash, _) ← final fuel context
  return aHash

/-- `CalcHA1` -/
def calcHA1 (fuel : Nat) (context : Context)
    (algorithm userName realm userPassword nonce cNonce : StrPtrLen) : Except Failure Bytes := do
  let context ← add fuel (init context) userName
  let context ← add fuel context sColon
  let context ← add fuel context realm
  let context ← add fuel context sColon
  let context ← add fuel context userPassword
  let (aHash, context) ← final fuel context
  let aHash ← if equal algorithm sMD5Sess then calcSession fuel context aHash nonce cNonce
    else .ok aHash
  return hashToString aHash

/-- `CalcHA1Md5Sess` -/
def calcHA1Md5Sess (fuel : Nat) (context : Context) (hashA1Hex16Bit nonce cNonce : StrPtrLen) :
    Except Failure Bytes := do
  let aHash ← calcSession fuel context (bytes hashA1Hex16Bit) nonce cNonce
  return hashToString aHash

/-- The entity is hashed for `auth-int`. -/
def addEntity (fuel : Nat) (context : Context) (qop hEntity : StrPtrLen) : Except Failure Context :=
  if equal qop sQopAuthInt then do
    let context ← add fuel context sColon
    add fuel context hEntity
  else .ok context

/-- What is hashed if there is a `qop` directive. -/
def addDirective (fuel : Nat) (context : Context) (nonceCount cNonce qop : StrPtrLen) :
    Except Failure Context :=
  if qop ≠ none then do
    let context ← add fuel context nonceCount
    let context ← add fuel context sColon
    let context ← add fuel context cNonce
    let context ← add fuel context sColon
    let context ← add fuel context qop
    add fuel context sColon
  else .ok context

/-- `CalcRequestDigest` -/
def calcRequestDigest (fuel : Nat) (context : Context)
    (hA1 nonce nonceCount cNonce qop method digestUri hEntity : StrPtrLen) : Except Failure Bytes := do
  let context ← add fuel (init context) method
  let context ← add fuel context sColon
  let context ← add fuel context digestUri
  let context ← addEntity fuel context qop hEntity
  let (aHash, context) ← final fuel context
  let hA2 := hashToString aHash
  let context ← add fuel (init context) hA1
  let context ← add fuel context sColon
  let context ← add fuel context nonce
  let context ← add fuel context sColon
  let context ← addDirective fuel context nonceCount cNonce qop
  let context ← add fuel context (some hA2)
  let (requestHash, _) ← final fuel context
  return hashToString requestHash

/-! ## Passwords -/

theorem sub_kHashLen_lt {pl : Int} (hpl : 0 < pl) : (pl - kHashLen).toNat < pl.toNat := by
  rw [kHashLen]
  omega

/-- The loop that adds as many bytes of `final` as the password has. -/
def addFinal (fuel : Nat) (final : Bytes) (ctx : Context) (pl : Int) : Except Failure Context :=
  if 0 < pl then do
    let ctx ← update fuel ctx final (BitVec.ofNat 32 (if kHashLen < pl then kHashLen else pl.toNat))
    addFinal fuel final ctx (pl - kHashLen)
  else .ok ctx
termination_by pl.toNat
decreasing_by all_goals exact sub_kHashLen_lt (by assumption)

/-- The loop over the bits of the length of the password. -/
def addBits (fuel : Nat) (final pw : Bytes) : Nat → Context → Int → Except Failure Context
  | 0, ctx, i => if i = 0 then .ok ctx else .error .unended
  | bits + 1, ctx, i =>
    if i = 0 then .ok ctx
    else do
      let ctx ← (if i % 2 = 1 then update fuel ctx final 1 else update fuel ctx pw 1)
      addBits fuel final pw bits ctx (i >>> (1 : Nat))

/-- The length of a string, which ends in its memory. -/
def strlenIn (mem : Bytes) : Except Failure Nat :=
  match strlen mem with
  | some len => .ok len
  | none => .error .outside

/-- The hash before the rounds, and `ctx1` in the end. -/
def firstHash (fuel : Nat) (ctx ctx1 : Context) (pw sp : Bytes) (sl : Nat) :
    Except Failure (Bytes × Context) := do
  let len ← strlenIn pw
  let ctx ← update fuel (init ctx) pw (BitVec.ofNat 32 len)
  let ctx ← update fuel ctx dufrId (BitVec.ofNat 32 dufrId.length)
  let ctx ← update fuel ctx sp (BitVec.ofNat 32 sl)
  let ctx1 ← update fuel (init ctx1) pw (BitVec.ofNat 32 len)
  let ctx1 ← update fuel ctx1 sp (BitVec.ofNat 32 sl)
  let ctx1 ← update fuel ctx1 pw (BitVec.ofNat 32 len)
  let (final, ctx1) ← MD5Context.final fuel ctx1
  let ctx ← addFinal fuel final ctx (toInt len)
  let final := List.replicate kHashLen 0
  let ctx ← addBits fuel final pw fuel ctx (toInt len)
  let (final, _) ← MD5Context.final fuel ctx
  return (final, ctx1)

/-- One of the rounds that keep things from running too fast. -/
def round (fuel : Nat) (pw sp : Bytes) (sl : Nat) (last : Bytes × Context) (i : Nat) :
    Except Failure (Bytes × Context) := do
  let len ← strlenIn pw
  let (final, ctx1) := last
  let ctx1 := init ctx1
  let ctx1 ← (if i % 2 = 1 then update fuel ctx1 pw (BitVec.ofNat 32 len)
    else update fuel ctx1 final (BitVec.ofNat 32 kHashLen))
  let ctx1 ← (if i % 3 ≠ 0 then update fuel ctx1 sp (BitVec.ofNat 32 sl) else .ok ctx1)
  let ctx1 ← (if i % 7 ≠ 0 then update fuel ctx1 pw (BitVec.ofNat 32 len) else .ok ctx1)
  let ctx1 ← (if i % 2 = 1 then update fuel ctx1 final (BitVec.ofNat 32 kHashLen)
    else update fuel ctx1 pw (BitVec.ofNat 32 len))
  MD5Context.final fuel ctx1

/-- `final` at the end. -/
def hash (fuel : Nat) (ctx ctx1 : Context) (pw sp : Bytes) (sl : Nat) : Except Failure Bytes := do
  let first ← firstHash fuel ctx ctx1 pw sp sl
  let (final, _) ← (List.range 1000).foldlM (round fuel pw sp sl) first
  return final

/-- The bytes of a hash by their index. -/
def toDigest (final : Bytes) : Digest := fun i => final.getD i 0

/-- `MD5Encode`, with the contexts as they are on the stack. -/
def md5Encode (fuel : Nat) (ctx ctx1 : Context) (stack : Vector UInt8 120)
    (pw salt result : Bytes) (nbytes : Int) : Except Fault Bytes := do
  let (sp, sl) ← orFault .failed (refineSalt salt)
  let final ← orFault .failed (hash fuel ctx ctx1 pw sp sl).toOption
  let passwd ← putSalt stack.toList sp sl
  let p ← orFault .failed (strlen passwd)
  let passwd ← putGroups passwd p (groups (toDigest final))
  orFault .failed (strncpy result passwd ((nbytes - 1) % 2 ^ 64).toNat)

/-! ## What is hashed -/

/-- Strings with colons between them. -/
def joined (parts : List Bytes) : Bytes := (ascii ":").intercalate parts

/-- `H(A1)` -/
def hA1 (algorithm userName realm userPassword nonce cNonce : StrPtrLen) : Bytes :=
  let aHash := md5 (joined [bytes userName, bytes realm, bytes userPassword])
  if algorithm = sMD5Sess then hashToString (md5 (joined [aHash, bytes nonce, bytes cNonce]))
  else hashToString aHash

/-- `H(A2)` -/
def hA2 (qop method digestUri hEntity : StrPtrLen) : Bytes :=
  if qop = sQopAuthInt then
    hashToString (md5 (joined [bytes method, bytes digestUri, bytes hEntity]))
  else hashToString (md5 (joined [bytes method, bytes digestUri]))

/-- The digest of a request. -/
def requestDigest (hA1 nonce nonceCount cNonce qop method digestUri hEntity : StrPtrLen) : Bytes :=
  let hA2 := hA2 qop method digestUri hEntity
  match qop with
  | none => hashToString (md5 (joined [bytes hA1, bytes nonce, hA2]))
  | some qop =>
    hashToString (md5 (joined [bytes hA1, bytes nonce, bytes nonceCount, bytes cNonce, qop, hA2]))

variable {fuel : Nat} {context : Context} {m : Bytes}

theorem equal_iff (s compare : StrPtrLen) : equal s compare = true ↔ s = compare := by
  cases s <;> cases compare <;> simp [equal]

/-! ## Rules for calls -/

/-- Short enough behind any bytes that wait. -/
def Short (s : Bytes) : Prop := s.length + 63 < 2 ^ 32

instance (s : Bytes) : Decidable (Short s) := inferInstanceAs (Decidable (_ < _))

/-- What gives a context that has been given the message. -/
def Gives (x : Except Failure Context) (m : Bytes) : Prop :=
  ∃ context, x = .ok context ∧ Represents context m

theorem gives_bind {β : Type} {x : Except Failure Context} {next : Context → Except Failure β}
    {result : Except Failure β} (hx : Gives x m)
    (hnext : ∀ context, Represents context m → next context = result) :
    x.bind next = result := by
  obtain ⟨context, rfl, h⟩ := hx
  exact hnext context h

theorem Gives.bind {x : Except Failure Context} {next : Context → Except Failure Context}
    {m' : Bytes} (hx : Gives x m) (hnext : ∀ context, Represents context m → Gives (next context) m') :
    Gives (x.bind next) m' := by
  obtain ⟨context, rfl, h⟩ := hx
  exact hnext context h

/-- A call with a short piece of the input gives the message with the piece. -/
theorem update_gives {input : Bytes} {n : Nat} (hfuel : 2 ^ 26 ≤ fuel) (h : Represents context m)
    (hn : n ≤ input.length) (hshort : n + 63 < 2 ^ 32) :
    Gives (update fuel context input (BitVec.ofNat 32 n)) (m ++ input.take n) := by
  have hlen : (BitVec.ofNat 32 n).toNat = n := by
    rw [BitVec.toNat_ofNat, Nat.mod_eq_of_lt (by omega)]
  obtain ⟨context', h', hcall⟩ :=
    update_represents h (show (BitVec.ofNat 32 n).toNat ≤ input.length by omega) fuel
  rw [hlen] at h' hcall
  have hends : Ends fuel m.length n := fun _ => ⟨by omega, by omega⟩
  exact ⟨context', hcall.1 hends, h'⟩

theorem add_gives {s : StrPtrLen} (hfuel : 2 ^ 26 ≤ fuel) (h : Represents context m)
    (hshort : Short (bytes s)) : Gives (add fuel context s) (m ++ bytes s) := by
  have hgives := update_gives hfuel h (le_refl (bytes s).length) hshort
  rwa [List.take_length] at hgives

theorem add_bind {β : Type} {s : StrPtrLen} {next : Context → Except Failure β}
    {result : Except Failure β} (hfuel : 2 ^ 26 ≤ fuel) (h : Represents context m) (hshort : Short (bytes s))
    (hnext : ∀ context', Represents context' (m ++ bytes s) → next context' = result) :
    (add fuel context s).bind next = result :=
  gives_bind (add_gives hfuel h hshort) hnext

theorem final_bind {β : Type} {next : Bytes × Context → Except Failure β}
    {result : Except Failure β} (hfuel : 2 ^ 26 ≤ fuel) (h : Represents context m)
    (hnext : next (md5 m, zeroized) = result) : (final fuel context).bind next = result := by
  rw [(final_represents h fuel).1 (by omega)]
  exact hnext

theorem short_sColon : Short (bytes sColon) := by decide

theorem length_md5 (m : Bytes) : (md5 m).length = kHashLen := length_encode _

theorem length_hashToString (aHash : Bytes) : (hashToString aHash).length = 2 * aHash.length := by
  induction aHash with
  | nil => rfl
  | cons c aHash ih =>
    rw [hashToString, List.flatMap_cons, List.length_append, ← hashToString, ih]
    simp only [List.length_cons, List.length_nil]
    omega

theorem length_hashToString_md5 (m : Bytes) : (hashToString (md5 m)).length = 32 := by
  rw [length_hashToString, length_md5, kHashLen]

/-! ## The digests -/

theorem calcMD5HA1_eq (hfuel : 2 ^ 26 ≤ fuel) (context : Context)
    {userName realm userPassword : StrPtrLen} (huser : Short (bytes userName))
    (hrealm : Short (bytes realm)) (hpassword : Short (bytes userPassword)) :
    calcMD5HA1 fuel context userName realm userPassword =
      .ok (md5 (joined [bytes userName, bytes realm, bytes userPassword])) := by
  refine add_bind hfuel (init_represents context) huser fun _ h => ?_
  refine add_bind hfuel h short_sColon fun _ h => ?_
  refine add_bind hfuel h hrealm fun _ h => ?_
  refine add_bind hfuel h short_sColon fun _ h => ?_
  refine add_bind hfuel h hpassword fun _ h => ?_
  refine final_bind hfuel h ?_
  simp [joined, List.intercalate, bytes, sColon, pure, Except.pure]

theorem calcSession_eq (hfuel : 2 ^ 26 ≤ fuel) (context : Context) {aHash : Bytes}
    {nonce cNonce : StrPtrLen} (hlen : aHash.length = kHashLen) (hnonce : Short (bytes nonce))
    (hcNonce : Short (bytes cNonce)) :
    calcSession fuel context aHash nonce cNonce =
      .ok (md5 (joined [aHash, bytes nonce, bytes cNonce])) := by
  refine gives_bind (update_gives hfuel (init_represents context) (le_of_eq hlen.symm)
    (by decide)) fun _ h => ?_
  refine add_bind hfuel h short_sColon fun _ h => ?_
  refine add_bind hfuel h hnonce fun _ h => ?_
  refine add_bind hfuel h short_sColon fun _ h => ?_
  refine add_bind hfuel h hcNonce fun _ h => ?_
  refine final_bind hfuel h ?_
  rw [← hlen, List.take_length]
  simp [joined, List.intercalate, bytes, sColon, pure, Except.pure]

theorem calcHA1_eq (hfuel : 2 ^ 26 ≤ fuel) (context : Context)
    {algorithm userName realm userPassword nonce cNonce : StrPtrLen}
    (huser : Short (bytes userName)) (hrealm : Short (bytes realm))
    (hpassword : Short (bytes userPassword)) (hnonce : Short (bytes nonce))
    (hcNonce : Short (bytes cNonce)) :
    calcHA1 fuel context algorithm userName realm userPassword nonce cNonce =
      .ok (hA1 algorithm userName realm userPassword nonce cNonce) := by
  refine add_bind hfuel (init_represents context) huser fun _ h => ?_
  refine add_bind hfuel h short_sColon fun _ h => ?_
  refine add_bind hfuel h hrealm fun _ h => ?_
  refine add_bind hfuel h short_sColon fun _ h => ?_
  refine add_bind hfuel h hpassword fun _ h => ?_
  refine final_bind hfuel h ?_
  have hmessage : [] ++ bytes userName ++ bytes sColon ++ bytes realm ++ bytes sColon ++
      bytes userPassword = joined [bytes userName, bytes realm, bytes userPassword] := by
    simp [joined, List.intercalate, bytes, sColon]
  rw [hmessage]
  simp only [equal_iff, hA1]
  split_ifs
  · rw [calcSession_eq hfuel zeroized (length_md5 _) hnonce hcNonce]
    rfl
  · rfl

theorem calcHA1Md5Sess_eq (hfuel : 2 ^ 26 ≤ fuel) (context : Context)
    {hashA1Hex16Bit nonce cNonce : StrPtrLen} (hlen : (bytes hashA1Hex16Bit).length = kHashLen)
    (hnonce : Short (bytes nonce)) (hcNonce : Short (bytes cNonce)) :
    calcHA1Md5Sess fuel context hashA1Hex16Bit nonce cNonce =
      .ok (hashToString (md5 (joined [bytes hashA1Hex16Bit, bytes nonce, bytes cNonce]))) := by
  rw [calcHA1Md5Sess, calcSession_eq hfuel context hlen hnonce hcNonce]
  rfl

/-- The entity is hashed for `auth-int` only. -/
theorem entity_gives (hfuel : 2 ^ 26 ≤ fuel) (h : Represents context m) (qop : StrPtrLen)
    {hEntity : StrPtrLen} (hhEntity : Short (bytes hEntity)) :
    Gives (addEntity fuel context qop hEntity)
      (m ++ if qop = sQopAuthInt then ascii ":" ++ bytes hEntity else []) := by
  simp only [addEntity, equal_iff]
  split_ifs
  · rw [← List.append_assoc]
    exact (add_gives hfuel h short_sColon).bind fun _ h => add_gives hfuel h hhEntity
  · exact ⟨context, rfl, by rwa [List.append_nil]⟩

/-- The strings that are hashed if there is a `qop` directive. -/
theorem directive_gives (hfuel : 2 ^ 26 ≤ fuel) (h : Represents context m)
    {nonceCount cNonce qop : StrPtrLen} (hnonceCount : Short (bytes nonceCount))
    (hcNonce : Short (bytes cNonce)) (hqop : Short (bytes qop)) :
    Gives (addDirective fuel context nonceCount cNonce qop)
      (m ++ if qop ≠ none then
        bytes nonceCount ++ ascii ":" ++ bytes cNonce ++ ascii ":" ++ bytes qop ++ ascii ":"
        else []) := by
  unfold addDirective
  split_ifs
  · simp only [← List.append_assoc]
    refine (add_gives hfuel h hnonceCount).bind fun _ h => ?_
    refine (add_gives hfuel h short_sColon).bind fun _ h => ?_
    refine (add_gives hfuel h hcNonce).bind fun _ h => ?_
    refine (add_gives hfuel h short_sColon).bind fun _ h => ?_
    exact (add_gives hfuel h hqop).bind fun _ h => add_gives hfuel h short_sColon
  · exact ⟨context, rfl, by rwa [List.append_nil]⟩

theorem calcRequestDigest_eq (hfuel : 2 ^ 26 ≤ fuel) (context : Context)
    {hA1 nonce nonceCount cNonce qop method digestUri hEntity : StrPtrLen}
    (hhA1 : Short (bytes hA1)) (hnonce : Short (bytes nonce))
    (hnonceCount : Short (bytes nonceCount)) (hcNonce : Short (bytes cNonce))
    (hqop : Short (bytes qop)) (hmethod : Short (bytes method))
    (hdigestUri : Short (bytes digestUri)) (hhEntity : Short (bytes hEntity)) :
    calcRequestDigest fuel context hA1 nonce nonceCount cNonce qop method digestUri hEntity =
      .ok (requestDigest hA1 nonce nonceCount cNonce qop method digestUri hEntity) := by
  refine add_bind hfuel (init_represents context) hmethod fun _ h => ?_
  refine add_bind hfuel h short_sColon fun _ h => ?_
  refine add_bind hfuel h hdigestUri fun _ h => ?_
  refine gives_bind (entity_gives hfuel h qop hhEntity) fun _ h => ?_
  refine final_bind hfuel h ?_
  have hA2_eq : hashToString (md5 ([] ++ bytes method ++ bytes sColon ++ bytes digestUri ++
      if qop = sQopAuthInt then ascii ":" ++ bytes hEntity else [])) =
      hA2 qop method digestUri hEntity := by
    unfold hA2
    split_ifs <;> simp [joined, List.intercalate, bytes, sColon]
  have hshort : Short (bytes (some (hA2 qop method digestUri hEntity))) := by
    rw [← hA2_eq, Short, bytes, Option.getD_some, length_hashToString_md5]
    decide
  simp only [hA2_eq]
  refine add_bind hfuel (init_represents zeroized) hhA1 fun _ h => ?_
  refine add_bind hfuel h short_sColon fun _ h => ?_
  refine add_bind hfuel h hnonce fun _ h => ?_
  refine add_bind hfuel h short_sColon fun _ h => ?_
  refine gives_bind (directive_gives hfuel h hnonceCount hcNonce hqop) fun _ h => ?_
  refine add_bind hfuel h hshort fun _ h => ?_
  refine final_bind hfuel h ?_
  cases qop <;> simp [requestDigest, joined, List.intercalate, bytes, sColon, pure, Except.pure]

/-- The response to a challenge is the digest of the request, for every algorithm and every `qop`
directive, given or not. A stored hash of the user gives the same `H(A1)` of a session. -/
theorem response_eq (hfuel : 2 ^ 26 ≤ fuel) (context : Context)
    {algorithm userName realm userPassword nonce nonceCount cNonce qop method digestUri hEntity :
      StrPtrLen}
    (hshort : ∀ s ∈ [userName, realm, userPassword, nonce, nonceCount, cNonce, qop, method,
      digestUri, hEntity], Short (bytes s)) :
    (calcHA1 fuel context algorithm userName realm userPassword nonce cNonce).bind (fun h =>
        calcRequestDigest fuel context (some h) nonce nonceCount cNonce qop method digestUri
          hEntity) =
        .ok (requestDigest (some (hA1 algorithm userName realm userPassword nonce cNonce)) nonce
          nonceCount cNonce qop method digestUri hEntity) ∧
      (calcMD5HA1 fuel context userName realm userPassword).bind (fun h =>
        calcHA1Md5Sess fuel context (some h) nonce cNonce) =
        calcHA1 fuel context sMD5Sess userName realm userPassword nonce cNonce := by
  simp only [List.mem_cons, List.not_mem_nil, or_false, forall_eq_or_imp, forall_eq] at hshort
  obtain ⟨huser, hrealm, hpassword, hnonce, hnonceCount, hcNonce, hqop, hmethod, huri,
    hentity⟩ := hshort
  constructor
  · have hhA1 : Short (bytes (some (hA1 algorithm userName realm userPassword nonce cNonce))) := by
      have hlen : (hA1 algorithm userName realm userPassword nonce cNonce).length = 32 := by
        unfold hA1
        split_ifs <;> exact length_hashToString_md5 _
      rw [Short, bytes, Option.getD_some, hlen]
      omega
    rw [calcHA1_eq hfuel context huser hrealm hpassword hnonce hcNonce, Except.bind,
      calcRequestDigest_eq hfuel context hhA1 hnonce hnonceCount hcNonce hqop hmethod huri hentity]
  · have hlen : (bytes (some (md5 (joined [bytes userName, bytes realm,
        bytes userPassword])))).length = kHashLen := length_md5 _
    rw [calcHA1_eq hfuel context huser hrealm hpassword hnonce hcNonce,
      calcMD5HA1_eq hfuel context huser hrealm hpassword, Except.bind,
      calcHA1Md5Sess_eq hfuel context hlen hnonce hcNonce]
    rfl

/-- A session with an integrity check, and a request without a directive. -/
theorem response_eq_session :
    (calcHA1 (2 ^ 26) zeroized sMD5Sess (some (ascii "user")) (some (ascii "realm"))
        (some (ascii "secret")) (some (ascii "n")) none).bind (fun h =>
      calcRequestDigest (2 ^ 26) zeroized (some h) (some (ascii "n")) (some (ascii "1")) none
        sQopAuthInt (some (ascii "GET")) (some (ascii "/")) (some (ascii "e"))) =
      .ok (requestDigest (some (hA1 sMD5Sess (some (ascii "user")) (some (ascii "realm"))
        (some (ascii "secret")) (some (ascii "n")) none)) (some (ascii "n")) (some (ascii "1")) none
        sQopAuthInt (some (ascii "GET")) (some (ascii "/")) (some (ascii "e"))) :=
  (response_eq (le_refl (2 ^ 26)) zeroized (by decide)).1

/-! ## Contexts stand for the bytes they were given -/

variable {pw p sp final : Bytes} {sl n : Nat}

/-- A call gives what stands for a value, or fails where there is none. -/
def Rel {α β : Type} (R : α → β → Prop) (x : Except Failure α) (y : Option β) : Prop :=
  Option.Rel R x.toOption y

theorem Rel.ok {α β : Type} {R : α → β → Prop} {a : α} {b : β} (h : R a b) :
    Rel R (.ok a) (some b) :=
  Option.Rel.some h

theorem Rel.error {α β : Type} {R : α → β → Prop} (failure : Failure) :
    Rel R (.error failure : Except Failure α) none :=
  Option.Rel.none

theorem rel_bind {α β γ δ : Type} {R : α → β → Prop} {S : γ → δ → Prop} {x : Except Failure α}
    {y : Option β} {f : α → Except Failure γ} {g : β → Option δ} (h : Rel R x y)
    (hstep : ∀ a b, R a b → Rel S (f a) (g b)) : Rel S (x.bind f) (y.bind g) := by
  cases x with
  | error failure =>
    cases h
    exact .error failure
  | ok a =>
    cases h with
    | some hab => exact hstep _ _ hab

theorem rel_bind_left {α β γ : Type} {R : α → β → Prop} {S : γ → β → Prop}
    {x : Except Failure α} {y : Option β} {f : α → Except Failure γ} (h : Rel R x y)
    (hstep : ∀ a b, R a b → Rel S (f a) (some b)) : Rel S (x.bind f) y := by
  cases x with
  | error failure =>
    cases h
    exact .error failure
  | ok a =>
    cases h with
    | some hab => exact hstep _ _ hab

/-- The hash of the bytes that a context was given. -/
def md5Digest (m : Bytes) : Digest := toDigest (md5 m)

theorem ofFn_toDigest (hfinal : final.length = kHashLen) : List.ofFn (toDigest final) = final := by
  refine List.ext_getElem (by rw [List.length_ofFn, hfinal]) fun i _ hi => ?_
  rw [List.getElem_ofFn, toDigest, List.getD_eq_getElem?_getD, List.getElem?_eq_getElem hi,
    Option.getD_some]

theorem toDigest_ofFn (final : Digest) : toDigest (List.ofFn final) = final := by
  funext i
  rw [toDigest, List.getD_eq_getElem?_getD, List.getElem?_ofFn, dif_pos i.isLt, Option.getD_some]

theorem update_rel {input : Bytes} (hfuel : 2 ^ 26 ≤ fuel) (h : Represents context m)
    (hn : n ≤ input.length) (hshort : n + 63 < 2 ^ 32) :
    Rel Represents (update fuel context input (BitVec.ofNat 32 n))
      (MD5.update m input n) := by
  obtain ⟨context', hcall, h'⟩ := update_gives hfuel h hn hshort
  rw [hcall, MD5.update, Nat.mod_eq_of_lt (by omega), if_pos hn]
  exact .ok h'

theorem strlen_rel (hp : 0 ∉ p) (beyond : Bytes) :
    Rel (fun len len' => len = p.length ∧ len' = p.length) (strlenIn (p ++ 0 :: beyond))
      (strlen (p ++ 0 :: beyond)) := by
  rw [strlenIn, MD5.strlen_append hp]
  exact .ok ⟨rfl, rfl⟩

theorem addFinal_rel (hfuel : 2 ^ 26 ≤ fuel) (h : Represents context m)
    (hfinal : final.length = kHashLen) (pl : Int) :
    Rel Represents (addFinal fuel final context pl) (MD5.addFinal final m pl) := by
  fun_induction MD5.addFinal final m pl generalizing context with
  | case1 m pl hpl ih =>
    have hlen : (if (kHashLen : Int) < pl then kHashLen else pl.toNat) ≤ kHashLen := by
      split_ifs <;> omega
    rw [addFinal, if_pos hpl]
    refine rel_bind (update_rel hfuel h (hfinal ▸ hlen) ?_) fun _ m h => ih m h
    exact Nat.lt_of_le_of_lt (Nat.add_le_add_right hlen 63) (by decide)
  | case2 m pl hpl =>
    rw [addFinal, if_neg hpl]
    exact .ok h

theorem addBits_rel (hfuel : 2 ^ 26 ≤ fuel) (h : Represents context m) (hfinal : final ≠ [])
    (hpw : pw ≠ []) (bits : Nat) (i : Int) :
    Rel Represents (addBits fuel final pw bits context i)
      (MD5.addBits final pw bits m i) := by
  induction bits generalizing context m i with
  | zero =>
    rw [addBits, MD5.addBits]
    split_ifs
    · exact .ok h
    · exact .error _
  | succ bits ih =>
    rw [addBits, MD5.addBits]
    split_ifs
    · exact .ok h
    · exact rel_bind (update_rel hfuel h (List.length_pos_iff.mpr hfinal) (by decide))
        fun _ _ h => ih h _
    · exact rel_bind (update_rel hfuel h (List.length_pos_iff.mpr hpw) (by decide))
        fun _ _ h => ih h _

theorem ofFn_md5Digest (m : Bytes) : List.ofFn (md5Digest m) = md5 m :=
  ofFn_toDigest (length_md5 m)

/-- A hash and its bytes. -/
def SameHash (last : Bytes × Context) (final : Digest) : Prop := last.1 = List.ofFn final

theorem final_rel (hfuel : 2 ^ 26 ≤ fuel) (h : Represents context m) :
    Rel SameHash (MD5Context.final fuel context) (some (md5Digest m)) := by
  rw [(final_represents h fuel).1 (by omega)]
  exact .ok (ofFn_md5Digest m).symm

theorem rel_final_bind {α β : Type} {R : α → β → Prop} {next : Bytes × Context → Except Failure α}
    {y : Option β} (hfuel : 2 ^ 26 ≤ fuel) (h : Represents context m)
    (hnext : Rel R (next (md5 m, zeroized)) y) :
    Rel R ((MD5Context.final fuel context).bind next) y := by
  rwa [final_bind hfuel h rfl]

theorem firstHash_rel (hfuel : 2 ^ 26 ≤ fuel) (ctx ctx1 : Context) (hp : 0 ∉ p)
    (hshort : Short p) (beyond : Bytes) (hsl : sl ≤ sp.length) (hsalt : sl ≤ 8) :
    Rel SameHash (firstHash fuel ctx ctx1 (p ++ 0 :: beyond) sp sl)
      (MD5.firstHash md5Digest fuel (p ++ 0 :: beyond) sp sl) := by
  have hlen : p.length ≤ (p ++ 0 :: beyond).length := by simp
  have hpw {context : Context} {m : Bytes} (h : Represents context m) :=
    update_rel hfuel h hlen hshort
  have hsp {context : Context} {m : Bytes} (h : Represents context m) :=
    update_rel hfuel h hsl (show sl + 63 < 2 ^ 32 by omega)
  refine rel_bind (strlen_rel hp beyond) ?_
  rintro _ _ ⟨rfl, rfl⟩
  refine rel_bind (hpw (init_represents ctx)) fun _ _ h => ?_
  refine rel_bind (update_rel hfuel h (le_refl _) (by decide)) fun _ _ h => ?_
  refine rel_bind (hsp h) fun _ _ hctx => ?_
  refine rel_bind (hpw (init_represents ctx1)) fun _ _ h => ?_
  refine rel_bind (hsp h) fun _ _ h => ?_
  refine rel_bind (hpw h) fun _ m1 h => ?_
  refine rel_final_bind hfuel h ?_
  rw [ofFn_md5Digest]
  refine rel_bind (addFinal_rel hfuel hctx (length_md5 m1) _) fun _ _ h => ?_
  refine rel_bind (addBits_rel hfuel h (by decide) (by simp) _ _) fun _ m h => ?_
  refine rel_final_bind hfuel h ?_
  exact .ok (ofFn_md5Digest m).symm

theorem ite_rel {α β : Type} {R : α → β → Prop} {c : Prop} [Decidable c]
    {x x' : Except Failure α} {y y' : Option β} (h : Rel R x y) (h' : Rel R x' y') :
    Rel R (if c then x else x') (if c then y else y') := by
  split_ifs
  · exact h
  · exact h'

theorem round_rel (hfuel : 2 ^ 26 ≤ fuel) {last : Bytes × Context} {final : Digest}
    (hlast : SameHash last final) (hp : 0 ∉ p) (hshort : Short p) (beyond : Bytes)
    (hsl : sl ≤ sp.length) (hsalt : sl ≤ 8) (i : Nat) :
    Rel SameHash (round fuel (p ++ 0 :: beyond) sp sl last i)
      (MD5.round md5Digest (p ++ 0 :: beyond) sp sl final i) := by
  have hlen : p.length ≤ (p ++ 0 :: beyond).length := by simp
  have hpw {context : Context} {m : Bytes} (h : Represents context m) :=
    update_rel hfuel h hlen hshort
  have hsp {context : Context} {m : Bytes} (h : Represents context m) :=
    update_rel hfuel h hsl (show sl + 63 < 2 ^ 32 by omega)
  have hhash {context : Context} {m : Bytes} (h : Represents context m) :=
    update_rel hfuel h (show kHashLen ≤ (List.ofFn final).length by simp) (by decide)
  obtain ⟨bytes, ctx1⟩ := last
  obtain rfl : bytes = List.ofFn final := hlast
  refine rel_bind (strlen_rel hp beyond) ?_
  rintro _ _ ⟨rfl, rfl⟩
  have hinit := init_represents ctx1
  refine rel_bind (ite_rel (hpw hinit) (hhash hinit)) fun _ _ h => ?_
  refine rel_bind (ite_rel (hsp h) (.ok h)) fun _ _ h => ?_
  refine rel_bind (ite_rel (hpw h) (.ok h)) fun _ _ h => ?_
  refine rel_bind (ite_rel (hhash h) (hpw h)) fun _ _ h => ?_
  exact final_rel hfuel h

theorem foldlM_rel {α β γ : Type} {R : α → β → Prop} {f : α → γ → Except Failure α}
    {g : β → γ → Option β} (hstep : ∀ a b i, R a b → Rel R (f a i) (g b i)) (l : List γ)
    {a : α} {b : β} (h : R a b) : Rel R (l.foldlM f a) (l.foldlM g b) := by
  induction l generalizing a b with
  | nil => exact .ok h
  | cons i l ih =>
    rw [List.foldlM_cons, List.foldlM_cons]
    exact rel_bind (hstep a b i h) fun _ _ h => ih h

theorem hash_rel (hfuel : 2 ^ 26 ≤ fuel) (ctx ctx1 : Context) (hp : 0 ∉ p) (hshort : Short p)
    (beyond : Bytes) (hsl : sl ≤ sp.length) (hsalt : sl ≤ 8) :
    Rel (fun bytes final => bytes = List.ofFn final)
      (hash fuel ctx ctx1 (p ++ 0 :: beyond) sp sl)
      (MD5.hash md5Digest fuel (p ++ 0 :: beyond) sp sl) := by
  have hfirst := firstHash_rel hfuel ctx ctx1 hp hshort beyond hsl hsalt
  have hrounds {first : Bytes × Context} {final : Digest} (h : SameHash first final) :=
    foldlM_rel (fun _ _ i h => round_rel hfuel h hp hshort beyond hsl hsalt i) (List.range 1000) h
  refine rel_bind hfirst fun first final h => ?_
  exact rel_bind_left (hrounds h) fun _ _ h => .ok h

theorem saltLength_lt {left : Nat} {s : Bytes} (h : MD5.saltLength left s = some n) :
    n < s.length := by
  fun_induction MD5.saltLength left s generalizing n <;> grind [Option.map_eq_some_iff]

theorem refineSalt_bounds {mem : Bytes} (h : refineSalt mem = some (sp, sl)) :
    sl ≤ sp.length ∧ sl ≤ 8 := by
  refine ⟨?_, MD5.refineSalt_le h⟩
  obtain ⟨hashed, -, h⟩ := Option.bind_eq_some_iff.mp h
  obtain ⟨n, hn, h⟩ := Option.bind_eq_some_iff.mp h
  cases h
  exact (saltLength_lt hn).le

/-- `MD5Encode` stores with the contexts of MD5, filled block by block, what it stores if a
context is the bytes it was given. -/
theorem md5Encode_eq (hfuel : 2 ^ 26 ≤ fuel) (ctx ctx1 : Context) (stack : Vector UInt8 120)
    {p : Bytes} (hp : 0 ∉ p) (hshort : Short p) (beyond salt result : Bytes) (nbytes : Int) :
    md5Encode fuel ctx ctx1 stack (p ++ 0 :: beyond) salt result nbytes =
      MD5.md5Encode md5Digest fuel stack (p ++ 0 :: beyond) salt result nbytes := by
  unfold md5Encode MD5.md5Encode
  cases hsalt : refineSalt salt with
  | none => rfl
  | some refined =>
    obtain ⟨sp, sl⟩ := refined
    obtain ⟨hsl, hle⟩ := refineSalt_bounds hsalt
    have hhash := hash_rel hfuel ctx ctx1 hp hshort beyond hsl hle
    simp only [MD5.orFault_some_bind]
    unfold Rel at hhash
    generalize (hash fuel ctx ctx1 (p ++ 0 :: beyond) sp sl).toOption = bytes at hhash
    generalize MD5.hash md5Digest fuel (p ++ 0 :: beyond) sp sl = final at hhash
    cases hhash with
    | none => rfl
    | some hbytes => simp only [MD5.orFault_some_bind, hbytes, toDigest_ofFn]

/-- A short password and a salt without a separator. -/
theorem md5Encode_eq_short :
    md5Encode (2 ^ 26) zeroized zeroized (Vector.replicate 120 0) (ascii "secret" ++ [0])
        (ascii "ab" ++ [0]) (List.replicate 33 0) 33 =
      MD5.md5Encode md5Digest (2 ^ 26) (Vector.replicate 120 0) (ascii "secret" ++ [0])
        (ascii "ab" ++ [0]) (List.replicate 33 0) 33 :=
  md5Encode_eq (le_refl (2 ^ 26)) zeroized zeroized _ (by decide) (by decide) [] _ _ _

end CxxFramework.Basic.MD5Digest
