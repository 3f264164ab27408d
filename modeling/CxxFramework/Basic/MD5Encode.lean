import CxxFramework.Core.CString
import CxxFramework.Library.Buffer
import Mathlib.Algebra.Group.Int.Defs
import Mathlib.Algebra.Group.Nat.Defs

/-!
# Password hashes

`MD5Encode` hashes a password with a salt, and gives the salt with the hash. MD5 is an
arbitrary function of the bytes that are hashed. A context is the bytes it was given.

A pointer into a string is the memory from it on, and the memory of `passwd` is on the stack,
where it holds arbitrary bytes at first. `none` stands for an access outside of a string's
memory, and for a loop that has not ended when the fuel is used up.
-/

namespace CxxFramework.Basic.MD5

open CxxFramework.Core Buffer

abbrev kHashLen : Nat := 16

abbrev Digest := Fin kHashLen → UInt8

/-- `MD5_Update` on a context. The length is an `unsigned int`. -/
def update (ctx input : Bytes) (inputLen : Nat) : Option Bytes :=
  if inputLen % 2 ^ 32 ≤ input.length then some (ctx ++ input.take (inputLen % 2 ^ 32)) else none

/-- The conversion of a `size_t` to an `int`. -/
def toInt (n : Nat) : Int := (n : Int).bmod (2 ^ 32)

/-- The string in a memory that holds its terminator. -/
def string (mem : Bytes) : Option Bytes := if 0 ∈ mem then some (cString mem) else none

def strlen (mem : Bytes) : Option Nat := (string mem).map List.length

/-! ## The salt -/

/-- `dufr_id` -/
def dufrId : Bytes := ascii "$dufr$"

/-- `!strncmp(sp, dufr_id, strlen(dufr_id))`, for the rest of `dufr_id`. -/
def startsWith : Bytes → Bytes → Option Bool
  | [], _ => some true
  | _ :: _, [] => none
  | c :: pat, a :: sp => if a = c then startsWith pat sp else some false

/-- The length of the true salt. The character behind the last one is read, too. -/
def saltLength : Nat → Bytes → Option Nat
  | _, [] => none
  | left, c :: sp =>
    if c ≠ 0 ∧ c ≠ 36 ∧ 0 < left then (saltLength (left - 1) sp).map (· + 1) else some 0

/-- `sp` and `sl`. -/
def refineSalt (salt : Bytes) : Option (Bytes × Nat) := do
  let hashed ← startsWith dufrId salt
  let sp := if hashed then salt.drop dufrId.length else salt
  let sl ← saltLength 8 sp
  return (sp, sl)

/-! ## The hash -/

/-- The loop that adds as many bytes of `final` as the password has. -/
def addFinal (final ctx : Bytes) (pl : Int) : Option Bytes :=
  if 0 < pl then do
    let ctx ← update ctx final (if kHashLen < pl then kHashLen else pl.toNat)
    addFinal final ctx (pl - kHashLen)
  else some ctx
termination_by pl.toNat

/-- The loop over the bits of the length of the password. -/
def addBits (final pw : Bytes) : Nat → Bytes → Int → Option Bytes
  | 0, ctx, i => if i = 0 then some ctx else none
  | fuel + 1, ctx, i =>
    if i = 0 then some ctx
    else do
      let ctx ← (if i % 2 = 1 then update ctx final 1 else update ctx pw 1)
      addBits final pw fuel ctx (i >>> (1 : Nat))

variable (md5 : Bytes → Digest)

/-- The hash before the rounds. -/
def firstHash (fuel : Nat) (pw sp : Bytes) (sl : Nat) : Option Digest := do
  let len ← strlen pw
  let ctx ← update [] pw len
  let ctx ← update ctx dufrId dufrId.length
  let ctx ← update ctx sp sl
  let ctx1 ← update [] pw len
  let ctx1 ← update ctx1 sp sl
  let ctx1 ← update ctx1 pw len
  let final := List.ofFn (md5 ctx1)
  let ctx ← addFinal final ctx (toInt len)
  let final := List.replicate kHashLen 0
  let ctx ← addBits final pw fuel ctx (toInt len)
  return md5 ctx

/-- One of the rounds that keep things from running too fast. -/
def round (pw sp : Bytes) (sl : Nat) (final : Digest) (i : Nat) : Option Digest := do
  let len ← strlen pw
  let ctx1 ← (if i % 2 = 1 then update [] pw len else update [] (List.ofFn final) kHashLen)
  let ctx1 ← (if i % 3 ≠ 0 then update ctx1 sp sl else some ctx1)
  let ctx1 ← (if i % 7 ≠ 0 then update ctx1 pw len else some ctx1)
  let ctx1 ← (if i % 2 = 1 then update ctx1 (List.ofFn final) kHashLen else update ctx1 pw len)
  return md5 ctx1

/-- `final` at the end. -/
def hash (fuel : Nat) (pw sp : Bytes) (sl : Nat) : Option Digest := do
  let final ← firstHash md5 fuel pw sp sl
  (List.range 1000).foldlM (round md5 pw sp sl) final

/-! ## The output string -/

/-- What goes wrong in a call. -/
inductive Fault where
  /-- A write behind the end of `passwd`. -/
  | overrun
  /-- What `none` stands for. -/
  | failed
  deriving DecidableEq

def orFault {α : Type} (fault : Fault) : Option α → Except Fault α
  | some a => .ok a
  | none => .error fault

/-- A write to `passwd`. -/
def store (passwd : Bytes) (pos : Nat) (data : Bytes) : Except Fault Bytes :=
  orFault .overrun (write passwd pos data)

def strcpy (passwd src : Bytes) : Except Fault Bytes := store passwd 0 (cString src ++ [0])

def strncat (passwd src : Bytes) (n : Nat) : Except Fault Bytes := do
  let len ← orFault .failed (strlen passwd)
  store passwd len ((cString src).take n ++ [0])

def strcat (passwd src : Bytes) : Except Fault Bytes := do
  let len ← orFault .failed (strlen passwd)
  store passwd len (cString src ++ [0])

/-- The start of the output string. -/
def putSalt (passwd sp : Bytes) (sl : Nat) : Except Fault Bytes := do
  let passwd ← strcpy passwd dufrId
  let passwd ← strncat passwd sp sl
  strcat passwd (ascii "$")

def itoa64 : Bytes := ascii "./0123456789ABCDEFGHIJKLMNOPQRSTUVWXYZabcdefghijklmnopqrstuvwxyz"

theorem mask_lt (v : BitVec 32) : (v &&& 0x3f).toNat < itoa64.length := by
  rw [BitVec.toNat_and]
  exact Nat.lt_of_le_of_lt Nat.and_le_right (by decide)

/-- `itoa64[v & 0x3f]` -/
def digit (v : BitVec 32) : UInt8 := itoa64.get ⟨(v &&& 0x3f).toNat, mask_lt v⟩

def to64 (s : Bytes) (pos : Nat) (v : BitVec 32) : Nat → Except Fault Bytes
  | 0 => .ok s
  | n + 1 => do
    let s ← store s pos [digit v]
    to64 s (pos + 1) (v.sshiftRight 6) n

/-- `(final[a] << 16) | (final[b] << 8) | final[c]` -/
def group (final : Digest) (a b c : Fin kHashLen) : BitVec 32 :=
  (final a).toBitVec.zeroExtend 32 <<< 16 ||| (final b).toBitVec.zeroExtend 32 <<< 8 |||
    (final c).toBitVec.zeroExtend 32

/-- What is written of the hash, with the number of characters. -/
def groups (final : Digest) : List (BitVec 32 × Nat) :=
  [(group final 0 6 12, 4), (group final 1 7 13, 4), (group final 2 8 14, 4),
    (group final 3 9 15, 4), (group final 4 10 5, 4), ((final 11).toBitVec.zeroExtend 32, 2)]

/-- The groups are written from `p` on, and a terminator behind them. -/
def putGroups (passwd : Bytes) (p : Nat) : List (BitVec 32 × Nat) → Except Fault Bytes
  | [] => store passwd p [0]
  | (l, n) :: groups => do
    let passwd ← to64 passwd p l n
    putGroups passwd (p + n) groups

/-- `strncpy`, which fills up with zeros. -/
def strncpy (dst src : Bytes) (n : Nat) : Option Bytes :=
  let chars := (cString src).take n
  write dst 0 (chars ++ List.replicate (n - chars.length) 0)

/-- `MD5Encode`: the memory of the result. -/
def md5Encode (fuel : Nat) (stack : Vector UInt8 120) (pw salt result : Bytes) (nbytes : Int) :
    Except Fault Bytes := do
  let (sp, sl) ← orFault .failed (refineSalt salt)
  let final ← orFault .failed (hash md5 fuel pw sp sl)
  let passwd ← putSalt stack.toList sp sl
  let p ← orFault .failed (strlen passwd)
  let passwd ← putGroups passwd p (groups final)
  orFault .failed (strncpy result passwd ((nbytes - 1) % 2 ^ 64).toNat)

variable {md5} {ctx input salt tail front rest data pw sp s mem beyond result : Bytes}
  {final : Digest} {fuel sl left n : Nat} {a : UInt8} {i : Int}

theorem orFault_some_bind {α β : Type} (fault : Fault) (a : α) (f : α → Except Fault β) :
    (orFault fault (some a) >>= f) = f a := rfl

theorem ok_bind {α β : Type} (a : α) (f : α → Except Fault β) : (.ok a >>= f) = f a := rfl

theorem orFault_none_bind {α β : Type} (fault : Fault) (f : α → Except Fault β) :
    (orFault fault none >>= f) = .error fault := rfl

/-! ## Strings in memory -/

theorem string_append (hs : 0 ∉ s) : string (s ++ 0 :: rest) = some s := by
  rw [string, if_pos (by simp), cString_append_zero, cString_of_noZero hs]

theorem strlen_append (hs : 0 ∉ s) : strlen (s ++ 0 :: rest) = some s.length := by
  rw [strlen, string_append hs]
  rfl

theorem update_append (ctx : Bytes) (tail : Bytes) (hlen : salt.length < 2 ^ 32) :
    update ctx (salt ++ tail) salt.length = some (ctx ++ salt) := by
  rw [update, Nat.mod_eq_of_lt hlen, if_pos (by simp), List.take_left]

theorem update_isSome (ctx : Bytes) (hlen : n ≤ input.length) :
    ∃ ctx', update ctx input n = some ctx' :=
  ⟨_, if_pos ((Nat.mod_le ..).trans hlen)⟩

/-! ## The salt is found again -/

/-- What may stand as a salt between the separators of a stored hash. -/
structure IsSalt (salt : Bytes) : Prop where
  short : salt.length ≤ 8
  plain : 36 ∉ salt
  noZero : 0 ∉ salt

/-- The salt in a string: what stands in front of the first `$`, up to eight characters,
behind the magic string. -/
def saltOf (s : Bytes) : Bytes :=
  ((if dufrId <+: s then s.drop dufrId.length else s).takeWhile (· ≠ 36)).take 8

theorem startsWith_append (pat tail : Bytes) : startsWith pat (pat ++ tail) = some true := by
  induction pat with
  | nil => rfl
  | cons c pat ih => rw [List.cons_append, startsWith, if_pos rfl, ih]

theorem startsWith_eq {pat : Bytes} (hpat : 0 ∉ pat) (s beyond : Bytes) :
    startsWith pat (s ++ 0 :: beyond) = some (decide (pat <+: s)) := by
  fun_induction startsWith pat s <;> grind [startsWith]

/-- The salt ends at the end of the string, at the first `$` or behind eight characters. -/
theorem saltLength_eq (hs : 0 ∉ s) (ha : a = 0 ∨ a = 36) (left : Nat) (tail : Bytes) :
    saltLength left (s ++ a :: tail) = some ((s.takeWhile (· ≠ 36)).take left).length := by
  induction s generalizing left with
  | nil => rcases ha with rfl | rfl <;> simp [saltLength]
  | cons c s ih =>
    rw [List.mem_cons, not_or] at hs
    match left with
    | 0 => simp [saltLength]
    | left + 1 =>
      rw [List.cons_append, saltLength, Nat.add_sub_cancel, ih hs.2 left]
      by_cases hc : c = 36
      · simp [hc]
      · simp [hc, Ne.symm hs.1]

theorem saltOf_isPrefix (s : Bytes) :
    saltOf s <+: if dufrId <+: s then s.drop dufrId.length else s :=
  (List.take_prefix ..).trans (List.takeWhile_prefix _)

theorem saltOf_isSalt (hs : 0 ∉ s) : IsSalt (saltOf s) where
  short := List.length_take_le ..
  plain := fun h => by simpa using List.mem_takeWhile_imp (List.mem_of_mem_take h)
  noZero := fun h => by
    have hmem := (saltOf_isPrefix s).subset h
    split_ifs at hmem
    · exact hs (List.mem_of_mem_drop hmem)
    · exact hs hmem

/-- The salt that is read from a string. -/
theorem refineSalt_string (hs : 0 ∉ s) (beyond : Bytes) :
    ∃ tail, refineSalt (s ++ 0 :: beyond) = some (saltOf s ++ tail, (saltOf s).length) := by
  have hmagic := startsWith_eq (show 0 ∉ dufrId by decide) s beyond
  obtain ⟨behind, hbehind⟩ := saltOf_isPrefix s
  refine ⟨behind ++ 0 :: beyond, ?_⟩
  rw [← List.append_assoc, hbehind]
  simp only [refineSalt, hmagic, saltOf]
  by_cases hhashed : dufrId <+: s
  · have hdrop : 0 ∉ s.drop dufrId.length := fun h => hs (List.mem_of_mem_drop h)
    simp [hhashed, List.drop_append_of_le_length hhashed.length_le,
      saltLength_eq hdrop (.inl rfl)]
  · simp [hhashed, saltLength_eq hs (.inl rfl)]

/-- The salt that is read from a stored hash is the one it was made with. -/
theorem refineSalt_hashed (h : IsSalt salt) (tail : Bytes) :
    refineSalt (dufrId ++ (salt ++ 36 :: tail)) = some (salt ++ 36 :: tail, salt.length) := by
  have hwhole : salt.takeWhile (· ≠ 36) = salt := by
    rw [List.takeWhile_eq_self_iff]
    intro c hc
    simpa using ne_of_mem_of_not_mem hc h.plain
  have hlen := saltLength_eq h.noZero (.inr rfl) 8 tail
  rw [hwhole, List.take_of_length_le h.short] at hlen
  simp [refineSalt, startsWith_append, hlen]

/-! ## The hash depends on the salt only -/

theorem hash_append (hlen : salt.length < 2 ^ 32) (tail : Bytes) :
    hash md5 fuel pw (salt ++ tail) salt.length = hash md5 fuel pw salt salt.length := by
  have hself (ctx : Bytes) : update ctx salt salt.length = some (ctx ++ salt) := by
    simpa using update_append ctx [] hlen
  have hround : round md5 pw (salt ++ tail) salt.length = round md5 pw salt salt.length := by
    funext final i
    simp only [round, update_append _ tail hlen, hself]
  simp only [hash, firstHash, hround, update_append _ tail hlen, hself]

/-! ## The loops end -/

theorem addFinal_isSome (hfinal : kHashLen ≤ input.length) (ctx : Bytes) (i : Int) :
    ∃ ctx', addFinal input ctx i = some ctx' := by
  fun_induction addFinal input ctx i with
  | case1 ctx pl hpl ih =>
    have hlen : (if (kHashLen : Int) < pl then kHashLen else pl.toNat) ≤ input.length := by
      split_ifs <;> omega
    obtain ⟨ctx', hctx⟩ := update_isSome ctx hlen
    obtain ⟨ctx'', hrest⟩ := ih ctx'
    exact ⟨ctx'', by rw [hctx]; exact hrest⟩
  | case2 ctx pl hpl => exact ⟨ctx, rfl⟩

/-- As many rounds are enough as the length has bits. -/
theorem addBits_isSome (hinput : input ≠ []) (hpw : pw ≠ []) (fuel : Nat) (ctx : Bytes)
    (hi : 0 ≤ i) (hbound : i < 2 ^ fuel) : ∃ ctx', addBits input pw fuel ctx i = some ctx' := by
  induction fuel generalizing ctx i with
  | zero => exact ⟨ctx, if_pos (by omega)⟩
  | succ fuel ih =>
    by_cases hzero : i = 0
    · exact ⟨ctx, if_pos hzero⟩
    · have hbit : ∃ ctx', (if i % 2 = 1 then update ctx input 1 else update ctx pw 1) =
          some ctx' := by
        split_ifs
        · exact update_isSome ctx (List.length_pos_iff.mpr hinput)
        · exact update_isSome ctx (List.length_pos_iff.mpr hpw)
      obtain ⟨ctx', hctx⟩ := hbit
      have hhalf : i >>> (1 : Nat) = i / 2 := Int.shiftRight_eq_div_pow i 1
      obtain ⟨ctx'', hrest⟩ := ih ctx' (show 0 ≤ i >>> (1 : Nat) by omega) (by omega)
      exact ⟨ctx'', by rw [addBits, if_neg hzero, hctx]; exact hrest⟩

/-- The shift of a negative number is negative, and the loop goes on. -/
theorem addBits_of_neg (input pw ctx : Bytes) (hi : i < 0) :
    addBits input pw fuel ctx i = none := by
  induction fuel generalizing ctx i with
  | zero => exact if_neg (by omega)
  | succ fuel ih =>
    have hhalf : i >>> (1 : Nat) = i / 2 := Int.shiftRight_eq_div_pow i 1
    rw [addBits, if_neg (by omega)]
    cases (if i % 2 = 1 then update ctx input 1 else update ctx pw 1) with
    | none => rfl
    | some ctx => exact ih ctx (show i >>> (1 : Nat) < 0 by omega)

theorem toInt_lt (n : Nat) : toInt n < 2 ^ 31 := by
  unfold toInt
  have hbmod := Int.bmod_def (n : Int) (2 ^ 32)
  omega

theorem toInt_nonneg_iff (n : Nat) : 0 ≤ toInt n ↔ n % 2 ^ 32 < 2 ^ 31 := by
  unfold toInt
  have hbmod := Int.bmod_def (n : Int) (2 ^ 32)
  omega

theorem ite_update_isSome {p : Prop} [Decidable p] {x y : Option Bytes}
    (hx : ∃ ctx, x = some ctx) (hy : ∃ ctx, y = some ctx) :
    ∃ ctx, (if p then x else y) = some ctx := by
  split_ifs
  · exact hx
  · exact hy

variable (md5) in
/-- Every round gives a hash. -/
theorem round_isSome (hs : 0 ∉ s) (beyond : Bytes) (hlen : sl ≤ sp.length) (final : Digest)
    (i : Nat) : ∃ final', round md5 (s ++ 0 :: beyond) sp sl final i = some final' := by
  have hpw (ctx : Bytes) := update_isSome ctx (show s.length ≤ (s ++ 0 :: beyond).length by simp)
  have hhash (ctx : Bytes) :=
    update_isSome ctx (show kHashLen ≤ (List.ofFn final).length by simp)
  obtain ⟨ctx₁, h₁⟩ := ite_update_isSome (p := i % 2 = 1) (hpw []) (hhash [])
  obtain ⟨ctx₂, h₂⟩ := ite_update_isSome (p := i % 3 ≠ 0) (update_isSome ctx₁ hlen) ⟨ctx₁, rfl⟩
  obtain ⟨ctx₃, h₃⟩ := ite_update_isSome (p := i % 7 ≠ 0) (hpw ctx₂) ⟨ctx₂, rfl⟩
  obtain ⟨ctx₄, h₄⟩ := ite_update_isSome (p := i % 2 = 1) (hhash ctx₃) (hpw ctx₃)
  refine ⟨md5 ctx₄, ?_⟩
  simp only [round, strlen_append hs, Option.bind_eq_bind, Option.bind_some, h₁, h₂, h₃, h₄]
  rfl

theorem foldlM_isSome {α β : Type} {f : α → β → Option α} (hf : ∀ a b, ∃ a', f a b = some a')
    (a : α) (l : List β) : ∃ a', l.foldlM f a = some a' := by
  induction l generalizing a with
  | nil => exact ⟨a, rfl⟩
  | cons b l ih =>
    obtain ⟨a', ha⟩ := hf a b
    rw [List.foldlM_cons, ha]
    exact ih a'

variable (md5) in
/-- The first hash is there when the length of the password is no negative `int`. -/
theorem firstHash_isSome (hs : 0 ∉ s) (beyond : Bytes) (hlen : sl ≤ sp.length)
    (hsmall : s.length % 2 ^ 32 < 2 ^ 31) :
    ∃ final, firstHash md5 31 (s ++ 0 :: beyond) sp sl = some final := by
  have hpw (ctx : Bytes) := update_isSome ctx (show s.length ≤ (s ++ 0 :: beyond).length by simp)
  obtain ⟨ctx₁, h₁⟩ := hpw []
  obtain ⟨ctx₂, h₂⟩ := update_isSome ctx₁ (le_refl dufrId.length)
  obtain ⟨ctx₃, h₃⟩ := update_isSome ctx₂ hlen
  obtain ⟨ctx₄, h₄⟩ := update_isSome ctx₁ hlen
  obtain ⟨ctx₅, h₅⟩ := hpw ctx₄
  obtain ⟨ctx₆, h₆⟩ := addFinal_isSome
    (show kHashLen ≤ (List.ofFn (md5 ctx₅)).length by simp) ctx₃ (toInt s.length)
  obtain ⟨ctx₇, h₇⟩ := addBits_isSome (show List.replicate kHashLen 0 ≠ [] by simp)
    (show s ++ 0 :: beyond ≠ [] by simp) 31 ctx₆ ((toInt_nonneg_iff _).mpr hsmall) (toInt_lt _)
  refine ⟨md5 ctx₇, Option.bind_eq_some_iff.mpr ⟨s.length, strlen_append hs, ?_⟩⟩
  refine Option.bind_eq_some_iff.mpr ⟨ctx₁, h₁, ?_⟩
  refine Option.bind_eq_some_iff.mpr ⟨ctx₂, h₂, ?_⟩
  refine Option.bind_eq_some_iff.mpr ⟨ctx₃, h₃, ?_⟩
  refine Option.bind_eq_some_iff.mpr ⟨ctx₁, h₁, ?_⟩
  refine Option.bind_eq_some_iff.mpr ⟨ctx₄, h₄, ?_⟩
  refine Option.bind_eq_some_iff.mpr ⟨ctx₅, h₅, ?_⟩
  refine Option.bind_eq_some_iff.mpr ⟨ctx₆, h₆, ?_⟩
  exact Option.bind_eq_some_iff.mpr ⟨ctx₇, h₇, rfl⟩

theorem firstHash_small (hs : 0 ∉ s)
    (h : firstHash md5 fuel (s ++ 0 :: beyond) sp sl = some final) :
    s.length % 2 ^ 32 < 2 ^ 31 := by
  rw [← toInt_nonneg_iff]
  by_contra hneg
  simp [firstHash, strlen_append hs, addBits_of_neg _ _ _ (not_le.mp hneg)] at h

theorem hash_small (hs : 0 ∉ s) (h : hash md5 fuel (s ++ 0 :: beyond) sp sl = some final) :
    s.length % 2 ^ 32 < 2 ^ 31 := by
  obtain ⟨first, hfirst, -⟩ := Option.bind_eq_some_iff.mp h
  exact firstHash_small hs hfirst

variable (md5) in
/-- The hash is there when the length of the password is no negative `int`. -/
theorem hash_isSome (hs : 0 ∉ s) (beyond : Bytes) (hlen : sl ≤ sp.length)
    (hsmall : s.length % 2 ^ 32 < 2 ^ 31) :
    ∃ final, hash md5 31 (s ++ 0 :: beyond) sp sl = some final := by
  obtain ⟨first, hfirst⟩ := firstHash_isSome md5 hs beyond hlen hsmall
  obtain ⟨final, hrounds⟩ :=
    foldlM_isSome (round_isSome md5 hs beyond hlen) first (List.range 1000)
  exact ⟨final, Option.bind_eq_some_iff.mpr ⟨first, hfirst, hrounds⟩⟩

/-! ## The output string -/

theorem store_append (front : Bytes) (hroom : data.length ≤ rest.length) :
    store (front ++ rest) front.length data =
      .ok (front ++ data ++ rest.drop data.length) := by
  rw [store, write_of_le (by simp; omega), List.take_left, List.drop_append,
    List.drop_eq_nil_of_le (by omega), Nat.add_sub_cancel_left, List.nil_append]
  rfl

/-- A string is appended at the terminator. -/
theorem store_strlen (hfront : 0 ∉ front) (hroom : data.length ≤ rest.length) :
    (orFault .failed (strlen (front ++ 0 :: rest)) >>= fun len =>
        store (front ++ 0 :: rest) len (data ++ [0])) =
      .ok (front ++ data ++ 0 :: rest.drop data.length) := by
  have hstore := store_append front
    (show (data ++ [0]).length ≤ (0 :: rest).length by simp; omega)
  rw [strlen_append hfront]
  refine hstore.trans ?_
  rw [List.length_append, List.length_singleton, List.drop_succ_cons]
  simp

/-- The start of the output string fits. -/
theorem putSalt_eq (stack : Vector UInt8 120) (sp : Bytes) (hsl : sl ≤ 8) :
    ∃ rest, putSalt stack.toList sp sl =
        .ok (dufrId ++ (cString sp).take sl ++ [36] ++ 0 :: rest) ∧ 100 ≤ rest.length := by
  have hshort : ((cString sp).take sl).length ≤ 8 := (List.length_take_le ..).trans hsl
  have hsalt : 0 ∉ (cString sp).take sl := fun h =>
    zero_notMem_cString sp (List.mem_of_mem_take h)
  have hmagic : 0 ∉ dufrId := by decide
  have hmagicLen : dufrId.length = 6 := rfl
  have hcopy : strcpy stack.toList dufrId = .ok (dufrId ++ 0 :: stack.toList.drop 7) :=
    store_append [] (show (dufrId ++ [0]).length ≤ stack.toList.length by simp [hmagicLen])
  have hcat := store_strlen hmagic
    (show ((cString sp).take sl).length ≤ (stack.toList.drop 7).length by simp; omega)
  have hsep := store_strlen (show 0 ∉ dufrId ++ (cString sp).take sl by simp [hmagic, hsalt])
    (show [36].length ≤ ((stack.toList.drop 7).drop ((cString sp).take sl).length).length by
      simp; omega)
  refine ⟨((stack.toList.drop 7).drop ((cString sp).take sl).length).drop 1, ?_, ?_⟩
  · rw [putSalt, hcopy]
    change (strncat (dufrId ++ 0 :: stack.toList.drop 7) sp sl >>= fun passwd =>
      strcat passwd (ascii "$")) = _
    rw [strncat, hcat]
    exact hsep
  · simp
    omega

/-- The characters that `to64` writes. -/
def digits (v : BitVec 32) : Nat → Bytes
  | 0 => []
  | n + 1 => digit v :: digits (v.sshiftRight 6) n

theorem length_digits (v : BitVec 32) (n : Nat) : (digits v n).length = n := by
  induction n generalizing v with
  | zero => rfl
  | succ n ih => rw [digits, List.length_cons, ih]

theorem zero_notMem_digits (v : BitVec 32) (n : Nat) : 0 ∉ digits v n := by
  induction n generalizing v with
  | zero => exact List.not_mem_nil
  | succ n ih =>
    have hdigit : digit v ≠ 0 := ne_of_mem_of_not_mem (List.get_mem ..) (by decide)
    rw [digits, List.mem_cons, not_or]
    exact ⟨hdigit.symm, ih _⟩

theorem to64_eq (front rest : Bytes) (v : BitVec 32) (hroom : n ≤ rest.length) :
    to64 (front ++ rest) front.length v n = .ok (front ++ digits v n ++ rest.drop n) := by
  induction n generalizing front rest v with
  | zero => simp [to64, digits]
  | succ n ih =>
    have hfirst : store (front ++ rest) front.length [digit v] =
        .ok (front ++ [digit v] ++ rest.drop 1) :=
      store_append front (show [digit v].length ≤ rest.length by simp; omega)
    have hrest := ih (front ++ [digit v]) (rest.drop 1) (v.sshiftRight 6)
      (by rw [List.length_drop]; omega)
    rw [List.length_append, List.length_singleton, List.drop_drop, Nat.add_comm 1] at hrest
    rw [to64, hfirst]
    refine hrest.trans ?_
    rw [digits, List.append_assoc front, List.singleton_append]

/-- The characters of the hash. -/
def encodeGroups (l : List (BitVec 32 × Nat)) : Bytes := l.flatMap fun (l, n) => digits l n

theorem putGroups_eq (front rest : Bytes) (l : List (BitVec 32 × Nat))
    (hroom : (encodeGroups l).length < rest.length) :
    putGroups (front ++ rest) front.length l =
      .ok (front ++ encodeGroups l ++ 0 :: rest.drop ((encodeGroups l).length + 1)) := by
  induction l generalizing front rest with
  | nil =>
    rw [putGroups, store_append front (show [(0 : UInt8)].length ≤ rest.length by exact hroom)]
    simp [encodeGroups]
  | cons group l ih =>
    obtain ⟨v, n⟩ := group
    have hgroups : encodeGroups ((v, n) :: l) = digits v n ++ encodeGroups l := List.flatMap_cons
    rw [hgroups, List.length_append, length_digits] at hroom ⊢
    have hrest := ih (front ++ digits v n) (rest.drop n)
      (by rw [List.length_drop]; omega)
    rw [List.length_append, length_digits, List.drop_drop, ← Nat.add_assoc] at hrest
    rw [putGroups, to64_eq front rest v (by omega)]
    refine hrest.trans ?_
    rw [List.append_assoc front]

theorem zero_notMem_encodeGroups (l : List (BitVec 32 × Nat)) : 0 ∉ encodeGroups l := fun h => by
  obtain ⟨⟨v, n⟩, -, hmem⟩ := List.mem_flatMap.mp h
  exact zero_notMem_digits v n hmem

theorem length_encodeGroups (final : Digest) : (encodeGroups (groups final)).length = 22 := by
  simp [encodeGroups, groups, length_digits]

/-- The whole string that is made for a salt and a hash. -/
def encoded (salt : Bytes) (final : Digest) : Bytes :=
  dufrId ++ salt ++ [36] ++ encodeGroups (groups final)

theorem length_encoded (salt : Bytes) (final : Digest) :
    (encoded salt final).length = salt.length + 29 := by
  have hmagic : dufrId.length = 6 := rfl
  simp only [encoded, List.length_append, length_encodeGroups, hmagic, List.length_singleton]
  omega

theorem zero_notMem_encoded (hsalt : 0 ∉ salt) (final : Digest) : 0 ∉ encoded salt final := by
  have hmagic : 0 ∉ dufrId := by decide
  simp [encoded, hmagic, hsalt, zero_notMem_encodeGroups]

/-- A call, up to the copy to the result. The output string fits in `passwd`. -/
theorem md5Encode_strncpy (hsalt : refineSalt mem = some (sp, sl)) (hsl : sl ≤ 8)
    (hfinal : hash md5 fuel pw sp sl = some final) (stack : Vector UInt8 120) (result : Bytes)
    (nbytes : Int) :
    ∃ rest, md5Encode md5 fuel stack pw mem result nbytes =
      orFault .failed (strncpy result (encoded ((cString sp).take sl) final ++ 0 :: rest)
        ((nbytes - 1) % 2 ^ 64).toNat) := by
  have hzero : 0 ∉ (cString sp).take sl := fun h =>
    zero_notMem_cString sp (List.mem_of_mem_take h)
  have hmagic : 0 ∉ dufrId := by decide
  have hstart : 0 ∉ dufrId ++ (cString sp).take sl ++ [36] := by simp [hmagic, hzero]
  obtain ⟨rest, hput, hroom⟩ := putSalt_eq stack sp hsl
  have hgroups := putGroups_eq (dufrId ++ (cString sp).take sl ++ [36]) (0 :: rest)
    (groups final) (by rw [length_encodeGroups, List.length_cons]; omega)
  refine ⟨(0 :: rest).drop ((encodeGroups (groups final)).length + 1), ?_⟩
  simp only [md5Encode, hsalt, hfinal, orFault_some_bind, hput, ok_bind, strlen_append hstart,
    hgroups, encoded]

theorem saltLength_le (h : saltLength left s = some n) : n ≤ left := by
  fun_induction saltLength left s generalizing n <;> grind [Option.map_eq_some_iff]

theorem refineSalt_le (h : refineSalt mem = some (sp, sl)) : sl ≤ 8 := by
  obtain ⟨hashed, -, h⟩ := Option.bind_eq_some_iff.mp h
  obtain ⟨n, hn, h⟩ := Option.bind_eq_some_iff.mp h
  cases h
  exact saltLength_le hn

/-- `passwd` is never overrun. -/
theorem md5Encode_ne_overrun (fuel : Nat) (stack : Vector UInt8 120) (pw mem result : Bytes)
    (nbytes : Int) : md5Encode md5 fuel stack pw mem result nbytes ≠ .error .overrun := by
  have hfault {α : Type} (x : Option α) : orFault .failed x ≠ .error .overrun := by
    cases x <;> nofun
  cases hsalt : refineSalt mem with
  | none =>
    rw [md5Encode, hsalt]
    nofun
  | some refined =>
    obtain ⟨sp, sl⟩ := refined
    cases hfinal : hash md5 fuel pw sp sl with
    | none =>
      simp only [md5Encode, hsalt, hfinal, orFault_some_bind, orFault_none_bind]
      nofun
    | some final =>
      obtain ⟨rest, hcall⟩ :=
        md5Encode_strncpy hsalt (refineSalt_le hsalt) hfinal stack result nbytes
      rw [hcall]
      exact hfault _

/-! ## The result -/

theorem strncpy_eq {out : Bytes} (hout : 0 ∉ out) (rest : Bytes) (hn : out.length ≤ n)
    (hroom : n ≤ result.length) :
    strncpy result (out ++ 0 :: rest) n =
      some (out ++ List.replicate (n - out.length) 0 ++ result.drop n) := by
  have hchars : (cString (out ++ 0 :: rest)).take n = out := by
    rw [cString_append_zero, cString_of_noZero hout, List.take_of_length_le hn]
  have hlen : (out ++ List.replicate (n - out.length) 0).length = n := by
    rw [List.length_append, List.length_replicate]
    omega
  simp only [strncpy, hchars]
  rw [write_of_le (by omega), hlen]
  simp

/-- The result with a string. The last byte of the result is not written. -/
def filled (out result : Bytes) : Bytes :=
  out ++ List.replicate (result.length - 1 - out.length) 0 ++ result.drop (result.length - 1)

/-- What a call stores. -/
theorem md5Encode_filled (hsalt : refineSalt mem = some (salt ++ tail, salt.length))
    (h : IsSalt salt) (hfinal : hash md5 fuel pw salt salt.length = some final)
    (hroom : salt.length + 29 < result.length) (hint : result.length < 2 ^ 31)
    (stack : Vector UInt8 120) :
    md5Encode md5 fuel stack pw mem result result.length =
      .ok (filled (encoded salt final) result) := by
  have hlen : salt.length < 2 ^ 32 := Nat.lt_of_le_of_lt h.short (by decide)
  have hbytes : (((result.length : Int) - 1) % 2 ^ 64).toNat = result.length - 1 := by omega
  have hchars : (cString (salt ++ tail)).take salt.length = salt := by
    have hne : ∀ c ∈ salt, (c != 0) = true := fun c hc => by
      simpa using ne_of_mem_of_not_mem hc h.noZero
    rw [cString, List.takeWhile_append_of_pos hne, List.take_left]
  obtain ⟨rest, hcall⟩ := md5Encode_strncpy hsalt h.short
    ((hash_append hlen tail).trans hfinal) stack result result.length
  rw [hcall, hchars, hbytes, strncpy_eq (zero_notMem_encoded h.noZero final) rest
    (by rw [length_encoded]; omega) (by omega)]
  rfl

/-- A call that returns has a hash. -/
theorem hash_of_md5Encode {stored : Bytes} {stack : Vector UInt8 120} {nbytes : Int}
    (hsalt : refineSalt mem = some (salt ++ tail, salt.length)) (h : IsSalt salt)
    (hcall : md5Encode md5 fuel stack pw mem result nbytes = .ok stored) :
    ∃ final, hash md5 fuel pw salt salt.length = some final := by
  have hlen : salt.length < 2 ^ 32 := Nat.lt_of_le_of_lt h.short (by decide)
  cases hfinal : hash md5 fuel pw salt salt.length with
  | some final => exact ⟨final, rfl⟩
  | none =>
    rw [← hash_append hlen tail] at hfinal
    simp only [md5Encode, hsalt, orFault_some_bind, hfinal, orFault_none_bind] at hcall
    exact nomatch hcall

/-! ## Hashes verify -/

/-- The password verifies against its stored hash: the two calls return, and give the same
string. -/
def Verifies (md5 : Bytes → Digest) (stack₁ stack₂ : Vector UInt8 120)
    (pw salt result₁ result₂ : Bytes) : Prop :=
  ∃ fuel stored checked text,
    md5Encode md5 fuel stack₁ pw salt result₁ result₁.length = .ok stored ∧
      md5Encode md5 fuel stack₂ pw stored result₂ result₂.length = .ok checked ∧
      string stored = some text ∧ string checked = some text

/-- A result buffer that has room for the whole string, the terminator included. Its size is an
`int`. -/
structure HasRoom (s result : Bytes) : Prop where
  room : (saltOf s).length + 29 < result.length
  int : result.length < 2 ^ 31

/-- There is room for one more byte, or the last byte is a terminator already. -/
def Terminates (s result : Bytes) : Prop :=
  (saltOf s).length + 29 + 1 < result.length ∨ result.getLast? = some 0

instance (s result : Bytes) : Decidable (Terminates s result) :=
  inferInstanceAs (Decidable (_ ∨ _))

/-- What a call stores has a terminator if and only if there was room for one, or one stood at
the end. -/
theorem string_filled {out : Bytes} (hout : 0 ∉ out) (hroom : out.length < result.length) :
    string (filled out result) =
      if out.length + 1 < result.length ∨ result.getLast? = some 0 then some out else none := by
  obtain ⟨front, last, rfl⟩ : ∃ front last, result = front ++ [last] :=
    (List.eq_nil_or_concat' result).resolve_left (List.ne_nil_of_length_pos (by omega))
  have hfilled : filled out (front ++ [last]) =
      out ++ (List.replicate (front.length - out.length) 0 ++ [last]) := by
    simp [filled]
  have hle : out.length ≤ front.length := by simpa [Nat.lt_succ_iff] using hroom
  rw [hfilled]
  by_cases hmore : out.length < front.length
  · obtain ⟨k, hk⟩ : ∃ k, front.length - out.length = k + 1 :=
      ⟨front.length - out.length - 1, by omega⟩
    rw [hk, List.replicate_succ, List.cons_append, string_append hout]
    simp [hmore]
  · have hk : front.length - out.length = 0 := by omega
    rw [hk, List.replicate_zero, List.nil_append]
    by_cases hlast : last = 0
    · subst hlast
      rw [string_append hout]
      simp
    · simp [string, hmore, hlast, hout, Ne.symm hlast]

theorem verifies_iff (md5 : Bytes → Digest) (stack₁ stack₂ : Vector UInt8 120) {p s : Bytes}
    (hp : 0 ∉ p) (hs : 0 ∉ s) (beyond₁ beyond₂ : Bytes) {result₁ result₂ : Bytes}
    (h₁ : HasRoom s result₁) (h₂ : HasRoom s result₂) :
    Verifies md5 stack₁ stack₂ (p ++ 0 :: beyond₁) (s ++ 0 :: beyond₂) result₁ result₂ ↔
      p.length % 2 ^ 32 < 2 ^ 31 ∧ Terminates s result₁ ∧ Terminates s result₂ := by
  have hsalt := saltOf_isSalt hs
  obtain ⟨tail, hraw⟩ := refineSalt_string hs beyond₂
  have hstored (final : Digest) :
      refineSalt (filled (encoded (saltOf s) final) result₁) = some (saltOf s ++ 36 ::
        (encodeGroups (groups final) ++ List.replicate (result₁.length - 1 -
          (encoded (saltOf s) final).length) 0 ++ result₁.drop (result₁.length - 1)),
        (saltOf s).length) := by
    rw [← refineSalt_hashed hsalt]
    simp [filled, encoded]
  have hstring {result : Bytes} (h : HasRoom s result) (final : Digest) :
      string (filled (encoded (saltOf s) final) result) =
        if Terminates s result then some (encoded (saltOf s) final) else none := by
    have hlen := length_encoded (saltOf s) final
    rw [string_filled (zero_notMem_encoded hsalt.noZero final) (hlen ▸ h.room), hlen]
    rfl
  have hterm {result text : Bytes} (h : HasRoom s result) {final : Digest}
      (htext : string (filled (encoded (saltOf s) final) result) = some text) :
      Terminates s result := by
    by_contra hnot
    rw [hstring h, if_neg hnot] at htext
    exact nomatch htext
  constructor
  · rintro ⟨fuel, stored, checked, text, hfirst, hsecond, htext, hsame⟩
    obtain ⟨final, hfinal⟩ := hash_of_md5Encode hraw hsalt hfirst
    rw [md5Encode_filled hraw hsalt hfinal h₁.room h₁.int] at hfirst
    cases hfirst
    rw [md5Encode_filled (hstored final) hsalt hfinal h₂.room h₂.int] at hsecond
    cases hsecond
    exact ⟨hash_small hp hfinal, hterm h₁ htext, hterm h₂ hsame⟩
  · rintro ⟨hsmall, hterm₁, hterm₂⟩
    obtain ⟨final, hfinal⟩ := hash_isSome md5 hp beyond₁ (le_refl (saltOf s).length) hsmall
    exact ⟨31, _, _, encoded (saltOf s) final,
      md5Encode_filled hraw hsalt hfinal h₁.room h₁.int stack₁,
      md5Encode_filled (hstored final) hsalt hfinal h₂.room h₂.int stack₂,
      (hstring h₁ final).trans (if_pos hterm₁), (hstring h₂ final).trans (if_pos hterm₂)⟩

/-- A stored hash verifies, with room for its terminator, if and only if the length of the
password is no negative `int`, and both results have room for one more byte or end with a
terminator already. The memory of `passwd` is never overrun. -/
theorem md5Encode_verifies (md5 : Bytes → Digest) (stack₁ stack₂ : Vector UInt8 120)
    {p s : Bytes} (hp : 0 ∉ p) (hs : 0 ∉ s) (beyond₁ beyond₂ : Bytes) {result₁ result₂ : Bytes}
    (h₁ : HasRoom s result₁) (h₂ : HasRoom s result₂) :
    (∀ fuel stack pw salt result nbytes,
        md5Encode md5 fuel stack pw salt result nbytes ≠ .error .overrun) ∧
      (Verifies md5 stack₁ stack₂ (p ++ 0 :: beyond₁) (s ++ 0 :: beyond₂) result₁ result₂ ↔
        p.length % 2 ^ 32 < 2 ^ 31 ∧ Terminates s result₁ ∧ Terminates s result₂) :=
  ⟨md5Encode_ne_overrun, verifies_iff md5 stack₁ stack₂ hp hs beyond₁ beyond₂ h₁ h₂⟩

/-- A salt in a stored hash, and one byte more than the string needs. -/
theorem md5Encode_verifies_hashed :
    Verifies (fun _ _ => 7) (Vector.replicate 120 65) (Vector.replicate 120 66) (ascii "x" ++ [0])
      (ascii "$dufr$ab$c" ++ [0]) (List.replicate 33 65) (List.replicate 33 66) :=
  (md5Encode_verifies (fun _ _ => 7) (Vector.replicate 120 65) (Vector.replicate 120 66)
    (p := ascii "x") (s := ascii "$dufr$ab$c") (by decide) (by decide) [] []
    ⟨by decide, by decide⟩ ⟨by decide, by decide⟩).2.mpr (by decide)

/-- With an empty salt and 30 bytes for the 29 characters the terminator is not written. -/
theorem md5Encode_unterminated :
    ¬ ∀ (md5 : Bytes → Digest) (stack₁ stack₂ : Vector UInt8 120) (p s beyond₁ beyond₂ : Bytes)
      (result₁ result₂ : Bytes), 0 ∉ p → 0 ∉ s → HasRoom s result₁ → HasRoom s result₂ →
      Verifies md5 stack₁ stack₂ (p ++ 0 :: beyond₁) (s ++ 0 :: beyond₂) result₁ result₂ := by
  intro h
  have hroom : HasRoom [] (List.replicate 30 65) := ⟨by decide, by decide⟩
  have hverifies := h (fun _ _ => 0) (Vector.replicate 120 0) (Vector.replicate 120 0) [120] [] []
    [] _ _ (by decide) (by decide) hroom hroom
  have hterm := (verifies_iff _ _ _ (by decide) (by decide) [] [] hroom hroom).mp hverifies
  exact absurd hterm.2.1 (by decide)

end CxxFramework.Basic.MD5
