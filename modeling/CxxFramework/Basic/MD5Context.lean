import CxxFramework.Core.CString
import CxxFramework.Library.Absorb
import CxxFramework.Library.Buffer
import Mathlib.Algebra.Group.Nat.Defs

/-!
# MD5

`MD5_Update` hashes the whole blocks of what a context is given, and keeps the rest in the
buffer of the context. `MD5_Final` pads the rest. However a message is cut into calls, the
hash is that of the message, as long as no counter of a call wraps.

A pointer to the input is the memory from it on.

## Main definitions

* `update fuel context input inputLen`, `final fuel context` — `MD5_Update` and `MD5_Final`.
* `md5 m` — the hash of a message, at once.
* `Represents context m` — the context has been given the message.
-/

namespace CxxFramework.Basic.MD5Context

open CxxFramework.Core Buffer Absorb

abbrev Word := BitVec 32

/-- The words of `state`. -/
structure State where
  a : Word
  b : Word
  c : Word
  d : Word
  deriving DecidableEq

/-! ## The words of a block -/

/-- A byte of a word, from a bit on. -/
def byte (w : Word) (bit : Nat) : UInt8 := UInt8.ofBitVec ((w >>> bit &&& 0xff).setWidth 8)

/-- `Encode` -/
def encode (input : List Word) : Bytes :=
  input.flatMap fun w => [byte w 0, byte w 8, byte w 16, byte w 24]

/-- A byte as a word. -/
def word (c : UInt8) : Word := c.toBitVec.setWidth 32

/-- `Decode` -/
def decode : Bytes → List Word
  | c₀ :: c₁ :: c₂ :: c₃ :: input =>
    (word c₀ ||| word c₁ <<< 8 ||| word c₂ <<< 16 ||| word c₃ <<< 24) :: decode input
  | _ => []

/-! ## The transformation -/

def s11 : Nat := 7
def s12 : Nat := 12
def s13 : Nat := 17
def s14 : Nat := 22
def s21 : Nat := 5
def s22 : Nat := 9
def s23 : Nat := 14
def s24 : Nat := 20
def s31 : Nat := 4
def s32 : Nat := 11
def s33 : Nat := 16
def s34 : Nat := 23
def s41 : Nat := 6
def s42 : Nat := 10
def s43 : Nat := 15
def s44 : Nat := 21

def basicF (x y z : Word) : Word := x &&& y ||| ~~~x &&& z
def basicG (x y z : Word) : Word := x &&& z ||| y &&& ~~~z
def basicH (x y z : Word) : Word := x ^^^ y ^^^ z
def basicI (x y z : Word) : Word := y ^^^ (x ||| ~~~z)

/-- `ROTATE_LEFT` -/
def rotateLeft (x : Word) (n : Nat) : Word := x <<< n ||| x >>> (32 - n)

/-- What `FF`, `GG`, `HH` and `II` do with their basic function. -/
def step (basic : Word → Word → Word → Word) (a b c d x : Word) (s : Nat) (ac : Word) : Word :=
  rotateLeft (a + (basic b c d + x + ac)) s + b

def ff : Word → Word → Word → Word → Word → Nat → Word → Word := step basicF
def gg : Word → Word → Word → Word → Word → Nat → Word → Word := step basicG
def hh : Word → Word → Word → Word → Word → Nat → Word → Word := step basicH
def ii : Word → Word → Word → Word → Word → Nat → Word → Word := step basicI

/-- Round 1. -/
def round1 (x : Nat → Word) (s : State) : State :=
  let a := s.a
  let b := s.b
  let c := s.c
  let d := s.d
  let a := ff a b c d (x 0) s11 0xd76aa478
  let d := ff d a b c (x 1) s12 0xe8c7b756
  let c := ff c d a b (x 2) s13 0x242070db
  let b := ff b c d a (x 3) s14 0xc1bdceee
  let a := ff a b c d (x 4) s11 0xf57c0faf
  let d := ff d a b c (x 5) s12 0x4787c62a
  let c := ff c d a b (x 6) s13 0xa8304613
  let b := ff b c d a (x 7) s14 0xfd469501
  let a := ff a b c d (x 8) s11 0x698098d8
  let d := ff d a b c (x 9) s12 0x8b44f7af
  let c := ff c d a b (x 10) s13 0xffff5bb1
  let b := ff b c d a (x 11) s14 0x895cd7be
  let a := ff a b c d (x 12) s11 0x6b901122
  let d := ff d a b c (x 13) s12 0xfd987193
  let c := ff c d a b (x 14) s13 0xa679438e
  let b := ff b c d a (x 15) s14 0x49b40821
  ⟨a, b, c, d⟩

/-- Round 2. -/
def round2 (x : Nat → Word) (s : State) : State :=
  let a := s.a
  let b := s.b
  let c := s.c
  let d := s.d
  let a := gg a b c d (x 1) s21 0xf61e2562
  let d := gg d a b c (x 6) s22 0xc040b340
  let c := gg c d a b (x 11) s23 0x265e5a51
  let b := gg b c d a (x 0) s24 0xe9b6c7aa
  let a := gg a b c d (x 5) s21 0xd62f105d
  let d := gg d a b c (x 10) s22 0x2441453
  let c := gg c d a b (x 15) s23 0xd8a1e681
  let b := gg b c d a (x 4) s24 0xe7d3fbc8
  let a := gg a b c d (x 9) s21 0x21e1cde6
  let d := gg d a b c (x 14) s22 0xc33707d6
  let c := gg c d a b (x 3) s23 0xf4d50d87
  let b := gg b c d a (x 8) s24 0x455a14ed
  let a := gg a b c d (x 13) s21 0xa9e3e905
  let d := gg d a b c (x 2) s22 0xfcefa3f8
  let c := gg c d a b (x 7) s23 0x676f02d9
  let b := gg b c d a (x 12) s24 0x8d2a4c8a
  ⟨a, b, c, d⟩

/-- Round 3. -/
def round3 (x : Nat → Word) (s : State) : State :=
  let a := s.a
  let b := s.b
  let c := s.c
  let d := s.d
  let a := hh a b c d (x 5) s31 0xfffa3942
  let d := hh d a b c (x 8) s32 0x8771f681
  let c := hh c d a b (x 11) s33 0x6d9d6122
  let b := hh b c d a (x 14) s34 0xfde5380c
  let a := hh a b c d (x 1) s31 0xa4beea44
  let d := hh d a b c (x 4) s32 0x4bdecfa9
  let c := hh c d a b (x 7) s33 0xf6bb4b60
  let b := hh b c d a (x 10) s34 0xbebfbc70
  let a := hh a b c d (x 13) s31 0x289b7ec6
  let d := hh d a b c (x 0) s32 0xeaa127fa
  let c := hh c d a b (x 3) s33 0xd4ef3085
  let b := hh b c d a (x 6) s34 0x4881d05
  let a := hh a b c d (x 9) s31 0xd9d4d039
  let d := hh d a b c (x 12) s32 0xe6db99e5
  let c := hh c d a b (x 15) s33 0x1fa27cf8
  let b := hh b c d a (x 2) s34 0xc4ac5665
  ⟨a, b, c, d⟩

/-- Round 4. -/
def round4 (x : Nat → Word) (s : State) : State :=
  let a := s.a
  let b := s.b
  let c := s.c
  let d := s.d
  let a := ii a b c d (x 0) s41 0xf4292244
  let d := ii d a b c (x 7) s42 0x432aff97
  let c := ii c d a b (x 14) s43 0xab9423a7
  let b := ii b c d a (x 5) s44 0xfc93a039
  let a := ii a b c d (x 12) s41 0x655b59c3
  let d := ii d a b c (x 3) s42 0x8f0ccc92
  let c := ii c d a b (x 10) s43 0xffeff47d
  let b := ii b c d a (x 1) s44 0x85845dd1
  let a := ii a b c d (x 8) s41 0x6fa87e4f
  let d := ii d a b c (x 15) s42 0xfe2ce6e0
  let c := ii c d a b (x 6) s43 0xa3014314
  let b := ii b c d a (x 13) s44 0x4e0811a1
  let a := ii a b c d (x 4) s41 0xf7537e82
  let d := ii d a b c (x 11) s42 0xbd3af235
  let c := ii c d a b (x 2) s43 0x2ad7d2bb
  let b := ii b c d a (x 9) s44 0xeb86d391
  ⟨a, b, c, d⟩

/-- `MD5Transform`, on the bytes of a block. -/
def transform (state : State) (block : Bytes) : State :=
  let x (k : Nat) := (decode block).getD k 0
  let s := round4 x (round3 x (round2 x (round1 x state)))
  ⟨state.a + s.a, state.b + s.b, state.c + s.c, state.d + s.d⟩

/-! ## Contexts -/

/-- `MD5_CTX`. The number of bits is in two words, the low one first. -/
structure Context where
  state : State
  count : Word × Word
  buffer : { mem : Bytes // mem.length = 64 }

/-- The magic initialization constants. -/
def initial : State := ⟨0x67452301, 0xefcdab89, 0x98badcfe, 0x10325476⟩

/-- `MD5_Init` -/
def init (context : Context) : Context := { context with state := initial, count := (0, 0) }

/-- Why a call has no result. -/
inductive Failure where
  /-- An access outside of the input or of the buffer. -/
  | outside
  /-- A loop that has not ended when the fuel is used up. -/
  | unended
  deriving DecidableEq

/-- The bytes at a pointer. -/
def read (mem : Bytes) (len : Nat) : Except Failure Bytes :=
  if len ≤ mem.length then .ok (mem.take len) else .error .outside

/-- `MD5_memcpy` to the buffer. -/
def copy (buffer : { mem : Bytes // mem.length = 64 }) (pos : Nat) (data : Bytes) :
    Except Failure { mem : Bytes // mem.length = 64 } :=
  match hmem : write buffer.1 pos data with
  | some mem => .ok ⟨mem, (length_write hmem).trans buffer.2⟩
  | none => .error .outside

/-- The loop over the whole blocks of the input: the state, and where it ends. -/
def blocks (input : Bytes) (inputLen : Word) :
    Nat → State → Word → Except Failure (State × Word)
  | 0, _, _ => .error .unended
  | fuel + 1, state, i =>
    if i + 63 < inputLen then do
      let block ← read (input.drop i.toNat) 64
      blocks input inputLen fuel (transform state block) (i + 64)
    else .ok (state, i)

/-- The number of bytes in the buffer. -/
def index (context : Context) : Word := context.count.1 >>> 3 &&& 0x3f

/-- The number of bits with those of the input. -/
def addCount (count : Word × Word) (inputLen : Word) : Word × Word :=
  let low := count.1 + inputLen <<< 3
  let high := if low < inputLen <<< 3 then count.2 + 1 else count.2
  (low, high + inputLen >>> 29)

/-- Transform as many times as possible: the state, the buffer, where the buffer goes on, and
where the input does. -/
def transformBlocks (fuel : Nat) (context : Context) (input : Bytes) (inputLen : Word) :
    Except Failure (State × { mem : Bytes // mem.length = 64 } × Word × Word) := do
  let partLen := 64 - index context
  if partLen ≤ inputLen then
    let data ← read input partLen.toNat
    let buffer ← copy context.buffer (index context).toNat data
    let (state, i) ← blocks input inputLen fuel (transform context.state buffer) partLen
    return (state, buffer, 0, i)
  else return (context.state, context.buffer, index context, 0)

/-- `MD5_Update` -/
def update (fuel : Nat) (context : Context) (input : Bytes) (inputLen : Word) :
    Except Failure Context := do
  let (state, buffer, index, i) ← transformBlocks fuel context input inputLen
  let data ← read (input.drop i.toNat) (inputLen - i).toNat
  let buffer ← copy buffer index.toNat data
  return ⟨state, addCount context.count inputLen, buffer⟩

/-- `PADDING` -/
def padding : Bytes := 0x80 :: List.replicate 63 0

/-- The bytes of a hash. -/
def digest (state : State) : Bytes := encode [state.a, state.b, state.c, state.d]

/-- The context is zeroized. -/
def zeroized : Context := ⟨⟨0, 0, 0, 0⟩, (0, 0), ⟨List.replicate 64 0, List.length_replicate⟩⟩

/-- `MD5_Final`: the hash, and the context in the end. -/
def final (fuel : Nat) (context : Context) : Except Failure (Bytes × Context) := do
  let bits := encode [context.count.1, context.count.2]
  let padLen := if index context < 56 then 56 - index context else 120 - index context
  let context ← update fuel context padding padLen
  let context ← update fuel context bits 8
  return (digest context.state, zeroized)

/-! ## The hash of a message -/

/-- The number of bits of a message, modulo 2^64, in two words. -/
def bitCount (len : Nat) : Word × Word :=
  (BitVec.ofNat 32 (8 * len), BitVec.ofNat 32 (8 * len / 2 ^ 32))

/-- A message is filled up with a bit and zeros to 56 bytes modulo 64, and the number of its
bits follows. -/
def pad (m : Bytes) : Bytes :=
  m ++ 0x80 :: List.replicate ((119 - m.length % 64) % 64) 0 ++
    encode [(bitCount m.length).1, (bitCount m.length).2]

/-- The hash of a message: the blocks of the padded message, one after the other. -/
def md5 (m : Bytes) : Bytes := digest (absorb transform 64 initial (pad m)).1

variable {m input : Bytes} {context context' : Context} {inputLen : Word} {fuel len : Nat}

theorem length_encode (input : List Word) : (encode input).length = 4 * input.length := by
  induction input with
  | nil => rfl
  | cons w input ih =>
    have hword : [byte w 0, byte w 8, byte w 16, byte w 24].length = 4 := rfl
    rw [encode, List.flatMap_cons, List.length_append, ← encode, ih, hword, List.length_cons]
    omega

/-! ## The number of bits -/

theorem toNat_bitCount (len : Nat) :
    (bitCount len).1.toNat = 8 * len % 2 ^ 32 ∧
      (bitCount len).2.toNat = 8 * len / 2 ^ 32 % 2 ^ 32 :=
  ⟨BitVec.toNat_ofNat .., BitVec.toNat_ofNat ..⟩

/-- The bytes that wait are counted by the bits. -/
theorem toNat_index (hcount : context.count = bitCount len) :
    (index context).toNat = len % 64 := by
  have hlow := (toNat_bitCount len).1
  have hmask := Nat.and_two_pow_sub_one_eq_mod ((bitCount len).1.toNat >>> 3) 6
  rw [index, hcount, BitVec.toNat_and, BitVec.toNat_ushiftRight]
  rw [Nat.shiftRight_eq_div_pow, hlow] at hmask
  rw [Nat.shiftRight_eq_div_pow, hlow]
  exact hmask.trans (by omega)

/-- The number of bits is kept modulo 2^64: the carry is noticed. -/
theorem addCount_bitCount (len : Nat) (inputLen : Word) :
    addCount (bitCount len) inputLen = bitCount (len + inputLen.toNat) := by
  obtain ⟨hlow, hhigh⟩ := toNat_bitCount len
  obtain ⟨hlow', hhigh'⟩ := toNat_bitCount (len + inputLen.toNat)
  have hbound := inputLen.isLt
  have hshift : (inputLen <<< 3).toNat = inputLen.toNat * 8 % 2 ^ 32 := by
    rw [BitVec.toNat_shiftLeft, Nat.shiftLeft_eq]
  have hsum : ((bitCount len).1 + inputLen <<< 3).toNat = 8 * (len + inputLen.toNat) % 2 ^ 32 := by
    rw [BitVec.toNat_add, hshift, hlow]
    omega
  have htop : (inputLen >>> 29).toNat = inputLen.toNat / 2 ^ 29 := by
    rw [BitVec.toNat_ushiftRight, Nat.shiftRight_eq_div_pow]
  refine Prod.ext (BitVec.eq_of_toNat_eq (hsum.trans hlow'.symm)) (BitVec.eq_of_toNat_eq ?_)
  rw [hhigh']
  simp only [addCount, BitVec.lt_def, hsum, hshift]
  split_ifs with hcarry
  · have hone : (1 : Word).toNat = 1 := rfl
    rw [BitVec.toNat_add, BitVec.toNat_add, htop, hhigh, hone]
    omega
  · rw [BitVec.toNat_add, htop, hhigh]
    omega

/-! ## The buffer -/

theorem read_of_le (hlen : len ≤ input.length) : read input len = .ok (input.take len) :=
  if_pos hlen

/-- A copy to the buffer that fits. -/
theorem copy_of_le (buffer : { mem : Bytes // mem.length = 64 }) {pos : Nat} {data : Bytes}
    (hroom : pos + data.length ≤ 64) :
    ∃ buffer', copy buffer pos data = .ok buffer' ∧
      buffer'.1.take (pos + data.length) = buffer.1.take pos ++ data := by
  have hwrite : write buffer.1 pos data = _ := write_of_le (by rw [buffer.2]; exact hroom)
  unfold copy
  split
  · next mem hmem => exact ⟨_, rfl, take_write hmem⟩
  · next hmem => exact nomatch hmem.symm.trans hwrite

/-! ## The loop -/

/-- Where the loop ends. -/
def lastBlock (inputLen i : Word) : Word :=
  inputLen - BitVec.ofNat 32 ((inputLen.toNat - i.toNat) % 64)

theorem toNat_lastBlock (inputLen i : Word) :
    (lastBlock inputLen i).toNat = inputLen.toNat - (inputLen.toNat - i.toNat) % 64 := by
  have hbound := inputLen.isLt
  rw [lastBlock, BitVec.toNat_sub, BitVec.toNat_ofNat]
  omega

theorem toNat_add_63 (i : Word) : (i + 63).toNat = (i.toNat + 63) % 2 ^ 32 := BitVec.toNat_add ..

theorem toNat_add_64 (i : Word) : (i + 64).toNat = (i.toNat + 64) % 2 ^ 32 := BitVec.toNat_add ..

/-- If the counter goes on to the last block without a wrap, then the loop hashes the whole
blocks, and ends at the rest, with fuel for each of them. -/
theorem blocks_eq (hinput : inputLen.toNat ≤ input.length) (state : State) {i : Word}
    (hi : i.toNat ≤ inputLen.toNat)
    (hfits : i.toNat % 64 = 0 ∨ inputLen.toNat + 64 < 2 ^ 32 + i.toNat % 64) (fuel : Nat) :
    blocks input inputLen fuel state i =
      if (inputLen.toNat - i.toNat) / 64 < fuel then
        .ok ((absorb transform 64 state ((input.take inputLen.toNat).drop i.toNat)).1,
          lastBlock inputLen i)
      else .error .unended := by
  have hbound := inputLen.isLt
  induction fuel generalizing state i with
  | zero => rfl
  | succ fuel ih =>
    have hlen : ((input.take inputLen.toNat).drop i.toNat).length =
        inputLen.toNat - i.toNat := by
      rw [List.length_drop, List.length_take_of_le hinput]
    have htest : (i + 63).toNat = i.toNat + 63 := by
      rw [toNat_add_63]
      omega
    by_cases hmore : i.toNat + 63 < inputLen.toNat
    · have hnext : (i + 64).toNat = i.toNat + 64 := by
        rw [toNat_add_64]
        omega
      have hlast : lastBlock inputLen (i + 64) = lastBlock inputLen i := by
        apply BitVec.eq_of_toNat_eq
        rw [toNat_lastBlock, toNat_lastBlock, hnext]
        omega
      have hblock : (input.drop i.toNat).take 64 =
          ((input.take inputLen.toNat).drop i.toNat).take 64 := by
        rw [List.drop_take, List.take_take, min_eq_left (by omega)]
      have hread := read_of_le (show 64 ≤ (input.drop i.toNat).length by
        rw [List.length_drop]; omega)
      have hlong : 64 ≤ ((input.take inputLen.toNat).drop i.toNat).length := by omega
      have hstep := absorb_of_le (f := transform) state (show 0 < 64 by decide) hlong
      have hrest := ih (transform state ((input.drop i.toNat).take 64)) (i := i + 64)
        (by omega) (by omega)
      rw [blocks, if_pos (BitVec.lt_def.mpr (htest ▸ hmore)), hread]
      simp only [bind, Except.bind]
      rw [hrest, hlast, hnext, hblock, hstep, List.drop_drop]
      exact ite_congr (propext (by omega)) (fun _ => rfl) fun _ => rfl
    · have hlast : lastBlock inputLen i = i := by
        apply BitVec.eq_of_toNat_eq
        rw [toNat_lastBlock]
        omega
      rw [blocks, if_neg (fun hlt => hmore (htest ▸ BitVec.lt_def.mp hlt)), hlast,
        absorb_of_lt _ (by omega), if_pos (by omega)]

/-- Before a counter wraps that is not at a multiple of 64, it is below the length. -/
theorem test_of_wrap {i : Word} (hi : i.toNat % 64 ≠ 0)
    (hwrap : 2 ^ 32 + i.toNat % 64 ≤ inputLen.toNat + 64) : i + 63 < inputLen := by
  have hbound := i.isLt
  rw [BitVec.lt_def, toNat_add_63]
  omega

theorem toNat_add_64_mod (i : Word) : (i + 64).toNat % 64 = i.toNat % 64 := by
  rw [toNat_add_64]
  omega

/-- A counter that wraps never ends the loop with a result. -/
theorem blocks_of_wrap (state : State) {i : Word} (hi : i.toNat % 64 ≠ 0)
    (hwrap : 2 ^ 32 + i.toNat % 64 ≤ inputLen.toNat + 64) (fuel : Nat) :
    ∃ failure, blocks input inputLen fuel state i = .error failure := by
  induction fuel generalizing state i with
  | zero => exact ⟨_, rfl⟩
  | succ fuel ih =>
    rw [blocks, if_pos (test_of_wrap hi hwrap)]
    cases read (input.drop i.toNat) 64 with
    | error failure => exact ⟨failure, rfl⟩
    | ok block =>
      have hnext := toNat_add_64_mod i
      exact ih (transform state block) (hnext ▸ hi) (hnext ▸ hwrap)

/-- In an input of that length the last block before the wrap is not there. -/
theorem blocks_outside (hinput : inputLen.toNat = input.length) (state : State) {i : Word}
    (hle : i.toNat ≤ inputLen.toNat) (hi : i.toNat % 64 ≠ 0)
    (hwrap : 2 ^ 32 + i.toNat % 64 ≤ inputLen.toNat + 64)
    (hfuel : (inputLen.toNat - i.toNat) / 64 < fuel) :
    blocks input inputLen fuel state i = .error .outside := by
  induction fuel generalizing state i with
  | zero => omega
  | succ fuel ih =>
    rw [blocks, if_pos (test_of_wrap hi hwrap), read, List.length_drop, ← hinput]
    split_ifs with hblock
    · have hbound := inputLen.isLt
      have hadd := toNat_add_64 i
      have hnext := toNat_add_64_mod i
      exact ih _ (by omega) (hnext ▸ hi) (hnext ▸ hwrap) (by omega)
    · rfl

/-! ## Calls -/

/-- The context has been given the message. -/
structure Represents (context : Context) (m : Bytes) : Prop where
  state : context.state = (absorb transform 64 initial m).1
  buffer : context.buffer.1.take (m.length % 64) = (absorb transform 64 initial m).2
  count : context.count = bitCount m.length

theorem init_represents (context : Context) : Represents (init context) [] where
  state := by rw [absorb_nil, init]
  buffer := by rw [absorb_nil, List.length_nil, Nat.zero_mod, List.take_zero]
  count := rfl

/-- The call does not fill a block, or the bytes that wait and the input are fewer than 2^32,
and there is fuel for the blocks behind the first one. -/
def Ends (fuel len inputLen : Nat) : Prop :=
  64 ≤ len % 64 + inputLen →
    len % 64 + inputLen < 2 ^ 32 ∧ (len % 64 + inputLen - 64) / 64 < fuel

instance (fuel len inputLen : Nat) : Decidable (Ends fuel len inputLen) :=
  inferInstanceAs (Decidable (_ → _))

/-- The result under a condition, and none without it. -/
def OkIf {α : Type} (c : Prop) (x : Except Failure α) (a : α) : Prop :=
  (c → x = .ok a) ∧ (¬ c → ∃ failure, x = .error failure)

theorem OkIf.bind {α β : Type} {c : Prop} {x : Except Failure α} {a : α} {b : β}
    {next : α → Except Failure β} (h : OkIf c x a) (hnext : c → next a = .ok b) :
    OkIf c (x >>= next) b := by
  constructor
  · intro hc
    rw [h.1 hc]
    exact hnext hc
  · intro hc
    obtain ⟨failure, hx⟩ := h.2 hc
    exact ⟨failure, by rw [hx]; rfl⟩

theorem OkIf.iff {α : Type} {c d : Prop} {x : Except Failure α} {a : α} (h : OkIf c x a)
    (hiff : c ↔ d) : OkIf d x a := by
  rwa [← propext hiff]

/-- The number of bytes that fill up the buffer. -/
theorem toNat_partLen (hcount : context.count = bitCount len) :
    (64 - index context).toNat = 64 - len % 64 := by
  have hindex := toNat_index hcount
  have h64 : (64 : Word).toNat = 64 := rfl
  rw [BitVec.toNat_sub, hindex, h64]
  omega

/-- A call that does not fill a block adds to the buffer. -/
theorem update_short (h : Represents context m) (hinput : inputLen.toNat ≤ input.length)
    (hshort : m.length % 64 + inputLen.toNat < 64) (fuel : Nat) :
    ∃ context', Represents context' (m ++ input.take inputLen.toNat) ∧
      update fuel context input inputLen = .ok context' := by
  have hindex := toNat_index h.count
  have hpart := toNat_partLen h.count
  have hlen := List.length_take_of_le hinput
  have hread := read_of_le hinput
  obtain ⟨buffer, hcopy, hbuffer⟩ := copy_of_le context.buffer
    (show (index context).toNat + (input.take inputLen.toNat).length ≤ 64 by omega)
  have habsorb : absorb transform 64 initial (m ++ input.take inputLen.toNat) =
      (context.state, context.buffer.1.take (m.length % 64) ++ input.take inputLen.toNat) := by
    rw [absorb_append _ (by decide), ← h.state, ← h.buffer, absorb_of_lt]
    rw [List.length_append, List.length_take_of_le (by rw [context.buffer.2]; omega)]
    omega
  refine ⟨⟨context.state, addCount context.count inputLen, buffer⟩, ⟨?_, ?_, ?_⟩, ?_⟩
  · rw [habsorb]
  · have hmod : (m ++ input.take inputLen.toNat).length % 64 =
        (index context).toNat + (input.take inputLen.toNat).length := by
      rw [List.length_append, hindex]
      omega
    rw [habsorb, hmod, hbuffer, hindex]
  · rw [h.count, addCount_bitCount, List.length_append, hlen]
  · have hnot : ¬ 64 - index context ≤ inputLen := fun hle => by
      have := BitVec.le_def.mp hle
      omega
    have hzero : (0 : Word).toNat = 0 := rfl
    have hsub : inputLen - 0 = inputLen := BitVec.sub_zero inputLen
    simp only [update, transformBlocks, if_neg hnot, hzero, List.drop_zero, hsub, hread, hcopy,
      bind, Except.bind, pure, Except.pure]

/-- The buffer is filled up and hashed, before the loop. -/
theorem fill_buffer (h : Represents context m) (hinput : inputLen.toNat ≤ input.length)
    (hfull : 64 ≤ m.length % 64 + inputLen.toNat) :
    ∃ buffer, read input (64 - index context).toNat =
        .ok (input.take (64 - m.length % 64)) ∧
      copy context.buffer (index context).toNat (input.take (64 - m.length % 64)) =
        .ok buffer ∧
      absorb transform 64 initial (m ++ input.take inputLen.toNat) =
        absorb transform 64 (transform context.state buffer.1)
          ((input.take inputLen.toNat).drop (64 - m.length % 64)) := by
  have hindex := toNat_index h.count
  have hlen := List.length_take_of_le (show 64 - m.length % 64 ≤ input.length by omega)
  have hread := read_of_le (show 64 - m.length % 64 ≤ input.length by omega)
  obtain ⟨buffer, hcopy, hbuffer⟩ := copy_of_le context.buffer
    (show (index context).toNat + (input.take (64 - m.length % 64)).length ≤ 64 by omega)
  have hwhole : buffer.1 =
      context.buffer.1.take (m.length % 64) ++ input.take (64 - m.length % 64) := by
    rw [List.take_of_length_le (by rw [buffer.2]; omega)] at hbuffer
    rw [hbuffer, hindex]
  have hdata : input.take inputLen.toNat = input.take (64 - m.length % 64) ++
      (input.take inputLen.toNat).drop (64 - m.length % 64) := by
    conv => lhs; rw [← List.take_append_drop (64 - m.length % 64) (input.take inputLen.toNat)]
    rw [List.take_take, min_eq_left (by omega)]
  refine ⟨buffer, toNat_partLen h.count ▸ hread, hcopy, ?_⟩
  rw [absorb_append _ (by decide), ← h.state, ← h.buffer]
  conv => lhs; rw [hdata, ← List.append_assoc, ← hwhole]
  exact absorb_block_append _ (by decide) buffer.2 _

/-- A call that fills a block. -/
theorem update_full (h : Represents context m) (hinput : inputLen.toNat ≤ input.length)
    (hfull : 64 ≤ m.length % 64 + inputLen.toNat) (fuel : Nat) :
    ∃ context', Represents context' (m ++ input.take inputLen.toNat) ∧
      OkIf (Ends fuel m.length inputLen.toNat) (update fuel context input inputLen) context' := by
  have hbound := inputLen.isLt
  have hpart := toNat_partLen h.count
  have hle : 64 - index context ≤ inputLen := BitVec.le_def.mpr (by omega)
  have hlast := toNat_lastBlock inputLen (64 - index context)
  have hsub : (inputLen - lastBlock inputLen (64 - index context)).toNat =
      inputLen.toNat - (lastBlock inputLen (64 - index context)).toNat := by
    rw [BitVec.toNat_sub]
    omega
  obtain ⟨buffer, hread, hcopy, habsorb⟩ := fill_buffer h hinput hfull
  generalize hi : 64 - index context = i at *
  set data := input.take inputLen.toNat with hdata
  set j := lastBlock inputLen i
  have hlen : data.length = inputLen.toNat := List.length_take_of_le hinput
  have hrest : (absorb transform 64 initial (m ++ data)).2 = data.drop j.toNat := by
    rw [habsorb, rest_eq_drop _ (by decide), List.drop_drop, List.length_drop, hlen]
    congr 1
    omega
  have hreadRest : read (input.drop j.toNat) (inputLen - j).toNat =
      .ok (data.drop j.toNat) := by
    rw [read_of_le (by rw [List.length_drop]; omega), hsub, hdata, List.drop_take]
  obtain ⟨buffer', hcopyRest, hbuffer⟩ := copy_of_le buffer
    (show 0 + (data.drop j.toNat).length ≤ 64 by rw [List.length_drop]; omega)
  refine ⟨⟨(absorb transform 64 initial (m ++ data)).1, addCount context.count inputLen, buffer'⟩,
    ⟨rfl, ?_, ?_⟩, ?_⟩
  · have hmod : (m ++ data).length % 64 = 0 + (data.drop j.toNat).length := by
      rw [List.length_append, List.length_drop]
      omega
    rw [hmod, hbuffer, hrest, List.take_zero, List.nil_append]
  · rw [h.count, addCount_bitCount, List.length_append, hlen]
  · have hloop : OkIf (Ends fuel m.length inputLen.toNat)
        (blocks input inputLen fuel (transform context.state buffer.1) i)
        ((absorb transform 64 initial (m ++ data)).1, j) := by
      by_cases hfits : m.length % 64 + inputLen.toNat < 2 ^ 32
      · have hends : Ends fuel m.length inputLen.toNat ↔
            (inputLen.toNat - i.toNat) / 64 < fuel := by
          unfold Ends
          omega
        rw [blocks_eq hinput _ (by omega) (by omega), habsorb, hpart]
        rw [hpart] at hends
        exact ⟨fun h => if_pos (hends.mp h), fun h => ⟨_, if_neg (mt hends.mpr h)⟩⟩
      · exact ⟨fun hends => absurd (hends hfull).1 hfits,
          fun _ => blocks_of_wrap _ (by omega) (by omega) fuel⟩
    have hcall : update fuel context input inputLen =
        (do
          let (state, i) ← blocks input inputLen fuel (transform context.state buffer.1) i
          let data ← read (input.drop i.toNat) (inputLen - i).toNat
          let buffer ← copy buffer 0 data
          return ⟨state, addCount context.count inputLen, buffer⟩) := by
      simp only [update, transformBlocks, hi, if_pos hle, hread, hcopy, bind, Except.bind]
      cases blocks input inputLen fuel (transform context.state buffer.1) i <;> rfl
    rw [hcall]
    exact hloop.bind fun _ => by simp only [hreadRest, hcopyRest, bind, Except.bind, pure, Except.pure]

/-- What a call does to a context that has been given a message. -/
theorem update_represents (h : Represents context m) (hinput : inputLen.toNat ≤ input.length)
    (fuel : Nat) :
    ∃ context', Represents context' (m ++ input.take inputLen.toNat) ∧
      OkIf (Ends fuel m.length inputLen.toNat) (update fuel context input inputLen) context' := by
  by_cases hfull : 64 ≤ m.length % 64 + inputLen.toNat
  · exact update_full h hinput hfull fuel
  · obtain ⟨context', hnext, hcall⟩ := update_short h hinput (not_le.mp hfull) fuel
    exact ⟨context', hnext, fun _ => hcall, fun hnot => absurd (fun hle => absurd hle hfull) hnot⟩

/-- A call with too many bytes reads behind them. -/
theorem update_outside (h : Represents context m) (hinput : inputLen.toNat = input.length)
    (hlong : 2 ^ 32 ≤ m.length % 64 + inputLen.toNat) (hfuel : 2 ^ 26 < fuel) :
    update fuel context input inputLen = .error .outside := by
  have hbound := inputLen.isLt
  have hpart := toNat_partLen h.count
  have hle : 64 - index context ≤ inputLen := BitVec.le_def.mpr (by omega)
  obtain ⟨buffer, hread, hcopy, -⟩ := fill_buffer h (le_of_eq hinput) (by omega)
  have hloop : blocks input inputLen fuel (transform context.state buffer.1)
      (64 - index context) = .error .outside :=
    blocks_outside hinput _ (by omega) (by omega) (by omega) (by omega)
  simp only [update, transformBlocks, if_pos hle, hread, hcopy, hloop, bind, Except.bind]

/-! ## Runs -/

/-- Calls one after the other, with a piece of the message each. -/
def updates (fuel : Nat) (context : Context) (pieces : List Bytes) : Except Failure Context :=
  pieces.foldlM (fun context piece => update fuel context piece (BitVec.ofNat 32 piece.length))
    context

/-- `MD5_Init`, the calls of `MD5_Update`, and `MD5_Final`. -/
def run (fuel : Nat) (context : Context) (pieces : List Bytes) :
    Except Failure (Bytes × Context) :=
  updates fuel (init context) pieces >>= final fuel

/-- Every call ends. -/
def AllEnd (fuel : Nat) : Nat → List Bytes → Prop
  | _, [] => True
  | len, piece :: pieces =>
    Ends fuel len piece.length ∧ AllEnd fuel (len + piece.length) pieces

/-- A piece, and the bytes that wait in front of it, are fewer than 2^32. -/
def Fits : Nat → List Bytes → Prop
  | _, [] => True
  | len, piece :: pieces =>
    (len % 64 + piece.length < 2 ^ 32) ∧ Fits (len + piece.length) pieces

theorem toNat_length {piece : Bytes} (hpiece : piece.length < 2 ^ 32) :
    (BitVec.ofNat 32 piece.length).toNat = piece.length := by
  rw [BitVec.toNat_ofNat, Nat.mod_eq_of_lt hpiece]

theorem updates_represents {pieces : List Bytes} (h : Represents context m)
    (hpieces : ∀ piece ∈ pieces, piece.length < 2 ^ 32) (fuel : Nat) :
    ∃ context', Represents context' (m ++ pieces.flatten) ∧
      OkIf (AllEnd fuel m.length pieces) (updates fuel context pieces) context' := by
  induction pieces generalizing context m with
  | nil => exact ⟨context, by simpa using h, fun _ => rfl, fun hnot => absurd trivial hnot⟩
  | cons piece pieces ih =>
    have hlen := toNat_length (hpieces piece (List.mem_cons_self ..))
    obtain ⟨context₁, h₁, hcall⟩ := update_represents h (le_of_eq hlen) fuel
    rw [hlen, List.take_length] at h₁
    rw [hlen] at hcall
    obtain ⟨context', h', hcalls⟩ :=
      ih h₁ fun piece hmem => hpieces piece (List.mem_cons_of_mem _ hmem)
    rw [List.length_append] at hcalls
    refine ⟨context', by rwa [List.flatten_cons, ← List.append_assoc], ?_, fun hall => ?_⟩
    · rintro ⟨hfirst, hrest⟩
      rw [updates, List.foldlM_cons, hcall.1 hfirst]
      exact hcalls.1 hrest
    · rw [updates, List.foldlM_cons]
      by_cases hfirst : Ends fuel m.length piece.length
      · rw [hcall.1 hfirst]
        exact hcalls.2 fun hrest => hall ⟨hfirst, hrest⟩
      · obtain ⟨failure, hfails⟩ := hcall.2 hfirst
        exact ⟨failure, by rw [hfails]; rfl⟩

/-- The first call with too many bytes reads behind them. -/
theorem updates_outside {pieces : List Bytes} (h : Represents context m)
    (hpieces : ∀ piece ∈ pieces, piece.length < 2 ^ 32) (hlong : ¬ Fits m.length pieces)
    (hfuel : 2 ^ 26 < fuel) : updates fuel context pieces = .error .outside := by
  induction pieces generalizing context m with
  | nil => exact absurd trivial hlong
  | cons piece pieces ih =>
    have hlen := toNat_length (hpieces piece (List.mem_cons_self ..))
    rw [updates, List.foldlM_cons]
    by_cases hfits : m.length % 64 + piece.length < 2 ^ 32
    · obtain ⟨context₁, h₁, hcall⟩ := update_represents h (le_of_eq hlen) fuel
      rw [hlen, List.take_length] at h₁
      rw [hcall.1 fun _ => ⟨by omega, by omega⟩]
      refine ih h₁ (fun piece hmem => hpieces piece (List.mem_cons_of_mem _ hmem)) fun hrest => ?_
      rw [List.length_append] at hrest
      exact hlong ⟨hfits, hrest⟩
    · rw [update_outside h hlen (by omega) hfuel]
      rfl

/-- Every call ends with fuel for 2^26 blocks, or a counter wraps. -/
theorem fits_iff_allEnd {len : Nat} {pieces : List Bytes} :
    Fits len pieces ↔ ∃ fuel, 0 < fuel ∧ AllEnd fuel len pieces := by
  constructor
  · intro hfits
    refine ⟨2 ^ 26, Nat.two_pow_pos 26, ?_⟩
    induction pieces generalizing len with
    | nil => trivial
    | cons piece pieces ih =>
      obtain ⟨hpiece, hrest⟩ := hfits
      exact ⟨fun _ => ⟨hpiece, by omega⟩, ih hrest⟩
  · rintro ⟨fuel, -, hends⟩
    induction pieces generalizing len with
    | nil => trivial
    | cons piece pieces ih =>
      refine ⟨?_, ih hends.2⟩
      by_cases hfull : 64 ≤ len % 64 + piece.length
      · exact (hends.1 hfull).1
      · omega

/-- The length of the padding. -/
theorem toNat_padLen (hcount : context.count = bitCount len) :
    (if index context < 56 then 56 - index context else 120 - index context).toNat =
      (119 - len % 64) % 64 + 1 := by
  have hindex := toNat_index hcount
  have h56 : (56 : Word).toNat = 56 := rfl
  have h120 : (120 : Word).toNat = 120 := rfl
  simp only [BitVec.lt_def, hindex, h56]
  split_ifs
  · rw [BitVec.toNat_sub, hindex, h56]
    omega
  · rw [BitVec.toNat_sub, hindex, h120]
    omega

theorem take_padding {n : Nat} (hn : n ≤ 63) :
    padding.take (n + 1) = 0x80 :: List.replicate n 0 := by
  rw [padding, List.take_succ_cons, List.take_replicate, min_eq_left hn]

/-- The padding of a context, and the number of its bits, make the padded message. -/
theorem final_represents (h : Represents context m) (fuel : Nat) :
    OkIf (0 < fuel) (final fuel context) (md5 m, zeroized) := by
  have hpad := toNat_padLen h.count
  have hcount := h.count
  have hpadding : padding.length = 64 := rfl
  have hbits : (encode [context.count.1, context.count.2]).length = 8 := length_encode _
  have h8 : (8 : Word).toNat = 8 := rfl
  rw [final]
  generalize (if index context < 56 then 56 - index context else 120 - index context) = padLen at *
  obtain ⟨context₁, h₁, hfirst⟩ :=
    update_represents h (show padLen.toNat ≤ padding.length by omega) fuel
  rw [hpad, take_padding (by omega)] at h₁
  obtain ⟨context₂, h₂, hsecond⟩ := update_represents h₁
    (show (8 : Word).toNat ≤ (encode [context.count.1, context.count.2]).length from
      le_of_eq hbits.symm) fuel
  rw [h8, List.take_of_length_le (le_of_eq hbits), hcount] at h₂
  have hlen : (m ++ 0x80 :: List.replicate ((119 - m.length % 64) % 64) 0).length =
      m.length + ((119 - m.length % 64) % 64 + 1) := by
    rw [List.length_append, List.length_cons, List.length_replicate]
  have hends₁ : 0 < fuel → Ends fuel m.length padLen.toNat := fun hfuel _ =>
    ⟨by omega, by omega⟩
  have hends₂ : Ends fuel (m.length + ((119 - m.length % 64) % 64 + 1)) 8 ↔ 0 < fuel := by
    unfold Ends
    omega
  have hresult : digest context₂.state = md5 m := by
    rw [h₂.state]
    rfl
  rw [hlen, h8] at hsecond
  have hlast : OkIf (0 < fuel) (do
      let context ← update fuel context₁ (encode [context.count.1, context.count.2]) 8
      return (digest context.state, zeroized)) (md5 m, zeroized) :=
    (hsecond.iff hends₂).bind fun _ => by rw [hresult]; rfl
  by_cases hends : Ends fuel m.length padLen.toNat
  · rw [hfirst.1 hends]
    exact hlast
  · obtain ⟨failure, hfails⟩ := hfirst.2 hends
    exact ⟨fun hfuel => absurd (hends₁ hfuel) hends, fun _ => ⟨failure, by rw [hfails]; rfl⟩⟩

/-- A run gives the hash of the message if every call ends, and gives nothing otherwise. -/
theorem run_eq (context : Context) {pieces : List Bytes}
    (hpieces : ∀ piece ∈ pieces, piece.length < 2 ^ 32) (fuel : Nat) :
    OkIf (0 < fuel ∧ AllEnd fuel 0 pieces) (run fuel context pieces)
      (md5 pieces.flatten, zeroized) := by
  obtain ⟨context', h', hcalls⟩ := updates_represents (init_represents context) hpieces fuel
  have hfinal := final_represents h' fuel
  constructor
  · rintro ⟨hfuel, hall⟩
    rw [run, hcalls.1 hall]
    exact hfinal.1 hfuel
  · intro hfails
    rw [run]
    by_cases hall : AllEnd fuel 0 pieces
    · rw [hcalls.1 hall]
      exact hfinal.2 fun hfuel => hfails ⟨hfuel, hall⟩
    · obtain ⟨failure, hcall⟩ := hcalls.2 hall
      exact ⟨failure, by rw [hcall]; rfl⟩

/-- However a message is cut into calls, what `MD5_Final` gives is the hash of the message, and
nothing is accessed outside the pieces and the buffer. It is given if and only if each piece is,
with the bytes that wait in front of it, shorter than 2^32; otherwise a call reads behind its
piece. -/
theorem run_iff (context : Context) {pieces : List Bytes}
    (hpieces : ∀ piece ∈ pieces, piece.length < 2 ^ 32) :
    (∀ fuel result, run fuel context pieces = .ok result →
        result = (md5 pieces.flatten, zeroized)) ∧
      ((∃ fuel result, run fuel context pieces = .ok result) ↔ Fits 0 pieces) ∧
      (¬ Fits 0 pieces → ∀ fuel, 2 ^ 26 < fuel → run fuel context pieces = .error .outside) := by
  have hends {fuel : Nat} {result : Bytes × Context}
      (h : run fuel context pieces = .ok result) : 0 < fuel ∧ AllEnd fuel 0 pieces := by
    by_contra hnot
    obtain ⟨failure, hfails⟩ := (run_eq context hpieces fuel).2 hnot
    exact nomatch hfails.symm.trans h
  refine ⟨fun fuel result h => ?_, ⟨?_, fun hfits => ?_⟩, fun hlong fuel hfuel => ?_⟩
  · exact Except.ok.inj (h.symm.trans ((run_eq context hpieces fuel).1 (hends h)))
  · rintro ⟨fuel, result, h⟩
    exact fits_iff_allEnd.mpr ⟨fuel, hends h⟩
  · obtain ⟨fuel, hall⟩ := fits_iff_allEnd.mp hfits
    exact ⟨fuel, _, (run_eq context hpieces fuel).1 hall⟩
  · rw [run, updates_outside (init_represents context) hpieces hlong hfuel]
    rfl

/-- Two pieces and an empty one. -/
theorem run_iff_pieces :
    ∃ fuel, run fuel zeroized [ascii "ab", [], ascii "c"] = .ok (md5 (ascii "abc"), zeroized) := by
  obtain ⟨hsound, hends, -⟩ :=
    run_iff zeroized (show ∀ piece ∈ [ascii "ab", [], ascii "c"], piece.length < 2 ^ 32 by decide)
  obtain ⟨fuel, result, h⟩ := hends.mpr ⟨by decide, by decide, by decide, trivial⟩
  exact ⟨fuel, h.trans (congrArg Except.ok (hsound fuel result h))⟩

end CxxFramework.Basic.MD5Context
