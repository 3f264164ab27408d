import CxxFramework.Core.StringFormatter

/-!
# Base64

`Base64encode` and `Base64decode`. An encoding is a list of groups of four characters, the
last of which may be padded. Decoding stops at the first character outside the alphabet, so
at the first padding, also where other encodings follow.

## Main definitions

* `plaintext` — the bytes that whole groups stand for, padded groups among them.
* `Encoded` — characters whose whole groups are groups of an encoding.
-/

namespace CxxFramework.Core

/-- `pr2six`: the six bits of a character, and 64 outside the alphabet. -/
def pr2six (c : UInt8) : Nat :=
  if 65 ≤ c ∧ c ≤ 90 then c.toNat - 65
  else if 97 ≤ c ∧ c ≤ 122 then c.toNat - 71
  else if 48 ≤ c ∧ c ≤ 57 then c.toNat + 4
  else if c = 43 then 62
  else if c = 47 then 63
  else 64

/-- `basis_64` -/
def basis_64 (i : Nat) : UInt8 :=
  (ascii "ABCDEFGHIJKLMNOPQRSTUVWXYZabcdefghijklmnopqrstuvwxyz0123456789+/").getD i 0

/-! ## Decoding -/

def firstByte (a b : UInt8) : UInt8 := UInt8.ofNat (pr2six a <<< 2 ||| pr2six b >>> 4)
def secondByte (b c : UInt8) : UInt8 := UInt8.ofNat (pr2six b <<< 4 ||| pr2six c >>> 2)
def thirdByte (c d : UInt8) : UInt8 := UInt8.ofNat (pr2six c <<< 6 ||| pr2six d)

/-- The loop of `Base64decode`, over characters of the alphabet: groups of four while more
than four characters are left, and then the rest of them. -/
def decodeChars : Bytes → Bytes
  | a :: b :: c :: d :: e :: rest =>
    firstByte a b :: secondByte b c :: thirdByte c d :: decodeChars (e :: rest)
  | [a, b, c, d] => [firstByte a b, secondByte b c, thirdByte c d]
  | [a, b, c] => [firstByte a b, secondByte b c]
  | [a, b] => [firstByte a b]
  | _ => []

/-- `Base64decode`: the number it returns, and the bytes it writes. `none` stands for an
access behind the characters. -/
def base64decode (bufcoded : Bytes) : Option (Nat × Bytes) :=
  let chars := bufcoded.takeWhile fun c => pr2six c ≤ 63
  let nprbytes := chars.length
  if nprbytes = bufcoded.length then none
  else
    some ((nprbytes + 3) / 4 * 3 - ((4 - (nprbytes : Int)) % 4).toNat, decodeChars chars ++ [0])

/-! ## Encoding -/

/-- The loop of `Base64encode` and the group behind it. -/
def encodeChars : Bytes → Bytes
  | a :: b :: c :: rest =>
    basis_64 ((a.toNat >>> 2) &&& 0x3F) ::
      basis_64 (((a.toNat &&& 0x3) <<< 4) ||| ((b.toNat &&& 0xF0) >>> 4)) ::
      basis_64 (((b.toNat &&& 0xF) <<< 2) ||| ((c.toNat &&& 0xC0) >>> 6)) ::
      basis_64 (c.toNat &&& 0x3F) :: encodeChars rest
  | [a, b] =>
    [basis_64 ((a.toNat >>> 2) &&& 0x3F),
      basis_64 (((a.toNat &&& 0x3) <<< 4) ||| ((b.toNat &&& 0xF0) >>> 4)),
      basis_64 ((b.toNat &&& 0xF) <<< 2), 61]
  | [a] =>
    [basis_64 ((a.toNat >>> 2) &&& 0x3F), basis_64 ((a.toNat &&& 0x3) <<< 4), 61, 61]
  | [] => []

/-- `Base64encode`: the characters it writes, with the NUL behind them. -/
def base64encode (string : Bytes) : Bytes := encodeChars string ++ [0]

/-! ## Groups -/

/-- The bytes that the whole groups of four characters stand for. -/
def plaintext : Bytes → Bytes
  | a :: b :: c :: d :: rest =>
    (if c = 61 then [firstByte a b]
      else if d = 61 then [firstByte a b, secondByte b c]
      else [firstByte a b, secondByte b c, thirdByte c d]) ++ plaintext rest
  | _ => []

/-- A group of an encoding: four characters, or three or two and padding. -/
def IsGroup (a b c d : UInt8) : Prop :=
  pr2six a ≤ 63 ∧ pr2six b ≤ 63 ∧
    (c = 61 ∧ d = 61 ∨ pr2six c ≤ 63 ∧ (d = 61 ∨ pr2six d ≤ 63))

/-- All whole groups are groups of an encoding. -/
def Encoded : Bytes → Prop
  | a :: b :: c :: d :: rest => IsGroup a b c d ∧ Encoded rest
  | _ => True

variable {s t : Bytes} {a b c d : UInt8} {i j : Nat}

/-! ## The six bits of a character -/

theorem pr2six_basis_64 (h : i < 64) : pr2six (basis_64 i) = i := by
  have hall : ∀ i < 64, pr2six (basis_64 i) = i := by decide +kernel
  exact hall i h

theorem pr2six_pad : pr2six 61 = 64 := by decide

theorem pr2six_nul : pr2six 0 = 64 := by decide

theorem ne_pad_of_char (h : pr2six c ≤ 63) : c ≠ 61 := by
  rintro rfl
  rw [pr2six_pad] at h
  omega

theorem ne_nul_of_char (h : pr2six c ≤ 63) : c ≠ 0 := by
  rintro rfl
  rw [pr2six_nul] at h
  omega

/-- Joining bits that do not overlap is a sum. -/
theorem shiftLeft_or_eq (n : Nat) (h : j < 2 ^ i) : n <<< i ||| j = n * 2 ^ i + j := by
  rw [← Nat.shiftLeft_add_eq_or_of_lt h, Nat.shiftLeft_eq]

theorem ofNat_eq_of_mod {n : Nat} (h : n % 256 = c.toNat) : UInt8.ofNat n = c := by
  rw [← UInt8.ofNat_toNat (x := c), ← h]
  exact UInt8.ofNat_mod_size.symm

/-- A byte whose six upper bits are in one character, and its other two in the next. -/
theorem firstByte_eq {x y : UInt8} {k : Nat} (hx : pr2six x = a.toNat / 4)
    (hy : pr2six y = a.toNat % 4 * 16 + k) (hk : k < 16) : firstByte x y = a := by
  have hlow : pr2six y >>> 4 = a.toNat % 4 := by
    rw [Nat.shiftRight_eq_div_pow, hy]
    omega
  rw [firstByte, hx, hlow, shiftLeft_or_eq _ (by omega : a.toNat % 4 < 2 ^ 2)]
  refine ofNat_eq_of_mod ?_
  have := a.toNat_lt
  omega

theorem secondByte_eq {y z : UInt8} {h k : Nat} (hy : pr2six y = h * 16 + b.toNat / 16)
    (hz : pr2six z = b.toNat % 16 * 4 + k) (hk : k < 4) : secondByte y z = b := by
  have hlow : pr2six z >>> 2 = b.toNat % 16 := by
    rw [Nat.shiftRight_eq_div_pow, hz]
    omega
  rw [secondByte, hy, hlow, shiftLeft_or_eq _ (by omega : b.toNat % 16 < 2 ^ 4)]
  refine ofNat_eq_of_mod ?_
  have := b.toNat_lt
  omega

theorem thirdByte_eq {z w : UInt8} {h : Nat} (hz : pr2six z = h * 4 + c.toNat / 64)
    (hw : pr2six w = c.toNat % 64) : thirdByte z w = c := by
  rw [thirdByte, hz, hw, shiftLeft_or_eq _ (by omega : c.toNat % 64 < 2 ^ 6)]
  refine ofNat_eq_of_mod ?_
  have := c.toNat_lt
  omega

/-! ## What the encoder writes -/

theorem and_shiftRight (n m i : Nat) : (n &&& m) >>> i = n / 2 ^ i &&& m >>> i := by
  rw [Nat.shiftRight_and_distrib, Nat.shiftRight_eq_div_pow n]

theorem upper_six (a : UInt8) : (a.toNat >>> 2) &&& 0x3F = a.toNat / 4 := by
  have ha := a.toNat_lt
  rw [Nat.and_two_pow_sub_one_eq_mod _ 6, Nat.shiftRight_eq_div_pow]
  omega

theorem lower_two (a : UInt8) : (a.toNat &&& 0x3) <<< 4 = a.toNat % 4 * 16 := by
  rw [Nat.and_two_pow_sub_one_eq_mod _ 2, Nat.shiftLeft_eq]

theorem lower_four (b : UInt8) : (b.toNat &&& 0xF) <<< 2 = b.toNat % 16 * 4 := by
  rw [Nat.and_two_pow_sub_one_eq_mod _ 4, Nat.shiftLeft_eq]

theorem lower_six (c : UInt8) : c.toNat &&& 0x3F = c.toNat % 64 :=
  Nat.and_two_pow_sub_one_eq_mod _ 6

theorem upper_four (b : UInt8) : (b.toNat &&& 0xF0) >>> 4 = b.toNat / 16 := by
  have hb := b.toNat_lt
  rw [and_shiftRight, show (0xF0 : Nat) >>> 4 = 2 ^ 4 - 1 from rfl,
    Nat.and_two_pow_sub_one_eq_mod]
  omega

theorem upper_two (c : UInt8) : (c.toNat &&& 0xC0) >>> 6 = c.toNat / 64 := by
  have hc := c.toNat_lt
  rw [and_shiftRight, show (0xC0 : Nat) >>> 6 = 2 ^ 2 - 1 from rfl,
    Nat.and_two_pow_sub_one_eq_mod]
  omega

theorem two_and_four (a b : UInt8) :
    (a.toNat &&& 0x3) <<< 4 ||| (b.toNat &&& 0xF0) >>> 4 = a.toNat % 4 * 16 + b.toNat / 16 := by
  have hb := b.toNat_lt
  rw [upper_four, shiftLeft_or_eq _ (by omega : b.toNat / 16 < 2 ^ 4),
    ← Nat.shiftLeft_eq, lower_two]

theorem four_and_two (b c : UInt8) :
    (b.toNat &&& 0xF) <<< 2 ||| (c.toNat &&& 0xC0) >>> 6 = b.toNat % 16 * 4 + c.toNat / 64 := by
  have hc := c.toNat_lt
  rw [upper_two, shiftLeft_or_eq _ (by omega : c.toNat / 64 < 2 ^ 2), ← Nat.shiftLeft_eq,
    lower_four]

theorem length_encodeChars (string : Bytes) :
    (encodeChars string).length = (string.length + 2) / 3 * 4 := by
  fun_induction encodeChars string with
  | case1 a b c rest ih =>
    simp only [List.length_cons, ih]
    omega
  | case2 a b => simp
  | case3 a => simp
  | case4 => simp

theorem length_encodeChars_dvd (string : Bytes) : 4 ∣ (encodeChars string).length :=
  length_encodeChars string ▸ Nat.dvd_mul_left 4 _

/-- An encoding consists of groups, and these stand for the bytes encoded. -/
theorem encodeChars_groups (string : Bytes) :
    Encoded (encodeChars string) ∧ plaintext (encodeChars string) = string := by
  fun_induction encodeChars string with
  | case1 a b c rest ih =>
    have ha := a.toNat_lt
    have hb := b.toNat_lt
    have hc := c.toNat_lt
    rw [upper_six, two_and_four, four_and_two, lower_six]
    have h₀ := pr2six_basis_64 (by omega : a.toNat / 4 < 64)
    have h₁ := pr2six_basis_64 (by omega : a.toNat % 4 * 16 + b.toNat / 16 < 64)
    have h₂ := pr2six_basis_64 (by omega : b.toNat % 16 * 4 + c.toNat / 64 < 64)
    have h₃ := pr2six_basis_64 (by omega : c.toNat % 64 < 64)
    have hthird := ne_pad_of_char
      (by omega : pr2six (basis_64 (b.toNat % 16 * 4 + c.toNat / 64)) ≤ 63)
    have hfourth := ne_pad_of_char (by omega : pr2six (basis_64 (c.toNat % 64)) ≤ 63)
    refine ⟨⟨⟨by omega, by omega, .inr ⟨by omega, .inr (by omega)⟩⟩, ih.1⟩, ?_⟩
    rw [plaintext, if_neg hthird, if_neg hfourth, firstByte_eq h₀ h₁ (by omega),
      secondByte_eq h₁ h₂ (by omega), thirdByte_eq h₂ h₃, ih.2]
    rfl
  | case2 a b =>
    have ha := a.toNat_lt
    have hb := b.toNat_lt
    rw [upper_six, two_and_four, lower_four]
    have h₀ := pr2six_basis_64 (by omega : a.toNat / 4 < 64)
    have h₁ := pr2six_basis_64 (by omega : a.toNat % 4 * 16 + b.toNat / 16 < 64)
    have h₂ := pr2six_basis_64 (by omega : b.toNat % 16 * 4 < 64)
    have hthird := ne_pad_of_char (by omega : pr2six (basis_64 (b.toNat % 16 * 4)) ≤ 63)
    refine ⟨⟨⟨by omega, by omega, .inr ⟨by omega, .inl rfl⟩⟩, trivial⟩, ?_⟩
    rw [plaintext, if_neg hthird, if_pos rfl, firstByte_eq h₀ h₁ (by omega),
      secondByte_eq h₁ (h₂.trans (Nat.add_zero _).symm) (by omega)]
    rfl
  | case3 a =>
    have ha := a.toNat_lt
    rw [upper_six, lower_two]
    have h₀ := pr2six_basis_64 (by omega : a.toNat / 4 < 64)
    have h₁ := pr2six_basis_64 (by omega : a.toNat % 4 * 16 < 64)
    refine ⟨⟨⟨by omega, by omega, .inl ⟨rfl, rfl⟩⟩, trivial⟩, ?_⟩
    rw [plaintext, if_pos rfl, firstByte_eq h₀ (h₁.trans (Nat.add_zero _).symm) (by omega)]
    rfl
  | case4 => exact ⟨trivial, rfl⟩

theorem basis_64_ne_nul (h : i < 64) : basis_64 i ≠ 0 := by
  refine ne_nul_of_char ?_
  rw [pr2six_basis_64 h]
  omega

theorem zero_notMem_encodeChars (string : Bytes) : 0 ∉ encodeChars string := by
  fun_induction encodeChars string with
  | case1 a b c rest ih =>
    have ha := a.toNat_lt
    have hb := b.toNat_lt
    have hc := c.toNat_lt
    rw [upper_six, two_and_four, four_and_two, lower_six]
    simp only [List.mem_cons, not_or]
    exact ⟨(basis_64_ne_nul (by omega)).symm, (basis_64_ne_nul (by omega)).symm,
      (basis_64_ne_nul (by omega)).symm, (basis_64_ne_nul (by omega)).symm, ih⟩
  | case2 a b =>
    have ha := a.toNat_lt
    have hb := b.toNat_lt
    rw [upper_six, two_and_four, lower_four]
    simp only [List.mem_cons, List.not_mem_nil, or_false, not_or]
    exact ⟨(basis_64_ne_nul (by omega)).symm, (basis_64_ne_nul (by omega)).symm,
      (basis_64_ne_nul (by omega)).symm, by decide⟩
  | case3 a =>
    have ha := a.toNat_lt
    rw [upper_six, lower_two]
    simp only [List.mem_cons, List.not_mem_nil, or_false, not_or]
    exact ⟨(basis_64_ne_nul (by omega)).symm, (basis_64_ne_nul (by omega)).symm,
      by decide, by decide⟩
  | case4 => exact List.not_mem_nil

/-! ## Streams of groups -/

theorem length_lt_four (hshort : ∀ a b c d rest, s ≠ a :: b :: c :: d :: rest) : s.length < 4 := by
  match s with
  | [] | [_] | [_, _] | [_, _, _] => simp
  | a :: b :: c :: d :: rest => exact absurd rfl (hshort a b c d rest)

theorem eq_nil_of_dvd (hlen : 4 ∣ s.length)
    (hshort : ∀ a b c d rest, s ≠ a :: b :: c :: d :: rest) : s = [] :=
  List.eq_nil_of_length_eq_zero (Nat.eq_zero_of_dvd_of_lt hlen (length_lt_four hshort))

theorem Encoded.append (hs : Encoded s) (hlen : 4 ∣ s.length) (ht : Encoded t) :
    Encoded (s ++ t) := by
  fun_induction Encoded s with
  | case1 a b c d rest ih =>
    refine ⟨hs.1, ih hs.2 ?_⟩
    simp only [List.length_cons] at hlen
    omega
  | case2 s hshort =>
    obtain rfl := eq_nil_of_dvd hlen hshort
    exact ht

theorem plaintext_append (hlen : 4 ∣ s.length) :
    plaintext (s ++ t) = plaintext s ++ plaintext t := by
  fun_induction plaintext s with
  | case1 a b c d rest ih =>
    have hrest : 4 ∣ rest.length := by
      simp only [List.length_cons] at hlen
      omega
    rw [List.append_assoc, ← ih hrest]
    rfl
  | case2 s hshort =>
    obtain rfl := eq_nil_of_dvd hlen hshort
    rfl

theorem Encoded.of_isPrefix (hs : Encoded s) (h : t <+: s) : Encoded t := by
  fun_induction Encoded t generalizing s with
  | case1 a b c d rest ih =>
    obtain ⟨u, rfl⟩ := h
    exact ⟨hs.1, ih hs.2 (List.prefix_append rest u)⟩
  | case2 => trivial

theorem plaintext_prefix (h : t <+: s) : plaintext t <+: plaintext s := by
  fun_induction plaintext t generalizing s with
  | case1 a b c d rest ih =>
    obtain ⟨u, rfl⟩ := h
    exact (List.prefix_append_right_inj _).mpr (ih (List.prefix_append rest u))
  | case2 => exact List.nil_prefix

theorem Encoded.of_append (hs : Encoded (s ++ t)) (hlen : 4 ∣ s.length) : Encoded t := by
  fun_induction plaintext s with
  | case1 a b c d rest ih =>
    refine ih hs.2 ?_
    simp only [List.length_cons] at hlen
    omega
  | case2 s hshort =>
    obtain rfl := eq_nil_of_dvd hlen hshort
    exact hs

/-- Fewer than four characters stand for nothing. -/
theorem plaintext_of_lt (h : s.length < 4) : plaintext s = [] := by
  match s with
  | [] | [_] | [_, _] | [_, _, _] => rfl
  | a :: b :: c :: d :: rest =>
    simp only [List.length_cons] at h
    omega

/-- Only whole groups count. -/
theorem plaintext_append_of_lt (hlen : 4 ∣ s.length) (ht : t.length < 4) :
    plaintext (s ++ t) = plaintext s := by
  rw [plaintext_append hlen, plaintext_of_lt ht, List.append_nil]

/-- A group stands for one, two or three bytes. -/
theorem length_plaintext (s : Bytes) :
    s.length / 4 ≤ (plaintext s).length ∧ (plaintext s).length ≤ s.length / 4 * 3 := by
  fun_induction plaintext s with
  | case1 a b c d rest ih =>
    simp only [List.length_cons, List.length_append]
    split_ifs <;> simp only [List.length_cons, List.length_nil] <;> omega
  | case2 s hshort =>
    have hlt := length_lt_four hshort
    simp only [List.length_nil]
    omega

/-! ## What one call decodes -/

/-- The number that `Base64decode` returns is the number of bytes it writes before the NUL. -/
theorem length_decodeChars (chars : Bytes) :
    (decodeChars chars).length =
      (chars.length + 3) / 4 * 3 - ((4 - (chars.length : Int)) % 4).toNat := by
  fun_induction decodeChars chars with
  | case1 a b c d e rest ih =>
    simp only [List.length_cons] at ih ⊢
    omega
  | case2 => simp
  | case3 => simp
  | case4 => simp
  | case5 chars h₁ h₂ h₃ h₄ =>
    match chars with
    | [] | [_] => simp
    | [a, b] => exact absurd rfl (h₄ a b)
    | [a, b, c] => exact absurd rfl (h₃ a b c)
    | [a, b, c, d] => exact absurd rfl (h₂ a b c d)
    | a :: b :: c :: d :: e :: rest => exact absurd rfl (h₁ a b c d e rest)

theorem decodeChars_group (chars : Bytes) :
    decodeChars (a :: b :: c :: d :: chars) =
      firstByte a b :: secondByte b c :: thirdByte c d :: decodeChars chars := by
  cases chars <;> rfl

/-- The characters that a call decodes: some groups, up to the first padding, or all. -/
theorem decodeChars_takeWhile (hs : Encoded s) (hlen : 4 ∣ s.length) (hne : s ≠ [])
    (beyond : Bytes) :
    ∃ front rest, s = front ++ rest ∧ 4 ∣ front.length ∧ Encoded rest ∧ plaintext front ≠ [] ∧
      front.length = (plaintext front).length / 3 * 4 +
        (if (plaintext front).length % 3 > 0 then 4 else 0) ∧
      decodeChars ((s ++ 0 :: beyond).takeWhile fun c => pr2six c ≤ 63) = plaintext front := by
  fun_induction Encoded s with
  | case1 a b c d rest ih =>
    obtain ⟨⟨ha, hb, hend⟩, hs⟩ := hs
    have hpad : ¬ pr2six 61 ≤ 63 := by decide
    have hnul : ¬ pr2six 0 ≤ 63 := by decide
    rcases hend with ⟨rfl, rfl⟩ | ⟨hc, rfl | hd⟩
    · exact ⟨[a, b, 61, 61], rest, rfl, ⟨1, rfl⟩, hs, by simp [plaintext], by simp [plaintext],
        by simp [ha, hb, hpad, decodeChars, plaintext]⟩
    · have hc' := ne_pad_of_char hc
      exact ⟨[a, b, c, 61], rest, rfl, ⟨1, rfl⟩, hs, by simp [plaintext, hc'],
        by simp [plaintext, hc'], by simp [ha, hb, hc, hpad, hc', decodeChars, plaintext]⟩
    · have hc' := ne_pad_of_char hc
      have hd' := ne_pad_of_char hd
      match rest with
      | [] =>
        exact ⟨[a, b, c, d], [], rfl, ⟨1, rfl⟩, trivial, by simp [plaintext, hc', hd'],
          by simp [plaintext, hc', hd'],
          by simp [ha, hb, hc, hd, hnul, hc', hd', decodeChars, plaintext]⟩
      | e :: rest =>
        have hlen' : 4 ∣ (e :: rest).length := by
          simp only [List.length_cons] at hlen ⊢
          omega
        obtain ⟨front, rest', heq, hfront, hrest, hpos, hcount, hdecode⟩ := ih hs hlen' (by simp)
        have hplain : plaintext (a :: b :: c :: d :: front) =
            firstByte a b :: secondByte b c :: thirdByte c d :: plaintext front := by
          simp [plaintext, hc', hd']
        refine ⟨a :: b :: c :: d :: front, rest', by rw [heq]; rfl, ?_, hrest, ?_, ?_, ?_⟩
        · simp only [List.length_cons]
          omega
        · simp [hplain]
        · simp only [hplain, List.length_cons, hcount]
          split_ifs <;> omega
        · rw [hplain, ← hdecode, ← decodeChars_group]
          simp [ha, hb, hc, hd]
  | case2 s hshort => exact absurd (eq_nil_of_dvd hlen hshort) hne

/-- A call decodes some groups: up to the first padding, or all of them. -/
theorem base64decode_spec (hs : Encoded s) (hlen : 4 ∣ s.length) (hne : s ≠ []) (beyond : Bytes) :
    ∃ front rest, s = front ++ rest ∧ 4 ∣ front.length ∧ Encoded rest ∧ plaintext front ≠ [] ∧
      front.length = (plaintext front).length / 3 * 4 +
        (if (plaintext front).length % 3 > 0 then 4 else 0) ∧
      base64decode (s ++ 0 :: beyond) =
        some ((plaintext front).length, plaintext front ++ [0]) := by
  obtain ⟨front, rest, rfl, hfront, hrest, hpos, hcount, hdecode⟩ :=
    decodeChars_takeWhile hs hlen hne beyond
  refine ⟨front, rest, rfl, hfront, hrest, hpos, hcount, ?_⟩
  have hstop : ((front ++ rest ++ 0 :: beyond).takeWhile fun c => pr2six c ≤ 63).length ≠
      (front ++ rest ++ 0 :: beyond).length := by
    intro hall
    have hsame := (List.takeWhile_prefix fun c => pr2six c ≤ 63).eq_of_length hall
    have hnul := List.mem_takeWhile_imp (hsame.symm ▸ List.mem_append_right _ List.mem_cons_self)
    simp [pr2six_nul] at hnul
  rw [base64decode]
  simp only [if_neg hstop, ← length_decodeChars, hdecode]

end CxxFramework.Core
