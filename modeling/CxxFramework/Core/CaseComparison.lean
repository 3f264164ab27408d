import CxxFramework.Core.StringParser

/-!
# Comparing without regard to case

`EqualIgnoreCase` and `NumEqualIgnoreCase` look each byte up in `sCaseInsensitiveMask`. The
table maps the letters `A` to `Z` to `a` to `z` and ends behind the entry 129; a byte from 130
on is looked up behind it.
-/

namespace CxxFramework.Core

/-- The loop of `NumEqualIgnoreCase`. `none` stands for an access outside a string or the
table. -/
def numEqualIgnoreCaseLoop : Nat → Bytes → Bytes → Option Bool
  | 0, _, _ => some true
  | n + 1, a :: s, b :: t =>
    (sCaseInsensitiveMask a).bind fun x =>
      (sCaseInsensitiveMask b).bind fun y =>
        if x ≠ y then some false else numEqualIgnoreCaseLoop n s t
  | _ + 1, _, _ => none

/-- `StrPtrLen::NumEqualIgnoreCase` -/
def numEqualIgnoreCase (s compare : Bytes) (len : Nat) : Option Bool :=
  if len ≤ s.length then numEqualIgnoreCaseLoop len s compare else some false

/-! ## Equality apart from case -/

/-- `A` to `Z` are mapped to `a` to `z`. -/
def lowerCase (c : UInt8) : UInt8 := if 65 ≤ c ∧ c ≤ 90 then c + 32 else c

/-- A letter, of either case. -/
def IsLetter (c : UInt8) : Prop := 65 ≤ c ∧ c ≤ 90 ∨ 97 ≤ c ∧ c ≤ 122

/-- The strings are equal after the mapping. -/
def SameFold (s t : Bytes) : Prop := s.map lowerCase = t.map lowerCase

instance (s t : Bytes) : Decidable (SameFold s t) := inferInstanceAs (Decidable (_ = _))

theorem sameFold_equivalence : Equivalence SameFold :=
  ⟨fun _ => rfl, Eq.symm, Eq.trans⟩

theorem lowerCase_eq_iff {a b : UInt8} (ha : ¬ IsLetter a) : lowerCase a = lowerCase b ↔ a = b := by
  unfold lowerCase IsLetter at *
  grind

/-- Strings of which one has no letters are the same apart from case only if they are equal. -/
theorem sameFold_iff_eq {s t : Bytes} (h : ∀ c ∈ s, ¬ IsLetter c) : SameFold s t ↔ s = t := by
  induction s generalizing t with
  | nil => simp [SameFold, eq_comm]
  | cons a s ih =>
    cases t with
    | nil => simp [SameFold]
    | cons b t =>
      have hrest := ih (t := t) fun c hc => h c (List.mem_cons_of_mem a hc)
      have ha := lowerCase_eq_iff (b := b) (h a (List.mem_cons_self ..))
      rw [SameFold] at hrest ⊢
      rw [List.map_cons, List.map_cons, List.cons.injEq, List.cons.injEq, ha, hrest]

theorem sCaseInsensitiveMask_lowerCase (c : UInt8) :
    sCaseInsensitiveMask c = if c < 130 then some (lowerCase c) else none := rfl

/-! ## The bytes that are looked up -/

/-- Of the first `n` positions, those up to the first difference have bytes with an entry in
the table in both strings. -/
def InTable (n : Nat) (s t : Bytes) : Prop :=
  ∀ i < n, SameFold (s.take i) (t.take i) →
    (∃ a ∈ s[i]?, a < 130) ∧ ∃ b ∈ t[i]?, b < 130

theorem inTable_zero (s t : Bytes) : InTable 0 s t := nofun

/-- The first position is looked up, and those behind it if the bytes there are the same. -/
theorem inTable_cons {n : Nat} {a b : UInt8} {s t : Bytes} :
    InTable (n + 1) (a :: s) (b :: t) ↔
      a < 130 ∧ b < 130 ∧ (lowerCase a = lowerCase b → InTable n s t) := by
  constructor
  · intro h
    obtain ⟨ha, hb⟩ := h 0 (Nat.succ_pos n) rfl
    refine ⟨by simpa using ha, by simpa using hb, fun hab i hi hsame => ?_⟩
    have hnext := h (i + 1) (Nat.succ_lt_succ hi)
    rw [List.take_succ_cons, List.take_succ_cons] at hnext
    exact hnext (congrArg₂ List.cons hab hsame)
  · rintro ⟨ha, hb, hrest⟩ i hi hsame
    cases i with
    | zero => simp [ha, hb]
    | succ i =>
      rw [List.take_succ_cons, List.take_succ_cons, SameFold, List.map_cons, List.map_cons,
        List.cons.injEq] at hsame
      exact hrest hsame.1 i (Nat.lt_of_succ_lt_succ hi) hsame.2

theorem not_inTable_nil {n : Nat} {s t : Bytes} (h : s = [] ∨ t = []) : ¬ InTable (n + 1) s t := by
  intro hin
  obtain ⟨⟨a, ha, -⟩, b, hb, -⟩ := hin 0 (Nat.succ_pos n) rfl
  rcases h with rfl | rfl
  · cases ha
  · cases hb

/-- The loop stays in the table exactly if the bytes it looks up have entries there, and then
it decides whether the strings are the same. -/
theorem numEqualIgnoreCaseLoop_iff (n : Nat) (s t : Bytes) :
    numEqualIgnoreCaseLoop n s t = some (decide (SameFold (s.take n) (t.take n))) ↔
      InTable n s t := by
  fun_induction numEqualIgnoreCaseLoop n s t with
  | case1 s t => simpa [SameFold] using inTable_zero s t
  | case2 n a s b t ih =>
    rw [inTable_cons, sCaseInsensitiveMask_lowerCase, sCaseInsensitiveMask_lowerCase]
    by_cases ha : a < 130
    · by_cases hb : b < 130
      · by_cases hab : lowerCase a = lowerCase b
        · simpa [ha, hb, hab, SameFold] using ih
        · simp [ha, hb, hab, SameFold]
      · simp [ha, hb]
    · simp [ha]
  | case3 n s t hne =>
    have hnil : s = [] ∨ t = [] := by
      cases s with
      | nil => exact .inl rfl
      | cons a s =>
        cases t with
        | nil => exact .inr rfl
        | cons b t => exact (hne a s b t rfl rfl).elim
    simpa using not_inTable_nil hnil

/-- Strings of one length are compared over that length. -/
theorem equalIgnoreCaseLoop_eq_num {s t : Bytes} (h : t.length = s.length) :
    equalIgnoreCaseLoop s t = numEqualIgnoreCaseLoop s.length s t := by
  induction s generalizing t with
  | nil => rw [List.length_eq_zero_iff.mp h]; rfl
  | cons a s ih =>
    obtain ⟨b, t, rfl⟩ := List.exists_cons_of_length_eq_add_one h
    simp only [equalIgnoreCaseLoop, numEqualIgnoreCaseLoop, List.length_cons,
      ih (Nat.succ.inj h)]

/-! ## The comparisons -/

/-- `EqualIgnoreCase` decides equality apart from case. -/
def Decides (s compare : Bytes) : Prop :=
  equalIgnoreCase s compare = some (decide (SameFold s compare))

/-- `NumEqualIgnoreCase` decides equality of the first bytes apart from case. -/
def NumDecides (s compare : Bytes) (len : Nat) : Prop :=
  numEqualIgnoreCase s compare len =
    some (decide (len ≤ s.length ∧ SameFold (s.take len) (compare.take len)))

theorem decides_iff (s compare : Bytes) :
    Decides s compare ↔ (compare.length = s.length → InTable s.length s compare) := by
  unfold Decides equalIgnoreCase
  by_cases hlength : compare.length = s.length
  · have hloop := numEqualIgnoreCaseLoop_iff s.length s compare
    rw [List.take_length, List.take_of_length_le hlength.le] at hloop
    rw [if_pos hlength, equalIgnoreCaseLoop_eq_num hlength, hloop]
    exact ⟨fun h _ => h, fun h => h hlength⟩
  · have hdiffer : ¬ SameFold s compare := fun hsame =>
      hlength (by simpa using (congrArg List.length hsame).symm)
    simp [hlength, hdiffer]

theorem numDecides_iff (s compare : Bytes) (len : Nat) :
    NumDecides s compare len ↔ (len ≤ s.length → InTable len s compare) := by
  unfold NumDecides numEqualIgnoreCase
  by_cases hlen : len ≤ s.length
  · simpa [hlen] using numEqualIgnoreCaseLoop_iff len s compare
  · simp [hlen]

theorem inTable_of_forall {s t : Bytes} (hlength : t.length = s.length) (hs : ∀ c ∈ s, c < 130)
    (ht : ∀ c ∈ t, c < 130) : InTable s.length s t := by
  intro i hi _
  have hi' : i < t.length := hlength.symm ▸ hi
  rw [List.getElem?_eq_getElem hi, List.getElem?_eq_getElem hi']
  exact ⟨⟨_, rfl, hs _ (List.getElem_mem hi)⟩, _, rfl, ht _ (List.getElem_mem hi')⟩

/-- On strings whose bytes have entries in the table, `EqualIgnoreCase` is an equivalence
relation. -/
theorem equalIgnoreCase_equivalence :
    Equivalence fun s t : { s : Bytes // ∀ c ∈ s, c < 130 } =>
      equalIgnoreCase s.val t.val = some true := by
  have hiff : ∀ s t : { s : Bytes // ∀ c ∈ s, c < 130 },
      equalIgnoreCase s.val t.val = some true ↔ SameFold s.val t.val := by
    intro s t
    have hdecides : Decides s.val t.val := (decides_iff s.val t.val).mpr fun hlength =>
      inTable_of_forall hlength s.property t.property
    rw [hdecides, Option.some.injEq, decide_eq_true_iff]
  simp only [hiff]
  exact sameFold_equivalence.comap Subtype.val

/-- A result of `EqualIgnoreCase` is right, also where not every byte has an entry in the table. -/
theorem equalIgnoreCase_eq {s compare : Bytes} {same : Bool}
    (h : equalIgnoreCase s compare = some same) : same = decide (SameFold s compare) := by
  unfold equalIgnoreCase at h
  split_ifs at h with hlength
  · induction s generalizing compare with
    | nil =>
      obtain rfl := List.length_eq_zero_iff.mp hlength
      simpa [equalIgnoreCaseLoop, SameFold, eq_comm] using h
    | cons a s ih =>
      obtain ⟨b, t, rfl⟩ := List.exists_cons_of_length_eq_add_one hlength
      simp only [equalIgnoreCaseLoop, sCaseInsensitiveMask_lowerCase] at h
      split_ifs at h with ha hb
      · simp only [Option.bind_some] at h
        split_ifs at h with hne
        · have hdiffer : ¬ SameFold (a :: s) (b :: t) := fun heq => hne (List.cons.inj heq).1
          rw [decide_eq_false hdiffer]
          exact (Option.some.inj h).symm
        · have hiff : SameFold (a :: s) (b :: t) ↔ SameFold s t := by
            simp [SameFold, not_not.mp hne]
          rw [decide_eq_decide.mpr hiff]
          exact ih (Nat.succ.inj hlength) h
      all_goals simp at h
  · have hdiffer : ¬ SameFold s compare := fun heq => hlength (by
      simpa using (congrArg List.length heq).symm)
    rw [decide_eq_false hdiffer]
    exact (Option.some.inj h).symm

/-- Both comparisons decide equality apart from case exactly where every byte that they look
up has an entry in the table. On strings whose bytes all have one `EqualIgnoreCase` is an
equivalence relation, and equality apart from case is equality if one string has no letters. -/
theorem comparisons_iff (s compare : Bytes) (len : Nat) :
    (Decides s compare ↔ (compare.length = s.length → InTable s.length s compare)) ∧
      (NumDecides s compare len ↔ (len ≤ s.length → InTable len s compare)) ∧
      (Equivalence fun s t : { s : Bytes // ∀ c ∈ s, c < 130 } =>
        equalIgnoreCase s.val t.val = some true) ∧
      ((∀ c ∈ s, ¬ IsLetter c) → (SameFold s compare ↔ s = compare)) :=
  ⟨decides_iff s compare, numDecides_iff s compare len, equalIgnoreCase_equivalence,
    sameFold_iff_eq⟩

/-- A byte from 130 on is looked up behind the table: an `é` in UTF-8 is not even found to be
the same as itself. -/
theorem utf8_not_decides : ¬ Decides [0xc3, 0xa9] [0xc3, 0xa9] := by
  unfold Decides
  decide

end CxxFramework.Core
