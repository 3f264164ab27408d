import CxxFramework.Core.CString
import Mathlib.Algebra.Order.Group.Nat
import Mathlib.Data.List.Basic

/-!
# String formatters

`StringFormatter` collects bytes in a buffer; when the buffer is full it asks the virtual
function `BufferIsFull` for more room. `ResizeableStringFormatter` answers by moving the
content to a buffer of twice the size.

A formatter is modelled by the bytes it holds and the size of its buffer. `none` stands
for an access outside a buffer.
-/

namespace CxxFramework.Core

/-- The size of the number range of `UInt32`. -/
def uint32Size : Nat := 2 ^ 32

structure StringFormatter where
  /-- The bytes from `fStartPut` to `fCurrentPut`. -/
  content : Bytes := []
  /-- The distance from `fStartPut` to `fEndPut`. -/
  size : Nat
  fBytesWritten : Nat := 0
deriving DecidableEq, Repr

namespace StringFormatter

def getCurrentOffset (f : StringFormatter) : Nat := f.content.length
def getTotalBufferSize (f : StringFormatter) : Nat := f.size
def getSpaceLeft (f : StringFormatter) : Nat := f.size - f.content.length

/-- `Reset()`: the content is dropped, the buffer and `fBytesWritten` stay. -/
def reset (f : StringFormatter) : StringFormatter := { f with content := [] }

/-- Copying bytes to `fCurrentPut` and moving it behind them. -/
def append (f : StringFormatter) (bytes : Bytes) : StringFormatter :=
  { f with
    content := f.content ++ bytes
    fBytesWritten := (f.fBytesWritten + bytes.length) % uint32Size }

/-- The loop of `Put`: copy what fits and ask for more room until the rest fits. -/
def putLoop (bufferIsFull : StringFormatter → Option StringFormatter) :
    Nat → StringFormatter → Bytes → Nat → Option StringFormatter
  | 0, _, _, _ => none
  | fuel + 1, f, buffer, spaceLeft =>
    let spaceInBuffer := (spaceLeft + uint32Size - 1) % uint32Size
    if spaceInBuffer < buffer.length ∨ spaceLeft = 0 then
      let fits := if spaceLeft > 0 then spaceInBuffer else 0
      match bufferIsFull (f.append (buffer.take fits)) with
      | none => none
      | some f =>
        if spaceLeft = f.getSpaceLeft then some f
        else putLoop bufferIsFull fuel f (buffer.drop fits) f.getSpaceLeft
    else some (f.append buffer)

/-- The passes of the loop of `Put` that a buffer of at most `2 ^ 32` bytes allows. -/
def putFuel : Nat := 40

/-- `StringFormatter::Put(buffer, bufferSize)` -/
def put (bufferIsFull : StringFormatter → Option StringFormatter) (f : StringFormatter)
    (buffer : Bytes) : Option StringFormatter :=
  if buffer.length = 1 ∧ f.getSpaceLeft ≠ 0 then some (f.append buffer)
  else putLoop bufferIsFull putFuel f buffer f.getSpaceLeft

end StringFormatter

namespace ResizeableStringFormatter

open StringFormatter

/-- `ResizeableStringFormatter::BufferIsFull`. The content does not fit the new buffer
where doubling the size overflows. -/
def bufferIsFull (f : StringFormatter) : Option StringFormatter :=
  let doubled := f.getTotalBufferSize * 2 % uint32Size
  let theNewBufferSize := if doubled = 0 then 64 else doubled
  if theNewBufferSize < f.getCurrentOffset then none else some { f with size := theNewBufferSize }

def put (f : StringFormatter) (buffer : Bytes) : Option StringFormatter :=
  StringFormatter.put bufferIsFull f buffer

/-- The loop of `PutFmtStr`, which formats the text anew after each growth. -/
def putFmtStrLoop : Nat → StringFormatter → Bytes → Option StringFormatter
  | 0, _, _ => none
  | fuel + 1, f, text =>
    if text.length ≥ f.getSpaceLeft then
      match bufferIsFull f with
      | none => none
      | some f => putFmtStrLoop fuel f text
    else some (f.append text)

/-- `PutFmtStr`; `text` is what `vsnprintf` makes of the format and its arguments. -/
def putFmtStr (f : StringFormatter) (text : Bytes) : Option StringFormatter :=
  putFmtStrLoop putFuel f text

def putEOL (f : StringFormatter) : Option StringFormatter := put f [13, 10]

/-! ## What is put -/

/-- The content is inside the buffer, whose size is a positive `UInt32`. -/
structure Valid (f : StringFormatter) : Prop where
  fits : f.content.length ≤ f.size
  pos : 0 < f.size
  lt : f.size < uint32Size

theorem Valid.append {f : StringFormatter} (h : Valid f) {bytes : Bytes}
    (hb : bytes.length ≤ f.getSpaceLeft) : Valid (f.append bytes) where
  fits := by
    have := h.fits
    simp only [getSpaceLeft] at hb
    simp only [StringFormatter.append, List.length_append]
    omega
  pos := h.pos
  lt := h.lt

theorem Valid.reset {f : StringFormatter} (h : Valid f) : Valid f.reset :=
  ⟨Nat.zero_le _, h.pos, h.lt⟩

/-- A growth keeps the content; the new buffer is twice as large where that does not
overflow. -/
theorem bufferIsFull_cases {f g : StringFormatter} (h : bufferIsFull f = some g) :
    g.content = f.content ∧ g.fBytesWritten = f.fBytesWritten ∧ Valid g ∧
      ((f.size * 2 % uint32Size = 0 ∧ g.size = 64) ∨ g.size = f.size * 2 % uint32Size) := by
  have hlt : f.size * 2 % uint32Size < uint32Size := Nat.mod_lt _ (by decide)
  unfold bufferIsFull getTotalBufferSize getCurrentOffset at h
  by_cases hzero : f.size * 2 % uint32Size = 0
  · simp only [hzero, if_true, Option.ite_none_left_eq_some, Option.some.injEq] at h
    obtain ⟨hfits, rfl⟩ := h
    exact ⟨rfl, rfl, ⟨not_lt.mp hfits, by simp, by simp [uint32Size]⟩, .inl ⟨hzero, rfl⟩⟩
  · simp only [hzero, if_false, Option.ite_none_left_eq_some, Option.some.injEq] at h
    obtain ⟨hfits, rfl⟩ := h
    exact ⟨rfl, rfl, ⟨not_lt.mp hfits, Nat.pos_of_ne_zero hzero, hlt⟩, .inr rfl⟩

/-- The bytes that `Put` copies before it asks for more room: all the room but one byte. -/
theorem spaceInBuffer_eq {spaceLeft : Nat} (hpos : 0 < spaceLeft) (hlt : spaceLeft < uint32Size) :
    (spaceLeft + uint32Size - 1) % uint32Size = spaceLeft - 1 := by
  unfold uint32Size at *
  omega

/-- The room a full buffer gets is never the room it had before. -/
theorem growth_changes_space {f g : StringFormatter} (hf : Valid f) {spaceLeft : Nat}
    (hs : f.content.length + min 1 spaceLeft = f.size) (hle : spaceLeft ≤ f.size)
    (h : bufferIsFull f = some g) : spaceLeft ≠ g.getSpaceLeft := by
  obtain ⟨hc, _, hg, hsize⟩ := bufferIsFull_cases h
  have hfits := hg.fits
  have hpos := hf.pos
  have hlt := hf.lt
  unfold getSpaceLeft
  unfold uint32Size at hsize hlt
  rw [hc] at hfits ⊢
  omega

theorem copied_valid {f : StringFormatter} (hf : Valid f) (buffer : Bytes) :
    Valid (f.append (buffer.take (f.getSpaceLeft - 1))) :=
  hf.append (by rw [List.length_take]; omega)

/-- One pass of the loop of `Put`: either the rest fits, or all but one byte of the room
is filled and the buffer grows. -/
theorem putLoop_step {f : StringFormatter} (hf : Valid f) (fuel : Nat) (buffer : Bytes) :
    putLoop bufferIsFull (fuel + 1) f buffer f.getSpaceLeft =
      if f.getSpaceLeft ≤ buffer.length then
        (bufferIsFull (f.append (buffer.take (f.getSpaceLeft - 1)))).bind fun g =>
          putLoop bufferIsFull fuel g (buffer.drop (f.getSpaceLeft - 1)) g.getSpaceLeft
      else some (f.append buffer) := by
  have hfits := hf.fits
  have hlt : f.getSpaceLeft < uint32Size := (Nat.sub_le _ _).trans_lt hf.lt
  have hcopy : (if f.getSpaceLeft > 0 then (f.getSpaceLeft + uint32Size - 1) % uint32Size else 0) =
      f.getSpaceLeft - 1 := by
    split_ifs with hpos
    · exact spaceInBuffer_eq hpos hlt
    · omega
  have hcond : ((f.getSpaceLeft + uint32Size - 1) % uint32Size < buffer.length ∨
      f.getSpaceLeft = 0) ↔ f.getSpaceLeft ≤ buffer.length := by
    rcases Nat.eq_zero_or_pos f.getSpaceLeft with hzero | hpos
    · simp [hzero]
    · rw [spaceInBuffer_eq hpos hlt]; omega
  simp only [putLoop, hcopy, hcond]
  split_ifs with hfull
  · cases hgrow : bufferIsFull (f.append (buffer.take (f.getSpaceLeft - 1))) with
    | none => rfl
    | some g =>
      refine if_neg (growth_changes_space (copied_valid hf buffer) ?_ (Nat.sub_le _ _) hgrow)
      simp only [StringFormatter.append, List.length_append, List.length_take]
      unfold getSpaceLeft at *
      omega
  · rfl

/-- The loop of `Put` copies the whole buffer, if it copies without a fault. -/
theorem putLoop_eq_some {fuel : Nat} {f g : StringFormatter} {buffer : Bytes} (hf : Valid f)
    (h : putLoop bufferIsFull fuel f buffer f.getSpaceLeft = some g) :
    g.content = f.content ++ buffer ∧ Valid g := by
  induction fuel generalizing f buffer with
  | zero => simp [putLoop] at h
  | succ fuel ih =>
    rw [putLoop_step hf] at h
    split_ifs at h with hfull
    · obtain ⟨f', hgrow, hrest⟩ := Option.bind_eq_some_iff.mp h
      obtain ⟨hc, _, hvalid, _⟩ := bufferIsFull_cases hgrow
      obtain ⟨hcontent, hg⟩ := ih hvalid hrest
      refine ⟨?_, hg⟩
      rw [hcontent, hc, StringFormatter.append, List.append_assoc, List.take_append_drop]
    · obtain rfl := Option.some.inj h
      exact ⟨rfl, hf.append (by omega)⟩

/-- The loop of `Put` counts the bytes it copies, in a `UInt32`. -/
theorem putLoop_written {fuel : Nat} {f g : StringFormatter} {buffer : Bytes} (hf : Valid f)
    (h : putLoop bufferIsFull fuel f buffer f.getSpaceLeft = some g) :
    g.fBytesWritten = (f.fBytesWritten + buffer.length) % uint32Size := by
  induction fuel generalizing f buffer with
  | zero => simp [putLoop] at h
  | succ fuel ih =>
    rw [putLoop_step hf] at h
    split_ifs at h with hfull
    · obtain ⟨f', hgrow, hrest⟩ := Option.bind_eq_some_iff.mp h
      obtain ⟨-, hwritten, hvalid, -⟩ := bufferIsFull_cases hgrow
      have hsplit : buffer.length = (buffer.take (f.getSpaceLeft - 1)).length +
          (buffer.drop (f.getSpaceLeft - 1)).length := by
        rw [← List.length_append, List.take_append_drop]
      rw [ih hvalid hrest, hwritten, StringFormatter.append, Nat.mod_add_mod, hsplit, Nat.add_assoc]
    · obtain rfl := Option.some.inj h
      rfl

theorem put_written {f g : StringFormatter} {buffer : Bytes} (hf : Valid f)
    (h : put f buffer = some g) :
    g.fBytesWritten = (f.fBytesWritten + buffer.length) % uint32Size := by
  unfold put StringFormatter.put at h
  split_ifs at h with hone
  · obtain rfl := Option.some.inj h
    rfl
  · exact putLoop_written hf h

/-- `Put` appends its bytes to the content. -/
theorem put_eq_some {f g : StringFormatter} {buffer : Bytes} (hf : Valid f)
    (h : put f buffer = some g) : g.content = f.content ++ buffer ∧ Valid g := by
  unfold put StringFormatter.put at h
  split_ifs at h with hone
  · obtain rfl := Option.some.inj h
    exact ⟨rfl, hf.append (by omega)⟩
  · exact putLoop_eq_some hf h

/-- The growth of a buffer of less than `2 ^ 31` bytes doubles it. -/
theorem bufferIsFull_of_lt {f : StringFormatter} (hf : Valid f) (hlt : f.size < 2 ^ 31) :
    bufferIsFull f = some { f with size := f.size * 2 } := by
  have hpos := hf.pos
  have hfits := hf.fits
  have hmod : f.size * 2 % uint32Size = f.size * 2 := Nat.mod_eq_of_lt (by unfold uint32Size; omega)
  have hne : f.size * 2 ≠ 0 := by omega
  have hnot : ¬ f.size * 2 < f.content.length := by omega
  simp only [bufferIsFull, getTotalBufferSize, getCurrentOffset, hmod, if_neg hne, if_neg hnot]

/-- The loop of `Put` ends without a fault while the content stays below `2 ^ 31` bytes. -/
theorem putLoop_isSome {fuel : Nat} {f : StringFormatter} {buffer : Bytes} (hf : Valid f)
    (htotal : f.content.length + buffer.length < 2 ^ 31) (hfuel : 2 ^ 31 ≤ f.size * 2 ^ fuel) :
    (putLoop bufferIsFull (fuel + 1) f buffer f.getSpaceLeft).isSome := by
  have hfits := hf.fits
  induction fuel generalizing f buffer with
  | zero =>
    have hroom : ¬ f.getSpaceLeft ≤ buffer.length := by unfold getSpaceLeft; omega
    simp [putLoop_step hf, hroom]
  | succ fuel ih =>
    rw [putLoop_step hf]
    split_ifs with hfull
    · have hcopied := copied_valid hf buffer
      have hsize : f.size < 2 ^ 31 := by unfold getSpaceLeft at hfull; omega
      rw [bufferIsFull_of_lt hcopied hsize, Option.bind_some]
      have hle := hcopied.fits
      simp only [StringFormatter.append] at hle
      refine ih ⟨?_, ?_, ?_⟩ ?_ ?_ ?_
      · simp only [StringFormatter.append]; omega
      · have := hf.pos
        simp only [StringFormatter.append]; omega
      · simp only [StringFormatter.append, uint32Size]; omega
      · simp only [StringFormatter.append, List.length_append, List.length_take, List.length_drop]
        omega
      · simp only [StringFormatter.append]; rw [Nat.mul_assoc, ← Nat.pow_succ']; exact hfuel
      · simp only [StringFormatter.append]; omega
    · rfl

/-- `Put` does not fault while the content stays below `2 ^ 31` bytes. -/
theorem put_isSome {f : StringFormatter} {buffer : Bytes} (hf : Valid f)
    (htotal : f.content.length + buffer.length < 2 ^ 31) : (put f buffer).isSome := by
  have hpos := hf.pos
  unfold put StringFormatter.put
  split_ifs
  · rfl
  · exact putLoop_isSome hf htotal (by omega)

/-- `Put` of bytes that leave room for one more copies them at once. -/
theorem put_of_room {f : StringFormatter} {buffer : Bytes} (hf : Valid f)
    (hroom : buffer.length < f.getSpaceLeft) : put f buffer = some (f.append buffer) := by
  unfold put StringFormatter.put
  split_ifs
  · rfl
  · rw [show putFuel = 39 + 1 from rfl, putLoop_step hf, if_neg (not_le.mpr hroom)]

/-- A full buffer of a size or more has twice that size at least once it is grown. -/
theorem bufferIsFull_size {f g : StringFormatter} {size : Nat} (hsize : size ≤ f.size)
    (hsmall : size < 2 ^ 30) (hfull : f.size ≤ f.content.length + 1)
    (h : bufferIsFull f = some g) : 2 * size ≤ g.size := by
  obtain ⟨hc, -, hvalid, hg⟩ := bufferIsFull_cases h
  have hfits := hvalid.fits
  rw [hc] at hfits
  unfold uint32Size at hg
  omega

/-- The loop of `Put` leaves room for one more byte in its buffer, or moves to one of at
least twice the size. -/
theorem putLoop_size {fuel size : Nat} {f g : StringFormatter} {buffer : Bytes} (hf : Valid f)
    (hsize : size ≤ f.size) (hsmall : size < 2 ^ 30)
    (h : putLoop bufferIsFull fuel f buffer f.getSpaceLeft = some g) :
    g.size = f.size ∧ f.content.length + buffer.length < f.size ∨ 2 * size ≤ g.size := by
  induction fuel generalizing f buffer with
  | zero => simp [putLoop] at h
  | succ fuel ih =>
    have hfits := hf.fits
    rw [putLoop_step hf] at h
    split_ifs at h with hfull
    · obtain ⟨f', hgrow, hrest⟩ := Option.bind_eq_some_iff.mp h
      obtain ⟨-, -, hvalid, -⟩ := bufferIsFull_cases hgrow
      have hlarge : 2 * size ≤ f'.size := by
        refine bufferIsFull_size (f := f.append (buffer.take (f.getSpaceLeft - 1))) hsize hsmall ?_
          hgrow
        simp only [StringFormatter.append, List.length_append, List.length_take]
        unfold getSpaceLeft at *
        omega
      rcases ih hvalid (by omega) hrest with ⟨heq, -⟩ | hle
      · exact .inr (heq ▸ hlarge)
      · exact .inr hle
    · obtain rfl := Option.some.inj h
      refine .inl ⟨rfl, ?_⟩
      unfold getSpaceLeft at hfull
      omega

/-- What is put fits the buffer it is put to, or is in one of at least twice the size. More
than one byte leaves room for one more. -/
theorem put_size {f g : StringFormatter} {buffer : Bytes} {size : Nat} (hf : Valid f)
    (hsize : size ≤ f.size) (hsmall : size < 2 ^ 30) (h : put f buffer = some g) :
    g.size = f.size ∧ (buffer.length ≠ 1 → f.content.length + buffer.length < f.size) ∨
      2 * size ≤ g.size := by
  unfold put StringFormatter.put at h
  split_ifs at h with hone
  · obtain rfl := Option.some.inj h
    exact .inl ⟨rfl, fun hne => absurd hone.1 hne⟩
  · rcases putLoop_size hf hsize hsmall h with ⟨heq, hlt⟩ | hle
    · exact .inl ⟨heq, fun _ => hlt⟩
    · exact .inr hle

/-- The loop of `PutFmtStr` appends the text, if it ends without a fault. -/
theorem putFmtStrLoop_eq_some {fuel : Nat} {f g : StringFormatter} {text : Bytes} (hf : Valid f)
    (h : putFmtStrLoop fuel f text = some g) : g.content = f.content ++ text ∧ Valid g := by
  induction fuel generalizing f with
  | zero => simp [putFmtStrLoop] at h
  | succ fuel ih =>
    rw [putFmtStrLoop] at h
    split_ifs at h with hfull
    · cases hgrow : bufferIsFull f with
      | none => simp [hgrow] at h
      | some f' =>
        simp only [hgrow] at h
        obtain ⟨hc, _, hvalid, _⟩ := bufferIsFull_cases hgrow
        rw [← hc]
        exact ih hvalid h
    · obtain rfl := Option.some.inj h
      exact ⟨rfl, hf.append (by omega)⟩

theorem putFmtStr_eq_some {f g : StringFormatter} {text : Bytes} (hf : Valid f)
    (h : putFmtStr f text = some g) : g.content = f.content ++ text ∧ Valid g :=
  putFmtStrLoop_eq_some hf h

/-- The loop of `PutFmtStr` ends without a fault while the content stays below `2 ^ 31`
bytes. -/
theorem putFmtStrLoop_isSome {fuel : Nat} {f : StringFormatter} {text : Bytes} (hf : Valid f)
    (htotal : f.content.length + text.length < 2 ^ 31) (hfuel : 2 ^ 31 ≤ f.size * 2 ^ fuel) :
    (putFmtStrLoop (fuel + 1) f text).isSome := by
  have hfits := hf.fits
  have hpos := hf.pos
  induction fuel generalizing f with
  | zero =>
    have hroom : ¬ text.length ≥ f.getSpaceLeft := by unfold getSpaceLeft; omega
    simp [putFmtStrLoop, hroom]
  | succ fuel ih =>
    rw [putFmtStrLoop]
    split_ifs with hfull
    · have hsize : f.size < 2 ^ 31 := by unfold getSpaceLeft at hfull; omega
      rw [bufferIsFull_of_lt hf hsize]
      refine ih ⟨?_, ?_, ?_⟩ htotal ?_ ?_ ?_
      · simp only; omega
      · simp only; omega
      · simp only [uint32Size]; omega
      · simp only; rw [Nat.mul_assoc, ← Nat.pow_succ']; exact hfuel
      · simp only; omega
      · simp only; omega
    · rfl

/-! ## How much can be put

A buffer that starts with a power of two has at most `2 ^ 31` bytes: the growth after that
one overflows to a buffer of 64 bytes, which the content does not fit. -/

/-- The size of the buffer is a power of two. -/
def Doubled (f : StringFormatter) : Prop := ∃ k ≤ 31, f.size = 2 ^ k

theorem Doubled.size_le {f : StringFormatter} (h : Doubled f) : f.size ≤ 2 ^ 31 := by
  obtain ⟨k, hk, hsize⟩ := h
  rw [hsize]
  exact Nat.pow_le_pow_right (by decide) hk

theorem Doubled.grow {f g : StringFormatter} (h : Doubled f) (hgrow : bufferIsFull f = some g) :
    Doubled g := by
  obtain ⟨k, hk, hsize⟩ := h
  obtain ⟨-, -, -, ⟨-, h64⟩ | hdouble⟩ := bufferIsFull_cases hgrow
  · exact ⟨6, by decide, h64⟩
  · rw [hsize, ← Nat.pow_succ] at hdouble
    rcases Nat.lt_or_eq_of_le hk with hlt | rfl
    · refine ⟨k + 1, hlt, hdouble.trans (Nat.mod_eq_of_lt ?_)⟩
      exact Nat.pow_lt_pow_right (by decide) (by omega)
    · obtain ⟨-, -, hvalid, -⟩ := bufferIsFull_cases hgrow
      have hpos := hvalid.pos
      simp [uint32Size] at hdouble
      omega

/-- The loop of `Put` leaves room for one more byte. -/
theorem putLoop_room {fuel : Nat} {f g : StringFormatter} {buffer : Bytes} (hf : Valid f)
    (hd : Doubled f) (h : putLoop bufferIsFull fuel f buffer f.getSpaceLeft = some g) :
    Doubled g ∧ g.content.length < g.size := by
  induction fuel generalizing f buffer with
  | zero => simp [putLoop] at h
  | succ fuel ih =>
    rw [putLoop_step hf] at h
    split_ifs at h with hfull
    · obtain ⟨f', hgrow, hrest⟩ := Option.bind_eq_some_iff.mp h
      obtain ⟨-, -, hvalid, -⟩ := bufferIsFull_cases hgrow
      exact ih hvalid (Doubled.grow (f := f.append _) hd hgrow) hrest
    · obtain rfl := Option.some.inj h
      refine ⟨hd, ?_⟩
      have hfits := hf.fits
      simp only [StringFormatter.append, List.length_append]
      unfold getSpaceLeft at hfull
      omega

theorem putFmtStrLoop_room {fuel : Nat} {f g : StringFormatter} {text : Bytes} (hd : Doubled f)
    (hf : Valid f) (h : putFmtStrLoop fuel f text = some g) :
    Doubled g ∧ g.content.length < g.size := by
  induction fuel generalizing f with
  | zero => simp [putFmtStrLoop] at h
  | succ fuel ih =>
    rw [putFmtStrLoop] at h
    split_ifs at h with hfull
    · cases hgrow : bufferIsFull f with
      | none => simp [hgrow] at h
      | some f' =>
        simp only [hgrow] at h
        obtain ⟨-, -, hvalid, -⟩ := bufferIsFull_cases hgrow
        exact ih (hd.grow hgrow) hvalid h
    · obtain rfl := Option.some.inj h
      refine ⟨hd, ?_⟩
      have hfits := hf.fits
      simp only [StringFormatter.append, List.length_append]
      unfold getSpaceLeft at hfull
      omega

/-- Bytes that can be put behind a content of a length: together they stay below `2 ^ 31`,
or a single byte fills the largest buffer. -/
def Fits (length n : Nat) : Prop := length + n < 2 ^ 31 ∨ n = 1 ∧ length + n = 2 ^ 31

instance (length n : Nat) : Decidable (Fits length n) := inferInstanceAs (Decidable (_ ∨ _))

theorem put_doubled {f g : StringFormatter} {buffer : Bytes} (hf : Valid f) (hd : Doubled f)
    (h : put f buffer = some g) : Doubled g := by
  unfold put StringFormatter.put at h
  split_ifs at h
  · obtain rfl := Option.some.inj h
    exact hd
  · exact (putLoop_room hf hd h).1

/-- `Put` does not fault exactly on the bytes that fit. -/
theorem put_isSome_iff {f : StringFormatter} {buffer : Bytes} (hf : Valid f) (hd : Doubled f) :
    (put f buffer).isSome ↔ Fits f.content.length buffer.length := by
  constructor
  · intro h
    obtain ⟨g, hg⟩ := Option.isSome_iff_exists.mp h
    have hlen : g.content.length = f.content.length + buffer.length := by
      rw [(put_eq_some hf hg).1, List.length_append]
    have hle := (put_doubled hf hd hg).size_le
    have hfits := (put_eq_some hf hg).2.fits
    unfold put StringFormatter.put at hg
    split_ifs at hg with hone
    · have := hone.1
      unfold Fits
      omega
    · have hroom := (putLoop_room hf hd hg).2
      exact .inl (by omega)
  · rintro (hlt | ⟨hone, hfull⟩)
    · exact put_isSome hf hlt
    · obtain ⟨k, hk, hsize⟩ := hd
      have hfits := hf.fits
      have hspace : f.getSpaceLeft ≠ 0 := by
        intro hzero
        unfold getSpaceLeft at hzero
        rcases Nat.lt_or_eq_of_le hk with hlt | rfl
        · have hpow : 2 ^ k ≤ 2 ^ 30 := Nat.pow_le_pow_right (by decide) (by omega)
          omega
        · omega
      simp [put, StringFormatter.put, hone, hspace]

theorem putFmtStr_isSome_iff {f : StringFormatter} {text : Bytes} (hf : Valid f)
    (hd : Doubled f) : (putFmtStr f text).isSome ↔ f.content.length + text.length < 2 ^ 31 := by
  constructor
  · intro h
    obtain ⟨g, hg⟩ := Option.isSome_iff_exists.mp h
    obtain ⟨hdoubled, hroom⟩ := putFmtStrLoop_room hd hf hg
    have hle := hdoubled.size_le
    rw [(putFmtStr_eq_some hf hg).1, List.length_append] at hroom
    omega
  · intro h
    have hpos := hf.pos
    exact putFmtStrLoop_isSome hf h (by omega)

end ResizeableStringFormatter

end CxxFramework.Core
