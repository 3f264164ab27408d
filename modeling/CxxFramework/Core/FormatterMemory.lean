import CxxFramework.Core.StringFormatter
import CxxFramework.Library.Buffer

/-!
# The memory of a formatter

A `StringFormatter` with its buffer and pointers: the bytes from `fStartPut` to `fEndPut`, and
the distance of `fCurrentPut` from `fStartPut`, which nothing keeps below that of `fEndPut`.
Where it does not leave its buffer, such a formatter does what the formatter with a content
and a size does.

`none` stands for an access outside a buffer.

## Main definitions

* `FormatterMemory.put`, `FormatterMemory.putFmtStr` — the functions that write.
* `FormatterMemory.Represents` — the content of a formatter, and the room of its buffer.
-/

namespace CxxFramework.Core

open Buffer

structure FormatterMemory where
  /-- The bytes from `fStartPut` to `fEndPut`. -/
  buffer : Bytes
  /-- The distance of `fCurrentPut` from `fStartPut`. -/
  fCurrentPut : Nat := 0
  fBytesWritten : Nat := 0
deriving DecidableEq, Repr

namespace FormatterMemory

/-- The conversion to `UInt32`. -/
def toUInt32 (n : Int) : Nat := (n % uint32Size).toNat

def getCurrentOffset (m : FormatterMemory) : Nat := toUInt32 m.fCurrentPut
def getSpaceLeft (m : FormatterMemory) : Nat := toUInt32 (m.buffer.length - m.fCurrentPut)
def getTotalBufferSize (m : FormatterMemory) : Nat := toUInt32 m.buffer.length

/-- The bytes from `GetBufPtr()` on, `GetCurrentOffset()` of them. -/
def content (m : FormatterMemory) : Bytes := m.buffer.take m.getCurrentOffset

/-- `fCurrentPut` and `fBytesWritten` are moved on. -/
def moveOn (m : FormatterMemory) (n : Nat) : FormatterMemory :=
  { m with
    fCurrentPut := m.fCurrentPut + n
    fBytesWritten := (m.fBytesWritten + n) % uint32Size }

/-- Bytes are copied to `fCurrentPut`, which moves behind them. -/
def copy (m : FormatterMemory) (bytes : Bytes) : Option FormatterMemory :=
  (write m.buffer m.fCurrentPut bytes).map fun buffer =>
    { m with buffer }.moveOn bytes.length

/-- `BufferIsFull`: whether there is room again, and where the formatter writes from then on. -/
abbrev Callback := FormatterMemory → Option (Bool × FormatterMemory)

/-- The loop of `Put`. -/
def putLoop (bufferIsFull : Callback) :
    Nat → FormatterMemory → Bytes → Nat → Option FormatterMemory
  | 0, _, _, _ => none
  | fuel + 1, m, buffer, spaceLeft =>
    let spaceInBuffer := (spaceLeft + uint32Size - 1) % uint32Size
    if spaceInBuffer < buffer.length ∨ spaceLeft = 0 then
      let fits := if spaceLeft > 0 then spaceInBuffer else 0
      (if spaceLeft > 0 then m.copy (buffer.take fits) else some m).bind fun m =>
        (bufferIsFull m).bind fun (_, m) =>
          if spaceLeft = m.getSpaceLeft then some m
          else putLoop bufferIsFull fuel m (buffer.drop fits) m.getSpaceLeft
    else m.copy buffer

/-- `StringFormatter::Put(buffer, bufferSize)` -/
def put (bufferIsFull : Callback) (m : FormatterMemory) (buffer : Bytes) :
    Option FormatterMemory :=
  if buffer.length = 1 ∧ m.fCurrentPut ≠ m.buffer.length then m.copy buffer
  else putLoop bufferIsFull StringFormatter.putFuel m buffer m.getSpaceLeft

/-- `vsnprintf` to `fCurrentPut`, with the room that is left: as much of the text as fits in
front of a terminator. It fails, with a negative number, for no text and for one whose length
is no `int`. -/
def vsnprintf (m : FormatterMemory) : Option Bytes → Option (Int × FormatterMemory)
  | none => some (-1, m)
  | some text =>
    if 2 ^ 31 ≤ text.length then some (-1, m)
    else if m.getSpaceLeft = 0 then some (text.length, m)
    else
      (write m.buffer m.fCurrentPut (text.take (m.getSpaceLeft - 1) ++ [0])).map fun buffer =>
        (text.length, { m with buffer })

/-- The loop of `PutFmtStr`. -/
def putFmtStrLoop (bufferIsFull : Callback) (text : Option Bytes) :
    Nat → FormatterMemory → Option (Bool × FormatterMemory)
  | 0, _ => none
  | fuel + 1, m =>
    (m.vsnprintf text).bind fun (length, m) =>
      if length < 0 then some (false, m)
      else if m.getSpaceLeft ≤ length.toNat then
        (bufferIsFull m).bind fun (resized, m) =>
          if resized then putFmtStrLoop bufferIsFull text fuel m
          else some (false, m.moveOn (toUInt32 (m.buffer.length - m.fCurrentPut - 1)))
      else some (true, m.moveOn length.toNat)

/-- `PutFmtStr`; `text` is what `vsnprintf` makes of the format and its arguments. -/
def putFmtStr (bufferIsFull : Callback) (m : FormatterMemory) (text : Option Bytes) :
    Option (Bool × FormatterMemory) :=
  putFmtStrLoop bufferIsFull text StringFormatter.putFuel m

/-- The calls that put something. -/
inductive Call
  | put (buffer : Bytes)
  | putChar (c : UInt8)
  | putEOL
  | putFmtStr (text : Option Bytes)
  | putTerminator
deriving DecidableEq, Repr

/-- A call, without the result of `PutFmtStr`. -/
def exec (bufferIsFull : Callback) (m : FormatterMemory) : Call → Option FormatterMemory
  | .put buffer => m.put bufferIsFull buffer
  | .putChar c => m.put bufferIsFull [c]
  | .putEOL => m.put bufferIsFull [13, 10]
  | .putFmtStr text => (m.putFmtStr bufferIsFull text).map (·.2)
  | .putTerminator => m.put bufferIsFull [0]

/-- `Reset` -/
def reset (m : FormatterMemory) (inNumBytesToLeave : Nat) : FormatterMemory :=
  { m with fCurrentPut := inNumBytesToLeave }

/-- `ResetBytesWritten` -/
def resetBytesWritten (m : FormatterMemory) : FormatterMemory := { m with fBytesWritten := 0 }

/-! ## The content of a formatter -/

/-- The memory holds the content of a formatter, in a buffer of its size. -/
structure Represents (m : FormatterMemory) (f : StringFormatter) : Prop where
  size : m.buffer.length = f.size
  current : m.fCurrentPut = f.content.length
  held : m.buffer.take m.fCurrentPut = f.content
  written : m.fBytesWritten = f.fBytesWritten
  fits : f.content.length ≤ f.size
  small : f.size < uint32Size
  counted : f.fBytesWritten < uint32Size

variable {m : FormatterMemory} {f g : StringFormatter} {text bytes : Bytes}

theorem toUInt32_of_lt {n : Nat} (h : n < uint32Size) : toUInt32 n = n := by
  unfold toUInt32 uint32Size at *
  omega

theorem Represents.getSpaceLeft_eq (h : Represents m f) : m.getSpaceLeft = f.getSpaceLeft := by
  have hsmall := h.small
  have hfits := h.fits
  have hdist : (m.buffer.length : Int) - m.fCurrentPut = (f.size - f.content.length : Nat) := by
    rw [h.size, h.current]
    omega
  rw [getSpaceLeft, hdist, toUInt32_of_lt (by omega)]
  rfl

theorem Represents.content_eq (h : Represents m f) : m.content = f.content := by
  have hsmall := h.small
  have hfits := h.fits
  rw [content, getCurrentOffset, toUInt32_of_lt (by rw [h.current]; omega), h.held]

/-- What fits is copied behind the content. -/
theorem Represents.copy (h : Represents m f) (hroom : bytes.length ≤ f.getSpaceLeft) :
    ∃ m', m.copy bytes = some m' ∧ Represents m' (f.append bytes) := by
  have hfits := h.fits
  have hle : m.fCurrentPut + bytes.length ≤ m.buffer.length := by
    rw [h.current, h.size]
    unfold StringFormatter.getSpaceLeft at hroom
    omega
  have hwrite := write_of_le hle
  refine ⟨_, congrArg (Option.map _) hwrite, ⟨?_, ?_, ?_, ?_, ?_, h.small, ?_⟩⟩
  · exact (length_write hwrite).trans h.size
  · simp [moveOn, StringFormatter.append, h.current]
  · exact (take_write hwrite).trans (congrArg (· ++ bytes) h.held)
  · simp [moveOn, StringFormatter.append, h.written]
  · simp only [StringFormatter.append, List.length_append]
    rw [h.current, h.size] at hle
    exact hle
  · exact Nat.mod_lt _ (by decide)

/-- What `vsnprintf` writes stands behind the content. -/
theorem Represents.vsnprintf (h : Represents m f) (hlen : text.length < 2 ^ 31) :
    ∃ m', m.vsnprintf (some text) = some ((text.length : Int), m') ∧ Represents m' f ∧
      (text.length < f.getSpaceLeft → Represents (m'.moveOn text.length) (f.append text)) := by
  have hspace := h.getSpaceLeft_eq
  simp only [FormatterMemory.vsnprintf, hspace, if_neg (not_le.mpr hlen)]
  by_cases hzero : f.getSpaceLeft = 0
  · rw [if_pos hzero]
    exact ⟨m, rfl, h, fun hlt => absurd hlt (by omega)⟩
  · have hfits := h.fits
    have hroom : f.getSpaceLeft = f.size - f.content.length := rfl
    have hle : m.fCurrentPut + (text.take (f.getSpaceLeft - 1) ++ [0]).length ≤
        m.buffer.length := by
      rw [h.current, h.size, List.length_append, List.length_take, List.length_singleton]
      omega
    obtain ⟨buffer, hwrite⟩ : ∃ buffer,
        write m.buffer m.fCurrentPut (text.take (f.getSpaceLeft - 1) ++ [0]) = some buffer :=
      ⟨_, write_of_le hle⟩
    have hsize := (length_write hwrite).trans h.size
    have hheld := take_write_add hwrite (Nat.zero_le _)
    rw [if_neg hzero, hwrite]
    refine ⟨_, rfl, ⟨hsize, h.current, ?_, h.written, hfits, h.small, h.counted⟩, fun hlt => ?_⟩
    · rw [Nat.add_zero, List.take_zero, List.append_nil, h.held] at hheld
      exact hheld
    · have htext : text.take (f.getSpaceLeft - 1) = text := List.take_of_length_le (by omega)
      rw [htext] at hwrite
      have happended := take_write_add hwrite (n := text.length) (by simp)
      rw [List.take_left, h.held] at happended
      refine ⟨hsize, ?_, happended, ?_, ?_, h.small, Nat.mod_lt _ (by decide)⟩
      · simp [moveOn, StringFormatter.append, h.current]
      · simp [moveOn, StringFormatter.append, h.written]
      · simp only [StringFormatter.append, List.length_append]
        omega

/-! ## Refinement -/

/-- A callback that grows the buffer as the formatter with a content and a size grows. -/
def Refines (bufferIsFull : Callback)
    (grow : StringFormatter → Option StringFormatter) : Prop :=
  ∀ m f g, Represents m f → grow f = some g →
    ∃ resized m', bufferIsFull m = some (resized, m') ∧ Represents m' g

variable {bufferIsFull : Callback} {grow : StringFormatter → Option StringFormatter}

/-- The loop of `Put` copies to the buffer what it appends to the content. -/
theorem Represents.putLoop (hgrow : Refines bufferIsFull grow) {fuel : Nat}
    (h : Represents m f)
    (hput : StringFormatter.putLoop grow fuel f bytes f.getSpaceLeft = some g) :
    ∃ m', putLoop bufferIsFull fuel m bytes m.getSpaceLeft = some m' ∧ Represents m' g := by
  induction fuel generalizing m f bytes with
  | zero => cases hput
  | succ fuel ih =>
    have hfits := h.fits
    have hsmall := h.small
    have hroom : f.getSpaceLeft = f.size - f.content.length := rfl
    have hless : 0 < f.getSpaceLeft →
        (f.getSpaceLeft + uint32Size - 1) % uint32Size = f.getSpaceLeft - 1 := fun hpos =>
      ResizeableStringFormatter.spaceInBuffer_eq hpos (by omega)
    have hrest : ∀ m₁ f₁ f₂ rest, Represents m₁ f₁ → grow f₁ = some f₂ →
        (if f.getSpaceLeft = f₂.getSpaceLeft then some f₂
          else StringFormatter.putLoop grow fuel f₂ rest f₂.getSpaceLeft) = some g →
        ∃ m', ((bufferIsFull m₁).bind fun (_, m₂) =>
          if f.getSpaceLeft = m₂.getSpaceLeft then some m₂
          else FormatterMemory.putLoop bufferIsFull fuel m₂ rest m₂.getSpaceLeft) = some m' ∧
            Represents m' g := by
      intro m₁ f₁ f₂ rest h₁ hgrown hcall
      obtain ⟨resized, m₂, hfull, h₂⟩ := hgrow m₁ f₁ f₂ h₁ hgrown
      simp only [hfull, Option.bind_some, h₂.getSpaceLeft_eq]
      split_ifs at hcall ⊢ with hsame
      · obtain rfl := Option.some.inj hcall
        exact ⟨m₂, rfl, h₂⟩
      · rw [← h₂.getSpaceLeft_eq]
        exact ih h₂ hcall
    rw [StringFormatter.putLoop] at hput
    rw [FormatterMemory.putLoop, h.getSpaceLeft_eq]
    simp only at hput ⊢
    split_ifs at hput ⊢ with hfull hpos
    · have hroom' : (bytes.take ((f.getSpaceLeft + uint32Size - 1) % uint32Size)).length ≤
          f.getSpaceLeft := by
        rw [List.length_take, hless hpos]
        omega
      obtain ⟨m₁, hcopy, h₁⟩ := h.copy hroom'
      rw [hcopy, Option.bind_some]
      split at hput
      next => cases hput
      next f₂ hgrown => exact hrest m₁ _ f₂ _ h₁ hgrown hput
    · have hnothing : f.append [] = f := by
        simp [StringFormatter.append, Nat.mod_eq_of_lt h.counted]
      rw [List.take_zero, hnothing] at hput
      rw [Option.bind_some]
      split at hput
      next => cases hput
      next f₂ hgrown => exact hrest m f f₂ _ h hgrown hput
    · obtain rfl := Option.some.inj hput
      exact h.copy (by omega)

/-- `Put` copies to the buffer what it appends to the content. -/
theorem Represents.put (hgrow : Refines bufferIsFull grow) (h : Represents m f)
    (hput : StringFormatter.put grow f bytes = some g) :
    ∃ m', m.put bufferIsFull bytes = some m' ∧ Represents m' g := by
  have hfits := h.fits
  have hfull : m.fCurrentPut ≠ m.buffer.length ↔ f.getSpaceLeft ≠ 0 := by
    rw [h.current, h.size]
    unfold StringFormatter.getSpaceLeft
    omega
  unfold StringFormatter.put at hput
  unfold FormatterMemory.put
  split_ifs at hput with hone
  · obtain rfl := Option.some.inj hput
    rw [if_pos ⟨hone.1, hfull.mpr hone.2⟩]
    exact h.copy (by omega)
  · rw [if_neg fun hsingle => hone ⟨hsingle.1, hfull.mp hsingle.2⟩]
    exact h.putLoop hgrow hput

end FormatterMemory

end CxxFramework.Core
