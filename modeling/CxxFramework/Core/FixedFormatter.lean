import CxxFramework.Core.FormatterMemory
import CxxFramework.Library.Transition

/-!
# Formatters of a fixed size

A `StringFormatter` keeps the buffer it is given: its `BufferIsFull` only returns false. What
is put is cut off at the end of the buffer. A single byte may fill the last byte of it;
`PutFmtStr` then computes the room it has used as that of an empty buffer, less one.
-/

namespace CxxFramework.Core

open Transition

namespace FixedFormatter

open FormatterMemory

/-- `StringFormatter::BufferIsFull` -/
def bufferIsFull : Callback := fun m => some (false, m)

theorem bufferIsFull_refines : Refines bufferIsFull some := by
  rintro m f _ h ⟨⟩
  exact ⟨false, m, rfl, h⟩

variable {f : StringFormatter} {m : FormatterMemory}

theorem append_nil (hcounted : f.fBytesWritten < uint32Size) : f.append [] = f := by
  simp [StringFormatter.append, Nat.mod_eq_of_lt hcounted]

/-- Without any room nothing is put, and the loop ends. -/
theorem putLoop_full {fuel : Nat} {buffer : Bytes} (hcounted : f.fBytesWritten < uint32Size)
    (hfull : f.getSpaceLeft = 0) :
    StringFormatter.putLoop some (fuel + 1) f buffer f.getSpaceLeft = some f := by
  simp [StringFormatter.putLoop, hfull, append_nil hcounted]

/-- A buffer with room for one byte keeps it: the loop leaves it to the terminator. -/
theorem putLoop_one {fuel : Nat} {buffer : Bytes} (hcounted : f.fBytesWritten < uint32Size)
    (hone : f.getSpaceLeft = 1) (hbuffer : buffer ≠ []) :
    StringFormatter.putLoop some (fuel + 1) f buffer f.getSpaceLeft = some f := by
  have hpos : 0 < buffer.length := List.length_pos_iff.mpr hbuffer
  simp [StringFormatter.putLoop, hone, append_nil hcounted, uint32Size, hpos]

/-- `Put` appends as much as fits. -/
theorem put_spec (hfits : f.content.length ≤ f.size) (hsmall : f.size < uint32Size)
    (hcounted : f.fBytesWritten < uint32Size) (buffer : Bytes) :
    ∃ n, (buffer.take n).length ≤ f.getSpaceLeft ∧
      StringFormatter.put some f buffer = some (f.append (buffer.take n)) := by
  have hroom : f.getSpaceLeft = f.size - f.content.length := rfl
  unfold StringFormatter.put
  split_ifs with hone
  · exact ⟨1, by simp; omega, by rw [List.take_of_length_le (by omega)]⟩
  · rcases Nat.eq_zero_or_pos f.getSpaceLeft with hzero | hpos
    · refine ⟨0, by simp, ?_⟩
      rw [List.take_zero, append_nil hcounted]
      exact putLoop_full hcounted hzero
    · have hless := ResizeableStringFormatter.spaceInBuffer_eq hpos (by omega)
      rw [show StringFormatter.putFuel = 38 + 1 + 1 from rfl, StringFormatter.putLoop, hless]
      by_cases hall : buffer.length < f.getSpaceLeft
      · refine ⟨buffer.length, by simp; omega, ?_⟩
        rw [List.take_length]
        exact if_neg (by omega)
      · have hcopied : (buffer.take (f.getSpaceLeft - 1)).length = f.getSpaceLeft - 1 :=
          List.length_take_of_le (by omega)
        have hleft : (f.append (buffer.take (f.getSpaceLeft - 1))).getSpaceLeft = 1 := by
          change f.size - (f.content ++ buffer.take (f.getSpaceLeft - 1)).length = 1
          rw [List.length_append, hcopied]
          omega
        refine ⟨f.getSpaceLeft - 1, by omega, ?_⟩
        simp only [if_pos (show f.getSpaceLeft - 1 < buffer.length ∨ f.getSpaceLeft = 0 by omega),
          if_pos hpos]
        split_ifs
        · rfl
        · refine putLoop_one (Nat.mod_lt _ (by decide)) hleft ?_
          exact List.ne_nil_of_length_pos (by rw [List.length_drop]; omega)

/-! ## What a call keeps -/

/-- The formatter stands in its buffer and has counted its content. -/
structure Good (m : FormatterMemory) : Prop where
  inside : m.fCurrentPut ≤ m.buffer.length
  counted : m.fBytesWritten = m.fCurrentPut
  small : m.buffer.length < uint32Size

/-- The pointers stay in the buffer, which stays where it is; the content is not changed, and
what it grows by is counted. -/
structure Kept (m m' : FormatterMemory) : Prop where
  buffer : m'.buffer.length = m.buffer.length
  inside : m'.fCurrentPut ≤ m'.buffer.length
  grows : m.fCurrentPut ≤ m'.fCurrentPut
  content : m'.buffer.take m.fCurrentPut = m.buffer.take m.fCurrentPut
  counted : m'.fBytesWritten = m.fBytesWritten + (m'.fCurrentPut - m.fCurrentPut)

theorem Kept.refl (h : Good m) : Kept m m := ⟨rfl, h.inside, le_rfl, rfl, by simp⟩

theorem Good.kept {m' : FormatterMemory} (h : Good m) (hkept : Kept m m') : Good m' where
  inside := hkept.inside
  counted := by rw [hkept.counted, h.counted, Nat.add_sub_cancel' hkept.grows]
  small := hkept.buffer ▸ h.small

/-- The content of a formatter, and its size. -/
def view (m : FormatterMemory) : StringFormatter where
  content := m.buffer.take m.fCurrentPut
  size := m.buffer.length
  fBytesWritten := m.fBytesWritten

theorem Good.length_content (h : Good m) : (view m).content.length = m.fCurrentPut :=
  List.length_take_of_le h.inside

theorem Good.represents (h : Good m) : Represents m (view m) := by
  have hinside := h.inside
  have hsmall := h.small
  refine ⟨rfl, h.length_content.symm, rfl, rfl, h.length_content.trans_le hinside, hsmall, ?_⟩
  exact h.counted.trans_lt (hinside.trans_lt hsmall)

/-- What is appended to the content, in a buffer of the same size, is kept. -/
theorem Good.kept_of_append {m' : FormatterMemory} {bytes : Bytes} (h : Good m)
    (hm' : Represents m' ((view m).append bytes)) : Kept m m' := by
  have hsmall := h.small
  have hcounted := h.counted
  have hlen := h.length_content
  have hsize : m'.buffer.length = m.buffer.length := hm'.size
  have hcurrent : m'.fCurrentPut = m.fCurrentPut + bytes.length := by
    rw [hm'.current, StringFormatter.append, List.length_append, hlen]
  have hfits : m'.fCurrentPut ≤ m'.buffer.length := by
    rw [hm'.current, hm'.size]
    exact hm'.fits
  refine ⟨hsize, hfits, by omega, ?_, ?_⟩
  · have htake := congrArg (List.take m.fCurrentPut) hm'.held
    rwa [List.take_take, Nat.min_eq_left (by omega), StringFormatter.append,
      List.take_left' hlen] at htake
  · have hwritten : m'.fBytesWritten = (m.fBytesWritten + bytes.length) % uint32Size := hm'.written
    rw [hwritten, Nat.mod_eq_of_lt (by omega)]
    omega

theorem put_kept (h : Good m) (buffer : Bytes) :
    ∃ m', m.put bufferIsFull buffer = some m' ∧ Kept m m' := by
  have hview := h.represents
  obtain ⟨n, -, hput⟩ := put_spec hview.fits hview.small hview.counted buffer
  obtain ⟨m', hm', hrep⟩ := hview.put bufferIsFull_refines hput
  exact ⟨m', hm', h.kept_of_append hrep⟩

/-- Formatted text is cut off in front of the end, unless the buffer is full. -/
theorem putFmtStr_kept (h : Good m) {text : Bytes} (hlen : text.length < 2 ^ 31) :
    ∃ result m', m.putFmtStr bufferIsFull (some text) = some (result, m') ∧
      (Kept m m' ↔ m.fCurrentPut < m.buffer.length) := by
  have hview := h.represents
  have hinside := h.inside
  have hsmall := h.small
  obtain ⟨m₁, hprint, h₁, happended⟩ := hview.vsnprintf hlen
  have hsize : m₁.buffer.length = m.buffer.length := h₁.size
  have hcurrent : m₁.fCurrentPut = m.fCurrentPut := h₁.current.trans hview.current.symm
  have hroom : (view m).getSpaceLeft = m.buffer.length - m.fCurrentPut := by
    rw [StringFormatter.getSpaceLeft, h.length_content]
    rfl
  unfold putFmtStr
  rw [show StringFormatter.putFuel = 39 + 1 from rfl, putFmtStrLoop, hprint, Option.bind_some]
  simp only [Int.toNat_natCast, h₁.getSpaceLeft_eq, bufferIsFull, Option.bind_some,
    Bool.false_eq_true, if_false]
  rw [if_neg (by omega)]
  by_cases hfits : text.length < (view m).getSpaceLeft
  · rw [if_neg (not_le.mpr hfits)]
    refine ⟨_, _, rfl, iff_of_true (h.kept_of_append (happended hfits)) (by omega)⟩
  · rw [if_pos (not_lt.mp hfits)]
    refine ⟨_, _, rfl, ?_⟩
    have hheld : m₁.buffer.take m.fCurrentPut = m.buffer.take m.fCurrentPut := by
      have hheld := h₁.held
      rwa [hcurrent] at hheld
    have hwritten : m₁.fBytesWritten = m.fBytesWritten := h₁.written
    have hcounted := h.counted
    constructor
    · intro hkept
      have hend := hkept.inside
      simp only [moveOn, toUInt32, hsize, hcurrent] at hend
      unfold uint32Size at hend
      omega
    · intro hlt
      have hused : toUInt32 ((m.buffer.length : Int) - m.fCurrentPut - 1) =
          m.buffer.length - m.fCurrentPut - 1 := by
        unfold toUInt32 uint32Size at *
        omega
      simp only [hsize, hcurrent, hused]
      refine ⟨hsize, ?_, ?_, hheld, ?_⟩
      · simp only [moveOn]
        omega
      · simp only [moveOn]
        omega
      · simp only [moveOn, hwritten]
        rw [Nat.mod_eq_of_lt (by omega)]
        omega

/-- Formatted text is put to a formatter that is not full. -/
def callOk (m : FormatterMemory) : Call → Prop
  | .putFmtStr (some text) => text.length < 2 ^ 31 → m.fCurrentPut < m.buffer.length
  | _ => True

/-- A call keeps the formatter in order exactly if it is one of these. -/
theorem exec_kept (h : Good m) (call : Call) :
    ∃ m', m.exec bufferIsFull call = some m' ∧ (Kept m m' ↔ callOk m call) := by
  have hput : ∀ buffer, ∃ m', m.put bufferIsFull buffer = some m' ∧ (Kept m m' ↔ True) :=
    fun buffer => by simpa using put_kept h buffer
  have hfails : ∀ text, m.vsnprintf text = some (-1, m) →
      m.exec bufferIsFull (.putFmtStr text) = some m := by
    intro text hfailed
    rw [exec, putFmtStr, show StringFormatter.putFuel = 39 + 1 from rfl, putFmtStrLoop, hfailed]
    rfl
  cases call with
  | put buffer => exact hput buffer
  | putChar c => exact hput [c]
  | putEOL => exact hput [13, 10]
  | putTerminator => exact hput [0]
  | putFmtStr text =>
    cases text with
    | none => exact ⟨m, hfails none rfl, iff_of_true (Kept.refl h) trivial⟩
    | some text =>
      by_cases hlen : text.length < 2 ^ 31
      · obtain ⟨result, m', hm', hkept⟩ := putFmtStr_kept h hlen
        exact ⟨m', by rw [exec, hm']; rfl, hkept.trans ⟨fun hroom _ => hroom, fun hok => hok hlen⟩⟩
      · have hfailed : m.vsnprintf (some text) = some (-1, m) := if_pos (not_lt.mp hlen)
        exact ⟨m, hfails _ hfailed, iff_of_true (Kept.refl h) fun hlt => absurd hlt hlen⟩

/-! ## Runs -/

/-- The runs of a formatter over a buffer; `none` is the state behind an access outside of
it, or a call that does not end. -/
def writing (buffer : Bytes) : System (Option FormatterMemory) Call where
  init s := s = some { buffer }
  step s call t := t = s.bind (exec bufferIsFull · call)

/-- In a run over a buffer every call keeps the formatter in order, exactly if no formatted
text is put to a full buffer. -/
theorem fixedFormatter_iff (buffer : Bytes) (hsize : buffer.length < uint32Size)
    (calls : List Call) :
    (writing buffer).Keeps (fun s _ t => ∃ m m', s = some m ∧ t = some m' ∧ Kept m m')
        (some { buffer }) calls ↔
      (writing buffer).Meets (fun s call => ∃ m, s = some m ∧ callOk m call)
        (some { buffer }) calls := by
  refine System.keeps_iff_meets (fun s => ∃ m, s = some m ∧ Good m) ?_ ?_
    ⟨_, rfl, Nat.zero_le _, rfl, hsize⟩ calls
  · rintro _ call t ⟨m, rfl, hm⟩ rfl ⟨_, ⟨rfl⟩, hok⟩
    obtain ⟨m', hm', hkept⟩ := exec_kept hm call
    exact ⟨⟨m, m', rfl, hm', hkept.mpr hok⟩, m', hm', hm.kept (hkept.mpr hok)⟩
  · rintro _ call t ⟨m, rfl, hm⟩ rfl ⟨_, m'', ⟨rfl⟩, hm'', hkept⟩
    obtain ⟨m', hm', hiff⟩ := exec_kept hm call
    obtain rfl : m' = m'' := Option.some.inj (hm'.symm.trans hm'')
    exact ⟨m, rfl, hiff.mp hkept⟩

theorem fixedFormatter_iff_fourBytes :
    (writing [0, 0, 0, 0]).Keeps (fun s _ t => ∃ m m', s = some m ∧ t = some m' ∧ Kept m m')
        (some { buffer := [0, 0, 0, 0] }) [.put (ascii "abcde"), .putFmtStr (some (ascii "x"))] ↔
      (writing [0, 0, 0, 0]).Meets (fun s call => ∃ m, s = some m ∧ callOk m call)
        (some { buffer := [0, 0, 0, 0] }) [.put (ascii "abcde"), .putFmtStr (some (ascii "x"))] :=
  fixedFormatter_iff [0, 0, 0, 0] (by decide) _

/-- A byte fills the buffer, and no text at all is formatted behind it. -/
theorem fullBuffer_not_kept :
    ¬ (writing [0]).Keeps (fun s _ t => ∃ m m', s = some m ∧ t = some m' ∧ Kept m m')
        (some { buffer := [0] }) [.putChar 97, .putFmtStr (some [])] := by
  intro h
  obtain ⟨-, hrest⟩ := h (some { buffer := [97], fCurrentPut := 1, fBytesWritten := 1 })
    (by change _ = _; decide)
  obtain ⟨⟨m, m', -, hm', hkept⟩, -⟩ := hrest
    (some { buffer := [97], fCurrentPut := 2 ^ 32, fBytesWritten := 0 }) (by change _ = _; decide)
  obtain rfl := Option.some.inj hm'
  exact absurd hkept.inside (by decide)

end FixedFormatter

end CxxFramework.Core
