import CxxFramework.Core.FormatterMemory
import Mathlib.Data.List.Infix

/-!
# Formatters that grow

A `ResizeableStringFormatter` moves its content to a new buffer of twice the size when the
buffer is full, to one of 64 bytes if it had none. Its content is what was put since the last
`Reset`, and it counts what was put since the last `ResetBytesWritten`.
-/

namespace CxxFramework.Core.GrowingFormatter

open FormatterMemory Buffer

/-- `ResizeableStringFormatter::BufferIsFull`; a new buffer of a size holds `fresh size`. -/
def bufferIsFull (fresh : Nat → Nat → UInt8) : Callback := fun m =>
  let doubled := m.getTotalBufferSize * 2 % uint32Size
  let theNewBufferSize := if doubled = 0 then 64 else doubled
  let theNewBuffer := (List.range theNewBufferSize).map (fresh theNewBufferSize)
  if m.getCurrentOffset ≤ m.buffer.length then
    (write theNewBuffer 0 (m.buffer.take m.getCurrentOffset)).map fun buffer =>
      (true, { m with buffer, fCurrentPut := m.getCurrentOffset })
  else none

inductive Command
  | call (call : Call)
  | reset
  | resetBytesWritten
deriving DecidableEq, Repr

def exec (fresh : Nat → Nat → UInt8) (m : FormatterMemory) : Command → Option FormatterMemory
  | .call call => m.exec (bufferIsFull fresh) call
  | .reset => some (m.reset 0)
  | .resetBytesWritten => some m.resetBytesWritten

/-- The commands, one after the other. -/
def run (fresh : Nat → Nat → UInt8) (m : FormatterMemory) (commands : List Command) :
    Option FormatterMemory :=
  commands.foldlM (exec fresh) m

/-! ## What is put -/

/-- The bytes that a call puts. -/
def data : Call → Bytes
  | .put buffer => buffer
  | .putChar c => [c]
  | .putEOL => [13, 10]
  | .putFmtStr text => text.getD []
  | .putTerminator => [0]

/-- All data put since the last `Reset`, behind a content. -/
def contentFrom (content : Bytes) (commands : List Command) : Bytes :=
  commands.foldl (fun content command =>
    match command with
    | .call call => content ++ data call
    | .reset => []
    | .resetBytesWritten => content) content

/-- The number of bytes put since the last `ResetBytesWritten`, added to a number. -/
def countFrom (count : Nat) (commands : List Command) : Nat :=
  commands.foldl (fun count command =>
    match command with
    | .call call => count + (data call).length
    | .reset => count
    | .resetBytesWritten => 0) count

variable {m : FormatterMemory} {f g : StringFormatter} (fresh : Nat → Nat → UInt8)

/-! ## Growing -/

/-- The new buffer holds the content. -/
theorem bufferIsFull_represents (h : Represents m f)
    (hgrow : ResizeableStringFormatter.bufferIsFull f = some g) :
    ∃ m', bufferIsFull fresh m = some (true, m') ∧ Represents m' g := by
  have hfits := h.fits
  have hsmall := h.small
  have htotal : m.getTotalBufferSize = f.size := by
    rw [getTotalBufferSize, h.size, toUInt32_of_lt hsmall]
  have hoffset : m.getCurrentOffset = f.content.length := by
    rw [getCurrentOffset, h.current, toUInt32_of_lt (by omega)]
  have hheld : m.buffer.take f.content.length = f.content := h.current ▸ h.held
  obtain ⟨hcontent, hwritten, hvalid, hsize⟩ :=
    ResizeableStringFormatter.bufferIsFull_cases hgrow
  have hpos := hvalid.pos
  have hnew : (if f.size * 2 % uint32Size = 0 then 64 else f.size * 2 % uint32Size) = g.size := by
    split <;> omega
  obtain ⟨buffer, hwrite⟩ : ∃ buffer,
      write ((List.range g.size).map (fresh g.size)) 0 f.content = some buffer :=
    ⟨_, write_of_le (by simpa [hcontent] using hvalid.fits)⟩
  have htake := take_write hwrite
  have hlen := length_write hwrite
  rw [List.take_zero, List.nil_append, Nat.zero_add] at htake
  rw [List.length_map, List.length_range] at hlen
  simp only [bufferIsFull, htotal, hoffset, hheld, hnew, hwrite]
  rw [if_pos (by rw [h.size]; exact hfits)]
  refine ⟨_, rfl, ⟨hlen, ?_, ?_, ?_, hvalid.fits, hvalid.lt, ?_⟩⟩
  · rw [hcontent]
  · rw [hcontent]
    exact htake
  · rw [hwritten]
    exact h.written
  · rw [hwritten]
    exact h.counted

theorem bufferIsFull_refines :
    Refines (bufferIsFull fresh) ResizeableStringFormatter.bufferIsFull := by
  intro m f g h hgrow
  obtain ⟨m', hm', hrep⟩ := bufferIsFull_represents fresh h hgrow
  exact ⟨true, m', hm', hrep⟩

/-- The loop of `PutFmtStr` formats the text to the buffer that holds it. -/
theorem putFmtStrLoop_represents {fuel : Nat} {text : Bytes} (hlen : text.length < 2 ^ 31)
    (h : Represents m f) (hput : ResizeableStringFormatter.putFmtStrLoop fuel f text = some g) :
    ∃ result m', putFmtStrLoop (bufferIsFull fresh) (some text) fuel m = some (result, m') ∧
      Represents m' g := by
  induction fuel generalizing m f with
  | zero => cases hput
  | succ fuel ih =>
    obtain ⟨m₁, hprint, h₁, happended⟩ := h.vsnprintf hlen
    rw [ResizeableStringFormatter.putFmtStrLoop] at hput
    rw [putFmtStrLoop, hprint, Option.bind_some]
    simp only [Int.toNat_natCast, h₁.getSpaceLeft_eq]
    rw [if_neg (by omega)]
    split_ifs at hput ⊢ with hfull
    · cases hgrow : ResizeableStringFormatter.bufferIsFull f with
      | none => simp [hgrow] at hput
      | some f' =>
        obtain ⟨m₂, hm₂, h₂⟩ := bufferIsFull_represents fresh h₁ hgrow
        rw [hgrow] at hput
        rw [hm₂, Option.bind_some]
        exact ih h₂ hput
    · obtain rfl := Option.some.inj hput
      exact ⟨true, _, rfl, happended (by omega)⟩

/-! ## Formatters without a buffer -/

/-- The content is in a buffer, which may be none. -/
structure Held (f : StringFormatter) : Prop where
  fits : f.content.length ≤ f.size
  small : f.size < uint32Size
  counted : f.fBytesWritten < uint32Size

theorem Held.valid (h : Held f) (hpos : 0 < f.size) : ResizeableStringFormatter.Valid f :=
  ⟨h.fits, hpos, h.small⟩

/-- The first buffer has 64 bytes. -/
theorem bufferIsFull_none (h : Held f) (hnone : f.size = 0) :
    ResizeableStringFormatter.bufferIsFull f = some { f with size := 64 } := by
  have hfits := h.fits
  simp only [ResizeableStringFormatter.bufferIsFull, StringFormatter.getTotalBufferSize, hnone]
  exact if_neg (by simp [StringFormatter.getCurrentOffset]; omega)

theorem Held.first (h : Held f) (hnone : f.size = 0) :
    ResizeableStringFormatter.Valid { f with size := 64 } :=
  ⟨by have hfits := h.fits; simp only; omega, by simp, by simp [uint32Size]⟩

theorem Held.append_nil (h : Held f) : f.append [] = f := by
  simp [StringFormatter.append, Nat.mod_eq_of_lt h.counted]

theorem getSpaceLeft_none (hnone : f.size = 0) : f.getSpaceLeft = 0 := by
  rw [StringFormatter.getSpaceLeft, hnone, Nat.zero_sub]

theorem putLoop_none (h : Held f) (hnone : f.size = 0) (fuel : Nat) (bytes : Bytes) :
    StringFormatter.putLoop ResizeableStringFormatter.bufferIsFull (fuel + 1) f bytes 0 =
      StringFormatter.putLoop ResizeableStringFormatter.bufferIsFull fuel { f with size := 64 }
        bytes ({ f with size := 64 } : StringFormatter).getSpaceLeft := by
  have hempty : f.content.length = 0 := by
    have hfits := h.fits
    omega
  have hspace : ({ f with size := 64 } : StringFormatter).getSpaceLeft = 64 := by
    simp [StringFormatter.getSpaceLeft, hempty]
  simp [StringFormatter.putLoop, h.append_nil, bufferIsFull_none h hnone, hspace]

/-- `Put` appends its bytes while the content stays small. -/
theorem put_spec (h : Held f) (bytes : Bytes)
    (htotal : f.content.length + bytes.length < 2 ^ 31) :
    ∃ g, ResizeableStringFormatter.put f bytes = some g ∧ Held g ∧
      g.content = f.content ++ bytes ∧
      g.fBytesWritten = (f.fBytesWritten + bytes.length) % uint32Size := by
  rcases Nat.eq_zero_or_pos f.size with hnone | hpos
  · have hspace := getSpaceLeft_none hnone
    have hfirst := h.first hnone
    have hput : ResizeableStringFormatter.put f bytes =
        StringFormatter.putLoop ResizeableStringFormatter.bufferIsFull 39 { f with size := 64 }
          bytes ({ f with size := 64 } : StringFormatter).getSpaceLeft := by
      rw [ResizeableStringFormatter.put, StringFormatter.put, hspace,
        if_neg fun hone => hone.2 rfl]
      exact putLoop_none h hnone 39 bytes
    have hfuel : 2 ^ 31 ≤ 64 * 2 ^ 38 := by decide
    obtain ⟨g, hg⟩ := Option.isSome_iff_exists.mp
      (ResizeableStringFormatter.putLoop_isSome hfirst htotal hfuel)
    obtain ⟨hcontent, hvalid⟩ := ResizeableStringFormatter.putLoop_eq_some hfirst hg
    have hwritten := ResizeableStringFormatter.putLoop_written hfirst hg
    refine ⟨g, hput.trans hg, ⟨hvalid.fits, hvalid.lt, ?_⟩, hcontent, hwritten⟩
    rw [hwritten]
    exact Nat.mod_lt _ (by decide)
  · have hvalid := h.valid hpos
    obtain ⟨g, hg⟩ := Option.isSome_iff_exists.mp
      (ResizeableStringFormatter.put_isSome hvalid htotal)
    obtain ⟨hcontent, hvalid'⟩ := ResizeableStringFormatter.put_eq_some hvalid hg
    have hwritten := ResizeableStringFormatter.put_written hvalid hg
    refine ⟨g, hg, ⟨hvalid'.fits, hvalid'.lt, ?_⟩, hcontent, hwritten⟩
    rw [hwritten]
    exact Nat.mod_lt _ (by decide)

theorem putFmtStrLoop_written {fuel : Nat} {text : Bytes}
    (hput : ResizeableStringFormatter.putFmtStrLoop fuel f text = some g) :
    g.fBytesWritten = (f.fBytesWritten + text.length) % uint32Size := by
  induction fuel generalizing f with
  | zero => cases hput
  | succ fuel ih =>
    rw [ResizeableStringFormatter.putFmtStrLoop] at hput
    split_ifs at hput
    · cases hgrow : ResizeableStringFormatter.bufferIsFull f with
      | none => simp [hgrow] at hput
      | some f' =>
        rw [hgrow] at hput
        rw [ih hput, (ResizeableStringFormatter.bufferIsFull_cases hgrow).2.1]
    · obtain rfl := Option.some.inj hput
      rfl

/-- `PutFmtStr` appends its text while the content stays small. -/
theorem putFmtStr_spec (h : Held f) (text : Bytes)
    (htotal : f.content.length + text.length < 2 ^ 31) :
    ∃ g, ResizeableStringFormatter.putFmtStr f text = some g ∧ Held g ∧
      g.content = f.content ++ text ∧
      g.fBytesWritten = (f.fBytesWritten + text.length) % uint32Size := by
  have hput : ∃ g fuel f', ResizeableStringFormatter.putFmtStr f text = some g ∧
      ResizeableStringFormatter.putFmtStrLoop fuel f' text = some g ∧
        ResizeableStringFormatter.Valid f' ∧ f'.content = f.content := by
    rcases Nat.eq_zero_or_pos f.size with hnone | hpos
    · have hfirst := h.first hnone
      have hfuel : 2 ^ 31 ≤ 64 * 2 ^ 38 := by decide
      obtain ⟨g, hg⟩ := Option.isSome_iff_exists.mp
        (ResizeableStringFormatter.putFmtStrLoop_isSome hfirst htotal hfuel)
      refine ⟨g, 39, _, ?_, hg, hfirst, rfl⟩
      rw [ResizeableStringFormatter.putFmtStr, show StringFormatter.putFuel = 39 + 1 from rfl,
        ResizeableStringFormatter.putFmtStrLoop, getSpaceLeft_none hnone, if_pos (Nat.zero_le _),
        bufferIsFull_none h hnone]
      exact hg
    · obtain ⟨g, hg⟩ := Option.isSome_iff_exists.mp
        (ResizeableStringFormatter.putFmtStrLoop_isSome (h.valid hpos) htotal
          (show 2 ^ 31 ≤ f.size * 2 ^ 39 by omega))
      exact ⟨g, 40, f, hg, hg, h.valid hpos, rfl⟩
  obtain ⟨g, fuel, f', hg, hloop, hvalid, hsame⟩ := hput
  obtain ⟨hcontent, hvalid'⟩ := ResizeableStringFormatter.putFmtStrLoop_eq_some hvalid hloop
  have hwritten := putFmtStrLoop_written hg
  refine ⟨g, hg, ⟨hvalid'.fits, hvalid'.lt, ?_⟩, by rw [hcontent, hsame], hwritten⟩
  rw [hwritten]
  exact Nat.mod_lt _ (by decide)

/-! ## Commands -/

theorem Held.represents (h : Represents m f) : Held f := ⟨h.fits, h.small, h.counted⟩

/-- A call appends its data to the content. -/
theorem call_represents (h : Represents m f) (call : Call)
    (htotal : (f.content ++ data call).length < 2 ^ 30) :
    ∃ m' g, m.exec (bufferIsFull fresh) call = some m' ∧ Represents m' g ∧
      g.content = f.content ++ data call ∧
      g.fBytesWritten = (f.fBytesWritten + (data call).length) % uint32Size := by
  rw [List.length_append] at htotal
  have hput : ∀ bytes, data call = bytes → ∃ m' g, m.put (bufferIsFull fresh) bytes = some m' ∧
      Represents m' g ∧ g.content = f.content ++ data call ∧
      g.fBytesWritten = (f.fBytesWritten + (data call).length) % uint32Size := by
    rintro bytes rfl
    obtain ⟨g, hg, -, hcontent, hwritten⟩ := put_spec (Held.represents h) (data call) (by omega)
    obtain ⟨m', hm', hrep⟩ := h.put (bufferIsFull_refines fresh) hg
    exact ⟨m', g, hm', hrep, hcontent, hwritten⟩
  cases call with
  | put buffer => exact hput buffer rfl
  | putChar c => exact hput [c] rfl
  | putEOL => exact hput [13, 10] rfl
  | putTerminator => exact hput [0] rfl
  | putFmtStr text =>
    cases text with
    | none =>
      refine ⟨m, f, rfl, h, (List.append_nil _).symm, ?_⟩
      exact (Nat.mod_eq_of_lt h.counted).symm
    | some text =>
      have hlen : text.length < 2 ^ 31 := by
        simp only [data, Option.getD_some] at htotal
        omega
      obtain ⟨g, hg, -, hcontent, hwritten⟩ := putFmtStr_spec (Held.represents h) text
        (by simp only [data, Option.getD_some] at htotal; omega)
      obtain ⟨result, m', hm', hrep⟩ := putFmtStrLoop_represents fresh hlen h hg
      refine ⟨m', g, ?_, hrep, hcontent, hwritten⟩
      rw [FormatterMemory.exec, putFmtStr, hm']
      rfl

theorem countFrom_mod (count : Nat) (commands : List Command) :
    countFrom (count % uint32Size) commands % uint32Size =
      countFrom count commands % uint32Size := by
  induction commands generalizing count with
  | nil => exact Nat.mod_mod ..
  | cons command commands ih =>
    cases command with
    | call call =>
      have hleft := ih (count % uint32Size + (data call).length)
      have hright := ih (count + (data call).length)
      rw [Nat.mod_add_mod] at hleft
      exact hleft.symm.trans hright
    | reset => exact ih count
    | resetBytesWritten => rfl

theorem reset_represents (h : Represents m f) : Represents (m.reset 0) f.reset :=
  ⟨h.size, rfl, List.take_zero, h.written, Nat.zero_le _, h.small, h.counted⟩

theorem resetBytesWritten_represents (h : Represents m f) :
    Represents m.resetBytesWritten { f with fBytesWritten := 0 } :=
  ⟨h.size, h.current, h.held, rfl, h.fits, h.small, by simp [uint32Size]⟩

/-- The content of a formatter is what was put since the last `Reset`, and it counts, in a
`UInt32`, what was put since the last `ResetBytesWritten`. -/
theorem run_represents (h : Represents m f) (commands : List Command)
    (hsmall : ∀ front, front <+: commands → (contentFrom f.content front).length < 2 ^ 30) :
    ∃ m' g, run fresh m commands = some m' ∧ Represents m' g ∧
      g.content = contentFrom f.content commands ∧
      g.fBytesWritten = countFrom f.fBytesWritten commands % uint32Size := by
  induction commands generalizing m f with
  | nil => exact ⟨m, f, rfl, h, rfl, (Nat.mod_eq_of_lt h.counted).symm⟩
  | cons command commands ih =>
    have hfront : ∀ front, front <+: commands → command :: front <+: command :: commands :=
      fun front hprefix => List.cons_prefix_cons.mpr ⟨rfl, hprefix⟩
    cases command with
    | call call =>
      obtain ⟨m₁, g₁, hm₁, h₁, hcontent, hwritten⟩ :=
        call_represents fresh h call (hsmall [.call call] (hfront [] (List.nil_prefix ..)))
      obtain ⟨m', g, hm', hrep, hcontent', hwritten'⟩ := ih h₁ fun front hprefix => by
        rw [hcontent]
        exact hsmall (.call call :: front) (hfront front hprefix)
      refine ⟨m', g, ?_, hrep, ?_, ?_⟩
      · rw [run, List.foldlM_cons, exec, hm₁]
        exact hm'
      · rw [hcontent', hcontent]
        rfl
      · rw [hwritten', hwritten, countFrom_mod]
        rfl
    | reset =>
      exact ih (reset_represents h) fun front hprefix =>
        hsmall (.reset :: front) (hfront front hprefix)
    | resetBytesWritten =>
      exact ih (resetBytesWritten_represents h) fun front hprefix =>
        hsmall (.resetBytesWritten :: front) (hfront front hprefix)

/-- Over any buffer, or none, and while the content stays below `2 ^ 30` bytes, every command
ends inside its buffers. The content is what was put since the last `Reset`, and
`GetBytesWritten` what was put since the last `ResetBytesWritten`, as far as that is a
`UInt32`. -/
theorem growingFormatter_spec (buffer : Bytes) (hsize : buffer.length < uint32Size)
    (commands : List Command)
    (hsmall : ∀ front, front <+: commands → (contentFrom [] front).length < 2 ^ 30) :
    ∃ m, run fresh { buffer } commands = some m ∧ m.content = contentFrom [] commands ∧
      m.fBytesWritten = countFrom 0 commands % uint32Size ∧
      (countFrom 0 commands < uint32Size → m.fBytesWritten = countFrom 0 commands) := by
  have hstart : Represents { buffer } { size := buffer.length } :=
    ⟨rfl, rfl, List.take_zero, rfl, Nat.zero_le _, hsize, by simp [uint32Size]⟩
  obtain ⟨m, g, hm, hrep, hcontent, hwritten⟩ := run_represents fresh hstart commands hsmall
  have hcount := hrep.written.trans hwritten
  exact ⟨m, hm, hrep.content_eq.trans hcontent, hcount, fun hlt =>
    hcount.trans (Nat.mod_eq_of_lt hlt)⟩

theorem growingFormatter_spec_noBuffer :
    ∃ m, run (fun _ _ => 0) { buffer := [] } [.call (.put (ascii "ab")), .reset,
        .call (.putChar 99), .call .putEOL] = some m ∧ m.content = ascii "c\r\n" ∧
      m.fBytesWritten = 5 % uint32Size ∧ (5 < uint32Size → m.fBytesWritten = 5) := by
  refine growingFormatter_spec (fun _ _ => 0) [] (by decide) _ fun front hprefix => ?_
  have hall : ∀ front ∈ List.inits [Command.call (.put (ascii "ab")), .reset,
      .call (.putChar 99), .call .putEOL], (contentFrom [] front).length < 2 ^ 30 := by
    decide
  exact hall front ((List.mem_inits ..).mpr hprefix)

end CxxFramework.Core.GrowingFormatter
