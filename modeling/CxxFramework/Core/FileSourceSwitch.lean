import CxxFramework.Core.FileSourceFaults

/-!
# Switching files

`Set` closes the file and opens another one. Map, blocks and the switch of the cache stay as
they are, and `AllocateFileCache` keeps the map if its sizes look unchanged. So a cached read
can find a block of the old file. Once a map is built for the new file, the old one has no
effect any more.

## Main definitions

* `FileSource.set` — another file is opened.
* `FileSource.ReadsFile` — what a read has to give.
* `FileSource.Parted` — no block that a read comes to differs from its piece of the file.
-/

namespace CxxFramework.Core.FileSource

open Buffer Transition

variable {source : FileSource} {k pos len : Nat}

/-! ## Set -/

/-- `FileSource::Close` -/
def close (source : FileSource) : FileSource :=
  { source with fFile := [], fLength := 0, fPosition := 0 }

/-- `FileSource::Set`, with a file that can be opened. -/
def set (source : FileSource) (file : Bytes) : FileSource :=
  { source.close with fFile := file, fLength := file.length }

/-- The calls on a source whose file may change. -/
inductive FileCall
  | set (file : Bytes)
  | call (call : Call)
deriving DecidableEq, Repr

/-- One call; a `Set` returns nothing. -/
def fileStep (source : FileSource) : FileCall → Option (Option ReadResult × FileSource)
  | .set file => some (none, source.set file)
  | .call call => source.step call

/-- `Set` leaves the blocks in order, but they are those of the old file. -/
theorem Ready.set (h : Ready source) (file : Bytes) : Ready (source.set file) :=
  ⟨rfl, h.mapped⟩

/-! ## Reads -/

/-- On a disk that does not fail, the first block reaches every position in the file. -/
theorem fillReaches_of_whole (hdisk : source.disk = [])
    (hwhole : source.InFull (k * source.fFileMap.fDataBufferSize)
      source.fFileMap.fDataBufferSize) {buffPos : Nat}
    (hpos : buffPos ≤ (slice source.fFile (k * source.fFileMap.fDataBufferSize)
      source.fFileMap.fDataBufferSize).length) : source.FillReaches k buffPos := by
  intro _ _
  unfold InFull at hwhole
  rw [hdisk, List.head?_nil]
  rw [length_slice] at hpos
  simp only [outcome, length_slice]
  omega

/-- The read is one that is served, and the blocks in the map that it comes to have what the
file has at their pieces. -/
def Unmixed (source : FileSource) (pos len : Nat) : Prop :=
  source.readsCache pos len = true → source.Readable pos len ∧
    (pos < source.fLength → source.fFileMap.fBlockPool.fMaxBuffers ≠ 0 ∧
      source.Intact
        (source.fFileMap.getBuffIndex (pos + len) + 1 - source.fFileMap.getBuffIndex pos)
        (source.fFileMap.getBuffIndex pos)
        (pos - source.fFileMap.getBuffOffset (source.fFileMap.getBuffIndex pos)) len)

theorem Unmixed.spared (h : Ready source) (hdisk : source.disk = [])
    (hunmixed : source.Unmixed pos len) : source.Spared pos len := by
  intro hcache
  obtain ⟨hread, hblocks⟩ := hunmixed hcache
  refine ⟨hread, fun hin => ?_⟩
  obtain ⟨hmax, hintact⟩ := hblocks hin
  refine ⟨hmax, hintact, fillReaches_of_whole hdisk (hread.2.2 hcache) ?_⟩
  simp only [readsCache, Bool.and_eq_true] at hcache
  obtain ⟨cells, hmapped⟩ := h.exists_cells hcache.1.1
  have hmod := Nat.mod_lt pos hmapped.size_pos
  have hdiv := Nat.div_add_mod' pos source.fFileMap.fDataBufferSize
  rw [h.length] at hin
  rw [length_slice]
  simp only [FileMap.getBuffIndex, FileMap.getBuffOffset]
  omega

/-! ## Runs -/

/-- Calls on a source, until one of them fails. -/
abbrev fileSystem : System (Option FileSource) FileCall :=
  .ofPartial (fun state => ∃ file, state = some (ofFile file))
    fun state call => some (state.bind fun source => (source.fileStep call).map Prod.snd)

/-- The call does not fail, and a read gives what the plain read of the file gives that is
open. -/
def ReadsFile : Option FileSource → FileCall → Option FileSource → Prop
  | some source, .call call, state => Agrees (some source) call state
  | some _, .set _, some _ => True
  | _, _, _ => False

/-- The map can be built, and no block that a read comes to is left from another file. -/
def Parted : Option FileSource → FileCall → Prop
  | some source, .call (.read inPosition inLength) =>
    source.Unmixed inPosition.toNat inLength.toNat
  | some source, .call call => Undamaged (some source) call
  | _, _ => True

theorem Parted.undamaged (h : Ready source) (hdisk : source.disk = []) {call : Call}
    (hparted : Parted (some source) (.call call)) : Undamaged (some source) call := by
  cases call with
  | read inPosition inLength => exact Unmixed.spared h hdisk hparted
  | allocateFileCache inUnitSizeInK bufferSizeUnits incBuffers inMaxBlocks inBitRate =>
    exact hparted
  | enableFileCache enabled => trivial
  | incMaxBuffers => trivial
  | decMaxBuffers => trivial

/-- On a disk that does not fail, a call that survives agrees with the plain reads. -/
theorem Survives.agrees (hdisk : source.disk = []) {call : Call} {state : Option FileSource}
    (h : Survives (some source) call state) : Agrees (some source) call state := by
  cases state with
  | none => cases call <;> exact h
  | some source' =>
    cases call with
    | read inPosition inLength =>
      have hwhole : source.whole = source := by rw [whole, ← hdisk]
      have hread := h (by simp [ownReads, hdisk])
      rwa [hwhole] at hread
    | allocateFileCache inUnitSizeInK bufferSizeUnits incBuffers inMaxBlocks inBitRate =>
      trivial
    | enableFileCache enabled => trivial
    | incMaxBuffers => trivial
    | decMaxBuffers => trivial

theorem fileStep_ready (h : Ready source) (hdisk : source.disk = []) {call : FileCall}
    {state : Option FileSource} (hstep : fileSystem.step (some source) call state)
    (hparted : Parted (some source) call) :
    ReadsFile (some source) call state ∧
      ∃ source', state = some source' ∧ Ready source' ∧ source'.disk = [] := by
  cases call with
  | set file =>
    obtain rfl : some (source.set file) = state := Option.some.inj hstep
    exact ⟨trivial, _, rfl, h.set file, hdisk⟩
  | call call =>
    obtain ⟨hsurvives, source', n, rfl, hready, hdisk'⟩ :=
      step_ready h hstep (hparted.undamaged h hdisk)
    refine ⟨hsurvives.agrees hdisk, source', rfl, hready, ?_⟩
    rw [hdisk', hdisk, List.drop_nil]

/-- In a run that comes to no block of another file, every read gives what the plain read
gives of the file that is open. -/
theorem readsFile_of_parted (file : Bytes) (calls : List FileCall)
    (h : fileSystem.Meets Parted (some (ofFile file)) calls) :
    fileSystem.Keeps ReadsFile (some (ofFile file)) calls := by
  refine System.Meets.keeps
    (fun state => ∃ source, state = some source ∧ Ready source ∧ source.disk = []) ?_
    ⟨_, rfl, ready_ofFile file [], rfl⟩ h
  rintro state call next ⟨source, rfl, hready, hdisk⟩ hstep hparted
  exact fileStep_ready hready hdisk hstep hparted

/-! ## Two runs -/

instance (source : FileSource) (pos len : Nat) : Decidable (source.Unmixed pos len) :=
  inferInstanceAs (Decidable (_ → _ ∧ (_ → _ ∧ _)))

instance : (state : Option FileSource) → (call : FileCall) → Decidable (Parted state call)
  | some source, .call (.read inPosition inLength) =>
    inferInstanceAs (Decidable (source.Unmixed inPosition.toNat inLength.toNat))
  | some source, .call (.allocateFileCache inUnitSizeInK bufferSizeUnits incBuffers inMaxBlocks
      inBitRate) =>
    inferInstanceAs (Decidable (Undamaged (some source) (.allocateFileCache inUnitSizeInK
      bufferSizeUnits incBuffers inMaxBlocks inBitRate)))
  | some _, .call (.enableFileCache _) => isTrue trivial
  | some _, .call .incMaxBuffers => isTrue trivial
  | some _, .call .decMaxBuffers => isTrue trivial
  | some _, .set _ => isTrue trivial
  | none, _ => isTrue trivial

instance : (state : Option FileSource) → (call : FileCall) → (state' : Option FileSource) →
    Decidable (ReadsFile state call state')
  | some source, .call call, state => inferInstanceAs (Decidable (Agrees (some source) call state))
  | some _, .set _, some _ => isTrue trivial
  | some _, .set _, none => isFalse id
  | none, _, _ => isFalse id

/-- The map is built anew for the second file, and a third one is read without the cache. -/
def partedRun : List FileCall :=
  [.call (.allocateFileCache 32 1 2 8 0), .call (.enableFileCache true), .call (.read 1 3),
    .set (ascii "the second file"), .call (.allocateFileCache 32 2 2 8 0), .call (.read 4 20),
    .set (ascii "third"), .call (.enableFileCache false), .call (.read 0 3)]

theorem readsFile_of_parted_partedRun :
    fileSystem.Keeps ReadsFile (some (ofFile (ascii "first"))) partedRun :=
  readsFile_of_parted (ascii "first") partedRun (by decide +kernel)

/-- The sizes are the same for both files. -/
def mixedRun (file : Bytes) (pos : UInt64) : List FileCall :=
  [.call (.allocateFileCache 32 1 2 8 0), .call (.enableFileCache true), .call (.read 0 3),
    .set file, .call (.allocateFileCache 32 1 2 8 0), .call (.read pos 3)]

/-- The block of the first file is read for the second one. Where the second file is longer,
the copy has a length that is negative. -/
theorem mixedRun_not_readsFile :
    ¬ fileSystem.Keeps ReadsFile (some (ofFile (ascii "first"))) (mixedRun (ascii "other") 0) ∧
      ¬ fileSystem.Keeps ReadsFile (some (ofFile (ascii "first")))
        (mixedRun (ascii "a longer file") 8) := by
  decide +kernel

end CxxFramework.Core.FileSource
