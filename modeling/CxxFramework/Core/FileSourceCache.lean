import CxxFramework.Core.FileSourceMap
import CxxFramework.Library.Transition

/-!
# Cached reads

A read through the cache gives what the plain read of the same piece gives, as long as the
pool may hold at least one block and the map could be built.

## Main definitions

* `Cached` — every block of the map holds the piece of the file it stands for.
* `FileSource.Agrees` — what a call has to give.
* `FileSource.Served` — the calls that are served.
-/

namespace CxxFramework.Core

open Buffer Transition FileSource

/-! ## Cached pieces -/

/-- The block holds the piece `k` of a file that is cut into pieces of `size` bytes. -/
structure Holds (file : Bytes) (size k : Nat) (block : FileBlockBuffer) : Prop where
  size_eq : block.fBufferSize = size
  filled : block.fBufferFillSize = (slice file (k * size) size).length
  content : slice file (k * size) size <+: block.fDataBuffer

/-- The map covers the file, and each of its blocks holds its piece. -/
structure Cached (file : Bytes) (map : FileMap) (cells : List Cell) : Prop where
  array : map.fFileMapArray = some cells
  size_pos : 0 < map.fDataBufferSize
  size_lt : map.fDataBufferSize < 2 ^ 32
  mapSize : map.fMapArraySize = file.length / map.fDataBufferSize + 1
  mapSize_lt : map.fMapArraySize < 2 ^ 28
  counted : map.fBlockPool.Counted
  linked : Linked (Holds file map.fDataBufferSize) map.fMapArraySize cells map.fBlockPool.fQueue
    map.fBlockPool.fBlocks

theorem Cached.mapped {file : Bytes} {map : FileMap} {cells : List Cell}
    (h : Cached file map cells) : Mapped (Holds file map.fDataBufferSize) map cells where
  array := h.array
  size_pos := h.size_pos
  size_lt := h.size_lt
  mapSize_pos := by
    rw [h.mapSize]
    exact Nat.succ_pos _
  mapSize_lt := h.mapSize_lt
  counted := h.counted
  linked := h.linked.mono fun _ _ _ _ _ _ hholds => ⟨hholds.size_eq, hholds⟩

theorem Mapped.cached {file : Bytes} {map : FileMap} {cells : List Cell}
    (h : Mapped (Holds file map.fDataBufferSize) map cells)
    (hsize : map.fMapArraySize = file.length / map.fDataBufferSize + 1) :
    Cached file map cells where
  array := h.array
  size_pos := h.size_pos
  size_lt := h.size_lt
  mapSize := hsize
  mapSize_lt := h.mapSize_lt
  counted := h.counted
  linked := h.linked.mono fun _ _ _ _ _ _ hfits => hfits.2

/-! ## Buffers of the map -/

namespace FileMap

variable {file : Bytes} {map : FileMap} {cells : List Cell} {k : Nat} {p : BufPtr}

/-- The block `p` stands for the piece `k`, but the piece is not read yet. -/
structure Awaits (file : Bytes) (map : FileMap) (cells : List Cell) (k : Nat) (p : BufPtr) :
    Prop where
  array : map.fFileMapArray = some cells
  cell : cells[k]? = some (.block p)
  block : ∃ block, map.fBlockPool.fBlocks p = some block ∧ block.fArrayIndex = k ∧
    block.fBufferSize = map.fDataBufferSize
  filled : ∀ block : FileBlockBuffer, block.fArrayIndex = k →
    Holds file map.fDataBufferSize k block →
    Cached file { map with fBlockPool := map.fBlockPool.setBlock p (some block) } cells

/-- What `GetBuffer` gives for the piece `k`. -/
def Gets (file : Bytes) (map : FileMap) (k : Nat) (result : Option (Bool × BufPtr × FileMap)) :
    Prop :=
  ∃ p map' cells', map.SameSizes map' ∧
    (result = some (false, p, map') ∧ Cached file map' cells' ∧
        cells'[k]? = some (.block p) ∨
      result = some (true, p, map') ∧ Awaits file map' cells' k p)

/-- `GetBuffer` finds or makes the block of every piece, if the pool may hold a block. -/
theorem getBuffer_spec (h : Cached file map cells) (hmax : map.fBlockPool.fMaxBuffers ≠ 0)
    (hk : k < map.fMapArraySize) : Gets file map k (map.getBuffer k) := by
  obtain ⟨p, map', cells', hsizes, hresult⟩ := getBuffer_finds h.mapped hmax hk
  have hmapSize : map'.fMapArraySize = file.length / map'.fDataBufferSize + 1 := by
    rw [hsizes.mapSize, hsizes.size, h.mapSize]
  rw [← hsizes.size] at hresult
  refine ⟨p, map', cells', hsizes, ?_⟩
  rcases hresult with ⟨hget, hmapped, hcell⟩ | ⟨hget, hexpects⟩
  · exact .inl ⟨hget, hmapped.cached hmapSize, hcell⟩
  · refine .inr ⟨hget, hexpects.array, hexpects.cell, hexpects.block, ?_⟩
    intro block hindex hholds
    exact (hexpects.filled block hindex hholds.size_eq hholds).cached hmapSize

end FileMap

namespace FileSource

variable {file : Bytes} {pos len : Nat}

/-! ## Reads from the disk -/

/-- One call of `read` can give whatever there is of the `len` bytes at `pos`. -/
def InFull (source : FileSource) (pos len : Nat) : Prop :=
  min len (source.fFile.length - pos) ≤ kMaxReadCount

theorem readFromPos_eq {source : FileSource} (hdisk : source.disk = []) (hpos : pos < 2 ^ 63)
    (hfull : source.InFull pos len) :
    source.readFromPos pos len =
      (⟨OS_NoErr, slice source.fFile pos len, some (slice source.fFile pos len).length⟩,
        { source with fPosition := pos + (slice source.fFile pos len).length }) := by
  have hslice : slice source.fFile pos (min len kMaxReadCount) = slice source.fFile pos len := by
    unfold InFull at hfull
    rcases Nat.lt_or_ge kMaxReadCount len with h | h
    · rw [min_eq_right h.le]
      exact slice_of_end (by omega) (by omega)
    · rw [min_eq_left h]
  have hlt : ¬ pos ≥ 2 ^ 63 := by omega
  simp only [readFromPos, readFromDisk, hlt, if_false, hslice, hdisk, List.head?_nil,
    List.tail_nil]

/-- What holds of a source between the calls, when the disk reads succeed. -/
structure Sound (source : FileSource) : Prop where
  length : source.fLength = source.fFile.length
  disk : source.disk = []
  cached : ∀ cells, source.fFileMap.fFileMapArray = some cells →
    Cached source.fFile source.fFileMap cells

/-- The source after part of a read: the file, the sizes and the limit are the same. -/
structure After (source source' : FileSource) : Prop where
  sound : Sound source'
  file : source'.fFile = source.fFile
  sizes : source.fFileMap.SameSizes source'.fFileMap
  array : source'.fFileMap.initialized

variable {source : FileSource} {k : Nat} {p : BufPtr}

theorem Sound.exists_cells (h : Sound source) (hinit : source.fFileMap.initialized) :
    ∃ cells, Cached source.fFile source.fFileMap cells := by
  obtain ⟨cells, hcells⟩ := Option.isSome_iff_exists.mp hinit
  exact ⟨cells, h.cached cells hcells⟩

/-- A block that awaits its piece holds it once it is filled. -/
theorem fillBuffer_spec (source : FileSource) {cells : List Cell}
    (hlength : source.fLength = source.fFile.length)
    (hdisk : source.disk = []) (h : source.fFileMap.Awaits source.fFile cells k p)
    (hpos : k * source.fFileMap.fDataBufferSize < 2 ^ 63)
    (hfull : source.InFull (k * source.fFileMap.fDataBufferSize)
      source.fFileMap.fDataBufferSize) :
    ∃ source' block, source.fillBuffer p k = some (OS_NoErr, source') ∧
      After source source' ∧ source'.fFileMap.blockAt k = some (p, block) ∧
      source'.fFileMap.fBlockPool.fBlocks p = some block ∧
      Holds source.fFile source.fFileMap.fDataBufferSize k block := by
  obtain ⟨old, hold, hindex, hsize⟩ := h.block
  generalize hpiece : slice source.fFile (k * source.fFileMap.fDataBufferSize)
    source.fFileMap.fDataBufferSize = piece
  have hfits : ¬ piece.length > old.fBufferSize := by
    have hlen := length_slice source.fFile (k * source.fFileMap.fDataBufferSize)
      source.fFileMap.fDataBufferSize
    rw [hpiece] at hlen
    omega
  let read : FileBlockBuffer :=
    { old with fDataBuffer := piece ++ old.fDataBuffer.drop piece.length }
  let block : FileBlockBuffer := { read with fBufferFillSize := piece.length }
  have hholds : Holds source.fFile source.fFileMap.fDataBufferSize k block :=
    { size_eq := hsize
      filled := by rw [hpiece]
      content := by
        rw [hpiece]
        exact List.prefix_append _ _ }
  have hcached := h.filled block hindex hholds
  refine ⟨{ source with
      fPosition := k * source.fFileMap.fDataBufferSize + piece.length
      fFileMap := { source.fFileMap with
        fBlockPool := source.fFileMap.fBlockPool.setBlock p (some block) } },
    block, ?_, ⟨⟨hlength, hdisk, ?_⟩, rfl, ⟨rfl, rfl, rfl⟩, ?_⟩, ?_, ?_, hholds⟩
  · have hat : FileMap.blockAt { source.fFileMap with
        fBlockPool := source.fFileMap.fBlockPool.setBlock p (some read) } k = some (p, read) :=
      FileMap.blockAt_eq { source.fFileMap with
        fBlockPool := source.fFileMap.fBlockPool.setBlock p (some read) } h.array h.cell
        (Function.update_self _ _ _)
    simp only [fillBuffer, readFromPos_eq hdisk hpos hfull, hpiece, hold, Option.bind_eq_bind,
      Option.bind_some, hfits, if_false]
    rw [hat]
    simp [FileBlockPool.setBlock, block, read]
  · intro cells' hcells'
    cases h.array.symm.trans hcells'
    exact hcached
  · simp [FileMap.initialized, h.array]
  · exact FileMap.blockAt_eq { source.fFileMap with
      fBlockPool := source.fFileMap.fBlockPool.setBlock p (some block) } h.array h.cell
      (Function.update_self _ _ _)
  · exact Function.update_self _ _ _

/-- The head of a round leaves the piece in its block. -/
theorem loadBuffer_spec (h : Sound source) (hinit : source.fFileMap.initialized)
    (hmax : source.fFileMap.fBlockPool.fMaxBuffers ≠ 0) (hk : k < source.fFileMap.fMapArraySize)
    (hpos : k * source.fFileMap.fDataBufferSize < 2 ^ 63)
    (hfull : source.InFull (k * source.fFileMap.fDataBufferSize)
      source.fFileMap.fDataBufferSize) :
    ∃ p source' block, source.loadBuffer k = some (OS_NoErr, p, source') ∧
      After source source' ∧ source'.fFileMap.blockAt k = some (p, block) ∧
      source'.fFileMap.fBlockPool.fBlocks p = some block ∧
      Holds source.fFile source.fFileMap.fDataBufferSize k block := by
  obtain ⟨cells, hcached⟩ := h.exists_cells hinit
  obtain ⟨p, map, cells', hsizes, ⟨hget, hcached', hcell⟩ | ⟨hget, hawaits⟩⟩ :=
    FileMap.getBuffer_spec hcached hmax hk
  · have hk' : k < map.fMapArraySize := hsizes.mapSize ▸ hk
    obtain ⟨-, block, hblock, -, hholds⟩ := hcached'.linked.owned k hk' p hcell
    refine ⟨p, { source with fFileMap := map }, block, ?_,
      ⟨⟨h.length, h.disk, ?_⟩, rfl, hsizes, ?_⟩,
      FileMap.blockAt_eq _ hcached'.array hcell hblock, hblock, hsizes.size ▸ hholds⟩
    · simp [loadBuffer, hget]
    · intro cells'' hcells''
      cases hcached'.array.symm.trans hcells''
      exact hcached'
    · simp [FileMap.initialized, hcached'.array]
  · obtain ⟨source', block, hfill, hafter, hat, hblock, hholds⟩ :=
      fillBuffer_spec { source with fFileMap := map } h.length h.disk hawaits
        (by rwa [hsizes.size]) (by rwa [hsizes.size])
    refine ⟨p, source', block, ?_, ⟨hafter.sound, hafter.file, hsizes.trans hafter.sizes,
      hafter.array⟩, hat, hblock, hsizes.size ▸ hholds⟩
    simp [loadBuffer, hget, hfill]

/-! ## The copy loop -/

theorem copyOut_eq {buffer : Bytes} {buffPos n : Nat} (hn : n < 2 ^ 32)
    (hle : buffPos + n ≤ buffer.length) :
    copyOut buffer buffPos n = some (slice buffer buffPos n) := by
  have hmod : ((n : Int) % 2 ^ 32).toNat = n := by omega
  simp only [copyOut, hmod, if_pos hle]

/-- One round: the copy of what is left in the piece `k`. -/
theorem copyLoop_round (E M rounds : Nat) {buffPos : Nat} (b : Nat) (out : Bytes) (r : Nat)
    (h : Sound source)
    (hinit : source.fFileMap.initialized) (hmax : source.fFileMap.fBlockPool.fMaxBuffers ≠ 0)
    (hk : k < source.fFileMap.fMapArraySize) (hkE : k ≤ E) (hkM : k ≤ M)
    (hpos : k * source.fFileMap.fDataBufferSize < 2 ^ 63)
    (hfull : source.InFull (k * source.fFileMap.fDataBufferSize)
      source.fFileMap.fDataBufferSize)
    (hsize : source.fFileMap.fDataBufferSize < 2 ^ 32) {fill : Nat}
    (hfill : fill = (slice source.fFile (k * source.fFileMap.fDataBufferSize)
      source.fFileMap.fDataBufferSize).length)
    (hbuffPos : buffPos ≤ fill) :
    ∃ source', After source source' ∧
      copyLoop E M (rounds + 1) source k buffPos b out r =
        if buffPos = 0 ∧ b ≤ source.fFileMap.fDataBufferSize ∧ fill < b then
          some (⟨OS_NoErr,
            out ++ slice source.fFile (k * source.fFileMap.fDataBufferSize) fill,
            some ((r + fill) % 2 ^ 32)⟩, source')
        else
          copyLoop E M rounds source' (k + 1) 0 (b - min b (fill - buffPos) : Nat)
            (out ++ slice source.fFile (k * source.fFileMap.fDataBufferSize + buffPos)
              (min b (fill - buffPos)))
            ((r + min b (fill - buffPos)) % 2 ^ 32) := by
  obtain ⟨p, source', block, hload, hafter, hat, hblock, hholds⟩ :=
    loadBuffer_spec h hinit hmax hk hpos hfull
  have hfilled : block.fBufferFillSize = fill := hholds.filled.trans hfill.symm
  have hfill_le : fill ≤ source.fFileMap.fDataBufferSize := by
    rw [hfill, length_slice]
    exact min_le_left _ _
  have hfill_data : fill ≤ block.fDataBuffer.length := hfill ▸ hholds.content.length_le
  refine ⟨source', hafter, ?_⟩
  have hnoerr : ¬ OS_NoErr ≠ OS_NoErr := fun h => h rfl
  rw [copyLoop, if_pos ⟨hkE, hkM⟩]
  simp only [hload, Option.bind_eq_bind, Option.bind_some, hnoerr, if_false, hat, hblock, hfilled,
    Int.ofNat_le, Int.ofNat_lt]
  split
  next heof =>
    obtain ⟨rfl, -, -⟩ := heof
    rw [copyOut_eq (by omega) (by omega), slice_of_prefix hholds.content (by omega)]
    simp only [Option.bind_some, length_slice, Nat.add_zero, pure]
    rw [length_slice] at hfill
    rw [min_eq_left (by omega)]
  next =>
    have hcopy : (if (b : Int) ≥ (fill : Int) - buffPos then (fill : Int) - buffPos else b) =
        (min b (fill - buffPos) : Nat) := by
      split <;> omega
    have hrest : (b : Int) - (min b (fill - buffPos) : Nat) =
        (b - min b (fill - buffPos) : Nat) := by
      omega
    rw [hcopy, hrest, if_neg (by omega), copyOut_eq (by omega) (by omega),
      slice_of_prefix hholds.content (by omega)]
    simp only [Option.bind_some, length_slice]
    rw [length_slice] at hfill
    rw [min_eq_left (a := min b (fill - buffPos)) (by omega)]

/-- The last round copies what is asked for, or all that is there. -/
theorem last_slice {start fill buffPos b : Nat} {size : Nat}
    (hfill : fill = (slice file start size).length) (hbuffPos : buffPos ≤ fill)
    (hlast : buffPos + b < size) :
    slice file (start + buffPos) (min b (fill - buffPos)) = slice file (start + buffPos) b := by
  rw [length_slice] at hfill
  rcases Nat.lt_or_ge (fill - buffPos) b with h | h
  · rw [min_eq_right h.le]
    exact slice_of_end (by omega) (by omega)
  · rw [min_eq_left h]

/-- The loop copies the slice, by induction on the number of pieces after the first one. -/
theorem copyLoop_spec {E M : Nat} (n : Nat) (buffPos b r : Nat) (out : Bytes) (h : Sound source)
    (hinit : source.fFileMap.initialized) (hmax : source.fFileMap.fBlockPool.fMaxBuffers ≠ 0)
    (hE : E = k + n) (hEM : E ≤ M) (hM : M + 1 = source.fFileMap.fMapArraySize)
    (hfirst : E * source.fFileMap.fDataBufferSize ≤
      k * source.fFileMap.fDataBufferSize + buffPos + b)
    (hlast : k * source.fFileMap.fDataBufferSize + buffPos + b <
      (E + 1) * source.fFileMap.fDataBufferSize)
    (hpos : k * source.fFileMap.fDataBufferSize + buffPos + b < 2 ^ 63)
    (hfull : source.InFull (k * source.fFileMap.fDataBufferSize)
      source.fFileMap.fDataBufferSize)
    (hbuffPos : buffPos ≤ (slice source.fFile (k * source.fFileMap.fDataBufferSize)
      source.fFileMap.fDataBufferSize).length)
    (hr : r + b < 2 ^ 32) :
    ∃ source', After source source' ∧
      copyLoop E M (n + 1) source k buffPos b out r =
        some (⟨OS_NoErr,
          out ++ slice source.fFile (k * source.fFileMap.fDataBufferSize + buffPos) b,
          some (r + (slice source.fFile (k * source.fFileMap.fDataBufferSize + buffPos)
            b).length)⟩, source') := by
  obtain ⟨cells, hcached⟩ := h.exists_cells hinit
  have hsize := hcached.size_lt
  have hmapSize := hcached.mapSize
  clear hcached
  induction n generalizing source k buffPos b r out with
  | zero =>
    obtain rfl : E = k := hE
    rw [Nat.succ_mul] at hlast
    obtain ⟨source', hafter, hround⟩ := copyLoop_round E M 0 b out r h hinit hmax (by omega)
      le_rfl hEM (by omega) hfull hsize rfl hbuffPos
    refine ⟨source', hafter, ?_⟩
    rw [hround]
    generalize E * source.fFileMap.fDataBufferSize = start at *
    have hslice := last_slice (b := b) rfl hbuffPos (by omega)
    simp only [length_slice] at hbuffPos hslice ⊢
    split
    next heof =>
      obtain ⟨rfl, -, hshort⟩ := heof
      have hlen : min source.fFileMap.fDataBufferSize (source.fFile.length - start) =
          min b (source.fFile.length - (start + 0)) := by omega
      rw [Nat.mod_eq_of_lt (by omega), slice_of_end (b := b) (by omega) (by omega), hlen,
        Nat.add_zero]
    next =>
      have hlen : min b (min source.fFileMap.fDataBufferSize (source.fFile.length - start) -
          buffPos) = min b (source.fFile.length - (start + buffPos)) := by omega
      rw [hslice, Nat.mod_eq_of_lt (by omega), copyLoop, hlen]
  | succ n ih =>
    have hkL : (k + 1) * source.fFileMap.fDataBufferSize ≤ source.fFile.length := by
      have hle : k + 1 ≤ source.fFile.length / source.fFileMap.fDataBufferSize := by omega
      exact (Nat.mul_le_mul_right _ hle).trans (Nat.div_mul_le_self _ _)
    have hkE : (k + 1) * source.fFileMap.fDataBufferSize ≤
        E * source.fFileMap.fDataBufferSize := Nat.mul_le_mul_right _ (by omega)
    rw [Nat.succ_mul k] at hkL hkE
    obtain ⟨source', hafter, hround⟩ := copyLoop_round E M (n + 1) b out r h hinit hmax
      (by omega) (by omega) (by omega) (by omega) hfull hsize rfl hbuffPos
    rw [hround]
    have hsizes := hafter.sizes.size
    have hfile := hafter.file
    have hnext : (k + 1) * source.fFileMap.fDataBufferSize =
        k * source.fFileMap.fDataBufferSize + source.fFileMap.fDataBufferSize := Nat.succ_mul k _
    unfold InFull at hfull
    rw [length_slice] at hbuffPos ⊢
    generalize hS : source.fFileMap.fDataBufferSize = size at *
    have hpiece : min size (source.fFile.length - k * size) = size := by omega
    rw [hpiece] at hbuffPos ⊢
    have hcopy : min b (size - buffPos) = size - buffPos := by omega
    rw [hcopy, if_neg (by omega)]
    obtain ⟨source'', hafter', hrest⟩ := @ih source' (k + 1) 0
      (b - (size - buffPos)) (r + (size - buffPos))
      (out ++ slice source.fFile (k * size + buffPos) (size - buffPos)) hafter.sound
      hafter.array (by rwa [hafter.sizes.limit]) (by omega) (by rwa [hafter.sizes.mapSize])
      (by rw [hsizes]; omega) (by rw [hsizes]; omega) (by rw [hsizes]; omega)
      (by unfold InFull; rw [hsizes, hfile]; omega) (Nat.zero_le _) (by omega)
      (by rw [hsizes]; exact hsize)
      (by rw [hafter.sizes.mapSize, hsizes, hfile]; exact hmapSize)
    refine ⟨source'', ⟨hafter'.sound, hafter'.file.trans hfile, hafter.sizes.trans hafter'.sizes,
      hafter'.array⟩, ?_⟩
    rw [Nat.mod_eq_of_lt (by omega), hrest]
    have hsplit : slice source.fFile (k * size + buffPos) b =
        slice source.fFile (k * size + buffPos) (size - buffPos) ++
          slice source.fFile ((k + 1) * size + 0) (b - (size - buffPos)) := by
      rw [slice_split source.fFile (k * size + buffPos) (show size - buffPos ≤ b by omega),
        show k * size + buffPos + (size - buffPos) = (k + 1) * size + 0 by omega]
    have hlen : (slice source.fFile (k * size + buffPos) (size - buffPos)).length =
        size - buffPos := by
      rw [length_slice]
      omega
    rw [hsplit, hsizes, hfile, List.append_assoc, List.length_append, hlen, Nat.add_assoc]

/-! ## Reads -/

/-- The arguments of a read are in range, and the disk reads it leads to succeed in full:
the plain one and, if the cache is read, that of its first piece. -/
def Readable (source : FileSource) (pos len : Nat) : Prop :=
  pos + len < 2 ^ 63 ∧ source.InFull pos len ∧
    (source.readsCache pos len = true →
      source.InFull (source.fFileMap.getBuffOffset (source.fFileMap.getBuffIndex pos))
        source.fFileMap.fDataBufferSize)

theorem readFromCache_spec (h : Sound source) (hinit : source.fFileMap.initialized)
    (hmax : pos < source.fLength → source.fFileMap.fBlockPool.fMaxBuffers ≠ 0)
    (hpos : pos + len < 2 ^ 63) (hlen : len < 2 ^ 32)
    (hreach : source.fFileMap.getBuffIndex (pos + len) ≤ source.fFileMap.getMaxBuffIndex)
    (hfull : source.InFull (source.fFileMap.getBuffOffset (source.fFileMap.getBuffIndex pos))
      source.fFileMap.fDataBufferSize) :
    ∃ source', source.readFromCache pos len =
        some (⟨OS_NoErr, slice source.fFile pos len, some (slice source.fFile pos len).length⟩,
          source') ∧
      Sound source' := by
  unfold readFromCache
  split
  next heof =>
    rw [h.length] at heof
    have hnil : slice source.fFile pos len = [] := by
      rw [slice, List.drop_of_length_le heof, List.take_nil]
    exact ⟨source, by rw [hnil]; rfl, h⟩
  next hin =>
    obtain ⟨cells, hcached⟩ := h.exists_cells hinit
    have hsize := hcached.size_pos
    have hmapSize := hcached.mapSize
    have hlength := h.length
    rw [Nat.mod_eq_of_lt (by omega)]
    have hin_map : ¬ (source.fFileMap.getBuffIndex pos > source.fFileMap.getBuffIndex (pos + len) ∨
        source.fFileMap.getBuffIndex (pos + len) > source.fFileMap.getMaxBuffIndex) := by
      rw [not_or, not_lt, not_lt]
      exact ⟨Nat.div_le_div_right (by omega), hreach⟩
    simp only [if_neg hin_map]
    simp only [FileMap.getBuffIndex, FileMap.getBuffOffset, FileMap.getMaxBuffIndex] at *
    have hle : pos / source.fFileMap.fDataBufferSize ≤
        (pos + len) / source.fFileMap.fDataBufferSize := Nat.div_le_div_right (by omega)
    have hk := Nat.div_add_mod' pos source.fFileMap.fDataBufferSize
    have hk' := Nat.mod_lt pos hsize
    have hE := Nat.div_add_mod' (pos + len) source.fFileMap.fDataBufferSize
    have hE' := Nat.mod_lt (pos + len) hsize
    obtain ⟨source', hafter, hloop⟩ := copyLoop_spec
      ((pos + len) / source.fFileMap.fDataBufferSize - pos / source.fFileMap.fDataBufferSize)
      (pos - pos / source.fFileMap.fDataBufferSize * source.fFileMap.fDataBufferSize)
      len 0 [] h hinit (hmax (by omega)) (Nat.add_sub_cancel' hle).symm hreach
      (Nat.sub_add_cancel (by rw [hmapSize]; exact Nat.succ_pos _)) (by omega)
      (by rw [Nat.succ_mul]; omega) (by omega) hfull
      (by rw [length_slice]; omega) (by omega)
    refine ⟨source', ?_, hafter.sound⟩
    have hrounds : (pos + len) / source.fFileMap.fDataBufferSize + 1 -
        pos / source.fFileMap.fDataBufferSize =
        (pos + len) / source.fFileMap.fDataBufferSize -
          pos / source.fFileMap.fDataBufferSize + 1 := by omega
    have hstart : pos / source.fFileMap.fDataBufferSize * source.fFileMap.fDataBufferSize +
        (pos - pos / source.fFileMap.fDataBufferSize * source.fFileMap.fDataBufferSize) = pos := by
      omega
    rw [hrounds, hloop, hstart, List.nil_append, Nat.zero_add]

/-- A read gives what the plain read gives. -/
theorem read_spec (h : Sound source) (hread : source.Readable pos len) (hlen : len < 2 ^ 32)
    (hmax : source.readsCache pos len = true → pos < source.fLength →
      source.fFileMap.fBlockPool.fMaxBuffers ≠ 0) :
    ∃ source', source.read pos len = some ((source.readFromPos pos len).1, source') ∧
      Sound source' := by
  obtain ⟨hpos, hfull, hpiece⟩ := hread
  have hplain := readFromPos_eq h.disk (by omega) hfull
  unfold read
  split
  next hcache =>
    have hcache' := hcache
    simp only [readsCache, Bool.and_eq_true, decide_eq_true_eq] at hcache'
    obtain ⟨⟨hinit, -⟩, hreach⟩ := hcache'
    rw [Nat.mod_eq_of_lt (by omega)] at hreach
    obtain ⟨source', hread, hsound⟩ := readFromCache_spec h hinit (hmax hcache) hpos hlen hreach
      (hpiece hcache)
    exact ⟨source', by rw [hread, hplain], hsound⟩
  next =>
    refine ⟨(source.readFromPos pos len).2, rfl, ?_⟩
    rw [hplain]
    exact ⟨h.length, h.disk, h.cached⟩

/-! ## Allocation -/

/-- The buffer size comes out as a nonzero 32-bit number, and the map takes less than
`2 ^ 31` bytes. -/
def BuildsMap (source : FileSource) (inUnitSizeInK inNumBuffSizeUnits
    inMaxBitRateBuffSizeInBlocks inBitRate : Nat) : Prop :=
  match FileMap.buffSizeUnits (max 1 inUnitSizeInK * 1024 % 2 ^ 32) inNumBuffSizeUnits
    inMaxBitRateBuffSizeInBlocks inBitRate with
  | none => False
  | some units =>
    kBufferUnitSize * units % 2 ^ 32 ≠ 0 ∧
      source.fLength / (kBufferUnitSize * units % 2 ^ 32) + 1 < 2 ^ 28

/-- The call is for the map that is there. -/
def KeepsMap (source : FileSource) (inNumBuffSizeUnits inBufferIncCount : Nat) : Prop :=
  source.fFileMap.initialized ∧ source.fFileMap.fNumBuffSizeUnits = inNumBuffSizeUnits ∧
    inBufferIncCount = source.fFileMap.fBlockPool.fMaxBuffers

/-- `Clean` reaches every entry but the last. -/
theorem clean_spec {map : FileMap} (hm : map.fMapArraySize < 2 ^ 28)
    (harray : map.fFileMapArray = some (List.replicate (map.fMapArraySize + 1) .unset)) :
    map.clean = some { map with
      fFileMapArray := some (List.replicate map.fMapArraySize .null ++ [.unset]) } := by
  have hid : toSInt32 (8 * map.fMapArraySize) = (8 * map.fMapArraySize : Nat) := by
    unfold toSInt32
    rw [Int.bmod_eq_of_le] <;> omega
  have hdiv : 8 * map.fMapArraySize / 8 = map.fMapArraySize := by omega
  simp only [FileMap.clean, harray, Option.bind_eq_bind, Option.bind_some, hid, Int.toNat_natCast,
    hdiv, List.length_replicate, List.drop_replicate]
  rw [if_pos (by omega), show map.fMapArraySize + 1 - map.fMapArraySize = 1 by omega]
  rfl

theorem newMap_spec {pool : FileBlockPool} {size units fileLen : Nat}
    (hqueue : pool.fQueue = []) (hnum : pool.fNumCurrentBuffers = 0) (hsize : size ≠ 0)
    (hsize_lt : size < 2 ^ 32) (hlen : fileLen = file.length) (hm : fileLen / size + 1 < 2 ^ 28) :
    ∃ map, FileMap.newMap pool size units fileLen = some map ∧
      ∀ cells, map.fFileMapArray = some cells → Cached file map cells := by
  generalize hcount : fileLen / size = count at hm
  have hentries : toSInt32 (count + 1 + 1) = (count + 1 + 1 : Nat) := by
    unfold toSInt32
    rw [Int.bmod_eq_of_le] <;> omega
  have hpos : ¬ ((count + 1 + 1 : Nat) : Int) < 0 := by omega
  unfold FileMap.newMap
  rw [if_neg hsize]
  simp only [hcount, hentries, if_neg hpos, Int.toNat_natCast]
  refine ⟨_, clean_spec hm rfl, fun cells hcells => ?_⟩
  obtain rfl : List.replicate (count + 1) Cell.null ++ [Cell.unset] = cells := Option.some.inj hcells
  exact
    { array := rfl
      size_pos := Nat.pos_of_ne_zero hsize
      size_lt := hsize_lt
      mapSize := by rw [← hlen, hcount]
      mapSize_lt := hm
      counted := ⟨by rw [hqueue, hnum]; rfl, by simp [hqueue]⟩
      linked := by
        rw [hqueue]
        refine .of_null fun k hk => ?_
        rw [List.getElem?_append_left (by simpa using hk), List.getElem?_replicate, if_pos hk] }

/-- The pool that goes with a new map has no blocks. -/
theorem resetPool_empty (pool : FileBlockPool) (inBufferIncCount : Nat) :
    (((pool.deleteBlockPool).setMaxBuffers inBufferIncCount).setBuffIncValue
        inBufferIncCount).fQueue = [] ∧
      (((pool.deleteBlockPool).setMaxBuffers inBufferIncCount).setBuffIncValue
        inBufferIncCount).fNumCurrentBuffers = 0 := by
  by_cases h : inBufferIncCount > 0 <;>
    simp [FileBlockPool.setBuffIncValue, FileBlockPool.setMaxBuffers,
      FileBlockPool.deleteBlockPool, h]

/-- The map is the one that was there, or one without blocks. -/
theorem allocateBufferMap_builds (hlength : source.fLength = source.fFile.length)
    {inUnitSizeInK inNumBuffSizeUnits inBufferIncCount inMaxBitRateBuffSizeInBlocks
      inBitRate : Nat}
    (hargs : source.KeepsMap inNumBuffSizeUnits inBufferIncCount ∨
      source.BuildsMap inUnitSizeInK inNumBuffSizeUnits inMaxBitRateBuffSizeInBlocks inBitRate) :
    ∃ map, source.fFileMap.allocateBufferMap inUnitSizeInK inNumBuffSizeUnits inBufferIncCount
        inMaxBitRateBuffSizeInBlocks source.fLength inBitRate = some map ∧
      (source.KeepsMap inNumBuffSizeUnits inBufferIncCount ∧ map = source.fFileMap ∨
        ∀ cells, map.fFileMapArray = some cells → Cached source.fFile map cells) := by
  unfold FileMap.allocateBufferMap
  by_cases hkeeps : source.KeepsMap inNumBuffSizeUnits inBufferIncCount
  · rw [if_pos ⟨hkeeps.1, hkeeps.2.1, hkeeps.2.2⟩]
    exact ⟨source.fFileMap, rfl, .inl ⟨hkeeps, rfl⟩⟩
  · have hbuilds := hargs.resolve_left hkeeps
    unfold BuildsMap at hbuilds
    split at hbuilds
    next => exact hbuilds.elim
    next units hunits =>
      obtain ⟨hsize, hm⟩ := hbuilds
      rw [if_neg fun hk => hkeeps ⟨hk.1, hk.2.1, hk.2.2⟩]
      simp only [FileBlockPool.setBufferUnitSize, hunits, Option.bind_eq_bind, Option.bind_some]
      obtain ⟨hqueue, hnum⟩ := resetPool_empty
        { source.fFileMap.fBlockPool with
          fBufferUnitSizeBytes := max 1 inUnitSizeInK * 1024 % 2 ^ 32 } inBufferIncCount
      obtain ⟨map, hmap, hcached⟩ := newMap_spec hqueue hnum hsize
        (Nat.mod_lt _ (by decide)) hlength hm
      exact ⟨map, hmap, .inr hcached⟩

theorem allocateBufferMap_spec (h : Sound source) {inUnitSizeInK inNumBuffSizeUnits
      inBufferIncCount inMaxBitRateBuffSizeInBlocks inBitRate : Nat}
    (hargs : source.KeepsMap inNumBuffSizeUnits inBufferIncCount ∨
      source.BuildsMap inUnitSizeInK inNumBuffSizeUnits inMaxBitRateBuffSizeInBlocks inBitRate) :
    ∃ map, source.fFileMap.allocateBufferMap inUnitSizeInK inNumBuffSizeUnits inBufferIncCount
        inMaxBitRateBuffSizeInBlocks source.fLength inBitRate = some map ∧
      Sound { source with fFileMap := map } := by
  obtain ⟨map, hmap, ⟨-, rfl⟩ | hcached⟩ := allocateBufferMap_builds h.length hargs
  · exact ⟨source.fFileMap, hmap, h⟩
  · exact ⟨map, hmap, h.length, h.disk, hcached⟩

/-! ## Runs -/

/-- Calls on a source, until one of them fails. -/
abbrev system : System (Option FileSource) Call :=
  .ofPartial (fun state => ∃ file, state = some (ofFile file))
    fun state call => some (state.bind fun source => (source.step call).map Prod.snd)

/-- The call does not fail, and a read gives what the plain read of the same piece gives. -/
def Agrees : Option FileSource → Call → Option FileSource → Prop
  | some source, .read inPosition inLength, some _ =>
    (source.read inPosition.toNat inLength.toNat).map Prod.fst =
      some (source.readFromPos inPosition.toNat inLength.toNat).1
  | some _, _, some _ => True
  | _, _, _ => False

/-- The arguments of a call are in range: the size of a buffer fits 32 bits, a position ends
below `2 ^ 63`, and the disk reads succeed in full. -/
def Allowed : Option FileSource → Call → Prop
  | some _, .allocateFileCache inUnitSizeInK bufferSizeUnits _ _ _ =>
    max 1 inUnitSizeInK.toNat * 1024 * max 1 bufferSizeUnits.toNat < 2 ^ 32
  | some source, .read inPosition inLength =>
    source.Readable inPosition.toNat inLength.toNat
  | _, _ => True

/-- The calls that are served: the map can be built, and the pool may hold a block when a
read comes to it. -/
def Served : Option FileSource → Call → Prop
  | some source, .allocateFileCache inUnitSizeInK bufferSizeUnits incBuffers
      inMaxBitRateBuffSizeInBlocks inBitRate =>
    source.KeepsMap bufferSizeUnits.toNat incBuffers.toNat ∨
      source.BuildsMap inUnitSizeInK.toNat bufferSizeUnits.toNat
        inMaxBitRateBuffSizeInBlocks.toNat inBitRate.toNat
  | some source, .read inPosition inLength =>
    source.Readable inPosition.toNat inLength.toNat ∧
      (source.readsCache inPosition.toNat inLength.toNat = true →
        inPosition.toNat < source.fLength → source.fFileMap.fBlockPool.fMaxBuffers ≠ 0)
  | _, _ => True

theorem sound_ofFile (file : Bytes) : Sound (ofFile file) where
  length := rfl
  disk := rfl
  cached _ hcells := by cases hcells

/-- The limit of the pool may change at any time. -/
theorem Sound.withLimit (h : Sound source) (limit : Nat) :
    Sound (source.withPool { source.fFileMap.fBlockPool with fMaxBuffers := limit }) where
  length := h.length
  disk := h.disk
  cached cells hcells :=
    have hcached := h.cached cells hcells
    { array := hcached.array
      size_pos := hcached.size_pos
      size_lt := hcached.size_lt
      mapSize := hcached.mapSize
      mapSize_lt := hcached.mapSize_lt
      counted := ⟨hcached.counted.count, hcached.counted.fresh⟩
      linked := hcached.linked }

/-- A call that is served agrees, and leaves the source sound. -/
theorem step_sound (h : Sound source) {call : Call} {state : Option FileSource}
    (hstep : system.step (some source) call state) (hserved : Served (some source) call) :
    Agrees (some source) call state ∧ ∃ source', state = some source' ∧ Sound source' := by
  obtain rfl : (source.step call).map Prod.snd = state := Option.some.inj hstep
  cases call with
  | allocateFileCache inUnitSizeInK bufferSizeUnits incBuffers inMaxBlocks inBitRate =>
    obtain ⟨map, hmap, hsound⟩ := allocateBufferMap_spec h hserved
    simp only [step, hmap, Option.bind_eq_bind, Option.bind_some, pure, Option.map_some]
    exact ⟨trivial, _, rfl, hsound⟩
  | enableFileCache enabled =>
    exact ⟨trivial, _, rfl, h.length, h.disk, h.cached⟩
  | incMaxBuffers => exact ⟨trivial, _, rfl, h.withLimit _⟩
  | decMaxBuffers =>
    refine ⟨trivial, _, rfl, ?_⟩
    unfold FileBlockPool.decMaxBuffers
    split
    · exact h.withLimit _
    · exact h
  | read inPosition inLength =>
    obtain ⟨hread, hmax⟩ := hserved
    obtain ⟨source', hresult, hsound⟩ := read_spec h hread inLength.toNat_lt hmax
    simp only [step, hresult, Option.bind_eq_bind, Option.bind_some, pure, Option.map_some]
    refine ⟨?_, _, rfl, hsound⟩
    simp only [Agrees, hresult, Option.map_some]

/-- In a run from a sound source, every read gives what the plain read gives, if the calls
are served. -/
theorem Sound.agrees (hsound : Sound source) {calls : List Call}
    (h : system.Meets Served (some source) calls) : system.Keeps Agrees (some source) calls := by
  refine System.Meets.keeps (fun state => ∃ source, state = some source ∧ Sound source) ?_
    ⟨_, rfl, hsound⟩ h
  rintro state call next ⟨source, rfl, hsound⟩ hstep hserved
  exact step_sound hsound hstep hserved

/-- In a run whose calls are all served, every read gives what the plain read gives. -/
theorem agrees_of_served (file : Bytes) (calls : List Call)
    (h : system.Meets Served (some (ofFile file)) calls) :
    system.Keeps Agrees (some (ofFile file)) calls :=
  (sound_ofFile file).agrees h

/-! ## Two runs -/

instance (source : FileSource) (pos len : Nat) : Decidable (source.InFull pos len) :=
  inferInstanceAs (Decidable (_ ≤ _))

instance (source : FileSource) (pos len : Nat) : Decidable (source.Readable pos len) :=
  inferInstanceAs (Decidable (_ ∧ _ ∧ _))

instance (source : FileSource) (inUnitSizeInK inNumBuffSizeUnits inMaxBlocks inBitRate : Nat) :
    Decidable (source.BuildsMap inUnitSizeInK inNumBuffSizeUnits inMaxBlocks inBitRate) := by
  unfold BuildsMap
  split <;> infer_instance

instance (source : FileSource) (inNumBuffSizeUnits inBufferIncCount : Nat) :
    Decidable (source.KeepsMap inNumBuffSizeUnits inBufferIncCount) :=
  inferInstanceAs (Decidable (_ ∧ _ ∧ _))

instance : (state : Option FileSource) → (call : Call) → Decidable (Allowed state call)
  | some _, .allocateFileCache _ _ _ _ _ => inferInstanceAs (Decidable (_ < _))
  | some source, .read inPosition inLength =>
    inferInstanceAs (Decidable (source.Readable inPosition.toNat inLength.toNat))
  | some _, .enableFileCache _ => isTrue trivial
  | some _, .incMaxBuffers => isTrue trivial
  | some _, .decMaxBuffers => isTrue trivial
  | none, _ => isTrue trivial

instance : (state : Option FileSource) → (call : Call) → Decidable (Served state call)
  | some source, .allocateFileCache inUnitSizeInK bufferSizeUnits incBuffers inMaxBlocks
      inBitRate =>
    inferInstanceAs (Decidable (source.KeepsMap bufferSizeUnits.toNat incBuffers.toNat ∨
      source.BuildsMap inUnitSizeInK.toNat bufferSizeUnits.toNat inMaxBlocks.toNat
        inBitRate.toNat))
  | some source, .read inPosition inLength =>
    inferInstanceAs (Decidable (source.Readable inPosition.toNat inLength.toNat ∧ (_ → _ → _)))
  | some _, .enableFileCache _ => isTrue trivial
  | some _, .incMaxBuffers => isTrue trivial
  | some _, .decMaxBuffers => isTrue trivial
  | none, _ => isTrue trivial

instance : (state : Option FileSource) → (call : Call) → (state' : Option FileSource) →
    Decidable (Agrees state call state')
  | some source, .read inPosition inLength, some _ =>
    inferInstanceAs (Decidable ((source.read inPosition.toNat inLength.toNat).map Prod.fst =
      some (source.readFromPos inPosition.toNat inLength.toNat).1))
  | some _, .allocateFileCache _ _ _ _ _, some _ => isTrue trivial
  | some _, .enableFileCache _, some _ => isTrue trivial
  | some _, .incMaxBuffers, some _ => isTrue trivial
  | some _, .decMaxBuffers, some _ => isTrue trivial
  | some _, .allocateFileCache _ _ _ _ _, none => isFalse id
  | some _, .enableFileCache _, none => isFalse id
  | some _, .incMaxBuffers, none => isFalse id
  | some _, .decMaxBuffers, none => isFalse id
  | some _, .read _ _, none => isFalse id
  | none, _, _ => isFalse id

/-- Reads inside the file, over its end and past it, with changes of the limit. -/
def servedRun : List Call :=
  [.allocateFileCache 32 0 2 8 32768, .enableFileCache true, .read 1 3, .incMaxBuffers,
    .read 0 40, .decMaxBuffers, .decMaxBuffers, .read 7 1, .allocateFileCache 1 2 1 0 0,
    .read 2 2]

theorem agrees_of_served_servedRun :
    system.Keeps Agrees (some (ofFile (ascii "served"))) servedRun :=
  agrees_of_served (ascii "served") servedRun (by decide +kernel)

/-- The limit wraps around to zero, and the next read asks for a block. -/
def wrappedRun : List Call :=
  [.allocateFileCache 32 0 0x80000000 8 32768, .enableFileCache true, .incMaxBuffers,
    .read 0 1]

theorem wrappedRun_not_agrees :
    system.Meets Allowed (some (ofFile (ascii "served"))) wrappedRun ∧
      ¬ system.Keeps Agrees (some (ofFile (ascii "served"))) wrappedRun := by
  decide +kernel

end FileSource

end CxxFramework.Core
