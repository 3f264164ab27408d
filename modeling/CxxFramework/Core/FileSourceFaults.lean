import CxxFramework.Core.FileSourceCache

/-!
# Cached reads and disk errors

A block is entered in the map before it is filled. When the disk read fails or comes short,
the block stays there with what it has, and a later read of the same piece takes it for a
filled one. A read that finds its blocks filled as far as it goes gives what the plain read
gives, whatever has become of the disk reads before.

## Main definitions

* `FileSource.Ready` — map, queue and buffers are in order.
* `FileSource.gather` — what the loop of `ReadFromCache` copies out of whole pieces.
* `FileSource.Intact` — the blocks that the loop comes to are filled as far as it goes.
* `FileSource.Survives` — what a call has to give when disk reads may fail.
-/

namespace CxxFramework.Core

open Buffer Transition

/-- What a block has of its piece. -/
def FileBlockBuffer.filled (block : FileBlockBuffer) : Bytes :=
  block.fDataBuffer.take block.fBufferFillSize

/-- A block is filled inside its buffer, with bytes that have been written. -/
structure FileBlockBuffer.Usable (size : Nat) (block : FileBlockBuffer) : Prop where
  fill_le : block.fBufferFillSize ≤ size
  written : block.fBufferFillSize ≤ block.fDataBuffer.length

theorem FileBlockBuffer.Usable.length_filled {size : Nat} {block : FileBlockBuffer}
    (h : block.Usable size) : block.filled.length = block.fBufferFillSize :=
  List.length_take_of_le h.written

theorem Holds.usable {file : Bytes} {size k : Nat} {block : FileBlockBuffer}
    (h : Holds file size k block) : block.Usable size where
  fill_le := by
    rw [h.filled, length_slice]
    exact min_le_left _ _
  written := by
    rw [h.filled]
    exact h.content.length_le

namespace FileSource

variable {source source' : FileSource} {k pos len : Nat} {p : BufPtr}

/-! ## Disk reads -/

/-- The error and the bytes of a disk read that would give `wanted`. -/
def outcome (wanted : Bytes) : Option DiskRead → Int × Bytes
  | none | some .full => (OS_NoErr, wanted)
  | some (.short n) => (OS_NoErr, wanted.take n)
  | some (.error errno) => (errno, [])

theorem outcome_isPrefix (wanted : Bytes) (disk : Option DiskRead) :
    (outcome wanted disk).2 <+: wanted := by
  rcases disk with _ | _ | n | errno
  · exact List.prefix_rfl
  · exact List.prefix_rfl
  · exact List.take_prefix n wanted
  · exact List.nil_prefix

theorem readFromPos_outcome (source : FileSource) (hpos : pos < 2 ^ 63) (len : Nat) :
    ∃ result position, source.readFromPos pos len =
        (result, { source with fPosition := position, disk := source.disk.tail }) ∧
      (result.err, result.bytes) =
        outcome (slice source.fFile pos (min len kMaxReadCount)) source.disk.head? ∧
      result.outRcvLen.getD 0 = result.bytes.length := by
  have hlt : ¬ pos ≥ 2 ^ 63 := by omega
  unfold readFromPos readFromDisk
  simp only [hlt, if_false]
  rcases source.disk.head? with _ | _ | n | errno <;> exact ⟨_, _, rfl, rfl, rfl⟩

/-! ## Blocks -/

/-- What holds of a source between the calls, whatever becomes of the disk reads. -/
structure Ready (source : FileSource) : Prop where
  length : source.fLength = source.fFile.length
  mapped : ∀ cells, source.fFileMap.fFileMapArray = some cells →
    Mapped (fun _ block => block.Usable source.fFileMap.fDataBufferSize) source.fFileMap cells

theorem Ready.exists_cells (h : Ready source) (hinit : source.fFileMap.initialized) :
    ∃ cells, Mapped (fun _ block => block.Usable source.fFileMap.fDataBufferSize)
      source.fFileMap cells := by
  obtain ⟨cells, hcells⟩ := Option.isSome_iff_exists.mp hinit
  exact ⟨cells, h.mapped cells hcells⟩

/-- A block that expects its piece has what the disk read gives. -/
theorem fillBuffer_fills (source : FileSource) {Fits : Nat → FileBlockBuffer → Prop}
    {cells : List Cell} (h : FileMap.Expects Fits source.fFileMap cells k p)
    (hpos : k * source.fFileMap.fDataBufferSize < 2 ^ 63) :
    ∃ err position block, source.fillBuffer p k = some (err,
        { source with
          fPosition := position
          disk := source.disk.tail
          fFileMap := { source.fFileMap with
            fBlockPool := source.fFileMap.fBlockPool.setBlock p (some block) } }) ∧
      block.fArrayIndex = k ∧ block.fBufferSize = source.fFileMap.fDataBufferSize ∧
      block.Usable source.fFileMap.fDataBufferSize ∧
      (err, block.filled) = outcome (slice source.fFile (k * source.fFileMap.fDataBufferSize)
        (min source.fFileMap.fDataBufferSize kMaxReadCount)) source.disk.head? := by
  obtain ⟨old, hold, hindex, hsize⟩ := h.block
  obtain ⟨⟨err, bytes, received⟩, position, hread, houtcome, hreceived⟩ :=
    readFromPos_outcome source hpos source.fFileMap.fDataBufferSize
  have hlen : bytes.length ≤ source.fFileMap.fDataBufferSize := by
    have hpre := (outcome_isPrefix (slice source.fFile (k * source.fFileMap.fDataBufferSize)
      (min source.fFileMap.fDataBufferSize kMaxReadCount)) source.disk.head?).length_le
    rw [← houtcome, length_slice] at hpre
    have hle : bytes.length ≤ min (min source.fFileMap.fDataBufferSize kMaxReadCount) _ := hpre
    omega
  have hfits : ¬ bytes.length > old.fBufferSize := by omega
  simp only at hreceived
  let read : FileBlockBuffer :=
    { old with fDataBuffer := bytes ++ old.fDataBuffer.drop bytes.length }
  let block : FileBlockBuffer := { read with fBufferFillSize := bytes.length }
  refine ⟨err, position, block, ?_, hindex, hsize, ⟨hlen, ?_⟩, ?_⟩
  · have hat : FileMap.blockAt { source.fFileMap with
        fBlockPool := source.fFileMap.fBlockPool.setBlock p (some read) } k = some (p, read) :=
      FileMap.blockAt_eq { source.fFileMap with
        fBlockPool := source.fFileMap.fBlockPool.setBlock p (some read) } h.array h.cell
        (Function.update_self _ _ _)
    simp only [fillBuffer, hread, hold, Option.bind_eq_bind, Option.bind_some, hfits, if_false]
    rw [hat]
    simp [FileBlockPool.setBlock, block, read, hreceived]
  · simp [block, read]
  · have hfilled : block.filled = bytes := List.take_left
    rw [hfilled]
    exact houtcome

/-- The head of a round has loaded the block of the piece `k`. The other blocks in the map
are those that were there. -/
structure Loaded (source : FileSource) (k : Nat) (p : BufPtr) (source' : FileSource)
    (block : FileBlockBuffer) : Prop where
  ready : Ready source'
  file : source'.fFile = source.fFile
  sizes : source.fFileMap.SameSizes source'.fFileMap
  array : source'.fFileMap.initialized
  blockAt : source'.fFileMap.blockAt k = some (p, block)
  fBlocks : source'.fFileMap.fBlockPool.fBlocks p = some block
  usable : block.Usable source.fFileMap.fDataBufferSize
  others : ∀ j < source.fFileMap.fMapArraySize, j ≠ k → ∀ q b,
    source'.fFileMap.blockAt j = some (q, b) → ∃ q', source.fFileMap.blockAt j = some (q', b)

/-- The block was there. -/
def Kept (source : FileSource) (k : Nat) (err : Int) (source' : FileSource)
    (block : FileBlockBuffer) : Prop :=
  err = OS_NoErr ∧ source'.disk = source.disk ∧ ∃ q, source.fFileMap.blockAt k = some (q, block)

/-- The piece may be read from the disk. -/
def MayFill (source : FileSource) (k : Nat) : Prop :=
  source.fFileMap.blockAt k = none ∨
    source.fFileMap.fBlockPool.fMaxBuffers < source.fFileMap.fBlockPool.fNumCurrentBuffers

/-- The block is read from the disk. -/
def Filled (source : FileSource) (k : Nat) (err : Int) (source' : FileSource)
    (block : FileBlockBuffer) : Prop :=
  source.MayFill k ∧ source'.disk = source.disk.tail ∧
    (err, block.filled) = outcome (slice source.fFile (k * source.fFileMap.fDataBufferSize)
      (min source.fFileMap.fDataBufferSize kMaxReadCount)) source.disk.head?

/-- A piece that is in the map is not filled again, if no block is deleted first. -/
theorem mayFill_of_fill {Fits : Nat → FileBlockBuffer → Prop} {cells : List Cell}
    {map : FileMap} (h : Mapped Fits source.fFileMap cells)
    (hk : k < source.fFileMap.fMapArraySize)
    (hget : source.fFileMap.getBuffer k = some (true, p, map)) : source.MayFill k := by
  by_contra hkept
  obtain ⟨hat, hnum⟩ := not_or.mp hkept
  obtain ⟨⟨q, b⟩, hat⟩ := Option.ne_none_iff_exists'.mp hat
  have hdel : source.fFileMap.deleteOldBuffs = some source.fFileMap := by
    unfold FileMap.deleteOldBuffs
    cases source.fFileMap.fBlockPool.fNumCurrentBuffers with
    | zero => rfl
    | succ rounds => exact if_neg hnum
  obtain ⟨hcell, -⟩ := h.of_blockAt hk hat
  obtain ⟨map', hget', -⟩ := FileMap.getBuffer_hit hdel h hk (FileMap.assertIndex_of_lt h hk) hcell
  rw [hget] at hget'
  cases hget'

theorem loadBuffer_of_fill {map : FileMap}
    (hget : source.fFileMap.getBuffer k = some (true, p, map)) :
    source.loadBuffer k = ({ source with fFileMap := map }.fillBuffer p k).map
      fun (err, source') => (err, p, source') := by
  simp only [loadBuffer, hget, Option.bind_eq_bind, Option.bind_some, if_true]
  cases { source with fFileMap := map }.fillBuffer p k <;> rfl

/-- The head of a round leaves the block of the piece in the map, filled or as it was. -/
theorem loadBuffer_loads (h : Ready source) (hinit : source.fFileMap.initialized)
    (hmax : source.fFileMap.fBlockPool.fMaxBuffers ≠ 0) (hk : k < source.fFileMap.fMapArraySize)
    (hpos : k * source.fFileMap.fDataBufferSize < 2 ^ 63) :
    ∃ err p source' block, source.loadBuffer k = some (err, p, source') ∧
      Loaded source k p source' block ∧
      (Kept source k err source' block ∨ Filled source k err source' block) := by
  obtain ⟨cells, hmapped⟩ := h.exists_cells hinit
  -- the blocks of the map are those that were there, but for the one that is filled
  let Was (j : Nat) (b : FileBlockBuffer) : Prop :=
    b.Usable source.fFileMap.fDataBufferSize ∧ ∃ q, source.fFileMap.blockAt j = some (q, b)
  have hwas : Mapped Was source.fFileMap cells :=
    hmapped.refine fun j _ q b hat husable => ⟨husable, q, hat⟩
  have hbut : Mapped (fun j b => b.Usable source.fFileMap.fDataBufferSize ∧ (j ≠ k → Was j b))
      source.fFileMap cells := hwas.refine fun j _ q b _ hj => ⟨hj.1, fun _ => hj⟩
  obtain ⟨p, map, cells', hsizes, ⟨hget, hkept, hcell⟩ | ⟨hget, -⟩⟩ :=
    FileMap.getBuffer_finds hwas hmax hk
  · have hk' : k < map.fMapArraySize := hsizes.mapSize ▸ hk
    obtain ⟨-, block, hblock, -, -, husable, hat⟩ := hkept.linked.owned k hk' p hcell
    refine ⟨OS_NoErr, p, { source with fFileMap := map }, block, by simp [loadBuffer, hget], ?_,
      .inl ⟨rfl, rfl, hat⟩⟩
    exact
      { ready :=
          ⟨h.length, fun cells'' hcells => by
            cases hkept.array.symm.trans hcells
            exact hkept.refine fun j _ _ b _ hj => hsizes.size ▸ hj.1⟩
        file := rfl
        sizes := hsizes
        array := Option.isSome_of_eq_some hkept.array
        blockAt := FileMap.blockAt_eq _ hkept.array hcell hblock
        fBlocks := hblock
        usable := husable
        others := fun j hj _ q b hat => (hkept.of_blockAt (hsizes.mapSize ▸ hj) hat).2.2 }
  · have hmay := mayFill_of_fill hmapped hk hget
    obtain ⟨p', map', cells', hsizes, ⟨hget', -⟩ | ⟨hget', hexpects⟩⟩ :=
      FileMap.getBuffer_finds hbut hmax hk
    · rw [hget] at hget'
      cases hget'
    · obtain ⟨err, position, block, hfill, hindex, hsize, husable, houtcome⟩ :=
        fillBuffer_fills { source with fFileMap := map' } hexpects (by rwa [hsizes.size])
      simp only [hsizes.size] at husable houtcome
      have hmapped' := hexpects.filled block hindex hsize
        ⟨husable, fun hne => absurd rfl hne⟩
      have hload := loadBuffer_of_fill hget'
      rw [hfill, Option.map_some] at hload
      refine ⟨err, p', _, block, hload, ?_, .inr ⟨hmay, rfl, houtcome⟩⟩
      exact
        { ready :=
            ⟨h.length, fun cells'' hcells => by
              cases hmapped'.array.symm.trans hcells
              exact hmapped'.refine fun j _ _ b _ hj => hsizes.size ▸ hj.1⟩
          file := rfl
          sizes := ⟨hsizes.size, hsizes.mapSize, hsizes.limit⟩
          array := Option.isSome_of_eq_some hmapped'.array
          blockAt := FileMap.blockAt_eq _ hmapped'.array hexpects.cell (Function.update_self _ _ _)
          fBlocks := Function.update_self _ _ _
          usable := husable
          others := fun j hj hne q b hat =>
            ((hmapped'.of_blockAt (hsizes.mapSize ▸ hj) hat).2.2 hne).2 }

/-! ## The copy loop -/

/-- What the loop copies out of the pieces of a file, if all of them are whole. -/
def gather (file : Bytes) (size : Nat) : (rounds buffIndex buffPos bytesToCopy : Nat) → Bytes
  | 0, _, _, _ => []
  | rounds + 1, k, buffPos, b =>
    let piece := slice file (k * size) size
    if buffPos = 0 ∧ b ≤ size ∧ piece.length < b then piece
    else
      let n := min b (piece.length - buffPos)
      slice piece buffPos n ++ gather file size rounds (k + 1) 0 (b - n)

/-- The first `n` bytes of a piece, as far as the file has them, are those that its block
has, if it is in the map. -/
def Agreed (source : FileSource) (k n : Nat) : Prop :=
  ∀ found ∈ source.fFileMap.blockAt k, found.2.filled.take n =
    (slice source.fFile (k * source.fFileMap.fDataBufferSize)
      source.fFileMap.fDataBufferSize).take n

instance (source : FileSource) (k n : Nat) : Decidable (source.Agreed k n) :=
  inferInstanceAs (Decidable (∀ found ∈ source.fFileMap.blockAt k, _))

/-- Each block that the loop comes to has its piece as far as the loop copies it. -/
def Intact (source : FileSource) : (rounds buffIndex buffPos bytesToCopy : Nat) → Prop
  | 0, _, _, _ => True
  | rounds + 1, k, buffPos, b =>
    let size := source.fFileMap.fDataBufferSize
    let fill := (slice source.fFile (k * size) size).length
    source.Agreed k (buffPos + b) ∧
      (buffPos = 0 ∧ b ≤ size ∧ fill < b ∨
        source.Intact rounds (k + 1) 0 (b - min b (fill - buffPos)))

instance decidableIntact (source : FileSource) :
    ∀ rounds k buffPos b, Decidable (source.Intact rounds k buffPos b)
  | 0, _, _, _ => isTrue trivial
  | rounds + 1, k, _, _ =>
    have := decidableIntact source rounds (k + 1) 0
    inferInstanceAs (Decidable (_ ∧ (_ ∨ _)))

section Gather

variable {file : Bytes} {size : Nat}

theorem gather_nothing (rounds k : Nat) : gather file size rounds k 0 0 = [] := by
  induction rounds generalizing k with
  | zero => rfl
  | succ rounds ih =>
    simp only [gather, Nat.not_lt_zero, and_false, if_false, Nat.zero_min, Nat.sub_zero, ih,
      List.append_nil]
    exact List.take_zero

theorem gather_end (rounds k b : Nat) (hend : file.length ≤ k * size) :
    gather file size rounds k 0 b = [] := by
  have hpiece : slice file (k * size) size = [] := by
    rw [slice, List.drop_of_length_le hend, List.take_nil]
  induction rounds generalizing k b with
  | zero => rfl
  | succ rounds ih =>
    have hnext : file.length ≤ (k + 1) * size := hend.trans (Nat.mul_le_mul_right _ (Nat.le_succ k))
    have hnil : slice file ((k + 1) * size) size = [] := by
      rw [slice, List.drop_of_length_le hnext, List.take_nil]
    simp only [gather, hpiece]
    split_ifs
    · rfl
    · rw [ih (k + 1) _ hnext hnil]
      simp [slice]

/-- In enough rounds, the loop copies what is asked for, as far as the file has it. -/
theorem gather_eq (rounds k buffPos b : Nat) (hb : buffPos + b < rounds * size)
    (hpos : buffPos ≤ (slice file (k * size) size).length) :
    gather file size rounds k buffPos b = slice file (k * size + buffPos) b := by
  induction rounds generalizing k buffPos b with
  | zero => omega
  | succ rounds ih =>
    have hlen := length_slice file (k * size) size
    have hnext : (k + 1) * size = k * size + size := Nat.succ_mul k size
    rw [Nat.succ_mul] at hb
    simp only [gather]
    generalize hpiece : slice file (k * size) size = piece at *
    split_ifs with heof
    · obtain ⟨rfl, hle, hlt⟩ := heof
      rw [← hpiece, Nat.add_zero]
      exact slice_of_end (by omega) (by omega)
    · have hcopy : slice piece buffPos (min b (piece.length - buffPos)) =
          slice file (k * size + buffPos) (min b (piece.length - buffPos)) := by
        rw [← hpiece]
        refine slice_of_prefix List.prefix_rfl ?_
        rw [hpiece]
        omega
      rw [hcopy]
      rcases Nat.lt_or_ge piece.length size with hshort | hfull
      · -- the file ends in this piece
        rw [gather_end rounds (k + 1) _ (by omega), List.append_nil]
        rcases Nat.lt_or_ge (piece.length - buffPos) b with h | h
        · rw [min_eq_right h.le]
          exact slice_of_end (by omega) (by omega)
        · rw [min_eq_left h]
      · rcases Nat.lt_or_ge (piece.length - buffPos) b with h | h
        · rw [min_eq_right h.le, ih (k + 1) 0 _ (by omega) (Nat.zero_le _)]
          rw [show (k + 1) * size + 0 = k * size + buffPos + (piece.length - buffPos) by omega]
          exact (slice_split file (k * size + buffPos) h.le).symm
        · rw [min_eq_left h, Nat.sub_self, gather_nothing, List.append_nil]

end Gather

/-- A piece and what its block has, where they agree as far as the loop copies. -/
structure SameCopy (filled piece : Bytes) (buffPos b : Nat) : Prop where
  copied : min b (filled.length - buffPos) = min b (piece.length - buffPos)
  slice_eq : ∀ n ≤ b, slice filled buffPos n = slice piece buffPos n
  short : buffPos = 0 → (filled.length < b ↔ piece.length < b)
  all : buffPos = 0 → filled.length < b → filled = piece

theorem sameCopy_of_take {filled piece : Bytes} {buffPos b : Nat}
    (h : filled.take (buffPos + b) = piece.take (buffPos + b)) :
    SameCopy filled piece buffPos b := by
  have hlen := congrArg List.length h
  rw [List.length_take, List.length_take] at hlen
  have hslice : ∀ (s : Bytes) (n : Nat), n ≤ b →
      slice s buffPos n = slice (s.take (buffPos + b)) buffPos n := by
    intro s n hn
    unfold slice
    rw [List.drop_take, List.take_take, min_eq_left (by omega)]
  refine ⟨by omega, fun n hn => ?_, fun h0 => by omega, fun h0 hlt => ?_⟩
  · rw [hslice filled n hn, hslice piece n hn, h]
  · rwa [List.take_of_length_le (by omega), List.take_of_length_le (by omega)] at h

/-- Blocks that are given up do no harm. -/
theorem Intact.mono (hfile : source'.fFile = source.fFile)
    (hsize : source'.fFileMap.fDataBufferSize = source.fFileMap.fDataBufferSize)
    {rounds buffPos b : Nat}
    (hothers : ∀ j, k ≤ j → j < k + rounds → ∀ q block,
      source'.fFileMap.blockAt j = some (q, block) →
        ∃ q', source.fFileMap.blockAt j = some (q', block))
    (h : source.Intact rounds k buffPos b) : source'.Intact rounds k buffPos b := by
  induction rounds generalizing k buffPos b with
  | zero => trivial
  | succ rounds ih =>
    obtain ⟨hagreed, hrest⟩ := h
    simp only [Intact, hfile, hsize]
    refine ⟨fun found hfound => ?_, hrest.imp_right (ih fun j hj hlt => ?_)⟩
    · obtain ⟨q, block⟩ := found
      obtain ⟨q', hat⟩ := hothers k le_rfl (by omega) q block hfound
      rw [hfile, hsize]
      exact hagreed (q', block) hat
    · exact hothers j (by omega) (by omega)

theorem Intact.agreed {rounds buffPos b : Nat} (h : source.Intact rounds k buffPos b)
    (hrounds : 0 < rounds) : source.Agreed k (buffPos + b) := by
  obtain ⟨rounds, rfl⟩ := Nat.exists_eq_succ_of_ne_zero hrounds.ne'
  exact h.1

theorem Agreed.le_filled {buffPos b : Nat} (h : source.Agreed k (buffPos + b))
    (hpos : buffPos ≤ (slice source.fFile (k * source.fFileMap.fDataBufferSize)
      source.fFileMap.fDataBufferSize).length) :
    ∀ found ∈ source.fFileMap.blockAt k, buffPos ≤ found.2.filled.length := by
  intro found hfound
  have hlen := congrArg List.length (h found hfound)
  rw [List.length_take, List.length_take] at hlen
  omega

theorem copyLoop_failed {E M rounds buffPos b r : Nat} {out : Bytes} {err : Int}
    (hload : source.loadBuffer k = some (err, p, source')) (herr : err ≠ OS_NoErr)
    (hkE : k ≤ E) (hkM : k ≤ M) :
    copyLoop E M (rounds + 1) source k buffPos b out r =
      some (⟨err, out, some r⟩, source') := by
  rw [copyLoop, if_pos ⟨hkE, hkM⟩]
  simp only [hload, Option.bind_eq_bind, Option.bind_some, if_pos herr]
  rfl

/-- One round: what the block has of its piece is copied. -/
theorem copyLoop_loaded {E M rounds buffPos b r : Nat} {out : Bytes} {block : FileBlockBuffer}
    (hload : source.loadBuffer k = some (OS_NoErr, p, source'))
    (hl : Loaded source k p source' block) (hkE : k ≤ E) (hkM : k ≤ M)
    (hsize : source.fFileMap.fDataBufferSize < 2 ^ 32) (hpos : buffPos ≤ block.filled.length) :
    copyLoop E M (rounds + 1) source k buffPos b out r =
      if buffPos = 0 ∧ b ≤ source.fFileMap.fDataBufferSize ∧ block.filled.length < b then
        some (⟨OS_NoErr, out ++ block.filled,
          some ((r + block.filled.length) % 2 ^ 32)⟩, source')
      else
        copyLoop E M rounds source' (k + 1) 0
          (b - min b (block.filled.length - buffPos) : Nat)
          (out ++ slice block.filled buffPos (min b (block.filled.length - buffPos)))
          ((r + min b (block.filled.length - buffPos)) % 2 ^ 32) := by
  have hfill := hl.usable.fill_le
  have hwritten := hl.usable.written
  have hnoerr : ¬ OS_NoErr ≠ OS_NoErr := fun h => h rfl
  have hslice : ∀ n, buffPos + n ≤ block.fBufferFillSize →
      slice block.fDataBuffer buffPos n = slice block.filled buffPos n := by
    intro n hn
    unfold slice FileBlockBuffer.filled
    rw [List.drop_take, List.take_take, min_eq_left (by omega)]
  rw [hl.usable.length_filled] at hpos ⊢
  rw [copyLoop, if_pos ⟨hkE, hkM⟩]
  simp only [hload, Option.bind_eq_bind, Option.bind_some, hnoerr, if_false, hl.blockAt,
    hl.fBlocks, Int.ofNat_le, Int.ofNat_lt]
  split
  next heof =>
    obtain ⟨rfl, -, -⟩ := heof
    rw [copyOut_eq (by omega) (by omega), hslice _ (by omega)]
    have hall : slice block.filled 0 block.fBufferFillSize = block.filled :=
      List.take_of_length_le hl.usable.length_filled.le
    rw [hall]
    simp only [Option.bind_some, hl.usable.length_filled, pure]
  next =>
    have hcopy : (if (b : Int) ≥ (block.fBufferFillSize : Int) - buffPos then
        (block.fBufferFillSize : Int) - buffPos else b) =
        (min b (block.fBufferFillSize - buffPos) : Nat) := by
      split <;> omega
    have hrest : (b : Int) - (min b (block.fBufferFillSize - buffPos) : Nat) =
        (b - min b (block.fBufferFillSize - buffPos) : Nat) := by
      omega
    rw [hcopy, hrest, if_neg (by omega), copyOut_eq (by omega) (by omega), hslice _ (by omega)]
    have hlen : (slice block.filled buffPos (min b (block.fBufferFillSize - buffPos))).length =
        min b (block.fBufferFillSize - buffPos) := by
      rw [length_slice, hl.usable.length_filled]
      omega
    simp only [Option.bind_some, hlen]

/-- A disk read for the block of the first piece does not come short below an offset. -/
def FillReaches (source : FileSource) (k buffPos : Nat) : Prop :=
  source.MayFill k →
    (outcome (slice source.fFile (k * source.fFileMap.fDataBufferSize)
      (min source.fFileMap.fDataBufferSize kMaxReadCount)) source.disk.head?).1 = OS_NoErr →
    buffPos ≤ (outcome (slice source.fFile (k * source.fFileMap.fDataBufferSize)
      (min source.fFileMap.fDataBufferSize kMaxReadCount)) source.disk.head?).2.length

theorem outcome_of_full {wanted : Bytes} {disk : List DiskRead}
    (hfull : ∀ o ∈ disk.take 1, o = .full) : outcome wanted disk.head? = (OS_NoErr, wanted) := by
  cases disk with
  | nil => rfl
  | cons o disk =>
    obtain rfl := hfull o (List.mem_cons_self ..)
    rfl

/-- The disk reads of a round, and what a block has that needed none, or that a full one has
filled. -/
theorem loaded_cases {err : Int} {block : FileBlockBuffer}
    (hcases : Kept source k err source' block ∨ Filled source k err source' block)
    (hwhole : source.InFull (k * source.fFileMap.fDataBufferSize)
      source.fFileMap.fDataBufferSize) :
    ∃ n, source'.disk = source.disk.drop n ∧ ((∀ o ∈ source.disk.take n, o = .full) →
      err = OS_NoErr ∧ ∀ m, source.Agreed k m → block.filled.take m =
        (slice source.fFile (k * source.fFileMap.fDataBufferSize)
          source.fFileMap.fDataBufferSize).take m) := by
  rcases hcases with ⟨herr, hdisk, q, hat⟩ | ⟨-, hdisk, houtcome⟩
  · exact ⟨0, hdisk, fun _ => ⟨herr, fun m hagreed => hagreed (q, block) hat⟩⟩
  · refine ⟨1, by rw [hdisk, List.drop_one], fun hfull => ?_⟩
    rw [outcome_of_full hfull] at houtcome
    obtain ⟨herr, hfilled⟩ := Prod.mk.inj houtcome
    refine ⟨herr, fun m _ => ?_⟩
    rw [hfilled]
    congr 1
    unfold InFull at hwhole
    rcases Nat.lt_or_ge kMaxReadCount source.fFileMap.fDataBufferSize with h | h
    · rw [min_eq_right h.le]
      exact slice_of_end (by omega) (by omega)
    · rw [min_eq_left h]

theorem InFull.next {size : Nat} (h : source.InFull (k * size) size)
    (hfile : source'.fFile = source.fFile) : source'.InFull ((k + 1) * size) size := by
  unfold InFull at *
  rw [hfile, Nat.succ_mul]
  omega

/-- The loop never leaves a block, and gives the gathered pieces if its disk reads are full
and the blocks it comes to are intact. By induction on the rounds. -/
theorem copyLoop_gathers {E M : Nat} (rounds : Nat) {buffPos b r : Nat} {out : Bytes}
    (h : Ready source) (hinit : source.fFileMap.initialized)
    (hmax : source.fFileMap.fBlockPool.fMaxBuffers ≠ 0)
    (hsize : source.fFileMap.fDataBufferSize < 2 ^ 32)
    (hM : M + 1 = source.fFileMap.fMapArraySize) (hEM : E ≤ M) (hrounds : k + rounds = E + 1)
    (hpos : E * source.fFileMap.fDataBufferSize < 2 ^ 63) (hr : r < 2 ^ 32)
    (hwhole : source.InFull (k * source.fFileMap.fDataBufferSize)
      source.fFileMap.fDataBufferSize)
    (hfirst : buffPos = 0 ∨
      (∀ found ∈ source.fFileMap.blockAt k, buffPos ≤ found.2.filled.length) ∧
        source.FillReaches k buffPos) :
    ∃ result source' n, copyLoop E M rounds source k buffPos b out r = some (result, source') ∧
      Ready source' ∧ source'.disk = source.disk.drop n ∧
      ((∀ o ∈ source.disk.take n, o = .full) → source.Intact rounds k buffPos b →
        result = ⟨OS_NoErr,
          out ++ gather source.fFile source.fFileMap.fDataBufferSize rounds k buffPos b,
          some ((r + (gather source.fFile source.fFileMap.fDataBufferSize rounds k buffPos
            b).length) % 2 ^ 32)⟩) := by
  induction rounds generalizing source k buffPos b r out with
  | zero =>
    refine ⟨_, source, 0, rfl, h, rfl, fun _ _ => ?_⟩
    rw [gather, List.append_nil, List.length_nil, Nat.add_zero, Nat.mod_eq_of_lt hr]
  | succ rounds ih =>
    have hkE : k ≤ E := by omega
    have hkpos : k * source.fFileMap.fDataBufferSize < 2 ^ 63 :=
      (Nat.mul_le_mul_right _ hkE).trans_lt hpos
    obtain ⟨err, p, source₁, block, hload, hl, hcases⟩ :=
      loadBuffer_loads h hinit hmax (by omega) hkpos
    obtain ⟨n₁, hdisk₁, hfull₁⟩ := loaded_cases hcases hwhole
    by_cases herr : err = OS_NoErr
    · subst herr
      have hbuffPos : buffPos ≤ block.filled.length := by
        rcases hfirst with rfl | ⟨hkept, hreaches⟩
        · exact Nat.zero_le _
        · rcases hcases with ⟨-, -, q, hat⟩ | ⟨hmay, -, houtcome⟩
          · exact hkept (q, block) hat
          · have hreach := hreaches hmay
            rw [← houtcome] at hreach
            exact hreach rfl
      rw [copyLoop_loaded hload hl hkE (by omega) hsize hbuffPos]
      split_ifs with heof
      · refine ⟨_, source₁, n₁, rfl, hl.ready, hdisk₁, fun hfull hintact => ?_⟩
        have hsame := sameCopy_of_take ((hfull₁ hfull).2 _ hintact.1)
        obtain ⟨rfl, hle, hlt⟩ := heof
        simp only [gather]
        rw [if_pos ⟨trivial, hle, (hsame.short rfl).mp hlt⟩, hsame.all rfl hlt]
      · have hsizes := hl.sizes
        obtain ⟨result, source₂, n₂, hloop, hready, hdisk₂, hresult⟩ :=
          @ih source₁ (k + 1) 0 (b - min b (block.filled.length - buffPos))
            ((r + min b (block.filled.length - buffPos)) % 2 ^ 32)
            (out ++ slice block.filled buffPos (min b (block.filled.length - buffPos)))
            hl.ready hl.array (by rwa [hsizes.limit]) (by rwa [hsizes.size])
            (by rwa [hsizes.mapSize]) (by omega) (by rwa [hsizes.size])
            (Nat.mod_lt _ (by decide))
            (by rw [hsizes.size]; exact hwhole.next hl.file) (.inl rfl)
        refine ⟨result, source₂, n₁ + n₂, hloop, hready, by rw [hdisk₂, hdisk₁, List.drop_drop],
          fun hfull hintact => ?_⟩
        rw [List.take_add, ← hdisk₁, List.forall_mem_append] at hfull
        obtain ⟨hagreed, hrest⟩ := hintact
        have hsame := sameCopy_of_take ((hfull₁ hfull.1).2 _ hagreed)
        have hgoes : ¬ (buffPos = 0 ∧ b ≤ source.fFileMap.fDataBufferSize ∧
            (slice source.fFile (k * source.fFileMap.fDataBufferSize)
              source.fFileMap.fDataBufferSize).length < b) := by
          rintro ⟨h0, hle, hlt⟩
          exact heof ⟨h0, hle, (hsame.short h0).mpr hlt⟩
        rw [hsame.copied] at hresult
        rw [hresult hfull.2 ((hrest.resolve_left hgoes).mono hl.file hsizes.size
          fun j hj hlt q block hat => hl.others j (by omega) (by omega) q block hat)]
        simp only [gather]
        rw [if_neg hgoes, hsame.slice_eq _ (min_le_left _ _), hsizes.size, hl.file]
        generalize slice source.fFile (k * source.fFileMap.fDataBufferSize)
          source.fFileMap.fDataBufferSize = piece
        rw [List.append_assoc, List.length_append, length_slice,
          min_eq_left (a := min b _) (min_le_right _ _), Nat.mod_add_mod, Nat.add_assoc]
    · refine ⟨_, source₁, n₁, copyLoop_failed hload herr hkE (by omega), hl.ready, hdisk₁,
        fun hfull => absurd (hfull₁ hfull).1 herr⟩

/-! ## Reads -/

/-- The source with a disk that never fails. -/
def whole (source : FileSource) : FileSource := { source with disk := [] }

/-- The disk reads between two states of a source. -/
def ownReads (source source' : FileSource) : List DiskRead :=
  source.disk.take (source.disk.length - source'.disk.length)

theorem ownReads_of_drop {n : Nat} (h : source'.disk = source.disk.drop n) :
    source.ownReads source' = source.disk.take n := by
  rw [ownReads, h, List.length_drop, List.take_eq_take_iff]
  omega

/-- The blocks that a read comes to are filled as far as it goes, and if the first one is to
be filled, that does not come short below the position. -/
def Unharmed (source : FileSource) (pos len : Nat) : Prop :=
  let k := source.fFileMap.getBuffIndex pos
  let buffPos := pos - source.fFileMap.getBuffOffset k
  source.Intact (source.fFileMap.getBuffIndex (pos + len) + 1 - k) k buffPos len ∧
    source.FillReaches k buffPos

/-- A plain read whose disk reads are full gives what is there. -/
theorem readFromPos_survives (h : Ready source) (pos len : Nat) :
    ∃ result source' n, source.readFromPos pos len = (result, source') ∧ Ready source' ∧
      source'.disk = source.disk.drop n ∧
      ((∀ o ∈ source.disk.take n, o = .full) →
        result = (source.whole.readFromPos pos len).1) := by
  unfold readFromPos readFromDisk whole
  by_cases hpos : pos ≥ 2 ^ 63
  · simp only [hpos, if_true]
    exact ⟨_, _, 0, rfl, ⟨h.length, h.mapped⟩, rfl, fun _ => rfl⟩
  · simp only [hpos, if_false]
    cases hdisk : source.disk with
    | nil => exact ⟨_, _, 0, rfl, ⟨h.length, h.mapped⟩, rfl, fun _ => rfl⟩
    | cons o disk =>
      cases o with
      | full => exact ⟨_, _, 1, rfl, ⟨h.length, h.mapped⟩, rfl, fun _ => rfl⟩
      | short n =>
        refine ⟨_, _, 1, rfl, ⟨h.length, h.mapped⟩, rfl, fun hfull => ?_⟩
        cases hfull _ (List.mem_cons_self ..)
      | error errno =>
        refine ⟨_, _, 1, rfl, ⟨h.length, h.mapped⟩, rfl, fun hfull => ?_⟩
        cases hfull _ (List.mem_cons_self ..)

/-- A cached read whose disk reads are full gives what is there, if no block that it comes
to is harmed. -/
theorem readFromCache_survives (h : Ready source) (hinit : source.fFileMap.initialized)
    (hpos : pos + len < 2 ^ 63) (hlen : len < 2 ^ 32)
    (hreach : source.fFileMap.getBuffIndex (pos + len) ≤ source.fFileMap.getMaxBuffIndex)
    (hwhole : source.InFull (source.fFileMap.getBuffOffset (source.fFileMap.getBuffIndex pos))
      source.fFileMap.fDataBufferSize)
    (hkeep : pos < source.fLength → source.fFileMap.fBlockPool.fMaxBuffers ≠ 0 ∧
      source.Unharmed pos len) :
    ∃ result source' n, source.readFromCache pos len = some (result, source') ∧
      Ready source' ∧ source'.disk = source.disk.drop n ∧
      ((∀ o ∈ source.disk.take n, o = .full) →
        result = ⟨OS_NoErr, slice source.fFile pos len,
          some (slice source.fFile pos len).length⟩) := by
  unfold readFromCache
  split
  next heof =>
    rw [h.length] at heof
    refine ⟨_, source, 0, rfl, h, rfl, fun _ => ?_⟩
    rw [slice, List.drop_of_length_le heof, List.take_nil, List.length_nil]
  next hin =>
    obtain ⟨hmax, hintact, hreaches⟩ := hkeep (by omega)
    obtain ⟨cells, hmapped⟩ := h.exists_cells hinit
    have hlength := h.length
    have hsize := hmapped.size_pos
    have hmapSize := hmapped.mapSize_pos
    rw [Nat.mod_eq_of_lt (by omega)]
    have hin_map : ¬ (source.fFileMap.getBuffIndex pos > source.fFileMap.getBuffIndex (pos + len) ∨
        source.fFileMap.getBuffIndex (pos + len) > source.fFileMap.getMaxBuffIndex) := by
      rw [not_or, not_lt, not_lt]
      exact ⟨Nat.div_le_div_right (by omega), hreach⟩
    simp only [if_neg hin_map]
    simp only [FileMap.getBuffIndex, FileMap.getBuffOffset, FileMap.getMaxBuffIndex] at *
    have hle : pos / source.fFileMap.fDataBufferSize ≤
        (pos + len) / source.fFileMap.fDataBufferSize := Nat.div_le_div_right (by omega)
    have hk := Nat.div_add_mod' pos source.fFileMap.fDataBufferSize
    have hk' := Nat.mod_lt pos hsize
    have hE := Nat.div_add_mod' (pos + len) source.fFileMap.fDataBufferSize
    have hE' := Nat.mod_lt (pos + len) hsize
    have hpiece := length_slice source.fFile
      (pos / source.fFileMap.fDataBufferSize * source.fFileMap.fDataBufferSize)
      source.fFileMap.fDataBufferSize
    have hfirst := (hintact.agreed (by omega)).le_filled (by omega)
    obtain ⟨result, source', n, hloop, hready, hdisk, hresult⟩ := @copyLoop_gathers
      source (pos / source.fFileMap.fDataBufferSize)
      ((pos + len) / source.fFileMap.fDataBufferSize) (source.fFileMap.fMapArraySize - 1)
      ((pos + len) / source.fFileMap.fDataBufferSize + 1 - pos / source.fFileMap.fDataBufferSize)
      (pos - pos / source.fFileMap.fDataBufferSize * source.fFileMap.fDataBufferSize) len 0 [] h
      hinit hmax hmapped.size_lt (by omega)
      hreach (by omega) (by omega) (by omega) hwhole (.inr ⟨hfirst, hreaches⟩)
    refine ⟨result, source', n, hloop, hready, hdisk, fun hfull => ?_⟩
    have hrounds : ((pos + len) / source.fFileMap.fDataBufferSize + 1 -
        pos / source.fFileMap.fDataBufferSize) * source.fFileMap.fDataBufferSize =
        (pos + len) / source.fFileMap.fDataBufferSize * source.fFileMap.fDataBufferSize +
          source.fFileMap.fDataBufferSize -
          pos / source.fFileMap.fDataBufferSize * source.fFileMap.fDataBufferSize := by
      rw [Nat.sub_mul, Nat.succ_mul]
    rw [hresult hfull hintact, gather_eq _ _ _ _ (by rw [hrounds]; omega) (by omega),
      Nat.add_sub_cancel' (by omega), List.nil_append, Nat.zero_add,
      Nat.mod_eq_of_lt (by rw [length_slice]; omega)]

/-- No block that a read comes to is harmed, and the arguments are those of a read that is
served without errors. -/
def Spared (source : FileSource) (pos len : Nat) : Prop :=
  source.readsCache pos len = true → source.Readable pos len ∧
    (pos < source.fLength → source.fFileMap.fBlockPool.fMaxBuffers ≠ 0 ∧
      source.Unharmed pos len)

theorem read_survives (h : Ready source) (hlen : len < 2 ^ 32) (hspared : source.Spared pos len) :
    ∃ result source' n, source.read pos len = some (result, source') ∧ Ready source' ∧
      source'.disk = source.disk.drop n ∧
      ((∀ o ∈ source.disk.take n, o = .full) →
        result = (source.whole.readFromPos pos len).1) := by
  unfold read
  split
  next hcache =>
    obtain ⟨⟨hpos, hfull, hwhole⟩, hkeep⟩ := hspared hcache
    have hcache' := hcache
    simp only [readsCache, Bool.and_eq_true, decide_eq_true_eq] at hcache'
    obtain ⟨⟨hinit, -⟩, hreach⟩ := hcache'
    rw [Nat.mod_eq_of_lt (by omega)] at hreach
    rw [@readFromPos_eq pos len source.whole rfl (by omega) hfull]
    exact readFromCache_survives h hinit hpos hlen hreach (hwhole hcache) hkeep
  next =>
    obtain ⟨result, source', n, hread, hready, hdisk, hresult⟩ :=
      readFromPos_survives h pos len
    exact ⟨result, source', n, congrArg some hread, hready, hdisk, hresult⟩

/-! ## Runs -/

/-- The call does not fail, and a read whose own disk reads are full gives what is there. -/
def Survives : Option FileSource → Call → Option FileSource → Prop
  | some source, .read inPosition inLength, some source' =>
    (∀ o ∈ source.ownReads source', o = .full) →
      (source.read inPosition.toNat inLength.toNat).map Prod.fst =
        some (source.whole.readFromPos inPosition.toNat inLength.toNat).1
  | some _, _, some _ => True
  | _, _, _ => False

/-- The map can be built, and a read comes to no harmed block. -/
def Undamaged : Option FileSource → Call → Prop
  | some source, .allocateFileCache inUnitSizeInK bufferSizeUnits incBuffers
      inMaxBitRateBuffSizeInBlocks inBitRate =>
    source.KeepsMap bufferSizeUnits.toNat incBuffers.toNat ∨
      source.BuildsMap inUnitSizeInK.toNat bufferSizeUnits.toNat
        inMaxBitRateBuffSizeInBlocks.toNat inBitRate.toNat
  | some source, .read inPosition inLength =>
    source.Spared inPosition.toNat inLength.toNat
  | _, _ => True

theorem ready_ofFile (file : Bytes) (disk : List DiskRead) :
    Ready { ofFile file with disk := disk } where
  length := rfl
  mapped _ hcells := by cases hcells

/-- The limit of the pool may change at any time. -/
theorem Ready.withLimit (h : Ready source) (limit : Nat) :
    Ready (source.withPool { source.fFileMap.fBlockPool with fMaxBuffers := limit }) where
  length := h.length
  mapped cells hcells :=
    have hmapped := h.mapped cells hcells
    { array := hmapped.array
      size_pos := hmapped.size_pos
      size_lt := hmapped.size_lt
      mapSize_pos := hmapped.mapSize_pos
      mapSize_lt := hmapped.mapSize_lt
      counted := ⟨hmapped.counted.count, hmapped.counted.fresh⟩
      linked := hmapped.linked }

theorem allocateBufferMap_ready (h : Ready source) {inUnitSizeInK inNumBuffSizeUnits
      inBufferIncCount inMaxBitRateBuffSizeInBlocks inBitRate : Nat}
    (hargs : source.KeepsMap inNumBuffSizeUnits inBufferIncCount ∨
      source.BuildsMap inUnitSizeInK inNumBuffSizeUnits inMaxBitRateBuffSizeInBlocks inBitRate) :
    ∃ map, source.fFileMap.allocateBufferMap inUnitSizeInK inNumBuffSizeUnits inBufferIncCount
        inMaxBitRateBuffSizeInBlocks source.fLength inBitRate = some map ∧
      Ready { source with fFileMap := map } := by
  obtain ⟨map, hmap, ⟨-, rfl⟩ | hcached⟩ := allocateBufferMap_builds h.length hargs
  · exact ⟨source.fFileMap, hmap, h⟩
  · refine ⟨map, hmap, h.length, fun cells hcells => ?_⟩
    exact (hcached cells hcells).mapped.refine fun _ _ _ _ _ hholds => hholds.usable

/-- A call that is spared survives, and leaves the source ready. -/
theorem step_ready (h : Ready source) {call : Call} {state : Option FileSource}
    (hstep : system.step (some source) call state) (hsafe : Undamaged (some source) call) :
    Survives (some source) call state ∧
      ∃ source' n, state = some source' ∧ Ready source' ∧ source'.disk = source.disk.drop n := by
  obtain rfl : (source.step call).map Prod.snd = state := Option.some.inj hstep
  cases call with
  | allocateFileCache inUnitSizeInK bufferSizeUnits incBuffers inMaxBlocks inBitRate =>
    obtain ⟨map, hmap, hready⟩ := allocateBufferMap_ready h hsafe
    simp only [step, hmap, Option.bind_eq_bind, Option.bind_some, pure, Option.map_some]
    exact ⟨trivial, _, 0, rfl, hready, rfl⟩
  | enableFileCache enabled =>
    exact ⟨trivial, _, 0, rfl, ⟨h.length, h.mapped⟩, rfl⟩
  | incMaxBuffers => exact ⟨trivial, _, 0, rfl, h.withLimit _, rfl⟩
  | decMaxBuffers =>
    refine ⟨trivial, _, 0, rfl, ?_, rfl⟩
    unfold FileBlockPool.decMaxBuffers
    split
    · exact h.withLimit _
    · exact h
  | read inPosition inLength =>
    obtain ⟨result, source', n, hread, hready, hdisk, hresult⟩ :=
      read_survives h inLength.toNat_lt hsafe
    simp only [step, hread, Option.bind_eq_bind, Option.bind_some, pure, Option.map_some]
    refine ⟨fun hfull => ?_, _, n, rfl, hready, hdisk⟩
    rw [ownReads_of_drop hdisk] at hfull
    rw [hread, Option.map_some, hresult hfull]

/-- In a run whose calls are all spared, every read whose own disk reads are full gives
what is there, whatever became of the disk reads before. -/
theorem survives_of_undamaged (file : Bytes) (disk : List DiskRead) (calls : List Call)
    (h : system.Meets Undamaged (some { ofFile file with disk := disk }) calls) :
    system.Keeps Survives (some { ofFile file with disk := disk }) calls := by
  refine System.Meets.keeps (fun state => ∃ source, state = some source ∧ Ready source) ?_
    ⟨_, rfl, ready_ofFile file disk⟩ h
  rintro state call next ⟨source, rfl, hready⟩ hstep hsafe
  obtain ⟨hsurvives, source', -, rfl, hready', -⟩ := step_ready hready hstep hsafe
  exact ⟨hsurvives, source', rfl, hready'⟩

/-! ## Two runs -/

instance (source : FileSource) (k buffPos : Nat) : Decidable (source.FillReaches k buffPos) :=
  inferInstanceAs (Decidable ((_ ∨ _) → _ = _ → _ ≤ _))

instance (source : FileSource) (pos len : Nat) : Decidable (source.Unharmed pos len) :=
  inferInstanceAs (Decidable (_ ∧ _))

instance (source : FileSource) (pos len : Nat) : Decidable (source.Spared pos len) :=
  inferInstanceAs (Decidable (_ → _ ∧ (_ → _ ∧ _)))

instance : (state : Option FileSource) → (call : Call) → Decidable (Undamaged state call)
  | some source, .allocateFileCache inUnitSizeInK bufferSizeUnits incBuffers inMaxBlocks
      inBitRate =>
    inferInstanceAs (Decidable (source.KeepsMap bufferSizeUnits.toNat incBuffers.toNat ∨
      source.BuildsMap inUnitSizeInK.toNat bufferSizeUnits.toNat inMaxBlocks.toNat
        inBitRate.toNat))
  | some source, .read inPosition inLength =>
    inferInstanceAs (Decidable (source.Spared inPosition.toNat inLength.toNat))
  | some _, .enableFileCache _ => isTrue trivial
  | some _, .incMaxBuffers => isTrue trivial
  | some _, .decMaxBuffers => isTrue trivial
  | none, _ => isTrue trivial

instance : (state : Option FileSource) → (call : Call) → (state' : Option FileSource) →
    Decidable (Survives state call state')
  | some source, .read inPosition inLength, some source' =>
    inferInstanceAs (Decidable ((∀ o ∈ source.ownReads source', o = .full) →
      (source.read inPosition.toNat inLength.toNat).map Prod.fst =
        some (source.whole.readFromPos inPosition.toNat inLength.toNat).1))
  | some _, .allocateFileCache _ _ _ _ _, some _ => isTrue trivial
  | some _, .enableFileCache _, some _ => isTrue trivial
  | some _, .incMaxBuffers, some _ => isTrue trivial
  | some _, .decMaxBuffers, some _ => isTrue trivial
  | some _, .allocateFileCache _ _ _ _ _, none => isFalse id
  | some _, .enableFileCache _, none => isFalse id
  | some _, .incMaxBuffers, none => isFalse id
  | some _, .decMaxBuffers, none => isFalse id
  | some _, .read _ _, none => isFalse id
  | none, _, _ => isFalse id

/-- A block that is filled short is read as far as it is filled, and one that could not be
filled goes with the map. -/
def survivingRun : List Call :=
  [.allocateFileCache 32 0 2 8 32768, .enableFileCache true, .read 0 3, .read 1 4,
    .allocateFileCache 1 2 1 0 0, .read 2 2, .allocateFileCache 1 2 4 0 0, .read 2 2, .read 0 9]

theorem survives_of_undamaged_survivingRun :
    system.Keeps Survives
      (some { ofFile (ascii "survives") with disk := [.short 5, .error 5] }) survivingRun :=
  survives_of_undamaged (ascii "survives") [.short 5, .error 5] survivingRun (by decide +kernel)

/-- Two reads of one piece, whose block the first one leaves as it is. -/
def damagedRun (pos : UInt64) : List Call :=
  [.allocateFileCache 32 0 2 8 32768, .enableFileCache true, .read 0 3, .read pos 2]

/-- After an error the next read takes the piece for the end of the file. After a short read,
one behind it copies a length that is negative. -/
theorem damagedRun_not_survives :
    (system.Meets Served (some { ofFile (ascii "damaged") with disk := [.error 5] })
        (damagedRun 0) ∧
      ¬ system.Keeps Survives (some { ofFile (ascii "damaged") with disk := [.error 5] })
        (damagedRun 0)) ∧
    (system.Meets Served (some { ofFile (ascii "damaged") with disk := [.short 2] })
        (damagedRun 4) ∧
      ¬ system.Keeps Survives (some { ofFile (ascii "damaged") with disk := [.short 2] })
        (damagedRun 4)) := by
  decide +kernel

end FileSource

end CxxFramework.Core
