import CxxFramework.Core.FileSource
import Mathlib.Data.List.Infix
import Mathlib.Data.List.Nodup
import Mathlib.Tactic.Common

/-!
# The file map

`GetBuffer` finds the block of a piece of the file, makes one or takes the one that was used
least recently. Map array and queue of blocks stay in agreement, whatever the blocks hold.

## Main definitions

* `Linked` — the map array and the queue of blocks agree.
* `Mapped` — moreover the sizes are in range and the blocks are counted.
* `FileMap.Finds` — what `GetBuffer` gives.
-/

namespace CxxFramework.Core

/-! ## The map and the queue -/

/-- The entries of the map are the blocks of the queue, each at its index, and the block
at `k` is one that `Fits k`. -/
structure Linked (Fits : Nat → FileBlockBuffer → Prop) (count : Nat) (cells : List Cell)
    (queue : List BufPtr) (blocks : BufPtr → Option FileBlockBuffer) : Prop where
  count_le : count ≤ cells.length
  clean : ∀ k < count, cells[k]? ≠ some .unset
  nodup : queue.Nodup
  placed : ∀ p ∈ queue, ∃ k < count, cells[k]? = some (.block p)
  owned : ∀ k < count, ∀ p, cells[k]? = some (.block p) →
    p ∈ queue ∧ ∃ block, blocks p = some block ∧ block.fArrayIndex = k ∧ Fits k block

namespace Linked

variable {Fits : Nat → FileBlockBuffer → Prop} {count : Nat} {cells : List Cell}
  {queue : List BufPtr} {blocks blocks' : BufPtr → Option FileBlockBuffer} {k : Nat} {p : BufPtr}

theorem of_null (h : ∀ k < count, cells[k]? = some .null) :
    Linked Fits count cells [] blocks where
  count_le := by
    by_contra hlt
    have hnull := h cells.length (by omega)
    simp at hnull
  clean k hk := by simp [h k hk]
  nodup := List.nodup_nil
  placed := by simp
  owned k hk p hp := by simp [h k hk] at hp

theorem mono {Fits' : Nat → FileBlockBuffer → Prop} (h : Linked Fits count cells queue blocks)
    (himp : ∀ k < count, ∀ p block, cells[k]? = some (.block p) → blocks p = some block →
      Fits k block → Fits' k block) : Linked Fits' count cells queue blocks where
  count_le := h.count_le
  clean := h.clean
  nodup := h.nodup
  placed := h.placed
  owned k hk p hp := by
    obtain ⟨hq, block, hblock, hindex, hfits⟩ := h.owned k hk p hp
    exact ⟨hq, block, hblock, hindex, himp k hk p block hp hblock hfits⟩

theorem perm {queue' : List BufPtr} (h : Linked Fits count cells queue blocks)
    (hperm : queue.Perm queue') : Linked Fits count cells queue' blocks where
  count_le := h.count_le
  clean := h.clean
  nodup := hperm.nodup h.nodup
  placed p hp := h.placed p (hperm.mem_iff.mpr hp)
  owned k hk p hp := by
    obtain ⟨hq, hblock⟩ := h.owned k hk p hp
    exact ⟨hperm.mem_iff.mp hq, hblock⟩

/-- No block stands at two entries. -/
theorem index_unique (h : Linked Fits count cells queue blocks) {j : Nat} (hk : k < count)
    (hj : j < count) (hkp : cells[k]? = some (.block p)) (hjp : cells[j]? = some (.block p)) :
    k = j := by
  obtain ⟨-, block, hblock, hki, -⟩ := h.owned k hk p hkp
  obtain ⟨-, block', hblock', hji, -⟩ := h.owned j hj p hjp
  obtain rfl : block = block' := Option.some.inj (hblock.symm.trans hblock')
  omega

/-- The block that is taken from the head of the queue leaves its entry. -/
theorem remove (h : Linked Fits count cells (p :: queue) blocks) (hk : k < count)
    (hkp : cells[k]? = some (.block p)) (hblocks : ∀ q ≠ p, blocks' q = blocks q) :
    Linked Fits count (cells.set k .null) queue blocks' where
  count_le := by simpa using h.count_le
  clean j hj := by
    rw [List.getElem?_set]
    split
    · split <;> simp
    · exact h.clean j hj
  nodup := h.nodup.of_cons
  placed q hq := by
    obtain ⟨j, hj, hjq⟩ := h.placed q (List.mem_cons_of_mem _ hq)
    refine ⟨j, hj, ?_⟩
    have hne : k ≠ j := by
      rintro rfl
      rw [hkp] at hjq
      obtain rfl : p = q := by simpa using hjq
      exact (List.nodup_cons.mp h.nodup).1 hq
    rwa [List.getElem?_set_ne hne]
  owned j hj q hq := by
    have hne : k ≠ j := by
      rintro rfl
      have hlen := lt_of_lt_of_le hj h.count_le
      simp [hlen] at hq
    rw [List.getElem?_set_ne hne] at hq
    obtain ⟨hmem, hblock⟩ := h.owned j hj q hq
    have hqp : q ≠ p := by
      rintro rfl
      exact hne (h.index_unique hk hj hkp hq)
    exact ⟨(List.mem_cons.mp hmem).resolve_left hqp, by rwa [hblocks q hqp]⟩

/-- A block that is not in the queue can be put at an entry that is null. -/
theorem insert (h : Linked Fits count cells queue blocks) (hk : k < count)
    (hnull : cells[k]? = some .null) (hp : p ∉ queue) {block : FileBlockBuffer}
    (hindex : block.fArrayIndex = k) (hfits : Fits k block) (hp' : blocks' p = some block)
    (hblocks : ∀ q ≠ p, blocks' q = blocks q) :
    Linked Fits count (cells.set k (.block p)) (queue ++ [p]) blocks' where
  count_le := by simpa using h.count_le
  clean j hj := by
    rw [List.getElem?_set]
    split
    · split <;> simp
    · exact h.clean j hj
  nodup := by
    rw [List.nodup_append]
    refine ⟨h.nodup, List.nodup_singleton p, ?_⟩
    rintro q hq r hr rfl
    obtain rfl : q = p := by simpa using hr
    exact hp hq
  placed q hq := by
    rcases List.mem_append.mp hq with hq | hq
    · obtain ⟨j, hj, hjq⟩ := h.placed q hq
      refine ⟨j, hj, ?_⟩
      have hne : k ≠ j := by
        rintro rfl
        simp [hnull] at hjq
      rwa [List.getElem?_set_ne hne]
    · obtain rfl : q = p := by simpa using hq
      refine ⟨k, hk, ?_⟩
      rw [List.getElem?_set_self (lt_of_lt_of_le hk h.count_le)]
  owned j hj q hq := by
    rw [List.getElem?_set] at hq
    split at hq
    next hkj =>
      subst hkj
      rw [if_pos (lt_of_lt_of_le hk h.count_le)] at hq
      obtain rfl : p = q := by simpa using hq
      exact ⟨by simp, block, hp', hindex, hfits⟩
    next =>
      obtain ⟨hmem, hblock⟩ := h.owned j hj q hq
      have hqp : q ≠ p := by
        rintro rfl
        exact hp hmem
      exact ⟨List.mem_append_left _ hmem, by rwa [hblocks q hqp]⟩

end Linked

/-! ## The map -/

/-- The number of blocks is the length of the queue, and a new block is not in it. -/
structure FileBlockPool.Counted (pool : FileBlockPool) : Prop where
  count : pool.fQueue.length = pool.fNumCurrentBuffers
  fresh : ∀ p ∈ pool.fQueue, p < pool.fFree

/-- The block has the size of the buffers of the map, and is one that `Fits k`. -/
def SizedFits (map : FileMap) (Fits : Nat → FileBlockBuffer → Prop) (k : Nat)
    (block : FileBlockBuffer) : Prop :=
  block.fBufferSize = map.fDataBufferSize ∧ Fits k block

/-- The map is in order, and the block of each piece `k` is one that `Fits k`. -/
structure Mapped (Fits : Nat → FileBlockBuffer → Prop) (map : FileMap) (cells : List Cell) :
    Prop where
  array : map.fFileMapArray = some cells
  size_pos : 0 < map.fDataBufferSize
  size_lt : map.fDataBufferSize < 2 ^ 32
  mapSize_pos : 0 < map.fMapArraySize
  mapSize_lt : map.fMapArraySize < 2 ^ 28
  counted : map.fBlockPool.Counted
  linked : Linked (SizedFits map Fits) map.fMapArraySize cells map.fBlockPool.fQueue
    map.fBlockPool.fBlocks

/-- Neither the sizes nor the limit of the pool change. -/
structure FileMap.SameSizes (map map' : FileMap) : Prop where
  size : map'.fDataBufferSize = map.fDataBufferSize
  mapSize : map'.fMapArraySize = map.fMapArraySize
  limit : map'.fBlockPool.fMaxBuffers = map.fBlockPool.fMaxBuffers

theorem FileMap.SameSizes.trans {a b c : FileMap} (h : a.SameSizes b) (h' : b.SameSizes c) :
    a.SameSizes c :=
  ⟨h'.size.trans h.size, h'.mapSize.trans h.mapSize, h'.limit.trans h.limit⟩

namespace FileMap

variable {map : FileMap} {cells : List Cell} {k : Nat} {p : BufPtr}

theorem setCell_eq (map : FileMap) (harray : map.fFileMapArray = some cells)
    (hk : k < cells.length) (cell : Cell) :
    map.setCell k cell = some { map with fFileMapArray := some (cells.set k cell) } := by
  simp [setCell, harray, hk]

theorem blockAt_eq (map : FileMap) (harray : map.fFileMapArray = some cells)
    {block : FileBlockBuffer}
    (hcell : cells[k]? = some (.block p)) (hblock : map.fBlockPool.fBlocks p = some block) :
    map.blockAt k = some (p, block) := by
  simp [blockAt, harray, hcell, hblock]

end FileMap

namespace Mapped

variable {Fits Fits' : Nat → FileBlockBuffer → Prop} {map : FileMap} {cells : List Cell} {k : Nat}
  {p : BufPtr} {block : FileBlockBuffer}

/-- The block of a piece of the map. -/
theorem of_blockAt (h : Mapped Fits map cells) (hk : k < map.fMapArraySize)
    (hat : map.blockAt k = some (p, block)) : cells[k]? = some (.block p) ∧ Fits k block := by
  unfold FileMap.blockAt at hat
  rw [h.array, Option.bind_eq_bind, Option.bind_some] at hat
  split at hat
  next q hcell =>
    obtain ⟨found, hfound, hat⟩ := Option.bind_eq_some_iff.mp hat
    cases hat
    obtain ⟨-, owned, howned, -, -, hfits⟩ := h.linked.owned k hk p hcell
    cases hfound.symm.trans howned
    exact ⟨hcell, hfits⟩
  next => cases hat

theorem refine (h : Mapped Fits map cells)
    (himp : ∀ k < map.fMapArraySize, ∀ p block, map.blockAt k = some (p, block) →
      Fits k block → Fits' k block) : Mapped Fits' map cells where
  array := h.array
  size_pos := h.size_pos
  size_lt := h.size_lt
  mapSize_pos := h.mapSize_pos
  mapSize_lt := h.mapSize_lt
  counted := h.counted
  linked := h.linked.mono fun k hk p block hcell hblock hfits =>
    ⟨hfits.1, himp k hk p block (FileMap.blockAt_eq map h.array hcell hblock) hfits.2⟩

end Mapped

/-! ## The pool -/

namespace FileBlockPool

variable {pool : FileBlockPool} {p : BufPtr} {queue : List BufPtr}

/-- A pool that is not full makes a new block. -/
theorem getBufferElement_new (h : pool.fNumCurrentBuffers < pool.fMaxBuffers) (size : Nat) :
    pool.getBufferElement size =
      (some pool.fFree,
        { pool.setBlock pool.fFree (some { fBufferSize := size }) with
          fQueue := pool.fQueue ++ [pool.fFree]
          fNumCurrentBuffers := pool.fNumCurrentBuffers + 1
          fFree := pool.fFree + 1 }) := by
  simp [getBufferElement, h]

/-- A full pool gives its least recently used block. -/
theorem getBufferElement_full (h : ¬ pool.fNumCurrentBuffers < pool.fMaxBuffers)
    (hq : pool.fQueue = p :: queue) (size : Nat) :
    pool.getBufferElement size = (some p, { pool with fQueue := queue }) := by
  simp [getBufferElement, h, hq]

/-- Only the order of the queue changes. -/
theorem markUsed_of_mem (hp : p ∈ pool.fQueue) :
    ∃ queue, pool.fQueue.Perm queue ∧ pool.markUsed p = { pool with fQueue := queue } := by
  unfold markUsed
  split
  · refine ⟨pool.fQueue.erase p ++ [p], ?_, rfl⟩
    exact (List.perm_cons_erase hp).trans (List.perm_append_singleton p _).symm
  · exact ⟨pool.fQueue, .refl _, rfl⟩

/-- A block that is in no queue is put on its tail. -/
theorem markUsed_of_not_mem (hp : p ∉ pool.fQueue) :
    pool.markUsed p = { pool with fQueue := pool.fQueue ++ [p] } := by
  have hlast : pool.fQueue.getLast? ≠ some p := fun h => hp (List.mem_of_getLast? h)
  simp [markUsed, hlast, List.erase_of_not_mem hp]

/-- The block that was last put on the tail stays there. -/
theorem markUsed_of_last (hq : pool.fQueue = queue ++ [p]) : pool.markUsed p = pool := by
  simp [markUsed, hq]

end FileBlockPool

/-! ## Buffers of the map -/

namespace FileMap

variable {Fits : Nat → FileBlockBuffer → Prop} {map : FileMap} {cells : List Cell} {k : Nat}
    {p : BufPtr}

/-- The block at the head of the queue, and the piece it stands for. -/
theorem exists_head (h : Mapped Fits map cells) (hq : map.fBlockPool.fQueue ≠ []) :
    ∃ p queue j block, map.fBlockPool.fQueue = p :: queue ∧ j < map.fMapArraySize ∧
      cells[j]? = some (.block p) ∧ map.fBlockPool.fBlocks p = some block ∧
      block.fArrayIndex = j ∧ block.fBufferSize = map.fDataBufferSize := by
  obtain ⟨p, queue, hpq⟩ := List.exists_cons_of_ne_nil hq
  obtain ⟨j, hj, hcell⟩ := h.linked.placed p (by simp [hpq])
  obtain ⟨-, block, hblock, hindex, hsize, -⟩ := h.linked.owned j hj p hcell
  exact ⟨p, queue, j, block, hpq, hj, hcell, hblock, hindex, hsize⟩

/-- Old blocks are deleted until the pool is within its limit. -/
theorem deleteOldBuffsLoop_spec (rounds : Nat) (h : Mapped Fits map cells)
    (hrounds : map.fBlockPool.fNumCurrentBuffers ≤ map.fBlockPool.fMaxBuffers + rounds) :
    ∃ map' cells', deleteOldBuffsLoop rounds map = some map' ∧ Mapped Fits map' cells' ∧
      map.SameSizes map' ∧
      map'.fBlockPool.fNumCurrentBuffers ≤ map'.fBlockPool.fMaxBuffers := by
  induction rounds generalizing map cells with
  | zero => exact ⟨map, cells, rfl, h, ⟨rfl, rfl, rfl⟩, by simpa using hrounds⟩
  | succ rounds ih =>
    by_cases hfull : map.fBlockPool.fNumCurrentBuffers > map.fBlockPool.fMaxBuffers
    · have hcount := h.counted.count
      have hne : map.fBlockPool.fQueue ≠ [] := by
        intro hnil
        simp only [hnil, List.length_nil] at hcount
        omega
      obtain ⟨p, queue, j, block, hq, hj, hcell, hblock, hindex, -⟩ := exists_head h hne
      have hlen : queue.length + 1 = map.fBlockPool.fNumCurrentBuffers := by
        simpa [hq] using hcount
      have hget := FileBlockPool.getBufferElement_full (by omega) hq map.fDataBufferSize
      have hset := setCell_eq { map with
        fBlockPool := { map.fBlockPool with fQueue := queue } } h.array
        (lt_of_lt_of_le hj h.linked.count_le) .null
      have hlinked : Linked (SizedFits map Fits) map.fMapArraySize
          (cells.set j .null) queue (Function.update map.fBlockPool.fBlocks p none) :=
        (hq ▸ h.linked).remove hj hcell fun q hqp => Function.update_of_ne hqp _ _
      let left : FileMap :=
        { map with
          fFileMapArray := some (cells.set j .null)
          fBlockPool := (FileBlockPool.setBlock { map.fBlockPool with fQueue := queue } p
            none).decCurBuffers }
      have hleft : Mapped Fits left (cells.set j .null) :=
        { array := rfl
          size_pos := h.size_pos
          size_lt := h.size_lt
          mapSize_pos := h.mapSize_pos
          mapSize_lt := h.mapSize_lt
          counted := by
            refine ⟨?_, fun q hmem => h.counted.fresh q (hq ▸ List.mem_cons_of_mem _ hmem)⟩
            simp only [left, FileBlockPool.decCurBuffers, FileBlockPool.setBlock]
            omega
          linked := hlinked }
      obtain ⟨map', cells', hloop, hcached, hsizes, hle⟩ := ih hleft <| by
        simp only [left, FileBlockPool.decCurBuffers, FileBlockPool.setBlock]
        omega
      refine ⟨map', cells', ?_, hcached, ⟨hsizes.size, hsizes.mapSize, hsizes.limit⟩, hle⟩
      rw [← hloop]
      simp [deleteOldBuffsLoop, hfull, hget, hblock, hindex, hset, left]
    · refine ⟨map, cells, ?_, h, ⟨rfl, rfl, rfl⟩, by omega⟩
      simp [deleteOldBuffsLoop, hfull]

theorem deleteOldBuffs_spec (h : Mapped Fits map cells) :
    ∃ map' cells', map.deleteOldBuffs = some map' ∧ Mapped Fits map' cells' ∧
      map.SameSizes map' ∧ map'.fBlockPool.fNumCurrentBuffers ≤ map'.fBlockPool.fMaxBuffers :=
  deleteOldBuffsLoop_spec _ h (by omega)

/-- The block `p` stands for the piece `k`, but the piece is not read yet. -/
structure Expects (Fits : Nat → FileBlockBuffer → Prop) (map : FileMap) (cells : List Cell)
    (k : Nat) (p : BufPtr) : Prop where
  array : map.fFileMapArray = some cells
  cell : cells[k]? = some (.block p)
  block : ∃ block, map.fBlockPool.fBlocks p = some block ∧ block.fArrayIndex = k ∧
    block.fBufferSize = map.fDataBufferSize
  filled : ∀ block : FileBlockBuffer, block.fArrayIndex = k →
    block.fBufferSize = map.fDataBufferSize → Fits k block →
    Mapped Fits { map with fBlockPool := map.fBlockPool.setBlock p (some block) } cells

/-- What `GetBuffer` gives for the piece `k`: its block, or one that expects it. -/
def Finds (Fits : Nat → FileBlockBuffer → Prop) (map : FileMap) (k : Nat)
    (result : Option (Bool × BufPtr × FileMap)) : Prop :=
  ∃ p map' cells', map.SameSizes map' ∧
    (result = some (false, p, map') ∧ Mapped Fits map' cells' ∧
        cells'[k]? = some (.block p) ∨
      result = some (true, p, map') ∧ Expects Fits map' cells' k p)

/-- How `GetBuffer` comes to a block that is still to be filled. -/
theorem getBuffer_of_fill {start found cleared placed : FileMap} (marked : FileMap)
    {block : FileBlockBuffer}
    (hdel : start.deleteOldBuffs = some map)
    (hassert : map.assertIndex k = true)
    (hfind : map.findElement k = some (p, found))
    (hmark : marked = { found with fBlockPool := found.fBlockPool.markUsed p })
    (hblock : marked.fBlockPool.fBlocks p = some block) (hne : block.fArrayIndex ≠ k)
    (hclear : (if block.fArrayIndex ≥ 0 then marked.setCell block.fArrayIndex .null
      else some marked) = some cleared)
    (hplace : cleared.setCell k (.block p) = some placed) :
    start.getBuffer k = some (true, p, { placed with
      fBlockPool := placed.fBlockPool.setBlock p (some { block with fArrayIndex := k }) }) := by
  subst hmark
  rw [getBuffer, hdel, Option.bind_eq_bind, Option.bind_some, hassert]
  simp only [Bool.not_true, Bool.false_eq_true, if_false, hfind, Option.bind_eq_bind,
    Option.bind_some]
  rw [hblock, Option.bind_some, if_neg hne]
  split at hclear
  next hpos => simp [hpos, hclear, hplace]
  next hpos =>
    cases hclear
    simp [hpos, hplace]

/-- The block of a piece that is in the map is only marked as used. -/
theorem getBuffer_hit {start : FileMap} (hdel : start.deleteOldBuffs = some map)
    (h : Mapped Fits map cells) (hk : k < map.fMapArraySize)
    (hassert : map.assertIndex k = true) (hcell : cells[k]? = some (.block p)) :
    ∃ map', start.getBuffer k = some (false, p, map') ∧ map.SameSizes map' ∧
      Mapped Fits map' cells := by
  obtain ⟨hmem, block, hblock, hindex, -⟩ := h.linked.owned k hk p hcell
  obtain ⟨queue, hperm, hmark⟩ := FileBlockPool.markUsed_of_mem hmem
  refine ⟨{ map with fBlockPool := { map.fBlockPool with fQueue := queue } }, ?_,
    ⟨rfl, rfl, rfl⟩, ?_⟩
  · rw [getBuffer, hdel, Option.bind_eq_bind, Option.bind_some, hassert]
    simp [findElement, h.array, hcell, hmark, hblock, hindex]
  · exact
      { array := h.array
        size_pos := h.size_pos
        size_lt := h.size_lt
        mapSize_pos := h.mapSize_pos
        mapSize_lt := h.mapSize_lt
        counted :=
          ⟨hperm.length_eq.symm.trans h.counted.count,
            fun q hq => h.counted.fresh q (hperm.mem_iff.mpr hq)⟩
        linked := h.linked.perm hperm }

/-- A pool that is not full makes a new block for the piece. -/
theorem getBuffer_new {start : FileMap} (hdel : start.deleteOldBuffs = some map)
    (h : Mapped Fits map cells) (hk : k < map.fMapArraySize)
    (hassert : map.assertIndex k = true) (hcell : cells[k]? = some .null)
    (hroom : map.fBlockPool.fNumCurrentBuffers < map.fBlockPool.fMaxBuffers) :
    Finds Fits map k (start.getBuffer k) := by
  have hget := FileBlockPool.getBufferElement_new hroom map.fDataBufferSize
  have hfresh : map.fBlockPool.fFree ∉ map.fBlockPool.fQueue := fun hmem =>
    lt_irrefl _ (h.counted.fresh _ hmem)
  have hne : ¬ (-1 : Int) = k := by omega
  let pool : FileBlockPool :=
    { map.fBlockPool.setBlock map.fBlockPool.fFree
        (some { fBufferSize := map.fDataBufferSize }) with
      fQueue := map.fBlockPool.fQueue ++ [map.fBlockPool.fFree]
      fNumCurrentBuffers := map.fBlockPool.fNumCurrentBuffers + 1
      fFree := map.fBlockPool.fFree + 1 }
  have hmark : pool.markUsed map.fBlockPool.fFree = pool := FileBlockPool.markUsed_of_last rfl
  have hset := setCell_eq { map with fBlockPool := pool } h.array
    (lt_of_lt_of_le hk h.linked.count_le) (.block map.fBlockPool.fFree)
  let block : FileBlockBuffer := { fBufferSize := map.fDataBufferSize, fArrayIndex := k }
  refine ⟨map.fBlockPool.fFree,
    { map with
      fBlockPool := pool.setBlock map.fBlockPool.fFree (some block)
      fFileMapArray := some (cells.set k (.block map.fBlockPool.fFree)) }, _,
    ⟨rfl, rfl, rfl⟩, .inr ⟨?_, rfl, ?_, ⟨block, ?_, rfl, rfl⟩, ?_⟩⟩
  · have hfind : map.findElement k =
        some (map.fBlockPool.fFree, { map with fBlockPool := pool }) := by
      simp [findElement, h.array, hcell, hget, pool]
    have hblock : pool.fBlocks map.fBlockPool.fFree =
        some { fBufferSize := map.fDataBufferSize } := Function.update_self _ _ _
    exact getBuffer_of_fill _ hdel hassert hfind (by rw [hmark]) hblock hne rfl hset
  · exact List.getElem?_set_self (lt_of_lt_of_le hk h.linked.count_le)
  · exact Function.update_self _ _ _
  · intro block' hindex hsize hfits
    exact
      { array := rfl
        size_pos := h.size_pos
        size_lt := h.size_lt
        mapSize_pos := h.mapSize_pos
        mapSize_lt := h.mapSize_lt
        counted := by
          refine ⟨?_, fun q hq => ?_⟩
          · simp [pool, FileBlockPool.setBlock, h.counted.count]
          · rcases List.mem_append.mp hq with hq | hq
            · exact Nat.lt_succ_of_lt (h.counted.fresh q hq)
            · obtain rfl := List.mem_singleton.mp hq
              exact Nat.lt_succ_self _
        linked := h.linked.insert hk hcell hfresh hindex ⟨hsize, hfits⟩ (Function.update_self _ _ _)
          fun q hq => by simp [pool, FileBlockPool.setBlock, hq] }

/-- A full pool gives up the block that was used least recently. -/
theorem getBuffer_reuse {start : FileMap} (hdel : start.deleteOldBuffs = some map)
    (h : Mapped Fits map cells) (hk : k < map.fMapArraySize)
    (hassert : map.assertIndex k = true) (hcell : cells[k]? = some .null)
    (hfull : ¬ map.fBlockPool.fNumCurrentBuffers < map.fBlockPool.fMaxBuffers)
    (hmax : map.fBlockPool.fMaxBuffers ≠ 0) : Finds Fits map k (start.getBuffer k) := by
  have hne : map.fBlockPool.fQueue ≠ [] := by
    intro hnil
    have hcount := h.counted.count
    simp only [hnil, List.length_nil] at hcount
    omega
  obtain ⟨p, queue, j, block, hq, hj, hjcell, hblock, hindex, hsize⟩ := exists_head h hne
  have hjk : j ≠ k := by
    rintro rfl
    simp [hcell] at hjcell
  have hget := FileBlockPool.getBufferElement_full hfull hq map.fDataBufferSize
  have hlinked := hq ▸ h.linked
  have hp : p ∉ queue := (List.nodup_cons.mp hlinked.nodup).1
  let pool : FileBlockPool := { map.fBlockPool with fQueue := queue ++ [p] }
  have hmark : FileBlockPool.markUsed { map.fBlockPool with fQueue := queue } p = pool :=
    FileBlockPool.markUsed_of_not_mem hp
  have hreset := setCell_eq { map with fBlockPool := pool } h.array
    (lt_of_lt_of_le hj h.linked.count_le) .null
  have hset := setCell_eq
    { map with fBlockPool := pool, fFileMapArray := some (cells.set j .null) } rfl
    (by simpa using lt_of_lt_of_le hk h.linked.count_le) (.block p)
  have hremove : Linked (SizedFits map Fits) map.fMapArraySize (cells.set j .null)
      queue map.fBlockPool.fBlocks := hlinked.remove hj hjcell fun _ _ => rfl
  have hnull : (cells.set j .null)[k]? = some .null := by rwa [List.getElem?_set_ne hjk]
  refine ⟨p,
    { map with
      fBlockPool := pool.setBlock p (some { block with fArrayIndex := k })
      fFileMapArray := some ((cells.set j .null).set k (.block p)) }, _,
    ⟨rfl, rfl, rfl⟩, .inr ⟨?_, rfl, ?_, ⟨_, Function.update_self _ _ _, rfl, hsize⟩, ?_⟩⟩
  · have hfind : map.findElement k =
        some (p, { map with fBlockPool := { map.fBlockPool with fQueue := queue } }) := by
      simp [findElement, h.array, hcell, hget]
    have hblock' : pool.fBlocks p = some block := hblock
    have hother : block.fArrayIndex ≠ k := by omega
    have hpos : block.fArrayIndex ≥ 0 := by omega
    refine getBuffer_of_fill { map with fBlockPool := pool } hdel hassert hfind (by rw [hmark])
      hblock' hother ?_ hset
    rw [if_pos hpos, hindex]
    exact hreset
  · exact List.getElem?_set_self (by simpa using lt_of_lt_of_le hk h.linked.count_le)
  · intro block' hindex' hsize' hfits
    exact
      { array := rfl
        size_pos := h.size_pos
        size_lt := h.size_lt
        mapSize_pos := h.mapSize_pos
        mapSize_lt := h.mapSize_lt
        counted := by
          refine ⟨?_, fun q hmem => ?_⟩
          · have hcount := h.counted.count
            simp only [hq, List.length_cons] at hcount
            simpa [pool, FileBlockPool.setBlock] using hcount
          · refine h.counted.fresh q ?_
            rw [hq]
            have hmem' : q ∈ queue ++ [p] := hmem
            simpa [or_comm] using hmem'
        linked := hremove.insert hk hnull hp hindex' ⟨hsize', hfits⟩ (Function.update_self _ _ _)
          fun q hqp => by simp [pool, FileBlockPool.setBlock, hqp] }

theorem assertIndex_of_lt (h : Mapped Fits map cells) (hk : k < map.fMapArraySize) :
    map.assertIndex k = true := by
  have hlt := h.mapSize_lt
  have hid : toSInt32 map.fMapArraySize = map.fMapArraySize := by
    unfold toSInt32
    rw [Int.bmod_eq_of_le] <;> omega
  simpa [assertIndex, hid] using hk

/-- `GetBuffer` finds or makes the block of every piece, if the pool may hold a block. -/
theorem getBuffer_finds (h : Mapped Fits map cells) (hmax : map.fBlockPool.fMaxBuffers ≠ 0)
    (hk : k < map.fMapArraySize) : Finds Fits map k (map.getBuffer k) := by
  obtain ⟨map', cells', hdel, h', hsizes, -⟩ := deleteOldBuffs_spec h
  have hk' : k < map'.fMapArraySize := hsizes.mapSize ▸ hk
  have hassert := assertIndex_of_lt h' hk'
  have hlen : k < cells'.length := lt_of_lt_of_le hk' h'.linked.count_le
  have hgets : Finds Fits map' k (map.getBuffer k) := by
    cases hcell : cells'[k] with
    | unset =>
      exact absurd (by rw [List.getElem?_eq_getElem hlen, hcell]) (h'.linked.clean k hk')
    | block p =>
      have hblock : cells'[k]? = some (.block p) := by rw [List.getElem?_eq_getElem hlen, hcell]
      obtain ⟨map'', hget, hsizes', hmapped⟩ := getBuffer_hit hdel h' hk' hassert hblock
      exact ⟨p, map'', cells', hsizes', .inl ⟨hget, hmapped, hblock⟩⟩
    | null =>
      have hnull : cells'[k]? = some .null := by rw [List.getElem?_eq_getElem hlen, hcell]
      by_cases hroom : map'.fBlockPool.fNumCurrentBuffers < map'.fBlockPool.fMaxBuffers
      · exact getBuffer_new hdel h' hk' hassert hnull hroom
      · exact getBuffer_reuse hdel h' hk' hassert hnull hroom (by rwa [hsizes.limit])
  obtain ⟨p, map'', cells'', hsizes', hresult⟩ := hgets
  exact ⟨p, map'', cells'', hsizes.trans hsizes', hresult⟩

end FileMap

end CxxFramework.Core
