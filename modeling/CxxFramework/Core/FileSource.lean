import CxxFramework.Core.CString
import CxxFramework.Library.Buffer
import Mathlib.Algebra.Group.Int.Defs
import Mathlib.Algebra.Group.Nat.Defs
import Mathlib.Logic.Function.Basic

/-!
# File source

A file that is read by position, either directly or through a cache of equal blocks. The
cache keeps at most `fMaxBuffers` blocks and gives up the one that was used least recently.

A step that fails an `Assert`, follows a pointer that is null or was never set, leaves the
map array, divides by zero or copies what was never written has the result `none`.

## Main definitions

* `FileBlockPool` — the blocks in the order of their use.
* `FileMap` — the block for each piece of the file.
* `FileSource.read` — a read, through the cache where it is on and reaches far enough.
* `FileSource.readFromPos` — a plain read.
* `FileSource.step` — one call on a source.
-/

namespace CxxFramework.Core

open Buffer

/-- The address of a `FileBlockBuffer`. -/
abbrev BufPtr := Nat

structure FileBlockBuffer where
  fArrayIndex : Int := -1
  fBufferSize : Nat := 0
  fBufferFillSize : Nat := 0
  /-- What has been written; the bytes after it have no value yet. -/
  fDataBuffer : Bytes := []
deriving DecidableEq, Repr

/-! ## Block pool -/

/-- `FileBlockPool::kBufferUnitSize` -/
def kBufferUnitSize : Nat := 32768

structure FileBlockPool where
  /-- The head, which is the least recently used block, comes first. -/
  fQueue : List BufPtr := []
  fMaxBuffers : Nat := 1
  fNumCurrentBuffers : Nat := 0
  fBufferInc : Nat := 0
  fBufferUnitSizeBytes : Nat := kBufferUnitSize
  /-- The allocated blocks, and the address of the next one. -/
  fBlocks : BufPtr → Option FileBlockBuffer := fun _ => none
  fFree : BufPtr := 0

namespace FileBlockPool

def setMaxBuffers (pool : FileBlockPool) (maxBuffers : Nat) : FileBlockPool :=
  if maxBuffers > 0 then { pool with fMaxBuffers := maxBuffers } else pool

def setBuffIncValue (pool : FileBlockPool) (bufferInc : Nat) : FileBlockPool :=
  if bufferInc > 0 then { pool with fBufferInc := bufferInc } else pool

def incMaxBuffers (pool : FileBlockPool) : FileBlockPool :=
  { pool with fMaxBuffers := (pool.fMaxBuffers + pool.fBufferInc) % 2 ^ 32 }

def decMaxBuffers (pool : FileBlockPool) : FileBlockPool :=
  if pool.fMaxBuffers > pool.fBufferInc then
    { pool with fMaxBuffers := pool.fMaxBuffers - pool.fBufferInc }
  else pool

def decCurBuffers (pool : FileBlockPool) : FileBlockPool :=
  { pool with fNumCurrentBuffers := pool.fNumCurrentBuffers - 1 }

def setBufferUnitSize (pool : FileBlockPool) (inUnitSizeInK : Nat) : FileBlockPool :=
  { pool with fBufferUnitSizeBytes := inUnitSizeInK * 1024 % 2 ^ 32 }

def setBlock (pool : FileBlockPool) (p : BufPtr) (block : Option FileBlockBuffer) :
    FileBlockPool :=
  { pool with fBlocks := Function.update pool.fBlocks p block }

/-- `FileBlockPool::MarkUsed`, of a block that is not null. -/
def markUsed (pool : FileBlockPool) (inBuffPtr : BufPtr) : FileBlockPool :=
  if pool.fQueue.getLast? ≠ some inBuffPtr then
    { pool with fQueue := pool.fQueue.erase inBuffPtr ++ [inBuffPtr] }
  else pool

/-- `FileBlockPool::GetBufferElement`: a new block, or the head of the queue, or null. -/
def getBufferElement (pool : FileBlockPool) (bufferSizeBytes : Nat) :
    Option BufPtr × FileBlockPool :=
  if pool.fNumCurrentBuffers < pool.fMaxBuffers then
    (some pool.fFree,
      { pool.setBlock pool.fFree (some { fBufferSize := bufferSizeBytes }) with
        fQueue := pool.fQueue ++ [pool.fFree]
        fNumCurrentBuffers := pool.fNumCurrentBuffers + 1
        fFree := pool.fFree + 1 })
  else
    (pool.fQueue.head?, { pool with fQueue := pool.fQueue.tail })

/-- `FileBlockPool::DeleteBlockPool`. The increment keeps its value. -/
def deleteBlockPool (pool : FileBlockPool) : FileBlockPool :=
  { pool with
    fQueue := []
    fBlocks := fun p => if p ∈ pool.fQueue then none else pool.fBlocks p
    fMaxBuffers := 1
    fNumCurrentBuffers := 0
    fBufferUnitSizeBytes := kBufferUnitSize }

end FileBlockPool

/-! ## File map -/

/-- An entry of the map array. What `Clean` does not reach is not set. -/
inductive Cell
  | unset
  | null
  | block (p : BufPtr)
deriving DecidableEq, Repr

structure FileMap where
  fBlockPool : FileBlockPool := {}
  fFileMapArray : Option (List Cell) := none
  fDataBufferSize : Nat := 0
  fMapArraySize : Nat := 0
  fNumBuffSizeUnits : Nat := 0

/-- The conversion to `SInt32`. -/
def toSInt32 (n : Nat) : Int := Int.bmod n (2 ^ 32)

namespace FileMap

def initialized (map : FileMap) : Bool := map.fFileMapArray.isSome

def getBuffIndex (map : FileMap) (inPosition : Nat) : Nat := inPosition / map.fDataBufferSize

def getMaxBuffIndex (map : FileMap) : Nat := map.fMapArraySize - 1

def getBuffOffset (map : FileMap) (bufIndex : Nat) : Nat := bufIndex * map.fDataBufferSize

/-- The assignment to an entry of the array. -/
def setCell (map : FileMap) (bufIndex : Int) (cell : Cell) : Option FileMap := do
  let cells ← map.fFileMapArray
  if 0 ≤ bufIndex ∧ bufIndex < cells.length then
    some { map with fFileMapArray := some (cells.set bufIndex.toNat cell) }
  else none

/-- The block an entry of the array points to. -/
def blockAt (map : FileMap) (bufIndex : Nat) : Option (BufPtr × FileBlockBuffer) := do
  let cells ← map.fFileMapArray
  match cells[bufIndex]? with
  | some (.block p) => return (p, ← map.fBlockPool.fBlocks p)
  | _ => none

/-- `FileMap::Clean`: zeroes as many bytes as eight times the map size converts to. -/
def clean (map : FileMap) : Option FileMap := do
  let cells ← map.fFileMapArray
  let bytes := toSInt32 (8 * map.fMapArraySize)
  if 0 ≤ bytes ∧ bytes ≤ 8 * cells.length then
    let n := bytes.toNat / 8
    some { map with fFileMapArray := some (List.replicate n .null ++ cells.drop n) }
  else none

/-- The size of a buffer in units, as `AllocateBufferMap` settles it. -/
def buffSizeUnits (unitSizeBytes inNumBuffSizeUnits inMaxBitRateBuffSizeInBlocks
    inBitRate : Nat) : Option Nat :=
  if inNumBuffSizeUnits = 0 then
    let inBitRate :=
      if inBitRate = 0 then inMaxBitRateBuffSizeInBlocks * unitSizeBytes % 2 ^ 32 else inBitRate
    if unitSizeBytes = 0 then none
    else some (max 1 (min (inBitRate / unitSizeBytes) inMaxBitRateBuffSizeInBlocks))
  else some inNumBuffSizeUnits

/-- The end of `AllocateBufferMap`: the map for a file, with the new sizes. The array has as
many entries as the map size and one convert to. -/
def newMap (pool : FileBlockPool) (dataBufferSize inNumBuffSizeUnits fileLen : Nat) :
    Option FileMap :=
  if dataBufferSize = 0 then none
  else
    let mapArraySize := fileLen / dataBufferSize + 1
    let entries := toSInt32 (mapArraySize + 1)
    if entries < 0 then none
    else
      clean
        { fBlockPool := pool
          fFileMapArray := some (List.replicate entries.toNat .unset)
          fDataBufferSize := dataBufferSize
          fMapArraySize := mapArraySize
          fNumBuffSizeUnits := inNumBuffSizeUnits }

/-- `FileMap::AllocateBufferMap`. The pool is reset before its unit size is used. -/
def allocateBufferMap (map : FileMap) (inUnitSizeInK inNumBuffSizeUnits inBufferIncCount
    inMaxBitRateBuffSizeInBlocks fileLen inBitRate : Nat) : Option FileMap := do
  if map.initialized ∧ map.fNumBuffSizeUnits = inNumBuffSizeUnits ∧
      inBufferIncCount = map.fBlockPool.fMaxBuffers then
    return map
  let pool := map.fBlockPool.setBufferUnitSize (max 1 inUnitSizeInK)
  let units ← buffSizeUnits pool.fBufferUnitSizeBytes inNumBuffSizeUnits
    inMaxBitRateBuffSizeInBlocks inBitRate
  let pool := pool.deleteBlockPool
  let dataBufferSize := pool.fBufferUnitSizeBytes * units % 2 ^ 32
  let pool := (pool.setMaxBuffers inBufferIncCount).setBuffIncValue inBufferIncCount
  newMap pool dataBufferSize units fileLen

/-- The loop of `FileMap::DeleteOldBuffs`. Each round takes one off the number of blocks. -/
def deleteOldBuffsLoop : Nat → FileMap → Option FileMap
  | 0, map => some map
  | rounds + 1, map =>
    if map.fBlockPool.fNumCurrentBuffers > map.fBlockPool.fMaxBuffers then do
      let (elem, pool) := map.fBlockPool.getBufferElement map.fDataBufferSize
      let p ← elem
      let theElem ← pool.fBlocks p
      let map ← { map with fBlockPool := pool }.setCell theElem.fArrayIndex .null
      deleteOldBuffsLoop rounds
        { map with fBlockPool := (map.fBlockPool.setBlock p none).decCurBuffers }
    else some map

/-- `FileMap::DeleteOldBuffs` -/
def deleteOldBuffs (map : FileMap) : Option FileMap :=
  deleteOldBuffsLoop map.fBlockPool.fNumCurrentBuffers map

/-- The element `GetBuffer` works on: the one in the map, or one from the pool. -/
def findElement (map : FileMap) (buffIndex : Nat) : Option (BufPtr × FileMap) := do
  let cells ← map.fFileMapArray
  match cells[buffIndex]? with
  | some (.block p) => some (p, map)
  | some .null =>
    let (elem, pool) := map.fBlockPool.getBufferElement map.fDataBufferSize
    return (← elem, { map with fBlockPool := pool })
  | _ => none

/-- The `Assert` on the index in `GetBuffer`. -/
def assertIndex (map : FileMap) (buffIndex : Nat) : Bool :=
  decide ((buffIndex : Int) < toSInt32 map.fMapArraySize)

/-- `FileMap::GetBuffer`: the block of the piece, and whether it is still to be filled. -/
def getBuffer (map : FileMap) (buffIndex : Nat) : Option (Bool × BufPtr × FileMap) := do
  let map ← map.deleteOldBuffs
  if !map.assertIndex buffIndex then none
  let (p, map) ← map.findElement buffIndex
  let map := { map with fBlockPool := map.fBlockPool.markUsed p }
  let theElem ← map.fBlockPool.fBlocks p
  if theElem.fArrayIndex = (buffIndex : Int) then
    return (false, p, map)
  let map ← if theElem.fArrayIndex ≥ 0 then map.setCell theElem.fArrayIndex .null else some map
  let map ← map.setCell buffIndex (.block p)
  return (true, p,
    { map with
      fBlockPool := map.fBlockPool.setBlock p (some { theElem with fArrayIndex := buffIndex }) })

end FileMap

/-! ## File source -/

/-- What becomes of one call of `read`: all that is there, less of it, or a failure. -/
inductive DiskRead
  | full
  | short (n : Nat)
  | error (errno : Int)
deriving DecidableEq, Repr

/-- The most bytes one call of `read` transfers. -/
def kMaxReadCount : Nat := 0x7ffff000

structure FileSource where
  fFile : Bytes
  fLength : Nat
  fPosition : Nat := 0
  fFileMap : FileMap := {}
  fCacheEnabled : Bool := false
  /-- The outcomes of the coming calls of `read`; those after them are full. -/
  disk : List DiskRead := []

/-- What a read returns, puts in the buffer and stores as the received length, if it does. -/
structure ReadResult where
  err : Int
  bytes : Bytes
  outRcvLen : Option Nat
deriving DecidableEq, Repr

namespace FileSource

def OS_NoErr : Int := 0
def EINVAL : Int := 22

def ofFile (file : Bytes) : FileSource := { fFile := file, fLength := file.length }

/-- `FileSource::ReadFromDisk` -/
def readFromDisk (source : FileSource) (inLength : Nat) : ReadResult × FileSource :=
  if source.fPosition ≥ 2 ^ 63 then (⟨EINVAL, [], none⟩, source)
  else
    let received := slice source.fFile source.fPosition (min inLength kMaxReadCount)
    let done (bytes : Bytes) : ReadResult × FileSource :=
      (⟨OS_NoErr, bytes, some bytes.length⟩,
        { source with
          fPosition := source.fPosition + bytes.length
          disk := source.disk.tail })
    match source.disk.head? with
    | none | some .full => done received
    | some (.short n) => done (received.take n)
    | some (.error errno) => (⟨errno, [], none⟩, { source with disk := source.disk.tail })

/-- `FileSource::ReadFromPos` -/
def readFromPos (source : FileSource) (inPosition inLength : Nat) : ReadResult × FileSource :=
  readFromDisk { source with fPosition := inPosition } inLength

/-- `FileSource::FillBuffer`. The fill size is set even when the read fails. -/
def fillBuffer (source : FileSource) (buffStart : BufPtr) (buffIndex : Nat) :
    Option (Int × FileSource) := do
  let buffSize := source.fFileMap.fDataBufferSize
  let (result, source) := source.readFromPos (buffIndex * buffSize) buffSize
  let buffer ← source.fFileMap.fBlockPool.fBlocks buffStart
  if result.bytes.length > buffer.fBufferSize then none
  else
    let pool := source.fFileMap.fBlockPool.setBlock buffStart
      (some { buffer with
        fDataBuffer := result.bytes ++ buffer.fDataBuffer.drop result.bytes.length })
    let source := { source with fFileMap := { source.fFileMap with fBlockPool := pool } }
    let (p, block) ← source.fFileMap.blockAt buffIndex
    let pool := source.fFileMap.fBlockPool.setBlock p
      (some { block with fBufferFillSize := result.outRcvLen.getD 0 })
    return (result.err, { source with fFileMap := { source.fFileMap with fBlockPool := pool } })

/-- `memcpy` out of a buffer, with a length that is converted to `UInt32`. -/
def copyOut (buffer : Bytes) (buffPos : Nat) (length : Int) : Option Bytes :=
  let length := (length % 2 ^ 32).toNat
  if buffPos + length ≤ buffer.length then some (slice buffer buffPos length) else none

/-- The head of a round of `ReadFromCache`: the block of the piece, filled if it was not. -/
def loadBuffer (source : FileSource) (buffIndex : Nat) :
    Option (Int × BufPtr × FileSource) := do
  let (fillBuff, buffStart, map) ← source.fFileMap.getBuffer buffIndex
  let source := { source with fFileMap := map }
  if fillBuff then
    let (theErr, source) ← source.fillBuffer buffStart buffIndex
    return (theErr, buffStart, source)
  else
    return (OS_NoErr, buffStart, source)

/-- The loop of `FileSource::ReadFromCache`, in at most `rounds` rounds. At the head of a
round `buffCopyLen` is `bytesToCopy`. -/
def copyLoop (endIndex maxIndex : Nat) : (rounds : Nat) → (source : FileSource) →
    (buffIndex buffPos : Nat) → (bytesToCopy : Int) → (buffOut : Bytes) → (outRcvLen : Nat) →
    Option (ReadResult × FileSource)
  | 0, source, _, _, _, buffOut, outRcvLen =>
    some (⟨OS_NoErr, buffOut, some outRcvLen⟩, source)
  | rounds + 1, source, buffIndex, buffPos, bytesToCopy, buffOut, outRcvLen =>
    if buffIndex ≤ endIndex ∧ buffIndex ≤ maxIndex then do
      let maxBuffSize : Int := source.fFileMap.fDataBufferSize
      let (theErr, buffStart, source) ← source.loadBuffer buffIndex
      if theErr ≠ OS_NoErr then
        return (⟨theErr, buffOut, some outRcvLen⟩, source)
      let buffer ← source.fFileMap.fBlockPool.fBlocks buffStart
      let (_, block) ← source.fFileMap.blockAt buffIndex
      let buffSize : Int := block.fBufferFillSize
      if buffPos = 0 ∧ bytesToCopy ≤ maxBuffSize ∧ buffSize < bytesToCopy then
        -- that's all there is in the file
        let copied ← copyOut buffer.fDataBuffer buffPos buffSize
        return (⟨OS_NoErr, buffOut ++ copied,
          some ((outRcvLen + copied.length) % 2 ^ 32)⟩, source)
      let buffOffsetLen := buffSize - buffPos
      let buffCopyLen := if bytesToCopy ≥ buffOffsetLen then buffOffsetLen else bytesToCopy
      if buffCopyLen > buffSize ∨ bytesToCopy - buffCopyLen < 0 then none
      else
        let copied ← copyOut buffer.fDataBuffer buffPos buffCopyLen
        copyLoop endIndex maxIndex rounds source (buffIndex + 1) 0 (bytesToCopy - buffCopyLen)
          (buffOut ++ copied) ((outRcvLen + copied.length) % 2 ^ 32)
    else
      some (⟨OS_NoErr, buffOut, some outRcvLen⟩, source)

/-- `FileSource::ReadFromCache` -/
def readFromCache (source : FileSource) (inPosition inLength : Nat) :
    Option (ReadResult × FileSource) :=
  if inPosition ≥ source.fLength then -- eof
    some (⟨OS_NoErr, [], some 0⟩, source)
  else
    let map := source.fFileMap
    let buffIndex := map.getBuffIndex inPosition
    let endIndex := map.getBuffIndex ((inPosition + inLength) % 2 ^ 64)
    let maxIndex := map.getMaxBuffIndex
    let buffPos := inPosition - map.getBuffOffset buffIndex
    if buffIndex > endIndex ∨ endIndex > maxIndex then none
    else copyLoop endIndex maxIndex (endIndex + 1 - buffIndex) source buffIndex buffPos inLength
      [] 0

/-- Whether `Read` goes to the cache. -/
def readsCache (source : FileSource) (inPosition inLength : Nat) : Bool :=
  source.fFileMap.initialized && source.fCacheEnabled &&
    decide (source.fFileMap.getBuffIndex ((inPosition + inLength) % 2 ^ 64) ≤
      source.fFileMap.getMaxBuffIndex)

/-- `FileSource::Read` -/
def read (source : FileSource) (inPosition inLength : Nat) : Option (ReadResult × FileSource) :=
  if source.readsCache inPosition inLength then source.readFromCache inPosition inLength
  else some (source.readFromPos inPosition inLength)

/-! ## Calls -/

/-- The calls on a file source. -/
inductive Call
  | allocateFileCache (inUnitSizeInK bufferSizeUnits incBuffers inMaxBitRateBuffSizeInBlocks
      inBitRate : UInt32)
  | enableFileCache (enabled : Bool)
  | incMaxBuffers
  | decMaxBuffers
  | read (inPosition : UInt64) (inLength : UInt32)
deriving DecidableEq, Repr

def withPool (source : FileSource) (pool : FileBlockPool) : FileSource :=
  { source with fFileMap := { source.fFileMap with fBlockPool := pool } }

/-- One call, and what it returns if it is a read. -/
def step (source : FileSource) : Call → Option (Option ReadResult × FileSource)
  | .allocateFileCache inUnitSizeInK bufferSizeUnits incBuffers inMaxBitRateBuffSizeInBlocks
      inBitRate => do
    let map ← source.fFileMap.allocateBufferMap inUnitSizeInK.toNat bufferSizeUnits.toNat
      incBuffers.toNat inMaxBitRateBuffSizeInBlocks.toNat source.fLength inBitRate.toNat
    return (none, { source with fFileMap := map })
  | .enableFileCache enabled => some (none, { source with fCacheEnabled := enabled })
  | .incMaxBuffers => some (none, source.withPool source.fFileMap.fBlockPool.incMaxBuffers)
  | .decMaxBuffers => some (none, source.withPool source.fFileMap.fBlockPool.decMaxBuffers)
  | .read inPosition inLength => do
    let (result, source) ← source.read inPosition.toNat inLength.toNat
    return (some result, source)

end FileSource

end CxxFramework.Core
