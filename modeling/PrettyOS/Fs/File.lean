import PrettyOS.Fs.Block

/-!
Contract: `general_file_write` and `general_file_read` of `fs/file.c`.

The buffer of the caller is no part of the memory of the cache; a write takes its bytes from a
function, a read yields the bytes it stores in order. The tests for null arguments have no
counterpart.
-/

namespace PrettyOS.Fs

open Library
open Lib

def oAppend : Nat := 0x0400

def einval : Int := 22

def fileSize : Nat := nrDefaultSects * sectorSize

def fileByte (disk : Nat → Nat → Nat → Byte) (dev : Nat) (iData : Nat → Nat) (pos : Nat) : Byte :=
  disk dev (iData (pos / sectorSize)) (pos % sectorSize)

structure Allocated (iData : Nat → Nat) : Prop where
  nonzero : ∀ k < nrDefaultSects, iData k ≠ 0
  injective : ∀ k < nrDefaultSects, ∀ m < nrDefaultSects, iData k = iData m → k = m

def emptyFile : MInode :=
  { clearedInode with iData := fun k => 600 + k, iDev := rootDev, iNum := 5 }

lemma allocated_emptyFile : Allocated emptyFile.iData :=
  ⟨fun k _ => Nat.ne_of_gt (Nat.lt_add_right k (by decide)),
    fun _ _ _ _ same => Nat.add_left_cancel same⟩

def sevens : Storage := { Storage.blank with disk := fun _ _ _ => 7 }

/-- The buffers of the blocks, each given back before the next one is asked for. -/
def takeAll (fuel dev : Nat) : List Nat → Buffers → Option (List Nat)
  | [], _ => some []
  | block :: blocks, cache =>
      (cache.getblk fuel dev block).bind fun (bh, cache) =>
        (cache.brelse bh).bind fun cache => (takeAll fuel dev blocks cache).map (bh :: ·)

def pieceBlocks (iData : Nat → Nat) (pieces : List (Nat × Nat)) : List Nat :=
  pieces.map fun piece => iData (piece.1 / sectorSize)

section Taking

variable {fuel dev bh pos length : Nat} {cache taken released : Buffers} {iData : Nat → Nat}
  {pieces : List (Nat × Nat)}

lemma takeAll_refused (refused : ∀ bh taken,
      cache.getblk fuel dev (iData (pos / sectorSize)) = some (bh, taken) →
        taken.brelse bh = none) :
    takeAll fuel dev (pieceBlocks iData ((pos, length) :: pieces)) cache = none := by
  show (cache.getblk fuel dev (iData (pos / sectorSize))).bind _ = none
  cases isTaken : cache.getblk fuel dev (iData (pos / sectorSize)) with
  | none => rfl
  | some found => exact congrArg (Option.bind · _) (refused found.1 found.2 isTaken)

lemma takeAll_cons (isTaken : cache.getblk fuel dev (iData (pos / sectorSize)) = some (bh, taken))
    (freed : taken.brelse bh = some released) :
    takeAll fuel dev (pieceBlocks iData ((pos, length) :: pieces)) cache =
      (takeAll fuel dev (pieceBlocks iData pieces) released).map (bh :: ·) := by
  show (cache.getblk fuel dev (iData (pos / sectorSize))).bind _ = _
  rw [isTaken, Option.bind_some]
  dsimp only
  rw [freed, Option.bind_some]
  rfl

end Taking

def storePiece (fuel dev block offset length : Nat) (source : Nat → Byte) (s : Storage) :
    Option Storage :=
  (s.getblk fuel dev block).bind fun (bh, s) =>
    let s := { s with mem := overwrite s.mem (s.cache.bData bh + offset) length source }
    (s.hdWrite dev block bh).brelse bh

def chunk (count i pos : Nat) : Nat :=
  if count < sectorSize - pos % sectorSize then count - i else sectorSize - pos % sectorSize

def grow (iSize pos : Nat) : Nat := if iSize < pos then pos % 2 ^ 16 else iSize

def writeLoop (fuel dev : Nat) (iData : Nat → Nat) (source : Nat → Byte) (count : Nat) :
    Nat → Nat → Nat → Nat → Storage → Option (Nat × Nat × Storage)
  | 0, _, _, _, _ => none
  | steps + 1, i, pos, iSize, s =>
      if i < count then
        let c := chunk count i pos
        (storePiece fuel dev (iData (pos / sectorSize)) (pos % sectorSize) c
          (fun j => source (i + j)) s).bind fun s =>
            writeLoop fuel dev iData source count steps (i + c) (pos + c) (grow iSize (pos + c)) s
      else some (i, iSize, s)

structure Written where
  result : Int
  inode : MInode
  taken : Nat
  storage : Storage

def writeStart (inode : MInode) (fFlag fPos : Nat) : Nat :=
  if fFlag &&& oAppend ≠ 0 then inode.iSize else fPos

def writeBlocks (fuel : Nat) (inode : MInode) (pos : Nat) (source : Nat → Byte) (count : Nat)
    (s : Storage) : Option Written :=
  (writeLoop fuel inode.iDev inode.iData source count (count + 1) 0 pos inode.iSize s).map
    fun (taken, iSize, s) => ⟨0, { inode with iSize := iSize, iDirty := 1 }, taken, s⟩

def generalFileWrite (fuel : Nat) (sb : SuperBlock) (inode : MInode) (fFlag fPos : Nat)
    (source : Nat → Byte) (count : Int) (s : Storage) : Option Written :=
  if count < 0 then some ⟨-einval, inode, 0, s⟩
  else if getFirstBlock inode.toDInode = 0 then
    (setBlockNums fuel inode.iDev sb nrDefaultSects inode.toDInode s).bind fun (_, blocks, s) =>
      let inode := { inode with toDInode := blocks }
      if getFirstBlock inode.toDInode = 0 then some ⟨-3, inode, 0, s⟩
      else writeBlocks fuel inode (writeStart inode fFlag fPos) source count.toNat s
  else writeBlocks fuel inode (writeStart inode fFlag fPos) source count.toNat s

def readChunk (count i : Int) (pos : Nat) : Int :=
  if count < (sectorSize - pos % sectorSize : Nat) then count - i
  else (sectorSize - pos % sectorSize : Nat)

def loadPiece (fuel dev block pos length : Nat) (s : Storage) : Option (List Byte × Storage) :=
  (s.getblk fuel dev block).bind fun (bh, s) =>
    let s := s.hdRead dev block bh
    let bytes := (List.range length).map fun j => s.mem (s.cache.bData bh + pos + j)
    (s.brelse bh).map fun s => (bytes.filter (· ≠ 0), s)

def readLoop (fuel dev : Nat) (iData : Nat → Nat) (count : Int) :
    Nat → Int → Nat → Storage → Option (List Byte × Nat × Storage)
  | 0, _, _, _ => none
  | steps + 1, i, pos, s =>
      if i < count then
        let c := readChunk count i pos
        (loadPiece fuel dev (iData (pos / sectorSize)) pos c.toNat s).bind fun (bytes, s) =>
          (readLoop fuel dev iData count steps (i + c) (pos + c.toNat) s).map
            fun (more, pos, s) => (bytes ++ more, pos, s)
      else some ([], pos, s)

structure Read where
  result : Int
  stored : List Byte
  fPos : Nat
  storage : Storage

def generalFileRead (fuel : Nat) (inode : MInode) (garbage : Int) (fPos : Nat) (count : Int)
    (s : Storage) : Option Read :=
  if count ≤ 0 then some ⟨0, [], fPos, s⟩
  else
    (readLoop fuel inode.iDev inode.iData count (count.natAbs + garbage.natAbs + 1) garbage fPos
      s).map
      fun (stored, pos, s) => ⟨0, stored, pos, s⟩

end PrettyOS.Fs
