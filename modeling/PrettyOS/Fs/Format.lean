import PrettyOS.Fs.Namei

/-!
Contract: super blocks, `fs/super.c`, and the file system as it is made and mounted, `fs/fs.c`.

`mk_fs` asks for the blocks of the root inode while the inode is in a buffer, so the functions
of `fs/block.c` appear here on an inode in memory. `none` is a call that does not return, or that
follows the null pointer `get_super_block` returns.
-/

namespace PrettyOS.Fs

open Library
open Lib

def nrSuper : Nat := 2

def magicFs : Nat := 0x0001

def nrInodeMapSects : Nat := 1

def nrZoneMapSects : Nat := 1

def nrConsoles : Nat := 3

def rootInodeNum : Nat := 1

def iDirectory : Nat := 0x0400

def sizeofSuperBlock : Nat := 148

def loadSuperBlock (mem : Nat → Byte) (address : Nat) : SuperBlock where
  sMagic := Lib.word16 mem address
  sNinodes := Lib.word16 mem (address + 2)
  sNzones := Lib.word16 mem (address + 4)
  sNimapSects := Lib.word16 mem (address + 6)
  sNzmapSects := Lib.word16 mem (address + 8)
  sFirstzone := Lib.word16 mem (address + 10)
  sDev := Lib.word16 mem (address + 12)
  fileMaxSize := Lib.word32 mem (address + 16)

def superBlockBytes (sb : SuperBlock) (rest : Nat → Byte) (i : Nat) : Byte :=
  if i < 2 then Lib.byteOf sb.sMagic i
  else if i < 4 then Lib.byteOf sb.sNinodes (i - 2)
  else if i < 6 then Lib.byteOf sb.sNzones (i - 4)
  else if i < 8 then Lib.byteOf sb.sNimapSects (i - 6)
  else if i < 10 then Lib.byteOf sb.sNzmapSects (i - 8)
  else if i < 12 then Lib.byteOf sb.sFirstzone (i - 10)
  else if i < 14 then Lib.byteOf sb.sDev (i - 12)
  else if 16 ≤ i ∧ i < 20 then Lib.byteOf sb.fileMaxSize (i - 16)
  else rest i

def freeSlot (table : Nat → SuperBlock) : Nat :=
  ((List.range nrSuper).find? fun i => (table i).sDev = 0).getD nrSuper

def readSuperBlock (fuel : Nat) (table : Nat → SuperBlock) (s : Storage) :
    Option (Nat × (Nat → SuperBlock) × Storage) :=
  (s.getblk fuel rootDev 1).bind fun (bh, s) =>
    let s := s.hdRead rootDev 1 bh
    let loaded := loadSuperBlock s.mem (s.cache.bData bh)
    (s.brelse bh).map fun s => (freeSlot table, Function.update table (freeSlot table) loaded, s)

def getSuperBlock (table : Nat → SuperBlock) (dev : Nat) : Option SuperBlock :=
  ((List.range nrSuper).find? fun i => (table i).sDev = dev).map table

def setFristBlockNrAt (fuel dev : Nat) (sb : SuperBlock) (address : Nat) (s : Storage) :
    Option (Except Int Nat × Storage) :=
  match (List.range nrDefaultSects).find? fun i => (loadInode s.mem address).iData i = 0 with
  | none => some (.error (-1), s)
  | some i =>
      (newBlock fuel dev sb s).map fun
        | (.error _, s) => (.error (-1), s)
        | (.ok nr, s) =>
            (.ok nr, { s with mem := Lib.store s.mem (address + 12 + 4 * i) 4 nr })

def setBlockNrAt (fuel dev : Nat) (sb : SuperBlock) (address : Nat) (s : Storage) :
    Option (Except Int Nat × Storage) :=
  (setFristBlockNrAt fuel dev sb address s).bind fun
    | (.ok nr, s) => some (.ok nr, s)
    | (.error _, s) =>
        (setSecondBlockNr fuel dev sb (loadInode s.mem address) s).bind fun
          | (.ok nr, s) => some (.ok nr, s)
          | (.error _, s) =>
              (setThirdBlockNr fuel dev sb (loadInode s.mem address) s).map fun
                | (.ok nr, s) => (.ok nr, s)
                | (.error _, s) => (.error (-2), s)

def setBlockNumsAt (fuel dev : Nat) (sb : SuperBlock) (address : Nat) :
    Nat → Storage → Option (Int × Storage)
  | 0, s => some (0, s)
  | num + 1, s =>
      (setBlockNrAt fuel dev sb address s).bind fun
        | (.error _, s) => some (-2, s)
        | (.ok _, s) => setBlockNumsAt fuel dev sb address num s

def clearData (address : Nat) (s : Storage) : Storage :=
  { s with mem := overwrite s.mem address sectorSize fun _ => 0 }

def formatSuperBlock (fuel : Nat) (stack : Nat → Byte) (s : Storage) : Option Storage :=
  (s.getblk fuel rootDev 1).bind fun (bh, s) =>
    let s := clearData (s.cache.bData bh) s
    let s := { s with
      mem := overwrite s.mem (s.cache.bData bh) sizeofSuperBlock
        (superBlockBytes formattedSuperBlock stack) }
    (s.hdWrite rootDev 1 bh).brelse bh

def formatMap (fuel first sects : Nat) (fill : Nat → Storage → Storage) (s : Storage) :
    Option Storage :=
  (s.getblk fuel rootDev first).bind fun (bh, s) =>
    let s := (fill (s.cache.bData bh) s).hdWrite rootDev first bh
    let s := clearData (s.cache.bData bh) s
    let s := (List.range' 1 (sects - 1)).foldl (fun s i => s.hdWrite rootDev (first + i) bh) s
    s.brelse bh

def fillInodeMap (address : Nat) (s : Storage) : Storage :=
  (List.range (nrConsoles + 2)).foldl (fun s i => s.poke address (setBit i (s.mem address)))
    (clearData address s)

def fillZoneMap (address : Nat) (s : Storage) : Storage := s.poke address 0x01

def fillRootInode (dinode : Nat) (s : Storage) : Storage :=
  let s := clearData dinode s
  let mem := Lib.store s.mem dinode 2 iDirectory
  { s with mem := Lib.store mem (dinode + 2) 2 dentrySize }

def formatRootInode (fuel : Nat) (sb : SuperBlock) (s : Storage) : Option Storage :=
  let block := 2 + nrInodeMapSects + nrZoneMapSects
  (s.getblk fuel rootDev block).bind fun (bh, s) =>
    let dinode := s.cache.bData bh
    (setBlockNumsAt fuel rootDev sb dinode nrDefaultSects (fillRootInode dinode s)).bind
      fun (_, s) => (s.hdWrite rootDev block bh).brelse bh

def formatRootEntry (fuel : Nat) (s : Storage) : Option Storage :=
  (s.getblk fuel rootDev formattedSuperBlock.sFirstzone).bind fun (bh, s) =>
    let de := s.cache.bData bh
    let s := clearData de s
    let s := { s with mem := Lib.store s.mem de 2 rootInodeNum }
    let s := { s with mem := strcpy s.mem (fileName de) [0x2e] }
    (s.hdWrite rootDev formattedSuperBlock.sFirstzone bh).brelse bh

def mkFs (fuel : Nat) (stack : Nat → Byte) (table : Nat → SuperBlock) (s : Storage) :
    Option (Nat × (Nat → SuperBlock) × Storage) :=
  (formatSuperBlock fuel stack s).bind fun s =>
    (readSuperBlock fuel table s).bind fun (slot, table, s) =>
      (formatMap fuel 2 formattedSuperBlock.sNimapSects fillInodeMap s).bind fun s =>
        (formatMap fuel (2 + nrInodeMapSects) nrInodeMapSects fillZoneMap s).bind fun s =>
          (getSuperBlock table rootDev).bind fun sb =>
            (formatRootInode fuel sb s).bind fun s =>
              (formatRootEntry fuel s).map fun s => (slot, table, s)

def clearTable (table : Nat → SuperBlock) : Nat → SuperBlock := fun i =>
  if i < nrSuper then { table i with sDev := 0 } else table i

def igetRoot (fuel object : Nat) (inode : Nat → MInode) (table : Nat → SuperBlock) (s : Storage) :
    Option (Nat × InodeTable) :=
  InodeTable.iget fuel object true rootDev rootInodeNum
    { storage := s
      superBlock := getSuperBlock table
      sInodes := fun _ => []
      inode := inode
      rootInode := 0
      nrInodesCount := 0 }

def initFs (fuel object : Nat) (stack : Nat → Byte) (inode : Nat → MInode)
    (table : Nat → SuperBlock) (s : Storage) :
    Option (List Nat × (Nat → SuperBlock) × InodeTable) :=
  (readSuperBlock fuel (clearTable table) s).bind fun (slot, table, s) =>
    (getSuperBlock table rootDev).bind fun sb =>
      if sb.sMagic ≠ magicFs then
        (mkFs fuel stack table s).bind fun (second, table, s) =>
          (igetRoot fuel object inode table s).map fun (root, inodes) =>
            ([slot, second], table, { inodes with rootInode := root })
      else
        (igetRoot fuel object inode table s).map fun (root, inodes) =>
          ([slot], table, { inodes with rootInode := root })

end PrettyOS.Fs
