import PrettyOS.Fs.Block
import PrettyOS.Lib.String

/-!
Contract: the directory entries of `fs/namei.c`.

An entry is an address in memory; the pointer a call leaves in `*res_de` is `none` if it leaves
none. The tests for null arguments have no counterpart. `none` is a call that does not return; a
panic halts the machine.
-/

namespace PrettyOS.Fs

open Library
open Lib

def nameLen : Nat := 12

def dentrySize : Nat := 16

def sizeofDentry : Nat := 20

def inodeNum (mem : Nat → Byte) (de : Nat) : Nat := Lib.word16 mem de

def fileName (de : Nat) : Nat := de + 2

def compare (fuel : Nat) (mem : Nat → Byte) (de : Nat) (name : List Byte) (namelen : Nat) :
    Option Int :=
  if de = 0 ∨ inodeNum mem de = 0 ∨ nameLen < namelen then some (-1)
  else if namelen < nameLen then
    (strlen mem fuel (fileName de)).bind fun length =>
      if namelen ≠ length then some (-1) else strncmp fuel mem (fileName de) name namelen
  else strncmp fuel mem (fileName de) name namelen

inductive Scan where
  | beyond
  | found (de : Nat)
  | ended
deriving DecidableEq

def scanEntries (fuel : Nat) (mem : Nat → Byte) (data nrDentry : Nat) (name : List Byte)
    (namelen : Nat) : Nat → Nat → Option Scan
  | 0, _ => some .ended
  | entries + 1, j =>
      let de := data + sizeofDentry * j
      if nrDentry < j + 1 then some .beyond
      else if inodeNum mem de = 0 then
        scanEntries fuel mem data nrDentry name namelen entries (j + 1)
      else
        (compare fuel mem de name namelen).bind fun ret =>
          if ret ≠ 0 then scanEntries fuel mem data nrDentry name namelen entries (j + 1)
          else some (.found de)

inductive EntryUse where
  | deMatch
  | deDel
deriving DecidableEq

def clearEntry (de : Nat) (s : Storage) : Storage :=
  { s with mem := overwrite s.mem de dentrySize fun _ => 0 }

def endEntry (dev sector bh : Nat) (flag : EntryUse) (s : Storage) :
    Scan → Option (Int × Option Nat × Storage)
  | .beyond => some (-1, none, s)
  | .ended => (s.brelse bh).map fun s => (0, none, s)
  | .found de =>
      match flag with
      | .deMatch => (s.brelse bh).map fun s => (0, some de, s)
      | .deDel =>
          (((clearEntry de s).hdWrite dev sector bh).brelse bh).map fun s => (0, some de, s)

def doEntry (fuel : Nat) (dir : MInode) (name : List Byte) (namelen : Nat) (flag : EntryUse)
    (s : Storage) : Option (Int × Option Nat × Storage) :=
  let start := getFirstBlock dir.toDInode
  if (dir.iSize + (sectorSize - 1)) / sectorSize = 0 then some (-2, none, s)
  else
    (s.getblk fuel dir.iDev start).bind fun (bh, s) =>
      let s := s.hdRead dir.iDev start bh
      (scanEntries fuel s.mem (s.cache.bData bh) (dir.iSize / dentrySize) name namelen
        (sectorSize / dentrySize) 0).bind (endEntry dir.iDev start bh flag s)

def findEntry (fuel : Nat) (dir : MInode) (name : List Byte) (namelen : Nat) (s : Storage) :
    Option (Int × Option Nat × Storage) :=
  doEntry fuel dir name namelen .deMatch s

def delEntry (fuel : Nat) (dir : MInode) (name : List Byte) (namelen : Nat) (s : Storage) :
    Option (Int × Option Nat × Storage) :=
  doEntry fuel dir name namelen .deDel s

def firstUnused (mem : Nat → Byte) (data : Nat) : Option Nat :=
  (List.range (sectorSize / dentrySize)).find? fun j => inodeNum mem (data + sizeofDentry * j) = 0

def fillEntry (de ino : Nat) (name : List Byte) (s : Storage) : Storage :=
  { s with mem := strncpy (Lib.store s.mem de 2 ino) (fileName de) name name.length }

def addLoop (fuel : Nat) (dir : MInode) (start ino : Nat) (name : List Byte) :
    Nat → Nat → Storage → Option (Int × MInode × Storage)
  | 0, _, _ => none
  | sects + 1, i, s =>
      (s.getblk fuel dir.iDev (start + i)).bind fun (bh, s) =>
        let s := s.hdRead dir.iDev (start + i) bh
        match firstUnused s.mem (s.cache.bData bh) with
        | none => (s.brelse bh).bind (addLoop fuel dir start ino name sects (i + 1))
        | some j =>
            let s := fillEntry (s.cache.bData bh + sizeofDentry * j) ino name s
            ((s.hdWrite dir.iDev (start + i) bh).brelse bh).map fun s =>
              (0, { dir with iSize := (dir.iSize + dentrySize) % 2 ^ 16, iDirty := 1 }, s)

def addEntry (fuel : Nat) (sb : SuperBlock) (dir : MInode) (ino : Nat) (name : List Byte)
    (s : Storage) : Option (Int × MInode × Storage) :=
  if getFirstBlock dir.toDInode = 0 then
    (setBlockNums fuel dir.iDev sb nrDefaultSects dir.toDInode s).bind fun (_, blocks, s) =>
      let dir := { dir with toDInode := blocks }
      if getFirstBlock dir.toDInode = 0 then some (-3, dir, s)
      else addLoop fuel dir (getFirstBlock dir.toDInode) ino name nrDefaultSects 0 s
  else addLoop fuel dir (getFirstBlock dir.toDInode) ino name nrDefaultSects 0 s

end PrettyOS.Fs
