import PrettyOS.Fs.Block

/-!
Contract: the inode map and the release of map bits, `fs/bitmap.c`, and `free_block`.
-/

namespace PrettyOS.Fs

open Library
open Lib

def imapLoop (fuel dev : Nat) : Nat → Nat → Int → Storage → Option (Int × Storage)
  | 0, _, inodeNr, s => some (inodeNr, s)
  | sects + 1, i, inodeNr, s =>
      (s.getblk fuel dev (2 + i)).bind fun (bh, s) =>
        let s := s.hdRead rootDev (2 + i) bh
        match firstOpen fun j => s.mem (s.cache.bData bh + j) with
        | none => imapLoop fuel dev sects (i + 1) inodeNr s
        | some j =>
            let ch := s.mem (s.cache.bData bh + j)
            let ret := findFirstZero ch
            if i = 0 ∧ j = 0 ∧ ret = 0 then some (if inodeNr < 1 then 0 else inodeNr, s)
            else
              let s := s.poke (s.cache.bData bh + j) (setBit ret ch)
              ((s.hdWrite rootDev (2 + i) bh).brelse bh).bind
                (imapLoop fuel dev sects (i + 1) ((i * sectorSize + j) * 8 + ret : Nat))

def getImapBit (fuel dev : Nat) (sb : SuperBlock) (s : Storage) : Option (Nat × Storage) :=
  (imapLoop fuel dev sb.sNimapSects 0 (-1) s).map fun (inodeNr, s) =>
    ((inodeNr % 2 ^ 16).toNat, s)

def clearBit (nr : Nat) (ch : Byte) : Byte := ch &&& ~~~(1#8 <<< nr)

def inodeSects (nr : Nat) : Nat := nr / (1 * sectorSize * 8) / (sectorSize / inodeSize)

def clearMapBit (fuel dev first sects nr : Nat) (s : Storage) : Option (Int × Storage) :=
  let block := first + inodeSects nr
  if first + sects < block then some (-1, s)
  else
    (s.getblk fuel dev block).bind fun (bh, s) =>
      let s := s.hdRead rootDev block bh
      let _ := clearBit (nr % 8) (s.mem (s.cache.bData bh + nr / 8))
      ((s.hdWrite rootDev block bh).brelse bh).map fun s => (0, s)

def clearImapBit (fuel dev : Nat) (sb : SuperBlock) (nr : Nat) (s : Storage) :
    Option (Int × Storage) :=
  clearMapBit fuel dev 2 sb.sNimapSects nr s

def clearZmapBit (fuel dev : Nat) (sb : SuperBlock) (nr : Nat) (s : Storage) :
    Option (Int × Storage) :=
  clearMapBit fuel dev 3 sb.sNzmapSects nr s

def freeBlock (fuel dev : Nat) (sb : SuperBlock) (nr : Int) (s : Storage) :
    Option (Int × Storage) :=
  if nr ≤ 0 then some (-1, s)
  else if sb.sNzones < nr then none
  else
    (s.getblk fuel dev nr.toNat).bind fun (_, s) =>
      if dev = 0 then (clearZmapBit fuel dev sb nr.toNat s).map fun (_, s) => (0, s)
      else some (-1, s)

end PrettyOS.Fs
