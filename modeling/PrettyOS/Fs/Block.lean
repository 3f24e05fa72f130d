import PrettyOS.Fs.Inode

/-!
Contract: the blocks of a file, `fs/block.c`, and the zone map of `fs/bitmap.c`.

A function that records a block number in an inode or in an indirect block returns that
number, where the source returns `0`; an error is the negative number the source returns.
-/

namespace PrettyOS.Fs

open Library List Function
open Lib

def nrDefaultSects : Nat := 11

def bitsZone : Nat := sectorSize * 8

def firstOpen (sector : Nat → Byte) : Option Nat :=
  (List.range sectorSize).find? fun j => sector j ≠ 0xff

def zmapLoop (fuel dev base : Nat) : Nat → Nat → Nat → Storage → Option (Nat × Storage)
  | 0, _, blockNr, s => some (blockNr, s)
  | sects + 1, i, blockNr, s =>
      (s.getblk fuel dev (base + i)).bind fun (bh, s) =>
        let s := s.hdRead dev (base + i) bh
        match firstOpen fun j => s.mem (s.cache.bData bh + j) with
        | none => zmapLoop fuel dev base sects (i + 1) blockNr s
        | some j =>
            let ch := s.mem (s.cache.bData bh + j)
            let ret := findFirstZero ch
            let found := (sectorSize * i + j) * 8 + ret
            if bitsZone ≤ found then some (0, s)
            else
              let s := s.poke (s.cache.bData bh + j) (setBit ret ch)
              ((s.hdWrite rootDev (base + i) bh).brelse bh).bind
                (zmapLoop fuel dev base sects (i + 1) found)

def SuperBlock.zmap (sb : SuperBlock) : Nat := 2 + sb.sNimapSects

def getZmapBit (fuel dev : Nat) (sb : SuperBlock) (s : Storage) : Option (Nat × Storage) :=
  zmapLoop fuel dev sb.zmap sb.sNzmapSects 0 0 s

def newBlock (fuel dev : Nat) (sb : SuperBlock) (s : Storage) :
    Option (Except Int Nat × Storage) :=
  (getZmapBit fuel dev sb s).map fun (bit, s) =>
    (if sb.sFirstzone + bit = 0 then .error (-1) else .ok (sb.sFirstzone + bit), s)

def setFristBlockNr (fuel dev : Nat) (sb : SuperBlock) (inode : DInode) (s : Storage) :
    Option (Except Int Nat × DInode × Storage) :=
  match (List.range nrDefaultSects).find? fun i => inode.iData i = 0 with
  | none => some (.error (-1), inode, s)
  | some i =>
      (newBlock fuel dev sb s).map fun
        | (.error _, s) => (.error (-1), inode, s)
        | (.ok nr, s) => (.ok nr, { inode with iData := update inode.iData i nr }, s)

def firstVacant (mem : Nat → Byte) (data : Nat) : Option Nat :=
  (List.range (sectorSize / 4)).find? fun i => Lib.word32 mem (data + 4 * i) = 0

def recordBlock (fuel dev onDev : Nat) (sb : SuperBlock) (block bh i : Nat) (s : Storage) :
    Option (Except Int Nat × Storage) :=
  (newBlock fuel dev sb s).bind fun
    | (.error _, s) => some (.error (-4), s)
    | (.ok nr, s) =>
        let s := { s with mem := Lib.store s.mem (s.cache.bData bh + 4 * i) 4 nr }
        ((s.hdWrite onDev block bh).brelse bh).map fun s => (.ok nr, s)

def setSecondBlockNr (fuel dev : Nat) (sb : SuperBlock) (inode : DInode) (s : Storage) :
    Option (Except Int Nat × Storage) :=
  let block := inode.iData 11
  (s.getblk fuel dev block).bind fun (bh, s) =>
    let s := s.hdRead dev block bh
    match firstVacant s.mem (s.cache.bData bh) with
    | none => some (.error (-1), s)
    | some i => recordBlock fuel dev dev sb block bh i s

def thirdLoop (fuel dev : Nat) (sb : SuperBlock) (bh : Nat) :
    Nat → Nat → Storage → Option (Except Int Nat × Storage)
  | 0, _, s => some (.error (-1), s)
  | entries + 1, i, s =>
      let block := Lib.word32 s.mem (s.cache.bData bh + 4 * i)
      if block = 0 then thirdLoop fuel dev sb bh entries (i + 1) s
      else
        (s.getblk fuel dev block).bind fun (sbh, s) =>
          let s := s.hdRead rootDev block sbh
          match firstVacant s.mem (s.cache.bData sbh) with
          | none => thirdLoop fuel dev sb bh entries (i + 1) s
          | some k =>
              (recordBlock fuel dev rootDev sb block sbh k s).bind fun
                | (.error code, s) => some (.error code, s)
                | (.ok nr, s) => (s.brelse bh).map fun s => (.ok nr, s)

def setThirdBlockNr (fuel dev : Nat) (sb : SuperBlock) (inode : DInode) (s : Storage) :
    Option (Except Int Nat × Storage) :=
  let block := inode.iData 12
  (s.getblk fuel dev block).bind fun (bh, s) =>
    thirdLoop fuel dev sb bh (sectorSize / 4) 0 (s.hdRead rootDev block bh)

def setIndirectBlockNr (fuel dev : Nat) (sb : SuperBlock) (inode : DInode) (s : Storage) :
    Option (Except Int Nat × Storage) :=
  (setSecondBlockNr fuel dev sb inode s).bind fun
    | (.ok nr, s) => some (.ok nr, s)
    | (.error _, s) =>
        (setThirdBlockNr fuel dev sb inode s).map fun
          | (.ok nr, s) => (.ok nr, s)
          | (.error _, s) => (.error (-2), s)

def setBlockNr (fuel dev : Nat) (sb : SuperBlock) (inode : DInode) (s : Storage) :
    Option (Except Int Nat × DInode × Storage) :=
  (setFristBlockNr fuel dev sb inode s).bind fun
    | (.ok nr, inode, s) => some (.ok nr, inode, s)
    | (.error _, inode, s) =>
        (setIndirectBlockNr fuel dev sb inode s).map fun (result, s) => (result, inode, s)

def setBlockNums (fuel dev : Nat) (sb : SuperBlock) :
    Nat → DInode → Storage → Option (Int × DInode × Storage)
  | 0, inode, s => some (0, inode, s)
  | num + 1, inode, s =>
      (setBlockNr fuel dev sb inode s).bind fun
        | (.error _, inode, s) => some (-2, inode, s)
        | (.ok _, inode, s) => setBlockNums fuel dev sb num inode s

def getFirstBlock (inode : DInode) : Nat := inode.iData 0

def getPosBlock (inode : DInode) (pos : Nat) : Nat := inode.iData (pos / sectorSize)

section Sector

variable {sector : Nat → Byte} {nr j : Nat}

def sectorBit (sector : Nat → Byte) (nr : Nat) : Bool := (sector (nr / 8)).getLsbD (nr % 8)

def SectorFull (sector : Nat → Byte) : Prop := ∀ j < sectorSize, sector j = 0xff

instance (sector : Nat → Byte) : Decidable (SectorFull sector) := by
  unfold SectorFull
  infer_instance

def clearBits (sector : Nat → Byte) : Finset Nat :=
  (Finset.range bitsZone).filter fun nr => sectorBit sector nr = false

lemma mem_clearBits : nr ∈ clearBits sector ↔ nr < bitsZone ∧ sectorBit sector nr = false := by
  unfold clearBits
  rw [Finset.mem_filter, Finset.mem_range]

def markBit (sector : Nat → Byte) (nr : Nat) : Nat → Byte :=
  update sector (nr / 8) (setBit (nr % 8) (sector (nr / 8)))

def openBit (sector : Nat → Byte) : Nat :=
  match firstOpen sector with
  | none => 0
  | some j => j * 8 + findFirstZero (sector j)

lemma firstOpen_eq_none : firstOpen sector = none ↔ SectorFull sector := by
  unfold firstOpen SectorFull
  rw [find?_eq_none]
  simp

lemma firstOpen_eq_some (found : firstOpen sector = some j) : j < sectorSize ∧ sector j ≠ 0xff := by
  unfold firstOpen at found
  have lt := mem_of_find?_eq_some found
  have isOpen := find?_some found
  rw [mem_range] at lt
  exact ⟨lt, of_decide_eq_true isOpen⟩

lemma firstOpen_congr {other : Nat → Byte} (same : ∀ j < sectorSize, sector j = other j) :
    firstOpen sector = firstOpen other := by
  unfold firstOpen
  refine find?_congr fun j lt => ?_
  rw [same j (mem_range.mp lt)]

lemma openBit_mem (room : ¬SectorFull sector) : openBit sector ∈ clearBits sector := by
  rw [← firstOpen_eq_none] at room
  obtain ⟨j, found⟩ := Option.ne_none_iff_exists'.mp room
  obtain ⟨_, isOpen⟩ := firstOpen_eq_some found
  obtain ⟨_, clear⟩ := findFirstZero_spec isOpen
  unfold openBit
  rw [found, mem_clearBits]
  unfold sectorBit
  dsimp only
  rw [show (j * 8 + findFirstZero (sector j)) / 8 = j by omega,
    show (j * 8 + findFirstZero (sector j)) % 8 = findFirstZero (sector j) by omega]
  refine ⟨?_, clear⟩
  unfold bitsZone sectorSize at *
  omega

lemma clearBits_eq_empty : clearBits sector = ∅ ↔ SectorFull sector := by
  constructor
  · intro none
    by_contra room
    exact absurd (openBit_mem room) (by rw [none]; exact Finset.notMem_empty _)
  intro full
  refine Finset.eq_empty_of_forall_notMem fun nr mem => ?_
  obtain ⟨small, clear⟩ := mem_clearBits.mp mem
  unfold sectorBit at clear
  unfold bitsZone sectorSize at small
  rw [full (nr / 8) (by unfold sectorSize; omega)] at clear
  have low : nr % 8 < 8 := Nat.mod_lt _ (by decide)
  interval_cases nr % 8 <;> simp at clear

lemma sectorBit_markBit (other : Nat) :
    sectorBit (markBit sector nr) other = (sectorBit sector other || decide (other = nr)) := by
  have low : nr % 8 < 8 := Nat.mod_lt _ (by decide)
  unfold sectorBit markBit
  by_cases sameByte : other / 8 = nr / 8
  · rw [sameByte, update_self, getLsbD_setBit _ low]
    congr 2
    rw [eq_iff_iff]
    omega
  · rw [update_of_ne sameByte]
    have ne : other ≠ nr := fun same => sameByte (by rw [same])
    simp [ne]

lemma clearBits_markBit : clearBits (markBit sector nr) = (clearBits sector).erase nr := by
  ext other
  rw [Finset.mem_erase, mem_clearBits, mem_clearBits, sectorBit_markBit]
  by_cases same : other = nr <;> simp [same]

end Sector

end PrettyOS.Fs
