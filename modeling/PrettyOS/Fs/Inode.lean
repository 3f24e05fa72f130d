import PrettyOS.Fs.Disk
import PrettyOS.Lib.List

/-!
Contract: the inode cache of `fs/inode.c`.

The object the slab cache returns and the success of a transfer are arguments. `none` is a call
that does not return: it follows a null pointer, or it panics, which halts the machine.
-/

namespace PrettyOS.Fs

open Library Function Option
open Lib

structure SuperBlock where
  sMagic : Nat
  sNinodes : Nat
  sNzones : Nat
  sNimapSects : Nat
  sNzmapSects : Nat
  sFirstzone : Nat
  sDev : Nat
  fileMaxSize : Nat
deriving DecidableEq

structure LaidOutSuperBlock extends SuperBlock where
  layout : 2 + sNimapSects + sNzmapSects ≤ sFirstzone

instance : Coe LaidOutSuperBlock SuperBlock := ⟨LaidOutSuperBlock.toSuperBlock⟩

def formattedSuperBlock : LaidOutSuperBlock where
  sMagic := 1
  sNinodes := 4096
  sNzones := 4096
  sNimapSects := 1
  sNzmapSects := 1
  sFirstzone := 516
  sDev := rootDev
  fileMaxSize := 1024
  layout := by decide

structure DInode where
  iMode : Nat
  iSize : Nat
  iStartSect : Nat
  iNrSects : Nat
  iFlags : Nat
  iData : Nat → Nat

structure MInode extends DInode where
  iDev : Nat
  iCount : Int
  iNum : Nat
  iDirty : Nat

def clearedInode : MInode where
  iMode := 0
  iSize := 0
  iStartSect := 0
  iNrSects := 0
  iFlags := 0
  iData := fun _ => 0
  iDev := 0
  iCount := 0
  iNum := 0
  iDirty := 0

def inodeSize : Nat := 64

def loadInode (mem : Nat → Byte) (address : Nat) : DInode where
  iMode := Lib.word16 mem address
  iSize := Lib.word16 mem (address + 2)
  iStartSect := Lib.word16 mem (address + 4)
  iNrSects := Lib.word16 mem (address + 6)
  iFlags := Lib.word32 mem (address + 8)
  iData := fun i => Lib.word32 mem (address + 12 + 4 * i)

def inodeBytes (inode : DInode) (i : Nat) : Byte :=
  if i < 2 then Lib.byteOf inode.iMode i
  else if i < 4 then Lib.byteOf inode.iSize (i - 2)
  else if i < 6 then Lib.byteOf inode.iStartSect (i - 4)
  else if i < 8 then Lib.byteOf inode.iNrSects (i - 6)
  else if i < 12 then Lib.byteOf inode.iFlags (i - 8)
  else Lib.byteOf (inode.iData ((i - 12) / 4)) ((i - 12) % 4)

structure InodeTable where
  storage : Storage
  superBlock : Nat → Option SuperBlock
  sInodes : Nat → List Nat
  inode : Nat → MInode
  rootInode : Nat
  nrInodesCount : Nat

namespace InodeTable

def inodeBlock (sb : SuperBlock) (num : Nat) : Nat :=
  2 + sb.sNimapSects + sb.sNzmapSects + (num - 1) / (sectorSize / inodeSize)

def inodeAddress (data num : Nat) : Nat :=
  ((data : Int) + ((num : Int) - 1).tmod (sectorSize / inodeSize) * inodeSize).toNat

def storeInode (inode : DInode) (address : Nat) (s : Storage) : Storage :=
  { s with mem := overwrite s.mem address inodeSize (inodeBytes inode) }

def readInode (fuel : Nat) (success : Bool) (inode : Nat) (t : InodeTable) :
    Option (Int × InodeTable) :=
  let m := t.inode inode
  if inode = 0 then some (-1, t)
  else
    match t.superBlock m.iDev with
    | none => some (-2, t)
    | some sb =>
        let block := inodeBlock sb m.iNum
        (t.storage.getblk fuel m.iDev block).bind fun (bh, s) =>
          if success then
            let s := s.hdRead rootDev block bh
            let loaded : MInode :=
              { m with toDInode := loadInode s.mem (inodeAddress (s.cache.bData bh) m.iNum) }
            (s.brelse bh).map fun s =>
              (0, { t with storage := s, inode := update t.inode inode loaded })
          else some (-4, { t with storage := s.hdReadFails bh })

def writeInode (fuel : Nat) (readSuccess writeSuccess : Bool) (inode : Nat) (t : InodeTable) :
    Option (Int × InodeTable) :=
  let m := t.inode inode
  if inode = 0 ∨ m.iDirty = 0 ∨ m.iDev = 0 then some (-1, t)
  else
    (t.superBlock m.iDev).bind fun sb =>
      let block := inodeBlock sb m.iNum
      (t.storage.getblk fuel m.iDev block).bind fun (bh, s) =>
        if readSuccess then
          let s := s.hdRead m.iDev block bh
          let s := storeInode m.toDInode (inodeAddress (s.cache.bData bh) m.iNum) s
          let s := if writeSuccess then s.hdWrite m.iDev block bh else s
          (s.brelse bh).map fun s =>
            (0, { t with
              storage := s
              inode := update t.inode inode { m with iDirty := 0 } })
        else some (-3, { t with storage := s.hdReadFails bh })

def getEmptyInode (object dev : Nat) (sb : SuperBlock) (t : InodeTable) : Nat × InodeTable :=
  let counted := { t with nrInodesCount := (t.nrInodesCount + 1) % 2 ^ 16 }
  if sb.sNinodes ≤ t.nrInodesCount ∨ object = 0 then (0, counted)
  else
    (object, { counted with
      inode := update t.inode object
        { clearedInode with iCount := 1, iDev := dev % 2 ^ 16 }
      sInodes := update t.sInodes dev (listAddHead object (t.sInodes dev)) })

def cached (dev num : Nat) (t : InodeTable) : Option Nat :=
  (t.sInodes dev).find? fun inode => (t.inode inode).iDev = dev ∧ (t.inode inode).iNum = num

def setNum (inode num : Nat) (t : InodeTable) : InodeTable :=
  { t with inode := update t.inode inode { t.inode inode with iNum := num % 2 ^ 16 } }

def iget (fuel object : Nat) (success : Bool) (dev num : Nat) (t : InodeTable) :
    Option (Nat × InodeTable) :=
  if dev = 0 then none
  else
    (t.superBlock dev).bind fun sb =>
      match t.cached dev num with
      | some inode => some (inode, t)
      | none =>
          let (inode, t) := t.getEmptyInode object dev sb
          if inode = 0 then some (0, t)
          else
            (readInode fuel success inode (t.setNum inode num)).map fun (result, t) =>
              (if result < 0 then 0 else inode, t)

def isSpecial (mode : Nat) : Bool := mode &&& 0x1D00 = 0x0600 || mode &&& 0x1D00 = 0x0200

def setCount (inode : Nat) (count : Int) (t : InodeTable) : InodeTable :=
  { t with inode := update t.inode inode { t.inode inode with iCount := count } }

def unlist (inode : Nat) (t : InodeTable) : InodeTable :=
  { t with sInodes := fun dev => listDel inode (t.sInodes dev) }

/-- `free_inode` of an inode on a device, which only makes sure that the inode exists. -/
def freeInode (inode : Nat) (t : InodeTable) : Option InodeTable :=
  (t.superBlock (t.inode inode).iDev).bind fun sb =>
    if (t.inode inode).iNum < 1 ∨ sb.sNinodes < (t.inode inode).iNum then none else some t

def release (fuel : Nat) (readSuccess writeSuccess : Bool) (inode : Nat) (t : InodeTable) :
    Option InodeTable :=
  if (t.inode inode).iDirty ≠ 0 then
    (t.writeInode fuel readSuccess writeSuccess inode).bind fun written =>
      freeInode inode (written.2.unlist inode)
  else freeInode inode (t.unlist inode)

def iput (fuel : Nat) (readSuccess writeSuccess : Bool) (inode : Nat) (t : InodeTable) :
    Option (Int × InodeTable) :=
  if inode = 0 then some (-1, t)
  else if (t.inode inode).iCount = 0 then some (-2, t)
  else if inode = t.rootInode then some (-3, t)
  else if (t.inode inode).iDev = 0 then some (-4, t)
  else if isSpecial (t.inode inode).iMode then some (-5, t)
  else
    let counted := t.setCount inode ((t.inode inode).iCount - 1)
    if 0 < (t.inode inode).iCount - 1 then some (0, counted)
    else (counted.release fuel readSuccess writeSuccess inode).map fun t => (0, t)

variable {t after : InodeTable} {fuel object dev num inode : Nat} {success : Bool}

structure SameCounts (t after : InodeTable) : Prop where
  lists : after.sInodes = t.sInodes
  root : after.rootInode = t.rootInode
  dev : ∀ inode, (after.inode inode).iDev = (t.inode inode).iDev
  count : ∀ inode, (after.inode inode).iCount = (t.inode inode).iCount

lemma SameCounts.refl (t : InodeTable) : SameCounts t t := ⟨rfl, rfl, fun _ => rfl, fun _ => rfl⟩

lemma SameCounts.trans {middle : InodeTable} (first : SameCounts t middle)
    (second : SameCounts middle after) : SameCounts t after :=
  ⟨second.lists.trans first.lists, second.root.trans first.root,
    fun inode => (second.dev inode).trans (first.dev inode),
    fun inode => (second.count inode).trans (first.count inode)⟩

lemma sameCounts_update {m : MInode} {storage : Storage} (dev : m.iDev = (t.inode inode).iDev)
    (count : m.iCount = (t.inode inode).iCount) :
    SameCounts t { t with storage := storage, inode := update t.inode inode m } := by
  refine ⟨rfl, rfl, ?_, ?_⟩
  all_goals
    intro other
    rcases eq_or_ne other inode with rfl | ne
    · simp only [update_self, dev, count]
    · simp only [update_of_ne ne]

lemma dev_setCount (count : Int) (other : Nat) :
    ((t.setCount inode count).inode other).iDev = (t.inode other).iDev := by
  unfold setCount
  rcases eq_or_ne other inode with rfl | ne
  · simp only [update_self]
  · simp only [update_of_ne ne]

lemma count_setCount_self (count : Int) :
    ((t.setCount inode count).inode inode).iCount = count := by
  simp only [setCount, update_self]

lemma count_setCount_other {other : Nat} (count : Int) (ne : other ≠ inode) :
    ((t.setCount inode count).inode other).iCount = (t.inode other).iCount := by
  simp only [setCount, update_of_ne ne]

lemma sameCounts_readInode {res : Int}
    (ran : t.readInode fuel success inode = some (res, after)) : SameCounts t after := by
  unfold readInode at ran
  dsimp only at ran
  by_cases isNull : inode = 0
  · rw [if_pos isNull] at ran
    cases ran
    exact SameCounts.refl _
  rw [if_neg isNull] at ran
  cases mounted : t.superBlock (t.inode inode).iDev with
  | none =>
    rw [mounted] at ran
    cases ran
    exact SameCounts.refl _
  | some sb =>
    rw [mounted] at ran
    obtain ⟨⟨_, s⟩, -, ran⟩ := bind_eq_some_iff.mp ran
    dsimp only at ran
    split_ifs at ran
    · obtain ⟨s, -, same⟩ := map_eq_some_iff.mp ran
      cases same
      exact sameCounts_update rfl rfl
    · cases ran
      exact ⟨rfl, rfl, fun _ => rfl, fun _ => rfl⟩

theorem freeInode_same (ran : t.freeInode inode = some after) : after = t := by
  obtain ⟨_, -, ran⟩ := bind_eq_some_iff.mp ran
  split_ifs at ran
  exact (some.inj ran).symm

lemma sameCounts_writeInode {res : Int} {readSuccess writeSuccess : Bool}
    (ran : t.writeInode fuel readSuccess writeSuccess inode = some (res, after)) :
    SameCounts t after := by
  unfold writeInode at ran
  dsimp only at ran
  by_cases idle : inode = 0 ∨ (t.inode inode).iDirty = 0 ∨ (t.inode inode).iDev = 0
  · rw [if_pos idle] at ran
    cases ran
    exact SameCounts.refl _
  rw [if_neg idle] at ran
  obtain ⟨_, -, ran⟩ := bind_eq_some_iff.mp ran
  obtain ⟨⟨_, s⟩, -, ran⟩ := bind_eq_some_iff.mp ran
  cases readSuccess with
  | true =>
    obtain ⟨s, -, same⟩ := map_eq_some_iff.mp ran
    cases same
    exact sameCounts_update rfl rfl
  | false =>
    cases ran
    exact ⟨rfl, rfl, fun _ => rfl, fun _ => rfl⟩

end InodeTable

end PrettyOS.Fs
