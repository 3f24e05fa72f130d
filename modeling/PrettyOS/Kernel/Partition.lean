import PrettyOS.Kernel.HardDisk

/-!
Contract: the scan of the partition tables in `kernel/hd.c`.

`get_partition_table` is taken to deliver the four entries of the sector it is asked for.

The entries of a chain of extended boot records may point anywhere, back into the chain too; a
sector number wraps at `2 ^ 32`.
-/

namespace PrettyOS.Kernel

open Function List Option Nat

structure PartitionEntry where
  systemId : Lib.Byte
  startSectorLba : BitVec 32
  nrSectors : BitVec 32

abbrev PartitionTables := Int → BitVec 32 → Nat → PartitionEntry

def unusedPart : Lib.Byte := 0

def extendedPart : Lib.Byte := 0x5

inductive Slot where
  | primary (drive index : Int)
  | logical (drive index : Int)
deriving DecidableEq

structure Disks where
  hdInfo : Int → HardDiskInfo
  stores : List Slot

namespace Disks

def setPrimary (drive index : Int) (info : PartitionInfo) (t : Disks) : Disks where
  hdInfo := update t.hdInfo drive
    { t.hdInfo drive with primary := update (t.hdInfo drive).primary index info }
  stores := .primary drive index :: t.stores

def setLogical (drive index : Int) (info : PartitionInfo) (t : Disks) : Disks where
  hdInfo := update t.hdInfo drive
    { t.hdInfo drive with logical := update (t.hdInfo drive).logical index info }
  stores := .logical drive index :: t.stores

def get (t : Disks) : Slot → PartitionInfo
  | .primary drive index => (t.hdInfo drive).primary index
  | .logical drive index => (t.hdInfo drive).logical index

end Disks

def extendedLoop (tables : PartitionTables) (drive : Int) (extStartSect : BitVec 32)
    (nr1stLog : Int) : Nat → Nat → BitVec 32 → Disks → Disks
  | 0, _, _, t => t
  | left + 1, i, s, t =>
      let partTbl := tables drive s
      let stored := t.setLogical drive (nr1stLog + i)
        { startSector := s + (partTbl 0).startSectorLba, totalSectors := (partTbl 0).nrSectors }
      if (partTbl 1).systemId = unusedPart then stored
      else
        extendedLoop tables drive extStartSect nr1stLog left (i + 1)
          (extStartSect + (partTbl 1).startSectorLba) stored

def partitionExtended (tables : PartitionTables) (device : Int) (t : Disks) : Disks :=
  let drive := drvOfDev device
  let j := device.tmod nrPrimPerDrive
  let extStartSect := ((t.hdInfo drive).primary j).startSector
  extendedLoop tables drive extStartSect ((j - 1) * nrLogPerPart) nrLogPerPart 0 extStartSect t

def primaryTurn (tables : PartitionTables) (device : Int) (partTbl : Nat → PartitionEntry)
    (t : Disks) (i : Nat) : Disks :=
  if (partTbl i).systemId = unusedPart then t
  else
    let devNr : Int := i + 1
    let stored := t.setPrimary (drvOfDev device) devNr
      { startSector := (partTbl i).startSectorLba, totalSectors := (partTbl i).nrSectors }
    if (partTbl i).systemId = extendedPart then
      partitionExtended tables (device + devNr) stored
    else stored

def partitionPrimary (tables : PartitionTables) (device : Int) (t : Disks) : Disks :=
  let drive := drvOfDev device
  let partTbl := tables drive (BitVec.ofInt 32 drive)
  (List.range 4).foldl (primaryTurn tables device partTbl) t

def partition (tables : PartitionTables) (device style : Int) (t : Disks) : Disks :=
  if style = 0 then partitionPrimary tables device t
  else if style = 1 then partitionExtended tables device t
  else t

def bootRecord (tables : BitVec 32 → Nat → PartitionEntry) (extStartSect : BitVec 32) :
    Nat → Option (BitVec 32)
  | 0 => some extStartSect
  | k + 1 =>
      (bootRecord tables extStartSect k).bind fun sector =>
        if (tables sector 1).systemId = unusedPart then none
        else some (extStartSect + (tables sector 1).startSectorLba)

def InTables : Slot → Prop
  | .primary drive index => drive = 0 ∧ 1 ≤ index ∧ index ≤ 4
  | .logical drive index => drive = 0 ∧ 0 ≤ index ∧ index ≤ 63

def logicalInfo (tables : BitVec 32 → Nat → PartitionEntry) (i k : Nat) : Option PartitionInfo :=
  if (tables 0 i).systemId = extendedPart then
    (bootRecord tables (tables 0 i).startSectorLba k).map fun sector =>
      { startSector := sector + (tables sector 0).startSectorLba
        totalSectors := (tables sector 0).nrSectors }
  else none

def primaryInfo (tables : BitVec 32 → Nat → PartitionEntry) (i : Nat) : Option PartitionInfo :=
  if (tables 0 i).systemId = unusedPart then none
  else some
    { startSector := (tables 0 i).startSectorLba
      totalSectors := (tables 0 i).nrSectors }

structure Scanned (primaryOf : Nat → Option PartitionInfo)
    (logicalOf : Nat → Nat → Option PartitionInfo) (before after : Disks) : Prop where
  stores : ∀ slot ∈ after.stores, slot ∈ before.stores ∨ InTables slot
  primary : ∀ i : Nat, i < 4 → after.get (.primary 0 (i + 1)) =
    (primaryOf i).getD (before.get (.primary 0 (i + 1)))
  logical : ∀ i k : Nat, i < 4 → k < 16 → after.get (.logical 0 (16 * i + k)) =
    (logicalOf i k).getD (before.get (.logical 0 (16 * i + k)))

namespace Disks

variable {drive index : Int} {info : PartitionInfo} {t : Disks} {slot : Slot}

lemma get_setPrimary_self :
    (t.setPrimary drive index info).get (.primary drive index) = info := by
  show ((update t.hdInfo drive _ drive).primary index) = info
  rw [update_self]
  exact update_self _ _ _

lemma read_update (read : HardDiskInfo → PartitionInfo) {onDrive : Int} {disk : HardDiskInfo}
    (keeps : onDrive = drive → read disk = read (t.hdInfo drive)) :
    read (update t.hdInfo drive disk onDrive) = read (t.hdInfo onDrive) := by
  by_cases same : onDrive = drive
  · subst same
    rw [update_self]
    exact keeps rfl
  · rw [update_of_ne same]

lemma get_setPrimary_of_ne (other : slot ≠ .primary drive index) :
    (t.setPrimary drive index info).get slot = t.get slot := by
  cases slot with
  | primary onDrive place =>
    refine read_update (fun disk => disk.primary place) ?_
    rintro rfl
    exact update_of_ne (fun isIndex => other (congrArg _ isIndex)) _ _
  | logical onDrive place => exact read_update (fun disk => disk.logical place) fun _ => rfl

lemma get_setLogical_self :
    (t.setLogical drive index info).get (.logical drive index) = info := by
  show ((update t.hdInfo drive _ drive).logical index) = info
  rw [update_self]
  exact update_self _ _ _

lemma get_setLogical_of_ne (other : slot ≠ .logical drive index) :
    (t.setLogical drive index info).get slot = t.get slot := by
  cases slot with
  | primary onDrive place => exact read_update (fun disk => disk.primary place) fun _ => rfl
  | logical onDrive place =>
    refine read_update (fun disk => disk.logical place) ?_
    rintro rfl
    exact update_of_ne (fun isIndex => other (congrArg _ isIndex)) _ _

end Disks

section Chain

variable {tables : PartitionTables} {drive nr1stLog : Int} {ext s : BitVec 32} {left i k : Nat}
  {t : Disks} {slot : Slot}

lemma bootRecord_eq_none {records : BitVec 32 → Nat → PartitionEntry}
    (ended : bootRecord records ext i = none) (later : i ≤ k) :
    bootRecord records ext k = none := by
  induction k, later using le_induction with
  | base => exact ended
  | succ k _ ih =>
    rw [bootRecord, ih]
    rfl

lemma get_extendedLoop_of_ne
    (other : ∀ k, i ≤ k → k < i + left → slot ≠ .logical drive (nr1stLog + k)) :
    (extendedLoop tables drive ext nr1stLog left i s t).get slot = t.get slot := by
  induction left generalizing i s t with
  | zero => rfl
  | succ left ih =>
    have notFirst := other i le_rfl (by omega)
    rw [extendedLoop]
    split_ifs
    · exact Disks.get_setLogical_of_ne notFirst
    rw [ih, Disks.get_setLogical_of_ne notFirst]
    intro k lower upper
    exact other k (by omega) (by omega)

lemma get_extendedLoop (hit : bootRecord (tables drive) ext i = some s) (lower : i ≤ k)
    (upper : k < i + left) :
    (extendedLoop tables drive ext nr1stLog left i s t).get (.logical drive (nr1stLog + k)) =
      ((bootRecord (tables drive) ext k).map fun sector =>
        ({ startSector := sector + (tables drive sector 0).startSectorLba
           totalSectors := (tables drive sector 0).nrSectors } : PartitionInfo)).getD
        (t.get (.logical drive (nr1stLog + k))) := by
  induction left generalizing i s t with
  | zero => omega
  | succ left ih =>
    have next : bootRecord (tables drive) ext (i + 1) =
        if (tables drive s 1).systemId = unusedPart then none
        else some (ext + (tables drive s 1).startSectorLba) := by
      rw [bootRecord, hit, bind_some]
    rw [extendedLoop]
    rcases eq_or_lt_of_le lower with rfl | later
    · rw [hit, map_some, getD_some]
      split_ifs
      · exact Disks.get_setLogical_self
      rw [get_extendedLoop_of_ne, Disks.get_setLogical_self]
      intro k lower _ same
      injection same with _ sameIndex
      omega
    have ne : Slot.logical drive (nr1stLog + k) ≠ .logical drive (nr1stLog + i) := by
      intro same
      injection same with _ sameIndex
      omega
    split_ifs with ended
    · rw [if_pos ended] at next
      rw [bootRecord_eq_none next later, Disks.get_setLogical_of_ne ne]
      rfl
    · rw [if_neg ended] at next
      rw [ih next later (by omega), Disks.get_setLogical_of_ne ne]

lemma stores_extendedLoop
    (stored : slot ∈ (extendedLoop tables drive ext nr1stLog left i s t).stores) :
    slot ∈ t.stores ∨ ∃ k, i ≤ k ∧ k < i + left ∧ slot = .logical drive (nr1stLog + k) := by
  induction left generalizing i s t with
  | zero => exact .inl stored
  | succ left ih =>
    have now : ∀ {info}, slot ∈ (t.setLogical drive (nr1stLog + i) info).stores →
        slot ∈ t.stores ∨ ∃ k, i ≤ k ∧ k < i + (left + 1) ∧
          slot = .logical drive (nr1stLog + k) := by
      intro info mem
      rcases mem_cons.mp mem with rfl | before
      · exact .inr ⟨i, le_rfl, by omega, rfl⟩
      · exact .inl before
    rw [extendedLoop] at stored
    split_ifs at stored
    · exact now stored
    rcases ih stored with before | ⟨k, _, _, isSlot⟩
    · exact now before
    · exact .inr ⟨k, by omega, by omega, isSlot⟩

end Chain

section Turns

variable {tables : PartitionTables} {i : Nat} {t : Disks}

section

variable (inside : i < 4)
include inside

lemma partitionExtended_eq : partitionExtended tables (0 + (i + 1 : Int)) t =
      extendedLoop tables 0 (t.get (.primary 0 (i + 1))).startSector (16 * i) 16 0
        (t.get (.primary 0 (i + 1))).startSector t := by
  have device : ∀ i < 4, drvOfDev (0 + ((i : Nat) + 1 : Int)) = 0 ∧
      (0 + ((i : Nat) + 1 : Int)).tmod nrPrimPerDrive = i + 1 ∧
        ((i : Nat) + 1 - 1 : Int) * nrLogPerPart = 16 * i := by
    decide
  obtain ⟨isDrive, isIndex, first⟩ := device i inside
  rw [partitionExtended, isDrive, isIndex, first]
  rfl

lemma get_primaryTurn_of_ne {slot : Slot} (notPrimary : slot ≠ .primary 0 (i + 1))
    (notLogical : ∀ k : Nat, k < 16 → slot ≠ .logical 0 (16 * i + k)) :
    (primaryTurn tables 0 (tables 0 0) t i).get slot = t.get slot := by
  rw [primaryTurn]
  split_ifs
  · rfl
  · rw [partitionExtended_eq inside, get_extendedLoop_of_ne, Disks.get_setPrimary_of_ne]
    · exact notPrimary
    · intro k _ small
      exact notLogical k (by omega)
  · exact Disks.get_setPrimary_of_ne notPrimary

lemma get_primaryTurn_primary : (primaryTurn tables 0 (tables 0 0) t i).get (.primary 0 (i + 1)) =
      (primaryInfo (tables 0) i).getD (t.get (.primary 0 (i + 1))) := by
  rw [primaryTurn, primaryInfo]
  split_ifs with unused
  · rfl
  · rw [partitionExtended_eq inside, get_extendedLoop_of_ne]
    · exact Disks.get_setPrimary_self
    · intro k _ _ same
      cases same
  · exact Disks.get_setPrimary_self

lemma get_primaryTurn_logical {k : Nat} (small : k < 16) :
    (primaryTurn tables 0 (tables 0 0) t i).get (.logical 0 (16 * i + k)) =
      (logicalInfo (tables 0) i k).getD (t.get (.logical 0 (16 * i + k))) := by
  have notPrimary : Slot.logical 0 (16 * i + k) ≠ .primary 0 (i + 1) := Slot.noConfusion
  rw [primaryTurn, logicalInfo]
  by_cases unused : (tables 0 0 i).systemId = unusedPart
  · rw [if_pos unused, if_neg (by rw [unused]; decide)]
    rfl
  rw [if_neg unused]
  split_ifs
  · rw [partitionExtended_eq inside, get_extendedLoop rfl (zero_le k) (by omega),
      show drvOfDev 0 = 0 from rfl, Disks.get_setPrimary_of_ne notPrimary,
      Disks.get_setPrimary_self]
  · exact Disks.get_setPrimary_of_ne notPrimary

lemma stores_primaryTurn {slot : Slot}
    (stored : slot ∈ (primaryTurn tables 0 (tables 0 0) t i).stores) :
    slot ∈ t.stores ∨ InTables slot := by
  have first : ∀ {info}, slot ∈ (t.setPrimary 0 (i + 1) info).stores →
      slot ∈ t.stores ∨ InTables slot := by
    intro info mem
    rcases mem_cons.mp mem with rfl | before
    · exact .inr ⟨rfl, by omega, by omega⟩
    · exact .inl before
  rw [primaryTurn] at stored
  split_ifs at stored
  · exact .inl stored
  · rw [partitionExtended_eq inside] at stored
    rcases stores_extendedLoop stored with before | ⟨k, -, _, rfl⟩
    · exact first before
    · exact .inr ⟨rfl, by omega, by omega⟩
  · exact first stored

end

end Turns

lemma turns_scanned (tables : PartitionTables) (t : Disks) {n : Nat} (inside : n ≤ 4) :
    Scanned (fun i => if i < n then primaryInfo (tables 0) i else none)
      (fun i k => if i < n then logicalInfo (tables 0) i k else none) t
      ((List.range n).foldl (primaryTurn tables 0 (tables 0 0)) t) := by
  induction n with
  | zero =>
    constructor
    · intro slot stored
      exact .inl stored
    · intro i _
      rw [if_neg (not_lt_zero i)]
      rfl
    · intro i k _ _
      rw [if_neg (not_lt_zero i)]
      rfl
  | succ n ih =>
    have old := ih (by omega)
    have here : n < 4 := by omega
    rw [range_succ, foldl_append, foldl_cons, foldl_nil]
    constructor
    · intro slot stored
      rcases stores_primaryTurn here stored with before | inTables
      · exact old.stores slot before
      · exact .inr inTables
    · intro i small
      by_cases now : i = n
      · subst now
        rw [get_primaryTurn_primary here, old.primary i small, if_neg (lt_irrefl i),
          if_pos (lt_succ_self i)]
        rfl
      rw [get_primaryTurn_of_ne here, old.primary i small]
      · congr 1
        exact if_congr (by omega) rfl rfl
      · intro same
        injection same with _ sameIndex
        omega
      · intro k _ same
        cases same
    · intro i k small few
      by_cases now : i = n
      · subst now
        rw [get_primaryTurn_logical here few, old.logical i k small few,
          if_neg (lt_irrefl i), if_pos (lt_succ_self i)]
        rfl
      rw [get_primaryTurn_of_ne here, old.logical i k small few]
      · congr 1
        exact if_congr (by omega) rfl rfl
      · intro same
        cases same
      · intro other _ same
        injection same with _ sameIndex
        omega

/-- A scan of any disk, with cyclic chains or not, ends; it stores only to the elements for the
partitions of the drive, and enters every used entry of sector 0 and the first 16 boot records of
every extended one. -/
theorem partition_scanned (tables : PartitionTables) (t : Disks) :
    Scanned (primaryInfo (tables 0)) (logicalInfo (tables 0)) t (partition tables 0 0 t) := by
  have turns := turns_scanned tables t le_rfl
  constructor
  · exact turns.stores
  · intro i small
    have element := turns.primary i small
    rw [if_pos small] at element
    exact element
  · intro i k small few
    have element := turns.logical i k small few
    rw [if_pos small] at element
    exact element

end PrettyOS.Kernel
