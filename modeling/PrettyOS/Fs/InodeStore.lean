import PrettyOS.Fs.Mount

/-!
Contract: inodes written to the inode table of a disk and read back.

`read_inode` reads `ROOT_DEV` whatever the device of the inode is; the super block `mk_fs` writes
is one of `ROOT_DEV`, and `get_super_block` finds it for no other device.
-/

namespace PrettyOS.Fs

open Library Function Option Storage
open Lib
open Buffers

structure SameFields (a b : DInode) : Prop where
  iMode : a.iMode = b.iMode
  iSize : a.iSize = b.iSize
  iStartSect : a.iStartSect = b.iStartSect
  iNrSects : a.iNrSects = b.iNrSects
  iFlags : a.iFlags = b.iFlags
  iData : ∀ i < 13, a.iData i = b.iData i

structure DInode.Fits (d : DInode) : Prop where
  iMode : d.iMode < 2 ^ 16
  iSize : d.iSize < 2 ^ 16
  iStartSect : d.iStartSect < 2 ^ 16
  iNrSects : d.iNrSects < 2 ^ 16
  iFlags : d.iFlags < 2 ^ 32
  iData : ∀ i < 13, d.iData i < 2 ^ 32

lemma SameFields.symm {a b : DInode} (same : SameFields a b) : SameFields b a :=
  ⟨same.iMode.symm, same.iSize.symm, same.iStartSect.symm, same.iNrSects.symm, same.iFlags.symm,
    fun i small => (same.iData i small).symm⟩

lemma SameFields.trans {a b c : DInode} (first : SameFields a b) (second : SameFields b c) :
    SameFields a c :=
  ⟨first.iMode.trans second.iMode, first.iSize.trans second.iSize,
    first.iStartSect.trans second.iStartSect, first.iNrSects.trans second.iNrSects,
    first.iFlags.trans second.iFlags,
    fun i small => (first.iData i small).trans (second.iData i small)⟩

variable {mem other : Nat → Byte} {a b : Nat} {d : DInode}

lemma loadInode_sameFields (same : ∀ offset < inodeSize, mem (a + offset) = other (b + offset)) :
    SameFields (loadInode mem a) (loadInode other b) := by
  have shifted : ∀ from_ k, from_ + k < 64 → mem (a + from_ + k) = other (b + from_ + k) := by
    intro from_ k inside
    rw [Nat.add_assoc, Nat.add_assoc]
    exact same (from_ + k) inside
  refine ⟨?_, ?_, ?_, ?_, ?_, ?_⟩
  · exact word16_congr fun k small => shifted 0 k (by omega)
  · exact word16_congr fun k small => shifted 2 k (by omega)
  · exact word16_congr fun k small => shifted 4 k (by omega)
  · exact word16_congr fun k small => shifted 6 k (by omega)
  · exact word32_congr fun k small => shifted 8 k (by omega)
  intro i below
  apply word32_congr
  intro k small
  rw [Nat.add_assoc a, Nat.add_assoc b]
  exact shifted (12 + 4 * i) k (by omega)

lemma loadInode_overwrite (fits : d.Fits) :
    SameFields (loadInode (overwrite mem a inodeSize (inodeBytes d)) a) d := by
  have byte : ∀ from_ k, from_ + k < 64 →
      overwrite mem a inodeSize (inodeBytes d) (a + from_ + k) = inodeBytes d (from_ + k) := by
    intro from_ k inside
    rw [Nat.add_assoc]
    exact overwrite_add inside
  have short : ∀ from_ value, value < 2 ^ 16 → from_ + 2 ≤ 64 →
      (∀ k < 2, inodeBytes d (from_ + k) = byteOf value k) →
      word16 (overwrite mem a inodeSize (inodeBytes d)) (a + from_) = value := by
    intro from_ value small inside bytes
    rw [← @word16_store mem (a + from_) value small]
    apply word16_congr
    intro k below
    rw [byte from_ k (by omega), bytes k below]
    exact (overwrite_add below).symm
  have long : ∀ from_ value, value < 2 ^ 32 → from_ + 4 ≤ 64 →
      (∀ k < 4, inodeBytes d (from_ + k) = byteOf value k) →
      word32 (overwrite mem a inodeSize (inodeBytes d)) (a + from_) = value := by
    intro from_ value small inside bytes
    rw [← @word32_store mem (a + from_) value small]
    apply word32_congr
    intro k below
    rw [byte from_ k (by omega), bytes k below]
    exact (overwrite_add below).symm
  refine ⟨?_, ?_, ?_, ?_, ?_, ?_⟩
  · apply short 0 d.iMode fits.iMode (by decide)
    intro k below
    rw [Nat.zero_add, inodeBytes, if_pos below]
  · apply short 2 d.iSize fits.iSize (by decide)
    intro k below
    rw [inodeBytes, if_neg (by omega), if_pos (by omega), Nat.add_sub_cancel_left]
  · apply short 4 d.iStartSect fits.iStartSect (by decide)
    intro k below
    rw [inodeBytes, if_neg (by omega), if_neg (by omega), if_pos (by omega),
      Nat.add_sub_cancel_left]
  · apply short 6 d.iNrSects fits.iNrSects (by decide)
    intro k below
    rw [inodeBytes, if_neg (by omega), if_neg (by omega), if_neg (by omega), if_pos (by omega),
      Nat.add_sub_cancel_left]
  · apply long 8 d.iFlags fits.iFlags (by decide)
    intro k below
    rw [inodeBytes, if_neg (by omega), if_neg (by omega), if_neg (by omega), if_neg (by omega),
      if_pos (by omega), Nat.add_sub_cancel_left]
  · intro i few
    show word32 _ (a + 12 + 4 * i) = _
    rw [Nat.add_assoc]
    apply long (12 + 4 * i) (d.iData i) (fits.iData i few) (by omega)
    intro k below
    have isEntry : (12 + 4 * i + k - 12) / 4 = i := by omega
    have isByte : (12 + 4 * i + k - 12) % 4 = k := by omega
    rw [inodeBytes, if_neg (by omega), if_neg (by omega), if_neg (by omega), if_neg (by omega),
      if_neg (by omega), isEntry, isByte]

namespace InodeTable

variable {t after : InodeTable} {sb : SuperBlock} {fuel inode num : Nat} {result : Int}

def inodeSlot (num : Nat) : Nat := (num - 1) % (sectorSize / inodeSize) * inodeSize

lemma inodeSlot_eq (num : Nat) : inodeSlot num = (num - 1) % 8 * 64 := rfl

lemma inodeSlot_add_le (num : Nat) : inodeSlot num + inodeSize ≤ sectorSize := by
  show (num - 1) % 8 * 64 + 64 ≤ 512
  omega

lemma inodeBlock_eq (sb : SuperBlock) (num : Nat) :
    inodeBlock sb num = 2 + sb.sNimapSects + sb.sNzmapSects + (num - 1) / 8 := rfl

lemma inodeAddress_eq (first : 1 ≤ num) (data : Nat) :
    inodeAddress data num = data + inodeSlot num := by
  have isNat : ((num : Int) - 1) = ((num - 1 : Nat) : Int) := (Int.natCast_sub first).symm
  have isRest : (((num - 1 : Nat) : Int)).tmod (sectorSize / inodeSize) =
      ((((num - 1) % 8 : Nat)) : Int) := (Int.ofNat_tmod (num - 1) 8).symm
  rw [inodeAddress, isNat, isRest, inodeSlot_eq]
  show ((data : Int) + (((num - 1) % 8 : Nat) : Int) * 64).toNat = data + (num - 1) % 8 * 64
  omega

lemma inodes_apart {m n : Nat} (firstM : 1 ≤ m) (firstN : 1 ≤ n) (apart : m ≠ n) :
    inodeBlock sb m ≠ inodeBlock sb n ∨ inodeSlot m + inodeSize ≤ inodeSlot n ∨
      inodeSlot n + inodeSize ≤ inodeSlot m := by
  rw [inodeBlock_eq, inodeBlock_eq, inodeSlot_eq, inodeSlot_eq]
  show _ ∨ (m - 1) % 8 * 64 + 64 ≤ (n - 1) % 8 * 64 ∨ (n - 1) % 8 * 64 + 64 ≤ (m - 1) % 8 * 64
  omega

section

variable (found : t.superBlock (t.inode inode).iDev = some sb)
include found

lemma readInode_fields (isInode : inode ≠ 0)
    (first : 1 ≤ (t.inode inode).iNum) (ran : t.readInode fuel true inode = some (result, after)) :
    result = 0 ∧ SameFields (after.inode inode).toDInode
      (loadInode (t.storage.disk rootDev (inodeBlock sb (t.inode inode).iNum))
        (inodeSlot (t.inode inode).iNum)) := by
  unfold readInode at ran
  dsimp only at ran
  rw [if_neg isInode, found] at ran
  obtain ⟨⟨_, _⟩, isGot, ran⟩ := bind_eq_some_iff.mp ran
  obtain ⟨_, -, same⟩ := map_eq_some_iff.mp ran
  cases same
  refine ⟨rfl, ?_⟩
  dsimp only
  rw [update_self]
  apply loadInode_sameFields
  intro offset inside
  have fits := inodeSlot_add_le (t.inode inode).iNum
  rw [inodeAddress_eq first, Nat.add_assoc, ← (getblk_cache isGot).2.2]
  exact mem_hdRead (by omega)

lemma writeInode_disk (isInode : inode ≠ 0) (dirty : (t.inode inode).iDirty ≠ 0)
    (device : (t.inode inode).iDev ≠ 0) (first : 1 ≤ (t.inode inode).iNum)
    (ran : t.writeInode fuel true true inode = some (result, after)) :
    result = 0 ∧ after.superBlock = t.superBlock ∧
      after.inode = update t.inode inode { t.inode inode with iDirty := 0 } ∧
      (∀ onDev sector, onDev ≠ (t.inode inode).iDev ∨ sector ≠ inodeBlock sb (t.inode inode).iNum →
        after.storage.disk onDev sector = t.storage.disk onDev sector) ∧ ∀ offset < sectorSize,
        after.storage.disk (t.inode inode).iDev (inodeBlock sb (t.inode inode).iNum) offset =
          overwrite (t.storage.disk (t.inode inode).iDev (inodeBlock sb (t.inode inode).iNum))
            (inodeSlot (t.inode inode).iNum) inodeSize (inodeBytes (t.inode inode).toDInode)
            offset := by
  unfold writeInode at ran
  dsimp only at ran
  rw [if_neg (not_or.mpr ⟨isInode, not_or.mpr ⟨dirty, device⟩⟩), found, bind_some] at ran
  obtain ⟨⟨bh, got⟩, isGot, ran⟩ := bind_eq_some_iff.mp ran
  obtain ⟨_, freed, same⟩ := map_eq_some_iff.mp ran
  cases same
  obtain ⟨-, -, gotDisk⟩ := getblk_cache isGot
  obtain ⟨-, -, isDisk⟩ := brelse_cache freed
  refine ⟨rfl, rfl, rfl, ?_, ?_⟩
  · intro onDev sector away
    rw [isDisk, if_pos rfl, disk_hdWrite_other away, ← gotDisk]
    rfl
  intro offset inside
  rw [isDisk, if_pos rfl, disk_hdWrite_same inside, inodeAddress_eq first, ← gotDisk]
  -- the buffer is the sector with the slot overwritten
  show overwrite (got.hdRead _ _ bh).mem (got.cache.bData bh + inodeSlot _) inodeSize _
    (got.cache.bData bh + offset) = _
  unfold overwrite
  by_cases inSlot : inodeSlot (t.inode inode).iNum ≤ offset ∧
      offset < inodeSlot (t.inode inode).iNum + inodeSize
  · rw [if_pos (by omega), if_pos inSlot]
    congr 1
    omega
  · rw [if_neg (by omega), if_neg inSlot]
    exact mem_hdRead inside

end

theorem writeInode_returns {start : Nat} (ready : Ready start t.storage.cache)
    (placed : 0 < start) (enough : nrBuffers < fuel) (found : t.superBlock rootDev = some sb)
    (onRoot : (t.inode inode).iDev = rootDev) (isInode : inode ≠ 0)
    (dirty : (t.inode inode).iDirty ≠ 0) :
    ∃ wrote, t.writeInode fuel true true inode = some (0, wrote) ∧
      Serving start wrote.storage.cache := by
  have sameCache : ∀ (bh : Nat) (s : Storage), Storage.cache ((storeInode (t.inode inode).toDInode
      (inodeAddress ((s.hdRead rootDev (inodeBlock sb (t.inode inode).iNum) bh).cache.bData bh)
        (t.inode inode).iNum)
      (s.hdRead rootDev (inodeBlock sb (t.inode inode).iNum) bh)).hdWrite rootDev
        (inodeBlock sb (t.inode inode).iNum) bh) = s.cache := fun _ _ => rfl
  obtain ⟨bh, got, _, isGot, freed⟩ := edit_returns ready.serving placed enough sameCache
    (inodeBlock sb (t.inode inode).iNum)
  have device : (t.inode inode).iDev ≠ 0 := by
    rw [onRoot]
    decide
  unfold writeInode
  dsimp only
  rw [if_neg (not_or.mpr ⟨isInode, not_or.mpr ⟨dirty, device⟩⟩), onRoot, found, bind_some,
    isGot, bind_some]
  dsimp only
  rw [if_pos rfl, if_pos rfl, freed]
  exact ⟨_, rfl, serving_of_edit ready placed isGot sameCache freed⟩

lemma sDev_getSuperBlock {table : Nat → SuperBlock} {dev : Nat}
    (found : getSuperBlock table dev = some sb) : sb.sDev = dev := by
  obtain ⟨_, isSlot, rfl⟩ := map_eq_some_iff.mp found
  have isDev := List.find?_some isSlot
  exact of_decide_eq_true isDev

structure WrittenBack (t : InodeTable) (inode : Nat) (result : Int) (written : InodeTable) :
    Prop where
  result : result = 0
  same : ∀ fuel reader result after, reader ≠ 0 →
    (written.inode reader).iDev = (t.inode inode).iDev →
    (written.inode reader).iNum = (t.inode inode).iNum →
    written.readInode fuel true reader = some (result, after) →
      result = 0 ∧ SameFields (after.inode reader).toDInode (t.inode inode).toDInode
  others : ∀ fuel fuel' reader result result' before after, reader ≠ 0 →
    (t.inode reader).iDev = (t.inode inode).iDev →
    1 ≤ (t.inode reader).iNum → (t.inode reader).iNum ≤ formattedSuperBlock.sNinodes →
    (t.inode reader).iNum ≠ (t.inode inode).iNum →
    t.readInode fuel true reader = some (result, before) →
    written.readInode fuel' true reader = some (result', after) → result' = result ∧
        SameFields (after.inode reader).toDInode (before.inode reader).toDInode
  table : ∀ onDev sector, onDev ≠ (t.inode inode).iDev ∨
    sector < 1 + 1 + formattedSuperBlock.sNimapSects + formattedSuperBlock.sNzmapSects ∨
    formattedSuperBlock.sFirstzone ≤ sector →
      written.storage.disk onDev sector = t.storage.disk onDev sector

lemma writeInode_writtenBack (table : Nat → SuperBlock) (t wrote : InodeTable)
    (fuel inode : Nat) (result : Int) (isTable : t.superBlock = getSuperBlock table)
    (mnt : t.superBlock (t.inode inode).iDev = some formattedSuperBlock)
    (isInode : inode ≠ 0) (dirty : (t.inode inode).iDirty ≠ 0) (first : 1 ≤ (t.inode inode).iNum)
    (last : (t.inode inode).iNum ≤ formattedSuperBlock.sNinodes)
    (fits : (t.inode inode).toDInode.Fits)
    (ran : t.writeInode fuel true true inode = some (result, wrote)) :
    WrittenBack t inode result wrote := by
  have onRoot : (t.inode inode).iDev = rootDev := by
    rw [isTable] at mnt
    exact (sDev_getSuperBlock mnt).symm
  have device : (t.inode inode).iDev ≠ 0 := by
    rw [onRoot]
    decide
  obtain ⟨isZero, sameTable, inodes, away, here⟩ :=
    writeInode_disk mnt isInode dirty device first ran
  rw [onRoot] at away here mnt
  have foundAfter : wrote.superBlock rootDev = some formattedSuperBlock.toSuperBlock := by
    rw [sameTable]
    exact mnt
  have sameNumbers : ∀ reader, (wrote.inode reader).iDev = (t.inode reader).iDev ∧
      (wrote.inode reader).iNum = (t.inode reader).iNum := by
    intro reader
    rw [inodes]
    rcases eq_or_ne reader inode with rfl | apart
    · rw [update_self]
      exact ⟨rfl, rfl⟩
    · rw [update_of_ne apart]
      exact ⟨rfl, rfl⟩
  refine ⟨isZero, ?_, ?_, ?_⟩
  · intro fuel' reader result' after isReader isDev isNum isRead
    rw [onRoot] at isDev
    obtain ⟨isZero', fields⟩ :=
      readInode_fields (isDev.symm ▸ foundAfter) isReader (isNum.symm ▸ first) isRead
    rw [isNum] at fields
    refine ⟨isZero', fields.trans ?_⟩
    have slot := inodeSlot_add_le (t.inode inode).iNum
    apply SameFields.trans (loadInode_sameFields _) (loadInode_overwrite fits)
    · exact t.storage.disk rootDev (inodeBlock formattedSuperBlock (t.inode inode).iNum)
    · exact inodeSlot (t.inode inode).iNum
    · intro offset inside
      exact here _ (by omega)
  · intro fuel' fuel'' reader result' result'' before after isReader isDev firstReader lastReader
      apart isBefore isAfter
    rw [onRoot] at isDev
    obtain ⟨sameDev, sameNum⟩ := sameNumbers reader
    obtain ⟨zeroBefore, fieldsBefore⟩ :=
      readInode_fields (isDev.symm ▸ mnt) isReader firstReader isBefore
    obtain ⟨zeroAfter, fieldsAfter⟩ :=
      readInode_fields ((sameDev.trans isDev).symm ▸ foundAfter) isReader
        (sameNum.symm ▸ firstReader) isAfter
    rw [sameNum] at fieldsAfter
    refine ⟨zeroAfter.trans zeroBefore.symm, fieldsAfter.trans (SameFields.trans ?_
      fieldsBefore.symm)⟩
    apply loadInode_sameFields
    intro offset inside
    have slot := inodeSlot_add_le (t.inode reader).iNum
    by_cases sameSector : inodeBlock formattedSuperBlock (t.inode reader).iNum =
        inodeBlock formattedSuperBlock (t.inode inode).iNum
    · have out := (@inodes_apart formattedSuperBlock _ _ firstReader first apart).resolve_left
        (not_not_intro sameSector)
      rw [sameSector, here _ (by omega)]
      exact overwrite_of_outside (by omega)
    · rw [away rootDev _ (.inr sameSector)]
  · intro onDev sector out
    apply away onDev sector
    rw [onRoot] at out
    rcases out with otherDev | below | above
    · exact .inl otherDev
    all_goals right
    · rw [inodeBlock_eq]
      omega
    · rw [inodeBlock_eq]
      have isFirst : formattedSuperBlock.sFirstzone = 516 := rfl
      have isLast : formattedSuperBlock.sNinodes = 4096 := rfl
      have maps : formattedSuperBlock.sNimapSects = 1 ∧ formattedSuperBlock.sNzmapSects = 1 :=
        ⟨rfl, rfl⟩
      omega

/-- On a file system that `mk_fs` made, `write_inode` of any dirty inode of the table and
`read_inode` are a round trip. Both return if the free ring is as `buffer_init` leaves it. -/
theorem writeInode_round_trip (table : Nat → SuperBlock) (t : InodeTable) (fuel inode : Nat)
    (isTable : t.superBlock = getSuperBlock table)
    (mounted : t.superBlock (t.inode inode).iDev = some formattedSuperBlock)
    (isInode : inode ≠ 0) (dirty : (t.inode inode).iDirty ≠ 0) (first : 1 ≤ (t.inode inode).iNum)
    (last : (t.inode inode).iNum ≤ formattedSuperBlock.sNinodes)
    (fits : (t.inode inode).toDInode.Fits) :
    (∀ result written, t.writeInode fuel true true inode = some (result, written) →
      WrittenBack t inode result written) ∧
    ∀ start, Ready start t.storage.cache → 0 < start → nrBuffers < fuel →
      ∃ written, t.writeInode fuel true true inode = some (0, written) ∧
        ∀ reader, reader ≠ 0 → (written.inode reader).iDev = (t.inode inode).iDev →
          ∃ after, written.readInode fuel true reader = some (0, after) := by
  refine ⟨fun result written returned => writeInode_writtenBack table t written fuel inode result
    isTable mounted isInode dirty first last fits returned, ?_⟩
  intro start ready placed enough
  have onRoot : (t.inode inode).iDev = rootDev := by
    rw [isTable] at mounted
    exact (sDev_getSuperBlock mounted).symm
  have device : (t.inode inode).iDev ≠ 0 := by
    rw [onRoot]
    decide
  have found : t.superBlock rootDev = some formattedSuperBlock.toSuperBlock := by
    rw [← onRoot]
    exact mounted
  obtain ⟨written, returned, serving⟩ :=
    writeInode_returns ready placed enough found onRoot isInode dirty
  have sameTable := (writeInode_disk mounted isInode dirty device first returned).2.1
  refine ⟨written, returned, fun reader isReader isDev => ?_⟩
  obtain ⟨after, isRead, -⟩ :=
    readInode_returns serving placed enough isReader (isDev.trans onRoot) (sameTable ▸ found)
  exact ⟨after, isRead⟩

def oneInode : InodeTable where
  storage := Storage.blank
  superBlock := getSuperBlock fun _ => formattedSuperBlock
  sInodes := fun _ => []
  inode := fun _ =>
    { clearedInode with iMode := 0x81B4, iSize := 77, iDev := rootDev, iNum := 9, iDirty := 1 }
  rootInode := 0
  nrInodesCount := 0

theorem writeInode_round_trip_oneInode :
    ∃ written, oneInode.writeInode 2000 true true 5 = some (0, written) ∧
      WrittenBack oneInode 5 0 written ∧
      ∃ after, written.readInode 2000 true 5 = some (0, after) := by
  have fits : (oneInode.inode 5).toDInode.Fits :=
    ⟨by decide, by decide, by decide, by decide, by decide, fun _ _ => Nat.two_pow_pos 32⟩
  obtain ⟨holds, returns⟩ :=
    writeInode_round_trip (fun _ => formattedSuperBlock) oneInode 2000 5 rfl
    rfl (by decide) (by decide) (by decide) (by decide) fits
  obtain ⟨written, returned, reads⟩ :=
    returns 0x100000 (ready_bufferInit _ _) (by decide) (by decide)
  have isDev : (written.inode 5).iDev = rootDev := by
    have inodes := (writeInode_disk (t := oneInode) rfl (by decide) (by decide) (by decide)
      (by decide) returned).2.2.1
    rw [inodes, update_self]
    rfl
  exact ⟨written, returned, holds 0 written returned, reads 5 (by decide) isDev⟩

end InodeTable

end PrettyOS.Fs
