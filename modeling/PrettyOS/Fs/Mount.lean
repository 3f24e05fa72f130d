import PrettyOS.Fs.ColdCache
import PrettyOS.Fs.Format

/-!
Contract: mounting the root device.
-/

namespace PrettyOS.Fs

open Library Option Nat List
open Function
open Lib
open Buffers

variable {start fuel object slot : Nat} {stack : Nat → Byte} {inode : Nat → MInode}
  {table loadedTable : Nat → SuperBlock} {sb loaded : SuperBlock} {s t : Storage}

lemma loadSuperBlock_congr {mem other : Nat → Byte} {a b : Nat}
    (same : ∀ k < sizeofSuperBlock, mem (a + k) = other (b + k)) :
    loadSuperBlock mem a = loadSuperBlock other b := by
  have short : ∀ offset, offset + 2 ≤ sizeofSuperBlock →
      Lib.word16 mem (a + offset) = Lib.word16 other (b + offset) := fun offset inside =>
    Lib.word16_congr fun k small => by
      rw [add_assoc, add_assoc]
      exact same (offset + k) (by omega)
  have long : ∀ offset, offset + 4 ≤ sizeofSuperBlock →
      Lib.word32 mem (a + offset) = Lib.word32 other (b + offset) := fun offset inside =>
    Lib.word32_congr fun k small => by
      rw [add_assoc, add_assoc]
      exact same (offset + k) (by omega)
  unfold loadSuperBlock
  rw [show Lib.word16 mem a = Lib.word16 other b from short 0 (by decide),
    short 2 (by decide), short 4 (by decide), short 6 (by decide), short 8 (by decide),
    short 10 (by decide), short 12 (by decide), long 16 (by decide)]

lemma loadSuperBlock_hdRead (dev block bh : Nat) :
    loadSuperBlock (s.hdRead dev block bh).mem (s.cache.bData bh) =
      loadSuperBlock (s.disk dev block) 0 := by
  refine loadSuperBlock_congr fun k inside => ?_
  rw [zero_add]
  exact Storage.mem_hdRead (inside.trans (by decide))

lemma readSuperBlock_spec {loaded : Nat → SuperBlock}
    (ran : readSuperBlock fuel table s = some (slot, loaded, t)) :
    slot = freeSlot table ∧
      loaded = update table (freeSlot table) (loadSuperBlock (s.disk rootDev 1) 0) ∧
      t.disk = s.disk := by
  obtain ⟨⟨bh, got⟩, isGot, ran⟩ := bind_eq_some_iff.mp ran
  obtain ⟨_, freed, same⟩ := map_eq_some_iff.mp ran
  cases same
  have gotDisk := (Storage.getblk_cache isGot).2.2
  refine ⟨rfl, ?_, (Storage.brelse_cache freed).2.2.trans gotDisk⟩
  rw [← gotDisk]
  exact congrArg (update table (freeSlot table)) (loadSuperBlock_hdRead rootDev 1 bh)

theorem readSuperBlock_returns (ready : Ready start s.cache) (placed : 0 < start)
    (enough : nrBuffers < fuel) (table : Nat → SuperBlock) :
    ∃ t, readSuperBlock fuel table s = some (freeSlot table,
        update table (freeSlot table) (loadSuperBlock (s.disk rootDev 1) 0), t) ∧
      t.disk = s.disk ∧ Serving start t.cache := by
  have sameCache : ∀ (bh : Nat) (s : Storage), (s.hdRead rootDev 1 bh).cache = s.cache :=
    fun _ _ => rfl
  obtain ⟨bh, got, t, isGot, freed⟩ := edit_returns ready.serving placed enough sameCache 1
  have returns : ∃ slot loaded, readSuperBlock fuel table s = some (slot, loaded, t) := by
    unfold readSuperBlock
    rw [isGot, bind_some]
    dsimp only at freed ⊢
    rw [freed]
    exact ⟨_, _, rfl⟩
  obtain ⟨slot, loaded, ran⟩ := returns
  obtain ⟨isSlot, isLoaded, disk⟩ := readSuperBlock_spec ran
  rw [isSlot, isLoaded] at ran
  exact ⟨t, ran, disk, serving_of_edit ready placed isGot sameCache freed⟩

lemma find?_slots (found : Nat → Bool) :
    (List.range nrSuper).find? found =
      if found 0 then some 0 else if found 1 then some 1 else none := by
  rw [show range nrSuper = [0, 1] from rfl, find?_cons]
  cases found 0 with
  | true => rfl
  | false =>
    rw [find?_cons]
    cases found 1 <;> rfl

lemma freeSlot_clearTable (table : Nat → SuperBlock) : freeSlot (clearTable table) = 0 := by
  unfold freeSlot
  rw [find?_slots, if_pos (show decide ((clearTable table 0).sDev = 0) = true from rfl)]
  rfl

lemma getSuperBlock_loaded :
    getSuperBlock (update (clearTable table) 0 loaded) rootDev =
      if loaded.sDev = rootDev then some loaded else none := by
  have second : update (clearTable table) 0 loaded 1 = clearTable table 1 :=
    update_of_ne (by decide) _ _
  unfold getSuperBlock
  rw [find?_slots, second, update_self]
  by_cases isRoot : loaded.sDev = rootDev
  · rw [if_pos (decide_eq_true isRoot), if_pos isRoot, map_some, update_self]
  · rw [if_neg (Bool.not_eq_true _ ▸ decide_eq_false isRoot), if_neg isRoot]
    rfl

lemma mkFs_table (ran : mkFs fuel stack table s = some (slot, loadedTable, t)) :
    slot = freeSlot table ∧
      ∃ loaded, loadedTable = update table (freeSlot table) loaded := by
  obtain ⟨_, -, ran⟩ := bind_eq_some_iff.mp ran
  obtain ⟨⟨_, _, _⟩, isRead, ran⟩ := bind_eq_some_iff.mp ran
  obtain ⟨_, -, ran⟩ := bind_eq_some_iff.mp ran
  obtain ⟨_, -, ran⟩ := bind_eq_some_iff.mp ran
  obtain ⟨_, -, ran⟩ := bind_eq_some_iff.mp ran
  obtain ⟨_, -, ran⟩ := bind_eq_some_iff.mp ran
  obtain ⟨_, -, same⟩ := map_eq_some_iff.mp ran
  cases same
  obtain ⟨⟨_, _⟩, -, isRead⟩ := bind_eq_some_iff.mp isRead
  obtain ⟨_, -, same⟩ := map_eq_some_iff.mp isRead
  cases same
  exact ⟨rfl, _, rfl⟩

lemma getSuperBlock_mkFs (isRoot : loaded.sDev = rootDev)
    (ran : mkFs fuel stack (update (clearTable table) 0 loaded) s = some (slot, loadedTable, t)) :
    getSuperBlock loadedTable rootDev = some loaded := by
  obtain ⟨-, _, rfl⟩ := mkFs_table ran
  have second : update (clearTable table) 0 loaded 1 = clearTable table 1 :=
    update_of_ne (by decide) _ _
  have isSecond : freeSlot (update (clearTable table) 0 loaded) = 1 := by
    unfold freeSlot
    rw [find?_slots, second, update_self, isRoot]
    rfl
  have first : (0 : Nat) ≠ 1 := by decide
  unfold getSuperBlock
  rw [isSecond, find?_slots, update_of_ne first, update_self, isRoot,
    if_pos (decide_eq_true rfl), map_some, update_of_ne first,
    update_self]

theorem readInode_returns {inodes : InodeTable} {nr : Nat}
    (serving : Serving start inodes.storage.cache) (placed : 0 < start)
    (enough : nrBuffers < fuel) (isInode : nr ≠ 0) (onRoot : (inodes.inode nr).iDev = rootDev)
    (found : inodes.superBlock rootDev = some sb) :
    ∃ ended, inodes.readInode fuel true nr = some (0, ended) ∧
      ended.storage.disk = inodes.storage.disk := by
  generalize isBlock : InodeTable.inodeBlock sb (inodes.inode nr).iNum = block
  have sameCache : ∀ (bh : Nat) (s : Storage), (s.hdRead rootDev block bh).cache = s.cache :=
    fun _ _ => rfl
  obtain ⟨bh, got, t, isGot, freed⟩ := edit_returns serving placed enough sameCache block
  have disk : t.disk = inodes.storage.disk :=
    (Storage.brelse_cache freed).2.2.trans (Storage.getblk_cache isGot).2.2
  unfold InodeTable.readInode
  dsimp only at freed ⊢
  rw [if_neg isInode, onRoot, found]
  dsimp only
  rw [isBlock, isGot, bind_some]
  dsimp only
  rw [if_pos rfl, freed]
  exact ⟨_, rfl, disk⟩

theorem igetRoot_returns (serving : Serving start s.cache) (placed : 0 < start)
    (enough : nrBuffers < fuel) (found : getSuperBlock table rootDev = some sb) :
    ∃ root inodes, igetRoot fuel object inode table s = some (root, inodes) ∧
      inodes.storage.disk = s.disk := by
  unfold igetRoot
  generalize isBefore : InodeTable.mk s (getSuperBlock table) (fun _ => []) inode 0 0 = before
  have storage : before.storage = s := by rw [← isBefore]
  have mnt : before.superBlock rootDev = some sb := by
    rw [← isBefore]
    exact found
  have absent : before.cached rootDev rootInodeNum = none := by
    rw [← isBefore]
    rfl
  unfold InodeTable.iget
  rw [if_neg (by decide), mnt, bind_some, absent]
  dsimp only
  by_cases refused : sb.sNinodes ≤ before.nrInodesCount ∨ object = 0
  · unfold InodeTable.getEmptyInode
    rw [if_pos refused]
    dsimp only
    exact ⟨0, _, if_pos rfl, congrArg Storage.disk storage⟩
  unfold InodeTable.getEmptyInode
  rw [if_neg refused]
  dsimp only
  rw [if_neg (not_or.mp refused).2]
  generalize isNew : InodeTable.setNum object rootInodeNum _ = new
  have newStorage : new.storage = before.storage := by rw [← isNew]; rfl
  have newMounted : new.superBlock rootDev = some sb := by rw [← isNew]; exact mnt
  have onRoot : (new.inode object).iDev = rootDev := by
    rw [← isNew]
    simp only [InodeTable.setNum, update_self]
    rfl
  rw [storage] at newStorage
  obtain ⟨_, isEnded, disk⟩ := readInode_returns (newStorage.symm ▸ serving) placed enough
    (not_or.mp refused).2 onRoot newMounted
  rw [isEnded]
  exact ⟨_, _, rfl, disk.trans (congrArg Storage.disk newStorage)⟩

def Mounted (result : Option (List Nat × (Nat → SuperBlock) × InodeTable)) : Prop :=
  ∃ slots table inodes, result = some (slots, table, inodes) ∧ (∀ slot ∈ slots, slot < nrSuper) ∧
    ∃ sb, getSuperBlock table rootDev = some sb ∧ sb.sMagic = magicFs ∧
      sb = loadSuperBlock (inodes.storage.disk rootDev 1) 0

/-- From the cache that `buffer_init` leaves, whatever the buffers held before, mounting works
exactly on the disks whose sector `1` already is a super block of the root device with the magic
number. -/
theorem mounted_iff (ready : Ready start s.cache) (placed : 0 < start)
    (enough : nrBuffers < fuel) :
    Mounted (initFs fuel object stack inode table s) ↔
      (loadSuperBlock (s.disk rootDev 1) 0).sDev = rootDev ∧
        (loadSuperBlock (s.disk rootDev 1) 0).sMagic = magicFs := by
  obtain ⟨_, isRead, sameDisk, serving⟩ :=
    readSuperBlock_returns ready placed enough (clearTable table)
  rw [freeSlot_clearTable] at isRead
  unfold initFs
  rw [isRead, bind_some]
  generalize isLoaded : loadSuperBlock (s.disk rootDev 1) 0 = loaded
  dsimp only
  rw [getSuperBlock_loaded]
  by_cases isRoot : loaded.sDev = rootDev
  · rw [if_pos isRoot, bind_some]
    have found :
        getSuperBlock (update (clearTable table) 0 loaded) rootDev = some loaded :=
      getSuperBlock_loaded.trans (if_pos isRoot)
    by_cases isMagic : loaded.sMagic = magicFs
    · refine iff_of_true ?_ ⟨isRoot, isMagic⟩
      obtain ⟨root, inodes, isRootInode, disk⟩ :=
        @igetRoot_returns start fuel object inode _ _ _ serving placed enough found
      rw [if_neg (not_not.mpr isMagic), isRootInode]
      refine ⟨_, _, _, rfl, ?_, loaded, found, isMagic, ?_⟩
      · intro slot member
        rw [mem_singleton.mp member]
        decide
      · rw [← isLoaded, ← sameDisk]
        exact congrArg (fun disk => loadSuperBlock (disk rootDev 1) 0) disk.symm
    · refine iff_of_false ?_ fun both => isMagic both.2
      rw [if_pos isMagic]
      rintro ⟨slots, last, inodes, returned, -, _, isFound, sbMagic, -⟩
      obtain ⟨⟨_, _, _⟩, isMade, returned⟩ := bind_eq_some_iff.mp returned
      obtain ⟨⟨root, inodes⟩, -, same⟩ := map_eq_some_iff.mp returned
      cases same
      cases (getSuperBlock_mkFs isRoot isMade).symm.trans isFound
      exact isMagic sbMagic
  · rw [if_neg isRoot]
    refine iff_of_false ?_ fun both => isRoot both.1
    rintro ⟨slots, last, inodes, returned, -⟩
    cases returned

def formattedDisk : Storage :=
  { Storage.blank with disk := fun _ _ => superBlockBytes formattedSuperBlock fun _ => 0 }

def noSuperBlock : SuperBlock where
  sMagic := 0
  sNinodes := 0
  sNzones := 0
  sNimapSects := 0
  sNzmapSects := 0
  sFirstzone := 0
  sDev := 0
  fileMaxSize := 0

/-- The formatted disk, with buffers that once held other blocks. -/
def reusedBuffers : Storage :=
  { formattedDisk with cache := bufferInit (fun bh => bh / 36 % 7) 0x100000 }

theorem mounted_reusedBuffers :
    Mounted (initFs 2000 0x200000 (fun _ => 0) (fun _ => clearedInode) (fun _ => noSuperBlock)
      reusedBuffers) := by
  have ready : Ready 0x100000 reusedBuffers.cache := ready_bufferInit _ 0x100000
  refine (mounted_iff ready (by decide) (by decide)).mpr ⟨?_, ?_⟩
  · decide
  · decide

/-- On a blank disk no super block of the root device is found, and the null pointer is
followed. -/
theorem mount_followsNull_blank :
    (readSuperBlock 8 (clearTable fun _ => noSuperBlock) Storage.blank).map
        (fun loaded => getSuperBlock loaded.2.1 rootDev) = some none ∧
      initFs 8 0 (fun _ => 0) (fun _ => clearedInode) (fun _ => noSuperBlock) Storage.blank =
        none := by
  have notFound : (readSuperBlock 8 (clearTable fun _ => noSuperBlock) Storage.blank).map
      (fun loaded => getSuperBlock loaded.2.1 rootDev) = some none := by decide
  refine ⟨notFound, ?_⟩
  obtain ⟨⟨_, _, s⟩, isLoaded, isNull⟩ := map_eq_some_iff.mp notFound
  unfold initFs
  rw [isLoaded, bind_some]
  dsimp only at isNull ⊢
  rw [isNull, bind_none]

end PrettyOS.Fs
