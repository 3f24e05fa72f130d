import PrettyOS.Fs.PathLookup

/-!
Contract: the removal of a file, `do_unlink` of `fs/link.c`.
-/

namespace PrettyOS.Fs

open Library Option
open Lib

def ePerm : Int := 1

def eNoent : Int := 2

def eMlink : Int := 31

namespace InodeTable

def isDirectory (mode : Nat) : Bool := mode &&& 0x1D00 = 0x0400

def setDirty (inode : Nat) (t : InodeTable) : InodeTable :=
  { t with inode := Function.update t.inode inode { t.inode inode with iDirty := 1 } }

def eraseNumber (de : Nat) (t : InodeTable) : InodeTable :=
  { t with storage := { t.storage with mem := Lib.store t.storage.mem de 2 0 } }

section Definitions

variable (fuel : Nat) (give : InodeTable → Nat) (stack : Nat)

def putAndReturn (inode : Nat) (ret : Int) (t : InodeTable) : Option (Int × InodeTable) :=
  (t.iput fuel true true inode).map fun (_, t) => (ret, t)

def dropInode (dir inode de : Nat) (t : InodeTable) : Option (Int × InodeTable) :=
  if inode = 0 then t.putAndReturn fuel dir (-eNoent)
  else if isDirectory (t.inode inode).iMode then
    (t.iput fuel true true inode).bind fun (_, t) => t.putAndReturn fuel dir (-ePerm)
  else
    let t := t.setCount inode ((t.inode inode).iCount - 1)
    if (t.inode inode).iCount ≠ 0 then some (-eMlink, t)
    else
      (((t.eraseNumber de).setDirty inode).iput fuel true true inode).bind fun (_, t) =>
        t.putAndReturn fuel dir 0

def unlinkIn (place : PathEnd) (t : InodeTable) : Option (Int × InodeTable) :=
  if place.namelen = 0 then t.putAndReturn fuel place.dir (-eNoent)
  else if place.dir = 0 then none
  else
    (delEntry fuel (t.inode place.dir) place.name place.namelen t.storage).bind
      fun (ret, de, s) =>
        let t := { t with storage := s }
        if ret ≠ 0 then t.putAndReturn fuel place.dir (-eNoent)
        else
          (t.iget fuel (give t) true (t.inode place.dir).iDev
            (inodeNum s.mem (de.getD stack))).bind fun (inode, t) =>
              t.dropInode fuel place.dir inode (de.getD stack)

def doUnlink (name : List Byte) (t : InodeTable) : Option (Int × InodeTable) :=
  (t.dirNamei fuel give stack name).bind fun
    | (.error _, t) => some (-eNoent, t)
    | (.ok place, t) => t.unlinkIn fuel give stack place

end Definitions

structure Removed (sb : SuperBlock) (block k num : Nat) (s t : Storage) : Prop where
  gone : inodeNum (t.disk rootDev block) (sizeofDentry * k) = 0
  entries : ∀ offset < sectorSize, offset < sizeofDentry * k ∨ sizeofDentry * (k + 1) ≤ offset →
      t.disk rootDev block offset = s.disk rootDev block offset
  clear : t.mapBit rootDev 2 num = false
  bits : ∀ other < sb.sNimapSects * bitsZone, other ≠ num →
    t.mapBit rootDev 2 other = s.mapBit rootDev 2 other

def Unlinks (fuel : Nat) (give : InodeTable → Nat) (stack : Nat) (sb : SuperBlock)
    (path : List Byte) (block k num : Nat) (t : InodeTable) : Prop :=
  ∃ after, t.doUnlink fuel give stack path = some (0, after) ∧
    Removed sb block k num t.storage after.storage

structure KeepsImap (sb : SuperBlock) (t after : InodeTable) : Prop where
  superBlock : after.superBlock = t.superBlock
  sectors : ∀ block, 2 ≤ block → block < 2 + sb.sNimapSects →
    after.storage.disk rootDev block = t.storage.disk rootDev block

variable {t after middle : InodeTable} {sb : SuperBlock} {fuel object inode num : Nat} {ret : Int}

lemma KeepsImap.refl (sb : SuperBlock) (t : InodeTable) : KeepsImap sb t t :=
  ⟨rfl, fun _ _ _ => rfl⟩

lemma KeepsImap.trans (first : KeepsImap sb t middle) (second : KeepsImap sb middle after) :
    KeepsImap sb t after :=
  ⟨second.superBlock.trans first.superBlock,
    fun block above below =>
      (second.sectors block above below).trans (first.sectors block above below)⟩

lemma SameDisks.keepsImap (same : SameDisks t after) : KeepsImap sb t after :=
  ⟨same.superBlock, fun block _ _ => by rw [same.disk]⟩

lemma KeepsImap.mapBit (keeps : KeepsImap sb t after) (mapped : num < sb.sNimapSects * bitsZone) :
    after.storage.mapBit rootDev 2 num = t.storage.mapBit rootDev 2 num := by
  have inside := Nat.div_lt_of_lt_mul (by rwa [Nat.mul_comm])
  unfold Storage.mapBit
  rw [Storage.sector_congr (keeps.sectors (2 + num / bitsZone) (Nat.le_add_right 2 _)
    (Nat.add_lt_add_left inside 2))]

section

variable (mounted : t.superBlock rootDev = some sb)
include mounted

lemma writeInode_keepsImap
    (ran : t.writeInode fuel true true inode = some (ret, after)) : KeepsImap sb t after := by
  unfold writeInode at ran
  dsimp only at ran
  by_cases idle : inode = 0 ∨ (t.inode inode).iDirty = 0 ∨ (t.inode inode).iDev = 0
  · rw [if_pos idle] at ran
    cases ran
    exact KeepsImap.refl sb t
  rw [if_neg idle] at ran
  obtain ⟨found, isFound, ran⟩ := bind_eq_some_iff.mp ran
  obtain ⟨⟨_, _⟩, isGot, ran⟩ := bind_eq_some_iff.mp ran
  obtain ⟨released, freed, same⟩ := map_eq_some_iff.mp ran
  cases same
  refine ⟨rfl, fun block _ below => ?_⟩
  have away : rootDev ≠ (t.inode inode).iDev ∨
      block ≠ inodeBlock found (t.inode inode).iNum := by
    by_cases onRoot : rootDev = (t.inode inode).iDev
    · rw [← onRoot, mounted] at isFound
      cases isFound
      right
      rw [inodeBlock_eq]
      omega
    · exact .inl onRoot
  show released.disk rootDev block = _
  rw [(Storage.brelse_cache freed).2.2, if_pos rfl, Storage.disk_hdWrite_other away,
    ← (Storage.getblk_cache isGot).2.2]
  rfl

lemma iput_keepsImap
    (ran : t.iput fuel true true inode = some (ret, after)) : KeepsImap sb t after := by
  unfold iput at ran
  dsimp only at ran
  split_ifs at ran
  all_goals try (cases ran; exact KeepsImap.refl sb t)
  · cases ran
    exact ⟨rfl, fun _ _ _ => rfl⟩
  · -- the last reference: a dirty inode is written
    obtain ⟨_, freed, same⟩ := map_eq_some_iff.mp ran
    cases same
    unfold release at freed
    split_ifs at freed
    · obtain ⟨⟨_, wrote⟩, isWritten, freed⟩ := bind_eq_some_iff.mp freed
      rw [freeInode_same freed]
      have kept : KeepsImap sb (t.setCount inode ((t.inode inode).iCount - 1)) wrote := by
        refine writeInode_keepsImap ?_ isWritten
        exact mounted
      exact ⟨kept.superBlock, kept.sectors⟩
    · rw [freeInode_same freed]
      exact ⟨rfl, fun _ _ _ => rfl⟩

lemma putAndReturn_keepsImap {code : Int}
    (ran : t.putAndReturn fuel inode code = some (ret, after)) : KeepsImap sb t after := by
  obtain ⟨⟨_, _⟩, isPut, same⟩ := map_eq_some_iff.mp ran
  cases same
  exact iput_keepsImap mounted isPut

lemma dropInode_keepsImap {dir de : Nat}
    (ran : t.dropInode fuel dir inode de = some (ret, after)) : KeepsImap sb t after := by
  unfold dropInode at ran
  dsimp only at ran
  split_ifs at ran
  · exact putAndReturn_keepsImap mounted ran
  · obtain ⟨⟨code, put⟩, isPut, ran⟩ := bind_eq_some_iff.mp ran
    have kept := iput_keepsImap mounted isPut
    exact kept.trans (putAndReturn_keepsImap (kept.superBlock ▸ mounted) ran)
  · cases ran
    exact ⟨rfl, fun _ _ _ => rfl⟩
  obtain ⟨⟨code, put⟩, isPut, ran⟩ := bind_eq_some_iff.mp ran
  have kept : KeepsImap sb t put := by
    have changed := iput_keepsImap (t := (((t.setCount inode _).eraseNumber de).setDirty inode))
      mounted isPut
    exact ⟨changed.superBlock, changed.sectors⟩
  exact kept.trans (putAndReturn_keepsImap (kept.superBlock ▸ mounted) ran)

end

section Unlink

variable {give : InodeTable → Nat} {stack : Nat} {sb : LaidOutSuperBlock} {path : List Byte}

lemma unlinkIn_keepsImap {place : PathEnd} (mounted : t.superBlock rootDev = some sb.toSuperBlock)
    (zone : place.dir ≠ 0 → InZone sb (t.inode place.dir).toDInode)
    (ran : t.unlinkIn fuel give stack place = some (ret, after)) : KeepsImap sb t after := by
  unfold unlinkIn at ran
  split_ifs at ran with empty noDir
  · exact putAndReturn_keepsImap mounted ran
  obtain ⟨⟨_, _, s⟩, isDeleted, ran⟩ := bind_eq_some_iff.mp ran
  have deleted : KeepsImap sb t { t with storage := s } := by
    refine ⟨rfl, fun block above below => doEntry_disk isDeleted (.inr (.inr ?_))⟩
    have layout := sb.layout
    rcases zone noDir with none | behind
    · omega
    · omega
  dsimp only at ran
  split_ifs at ran
  · exact deleted.trans (putAndReturn_keepsImap (t := { t with storage := s }) mounted ran)
  obtain ⟨⟨inode, got⟩, isGot, ran⟩ := bind_eq_some_iff.mp ran
  have kept := deleted.trans (iget_sameDisks isGot).keepsImap
  exact kept.trans (dropInode_keepsImap (kept.superBlock ▸ mounted) ran)

lemma doUnlink_keepsImap (zoned : Zoned sb t) (leads : t.Leads fuel give stack sb path)
    (ran : t.doUnlink fuel give stack path = some (ret, after)) : KeepsImap sb t after := by
  obtain ⟨⟨res, found⟩, isFound, ran⟩ := bind_eq_some_iff.mp ran
  obtain ⟨foundDisks, zone⟩ := zoned.dirNamei leads isFound
  cases res with
  | error code =>
    cases ran
    exact foundDisks.keepsImap
  | ok place =>
    have mounted := foundDisks.superBlock ▸ zoned.mounted
    exact foundDisks.keepsImap.trans (unlinkIn_keepsImap mounted (zone place rfl) ran)

/-- In a consistent file system `do_unlink` never removes a file: whatever it returns, the bit of
the inode stays set. -/
theorem doUnlink_never_unlinks (zoned : Zoned sb t) (leads : t.Leads fuel give stack sb path)
    (used : InUse sb num t.storage) (block k : Nat) :
    ¬ t.Unlinks fuel give stack sb path block k num := by
  rintro ⟨_, returned, removed⟩
  have kept := (doUnlink_keepsImap zoned leads returned).mapBit used.mapped
  rw [removed.clear, used.marked] at kept
  cases kept

end Unlink

def oneFileDisk (block offset : Nat) : Byte :=
  if block = 2 then if offset = 0 then 0x07 else 0
  else if block = 4 then
    -- the mode, the size and the first block of the root directory, and the mode of the file
    if offset = 1 then 0x04
    else if offset = 2 then 0x10
    else if offset = 12 then 0x04
    else if offset = 13 then 0x02
    else if offset = 65 then 0x10
    else 0
  else if block = 516 then if offset = 0 then 0x02 else if offset = 2 then 0x66 else 0
  else 0

def oneFile : InodeTable where
  storage := { Storage.blank with disk := fun _ => oneFileDisk }
  superBlock := fun dev => if dev = rootDev then some formattedSuperBlock else none
  sInodes := fun dev => if dev = rootDev then [0x200000] else []
  inode := fun inode =>
    if inode = 0x200000 then
      { clearedInode with
        iMode := 0x0400
        iSize := 16
        iData := fun i => if i = 0 then 516 else 0
        iDev := rootDev
        iCount := 1
        iNum := 1 }
    else clearedInode
  rootInode := 0x200000
  nrInodesCount := 1

lemma inZone_oneFileDisk {num : Nat} (first : 1 ≤ num) (few : num < 4096) :
    InZone formattedSuperBlock
      (loadInode (oneFileDisk (inodeBlock formattedSuperBlock num)) (inodeSlot num)) := by
  by_cases isRoot : num = 1
  · subst isRoot
    exact .inr (by decide)
  left
  have block : inodeBlock formattedSuperBlock num = 4 + (num - 1) / 8 := inodeBlock_eq _ num
  have slot := inodeSlot_eq num
  have zero : ∀ k < 4, oneFileDisk (inodeBlock formattedSuperBlock num)
      (inodeSlot num + 12 + k) = 0 := by
    intro k small
    rw [block, slot]
    unfold oneFileDisk
    split_ifs <;> first | rfl | omega
  show Lib.word32 _ (inodeSlot num + 12) = 0
  rw [@Lib.word32_congr _ (fun _ => 0) _ 0 zero]
  rfl

lemma zoned_oneFile : Zoned formattedSuperBlock oneFile where
  mounted := rfl
  unmounted dev other := if_neg other
  root := Or.inr (by decide)
  cached dev inode mem := by
    have isRoot : inode = 0x200000 := by
      change inode ∈ (if dev = rootDev then [0x200000] else []) at mem
      split_ifs at mem
      · exact List.mem_singleton.mp mem
      · exact absurd mem List.not_mem_nil
    rw [isRoot]
    exact .inr (by decide)
  table num used := inZone_oneFileDisk used.first used.mapped

/-- The file stays in the inode map when it is unlinked. -/
theorem doUnlink_never_unlinks_oneFile :
    ¬ oneFile.Unlinks 8 (fun _ => 0x300000) 0 formattedSuperBlock [slash, 0x66] 516 0 2 := by
  refine doUnlink_never_unlinks zoned_oneFile ?_ ⟨by decide, by decide, by decide⟩ 516 0
  simp [Leads, LeadsFrom, slash]

/-- `do_unlink("/f")` returns `0` and the entry is gone, but the bit of inode `2` is still set. -/
theorem oneFile_not_unlinked :
    inodeNum (oneFile.storage.disk rootDev 516) 0 = 2 ∧
      (oneFile.doUnlink 8 (fun _ => 0x300000) 0 [slash, 0x66]).map (fun done =>
        (done.1, inodeNum (done.2.storage.disk rootDev 516) 0,
          done.2.storage.mapBit rootDev 2 2)) = some (0, 0, true) ∧
      ¬ oneFile.Unlinks 8 (fun _ => 0x300000) 0 formattedSuperBlock [slash, 0x66] 516 0 2 := by
  have result : (oneFile.doUnlink 8 (fun _ => 0x300000) 0 [slash, 0x66]).map (fun done =>
      (done.1, inodeNum (done.2.storage.disk rootDev 516) 0,
        done.2.storage.mapBit rootDev 2 2)) = some (0, 0, true) := by
    set_option maxRecDepth 4000 in decide
  refine ⟨by decide, result, ?_⟩
  rintro ⟨_, returned, removed⟩
  rw [returned, map_some] at result
  have bit := congrArg (fun done => done.2.2) (Option.some.inj result)
  exact absurd (removed.clear.symm.trans bit) (by decide)

end InodeTable

end PrettyOS.Fs
