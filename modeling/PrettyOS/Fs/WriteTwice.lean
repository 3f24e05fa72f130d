import PrettyOS.Fs.FileWrite
import PrettyOS.Fs.Open
import PrettyOS.Fs.Unlink

/-!
Contract: two calls of `sys_write` on one descriptor against a single one.

The strings are given with their lengths, so that `count` is not negative.
-/

namespace PrettyOS.Fs

open Library Function Option
open Lib

def isRegular (mode : Nat) : Bool := mode &&& 0x1D00 = 0x1000

namespace OpenFiles

/-- The inode behind a descriptor. -/
def openInode (t : OpenFiles) (fd : Int) : MInode := t.inodes.inode (t.file (t.filp fd)).fInode

def storeWritten (fd : Int) (written : Written) (t : OpenFiles) : OpenFiles :=
  { t with inodes := { t.inodes with
      storage := written.storage
      inode := update t.inodes.inode (t.file (t.filp fd)).fInode written.inode } }

def sysWrite (fuel : Nat) (sb : SuperBlock) (fd : Int) (buf : List Byte) (t : OpenFiles) :
    Option (Int × OpenFiles) :=
  let file := t.file (t.filp fd)
  let inode := t.openInode fd
  if fd ≤ 0 ∨ nrOpen ≤ fd ∨ t.filp fd = 0 then some (-einval, t)
  else if InodeTable.isDirectory inode.iMode ∨ isRegular inode.iMode then
    (generalFileWrite fuel sb inode file.fFlag file.fPos (fun i => buf.getD i 0) buf.length
      t.inodes.storage).map fun written =>
        (if written.result < 0 then -3 else 0, t.storeWritten fd written)
  else some (-4, t)

/-- Byte `pos` of the file behind a descriptor. -/
def openByte (t : OpenFiles) (fd : Int) (pos : Nat) : Byte :=
  fileByte t.inodes.storage.disk (t.openInode fd).iDev (t.openInode fd).iData pos

structure SameFile (fd : Int) (t other : OpenFiles) : Prop where
  bytes : ∀ pos < fileSize, t.openByte fd pos = other.openByte fd pos
  size : (t.openInode fd).iSize = (other.openInode fd).iSize
  position : (t.file (t.filp fd)).fPos = (other.file (other.filp fd)).fPos

/-- The descriptor of a file with its direct blocks, opened without `O_APPEND`. -/
structure Writable (t : OpenFiles) (fd : Int) : Prop where
  inTable : ¬(fd ≤ 0 ∨ nrOpen ≤ fd ∨ t.filp fd = 0)
  served : InodeTable.isDirectory (t.openInode fd).iMode ∨ isRegular (t.openInode fd).iMode
  allocated : Allocated (t.openInode fd).iData
  noAppend : (t.file (t.filp fd)).fFlag &&& oAppend = 0

/-- If both writes and the single one return, they leave the same file. -/
def WritesCompose (fuel : Nat) (sb : SuperBlock) (fd : Int) (a b : List Byte) (t : OpenFiles) :
    Prop :=
  ∀ first second single middle twice once, t.sysWrite fuel sb fd a = some (first, middle) →
    middle.sysWrite fuel sb fd b = some (second, twice) →
      t.sysWrite fuel sb fd (a ++ b) = some (single, once) → SameFile fd twice once

end OpenFiles

section FirstByte

variable {fuel dev i pos count steps iSize p : Nat} {iData : Nat → Nat} {source : Nat → Byte}
  {s t : Storage} {result : Nat × Nat × Storage}

lemma fileByte_storePiece {length : Nat} (positive : 0 < length)
    (ran : storePiece fuel dev (iData (pos / sectorSize)) (pos % sectorSize) length source s =
      some t) : fileByte t.disk dev iData pos = source 0 := by
  obtain ⟨⟨_, _⟩, -, isWritten⟩ := bind_eq_some_iff.mp ran
  unfold fileByte
  rw [(Storage.brelse_cache isWritten).2.2, Storage.disk_hdWrite_same (Nat.mod_lt _ (by decide))]
  exact overwrite_add positive

/-- The rest of a write leaves the sectors before it alone. -/
lemma fileByte_writeLoop_before (alloc : Allocated iData)
    (before : p / sectorSize < pos / sectorSize) (fits : pos + (count - i) ≤ fileSize)
    (ran : writeLoop fuel dev iData source count steps i pos iSize s = some result) :
    fileByte result.2.2.disk dev iData p = fileByte s.disk dev iData p := by
  induction steps generalizing i pos iSize s with
  | zero => cases ran
  | succ steps ih =>
    rw [writeLoop] at ran
    split_ifs at ran with more
    · obtain ⟨stored, isStored, ran⟩ := bind_eq_some_iff.mp ran
      have onePiece : writePieces fuel dev iData source [(pos, chunk count i pos)] i s =
          some stored := by
        rw [writePieces, isStored]
        rfl
      have kept : fileByte stored.disk dev iData p = fileByte s.disk dev iData p := by
        apply writePieces_frame alloc _ _ onePiece
        · unfold fileSize nrDefaultSects sectorSize at *
          omega
        simp only [List.mem_singleton, forall_eq]
        unfold fileSize nrDefaultSects sectorSize at *
        omega
      rw [ih _ _ ran, kept]
      · exact before.trans_le (Nat.div_le_div_right (Nat.le_add_right _ _))
      · unfold chunk fileSize nrDefaultSects sectorSize at *
        split_ifs <;> omega
    · cases ran
      rfl

lemma fileByte_writeLoop (alloc : Allocated iData) (positive : 0 < count)
    (fits : pos + count ≤ fileSize)
    (ran : writeLoop fuel dev iData source count steps 0 pos iSize s = some result) :
    fileByte result.2.2.disk dev iData pos = source 0 := by
  cases steps with
  | zero => cases ran
  | succ steps =>
    rw [writeLoop, if_pos positive] at ran
    obtain ⟨_, isStored, ran⟩ := bind_eq_some_iff.mp ran
    have ne : 0 < chunk count 0 pos := by
      unfold chunk sectorSize
      split_ifs <;> omega
    have first := fileByte_storePiece ne isStored
    by_cases whole : count < sectorSize - pos % sectorSize
    · have isAll : chunk count 0 pos = count := if_pos whole
      cases steps with
      | zero => cases ran
      | succ steps =>
        rw [writeLoop, isAll, if_neg (by omega)] at ran
        cases ran
        exact first
    have isRest : chunk count 0 pos = sectorSize - pos % sectorSize := if_neg whole
    rw [isRest] at ran
    rw [fileByte_writeLoop_before alloc _ _ ran, first]
    · unfold sectorSize
      omega
    · unfold fileSize nrDefaultSects sectorSize at *
      omega

end FirstByte

namespace OpenFiles

variable {t after : OpenFiles} {fd : Int} {fuel : Nat} {sb : SuperBlock} {buf : List Byte}
  {ret : Int}

/-- The state after a write that ends with this size and storage. -/
def written (t : OpenFiles) (fd : Int) (iSize taken : Nat) (storage : Storage) : OpenFiles :=
  t.storeWritten fd ⟨0, { t.openInode fd with iSize := iSize, iDirty := 1 }, taken, storage⟩

lemma sysWrite_eq (writable : t.Writable fd) : t.sysWrite fuel sb fd buf =
    (writeLoop fuel (t.openInode fd).iDev (t.openInode fd).iData (fun i => buf.getD i 0) buf.length
      (buf.length + 1) 0 (t.file (t.filp fd)).fPos (t.openInode fd).iSize t.inodes.storage).map
        fun (taken, iSize, storage) => (0, t.written fd iSize taken storage) := by
  have start : writeStart (t.openInode fd) (t.file (t.filp fd)).fFlag (t.file (t.filp fd)).fPos =
      (t.file (t.filp fd)).fPos := if_neg (not_not.mpr writable.noAppend)
  unfold sysWrite generalFileWrite getFirstBlock
  dsimp only
  rw [if_neg writable.inTable, if_pos writable.served, if_neg (by omega),
    if_neg (writable.allocated.nonzero 0 (by decide)), start, Int.toNat_natCast]
  unfold writeBlocks
  rw [map_map]
  rfl

lemma openInode_written {iSize taken : Nat} {storage : Storage} :
    (t.written fd iSize taken storage).openInode fd =
      { t.openInode fd with iSize := iSize, iDirty := 1 } :=
  update_self ..

lemma Writable.written {iSize taken : Nat} {storage : Storage} (writable : t.Writable fd) :
    (t.written fd iSize taken storage).Writable fd := by
  constructor
  · exact writable.inTable
  · rw [openInode_written]
    exact writable.served
  · rw [openInode_written]
    exact writable.allocated
  · exact writable.noAppend

lemma written_written {iSize later taken more : Nat} {storage last : Storage} :
    (t.written fd iSize taken storage).written fd later more last =
      t.written fd later more last := by
  unfold written
  rw [show (t.storeWritten fd _).openInode fd = _ from openInode_written]
  simp [storeWritten]

lemma sysWrite_cases (writable : t.Writable fd)
    (ran : t.sysWrite fuel sb fd buf = some (ret, after)) : ∃ taken iSize storage,
      writeLoop fuel (t.openInode fd).iDev (t.openInode fd).iData (fun i => buf.getD i 0) buf.length
        (buf.length + 1) 0 (t.file (t.filp fd)).fPos (t.openInode fd).iSize t.inodes.storage =
          some (taken, iSize, storage) ∧ after = t.written fd iSize taken storage := by
  rw [sysWrite_eq writable] at ran
  obtain ⟨⟨taken, iSize, storage⟩, isLoop, same⟩ := map_eq_some_iff.mp ran
  cases same
  exact ⟨taken, iSize, storage, isLoop, rfl⟩

lemma sysWrite_nil (writable : t.Writable fd) : t.sysWrite fuel sb fd [] =
    some (0, t.written fd (t.openInode fd).iSize 0 t.inodes.storage) := by
  rw [sysWrite_eq writable]
  rfl

/-- A write after an empty one is the write alone. -/
lemma sysWrite_after_nil (writable : t.Writable fd) :
    (t.written fd (t.openInode fd).iSize 0 t.inodes.storage).sysWrite fuel sb fd buf =
      t.sysWrite fuel sb fd buf := by
  rw [sysWrite_eq writable, sysWrite_eq writable.written, openInode_written]
  simp only [written_written]
  rfl

lemma openByte_sysWrite (writable : t.Writable fd) (ne : buf ≠ [])
    (fits : (t.file (t.filp fd)).fPos + buf.length ≤ fileSize)
    (ran : t.sysWrite fuel sb fd buf = some (ret, after)) :
    after.openByte fd (t.file (t.filp fd)).fPos = buf.getD 0 0 := by
  obtain ⟨_, _, _, isLoop, rfl⟩ := sysWrite_cases writable ran
  unfold openByte
  rw [openInode_written]
  exact fileByte_writeLoop writable.allocated (List.length_pos_iff.mpr ne) fits isLoop

/-- Every call for strings of these lengths returns. -/
def WritesReturn (fuel : Nat) (sb : SuperBlock) (fd : Int) (m n : Nat) (t : OpenFiles) : Prop :=
  ∀ a b : List Byte, a.length = m → b.length = n → ∃ first second single middle twice once,
    t.sysWrite fuel sb fd a = some (first, middle) ∧
      middle.sysWrite fuel sb fd b = some (second, twice) ∧
        t.sysWrite fuel sb fd (a ++ b) = some (single, once)

/-- `f_pos` stays where it is: two writes leave the same file as one for all strings of their
lengths exactly if one of the lengths is `0`. -/
theorem writes_compose_iff {m n : Nat} (writable : t.Writable fd)
    (fits : (t.file (t.filp fd)).fPos + m + n ≤ fileSize)
    (returns : t.WritesReturn fuel sb fd m n) :
    (∀ a b : List Byte, a.length = m → b.length = n → t.WritesCompose fuel sb fd a b) ↔
      m = 0 ∨ n = 0 := by
  constructor
  · intro compose
    by_contra both
    rw [not_or] at both
    obtain ⟨m, rfl⟩ := Nat.exists_eq_succ_of_ne_zero both.1
    obtain ⟨n, rfl⟩ := Nat.exists_eq_succ_of_ne_zero both.2
    let a : List Byte := 0 :: List.replicate m 0
    let b : List Byte := 1 :: List.replicate n 1
    have lengthA : a.length = m + 1 := by simp [a]
    have lengthB : b.length = n + 1 := by simp [b]
    obtain ⟨first, second, single, middle, twice, once, isFirst, isSecond, isSingle⟩ :=
      returns a b lengthA lengthB
    have same := compose a b lengthA lengthB _ _ _ _ _ _ isFirst isSecond isSingle
    have isOnce : once.openByte fd (t.file (t.filp fd)).fPos = 0 :=
      openByte_sysWrite writable (List.cons_ne_nil _ _)
        (show _ + (a ++ b).length ≤ _ by rw [List.length_append]; omega) isSingle
    obtain ⟨taken, iSize, storage, -, rfl⟩ := sysWrite_cases writable isFirst
    have isTwice : twice.openByte fd (t.file (t.filp fd)).fPos = 1 :=
      openByte_sysWrite writable.written (List.cons_ne_nil _ _)
        (show (t.file (t.filp fd)).fPos + b.length ≤ fileSize by omega) isSecond
    have atStart := same.bytes (t.file (t.filp fd)).fPos (by omega)
    rw [isTwice, isOnce] at atStart
    exact absurd atStart (by decide)
  · rintro (rfl | rfl) a b lengthA lengthB first second single middle twice once isFirst isSecond
      isSingle
    · rw [List.length_eq_zero_iff.mp lengthA] at *
      rw [sysWrite_nil writable] at isFirst
      cases isFirst
      rw [sysWrite_after_nil writable] at isSecond
      cases isSecond.symm.trans isSingle
      exact ⟨fun _ _ => rfl, rfl, rfl⟩
    rw [List.length_eq_zero_iff.mp lengthB] at *
    rw [List.append_nil] at isSingle
    cases isFirst.symm.trans isSingle
    obtain ⟨taken, iSize, storage, -, rfl⟩ := sysWrite_cases writable isFirst
    rw [sysWrite_nil writable.written] at isSecond
    cases isSecond
    refine ⟨fun pos _ => ?_, ?_, rfl⟩
    · rw [written_written, openInode_written]
      rfl
    · rw [written_written, openInode_written, openInode_written]

/-- An empty regular file on blank disks, open as descriptor `1` at position `0`. -/
def blankFile : OpenFiles where
  inodes :=
    { storage := Storage.blank
      superBlock := fun _ => some formattedSuperBlock
      sInodes := fun _ => []
      inode := fun _ => { emptyFile with iMode := 0x1000 }
      rootInode := 1
      nrInodesCount := 1 }
  filp := fun _ => 7
  file := fun _ => ⟨0, 0, 1, 0, 2⟩
  sFiles := fun _ => []
  nrFileCount := 1

lemma writable_blankFile : blankFile.Writable 1 := ⟨by decide, by decide, allocated_emptyFile, rfl⟩

lemma isSome_blankFile (ch : Byte) :
    (blankFile.sysWrite 8 formattedSuperBlock 1 [ch]).isSome = true := rfl

theorem writes_compose_oneByte : blankFile.WritesCompose 8 formattedSuperBlock 1 [] [7] := by
  refine (writes_compose_iff writable_blankFile (by decide) ?_).mpr (.inl rfl) [] [7] rfl rfl
  intro a b lengthA lengthB
  obtain ⟨ch, rfl⟩ := List.length_eq_one_iff.mp lengthB
  obtain ⟨⟨ret, after⟩, returned⟩ := isSome_iff_exists.mp (isSome_blankFile ch)
  rw [List.length_eq_zero_iff.mp lengthA]
  exact ⟨_, _, _, _, _, _, sysWrite_nil writable_blankFile,
    (sysWrite_after_nil writable_blankFile).trans returned, returned⟩

/-- The second of two writes overwrites the first: after `1` and `2` the file is `2`, after one
write of both it is `1`, `2`. -/
theorem writes_overwrite : ¬blankFile.WritesCompose 8 formattedSuperBlock 1 [1] [2] := by
  intro compose
  have bytes : ((blankFile.sysWrite 8 formattedSuperBlock 1 [1]).bind fun middle =>
      (middle.2.sysWrite 8 formattedSuperBlock 1 [2]).bind fun twice =>
        (blankFile.sysWrite 8 formattedSuperBlock 1 [1, 2]).map fun once =>
          (twice.2.openByte 1 0, once.2.openByte 1 0)) = some (2, 1) := by decide
  obtain ⟨⟨_, middle⟩, isFirst, bytes⟩ := bind_eq_some_iff.mp bytes
  obtain ⟨⟨_, twice⟩, isSecond, bytes⟩ := bind_eq_some_iff.mp bytes
  obtain ⟨⟨_, once⟩, isSingle, bytes⟩ := map_eq_some_iff.mp bytes
  have same := (compose _ _ _ _ _ _ isFirst isSecond isSingle).bytes 0 (by decide)
  have isTwice : twice.openByte 1 0 = 2 := congrArg Prod.fst bytes
  have isOnce : once.openByte 1 0 = 1 := congrArg Prod.snd bytes
  rw [isTwice, isOnce] at same
  exact absurd same (by decide)

end OpenFiles

end PrettyOS.Fs
