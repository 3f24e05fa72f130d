import PrettyOS.Fs.File

/-!
Contract: what `general_file_write` does to a file.
-/

namespace PrettyOS.Fs

open Library Option Storage
open Lib

variable {fuel dev block offset length bh i pos rest steps count iSize : Nat} {iData : Nat → Nat}
  {source : Nat → Byte} {s t : Storage} {taken released : Buffers}

def pieceStored (dev block offset length : Nat) (source : Nat → Byte) (bh : Nat)
    (cache : Buffers) (s : Storage) : Storage :=
  { Storage.hdWrite dev block bh
      { s with mem := overwrite s.mem (s.cache.bData bh + offset) length source } with
    cache := cache }

lemma mem_pieceStored (cache : Buffers) :
    (pieceStored dev block offset length source bh cache s).mem =
      overwrite s.mem (s.cache.bData bh + offset) length source := rfl

lemma cache_pieceStored (cache : Buffers) :
    (pieceStored dev block offset length source bh cache s).cache = cache := rfl

lemma storePiece_eq_none (refused : ∀ bh taken,
      s.cache.getblk fuel dev block = some (bh, taken) → taken.brelse bh = none) :
    storePiece fuel dev block offset length source s = none := by
  unfold storePiece getblk
  cases isTaken : s.cache.getblk fuel dev block with
  | none => rfl
  | some found => exact congrArg (Option.map _) (refused found.1 found.2 isTaken)

lemma storePiece_eq_some (isTaken : s.cache.getblk fuel dev block = some (bh, taken))
    (freed : taken.brelse bh = some released) :
    storePiece fuel dev block offset length source s =
      some (pieceStored dev block offset length source bh released s) := by
  unfold storePiece getblk
  rw [isTaken]
  show brelse bh _ = _
  unfold brelse
  show (taken.brelse bh).map _ = _
  rw [freed]
  show some _ = some _
  unfold pieceStored hdWrite
  dsimp only
  rw [(Buffers.sameAreas_getblk isTaken).data]

lemma disk_pieceStored (cache : Buffers) {o : Nat} (inside : o < sectorSize) :
    (pieceStored dev block offset length source bh cache s).disk dev block o =
      if offset ≤ o ∧ o < offset + length then source (o - offset)
      else s.mem (s.cache.bData bh + o) := by
  refine (if_pos ⟨rfl, rfl, inside⟩).trans ?_
  show overwrite s.mem (s.cache.bData bh + offset) length source (s.cache.bData bh + o) = _
  unfold overwrite
  refine ite_congr (propext (by omega)) (fun within => ?_) fun _ => rfl
  congr 1
  omega

lemma disk_pieceStored_other (cache : Buffers) {other : Nat} (ne : other ≠ block) :
    (pieceStored dev block offset length source bh cache s).disk dev other = s.disk dev other :=
  Storage.disk_hdWrite_other (Or.inr ne)

def writePieces (fuel dev : Nat) (iData : Nat → Nat) (source : Nat → Byte) :
    List (Nat × Nat) → Nat → Storage → Option Storage
  | [], _, s => some s
  | (pos, length) :: pieces, i, s =>
      (storePiece fuel dev (iData (pos / sectorSize)) (pos % sectorSize) length
        (fun j => source (i + j)) s).bind (writePieces fuel dev iData source pieces (i + length))

def Held (data : Nat → Nat) (disk : Nat → Nat → Byte) (iData : Nat → Nat) (source : Nat → Byte) :
    List (Nat × Nat) → List Nat → Nat → (Nat → Byte) → Prop
  | (pos, length) :: pieces, bh :: heads, i, mem =>
      (∀ o < sectorSize, o < pos % sectorSize ∨ pos % sectorSize + length ≤ o →
        mem (data bh + o) = disk (iData (pos / sectorSize)) o) ∧
      Held data disk iData source pieces heads (i + length)
        (overwrite mem (data bh + pos % sectorSize) length fun j => source (i + j))
  | _, _, _, _ => True

variable {pieces : List (Nat × Nat)} {piece : Nat × Nat}

lemma held_congr {data : Nat → Nat} {disk other : Nat → Nat → Byte}
    {heads : List Nat} {mem : Nat → Byte}
    (same : ∀ piece ∈ pieces,
      disk (iData (piece.1 / sectorSize)) = other (iData (piece.1 / sectorSize))) :
    Held data disk iData source pieces heads i mem ↔
      Held data other iData source pieces heads i mem := by
  induction pieces generalizing heads i mem with
  | nil => exact Iff.rfl
  | cons piece pieces ih =>
    obtain ⟨first, later⟩ := List.forall_mem_cons.mp same
    cases heads with
    | nil => exact Iff.rfl
    | cons bh heads =>
      show _ ∧ _ ↔ _ ∧ _
      rw [ih later, first]

lemma sector_of_mem_cutRange (fits : pos + rest ≤ fileSize)
    (mem : piece ∈ cutRange sectorSize steps pos rest) :
    pos / sectorSize ≤ piece.1 / sectorSize ∧ piece.1 / sectorSize < nrDefaultSects := by
  induction steps generalizing pos rest with
  | zero => cases mem
  | succ steps ih =>
    rcases Nat.eq_zero_or_pos rest with rfl | positive
    · rw [cutRange_zero] at mem
      cases mem
    rw [cutRange_succ _ _ positive] at mem
    have small := Nat.min_le_left rest (sectorSize - pos % sectorSize)
    unfold fileSize nrDefaultSects sectorSize at *
    rcases List.mem_cons.mp mem with rfl | later
    · exact ⟨le_rfl, by omega⟩
    · obtain ⟨low, high⟩ := ih (by omega) later
      exact ⟨le_trans (by omega) low, high⟩

lemma later_sector (fits : pos + rest ≤ fileSize)
    (isLength : length = min rest (sectorSize - pos % sectorSize))
    (mem : piece ∈ cutRange sectorSize steps (pos + length) (rest - length)) :
    pos / sectorSize < piece.1 / sectorSize ∧ piece.1 / sectorSize < nrDefaultSects := by
  have sector := sector_of_mem_cutRange (by omega) mem
  refine ⟨?_, sector.2⟩
  rcases Nat.eq_zero_or_pos (rest - length) with none | more
  · rw [none, cutRange_zero] at mem
    cases mem
  have low := sector.1
  unfold sectorSize at *
  omega

lemma writePieces_frame (alloc : Allocated iData) {p : Nat}
    (below : p < fileSize)
    (behind : ∀ piece ∈ pieces, p / sectorSize ≠ piece.1 / sectorSize ∧
      piece.1 / sectorSize < nrDefaultSects)
    (ran : writePieces fuel dev iData source pieces i s = some t) :
    fileByte t.disk dev iData p = fileByte s.disk dev iData p := by
  induction pieces generalizing i s with
  | nil =>
    cases ran
    rfl
  | cons piece pieces ih =>
    obtain ⟨⟨ne, direct⟩, later⟩ := List.forall_mem_cons.mp behind
    obtain ⟨_, isStored, ran⟩ := bind_eq_some_iff.mp ran
    rw [ih later ran]
    have inFile : p / sectorSize < nrDefaultSects := by
      unfold fileSize nrDefaultSects sectorSize at *
      omega
    have otherBlock : iData (p / sectorSize) ≠ iData (piece.1 / sectorSize) := fun same =>
      ne (alloc.injective _ inFile _ direct same)
    obtain ⟨⟨_, _⟩, isGot, isWritten⟩ := bind_eq_some_iff.mp isStored
    unfold fileByte
    rw [(brelse_cache isWritten).2.2, disk_hdWrite_other (.inr otherBlock)]
    exact congrFun (congrFun (congrFun (getblk_cache isGot).2.2 dev) _) _

def Replaced (source : Nat → Byte) (i pos rest : Nat) (before after : Nat → Byte) : Prop :=
  ∀ p < fileSize, after p = if pos ≤ p ∧ p < pos + rest then source (i + (p - pos)) else before p

lemma replaced_step {before middle after around : Nat → Byte} (positive : 0 < rest)
    (fits : pos + rest ≤ fileSize) (isLength : length = min rest (sectorSize - pos % sectorSize))
    (first : ∀ p < fileSize, p / sectorSize = pos / sectorSize →
      middle p = if pos ≤ p ∧ p < pos + length then source (i + (p - pos))
        else around (p % sectorSize))
    (others : ∀ p < fileSize, p / sectorSize ≠ pos / sectorSize → middle p = before p)
    (kept : ∀ p < fileSize, p / sectorSize = pos / sectorSize → after p = middle p) :
    Replaced source i pos rest before after ↔
      (∀ o < sectorSize, o < pos % sectorSize ∨ pos % sectorSize + length ≤ o →
        around o = before (sectorSize * (pos / sectorSize) + o)) ∧
      Replaced source (i + length) (pos + length) (rest - length) middle after := by
  unfold Replaced fileSize nrDefaultSects sectorSize at *
  constructor
  · intro replaced
    constructor
    · intro o small out
      have inFile : 512 * (pos / 512) + o < 11 * 512 := by omega
      have ownSector : (512 * (pos / 512) + o) / 512 = pos / 512 := by omega
      have exactly := replaced _ inFile
      rw [kept _ inFile ownSector, first _ inFile ownSector, if_neg (by omega), if_neg (by omega),
        show (512 * (pos / 512) + o) % 512 = o by omega] at exactly
      exact exactly
    · intro p inFile
      by_cases ownSector : p / 512 = pos / 512
      · rw [if_neg (by omega)]
        exact kept p inFile ownSector
      rw [replaced p inFile, others p inFile ownSector]
      refine ite_congr (propext (by omega)) (fun within => ?_) fun _ => rfl
      congr 1
      omega
  · rintro ⟨held, replaced⟩ p inFile
    rw [replaced p inFile]
    by_cases ownSector : p / 512 = pos / 512
    · rw [if_neg (by omega), first p inFile ownSector]
      refine ite_congr (propext (by omega)) (fun _ => rfl) fun out => ?_
      rw [held (p % 512) (Nat.mod_lt _ (by decide)) (by omega)]
      congr 1
      omega
    · rw [others p inFile ownSector]
      refine ite_congr (propext (by omega)) (fun within => ?_) fun _ => rfl
      congr 1
      omega

lemma writePieces_cons
    (isTaken : s.cache.getblk fuel dev (iData (pos / sectorSize)) = some (bh, taken))
    (freed : taken.brelse bh = some released) :
    writePieces fuel dev iData source ((pos, length) :: pieces) i s =
      writePieces fuel dev iData source pieces (i + length)
        (pieceStored dev (iData (pos / sectorSize)) (pos % sectorSize) length
          (fun j => source (i + j)) bh released s) := by
  rw [writePieces, storePiece_eq_some isTaken freed, bind_some]

lemma replaced_pieceStored (alloc : Allocated iData) (positive : 0 < rest)
    (fits : pos + rest ≤ fileSize) (isLength : length = min rest (sectorSize - pos % sectorSize))
    (isTaken : s.cache.getblk fuel dev (iData (pos / sectorSize)) = some (bh, taken))
    (freed : taken.brelse bh = some released)
    (ran : writePieces fuel dev iData source
      ((pos, length) :: cutRange sectorSize steps (pos + length) (rest - length)) i s = some t) :
    Replaced source i pos rest (fileByte s.disk dev iData) (fileByte t.disk dev iData) ↔
      (∀ o < sectorSize, o < pos % sectorSize ∨ pos % sectorSize + length ≤ o →
        s.mem (s.cache.bData bh + o) = s.disk dev (iData (pos / sectorSize)) o) ∧
      Replaced source (i + length) (pos + length) (rest - length)
        (fileByte (pieceStored dev (iData (pos / sectorSize)) (pos % sectorSize) length
          (fun j => source (i + j)) bh released s).disk dev iData)
        (fileByte t.disk dev iData) := by
  rw [writePieces_cons isTaken freed] at ran
  refine Iff.trans (@replaced_step _ i pos rest source _ _ _
    (fun o => s.mem (s.cache.bData bh + o)) positive fits isLength ?_ ?_ ?_)
    (and_congr_left' (forall₂_congr fun o small => ?_))
  · intro p inFile own
    unfold fileByte
    rw [own, disk_pieceStored _ (Nat.mod_lt _ (by decide))]
    unfold sectorSize at *
    refine ite_congr (propext (by omega)) (fun within => ?_) fun _ => rfl
    congr 2
    omega
  · intro p inFile other
    unfold fileByte
    rw [disk_pieceStored_other]
    intro same
    refine other (alloc.injective _ ?_ _ ?_ same)
    all_goals
      unfold fileSize nrDefaultSects sectorSize at *
      omega
  · intro p inFile own
    refine writePieces_frame alloc inFile ?_ ran
    intro piece mem
    have sector := later_sector fits isLength mem
    exact ⟨by rw [own]; exact sector.1.ne, sector.2⟩
  · unfold fileByte
    unfold sectorSize at *
    rw [show (512 * (pos / 512) + o) / 512 = pos / 512 by omega,
      show (512 * (pos / 512) + o) % 512 = o by omega]

lemma writePieces_spec (alloc : Allocated iData) (fits : pos + rest ≤ fileSize)
    (enough : rest ≤ steps) (i : Nat) (s : Storage) :
    (takeAll fuel dev (pieceBlocks iData (cutRange sectorSize steps pos rest)) s.cache = none ∧
      writePieces fuel dev iData source (cutRange sectorSize steps pos rest) i s = none) ∨
    ∃ heads t, takeAll fuel dev (pieceBlocks iData (cutRange sectorSize steps pos rest)) s.cache =
        some heads ∧
      writePieces fuel dev iData source (cutRange sectorSize steps pos rest) i s = some t ∧
      (Replaced source i pos rest (fileByte s.disk dev iData) (fileByte t.disk dev iData) ↔
        Held s.cache.bData (s.disk dev) iData source (cutRange sectorSize steps pos rest) heads i
          s.mem) := by
  revert fits i s
  refine cutRange_induction (by decide) ?_ ?_ pos enough
  · intro pos _ i s
    refine .inr ⟨[], s, rfl, rfl, iff_of_true ?_ trivial⟩
    intro p _
    rw [if_neg (by omega)]
  intro steps pos rest length positive isLength ih fits i s
  rcases s.cache.getblk_brelse_cases fuel dev (iData (pos / sectorSize)) with
    refused | ⟨bh, _, released, isTaken, freed⟩
  · left
    rw [writePieces, storePiece_eq_none refused]
    exact ⟨takeAll_refused refused, rfl⟩
  · have sameData := (Buffers.data_brelse freed).trans (Buffers.sameAreas_getblk isTaken).data
    rw [takeAll_cons isTaken freed]
    rcases ih (by omega) (i + length)
        (pieceStored dev (iData (pos / sectorSize)) (pos % sectorSize) length
          (fun j => source (i + j)) bh released s) with
      ⟨notTaken, notWritten⟩ | ⟨heads, t, areTaken, isWritten, exactly⟩
    · left
      rw [writePieces_cons isTaken freed]
      exact ⟨congrArg (Option.map _) notTaken, notWritten⟩
    right
    have whole := (writePieces_cons isTaken freed).trans isWritten
    refine ⟨bh :: heads, t, congrArg (Option.map _) areTaken, whole, ?_⟩
    rw [replaced_pieceStored alloc positive fits isLength isTaken freed whole, exactly]
    refine and_congr_right fun _ => ?_
    rw [mem_pieceStored, cache_pieceStored, sameData]
    refine held_congr fun piece mem => ?_
    obtain ⟨later, direct⟩ := later_sector fits isLength mem
    exact disk_pieceStored_other released fun same =>
      later.ne' (alloc.injective _ direct _ (later.trans direct) same)

lemma chunk_eq_min (done : i < count) (aligned : i = 0 ∨ pos % sectorSize = 0 ∨ i = count)
    (met : count < sectorSize ∨ (pos + (count - i)) % sectorSize = 0) :
    chunk count i pos = min (count - i) (sectorSize - pos % sectorSize) := by
  unfold chunk sectorSize at *
  split_ifs
  all_goals omega

lemma writeLoop_eq_pieces (bound : i ≤ count) (enough : count - i ≤ steps)
    (fits : pos + (count - i) ≤ fileSize) (aligned : i = 0 ∨ pos % sectorSize = 0 ∨ i = count)
    (met : count < sectorSize ∨ (pos + (count - i)) % sectorSize = 0) :
    writeLoop fuel dev iData source count (steps + 1) i pos iSize s =
      (writePieces fuel dev iData source (cutRange sectorSize steps pos (count - i)) i s).map
        fun t => (count, if i = count then iSize else max iSize (pos + (count - i)), t) := by
  induction steps generalizing i pos iSize s with
  | zero =>
    obtain rfl : i = count := by omega
    rw [writeLoop, if_neg (lt_irrefl _)]
    simp [cutRange, writePieces]
  | succ steps ih =>
    rw [writeLoop]
    rcases bound.eq_or_lt with rfl | more
    · rw [if_neg (lt_irrefl _), Nat.sub_self, cutRange_zero]
      simp [writePieces]
    rw [if_pos more, cutRange_succ _ _ (by omega), writePieces]
    dsimp only
    rw [chunk_eq_min more aligned met]
    generalize isLength : min (count - i) (sectorSize - pos % sectorSize) = length
    cases storePiece fuel dev (iData (pos / sectorSize)) (pos % sectorSize) length
        (fun j => source (i + j)) s with
    | none => rfl
    | some stored =>
      rw [bind_some, bind_some, ih]
      · rw [show count - (i + length) = count - i - length by omega]
        congr 1
        funext t
        rw [show pos + length + (count - i - length) = pos + (count - i) by omega]
        congr 2
        unfold grow fileSize nrDefaultSects sectorSize at *
        split_ifs
        all_goals omega
      · omega
      · unfold sectorSize at *
        omega
      · omega
      · unfold sectorSize at *
        omega
      · unfold sectorSize at *
        omega

lemma writeLoop_ends_aligned {res : Nat × Nat × Storage} (long : sectorSize ≤ count)
    (more : i < count)
    (ran : writeLoop fuel dev iData source count steps i pos iSize s = some res) :
    i < res.1 ∧ (pos + (res.1 - i)) % sectorSize = 0 := by
  induction steps generalizing i pos iSize s with
  | zero => cases ran
  | succ steps ih =>
    rw [writeLoop, if_pos more] at ran
    obtain ⟨_, -, ran⟩ := bind_eq_some_iff.mp ran
    have isChunk : chunk count i pos = sectorSize - pos % sectorSize :=
      if_neg (Nat.not_lt.mpr ((Nat.sub_le _ _).trans long))
    rw [isChunk] at ran
    by_cases again : i + (sectorSize - pos % sectorSize) < count
    · have ends := ih again ran
      unfold sectorSize at *
      omega
    cases steps with
    | zero => cases ran
    | succ steps =>
      rw [writeLoop, if_neg again] at ran
      cases ran
      unfold sectorSize
      dsimp only
      omega

structure WriteExact (inode : MInode) (pos : Nat) (source : Nat → Byte) (count : Nat)
    (s : Storage) (written : Written) : Prop where
  taken : written.taken = count
  bytes : Replaced source 0 pos count (fileByte s.disk inode.iDev inode.iData)
    (fileByte written.storage.disk inode.iDev inode.iData)
  size : written.inode.iSize = max inode.iSize (pos + count)

def BuffersHold (fuel : Nat) (inode : MInode) (pos : Nat) (source : Nat → Byte) (count : Nat)
    (s : Storage) : Prop :=
  ∃ heads, takeAll fuel inode.iDev
      (pieceBlocks inode.iData (cutRange sectorSize count pos count)) s.cache = some heads ∧
    Held s.cache.bData (s.disk inode.iDev) inode.iData source
      (cutRange sectorSize count pos count) heads 0 s.mem

lemma writeBlocks_exact_iff {inode : MInode} (alloc : Allocated inode.iData)
    (fits : pos + count ≤ fileSize) :
    (∃ wrote, writeBlocks fuel inode pos source count s = some wrote ∧
      WriteExact inode pos source count s wrote) ↔
    (count = 0 → pos ≤ inode.iSize) ∧ (count < sectorSize ∨ (pos + count) % sectorSize = 0) ∧
      BuffersHold fuel inode pos source count s := by
  by_cases met : count < sectorSize ∨ (pos + count) % sectorSize = 0
  · have loop := @writeLoop_eq_pieces fuel inode.iDev 0 pos count count inode.iSize inode.iData
      source s (Nat.zero_le _) le_rfl fits (.inl rfl) met
    rw [Nat.sub_zero] at loop
    unfold writeBlocks
    rw [loop, map_map, and_iff_right met]
    unfold BuffersHold
    rcases @writePieces_spec fuel inode.iDev pos count count inode.iData source alloc fits
        le_rfl 0 s with ⟨notTaken, notWritten⟩ | ⟨heads, t, areTaken, isWritten, exactly⟩
    · rw [notTaken, notWritten]
      simp
    rw [areTaken, isWritten]
    have sizes : (if 0 = count then inode.iSize else max inode.iSize (pos + count)) =
        max inode.iSize (pos + count) ↔ (count = 0 → pos ≤ inode.iSize) := by
      split_ifs with empty
      · omega
      · exact iff_of_true rfl fun isEmpty => absurd isEmpty.symm empty
    constructor
    · rintro ⟨wrote, same, exactWrite⟩
      cases same
      exact ⟨sizes.mp exactWrite.size, heads, rfl, exactly.mp exactWrite.bytes⟩
    rintro ⟨size, _, same, held⟩
    cases same
    exact ⟨_, rfl, rfl, exactly.mpr held, sizes.mpr size⟩
  · refine iff_of_false ?_ fun cond => met cond.2.1
    rintro ⟨wrote, ran, exactWrite⟩
    obtain ⟨res, isLoop, rfl⟩ := map_eq_some_iff.mp ran
    rw [not_or] at met
    have positive : 0 < count := lt_of_lt_of_le (by decide) (Nat.le_of_not_lt met.1)
    have ends := writeLoop_ends_aligned (Nat.le_of_not_lt met.1) positive isLoop
    have taken : res.1 = count := exactWrite.taken
    rw [taken, Nat.sub_zero] at ends
    exact met.2 ends.2

/-- A write to an allocated file is exact if and only if: an empty one does not start behind
the size of the file; the range is shorter than a sector or ends with one; and the buffers of
its blocks can be had and hold what the blocks hold around the range. -/
theorem write_exact_iff {sb : SuperBlock} {inode : MInode} {fFlag fPos : Nat}
    (allocated : Allocated inode.iData) (fits : writeStart inode fFlag fPos + count ≤ fileSize) :
    (∃ written, generalFileWrite fuel sb inode fFlag fPos source count s = some written ∧
      WriteExact inode (writeStart inode fFlag fPos) source count s written) ↔
    (count = 0 → writeStart inode fFlag fPos ≤ inode.iSize) ∧
      (count < sectorSize ∨ (writeStart inode fFlag fPos + count) % sectorSize = 0) ∧
      BuffersHold fuel inode (writeStart inode fFlag fPos) source count s := by
  have isWrite : generalFileWrite fuel sb inode fFlag fPos source count s =
      writeBlocks fuel inode (writeStart inode fFlag fPos) source count s := by
    unfold generalFileWrite getFirstBlock
    rw [if_neg (by omega), if_neg (allocated.nonzero 0 (by decide)), Int.toNat_natCast]
  rw [isWrite]
  exact writeBlocks_exact_iff allocated fits

/-- Three bytes are written to a file whose blocks and buffers are all zero. -/
theorem write_exact_threeBytes : ∃ written,
    generalFileWrite 8 formattedSuperBlock emptyFile 0 0 (fun j => BitVec.ofNat 8 (j + 1)) (3 : Nat)
      Storage.blank = some written ∧
    WriteExact emptyFile 0 (fun j => BitVec.ofNat 8 (j + 1)) 3 Storage.blank written := by
  refine (write_exact_iff allocated_emptyFile (by decide)).mpr ⟨nofun, .inl (by decide), ?_⟩
  exact ⟨[0x100000], by decide +kernel, fun _ _ _ => rfl, trivial⟩

def clobbered : Written :=
  (generalFileWrite 8 formattedSuperBlock emptyFile 0 0 (fun _ => 1) (1 : Nat) sevens).get
    (by decide +kernel)

/-- One byte is written at the start of a file of sevens: the byte behind it becomes the 0 its
buffer held. -/
theorem write_clobbers_sector :
    generalFileWrite 8 formattedSuperBlock emptyFile 0 0 (fun _ => 1) (1 : Nat) sevens =
        some clobbered ∧
      fileByte sevens.disk rootDev emptyFile.iData 1 = 7 ∧
      fileByte clobbered.storage.disk rootDev emptyFile.iData 1 = 0 ∧
      ¬WriteExact emptyFile 0 (fun _ => 1) 1 sevens clobbered := by
  have after : fileByte clobbered.storage.disk rootDev emptyFile.iData 1 = 0 := by decide +kernel
  refine ⟨(some_get _).symm, rfl, after, ?_⟩
  intro exactWrite
  have kept := exactWrite.bytes 1 (by decide)
  rw [if_neg (by decide)] at kept
  exact absurd (after.symm.trans kept) (by decide)

end PrettyOS.Fs
