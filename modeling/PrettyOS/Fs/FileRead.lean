import PrettyOS.Fs.File

/-!
Contract: what `general_file_read` stores.
-/

namespace PrettyOS.Fs

open Library List Nat Option Storage
open Lib

variable {fuel dev block length bh pos rest steps : Nat} {iData : Nat → Nat} {s t : Storage}
  {taken released : Buffers} {count i : Int}

def pieceLoaded (dev block bh : Nat) (cache : Buffers) (s : Storage) : Storage :=
  { s.hdRead dev block bh with cache := cache }

lemma mem_pieceLoaded (cache : Buffers) : (pieceLoaded dev block bh cache s).mem =
    overwrite s.mem (s.cache.bData bh) sectorSize (s.disk dev block) := rfl

lemma disk_pieceLoaded (cache : Buffers) : (pieceLoaded dev block bh cache s).disk = s.disk := rfl

lemma cache_pieceLoaded (cache : Buffers) : (pieceLoaded dev block bh cache s).cache = cache := rfl

lemma loadPiece_eq_none (refused : ∀ bh taken,
      s.cache.getblk fuel dev block = some (bh, taken) → taken.brelse bh = none) :
    loadPiece fuel dev block pos length s = none := by
  unfold loadPiece getblk
  cases isTaken : s.cache.getblk fuel dev block with
  | none => rfl
  | some found =>
    show Option.map _ ((found.2.brelse found.1).map _) = none
    rw [refused found.1 found.2 isTaken]
    rfl

def pieceBytes (mem : Nat → Byte) (data pos length : Nat) : List Byte :=
  (List.range length).map fun j => mem (data + pos + j)

variable {mem : Nat → Byte} {data : Nat} {more : List Byte} {disk : Nat → Nat → Nat → Byte}

lemma length_pieceBytes :
    (pieceBytes mem data pos length).length = length := by
  simp [pieceBytes]

lemma loadPiece_eq_some (isTaken : s.cache.getblk fuel dev block = some (bh, taken))
    (freed : taken.brelse bh = some released) :
    loadPiece fuel dev block pos length s =
      some ((pieceBytes (pieceLoaded dev block bh released s).mem (s.cache.bData bh) pos
        length).filter (· ≠ 0), pieceLoaded dev block bh released s) := by
  unfold loadPiece getblk
  rw [isTaken]
  show Option.map _ (brelse bh _) = _
  unfold brelse
  show Option.map _ ((taken.brelse bh).map _) = _
  rw [freed]
  show some _ = some _
  unfold pieceLoaded pieceBytes hdRead
  dsimp only
  rw [(Buffers.sameAreas_getblk isTaken).data]

def loadPieces (fuel dev : Nat) (iData : Nat → Nat) :
    List (Nat × Nat) → Storage → Option (List Byte × Storage)
  | [], s => some ([], s)
  | (pos, length) :: pieces, s =>
      (loadPiece fuel dev (iData (pos / sectorSize)) pos length s).bind fun (bytes, s) =>
        (loadPieces fuel dev iData pieces s).map fun (more, s) => (bytes ++ more, s)

def Reads (data : Nat → Nat) (disk : Nat → Nat → Byte) (iData : Nat → Nat) :
    List (Nat × Nat) → List Nat → (Nat → Byte) → Prop
  | (pos, length) :: pieces, bh :: heads, mem =>
      let loaded := overwrite mem (data bh) sectorSize (disk (iData (pos / sectorSize)))
      (∀ j < length,
        loaded (data bh + pos + j) = disk (iData (pos / sectorSize)) (pos % sectorSize + j) ∧
        disk (iData (pos / sectorSize)) (pos % sectorSize + j) ≠ 0) ∧
      Reads data disk iData pieces heads loaded
  | _, _, _ => True

lemma filter_append_eq_iff {bytes wanted later : List Byte}
    (sameLen : bytes.length = wanted.length) (short : more.length ≤ later.length) :
    bytes.filter (· ≠ 0) ++ more = wanted ++ later ↔
      (bytes = wanted ∧ ∀ byte ∈ wanted, byte ≠ 0) ∧ more = later := by
  constructor
  · intro same
    have lengths := congrArg List.length same
    rw [length_append, length_append, ← sameLen] at lengths
    have atMost := length_filter_le (· ≠ 0) bytes
    have noneDropped : bytes.filter (· ≠ 0) = bytes := filter_sublist.eq_of_length (by omega)
    rw [noneDropped] at same
    obtain ⟨rfl, rfl⟩ := append_inj same sameLen
    refine ⟨⟨rfl, ?_⟩, rfl⟩
    intro byte member
    exact of_decide_eq_true (filter_eq_self.mp noneDropped byte member)
  · rintro ⟨⟨rfl, ne0⟩, rfl⟩
    rw [filter_eq_self.mpr fun byte member => decide_eq_true (ne0 byte member)]

def fileBytes (disk : Nat → Nat → Nat → Byte) (dev : Nat) (iData : Nat → Nat) (pos rest : Nat) :
    List Byte :=
  (List.range rest).map fun j => fileByte disk dev iData (pos + j)

lemma fileBytes_split (inside : length ≤ rest) :
    fileBytes disk dev iData pos rest = fileBytes disk dev iData pos length ++
        fileBytes disk dev iData (pos + length) (rest - length) := by
  obtain ⟨_, rfl⟩ := Nat.exists_eq_add_of_le inside
  unfold fileBytes
  rw [List.range_add, List.map_append, List.map_map, Nat.add_sub_cancel_left]
  congr 1
  refine List.map_congr_left fun j _ => ?_
  rw [Function.comp_apply, Nat.add_assoc]

lemma forall_mem_fileBytes {property : Byte → Prop} :
    (∀ byte ∈ fileBytes disk dev iData pos rest, property byte) ↔
      ∀ j < rest, property (fileByte disk dev iData (pos + j)) := by
  unfold fileBytes
  simp

lemma pieceBytes_eq_iff :
    pieceBytes mem data pos length = fileBytes disk dev iData pos length ↔
      ∀ j < length, mem (data + pos + j) = fileByte disk dev iData (pos + j) := by
  unfold pieceBytes fileBytes
  rw [map_inj_left]
  simp

lemma loadPieces_cons {pieces : List (Nat × Nat)}
    (isTaken : s.cache.getblk fuel dev (iData (pos / sectorSize)) = some (bh, taken))
    (freed : taken.brelse bh = some released) :
    loadPieces fuel dev iData ((pos, length) :: pieces) s = (loadPieces fuel dev iData pieces
        (pieceLoaded dev (iData (pos / sectorSize)) bh released s)).map fun (more, t) =>
          ((pieceBytes (pieceLoaded dev (iData (pos / sectorSize)) bh released s).mem
            (s.cache.bData bh) pos length).filter (· ≠ 0) ++ more, t) := by
  rw [loadPieces, loadPiece_eq_some isTaken freed, bind_some]

lemma piece_append_eq_iff (inside : length ≤ rest)
    (ownSector : pos % sectorSize + length ≤ sectorSize) (short : more.length ≤ rest - length) :
    (pieceBytes mem data pos length).filter (· ≠ 0) ++ more = fileBytes disk dev iData pos rest ↔
      (∀ j < length,
        mem (data + pos + j) = disk dev (iData (pos / sectorSize)) (pos % sectorSize + j) ∧
          disk dev (iData (pos / sectorSize)) (pos % sectorSize + j) ≠ 0) ∧
        more = fileBytes disk dev iData (pos + length) (rest - length) := by
  have ownByte : ∀ j < length, fileByte disk dev iData (pos + j) =
      disk dev (iData (pos / sectorSize)) (pos % sectorSize + j) := by
    intro j below
    unfold fileByte
    unfold sectorSize at *
    rw [show (pos + j) / 512 = pos / 512 by omega, show (pos + j) % 512 = pos % 512 + j by omega]
  rw [fileBytes_split inside, filter_append_eq_iff (by simp [pieceBytes, fileBytes])
    (by simpa [fileBytes] using short), pieceBytes_eq_iff, forall_mem_fileBytes, ← forall₂_and]
  refine and_congr_left' (forall₂_congr fun j below => ?_)
  rw [ownByte j below]

lemma loadPieces_spec (enough : rest ≤ steps) (s : Storage) :
    (takeAll fuel dev (pieceBlocks iData (cutRange sectorSize steps pos rest)) s.cache = none ∧
      loadPieces fuel dev iData (cutRange sectorSize steps pos rest) s = none) ∨
    ∃ heads stored t,
      takeAll fuel dev (pieceBlocks iData (cutRange sectorSize steps pos rest)) s.cache =
        some heads ∧
      loadPieces fuel dev iData (cutRange sectorSize steps pos rest) s = some (stored, t) ∧
      stored.length ≤ rest ∧
      (stored = fileBytes s.disk dev iData pos rest ↔
        Reads s.cache.bData (s.disk dev) iData (cutRange sectorSize steps pos rest) heads
          s.mem) := by
  revert s
  refine cutRange_induction (by decide) ?_ ?_ pos enough
  · intro _ s
    exact .inr ⟨[], [], s, rfl, rfl, le_rfl, iff_of_true rfl trivial⟩
  intro steps pos rest length positive isLength ih s
  have inside : length ≤ rest ∧ pos % sectorSize + length ≤ sectorSize := by
    unfold sectorSize at *
    omega
  rcases s.cache.getblk_brelse_cases fuel dev (iData (pos / sectorSize)) with
    refused | ⟨bh, _, released, isTaken, freed⟩
  · left
    rw [loadPieces, loadPiece_eq_none refused]
    exact ⟨takeAll_refused refused, rfl⟩
  · have sameData := (Buffers.data_brelse freed).trans (Buffers.sameAreas_getblk isTaken).data
    rw [takeAll_cons isTaken freed, loadPieces_cons isTaken freed]
    rcases ih (pieceLoaded dev (iData (pos / sectorSize)) bh released s) with
      ⟨notTaken, notLoaded⟩ | ⟨heads, stored, t, areTaken, isLoaded, short, exactly⟩
    · exact .inl ⟨congrArg (Option.map _) notTaken, congrArg (Option.map _) notLoaded⟩
    refine .inr ⟨bh :: heads, _, t, congrArg (Option.map _) areTaken,
      congrArg (Option.map _) isLoaded, ?_, ?_⟩
    · have dropped := length_filter_le (· ≠ 0)
        (pieceBytes (pieceLoaded dev (iData (pos / sectorSize)) bh released s).mem
          (s.cache.bData bh) pos length)
      rw [length_pieceBytes] at dropped
      rw [length_append]
      omega
    · rw [disk_pieceLoaded, mem_pieceLoaded, cache_pieceLoaded, sameData] at exactly
      rw [piece_append_eq_iff inside.1 inside.2 short, exactly, mem_pieceLoaded]
      exact Iff.rfl

section Loop

variable {n : Nat} {garbage : Int}

def ChunksFit (garbage : Int) (pos n : Nat) : Prop :=
  0 ≤ garbage ∧ garbage < n ∧
    (garbage = 0 ∧ n < sectorSize ∨ garbage < sectorSize ∧ (pos + n) % sectorSize = 0)

instance (garbage : Int) (pos n : Nat) : Decidable (ChunksFit garbage pos n) := by
  unfold ChunksFit
  infer_instance

structure Fits (garbage : Int) (n rest pos : Nat) : Prop where
  start : 0 ≤ garbage ∧ garbage < n
  bound : rest ≤ n
  aligned : rest = n ∨ pos % sectorSize = 0 ∨ rest = 0
  ends : garbage = 0 ∧ n < sectorSize ∨ garbage < sectorSize ∧ (pos + rest) % sectorSize = 0

section

variable (fits : Fits garbage n rest pos)
include fits

lemma Fits.chunk (more : 0 < rest) :
    garbage + (n - rest : Nat) < n ∧ readChunk n (garbage + (n - rest : Nat)) pos =
        (min rest (sectorSize - pos % sectorSize) : Nat) := by
  obtain ⟨_, _, _, _⟩ := fits
  unfold readChunk
  unfold sectorSize at *
  constructor
  · omega
  · split_ifs
    all_goals omega

lemma Fits.next (more : 0 < rest) (isLength : length = min rest (sectorSize - pos % sectorSize)) :
    Fits garbage n (rest - length) (pos + length) := by
  obtain ⟨start, _, _, _⟩ := fits
  unfold sectorSize at *
  refine ⟨start, by omega, ?_, ?_⟩
  all_goals
    unfold sectorSize at *
    omega

lemma readLoop_eq_pieces (enough : rest ≤ steps) :
    readLoop fuel dev iData n (steps + 1) (garbage + (n - rest : Nat)) pos s =
      (loadPieces fuel dev iData (cutRange sectorSize steps pos rest) s).map
        fun (stored, t) => (stored, pos + rest, t) := by
  induction steps generalizing rest pos s with
  | zero =>
    obtain rfl : rest = 0 := by omega
    have start := fits.start
    rw [readLoop, if_neg (by omega)]
    rfl
  | succ steps ih =>
    rw [readLoop]
    rcases Nat.eq_zero_or_pos rest with rfl | more
    · have start := fits.start
      rw [if_neg (by omega), cutRange_zero]
      rfl
    obtain ⟨again, isChunk⟩ := fits.chunk more
    rw [if_pos again, cutRange_succ _ _ more, loadPieces]
    dsimp only
    rw [isChunk]
    generalize isLength : min rest (sectorSize - pos % sectorSize) = length
    have inside : length ≤ rest ∧ 0 < length := by
      unfold sectorSize at *
      omega
    rw [Int.toNat_natCast]
    cases loadPiece fuel dev (iData (pos / sectorSize)) pos length s with
    | none => rfl
    | some loaded =>
      have bound := fits.bound
      rw [bind_some, bind_some,
        show garbage + (n - rest : Nat) + length = garbage + (n - (rest - length) : Nat) by
          omega,
        ih (fits.next more isLength.symm) (by omega), Option.map_map,
        Option.map_map, show pos + length + (rest - length) = pos + rest by omega]
      rfl

end

lemma readLoop_ends {res : List Byte × Nat × Storage} (more : i < n)
    (ran : readLoop fuel dev iData n steps i pos s = some res) :
    pos ≤ res.2.1 ∧ (i + (res.2.1 - pos : Nat) = n ∧ n < sectorSize ∨
      res.2.1 % sectorSize = 0 ∧ n ≤ i + (res.2.1 - pos : Nat) ∧
        i + (res.2.1 - pos : Nat) < n + sectorSize) := by
  induction steps generalizing i pos s res with
  | zero => cases ran
  | succ steps ih =>
    rw [readLoop, if_pos more] at ran
    obtain ⟨⟨_, _⟩, -, ran⟩ := bind_eq_some_iff.mp ran
    obtain ⟨later, isLater, rfl⟩ := map_eq_some_iff.mp ran
    dsimp only at isLater ⊢
    have chunkCases : (readChunk n i pos = n - i ∧ n < sectorSize) ∨
        readChunk n i pos = (sectorSize - pos % sectorSize : Nat) := by
      unfold readChunk
      split_ifs
      · exact .inl ⟨rfl, by omega⟩
      · exact .inr rfl
    generalize readChunk n i pos = c at chunkCases isLater
    have positive : 0 < c := by
      unfold sectorSize at *
      omega
    by_cases again : i + c < n
    · obtain ⟨below, ends⟩ := ih again isLater
      generalize later.2.1 = last at below ends
      unfold sectorSize at *
      omega
    cases steps with
    | zero => cases isLater
    | succ steps =>
      rw [readLoop, if_neg again] at isLater
      cases isLater
      dsimp only
      unfold sectorSize at *
      omega

/-! ## Exact reads -/

structure ReadExact (inode : MInode) (fPos n : Nat) (s : Storage) (read : Read) : Prop where
  bytes : read.stored = fileBytes s.disk inode.iDev inode.iData fPos n
  position : read.fPos = fPos + n

/-- The call returns with the bytes of the range. -/
def ReadsExactly (fuel : Nat) (inode : MInode) (garbage : Int) (fPos n : Nat) (s : Storage) :
    Prop :=
  ∃ read, generalFileRead fuel inode garbage fPos n s = some read ∧ ReadExact inode fPos n s read

def BuffersRead (fuel : Nat) (inode : MInode) (pos n : Nat) (s : Storage) : Prop :=
  ∃ heads, takeAll fuel inode.iDev
      (pieceBlocks inode.iData (cutRange sectorSize n pos n)) s.cache = some heads ∧
    Reads s.cache.bData (s.disk inode.iDev) inode.iData (cutRange sectorSize n pos n) heads s.mem

theorem readsExactly_iff_buffersRead {inode : MInode} {fPos : Nat} (positive : 0 < n) :
    ReadsExactly fuel inode garbage fPos n s ↔
      ChunksFit garbage fPos n ∧ BuffersRead fuel inode fPos n s := by
  unfold ReadsExactly generalFileRead
  rw [if_neg (by omega), Int.natAbs_natCast]
  by_cases chunksFit : ChunksFit garbage fPos n
  · have fits : Fits garbage n n fPos :=
      ⟨⟨chunksFit.1, chunksFit.2.1⟩, le_rfl, .inl rfl, chunksFit.2.2⟩
    have loop := @readLoop_eq_pieces fuel inode.iDev fPos n (n + garbage.natAbs) inode.iData s n
      garbage fits (Nat.le_add_right _ _)
    rw [Nat.sub_self, Int.natCast_zero, add_zero,
      cutRange_enough (by decide) fPos garbage.natAbs le_rfl] at loop
    rw [loop, Option.map_map, and_iff_right chunksFit]
    unfold BuffersRead
    rcases @loadPieces_spec fuel inode.iDev fPos n n inode.iData le_rfl s with
      ⟨notTaken, notLoaded⟩ | ⟨heads, stored, t, areTaken, isLoaded, -, exactly⟩
    · rw [notTaken, notLoaded]
      simp
    rw [areTaken, isLoaded]
    constructor
    · rintro ⟨read, same, exactRead⟩
      cases same
      exact ⟨heads, rfl, exactly.mp exactRead.bytes⟩
    rintro ⟨_, same, reads⟩
    cases same
    exact ⟨_, rfl, exactly.mpr reads, rfl⟩
  · refine iff_of_false ?_ fun condition => chunksFit condition.1
    rintro ⟨read, returned, exactRead⟩
    obtain ⟨result, isLoop, rfl⟩ := map_eq_some_iff.mp returned
    have position : result.2.1 = fPos + n := exactRead.position
    by_cases more : garbage < n
    · have ends := (readLoop_ends more isLoop).2
      rw [position, Nat.add_sub_cancel_left] at ends
      refine chunksFit ⟨by omega, more, ?_⟩
      rcases ends with ends | ends
      · exact .inl ⟨by omega, ends.2⟩
      · exact .inr ⟨by omega, ends.1⟩
    · rw [readLoop, if_neg more] at isLoop
      cases isLoop
      dsimp only at position
      omega

theorem buffersRead_firstSector_iff {inode : MInode} (positive : 0 < n)
    (first : pos + n ≤ sectorSize) :
    BuffersRead fuel inode pos n s ↔ (takeAll fuel inode.iDev [inode.iData 0] s.cache).isSome ∧
        ∀ j < n, fileByte s.disk inode.iDev inode.iData (pos + j) ≠ 0 := by
  have one : cutRange sectorSize n pos n = [(pos, n)] := by
    obtain ⟨less, rfl⟩ := Nat.exists_eq_add_of_lt positive
    rw [Nat.zero_add, cutRange_succ _ _ (succ_pos less),
      show min (less + 1) (sectorSize - pos % sectorSize) = less + 1 by
        unfold sectorSize at *
        omega, Nat.sub_self, cutRange_zero]
  have ownByte : ∀ j < n, fileByte s.disk inode.iDev inode.iData (pos + j) =
      s.disk inode.iDev (inode.iData 0) (pos + j) := by
    intro j below
    unfold fileByte
    rw [div_eq_of_lt (by omega), mod_eq_of_lt (by omega)]
  unfold BuffersRead pieceBlocks
  rw [one, map_singleton, div_eq_of_lt (by omega)]
  constructor
  · rintro ⟨_, areTaken, reads⟩
    refine ⟨by rw [areTaken]; rfl, fun j below => ?_⟩
    obtain ⟨_, -, areTaken⟩ := bind_eq_some_iff.mp areTaken
    obtain ⟨_, -, areTaken⟩ := bind_eq_some_iff.mp areTaken
    cases areTaken
    have ne0 := (reads.1 j below).2
    rw [div_eq_of_lt (by omega), mod_eq_of_lt (by omega)] at ne0
    rwa [ownByte j below]
  · rintro ⟨isSome, ne0⟩
    obtain ⟨heads, areTaken⟩ := isSome_iff_exists.mp isSome
    refine ⟨heads, areTaken, ?_⟩
    obtain ⟨_, -, areTaken⟩ := bind_eq_some_iff.mp areTaken
    obtain ⟨_, -, areTaken⟩ := bind_eq_some_iff.mp areTaken
    cases areTaken
    refine ⟨fun j below => ?_, trivial⟩
    rw [div_eq_of_lt (by omega), mod_eq_of_lt (by omega), ← ownByte j below,
      Nat.add_assoc, overwrite_add (by omega)]
    exact ⟨(ownByte j below).symm, ne0 j below⟩

theorem length_takeAll {blocks heads : List Nat} {cache : Buffers}
    (areTaken : takeAll fuel dev blocks cache = some heads) : heads.length = blocks.length := by
  induction blocks generalizing heads cache with
  | nil =>
    cases areTaken
    rfl
  | cons block blocks ih =>
    obtain ⟨_, -, rest⟩ := bind_eq_some_iff.mp areTaken
    obtain ⟨_, -, rest⟩ := bind_eq_some_iff.mp rest
    obtain ⟨_, isRest, rfl⟩ := map_eq_some_iff.mp rest
    exact congrArg succ (ih isRest)

/-- Behind the first sector the bytes are taken from behind the buffer. Where memory and all
sectors but the last are alike, those of the last sector are not seen. -/
theorem not_reads_beyond {areas : Nat → Nat} {sectors : Nat → Nat → Byte} {heads : List Nat}
    {last : Nat} (dull : ∀ k < last, sectors (iData k) = fun _ => 2)
    (bright : sectors (iData last) = fun _ => 1) (beyond : 0 < last)
    (isLast : (pos + rest - 1) / sectorSize = last) (more : 0 < rest) (enough : rest ≤ steps)
    (paired : heads.length = (cutRange sectorSize steps pos rest).length)
    (grey : ∀ address, mem address = 2) :
    ¬Reads areas sectors iData (cutRange sectorSize steps pos rest) heads mem := by
  induction steps generalizing pos rest heads mem with
  | zero => omega
  | succ steps ih =>
    rw [cutRange_succ _ _ more] at paired ⊢
    generalize isLength : min rest (sectorSize - pos % sectorSize) = length at paired ⊢
    have inside : 0 < length ∧ length ≤ rest := by
      unfold sectorSize at isLength
      omega
    cases heads with
    | nil => cases paired
    | cons bh heads =>
      rintro ⟨here, others⟩
      by_cases ends : rest = length
      · have isHere : pos / sectorSize = last := by
          unfold sectorSize at *
          omega
        have shown := (here 0 inside.1).1
        rw [isHere, bright, overwrite_of_outside (.inr ?_), grey] at shown
        · cases shown
        · unfold sectorSize at *
          omega
      · have earlier : pos / sectorSize < last := by
          unfold sectorSize at *
          omega
        refine ih ?_ (by omega) (by omega) (succ.inj paired) ?_ others
        · rw [← isLast]
          exact congrArg (· / sectorSize) (by omega)
        · intro address
          unfold overwrite
          split_ifs
          · rw [dull _ earlier]
          · exact grey address

/-- Inside the first sector a read is exact if and only if its chunks fit, the buffer of the block
can be had and given back and no byte of the range is `0`. Of every range that goes beyond, the
bytes are not those of the file for some content without a `0`, whatever the buffers are. -/
theorem read_exact_iff {inode : MInode} {fPos : Nat} (positive : 0 < n)
    (allocated : Allocated inode.iData) (fits : fPos + n ≤ fileSize) (s : Storage) :
    (fPos + n ≤ sectorSize →
      (ReadsExactly fuel inode garbage fPos n s ↔
        ChunksFit garbage fPos n ∧ (takeAll fuel inode.iDev [inode.iData 0] s.cache).isSome ∧
          ∀ j < n, fileByte s.disk inode.iDev inode.iData (fPos + j) ≠ 0)) ∧
    (sectorSize < fPos + n → ∃ mem disk,
      (∀ j < n, fileByte disk inode.iDev inode.iData (fPos + j) ≠ 0) ∧
        ¬ReadsExactly fuel inode garbage fPos n { s with mem := mem, disk := disk }) := by
  constructor
  · intro first
    rw [readsExactly_iff_buffersRead positive, buffersRead_firstSector_iff positive first]
  intro beyond
  generalize isLast : (fPos + n - 1) / sectorSize = last
  have behind : 0 < last ∧ last < nrDefaultSects := by
    unfold fileSize at fits
    unfold sectorSize at *
    omega
  refine ⟨fun _ => 2, fun _ block _ => if block = inode.iData last then 1 else 2, ?_, ?_⟩
  · intro j _
    unfold fileByte
    dsimp only
    split_ifs <;> decide
  · rw [readsExactly_iff_buffersRead positive]
    rintro ⟨-, heads, areTaken, reads⟩
    refine not_reads_beyond (fun k earlier => ?_) (funext fun _ => if_pos rfl) behind.1 isLast
      positive le_rfl ?_ (fun _ => rfl) reads
    · funext _
      refine if_neg fun same => earlier.ne ?_
      exact allocated.injective k (by omega) last behind.2 same
    · rw [length_takeAll areTaken, pieceBlocks, length_map]

/-- A file of sevens yields three of them; six hundred bytes do not come out right of every
file. -/
theorem read_exact_threeSevens :
    ReadsExactly 8 emptyFile 0 0 3 sevens ∧
      ∃ mem disk, (∀ j < 600, fileByte disk rootDev emptyFile.iData (0 + j) ≠ 0) ∧
        ¬ReadsExactly 8 emptyFile 0 0 600 { sevens with mem := mem, disk := disk } := by
  have short := (@read_exact_iff 8 3 0 emptyFile 0 (by decide) allocated_emptyFile (by decide)
    sevens).1 (by decide)
  have long := (@read_exact_iff 8 600 0 emptyFile 0 (by decide) allocated_emptyFile (by decide)
    sevens).2 (by decide)
  refine ⟨short.mpr ⟨by decide, by decide +kernel, fun _ _ => ?_⟩, long⟩
  exact (by decide : (7 : Byte) ≠ 0)

def zeroRead : Read :=
  (generalFileRead 8 emptyFile 0 0 (1 : Nat) Storage.blank).get (by decide +kernel)

/-- From a file that starts with the byte 0 one byte is read, and none is stored. -/
theorem read_skips_zero :
    generalFileRead 8 emptyFile 0 0 (1 : Nat) Storage.blank = some zeroRead ∧
      fileBytes Storage.blank.disk rootDev emptyFile.iData 0 1 = [0] ∧ zeroRead.stored = [] ∧
      ¬ReadExact emptyFile 0 1 Storage.blank zeroRead := by
  have stored : zeroRead.stored = [] := by decide +kernel
  refine ⟨(some_get _).symm, rfl, stored, ?_⟩
  intro exactRead
  exact absurd (stored.symm.trans exactRead.bytes) (by decide)

end Loop

end PrettyOS.Fs
