import PrettyOS.Fs.Block
import PrettyOS.Library.Draws

/-!
Contract: `set_block_nr` and `get_pos_block` agree on the blocks of a file.
-/

namespace PrettyOS.Fs

open Library Nat Option Storage Finset
open Function
open Lib

variable {fuel dev base sects i j bit nr n : Nat} {s t : Storage} {sb : SuperBlock}

def Storage.sector (s : Storage) (dev block : Nat) : Nat → Byte :=
  fun offset => if offset < sectorSize then s.disk dev block offset else 0

lemma Storage.sector_inside {offset : Nat} (inside : offset < sectorSize) (dev block : Nat) :
    s.sector dev block offset = s.disk dev block offset := if_pos inside

lemma Storage.sector_outside {offset : Nat} (out : ¬offset < sectorSize) (dev block : Nat) :
    s.sector dev block offset = 0 := if_neg out

lemma Storage.sector_congr {dev block : Nat} (same : t.disk dev block = s.disk dev block) :
    t.sector dev block = s.sector dev block := by
  unfold sector
  rw [same]

lemma Storage.byte_hdRead {offset block bh : Nat} (inside : offset < sectorSize) :
    (s.hdRead dev block bh).mem ((s.hdRead dev block bh).cache.bData bh + offset) =
      s.sector dev block offset := by
  rw [sector_inside inside]
  exact mem_hdRead inside

lemma firstOpen_hdRead (bh block : Nat) :
    firstOpen (fun j => (s.hdRead dev block bh).mem ((s.hdRead dev block bh).cache.bData bh + j)) =
      firstOpen (s.sector dev block) :=
  firstOpen_congr fun _ inside => Storage.byte_hdRead inside

lemma sector_markBit {block bh : Nat} (inside : j < sectorSize) (isNr : nr = j * 8 + bit)
    (small : bit < 8) :
    (((s.hdRead dev block bh).poke (s.cache.bData bh + j)
      (setBit bit (s.sector dev block j))).hdWrite rootDev block bh).sector rootDev block =
        markBit (s.sector dev block) nr := by
  have byte : nr / 8 = j := by omega
  have low : nr % 8 = bit := by omega
  funext offset
  unfold markBit
  rw [byte, low]
  by_cases within : offset < sectorSize
  · rw [sector_inside within, disk_hdWrite_same within]
    show update (s.hdRead dev block bh).mem (s.cache.bData bh + j) _
      (s.cache.bData bh + offset) = _
    by_cases same : offset = j
    · rw [same, update_self, update_self]
    · rw [update_of_ne (by omega), update_of_ne same, mem_hdRead within, sector_inside within]
  · rw [update_of_ne (by omega), sector_outside within, sector_outside within]

structure Marks (dev base : Nat) (s t : Storage) : Prop where
  frame : ∀ onDev block, onDev ≠ rootDev ∨ block ≠ base →
    t.sector onDev block = s.sector onDev block
  sector : t.sector rootDev base = if SectorFull (s.sector dev base) then s.sector rootDev base
    else markBit (s.sector dev base) (openBit (s.sector dev base))

lemma openBit_of_firstOpen {sector : Nat → Byte} (scan : firstOpen sector = some j) :
    openBit sector = j * 8 + findFirstZero (sector j) := by
  unfold openBit
  rw [scan]

lemma openBit_of_full {sector : Nat → Byte} (full : SectorFull sector) : openBit sector = 0 := by
  unfold openBit
  rw [firstOpen_eq_none.mpr full]

lemma openBit_lt (sector : Nat → Byte) : openBit sector < bitsZone := by
  by_cases full : SectorFull sector
  · rw [openBit_of_full full]
    decide
  · exact (mem_clearBits.mp (openBit_mem full)).1

lemma marks_written {bh : Nat} (scan : firstOpen (s.sector dev base) = some j)
    (disk : t.disk = (((s.hdRead dev base bh).poke (s.cache.bData bh + j)
      (setBit (findFirstZero (s.sector dev base j)) (s.sector dev base j))).hdWrite
        rootDev base bh).disk) : Marks dev base s t := by
  obtain ⟨inside, isOpen⟩ := firstOpen_eq_some scan
  have room : ¬SectorFull (s.sector dev base) := by
    rw [← firstOpen_eq_none, scan]
    nofun
  constructor
  · intro onDev block other
    exact sector_congr
      ((congrFun (congrFun disk onDev) block).trans (disk_hdWrite_other other))
  rw [if_neg room, ← sector_markBit inside (openBit_of_firstOpen scan)
    (findFirstZero_spec isOpen).1]
  exact sector_congr (congrFun (congrFun disk rootDev) base)

lemma Marks.of_disk {got : Storage} (sameDisk : got.disk = s.disk) (marks : Marks dev base got t) :
    Marks dev base s t := by
  have same : ∀ onDev block, got.sector onDev block = s.sector onDev block := fun onDev block =>
    sector_congr (congrFun (congrFun sameDisk onDev) block)
  refine ⟨fun onDev block other => (marks.frame onDev block other).trans (same _ _), ?_⟩
  rw [marks.sector, same, same]

inductive ZmapTurn (fuel dev base sects i blockNr bh bit : Nat) (s got t : Storage) : Prop
  | full (isFull : SectorFull (s.sector dev (base + i)))
      (rest : zmapLoop fuel dev base sects (i + 1) blockNr (got.hdRead dev (base + i) bh) =
        some (bit, t))
  | beyond (notFull : ¬SectorFull (s.sector dev (base + i))) (positive : 0 < i) (isBit : bit = 0)
      (isLast : t = got.hdRead dev (base + i) bh)
  | marked (notFull : ¬SectorFull (s.sector dev (base + i))) (isFirst : i = 0)
      (released : Storage) (isReleased : got.cache.brelse bh = some released.cache)
      (marks : Marks dev (base + i) s released)
      (rest : zmapLoop fuel dev base sects (i + 1) (openBit (s.sector dev (base + i))) released =
        some (bit, t))

lemma zmapLoop_turn {blockNr : Nat}
    (ran : zmapLoop fuel dev base (sects + 1) i blockNr s = some (bit, t)) :
    ∃ bh got, s.getblk fuel dev (base + i) = some (bh, got) ∧
      ZmapTurn fuel dev base sects i blockNr bh bit s got t := by
  obtain ⟨⟨bh, got⟩, isGot, ran⟩ := bind_eq_some_iff.mp ran
  refine ⟨bh, got, isGot, ?_⟩
  have sameDisk := (getblk_cache isGot).2.2
  have sameSector : got.sector dev (base + i) = s.sector dev (base + i) :=
    sector_congr (congrFun (congrFun sameDisk dev) _)
  dsimp only at ran
  rw [firstOpen_hdRead bh (base + i)] at ran
  cases scan : firstOpen (got.sector dev (base + i)) with
  | none =>
    rw [scan] at ran
    exact .full (sameSector ▸ firstOpen_eq_none.mp scan) ran
  | some j =>
    rw [scan] at ran
    obtain ⟨inside, isOpen⟩ := firstOpen_eq_some scan
    have small := (findFirstZero_spec isOpen).1
    have room : ¬SectorFull (s.sector dev (base + i)) := by
      rw [← sameSector, ← firstOpen_eq_none, scan]
      nofun
    dsimp only at ran
    rw [byte_hdRead inside] at ran
    rcases Nat.eq_zero_or_pos i with first | pos
    · rw [if_neg (by unfold bitsZone sectorSize at *; omega)] at ran
      obtain ⟨released, freed, rest⟩ := bind_eq_some_iff.mp ran
      obtain ⟨isCache, -, isDisk⟩ := brelse_cache freed
      have found : (sectorSize * i + j) * 8 + findFirstZero (got.sector dev (base + i) j) =
          openBit (s.sector dev (base + i)) := by
        rw [← sameSector, openBit_of_firstOpen scan, first, Nat.mul_zero, Nat.zero_add]
      rw [found] at rest
      exact .marked room first released isCache
        ((marks_written scan isDisk).of_disk sameDisk) rest
    · rw [if_pos (by unfold bitsZone sectorSize; omega)] at ran
      cases ran
      exact .beyond room pos rfl rfl

lemma zmapLoop_rest {blockNr : Nat} (pos : 0 < i)
    (ran : zmapLoop fuel dev base sects i blockNr s = some (bit, t)) :
    bit = (if ∀ k < sects, SectorFull (s.sector dev (base + i + k)) then blockNr else 0) ∧
      t.disk = s.disk := by
  induction sects generalizing i s with
  | zero =>
    cases ran
    simp
  | succ sects ih =>
    obtain ⟨bh, got, isGot, turn⟩ := zmapLoop_turn ran
    have sameDisk := (getblk_cache isGot).2.2
    cases turn with
    | full isFull rest =>
      have sameSector : ∀ block, (got.hdRead dev (base + i) bh).sector dev block =
          s.sector dev block :=
        fun block => sector_congr (congrFun (congrFun sameDisk dev) block)
      obtain ⟨isBit, disk⟩ := ih (succ_pos i) rest
      refine ⟨isBit.trans (if_congr ?_ rfl rfl), disk.trans sameDisk⟩
      constructor
      · intro later k below
        cases k with
        | zero => exact isFull
        | succ k =>
          have full := later k (by omega)
          rwa [sameSector, show base + (i + 1) + k = base + i + (k + 1) by omega] at full
      · intro all k below
        rw [sameSector, show base + (i + 1) + k = base + i + (k + 1) by omega]
        exact all (k + 1) (by omega)
    | beyond room _ isBit isLast =>
      rw [isBit, isLast, if_neg fun all => room (all 0 (succ_pos sects))]
      exact ⟨rfl, sameDisk⟩
    | marked _ first => exact absurd first pos.ne'

lemma zmapLoop_first (ran : zmapLoop fuel dev base (sects + 1) 0 0 s = some (bit, t)) :
    bit = (if ∀ k < sects, SectorFull (s.sector dev (base + 1 + k)) then
      openBit (s.sector dev base) else 0) ∧ Marks dev base s t := by
  obtain ⟨_, _, isGot, turn⟩ := zmapLoop_turn ran
  cases turn with
  | full isFull rest =>
    obtain ⟨isBit, disk⟩ := zmapLoop_rest (succ_pos 0) rest
    have same := disk.trans (getblk_cache isGot).2.2
    refine ⟨?_, fun onDev block _ => sector_congr (by rw [same]), ?_⟩
    · rw [isBit, ite_self, openBit_of_full (show SectorFull (s.sector dev base) from isFull),
        ite_self]
    · rw [if_pos (show SectorFull (s.sector dev base) from isFull)]
      exact sector_congr (by rw [same])
  | beyond _ pos => exact absurd pos (Nat.lt_irrefl 0)
  | marked _ _ freed _ marks rest =>
    obtain ⟨isBit, disk⟩ := zmapLoop_rest (succ_pos 0) rest
    have same : ∀ onDev block, t.sector onDev block = freed.sector onDev block :=
      fun onDev block => sector_congr (by rw [disk])
    refine ⟨isBit.trans (if_congr ?_ rfl rfl), fun onDev block other => ?_, ?_⟩
    · refine forall₂_congr fun k below => ?_
      rw [marks.frame dev _ (.inr (by omega))]
    · rw [same, marks.frame onDev block other]
    · rw [same]
      exact marks.sector

def MapServes (dev : Nat) (sb : SuperBlock) (s : Storage) : Prop :=
  0 < sb.sNzmapSects ∧ ∀ k < sb.sNzmapSects - 1, SectorFull (s.sector dev (sb.zmap + 1 + k))

instance (dev : Nat) (sb : SuperBlock) (s : Storage) : Decidable (MapServes dev sb s) := by
  unfold MapServes
  infer_instance

def MapMarks (dev : Nat) (sb : SuperBlock) : Prop := dev = rootDev ∧ 0 < sb.sNzmapSects

instance (dev : Nat) (sb : SuperBlock) : Decidable (MapMarks dev sb) := by
  unfold MapMarks
  infer_instance

def drawBit (serves marks : Prop) [Decidable serves] [Decidable marks] (sector : Nat → Byte) :
    Nat × (Nat → Byte) :=
  (if serves then openBit sector else 0,
    if marks ∧ ¬SectorFull sector then markBit sector (openBit sector) else sector)

lemma drawBit_congr {serves servesToo marks : Prop} [Decidable serves] [Decidable servesToo]
    [Decidable marks] (same : serves ↔ servesToo) :
    drawBit serves marks = drawBit servesToo marks := by
  funext sector
  unfold drawBit
  rw [if_congr same rfl rfl]

lemma getZmapBit_draw (ran : getZmapBit fuel dev sb s = some (bit, t)) :
    (bit, t.sector dev sb.zmap) =
        drawBit (MapServes dev sb s) (MapMarks dev sb) (s.sector dev sb.zmap) ∧
      (MapServes dev sb t ↔ MapServes dev sb s) := by
  unfold getZmapBit at ran
  cases sects : sb.sNzmapSects with
  | zero =>
    rw [sects] at ran
    cases ran
    have noMap : ∀ s, ¬MapServes dev sb s := fun s serves => by
      have pos := serves.1
      omega
    have noMarks : ¬MapMarks dev sb := fun marks => by
      have pos := marks.2
      omega
    unfold drawBit
    rw [if_neg (noMap s), if_neg fun both => noMarks both.1]
    exact ⟨rfl, Iff.rfl⟩
  | succ count =>
    rw [sects] at ran
    obtain ⟨isBit, marks⟩ := zmapLoop_first ran
    have serves : ∀ s, MapServes dev sb s ↔
        ∀ k < count, SectorFull (s.sector dev (sb.zmap + 1 + k)) := by
      intro s
      unfold MapServes
      simp [sects]
    have marksOwn : MapMarks dev sb ↔ dev = rootDev := by
      unfold MapMarks
      simp [sects]
    refine ⟨Prod.ext (isBit.trans (if_congr (serves s).symm rfl rfl)) ?_, ?_⟩
    · by_cases isRoot : dev = rootDev
      · subst isRoot
        refine marks.sector.trans ?_
        by_cases full : SectorFull (s.sector rootDev sb.zmap)
        · exact (if_pos full).trans (if_neg fun both => both.2 full).symm
        · exact (if_neg full).trans (if_pos ⟨marksOwn.mpr rfl, full⟩).symm
      · exact (marks.frame dev sb.zmap (.inl isRoot)).trans
          (if_neg fun both => isRoot (marksOwn.mp both.1)).symm
    · rw [serves, serves]
      refine forall₂_congr fun k _ => ?_
      rw [marks.frame dev _ (.inr (by omega))]

lemma newBlock_draw {sb : LaidOutSuperBlock} {res : Except Int Nat}
    (ran : newBlock fuel dev sb s = some (res, t)) :
    res = .ok (sb.sFirstzone +
        (drawBit (MapServes dev sb s) (MapMarks dev sb) (s.sector dev sb.zmap)).1) ∧
      t.sector dev sb.zmap =
        (drawBit (MapServes dev sb s) (MapMarks dev sb) (s.sector dev sb.zmap)).2 ∧
      (MapServes dev sb t ↔ MapServes dev sb s) := by
  obtain ⟨⟨_, _⟩, isBit, same⟩ := map_eq_some_iff.mp ran
  cases same
  obtain ⟨draw, serves⟩ := getZmapBit_draw isBit
  have behind := sb.layout
  rw [← draw, if_neg (by omega)]
  exact ⟨rfl, rfl, serves⟩

lemma behind_newBlock (ran : newBlock fuel dev sb s = some (.ok nr, t)) : sb.sFirstzone ≤ nr := by
  obtain ⟨⟨_, _⟩, -, same⟩ := map_eq_some_iff.mp ran
  have isNr := (Prod.mk.inj same).1
  split at isNr
  · cases isNr
  · cases isNr
    exact Nat.le_add_right _ _

def assignBlocks (fuel dev : Nat) (sb : SuperBlock) :
    Nat → DInode → Storage → Option (List Nat × DInode × Storage)
  | 0, inode, s => some ([], inode, s)
  | count + 1, inode, s =>
      (setBlockNr fuel dev sb inode s).bind fun
        | (.error _, _, _) => none
        | (.ok nr, inode, s) =>
            (assignBlocks fuel dev sb count inode s).map fun (blocks, inode, s) =>
              (nr :: blocks, inode, s)

structure Filled (used : Nat) (inode : DInode) : Prop where
  blocks : ∀ i < used, inode.iData i ≠ 0
  vacant : ∀ i, used ≤ i → i ≤ 11 → inode.iData i = 0

variable {used count : Nat} {inode after : DInode} {blocks : List Nat}

lemma filled_update (filled : Filled used inode) (ne0 : nr ≠ 0) :
    Filled (used + 1) { inode with iData := update inode.iData used nr } := by
  constructor
  · intro i below
    show update inode.iData used nr i ≠ 0
    rcases eq_or_ne i used with rfl | ne
    · rwa [update_self]
    · rw [update_of_ne ne]
      exact filled.blocks i (by omega)
  · intro i above small
    show update inode.iData used nr i = 0
    rw [update_of_ne (by omega)]
    exact filled.vacant i (by omega) small

lemma setBlockNr_direct {sb : LaidOutSuperBlock} {res : Except Int Nat} (filled : Filled used inode)
    (room : used < nrDefaultSects) (ran : setBlockNr fuel dev sb inode s = some (res, after, t)) :
    newBlock fuel dev sb s = some (res, t) ∧ ∃ nr, res = .ok nr ∧ sb.sFirstzone ≤ nr ∧
        after = { inode with iData := update inode.iData used nr } := by
  have vacant : (List.range nrDefaultSects).find? (fun i => inode.iData i = 0) = some used := by
    rw [List.find?_range_eq_some]
    refine ⟨decide_eq_true (filled.vacant used le_rfl (Nat.le_of_lt room)),
      List.mem_range.mpr room, ?_⟩
    intro i below
    simpa using filled.blocks i below
  unfold setBlockNr setFristBlockNr at ran
  rw [vacant] at ran
  obtain ⟨⟨_, _, _⟩, first, ran⟩ := bind_eq_some_iff.mp ran
  obtain ⟨⟨_, _⟩, isNew, same⟩ := map_eq_some_iff.mp first
  obtain ⟨rfl, -⟩ := newBlock_draw isNew
  cases same
  cases ran
  exact ⟨isNew, _, rfl, Nat.le_add_right _ _, rfl⟩

def drawnBits (dev : Nat) (sb : SuperBlock) (count : Nat) (s : Storage) : List Nat :=
  draws (drawBit (MapServes dev sb s) (MapMarks dev sb)) count (s.sector dev sb.zmap)

lemma assignBlocks_direct {sb : LaidOutSuperBlock} (filled : Filled used inode)
    (room : used + count ≤ nrDefaultSects)
    (ran : assignBlocks fuel dev sb count inode s = some (blocks, after, t)) :
    blocks = (drawnBits dev sb count s).map (sb.sFirstzone + ·) ∧ Filled (used + count) after ∧
      (∀ i < used, after.iData i = inode.iData i) ∧
      ∀ k, ∀ below : k < blocks.length, after.iData (used + k) = blocks.get ⟨k, below⟩ := by
  induction count generalizing used inode s blocks with
  | zero =>
    cases ran
    exact ⟨rfl, filled, fun _ _ => rfl, nofun⟩
  | succ count ih =>
    obtain ⟨⟨_, _, _⟩, isSet, ran⟩ := bind_eq_some_iff.mp ran
    obtain ⟨isNew, nr, rfl, _, rfl⟩ := setBlockNr_direct filled (by omega) isSet
    obtain ⟨⟨_, _, _⟩, isRest, same⟩ := map_eq_some_iff.mp ran
    cases same
    obtain ⟨isNr, sector, serves⟩ := newBlock_draw isNew
    have ne0 : nr ≠ 0 := by
      have layout := sb.layout
      omega
    obtain ⟨isList, _, kept, recorded⟩ := ih (filled_update filled ne0) (by omega) isRest
    refine ⟨?_, by rwa [show used + (count + 1) = used + 1 + count by omega], ?_, ?_⟩
    · have head := Except.ok.inj isNr
      rw [isList, head]
      show _ = List.map _ (_ :: _)
      rw [List.map_cons]
      congr 2
      unfold drawnBits
      rw [sector, drawBit_congr serves]
    · intro i below
      rw [kept i (by omega)]
      exact update_of_ne (by omega) _ _
    · intro k below
      cases k with
      | zero =>
        rw [Nat.add_zero, kept used (by omega)]
        exact update_self _ _ _
      | succ k =>
        rw [show used + (k + 1) = used + 1 + k by omega]
        exact recorded k (lt_of_succ_lt_succ below)

lemma behind_recordBlock {onDev block bh : Nat}
    (ran : recordBlock fuel dev onDev sb block bh i s = some (.ok nr, t)) : sb.sFirstzone ≤ nr := by
  obtain ⟨⟨res, _⟩, isNew, ran⟩ := bind_eq_some_iff.mp ran
  cases res with
  | error code => cases ran
  | ok found =>
    obtain ⟨_, -, same⟩ := map_eq_some_iff.mp ran
    cases same
    exact behind_newBlock isNew

lemma behind_setSecondBlockNr
    (ran : setSecondBlockNr fuel dev sb inode s = some (.ok nr, t)) : sb.sFirstzone ≤ nr := by
  obtain ⟨⟨_, _⟩, -, ran⟩ := bind_eq_some_iff.mp ran
  dsimp only at ran
  split at ran
  · cases ran
  · exact behind_recordBlock ran

lemma behind_thirdLoop {bh entries : Nat}
    (ran : thirdLoop fuel dev sb bh entries i s = some (.ok nr, t)) : sb.sFirstzone ≤ nr := by
  induction entries generalizing i s with
  | zero => cases ran
  | succ entries ih =>
    unfold thirdLoop at ran
    dsimp only at ran
    split at ran
    · exact ih ran
    obtain ⟨⟨_, _⟩, -, ran⟩ := bind_eq_some_iff.mp ran
    dsimp only at ran
    split at ran
    · exact ih ran
    obtain ⟨⟨res, _⟩, isRecorded, ran⟩ := bind_eq_some_iff.mp ran
    cases res with
    | error code => cases ran
    | ok found =>
      obtain ⟨_, -, same⟩ := map_eq_some_iff.mp ran
      cases same
      exact behind_recordBlock isRecorded

lemma behind_setIndirectBlockNr (ran : setIndirectBlockNr fuel dev sb inode s = some (.ok nr, t)) :
    sb.sFirstzone ≤ nr := by
  obtain ⟨⟨second, _⟩, isSecond, ran⟩ := bind_eq_some_iff.mp ran
  cases second with
  | ok found =>
    cases ran
    exact behind_setSecondBlockNr isSecond
  | error code =>
    obtain ⟨⟨third, _⟩, isThird, same⟩ := map_eq_some_iff.mp ran
    obtain ⟨_, -, isLoop⟩ := bind_eq_some_iff.mp isThird
    cases third with
    | ok found =>
      cases same
      exact behind_thirdLoop isLoop
    | error code => cases same

lemma setBlockNr_indirect {res : Except Int Nat} (filled : Filled nrDefaultSects inode)
    (ran : setBlockNr fuel dev sb inode s = some (res, after, t)) :
    after = inode ∧ ∀ nr, res = .ok nr → sb.sFirstzone ≤ nr := by
  have noneVacant : (List.range nrDefaultSects).find? (fun i => inode.iData i = 0) = none := by
    rw [List.find?_eq_none]
    intro i lt
    simpa using filled.blocks i (List.mem_range.mp lt)
  unfold setBlockNr setFristBlockNr at ran
  rw [noneVacant] at ran
  obtain ⟨⟨_, _⟩, isSet, same⟩ := map_eq_some_iff.mp ran
  cases same
  refine ⟨rfl, ?_⟩
  rintro nr rfl
  exact behind_setIndirectBlockNr isSet

lemma assignBlocks_indirect (filled : Filled nrDefaultSects inode)
    (ran : assignBlocks fuel dev sb count inode s = some (blocks, after, t)) :
    after = inode ∧ blocks.length = count ∧ ∀ block ∈ blocks, sb.sFirstzone ≤ block := by
  induction count generalizing s blocks with
  | zero =>
    cases ran
    exact ⟨rfl, rfl, nofun⟩
  | succ count ih =>
    obtain ⟨⟨res, _, _⟩, isSet, ran⟩ := bind_eq_some_iff.mp ran
    obtain ⟨rfl, behind⟩ := setBlockNr_indirect filled isSet
    cases res with
    | error code => cases ran
    | ok nr =>
      obtain ⟨⟨_, _, _⟩, isRest, same⟩ := map_eq_some_iff.mp ran
      cases same
      obtain ⟨sameInode, length, each⟩ := ih isRest
      exact ⟨sameInode, congrArg Nat.succ length, List.forall_mem_cons.mpr ⟨behind nr rfl, each⟩⟩

lemma assignBlocks_add {more : Nat}
    (ran : assignBlocks fuel dev sb (count + more) inode s = some (blocks, after, t)) :
    ∃ first middle between rest,
      assignBlocks fuel dev sb count inode s = some (first, middle, between) ∧
      assignBlocks fuel dev sb more middle between = some (rest, after, t) ∧
      blocks = first ++ rest := by
  induction count generalizing inode s blocks with
  | zero => exact ⟨[], inode, s, blocks, rfl, by rwa [Nat.zero_add] at ran, rfl⟩
  | succ count ih =>
    rw [succ_add] at ran
    obtain ⟨⟨res, _, _⟩, isSet, ran⟩ := bind_eq_some_iff.mp ran
    cases res with
    | error code => cases ran
    | ok nr =>
      obtain ⟨⟨_, _, _⟩, isLater, same⟩ := map_eq_some_iff.mp ran
      cases same
      obtain ⟨first, middle, between, rest, isFirst, isRest, rfl⟩ := ih isLater
      refine ⟨nr :: first, middle, between, rest, ?_, isRest, rfl⟩
      unfold assignBlocks
      rw [isSet, bind_some]
      dsimp only
      rw [isFirst]
      rfl

structure BlocksAgree (sb : SuperBlock) (blocks : List Nat) (inode : DInode) : Prop where
  distinct : blocks.Nodup
  data : ∀ block ∈ blocks, block ≠ 0 ∧ sb.sFirstzone ≤ block
  lookup : ∀ k, ∀ below : k < blocks.length, ∀ pos, sectorSize * k ≤ pos →
    pos ≤ sectorSize * k + (sectorSize - 1) → getPosBlock inode pos = blocks.get ⟨k, below⟩

lemma drawsFrom_drawBit (serves : MapServes dev sb s) (marks : MapMarks dev sb) :
    DrawsFrom clearBits 0 (drawBit (MapServes dev sb s) (MapMarks dev sb)) := by
  have value : ∀ sector, (drawBit (MapServes dev sb s) (MapMarks dev sb) sector).1 =
      openBit sector := fun _ => if_pos serves
  have room : ∀ {sector}, (clearBits sector).Nonempty → ¬SectorFull sector :=
    fun ne full => ne.ne_empty (clearBits_eq_empty.mpr full)
  refine ⟨?_, ?_, ?_, ?_⟩
  · intro sector ne
    rw [value]
    exact openBit_mem (room ne)
  · intro sector ne
    rw [value, ← clearBits_markBit]
    exact congrArg clearBits (if_pos ⟨marks, room ne⟩)
  · intro sector empty
    rw [value]
    unfold openBit
    rw [firstOpen_eq_none.mpr (clearBits_eq_empty.mp empty)]
  · intro sector empty
    refine (congrArg clearBits (if_neg fun both => both.2 ?_)).trans empty
    exact clearBits_eq_empty.mp empty

lemma drawBit_again (bad : ¬(MapMarks dev sb ∧ MapServes dev sb s)) (sector : Nat → Byte) :
    (drawBit (MapServes dev sb s) (MapMarks dev sb)
        (drawBit (MapServes dev sb s) (MapMarks dev sb) sector).2).1 =
      (drawBit (MapServes dev sb s) (MapMarks dev sb) sector).1 := by
  by_cases serves : MapServes dev sb s
  · have kept : (drawBit (MapServes dev sb s) (MapMarks dev sb) sector).2 = sector :=
      if_neg fun both => bad ⟨both.1, serves⟩
    rw [kept]
  · exact (if_neg serves).trans (if_neg serves).symm

lemma nodup_drawnBits : (drawnBits dev sb count s).Nodup ↔
    count ≤ 1 ∨ MapMarks dev sb ∧ MapServes dev sb s ∧
      (count ≤ (clearBits (s.sector dev sb.zmap)).card ∨
        count = (clearBits (s.sector dev sb.zmap)).card + 1 ∧
          0 ∉ clearBits (s.sector dev sb.zmap)) := by
  unfold drawnBits
  by_cases good : MapMarks dev sb ∧ MapServes dev sb s
  · obtain ⟨marks, serves⟩ := good
    rw [(drawsFrom_drawBit serves marks).nodup_iff]
    constructor
    · intro fits
      exact .inr ⟨marks, serves, fits⟩
    rintro (few | ⟨-, -, fits⟩)
    · rcases (clearBits (s.sector dev sb.zmap)).eq_empty_or_nonempty with empty | nonempty
      · rw [empty, card_empty]
        simp only [notMem_empty, not_false_eq_true, and_true]
        omega
      · exact .inl (few.trans (card_pos.mpr nonempty))
    · exact fits
  · constructor
    · intro nodup
      left
      by_contra many
      exact not_nodup_draws (drawBit_again good _) (by omega) nodup
    rintro (few | ⟨marks, serves, -⟩)
    · obtain rfl | rfl : count = 0 ∨ count = 1 := by omega
      · exact List.nodup_nil
      · exact List.nodup_singleton _
    · exact absurd ⟨marks, serves⟩ good

/-- Block assignment and lookup agree exactly for the direct entries, and with a zone map that
has clear bits for all of them. -/
theorem blocksAgree_iff {sb : LaidOutSuperBlock} (zero : ∀ i ≤ 11, inode.iData i = 0)
    (returned : assignBlocks fuel dev sb n inode s = some (blocks, after, t)) :
    BlocksAgree sb blocks after ↔
      n ≤ nrDefaultSects ∧ (n ≤ 1 ∨ MapMarks dev sb ∧ MapServes dev sb s ∧
        (n ≤ (clearBits (s.sector dev sb.zmap)).card ∨
          n = (clearBits (s.sector dev sb.zmap)).card + 1 ∧
            0 ∉ clearBits (s.sector dev sb.zmap))) := by
  have layout := sb.layout
  have filled : Filled 0 inode := ⟨nofun, fun i _ small => zero i small⟩
  by_cases few : n ≤ nrDefaultSects
  · obtain ⟨isList, -, -, recorded⟩ := assignBlocks_direct filled (by omega) returned
    have injective : Function.Injective (sb.sFirstzone + · : Nat → Nat) := add_right_injective _
    rw [and_iff_right few, ← nodup_drawnBits, ← List.nodup_map_iff injective, ← isList]
    refine ⟨fun agree => agree.distinct, fun distinct => ⟨distinct, ?_, ?_⟩⟩
    · intro block member
      rw [isList] at member
      obtain ⟨_, -, rfl⟩ := List.mem_map.mp member
      exact ⟨by omega, Nat.le_add_right _ _⟩
    intro k below pos low high
    unfold getPosBlock
    rw [← recorded k below, Nat.zero_add]
    congr 1
    unfold sectorSize at *
    omega
  -- The twelfth block goes to an indirect entry, and entry 11 stays `0`.
  refine iff_of_false ?_ fun both => few both.1
  intro agree
  obtain ⟨_, rfl⟩ := Nat.exists_eq_add_of_lt (Nat.lt_of_not_le few)
  rw [Nat.add_assoc] at returned
  obtain ⟨first, _, _, rest, isFirst, isRest, rfl⟩ := assignBlocks_add returned
  obtain ⟨isList, full, -, -⟩ := assignBlocks_direct filled (by omega) isFirst
  rw [Nat.zero_add] at full
  obtain ⟨rfl, length, _⟩ := assignBlocks_indirect full isRest
  have firstLength : first.length = nrDefaultSects := by
    rw [isList, List.length_map]
    exact length_draws
  have below : nrDefaultSects < (first ++ rest).length := by
    rw [List.length_append]
    omega
  have lookup := agree.lookup nrDefaultSects below (sectorSize * nrDefaultSects) le_rfl
    (Nat.le_add_right _ _)
  have entry := full.vacant nrDefaultSects le_rfl le_rfl
  exact (agree.data _ (List.get_mem _ _)).1 (lookup.symm.trans entry)

def newFile (count : Nat) : Option (List Nat × DInode × Storage) :=
  assignBlocks 8 rootDev formattedSuperBlock count clearedInode.toDInode Storage.blank

theorem blocksAgree_twoBlocks : ∃ blocks after t, newFile 2 = some (blocks, after, t) ∧
    BlocksAgree formattedSuperBlock blocks after := by
  have isSome : (newFile 2).isSome := by decide +kernel
  obtain ⟨⟨blocks, after, t⟩, returned⟩ := isSome_iff_exists.mp isSome
  refine ⟨blocks, after, t, returned, ?_⟩
  have clear : ∀ nr < bitsZone,
      nr ∈ clearBits (blank.sector rootDev formattedSuperBlock.zmap) := by
    intro nr small
    refine mem_clearBits.mpr ⟨small, ?_⟩
    unfold sectorBit sector blank
    simp
  have two := one_lt_card.mpr ⟨0, clear 0 (by decide), 1, clear 1 (by decide), by decide⟩
  exact (blocksAgree_iff (fun _ _ => rfl) returned).mpr
    ⟨by decide, .inr ⟨by decide, ⟨by decide, nofun⟩, .inl two⟩⟩

def twelveBlocks : List Nat × DInode × Storage := (newFile 12).get (by decide +kernel)

/-- The twelfth call records its block 527 in block 0, and the lookup returns block 0. -/
theorem twelfthBlock_lost :
    newFile 12 = some twelveBlocks ∧ twelveBlocks.1 = (List.range 12).map (516 + ·) ∧
      getPosBlock twelveBlocks.2.1 (512 * 11) = 0 ∧
      Lib.word32 (twelveBlocks.2.2.disk rootDev 0) 0 = 527 ∧
      ¬BlocksAgree formattedSuperBlock twelveBlocks.1 twelveBlocks.2.1 := by
  have lookup : getPosBlock twelveBlocks.2.1 (512 * 11) = 0 := by decide +kernel
  have length : 11 < twelveBlocks.1.length := by decide +kernel
  refine ⟨(some_get _).symm, by decide +kernel, lookup, by decide +kernel, ?_⟩
  intro agree
  have found := agree.lookup 11 length (512 * 11) (by decide) (by decide)
  exact (agree.data _ (List.get_mem _ _)).1 (found.symm.trans lookup)

end PrettyOS.Fs
