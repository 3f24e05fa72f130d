import PrettyOS.Fs.BufferChains
import PrettyOS.Fs.InodeMap

/-!
Contract: the reference counts of buffers under the maps and the block numbers.
-/

namespace PrettyOS.Fs

open Library List Nat Option Storage
open Function
open Lib

namespace Buffers

variable {old : Nat → Nat} {fuel dev block bh low high : Nat} {c got after : Buffers}

def Counted (c : Buffers) : Prop := ∀ bh, c.bCount bh < 256

structure Takes (block bh : Nat) (c got : Buffers) : Prop where
  notNull : bh ≠ 0
  count : got.bCount = update c.bCount bh ((c.bCount bh + 1) % 256)
  label : got.bBlocknr = update c.bBlocknr bh block
  own : c.bBlocknr bh = block ∨ c.bCount bh = 0

lemma findFrom_label {start : Nat} (ne0 : bh ≠ 0)
    (found : findFrom c dev block fuel start = some bh) : c.bBlocknr bh = block := by
  induction fuel generalizing start with
  | zero => cases found
  | succ fuel ih =>
    unfold findFrom at found
    split_ifs at found with isNull isBlock
    · cases found
      exact absurd rfl ne0
    · cases found
      exact isBlock.2
    · exact ih found

lemma takes_getblk (ran : c.getblk fuel dev block = some (bh, got)) : Takes block bh c got := by
  obtain ⟨ne0, -, ⟨found, rfl⟩ | ⟨-, chosen, rfl⟩⟩ := getblk_inv ran
  · have label := findFrom_label ne0 found
    exact ⟨ne0, rfl, (update_eq_self_iff.mpr label.symm).symm, .inl label⟩
  have free := @chooseFree_spec _ _ _ _ (fun _ => True) _ (fun _ _ => trivial) trivial
    (.inl rfl) chosen
  have isFree := (free.resolve_left ne0).2
  refine ⟨ne0, ?_, block_assign, .inr isFree⟩
  rw [count_assign, isFree]

lemma Takes.count_ne (takes : Takes block bh c got) (cnt : c.Counted) : got.bCount ≠ c.bCount := by
  intro same
  have here := congrFun same bh
  rw [takes.count, update_self] at here
  have small := cnt bh
  omega

lemma Takes.counted (takes : Takes block bh c got) (counted : c.Counted) : got.Counted := by
  intro other
  rw [takes.count]
  rcases eq_or_ne other bh with rfl | ne
  · rw [update_self]
    exact mod_lt _ (by decide)
  · rw [update_of_ne ne]
    exact counted other

lemma Takes.count_brelse_iff {later : Buffers} (takes : Takes block bh c got)
    (cnt : c.Counted) (stillCounted : later.Counted) (ran : later.brelse bh = some after) :
    after.bCount = c.bCount ↔ later.bCount = got.bCount := by
  obtain ⟨-, rfl⟩ := brelse_spec takes.notNull ran
  show update later.bCount bh ((later.bCount bh + 255) % 256) = c.bCount ↔ _
  have small := cnt bh
  have laterSmall := stillCounted bh
  rw [takes.count, update_eq_iff, eq_update_iff]
  refine and_congr ?_ Iff.rfl
  omega

lemma Takes.brelse (takes : Takes block bh c got) (cnt : c.Counted)
    (ran : got.brelse bh = some after) :
    after.bCount = c.bCount ∧ after.bBlocknr = update c.bBlocknr bh block := by
  refine ⟨(takes.count_brelse_iff cnt (takes.counted cnt) ran).mpr rfl, ?_⟩
  rw [(brelse_spec takes.notNull ran).2]
  exact takes.label

def Off (old : Nat → Nat) (low high : Nat) (c : Buffers) : Prop :=
  ∀ bh, c.bCount bh = old bh ∨ (low ≤ c.bBlocknr bh ∧ c.bBlocknr bh < high) ∧
    (c.bCount bh = (old bh + 1) % 256 ∨ old bh = 255 ∧ c.bCount bh = 1)

lemma Off.refl (low high : Nat) (c : Buffers) : Off c.bCount low high c := fun _ => Or.inl rfl

section

variable (off : Off old low high c)
include off

lemma Off.mono {higher : Nat} (le : high ≤ higher) : Off old low higher c := fun bh =>
  (off bh).imp_right fun lost => ⟨⟨lost.1.1, lost.1.2.trans_le le⟩, lost.2⟩

lemma Off.counted (counted : ∀ bh, old bh < 256) : c.Counted := by
  intro bh
  have small := counted bh
  rcases off bh with same | ⟨-, _ | ⟨-, _⟩⟩ <;> omega

lemma Off.take (cnt : ∀ bh, old bh < 256) (le : low ≤ high)
    (takes : Takes high bh c got) : Off old low (high + 1) got ∧ got.bCount bh ≠ old bh := by
  have small := cnt bh
  have here : got.bCount bh = (c.bCount bh + 1) % 256 := by
    rw [takes.count, update_self]
  have step : got.bCount bh = (old bh + 1) % 256 ∨ old bh = 255 ∧ got.bCount bh = 1 := by
    rcases off bh with same | ⟨⟨-, below⟩, _⟩
    · left
      rw [here, same]
    · have free := takes.own.resolve_left below.ne
      omega
  refine ⟨fun other => ?_, by omega⟩
  rcases eq_or_ne other bh with rfl | ne
  · right
    rw [takes.label, update_self]
    exact ⟨⟨le, lt_succ_self high⟩, step⟩
  · rw [takes.count, takes.label, update_of_ne ne, update_of_ne ne]
    exact off.mono (le_succ high) other

lemma Off.give (le : low ≤ high) (count : after.bCount = c.bCount)
    (label : after.bBlocknr = update c.bBlocknr bh high) : Off old low (high + 1) after := by
  intro other
  rw [count, label]
  rcases eq_or_ne other bh with rfl | ne
  · rw [update_self]
    exact (off other).imp_right fun lost => ⟨⟨le, lt_succ_self high⟩, lost.2⟩
  · rw [update_of_ne ne]
    exact off.mono (le_succ high) other

end

end Buffers

open Buffers

variable {old : Nat → Nat} {fuel dev base block bh bit i j nr sects : Nat} {sb : SuperBlock}
  {s got t : Storage}

lemma Storage.takes_getblk (ran : s.getblk fuel dev block = some (bh, got)) :
    Takes block bh s.cache got.cache :=
  Buffers.takes_getblk (Storage.getblk_cache ran).1

lemma zmapLoop_off {blockNr : Nat} (cnt : ∀ bh, old bh < 256)
    (off : Off old base (base + i) s.cache)
    (ran : zmapLoop fuel dev base sects i blockNr s = some (bit, t)) :
    Off old base (base + i + sects) t.cache ∧ (t.cache.bCount = old ↔ s.cache.bCount = old ∧
        (sects = 0 ∨ i = 0 ∧ sects = 1 ∧ ¬SectorFull (s.sector dev base))) := by
  induction sects generalizing i blockNr s with
  | zero =>
    cases ran
    exact ⟨off, (and_iff_left (.inl rfl)).symm⟩
  | succ sects ih =>
    obtain ⟨bh, got, isGot, turn⟩ := zmapLoop_turn ran
    have takes := takes_getblk isGot
    obtain ⟨offOne, lost⟩ := off.take cnt (le_add_right base i) takes
    have notOld : got.cache.bCount ≠ old := fun same => lost (congrFun same bh)
    cases turn with
    | full isFull rest =>
      obtain ⟨offAll, bal⟩ := ih offOne rest
      refine ⟨offAll.mono (by omega), iff_of_false ?_ ?_⟩
      · exact fun same => notOld (bal.mp same).1
      rintro ⟨-, none | ⟨rfl, -, room⟩⟩
      · cases none
      · exact room isFull
    | beyond _ pos _ isLast =>
      rw [isLast]
      refine ⟨offOne.mono (by omega), iff_of_false notOld ?_⟩
      rintro ⟨-, none | ⟨zero, -⟩⟩
      · cases none
      · exact pos.ne' zero
    | marked room first released freed _ rest =>
      obtain ⟨count, label⟩ := takes.brelse (off.counted cnt) freed
      have offNext := off.give (le_add_right base i) count label
      obtain ⟨offAll, bal⟩ := ih offNext rest
      refine ⟨offAll.mono (by omega), ?_⟩
      rw [bal, count]
      refine and_congr_right fun _ => ?_
      constructor
      · rintro (rfl | ⟨zero, -⟩)
        · rw [first] at room
          exact .inr ⟨first, rfl, room⟩
        · cases zero
      · rintro (none | ⟨-, single, -⟩)
        · cases none
        · exact .inl (succ_inj.mp single)

def ZmapKept (dev : Nat) (sb : SuperBlock) (s : Storage) : Prop :=
  sb.sNzmapSects = 0 ∨ sb.sNzmapSects = 1 ∧ ¬SectorFull (s.sector dev sb.zmap)

lemma getZmapBit_off (cnt : s.cache.Counted) (ran : getZmapBit fuel dev sb s = some (bit, t)) :
    Off s.cache.bCount sb.zmap (sb.zmap + sb.sNzmapSects) t.cache ∧
      (t.cache.bCount = s.cache.bCount ↔ ZmapKept dev sb s) := by
  obtain ⟨off, bal⟩ := zmapLoop_off cnt (Off.refl _ _ _) ran
  refine ⟨off, bal.trans ?_⟩
  unfold ZmapKept
  simp only [true_and]

lemma imapLoop_off {inodeNr number : Int} (cnt : ∀ bh, old bh < 256)
    (off : Off old 2 (2 + i) s.cache)
    (ran : imapLoop fuel dev sects i inodeNr s = some (number, t)) :
    t.cache.bCount = old ↔ s.cache.bCount = old ∧
      (∀ k < sects, ¬SectorFull (s.sector rootDev (2 + (i + k)))) ∧
        (i = 0 → 0 < sects → sectorBit (s.sector rootDev 2) 0 = true) := by
  induction sects generalizing i inodeNr s with
  | zero =>
    cases ran
    exact (and_iff_left ⟨nofun, nofun⟩).symm
  | succ sects ih =>
    obtain ⟨bh, got, isGot, turn⟩ := imapLoop_turn ran
    have takes := takes_getblk isGot
    obtain ⟨offOne, lost⟩ := off.take cnt (le_add_right 2 i) takes
    have notOld : got.cache.bCount ≠ old := fun same => lost (congrFun same bh)
    cases turn with
    | full isFull rest =>
      refine iff_of_false ?_ ?_
      · exact fun same => notOld ((ih offOne rest).mp same).1
      · rintro ⟨-, room, -⟩
        exact room 0 (succ_pos sects) isFull
    | reserved first clear _ isLast =>
      rw [isLast]
      refine iff_of_false notOld ?_
      rintro ⟨-, -, isSet⟩
      cases clear.symm.trans (isSet first (succ_pos sects))
    | marked room started released freed marks rest =>
      obtain ⟨count, label⟩ := takes.brelse (off.counted cnt) freed
      rw [ih (off.give (le_add_right 2 i) count label) rest, count]
      refine and_congr_right fun _ => ?_
      have later : ∀ k, released.sector rootDev (2 + (i + 1 + k)) =
          s.sector rootDev (2 + (i + (k + 1))) := by
        intro k
        rw [marks.frame _ _ (.inr (by omega)), add_right_comm i 1 k, add_assoc i k 1]
      constructor
      · rintro ⟨othersNotFull, -⟩
        refine ⟨fun k below => ?_, fun first _ => started first⟩
        cases k with
        | zero => exact room
        | succ k =>
          rw [← later]
          exact othersNotFull k (lt_of_succ_lt_succ below)
      · rintro ⟨noneFull, -⟩
        refine ⟨fun k below => ?_, nofun⟩
        rw [later]
        exact noneFull (k + 1) (succ_lt_succ below)

def ImapKept (sb : SuperBlock) (s : Storage) : Prop :=
  (∀ k < sb.sNimapSects, ¬SectorFull (s.sector rootDev (2 + k))) ∧
    (0 < sb.sNimapSects → sectorBit (s.sector rootDev 2) 0 = true)

lemma getImapBit_balanced (cnt : s.cache.Counted) (ran : getImapBit fuel dev sb s = some (nr, t)) :
    t.cache.bCount = s.cache.bCount ↔ ImapKept sb s := by
  obtain ⟨⟨_, _⟩, isNumber, same⟩ := map_eq_some_iff.mp ran
  cases same
  rw [imapLoop_off cnt (Off.refl _ _ _) isNumber]
  unfold ImapKept
  simp only [true_and, zero_add, true_implies]

def zoneBit (dev : Nat) (sb : SuperBlock) (s : Storage) : Nat :=
  if MapServes dev sb s then openBit (s.sector dev sb.zmap) else 0

def BlockKept (dev : Nat) (sb : SuperBlock) (s : Storage) : Prop :=
  ZmapKept dev sb s ∧ sb.sFirstzone + zoneBit dev sb s ≠ 0

lemma SameSectors.blockKept_iff (same : SameSectors s t) :
    BlockKept dev sb t ↔ BlockKept dev sb s := by
  unfold BlockKept ZmapKept zoneBit MapServes
  simp only [same dev]

variable {result : Except Int Nat}

lemma newBlock_off (cnt : s.cache.Counted) (ran : newBlock fuel dev sb s = some (result, t)) :
    Off s.cache.bCount sb.zmap (sb.zmap + sb.sNzmapSects) t.cache ∧
      (t.cache.bCount = s.cache.bCount ↔ ZmapKept dev sb s) ∧
        ((∃ nr, result = .ok nr) ↔ sb.sFirstzone + zoneBit dev sb s ≠ 0) := by
  obtain ⟨⟨bit, _⟩, isBit, same⟩ := map_eq_some_iff.mp ran
  obtain ⟨off, bal⟩ := getZmapBit_off cnt isBit
  have isZone : bit = zoneBit dev sb s := congrArg Prod.fst (getZmapBit_draw isBit).1
  cases same
  refine ⟨off, bal, ?_⟩
  rw [isZone]
  split_ifs with none
  · exact iff_of_false nofun (not_not.mpr none)
  · exact iff_of_true ⟨_, rfl⟩ none

lemma recordBlock_balanced {onDev : Nat} (cnt : s.cache.Counted)
    (takes : Takes block bh s.cache got.cache)
    (ran : recordBlock fuel dev onDev sb block bh i got = some (result, t)) :
    (t.cache.bCount = s.cache.bCount ↔ BlockKept dev sb got) ∧
      ((∃ nr, result = .ok nr) ↔ sb.sFirstzone + zoneBit dev sb got ≠ 0) := by
  obtain ⟨⟨number, _⟩, isNew, ran⟩ := bind_eq_some_iff.mp ran
  obtain ⟨off, bal, isOk⟩ := newBlock_off (takes.counted cnt) isNew
  have stillCounted := off.counted (takes.counted cnt)
  cases number with
  | error code =>
    cases ran
    have zero : ¬sb.sFirstzone + zoneBit dev sb got ≠ 0 := fun pos => by
      obtain ⟨nr, isNr⟩ := isOk.mpr pos
      cases isNr
    refine ⟨iff_of_false ?_ (zero ·.2), iff_of_false nofun zero⟩
    -- the buffer is one up, and two if a sector of the map is in it as well
    intro same
    have here := congrFun same bh
    have small := cnt bh
    have isGot : got.cache.bCount bh = (s.cache.bCount bh + 1) % 256 := by
      rw [takes.count, update_self]
    rcases off bh with kept | ⟨-, _⟩ <;> omega
  | ok nr =>
    obtain ⟨_, freed, same⟩ := map_eq_some_iff.mp ran
    cases same
    have pos := isOk.mp ⟨nr, rfl⟩
    refine ⟨?_, iff_of_true ⟨nr, rfl⟩ pos⟩
    have given := takes.count_brelse_iff cnt stillCounted (brelse_cache freed).1
    exact given.trans (bal.trans (and_iff_left pos).symm)

def Vacant (sector : Nat → Byte) : Prop := ∃ i < sectorSize / 4, Lib.word32 sector (4 * i) = 0

lemma firstVacant_hdRead (bh block : Nat) :
    (∃ i, firstVacant (got.hdRead dev block bh).mem ((got.hdRead dev block bh).cache.bData bh) =
      some i) ↔ Vacant (got.sector dev block) := by
  have word : ∀ i < sectorSize / 4,
      word32 (got.hdRead dev block bh).mem (got.cache.bData bh + 4 * i) =
        word32 (got.sector dev block) (4 * i) := by
    intro i below
    refine word32_congr fun k small => ?_
    have inside : 4 * i + k < sectorSize := by
      unfold sectorSize at *
      omega
    rw [sector_inside inside, add_assoc]
    exact mem_hdRead inside
  unfold firstVacant Vacant
  rw [← isSome_iff_exists, find?_isSome]
  refine exists_congr fun i => ?_
  rw [mem_range]
  refine and_congr_right fun below => ?_
  rw [decide_eq_true_iff]
  exact Eq.congr_left (word i below)

def setSecondBlockNrOn (readSuccess : Bool) (fuel dev : Nat) (sb : SuperBlock) (inode : DInode)
    (s : Storage) : Option (Except Int Nat × Storage) :=
  let block := inode.iData 11
  (s.getblk fuel dev block).bind fun (bh, s) =>
    if readSuccess = false then some (.error (-3), s.hdReadFails bh)
    else
      let s := s.hdRead dev block bh
      match firstVacant s.mem (s.cache.bData bh) with
      | none => some (.error (-1), s)
      | some i => recordBlock fuel dev dev sb block bh i s

variable {inode : DInode}

lemma setSecondBlockNrOn_true :
    setSecondBlockNrOn true fuel dev sb inode s = setSecondBlockNr fuel dev sb inode s := rfl

def SecondKept (dev : Nat) (sb : SuperBlock) (inode : DInode) (s : Storage) : Prop :=
  Vacant (s.sector dev (inode.iData 11)) ∧ BlockKept dev sb s

lemma setSecondBlockNrOn_balanced {readSuccess : Bool} (cnt : s.cache.Counted)
    (ran : setSecondBlockNrOn readSuccess fuel dev sb inode s = some (result, t)) :
    (t.cache.bCount = s.cache.bCount ↔ readSuccess = true ∧ SecondKept dev sb inode s) ∧
      (readSuccess = true → SecondKept dev sb inode s → ∃ nr, result = .ok nr) := by
  obtain ⟨⟨bh, got⟩, isGot, ran⟩ := bind_eq_some_iff.mp ran
  have takes := takes_getblk isGot
  have same := SameSectors.of_disk (getblk_cache isGot).2.2
  have unbalanced := takes.count_ne cnt
  cases readSuccess with
  | false =>
    cases ran
    exact ⟨iff_of_false unbalanced nofun, nofun⟩
  | true =>
    dsimp only at ran
    rw [if_neg nofun] at ran
    have vacancy := @firstVacant_hdRead dev got bh (inode.iData 11)
    rw [same] at vacancy
    cases found : firstVacant (got.hdRead dev (inode.iData 11) bh).mem
        ((got.hdRead dev (inode.iData 11) bh).cache.bData bh) with
    | none =>
      rw [found] at ran
      cases ran
      have full : ¬SecondKept dev sb inode s := fun kept => by
        obtain ⟨i, isFound⟩ := vacancy.mpr kept.1
        rw [found] at isFound
        cases isFound
      exact ⟨iff_of_false unbalanced (full ·.2), fun _ kept => absurd kept full⟩
    | some i =>
      rw [found] at ran
      have vacant := vacancy.mp ⟨i, found⟩
      obtain ⟨bal, isOk⟩ :=
        @recordBlock_balanced fuel dev _ bh i sb s (got.hdRead dev _ bh) t result dev cnt
          takes ran
      have sameRead : SameSectors s (got.hdRead dev (inode.iData 11) bh) := same
      rw [sameRead.blockKept_iff] at bal
      refine ⟨bal.trans ?_, ?_⟩
      · unfold SecondKept
        simp only [true_and, and_iff_right vacant]
      · intro _ kept
        exact isOk.mpr (sameRead.blockKept_iff.mpr kept.2).2

def NumberKept (fuel dev : Nat) (sb : SuperBlock) (inode : DInode) (s : Storage) : Prop :=
  ((∃ i < nrDefaultSects, inode.iData i = 0) → ZmapKept dev sb s) ∧
    ∀ code after t, setFristBlockNr fuel dev sb inode s = some (.error code, after, t) →
      SecondKept dev sb after t

variable {after : DInode} {number : Int}

lemma setFristBlockNr_balanced (cnt : s.cache.Counted)
    (kept : (∃ i < nrDefaultSects, inode.iData i = 0) → ZmapKept dev sb s)
    (ran : setFristBlockNr fuel dev sb inode s = some (result, after, t)) :
    t.cache.bCount = s.cache.bCount := by
  unfold setFristBlockNr at ran
  split at ran
  · cases ran
    rfl
  rename_i i found
  obtain ⟨⟨number, _⟩, isNew, same⟩ := map_eq_some_iff.mp ran
  have zero : ∃ i < nrDefaultSects, inode.iData i = 0 :=
    ⟨i, mem_range.mp (mem_of_find?_eq_some found), by simpa using find?_some found⟩
  have bal := (newBlock_off cnt isNew).2.1.mpr (kept zero)
  cases number <;> cases same <;> exact bal

lemma NumberKept.balanced (kept : NumberKept fuel dev sb inode s) (cnt : s.cache.Counted)
    (ran : setBlockNr fuel dev sb inode s = some (result, after, t)) :
    t.cache.bCount = s.cache.bCount := by
  obtain ⟨⟨first, blocks, tried⟩, isFirst, ran⟩ := bind_eq_some_iff.mp ran
  have same := setFristBlockNr_balanced cnt kept.1 isFirst
  cases first with
  | ok nr =>
    cases ran
    exact same
  | error code =>
    have second := kept.2 code blocks tried isFirst
    obtain ⟨⟨number, ended⟩, isIndirect, equal⟩ := map_eq_some_iff.mp ran
    cases equal
    obtain ⟨⟨number, ended⟩, isSecond, ran⟩ := bind_eq_some_iff.mp isIndirect
    rw [← setSecondBlockNrOn_true] at isSecond
    have triedCounted : tried.cache.Counted := fun bh => same.symm ▸ cnt bh
    obtain ⟨balanced, isOk⟩ := setSecondBlockNrOn_balanced triedCounted isSecond
    obtain ⟨nr, rfl⟩ := isOk rfl second
    cases ran
    exact (balanced.mpr ⟨rfl, second⟩).trans same

def NumbersKept (fuel dev : Nat) (sb : SuperBlock) : Nat → DInode → Storage → Prop
  | 0, _, _ => True
  | num + 1, inode, s =>
      NumberKept fuel dev sb inode s ∧ ∀ nr after t,
        setBlockNr fuel dev sb inode s = some (.ok nr, after, t) →
          NumbersKept fuel dev sb num after t

lemma NumbersKept.balanced {num : Nat} (kept : NumbersKept fuel dev sb num inode s)
    (cnt : s.cache.Counted) (ran : setBlockNums fuel dev sb num inode s = some (number, after, t)) :
    t.cache.bCount = s.cache.bCount := by
  induction num generalizing inode s with
  | zero =>
    cases ran
    rfl
  | succ num ih =>
    obtain ⟨⟨first, blocks, middle⟩, isFirst, ran⟩ := bind_eq_some_iff.mp ran
    have same := kept.1.balanced cnt isFirst
    cases first with
    | error code =>
      cases ran
      exact same
    | ok nr =>
      have stillCounted : middle.cache.Counted := fun bh => same.symm ▸ cnt bh
      have rest := kept.2 nr blocks middle isFirst
      exact (ih rest stillCounted ran).trans same

end PrettyOS.Fs
