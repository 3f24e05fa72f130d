import PrettyOS.Fs.MapBits
import PrettyOS.Fs.Open

/-!
Contract: `get_imap_bit` takes exactly one free inode.
-/

namespace PrettyOS.Fs

open Library Nat Option List Storage
open Lib

variable {fuel dev sects i nr : Nat} {inodeNr number : Int} {sb : SuperBlock} {s t : Storage}
  {sector : Nat → Byte} {map : Nat → Nat → Byte}

def markOpen (sector : Nat → Byte) : Nat → Byte :=
  if SectorFull sector then sector else markBit sector (openBit sector)

lemma markOpen_eq_self : markOpen sector = sector ↔ SectorFull sector := by
  unfold markOpen
  split_ifs with full
  · exact iff_of_true rfl full
  · exact iff_of_false (markBit_ne (mem_clearBits.mp (openBit_mem full)).2) full

def lastFound (map : Nat → Nat → Byte) : Nat → Nat → Int → Int
  | 0, _, inodeNr => inodeNr
  | sects + 1, i, inodeNr =>
      lastFound map sects (i + 1)
        (if SectorFull (map i) then inodeNr else (i * bitsZone + openBit (map i) : Nat))

lemma lastFound_of_full (full : ∀ k < sects, SectorFull (map (i + k))) :
    lastFound map sects i inodeNr = inodeNr := by
  induction sects generalizing i with
  | zero => rfl
  | succ sects ih =>
    rw [lastFound, if_pos (show SectorFull (map i) from full 0 (succ_pos _))]
    apply ih
    intro k below
    rw [Nat.add_assoc, Nat.add_comm 1 k]
    exact full (k + 1) (succ_lt_succ below)

lemma lastFound_of_single {k : Nat} (below : k < sects) (isOpen : ¬SectorFull (map (i + k)))
    (others : ∀ other < sects, other ≠ k → SectorFull (map (i + other))) :
    lastFound map sects i inodeNr = ((i + k) * bitsZone + openBit (map (i + k)) : Nat) := by
  induction sects generalizing i k inodeNr with
  | zero => cases below
  | succ sects ih =>
    rw [lastFound]
    cases k with
    | zero =>
      rw [Nat.add_zero] at isOpen ⊢
      rw [if_neg isOpen]
      apply lastFound_of_full
      intro other small
      rw [Nat.add_assoc, Nat.add_comm 1 other]
      exact others (other + 1) (succ_lt_succ small) (succ_ne_zero other)
    | succ k =>
      rw [show i + (k + 1) = i + 1 + k by omega] at isOpen ⊢
      apply ih (lt_of_succ_lt_succ below) isOpen
      intro other small ne
      rw [Nat.add_assoc, Nat.add_comm 1 other]
      exact others (other + 1) (succ_lt_succ small) (by omega)

lemma lastFound_congr {other : Nat → Nat → Byte} (same : ∀ k, i ≤ k → map k = other k) :
    lastFound map sects i inodeNr = lastFound other sects i inodeNr := by
  induction sects generalizing i inodeNr with
  | zero => rfl
  | succ sects ih =>
    rw [lastFound, lastFound, same i le_rfl]
    exact ih fun k later => same k (le_of_succ_le later)

lemma openBit_eq_zero {j : Nat} (scan : firstOpen sector = some j) :
    j = 0 ∧ findFirstZero (sector j) = 0 ↔ sectorBit sector 0 = false := by
  have isBit := openBit_of_firstOpen scan
  have room : ¬SectorFull sector := fun full => by
    rw [firstOpen_eq_none.mpr full] at scan
    cases scan
  have isClear := (mem_clearBits.mp (openBit_mem room)).2
  constructor
  · rintro ⟨rfl, _⟩
    have isZero : openBit sector = 0 := by omega
    rw [isZero] at isClear
    exact isClear
  intro clear
  have first : sector 0 ≠ 0xff := by
    intro full
    unfold sectorBit at clear
    rw [Nat.zero_div, full] at clear
    cases clear
  have isZero : firstOpen sector = some 0 :=
    find?_range_eq_some.mpr ⟨decide_eq_true first, mem_range.mpr (by decide), nofun⟩
  cases isZero.symm.trans scan
  refine ⟨rfl, ?_⟩
  unfold findFirstZero findFirstBit
  have bit : (~~~sector 0).getLsbD 0 = true := by
    rw [BitVec.getLsbD_not, show (sector 0).getLsbD 0 = false from clear]
    rfl
  rw [show range 8 = 0 :: range' 1 7 from rfl, find?_cons_of_pos bit]
  rfl

inductive ImapTurn (fuel dev sects i bh : Nat) (inodeNr number : Int) (s got t : Storage) : Prop
  | full (isFull : SectorFull (s.sector rootDev (2 + i)))
      (rest : imapLoop fuel dev sects (i + 1) inodeNr (got.hdRead rootDev (2 + i) bh) =
        some (number, t))
  | reserved (isFirst : i = 0) (clear : sectorBit (s.sector rootDev 2) 0 = false)
      (isNumber : number = if inodeNr < 1 then 0 else inodeNr)
      (isLast : t = got.hdRead rootDev (2 + i) bh)
  | marked (notFull : ¬SectorFull (s.sector rootDev (2 + i)))
      (started : i = 0 → sectorBit (s.sector rootDev 2) 0 = true) (released : Storage)
      (isReleased : got.cache.brelse bh = some released.cache)
      (marks : Marks rootDev (2 + i) s released)
      (rest : imapLoop fuel dev sects (i + 1)
        (i * bitsZone + openBit (s.sector rootDev (2 + i)) : Nat) released = some (number, t))

lemma imapLoop_turn (ran : imapLoop fuel dev (sects + 1) i inodeNr s = some (number, t)) :
    ∃ bh got, s.getblk fuel dev (2 + i) = some (bh, got) ∧
      ImapTurn fuel dev sects i bh inodeNr number s got t := by
  obtain ⟨⟨bh, got⟩, isGot, ran⟩ := bind_eq_some_iff.mp ran
  refine ⟨bh, got, isGot, ?_⟩
  have sameDisk := (getblk_cache isGot).2.2
  have same := SameSectors.of_disk sameDisk
  dsimp only at ran
  rw [firstOpen_hdRead bh (2 + i)] at ran
  cases scan : firstOpen (got.sector rootDev (2 + i)) with
  | none =>
    rw [scan] at ran
    exact .full (same rootDev (2 + i) ▸ firstOpen_eq_none.mp scan) ran
  | some j =>
    rw [scan] at ran
    have room : ¬SectorFull (s.sector rootDev (2 + i)) := by
      rw [← same, ← firstOpen_eq_none, scan]
      nofun
    dsimp only at ran
    rw [byte_hdRead (firstOpen_eq_some scan).1] at ran
    by_cases first : i = 0 ∧ j = 0 ∧ findFirstZero (got.sector rootDev (2 + i) j) = 0
    · rw [if_pos first] at ran
      cases ran
      obtain ⟨rfl, atZero⟩ := first
      exact .reserved rfl (same rootDev 2 ▸ (openBit_eq_zero scan).mp atZero) rfl rfl
    rw [if_neg first] at ran
    obtain ⟨released, freed, rest⟩ := bind_eq_some_iff.mp ran
    obtain ⟨isCache, -, isDisk⟩ := brelse_cache freed
    have found : (i * sectorSize + j) * 8 + findFirstZero (got.sector rootDev (2 + i) j) =
        i * bitsZone + openBit (s.sector rootDev (2 + i)) := by
      rw [← same, openBit_of_firstOpen scan]
      unfold bitsZone
      ring
    rw [found] at rest
    refine .marked room ?_ released isCache ((marks_written scan isDisk).of_disk sameDisk)
      rest
    rintro rfl
    by_contra clear
    rw [Bool.not_eq_true, ← same] at clear
    exact first ⟨rfl, (openBit_eq_zero scan).mpr clear⟩

def MarksFrom (i sects : Nat) (s t : Storage) : Prop :=
  ∀ onDev block, t.sector onDev block =
    if onDev = rootDev ∧ 2 + i ≤ block ∧ block < 2 + i + sects then
      markOpen (s.sector rootDev block) else s.sector onDev block

lemma MarksFrom.cons {middle : Storage}
    (first : ChangesTo rootDev (2 + i) (markOpen (s.sector rootDev (2 + i))) s middle)
    (rest : MarksFrom (i + 1) sects middle t) : MarksFrom i (sects + 1) s t := by
  intro onDev block
  rw [rest]
  by_cases here : onDev = rootDev ∧ block = 2 + i
  · rw [if_neg (by omega), first, if_pos here, if_pos (by omega), here.2]
  by_cases later : onDev = rootDev ∧ 2 + (i + 1) ≤ block ∧ block < 2 + (i + 1) + sects
  · rw [if_pos later, first, if_neg (by omega), if_pos (by omega)]
  · rw [if_neg later, first, if_neg here, if_neg (by omega)]

lemma imapLoop_spec (started : i ≠ 0 ∨ sectorBit (s.sector rootDev 2) 0 = true)
    (ran : imapLoop fuel dev sects i inodeNr s = some (number, t)) :
    number = lastFound (fun k => s.sector rootDev (2 + k)) sects i inodeNr ∧
      MarksFrom i sects s t := by
  induction sects generalizing i inodeNr s with
  | zero =>
    cases ran
    exact ⟨rfl, fun onDev block => (if_neg (by omega)).symm⟩
  | succ sects ih =>
    obtain ⟨bh, got, isGot, turn⟩ := imapLoop_turn ran
    have same := SameSectors.of_disk (getblk_cache isGot).2.2
    -- what remains once the sector is dealt with in the storage `middle`
    have finish : ∀ {middle : Storage} {value : Int},
        ChangesTo rootDev (2 + i) (markOpen (s.sector rootDev (2 + i))) s middle →
        value = (if SectorFull (s.sector rootDev (2 + i)) then inodeNr
          else (i * bitsZone + openBit (s.sector rootDev (2 + i)) : Nat)) →
        imapLoop fuel dev sects (i + 1) value middle = some (number, t) →
        number = lastFound (fun k => s.sector rootDev (2 + k)) (sects + 1) i inodeNr ∧
          MarksFrom i (sects + 1) s t := by
      intro middle value changes isValue isRest
      obtain ⟨isNumber, marks⟩ := ih (.inl (succ_ne_zero i)) isRest
      refine ⟨?_, MarksFrom.cons changes marks⟩
      rw [isNumber, lastFound, isValue]
      apply lastFound_congr
      intro k later
      rw [changes, if_neg (by omega)]
    cases turn with
    | full isFull rest =>
      refine finish ?_ (if_pos isFull).symm rest
      intro onDev block
      rw [markOpen_eq_self.mpr isFull, show (got.hdRead rootDev (2 + i) bh).sector onDev block =
        s.sector onDev block from same onDev block]
      split_ifs with here
      · rw [here.1, here.2]
      · rfl
    | reserved first clear _ _ =>
      cases clear.symm.trans (started.resolve_left (not_not.mpr first))
    | marked room _ freed _ marks rest =>
      refine finish ?_ (if_neg room).symm rest
      intro onDev block
      by_cases here : onDev = rootDev ∧ block = 2 + i
      · rw [if_pos here, here.1, here.2, marks.sector, markOpen]
      · rw [if_neg here, marks.frame onDev block (not_and_or.mp here)]

lemma imapLoop_of_clear (clear : sectorBit (s.sector rootDev 2) 0 = false)
    (ran : imapLoop fuel dev (sects + 1) 0 (-1) s = some (number, t)) :
    number = 0 ∧ SameSectors s t := by
  obtain ⟨_, _, isGot, turn⟩ := imapLoop_turn ran
  cases turn with
  | full isFull rest =>
    have isSet := sectorBit_of_full isFull (show 0 < bitsZone by decide)
    cases clear.symm.trans isSet
  | reserved _ _ isNumber isLast =>
    rw [isLast]
    exact ⟨isNumber, SameSectors.of_disk (getblk_cache isGot).2.2⟩
  | marked _ started => cases clear.symm.trans (started rfl)

def ImapExact (dev : Nat) (sb : SuperBlock) (s : Storage) (nr : Nat) (t : Storage) : Prop :=
  (∃ found < sb.sNimapSects * bitsZone, s.mapBit dev 2 found = false ∧
      SetsBit dev 2 found s t ∧ nr = found ∧ 1 ≤ nr) ∨
    MapFull dev 2 sb.sNimapSects s ∧ nr = 0 ∧ SameSectors s t

def RefusesFiles (fuel dev : Nat) (sb : SuperBlock) (s : Storage) : Prop :=
  ∀ (object dir mode flags inode : Nat) (igetSuccess readSuccess writeSuccess : Bool)
    (basename : List Byte) (files after : InodeTable), files.storage = s →
    (files.inode dir).iDev = dev → files.superBlock dev = some sb →
    files.newFile fuel object igetSuccess readSuccess writeSuccess dir basename mode flags =
      some (inode, after) → inode = 0

def SingleOpen (sb : SuperBlock) (s : Storage) : Prop :=
  ∃ i < sb.sNimapSects, i < 16 ∧ ¬SectorFull (s.sector rootDev (2 + i)) ∧
    ∀ k < sb.sNimapSects, k ≠ i → SectorFull (s.sector rootDev (2 + k))

def MarksOneInode (dev : Nat) (sb : SuperBlock) (s : Storage) : Prop :=
  if dev = rootDev then SingleOpen sb s
  else MapFull dev 2 sb.sNimapSects s ∧ sectorBit (s.sector rootDev 2) 0 = false

lemma getImapBit_of_full (full : MapFull rootDev 2 sb.sNimapSects s) (mapped : 0 < sb.sNimapSects)
    (ran : getImapBit fuel dev sb s = some (nr, t)) : nr = 65535 := by
  obtain ⟨⟨_, _⟩, isNumber, same⟩ := map_eq_some_iff.mp ran
  cases same
  have first := sectorBit_of_full (full 0 mapped) (show 0 < bitsZone by decide)
  obtain ⟨rfl, -⟩ := imapLoop_spec (.inr first) isNumber
  rw [lastFound_of_full]
  · rfl
  intro k below
  rw [Nat.zero_add]
  exact full k below

lemma getImapBit_spec (first : sectorBit (s.sector rootDev 2) 0 = true)
    (ran : getImapBit fuel dev sb s = some (nr, t)) :
    nr = (lastFound (fun k => s.sector rootDev (2 + k)) sb.sNimapSects 0 (-1) % 2 ^ 16).toNat ∧
      MarksFrom 0 sb.sNimapSects s t := by
  obtain ⟨⟨_, _⟩, isNumber, same⟩ := map_eq_some_iff.mp ran
  cases same
  obtain ⟨rfl, marks⟩ := imapLoop_spec (.inr first) isNumber
  exact ⟨rfl, marks⟩

lemma MarksFrom.mapFull (marks : MarksFrom 0 sects s t) (same : SameSectors s t) :
    MapFull rootDev 2 sects s := by
  intro i below
  have marked := marks rootDev (2 + i)
  rw [if_pos (by omega), same] at marked
  exact markOpen_eq_self.mp marked.symm

lemma MarksFrom.changesTo (marks : MarksFrom 0 sects s t) (below : i < sects)
    (isOpen : ¬SectorFull (s.sector rootDev (2 + i)))
    (others : ∀ k < sects, k ≠ i → SectorFull (s.sector rootDev (2 + k))) :
    ChangesTo rootDev (2 + i)
      (markBit (s.sector rootDev (2 + i)) (openBit (s.sector rootDev (2 + i)))) s t := by
  intro onDev block
  rw [marks]
  by_cases here : onDev = rootDev ∧ block = 2 + i
  · rw [if_pos (by omega), if_pos here, here.2, markOpen, if_neg isOpen]
  rw [if_neg here]
  split_ifs with inMap
  · obtain ⟨k, rfl⟩ := Nat.exists_eq_add_of_le inMap.2.1
    have full := others k (by omega) (by omega)
    rw [inMap.1]
    exact markOpen_eq_self.mpr full
  · rfl

lemma SingleOpen.imapExact (single : SingleOpen sb s)
    (first : sectorBit (s.sector rootDev 2) 0 = true)
    (ran : getImapBit fuel rootDev sb s = some (nr, t)) : ImapExact rootDev sb s nr t := by
  obtain ⟨i, below, _, isOpen, others⟩ := single
  obtain ⟨isNr, marks⟩ := getImapBit_spec first ran
  have changes := marks.changesTo below isOpen others
  obtain ⟨inSector, clear⟩ := mem_clearBits.mp (openBit_mem isOpen)
  have isFound := @lastFound_of_single sb.sNimapSects 0 (-1)
    (fun k => s.sector rootDev (2 + k)) i below (by rwa [Nat.zero_add]) (by simpa using others)
  rw [isFound, Nat.zero_add] at isNr
  generalize isBit : openBit (s.sector rootDev (2 + i)) = bit at inSector clear changes isNr
  -- the number splits into the sector and the bit in it
  have sectorOf : (i * bitsZone + bit) / bitsZone = i := by
    unfold bitsZone sectorSize at *
    omega
  have bitOf : (i * bitsZone + bit) % bitsZone = bit := by
    unfold bitsZone sectorSize at *
    omega
  have isNumber : nr = i * bitsZone + bit := by
    unfold bitsZone sectorSize at *
    omega
  refine .inl ⟨i * bitsZone + bit, ?_, ?_, ?_, isNumber, ?_⟩
  · unfold bitsZone sectorSize at *
    omega
  · unfold mapBit
    rw [sectorOf, bitOf, clear]
  · unfold SetsBit
    rw [sectorOf, bitOf]
    exact changes
  · by_contra zero
    have isZero : i = 0 ∧ bit = 0 := by
      unfold bitsZone sectorSize at *
      omega
    rw [isZero.1, isZero.2, Nat.add_zero, first] at clear
    cases clear

lemma ImapExact.singleOpen (exact' : ImapExact rootDev sb s nr t) (mapped : 0 < sb.sNimapSects)
    (first : sectorBit (s.sector rootDev 2) 0 = true)
    (ran : getImapBit fuel rootDev sb s = some (nr, t)) : SingleOpen sb s := by
  obtain ⟨isNr, marks⟩ := getImapBit_spec first ran
  rcases exact' with ⟨found, inMap, clear, sets, isFound, -⟩ | ⟨full, zero, -⟩
  · refine ⟨found / bitsZone, ?_, ?_, ?_, ?_⟩
    · exact Nat.div_lt_of_lt_mul (by rwa [Nat.mul_comm] at inMap)
    · have short : nr < 2 ^ 16 := by
        rw [isNr]
        omega
      rw [isFound] at short
      unfold bitsZone sectorSize
      omega
    · intro full
      have isSet := sectorBit_of_full full (mod_lt found (show 0 < bitsZone by decide))
      exact absurd (clear.symm.trans isSet) (by decide)
    · intro k below other
      have same := sets rootDev (2 + k)
      rw [if_neg (by omega), marks, if_pos (by omega)] at same
      exact markOpen_eq_self.mp same
  · exact absurd (zero.symm.trans (getImapBit_of_full full mapped ran)) (by decide)

lemma ImapExact.off_root (exact' : ImapExact dev sb s nr t) (mapped : 0 < sb.sNimapSects)
    (other : dev ≠ rootDev) (ran : getImapBit fuel dev sb s = some (nr, t)) :
    MapFull dev 2 sb.sNimapSects s ∧ sectorBit (s.sector rootDev 2) 0 = false := by
  by_cases clear : sectorBit (s.sector rootDev 2) 0 = false
  · obtain ⟨⟨_, _⟩, isNumber, same⟩ := map_eq_some_iff.mp ran
    cases same
    obtain ⟨_, isSects⟩ := Nat.exists_eq_add_of_lt mapped
    rw [isSects, Nat.zero_add] at isNumber
    obtain ⟨-, unchanged⟩ := imapLoop_of_clear clear isNumber
    rcases exact' with ⟨found, -, isClear, sets, -⟩ | ⟨full, -⟩
    · exact absurd (unchanged _ _) (sets.changed isClear)
    · exact ⟨full, clear⟩
  · have first := Bool.eq_true_of_not_eq_false clear
    obtain ⟨-, marks⟩ := getImapBit_spec first ran
    rcases exact' with ⟨found, -, isClear, sets, -⟩ | ⟨-, zero, same⟩
    · refine absurd ?_ (sets.changed isClear)
      rw [marks, if_neg fun both => other both.1]
    · have full := marks.mapFull same
      exact absurd (zero.symm.trans (getImapBit_of_full full mapped ran)) (by decide)

lemma refusesFiles_of_zero (ran : getImapBit fuel dev sb s = some (0, t)) :
    RefusesFiles fuel dev sb s := by
  intro object dir mode flags inode igetSuccess readSuccess writeSuccess basename files after
    isStorage isDev mnt isNew
  unfold InodeTable.newFile at isNew
  rw [isDev, mnt, bind_some, isStorage, ran, bind_some] at isNew
  cases isNew
  rfl

/-- A call marks exactly one free inode, or reports a full map and has `new_file` refuse a
file on it, exactly on these maps. -/
theorem getImapBit_exact_iff (mapped : 0 < sb.sNimapSects) (reserved : s.mapBit dev 2 0 = true)
    (returned : getImapBit fuel dev sb s = some (nr, t)) :
    ImapExact dev sb s nr t ∧ (MapFull dev 2 sb.sNimapSects s → RefusesFiles fuel dev sb s) ↔
      MarksOneInode dev sb s := by
  rw [mapBit_first (by decide)] at reserved
  unfold MarksOneInode
  split_ifs with isRoot
  · subst isRoot
    refine ⟨fun holds => holds.1.singleOpen mapped reserved returned, fun single => ?_⟩
    refine ⟨single.imapExact reserved returned, fun full => ?_⟩
    obtain ⟨i, below, -, isOpen, -⟩ := single
    exact absurd (full i below) isOpen
  refine ⟨fun holds => holds.1.off_root mapped isRoot returned, fun ⟨full, clear⟩ => ?_⟩
  obtain ⟨⟨_, _⟩, isNumber, same⟩ := map_eq_some_iff.mp returned
  cases same
  obtain ⟨_, isSects⟩ := Nat.exists_eq_add_of_lt mapped
  rw [isSects, Nat.zero_add] at isNumber
  obtain ⟨rfl, unchanged⟩ := imapLoop_of_clear clear isNumber
  exact ⟨.inr ⟨full, rfl, unchanged⟩, fun _ => refusesFiles_of_zero returned⟩

def freshMap : Storage :=
  { Storage.blank with disk := fun _ block offset => if block = 2 ∧ offset = 0 then 0x1f else 0 }

lemma getImapBit_freshMap :
    (getImapBit 8 rootDev formattedSuperBlock freshMap).map Prod.fst = some 5 := by
  set_option maxRecDepth 4000 in decide

/-- On a fresh inode map the first free inode is marked and returned. -/
theorem getImapBit_exact_freshMap :
    freshMap.mapBit rootDev 2 0 = true ∧
      ∃ t, getImapBit 8 rootDev formattedSuperBlock freshMap = some (5, t) ∧
        ImapExact rootDev formattedSuperBlock freshMap 5 t := by
  have reserved : freshMap.mapBit rootDev 2 0 = true := by decide
  obtain ⟨⟨_, t⟩, isNr, same⟩ := map_eq_some_iff.mp getImapBit_freshMap
  cases same
  refine ⟨reserved, t, isNr, ?_⟩
  have isOpen : ¬SectorFull (freshMap.sector rootDev 2) := fun full =>
    absurd (full 0 (by decide)) (by decide)
  refine ((getImapBit_exact_iff (by decide) reserved isNr).mpr ?_).1
  rw [MarksOneInode, if_pos rfl]
  exact ⟨0, by decide, by decide, isOpen, fun k below other => absurd below (by
    have positive := Nat.pos_of_ne_zero other
    exact Nat.not_lt.mpr positive)⟩

def fullInodes : Storage :=
  { Storage.blank with disk := fun _ block _ => if block = 2 then 0xff else 0 }

def fullTable : InodeTable where
  storage := fullInodes
  superBlock := fun dev => if dev = rootDev then some formattedSuperBlock else none
  sInodes := fun _ => []
  inode := fun _ =>
    { clearedInode with iDev := rootDev, iCount := 1, iNum := 1, iData := fun _ => 600 }
  rootInode := 1
  nrInodesCount := 1

/-- With every bit of the inode map set, `get_imap_bit` returns `65535`, and `new_file` makes a
file with that inode number. -/
theorem newFile_fullInodes :
    MapFull rootDev 2 1 fullInodes ∧
      (getImapBit 8 rootDev formattedSuperBlock fullInodes).map Prod.fst = some 65535 ∧
        (fullTable.newFile 8 9 true true true 1 [0x61] 0 0).map
          (fun made => (made.1, (made.2.inode made.1).iNum)) = some (9, 65535) := by
  refine ⟨?_, ?_, ?_⟩
  all_goals set_option maxRecDepth 4000 in decide

end PrettyOS.Fs
