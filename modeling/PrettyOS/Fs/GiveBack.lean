import PrettyOS.Fs.BufferCounts

/-!
Contract: which calls of the file system give back every buffer they take.
-/

namespace PrettyOS.Fs

open Library Option Nat Storage
open Lib

def addLoopOn (readSuccess : Nat → Bool) (writeSuccess : Bool) (fuel : Nat) (dir : MInode)
    (start ino : Nat) (name : List Byte) :
    Nat → Nat → Storage → Option (Int × MInode × Storage)
  | 0, _, _ => none
  | sects + 1, i, s =>
      (s.getblk fuel dir.iDev (start + i)).bind fun (bh, s) =>
        if readSuccess i = false then some (-2, dir, s.hdReadFails bh)
        else
          let s := s.hdRead dir.iDev (start + i) bh
          match firstUnused s.mem (s.cache.bData bh) with
          | none =>
              (s.brelse bh).bind
                (addLoopOn readSuccess writeSuccess fuel dir start ino name sects (i + 1))
          | some j =>
              let s := fillEntry (s.cache.bData bh + sizeofDentry * j) ino name s
              let dir := { dir with iSize := (dir.iSize + dentrySize) % 2 ^ 16, iDirty := 1 }
              if writeSuccess = false then some (-3, dir, s)
              else ((s.hdWrite dir.iDev (start + i) bh).brelse bh).map fun s => (0, dir, s)

def addEntryOn (readSuccess : Nat → Bool) (writeSuccess : Bool) (fuel : Nat) (sb : SuperBlock)
    (dir : MInode) (ino : Nat) (name : List Byte) (s : Storage) :
    Option (Int × MInode × Storage) :=
  if getFirstBlock dir.toDInode = 0 then
    (setBlockNums fuel dir.iDev sb nrDefaultSects dir.toDInode s).bind fun (_, blocks, s) =>
      let dir := { dir with toDInode := blocks }
      if getFirstBlock dir.toDInode = 0 then some (-3, dir, s)
      else
        addLoopOn readSuccess writeSuccess fuel dir (getFirstBlock dir.toDInode) ino name
          nrDefaultSects 0 s
  else
    addLoopOn readSuccess writeSuccess fuel dir (getFirstBlock dir.toDInode) ino name
      nrDefaultSects 0 s

section Faithful

variable {fuel start ino : Nat} {sb : SuperBlock} {dir : MInode} {name : List Byte} {s : Storage}

lemma addLoopOn_true (sects i : Nat) :
    addLoopOn (fun _ => true) true fuel dir start ino name sects i s =
      addLoop fuel dir start ino name sects i s := by
  induction sects generalizing i s with
  | zero => rfl
  | succ sects ih =>
    have rest : addLoopOn (fun _ => true) true fuel dir start ino name sects (i + 1) =
        addLoop fuel dir start ino name sects (i + 1) :=
      funext fun _ => ih (i + 1)
    rw [addLoopOn, addLoop, rest]
    rfl

lemma addEntryOn_true :
    addEntryOn (fun _ => true) true fuel sb dir ino name s = addEntry fuel sb dir ino name s := by
  unfold addEntryOn addEntry
  simp only [addLoopOn_true]

end Faithful

inductive BufferUse where
  | doEntry (dir : MInode) (name : List Byte) (namelen : Nat) (flag : EntryUse)
  | addEntry (readSuccess : Nat → Bool) (writeSuccess : Bool) (sb : SuperBlock) (dir : MInode)
      (ino : Nat) (name : List Byte)
  | getImapBit (dev : Nat) (sb : SuperBlock)
  | getZmapBit (dev : Nat) (sb : SuperBlock)
  | setSecondBlockNr (readSuccess : Bool) (dev : Nat) (sb : SuperBlock) (inode : DInode)
  | readInode (success : Bool) (inode : Nat) (table : InodeTable)
  | writeInode (readSuccess writeSuccess : Bool) (inode : Nat) (table : InodeTable)

def BufferUse.run (fuel : Nat) (s : Storage) : BufferUse → Option Storage
  | .doEntry dir name namelen flag =>
      (PrettyOS.Fs.doEntry fuel dir name namelen flag s).map fun ended => ended.2.2
  | .addEntry readSuccess writeSuccess sb dir ino name =>
      (addEntryOn readSuccess writeSuccess fuel sb dir ino name s).map fun ended => ended.2.2
  | .getImapBit dev sb => (PrettyOS.Fs.getImapBit fuel dev sb s).map fun ended => ended.2
  | .getZmapBit dev sb => (PrettyOS.Fs.getZmapBit fuel dev sb s).map fun ended => ended.2
  | .setSecondBlockNr readSuccess dev sb inode =>
      (setSecondBlockNrOn readSuccess fuel dev sb inode s).map fun ended => ended.2
  | .readInode success inode table =>
      (InodeTable.readInode fuel success inode { table with storage := s }).map fun ended =>
        ended.2.storage
  | .writeInode readSuccess writeSuccess inode table =>
      (InodeTable.writeInode fuel readSuccess writeSuccess inode
        { table with storage := s }).map fun ended => ended.2.storage

open Buffers

variable {fuel i j sects : Nat} {number : Int} {sb : SuperBlock} {s got t : Storage}

variable {dir : MInode} {name : List Byte} {namelen : Nat}

def EntryMatches (fuel : Nat) (mem : Nat → Byte) (name : List Byte) (namelen de : Nat) : Prop :=
  inodeNum mem de ≠ 0 ∧ compare fuel mem de name namelen = some 0

lemma scanEntries_beyond {mem : Nat → Byte} {data nrDentry entries : Nat} {scan : Scan}
    (begun : j ≤ nrDentry)
    (ran : scanEntries fuel mem data nrDentry name namelen entries j = some scan) :
    scan = .beyond ↔ nrDentry < j + entries ∧ ∀ k, j ≤ k → k < nrDentry →
        ¬EntryMatches fuel mem name namelen (data + sizeofDentry * k) := by
  induction entries generalizing j with
  | zero =>
    cases ran
    exact iff_of_false nofun fun beyond => absurd beyond.1 (not_lt.mpr begun)
  | succ entries ih =>
    rw [scanEntries] at ran
    -- an entry without the name is passed over
    have next : j + 1 ≤ nrDentry → ¬EntryMatches fuel mem name namelen (data + sizeofDentry * j) →
        scanEntries fuel mem data nrDentry name namelen entries (j + 1) = some scan →
        (scan = .beyond ↔ nrDentry < j + (entries + 1) ∧ ∀ k, j ≤ k → k < nrDentry →
          ¬EntryMatches fuel mem name namelen (data + sizeofDentry * k)) := by
      intro more other isRest
      rw [ih more isRest, add_right_comm j 1 entries, add_assoc]
      refine and_congr_right fun _ => ⟨fun none k later below => ?_, fun none k later below => ?_⟩
      · rcases eq_or_lt_of_le later with rfl | after
        · exact other
        · exact none k after below
      · exact none k (le_of_succ_le later) below
    by_cases last : nrDentry < j + 1
    · rw [if_pos last] at ran
      cases ran
      exact iff_of_true rfl ⟨by omega, fun k later below => by omega⟩
    rw [if_neg last] at ran
    by_cases empty : inodeNum mem (data + sizeofDentry * j) = 0
    · rw [if_pos empty] at ran
      exact next (not_lt.mp last) (fun found => found.1 empty) ran
    rw [if_neg empty] at ran
    obtain ⟨ret, isRet, ran⟩ := bind_eq_some_iff.mp ran
    by_cases differs : ret ≠ 0
    · rw [if_pos differs] at ran
      refine next (not_lt.mp last) (fun found => differs ?_) ran
      exact some_inj.mp (isRet.symm.trans found.2)
    rw [if_neg differs] at ran
    rw [not_not] at differs
    cases ran
    refine iff_of_false nofun fun beyond => ?_
    have listed := lt_of_succ_le (not_lt.mp last)
    exact beyond.2 j le_rfl listed ⟨empty, differs ▸ isRet⟩

def Listed (fuel : Nat) (dir : MInode) (name : List Byte) (namelen : Nat) (s : Storage) : Prop :=
  ∃ bh got, s.getblk fuel dir.iDev (getFirstBlock dir.toDInode) = some (bh, got) ∧
    ∃ k < dir.iSize / dentrySize,
      EntryMatches fuel (got.hdRead dir.iDev (getFirstBlock dir.toDInode) bh).mem name namelen
        (got.cache.bData bh + sizeofDentry * k)

def EntryKept (fuel : Nat) (dir : MInode) (name : List Byte) (namelen : Nat) (s : Storage) : Prop :=
  (dir.iSize + (sectorSize - 1)) / sectorSize = 0 ∨
    sectorSize / dentrySize ≤ dir.iSize / dentrySize ∨ Listed fuel dir name namelen s

lemma doEntry_balanced {flag : EntryUse} {found : Option Nat} (cnt : s.cache.Counted)
    (ran : doEntry fuel dir name namelen flag s = some (number, found, t)) :
    t.cache.bCount = s.cache.bCount ↔ EntryKept fuel dir name namelen s := by
  unfold doEntry at ran
  dsimp only at ran
  by_cases empty : (dir.iSize + (sectorSize - 1)) / sectorSize = 0
  · rw [if_pos empty] at ran
    cases ran
    exact iff_of_true rfl (.inl empty)
  rw [if_neg empty] at ran
  obtain ⟨⟨bh, got⟩, isGot, ran⟩ := bind_eq_some_iff.mp ran
  obtain ⟨scan, isScan, ran⟩ := bind_eq_some_iff.mp ran
  have takes := takes_getblk isGot
  have listed : Listed fuel dir name namelen s ↔ ∃ k < dir.iSize / dentrySize,
      EntryMatches fuel (got.hdRead dir.iDev (getFirstBlock dir.toDInode) bh).mem name namelen
        (got.cache.bData bh + sizeofDentry * k) := by
    constructor
    · rintro ⟨_, _, isOther, matching⟩
      cases isOther.symm.trans isGot
      exact matching
    · exact fun matching => ⟨bh, got, isGot, matching⟩
  have kept : EntryKept fuel dir name namelen s ↔ scan ≠ .beyond := by
    rw [ne_eq, scanEntries_beyond (zero_le _) isScan, not_and_or, zero_add, not_lt]
    unfold EntryKept
    rw [or_iff_right empty, listed]
    refine or_congr_right ?_
    simp only [zero_le, true_implies, not_forall, not_not, exists_prop]
    rfl
  rw [kept]
  have given : ∀ {cache : Buffers}, got.cache.brelse bh = some cache →
      cache.bCount = s.cache.bCount := fun released => (takes.brelse cnt released).1
  cases scan with
  | beyond =>
    cases ran
    exact iff_of_false (takes.count_ne cnt) (not_not.mpr rfl)
  | ended =>
    obtain ⟨released, freed, same⟩ := map_eq_some_iff.mp ran
    cases same
    exact iff_of_true (given (brelse_cache freed).1) nofun
  | found de =>
    cases flag with
    | deMatch =>
      obtain ⟨released, freed, same⟩ := map_eq_some_iff.mp ran
      cases same
      exact iff_of_true (given (brelse_cache freed).1) nofun
    | deDel =>
      obtain ⟨released, freed, same⟩ := map_eq_some_iff.mp ran
      cases same
      exact iff_of_true (given (brelse_cache freed).1) nofun

def TransfersSucceed (readSuccess : Nat → Bool) (writeSuccess : Bool) (fuel dev start : Nat) :
    Nat → Nat → Storage → Prop
  | 0, _, _ => True
  | sects + 1, i, s =>
      match s.getblk fuel dev (start + i) with
      | none => True
      | some (bh, got) =>
          let s := got.hdRead dev (start + i) bh
          readSuccess i = true ∧
            match firstUnused s.mem (s.cache.bData bh), s.brelse bh with
            | some _, _ => writeSuccess = true
            | none, none => True
            | none, some s =>
                TransfersSucceed readSuccess writeSuccess fuel dev start sects (i + 1) s

lemma addLoopOn_balanced {readSuccess : Nat → Bool} {writeSuccess : Bool} {start ino : Nat}
    {ended : MInode} (cnt : s.cache.Counted)
    (ran : addLoopOn readSuccess writeSuccess fuel dir start ino name sects i s =
      some (number, ended, t)) :
    t.cache.bCount = s.cache.bCount ↔
      TransfersSucceed readSuccess writeSuccess fuel dir.iDev start sects i s := by
  induction sects generalizing i s with
  | zero => cases ran
  | succ sects ih =>
    obtain ⟨⟨bh, got⟩, isGot, ran⟩ := bind_eq_some_iff.mp ran
    have takes := takes_getblk isGot
    have unbalanced := takes.count_ne cnt
    rw [TransfersSucceed, isGot]
    dsimp only at ran ⊢
    cases isRead : readSuccess i with
    | false =>
      rw [if_pos isRead] at ran
      cases ran
      exact iff_of_false unbalanced nofun
    | true =>
      rw [if_neg (by rw [isRead]; nofun)] at ran
      rw [and_iff_right rfl]
      cases found : firstUnused (got.hdRead dir.iDev (start + i) bh).mem
          ((got.hdRead dir.iDev (start + i) bh).cache.bData bh) with
      | none =>
        rw [found] at ran
        obtain ⟨released, freed, ran⟩ := bind_eq_some_iff.mp ran
        obtain ⟨count, -⟩ := takes.brelse cnt (brelse_cache freed).1
        have stillCounted : released.cache.Counted := fun bh => count.symm ▸ cnt bh
        rw [freed, ← count]
        exact ih stillCounted ran
      | some j =>
        rw [found] at ran
        dsimp only at ran
        cases isWritten : writeSuccess with
        | false =>
          rw [if_pos isWritten] at ran
          cases ran
          exact iff_of_false unbalanced nofun
        | true =>
          rw [if_neg (by rw [isWritten]; nofun)] at ran
          obtain ⟨released, freed, same⟩ := map_eq_some_iff.mp ran
          cases same
          exact iff_of_true
            (takes.brelse cnt (brelse_cache freed).1).1 rfl

variable {inodeNr : Nat} {table ended : InodeTable}

lemma readInode_balanced {success : Bool} (cnt : table.storage.cache.Counted)
    (ran : table.readInode fuel success inodeNr = some (number, ended)) :
    ended.storage.cache.bCount = table.storage.cache.bCount ↔
      inodeNr = 0 ∨ table.superBlock (table.inode inodeNr).iDev = none ∨ success = true := by
  unfold InodeTable.readInode at ran
  dsimp only at ran
  by_cases isNull : inodeNr = 0
  · rw [if_pos isNull] at ran
    cases ran
    exact iff_of_true rfl (.inl isNull)
  rw [if_neg isNull] at ran
  rw [or_iff_right isNull]
  cases mounted : table.superBlock (table.inode inodeNr).iDev with
  | none =>
    rw [mounted] at ran
    cases ran
    exact iff_of_true rfl (.inl rfl)
  | some sb =>
    rw [mounted] at ran
    obtain ⟨⟨_, _⟩, isGot, ran⟩ := bind_eq_some_iff.mp ran
    have takes := takes_getblk isGot
    cases success with
    | false =>
      cases ran
      exact iff_of_false (takes.count_ne cnt) nofun
    | true =>
      obtain ⟨_, freed, same⟩ := map_eq_some_iff.mp ran
      cases same
      have given := takes.brelse cnt (brelse_cache freed).1
      exact iff_of_true given.1 (.inr rfl)

lemma writeInode_balanced {readSuccess writeSuccess : Bool} (cnt : table.storage.cache.Counted)
    (ran : table.writeInode fuel readSuccess writeSuccess inodeNr = some (number, ended)) :
    ended.storage.cache.bCount = table.storage.cache.bCount ↔
      (inodeNr = 0 ∨ (table.inode inodeNr).iDirty = 0 ∨ (table.inode inodeNr).iDev = 0) ∨
        readSuccess = true := by
  unfold InodeTable.writeInode at ran
  dsimp only at ran
  by_cases idle : inodeNr = 0 ∨ (table.inode inodeNr).iDirty = 0 ∨ (table.inode inodeNr).iDev = 0
  · rw [if_pos idle] at ran
    cases ran
    exact iff_of_true rfl (.inl idle)
  rw [if_neg idle] at ran
  obtain ⟨_, -, ran⟩ := bind_eq_some_iff.mp ran
  obtain ⟨⟨bh, got⟩, isGot, ran⟩ := bind_eq_some_iff.mp ran
  have takes := takes_getblk isGot
  cases readSuccess with
  | false =>
    cases ran
    exact iff_of_false (takes.count_ne cnt) fun kept => kept.elim idle nofun
  | true =>
    obtain ⟨released, freed, same⟩ := map_eq_some_iff.mp ran
    cases same
    have given : ∀ {cache : Buffers}, got.cache.brelse bh = some cache →
        cache.bCount = table.storage.cache.bCount := fun released =>
      (takes.brelse cnt released).1
    refine iff_of_true (given ?_) (.inr rfl)
    cases writeSuccess <;> exact (brelse_cache freed).1

def BufferUse.GivesBack (fuel : Nat) (s : Storage) : BufferUse → Prop
  | .doEntry dir name namelen _ => EntryKept fuel dir name namelen s
  | .addEntry readSuccess writeSuccess sb dir _ _ =>
      if getFirstBlock dir.toDInode = 0 then
        NumbersKept fuel dir.iDev sb nrDefaultSects dir.toDInode s ∧ ∀ number blocks t,
            setBlockNums fuel dir.iDev sb nrDefaultSects dir.toDInode s = some (number, blocks, t) →
            getFirstBlock blocks ≠ 0 →
              TransfersSucceed readSuccess writeSuccess fuel dir.iDev (getFirstBlock blocks)
                nrDefaultSects 0 t
      else
        TransfersSucceed readSuccess writeSuccess fuel dir.iDev (getFirstBlock dir.toDInode)
          nrDefaultSects 0 s
  | .getImapBit _ sb => ImapKept sb s
  | .getZmapBit dev sb => ZmapKept dev sb s
  | .setSecondBlockNr readSuccess dev sb inode => readSuccess = true ∧ SecondKept dev sb inode s
  | .readInode success inode table =>
      inode = 0 ∨ table.superBlock (table.inode inode).iDev = none ∨ success = true
  | .writeInode readSuccess _ inode table =>
      (inode = 0 ∨ (table.inode inode).iDirty = 0 ∨ (table.inode inode).iDev = 0) ∨
        readSuccess = true

def BufferUse.asksForBlocks : BufferUse → Bool
  | .addEntry _ _ _ dir _ _ => getFirstBlock dir.toDInode = 0
  | _ => false

lemma addEntryOn_balanced {readSuccess : Nat → Bool} {writeSuccess : Bool} {ino : Nat}
    {last : MInode} (cnt : s.cache.Counted) (empty : getFirstBlock dir.toDInode = 0)
    (kept : (BufferUse.addEntry readSuccess writeSuccess sb dir ino name).GivesBack fuel s)
    (ran : addEntryOn readSuccess writeSuccess fuel sb dir ino name s = some (number, last, t)) :
    t.cache.bCount = s.cache.bCount := by
  obtain ⟨numbers, transfers⟩ := (if_pos empty).mp kept
  unfold addEntryOn at ran
  rw [if_pos empty] at ran
  obtain ⟨⟨res, blocks, asked⟩, isAsked, ran⟩ := bind_eq_some_iff.mp ran
  have same := numbers.balanced cnt isAsked
  dsimp only at ran
  by_cases none : getFirstBlock blocks = 0
  · rw [if_pos none] at ran
    cases ran
    exact same
  rw [if_neg none] at ran
  have stillCounted : asked.cache.Counted := fun bh => same.symm ▸ cnt bh
  have success := transfers res blocks asked isAsked none
  exact ((addLoopOn_balanced stillCounted ran).mpr success).trans same

/-- A call on which every buffer is given back leaves all counts as they were, and every other
call does not; if a directory is given its first blocks, lost references may also cancel. -/
theorem gives_back_iff {use : BufferUse} (counted : s.cache.Counted)
    (returned : use.run fuel s = some t) :
    (use.GivesBack fuel s → t.cache.bCount = s.cache.bCount) ∧
      (use.asksForBlocks = false → t.cache.bCount = s.cache.bCount → use.GivesBack fuel s) := by
  have both : ∀ {kept : Prop}, (t.cache.bCount = s.cache.bCount ↔ kept) →
      (kept → t.cache.bCount = s.cache.bCount) ∧
        (use.asksForBlocks = false → t.cache.bCount = s.cache.bCount → kept) :=
    fun balanced => ⟨balanced.mpr, fun _ => balanced.mp⟩
  cases use with
  | doEntry dir name namelen flag =>
    obtain ⟨⟨number, _, after⟩, isEnded, rfl⟩ := map_eq_some_iff.mp returned
    exact both (doEntry_balanced counted isEnded)
  | getImapBit dev sb =>
    obtain ⟨⟨_, after⟩, isEnded, rfl⟩ := map_eq_some_iff.mp returned
    exact both (getImapBit_balanced counted isEnded)
  | getZmapBit dev sb =>
    obtain ⟨⟨_, after⟩, isEnded, rfl⟩ := map_eq_some_iff.mp returned
    exact both (getZmapBit_off counted isEnded).2
  | setSecondBlockNr readSuccess dev sb inode =>
    obtain ⟨⟨_, after⟩, isEnded, rfl⟩ := map_eq_some_iff.mp returned
    exact both (setSecondBlockNrOn_balanced counted isEnded).1
  | readInode success inode table =>
    obtain ⟨⟨number, ended⟩, isEnded, rfl⟩ := map_eq_some_iff.mp returned
    exact both (readInode_balanced counted isEnded)
  | writeInode readSuccess writeSuccess inode table =>
    obtain ⟨⟨number, ended⟩, isEnded, rfl⟩ := map_eq_some_iff.mp returned
    exact both (writeInode_balanced counted isEnded)
  | addEntry readSuccess writeSuccess sb dir ino name =>
    obtain ⟨⟨number, _, after⟩, isEnded, rfl⟩ := map_eq_some_iff.mp returned
    by_cases empty : getFirstBlock dir.toDInode = 0
    · refine ⟨fun kept => addEntryOn_balanced counted empty kept isEnded, fun other => ?_⟩
      exact absurd empty (of_decide_eq_false other)
    unfold addEntryOn at isEnded
    rw [if_neg empty] at isEnded
    exact both ((addLoopOn_balanced counted isEnded).trans (iff_of_eq (if_neg empty)).symm)

/-- A bit of the zone map of a blank disk is had without losing a buffer. -/
theorem gives_back_blankZones :
    ∃ t, (BufferUse.getZmapBit rootDev formattedSuperBlock).run 2 Storage.blank = some t ∧
      t.cache.bCount = Storage.blank.cache.bCount := by
  have isSome : ((BufferUse.getZmapBit rootDev formattedSuperBlock).run 2 blank).isSome :=
    by set_option maxRecDepth 4000 in decide
  obtain ⟨t, returned⟩ := isSome_iff_exists.mp isSome
  have kept := (gives_back_iff (fun _ => zero_lt_succ 255) returned).1
  refine ⟨t, returned, kept (.inr ⟨rfl, ?_⟩)⟩
  exact fun full => absurd (full 0 (by decide)) (by decide)

def oneEntry : MInode :=
  { clearedInode with
    iSize := dentrySize
    iData := fun i => if i = 0 then 516 else 0
    iDev := rootDev }

/-- A name that the directory does not have costs the lookup a buffer. -/
theorem lost_buffer_missingName :
    ∃ t, (BufferUse.doEntry oneEntry [0x61] 1 .deMatch).run 2 Storage.blank = some t ∧
      Storage.blank.cache.bCount 0x100000 = 0 ∧ t.cache.bCount 0x100000 = 1 := by
  have isOne : ((BufferUse.doEntry oneEntry [0x61] 1 .deMatch).run 2 blank).map
      (fun t => t.cache.bCount 0x100000) = some 1 := by decide
  obtain ⟨t, returned, lost⟩ := map_eq_some_iff.mp isOne
  exact ⟨t, returned, rfl, lost⟩

end PrettyOS.Fs
