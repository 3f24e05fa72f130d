import PrettyOS.Fs.ZoneMap
import PrettyOS.Fs.InodeMap

/-!
Contract: what freeing does to the maps on the disk.
-/

namespace PrettyOS.Fs

open Library Option Storage
open Lib

variable {fuel dev base nr : Nat} {sb : SuperBlock} {s t middle : Storage} {ret : Int}
  {result : Except Int Nat}

def ClearsBit (dev base nr : Nat) (s t : Storage) : Prop :=
  (∀ other, t.mapBit dev base other = (s.mapBit dev base other && decide (other ≠ nr))) ∧
    ∀ onDev block, onDev ≠ dev ∨ block < base → t.sector onDev block = s.sector onDev block

lemma SameSectors.clearsBit_iff (same : SameSectors s t) :
    ClearsBit dev base nr s t ↔ s.mapBit dev base nr = false := by
  have sameBit : ∀ other, t.mapBit dev base other = s.mapBit dev base other := fun other => by
    unfold mapBit
    rw [same]
  constructor
  · intro clears
    have bit := clears.1 nr
    rw [sameBit] at bit
    simpa using bit
  intro clear
  refine ⟨fun other => ?_, fun onDev block _ => same onDev block⟩
  rw [sameBit]
  rcases eq_or_ne other nr with rfl | ne
  · rw [clear, Bool.false_and]
  · rw [decide_eq_true ne, Bool.and_true]

lemma Storage.disk_readBack (dev block bh : Nat) :
    ((s.hdRead dev block bh).hdWrite dev block bh).disk = s.disk := by
  funext onDev number offset
  show (if onDev = dev ∧ number = block ∧ offset < sectorSize then _ else _) = _
  split_ifs with own
  · rw [own.1, own.2.1]
    exact mem_hdRead own.2.2
  · rfl

lemma clearMapBit_disk {first sects : Nat}
    (ran : clearMapBit fuel dev first sects nr s = some (ret, t)) : t.disk = s.disk := by
  unfold clearMapBit at ran
  dsimp only at ran
  split_ifs at ran
  · cases ran
    rfl
  obtain ⟨⟨_, _⟩, isGot, ran⟩ := bind_eq_some_iff.mp ran
  obtain ⟨_, freed, same⟩ := map_eq_some_iff.mp ran
  cases same
  rw [(brelse_cache freed).2.2, disk_readBack, (getblk_cache isGot).2.2]

lemma freeBlock_disk {number : Int}
    (ran : freeBlock fuel dev sb number s = some (ret, t)) : t.disk = s.disk := by
  unfold freeBlock at ran
  by_cases out : number ≤ 0
  · rw [if_pos out] at ran
    cases ran
    rfl
  rw [if_neg out] at ran
  by_cases beyond : sb.sNzones < number
  · rw [if_pos beyond] at ran
    cases ran
  rw [if_neg beyond] at ran
  obtain ⟨⟨_, _⟩, isGot, ran⟩ := bind_eq_some_iff.mp ran
  have sameGot := (getblk_cache isGot).2.2
  dsimp only at ran
  split_ifs at ran
  · obtain ⟨_, isCleared, same⟩ := map_eq_some_iff.mp ran
    cases same
    exact (clearMapBit_disk isCleared).trans sameGot
  · cases ran
    exact sameGot

def blockNumber : Except Int Nat → Int
  | .ok block => block
  | .error code => code

def KeepsZones (dev : Nat) (sb : SuperBlock) (s : Storage) : Prop :=
  FirstFull dev sb s ∨ dev ≠ rootDev ∧
    s.sector rootDev sb.zmap = markBit (s.sector dev sb.zmap) (openBit (s.sector dev sb.zmap))

lemma sameSectors_newBlock_iff (ran : newBlock fuel dev sb s = some (result, t)) :
    SameSectors s t ↔ KeepsZones dev sb s := by
  obtain ⟨⟨_, _⟩, isBit, same⟩ := map_eq_some_iff.mp ran
  cases same
  unfold KeepsZones
  by_cases full : FirstFull dev sb s
  · exact iff_of_true (getZmapBit_of_full full isBit).2 (Or.inl full)
  obtain ⟨mapped, isOpen⟩ := not_or.mp full
  obtain ⟨-, marks⟩ := getZmapBit_marks (Nat.pos_of_ne_zero mapped) isBit
  have marked := marks.sector
  rw [if_neg isOpen] at marked
  rw [or_iff_right full]
  constructor
  · intro unchanged
    rw [unchanged] at marked
    refine ⟨?_, marked⟩
    rintro rfl
    exact markBit_ne (mem_clearBits.mp (openBit_mem isOpen)).2 marked.symm
  · rintro ⟨-, already⟩ onDev block
    by_cases own : onDev = rootDev ∧ block = sb.zmap
    · rw [own.1, own.2, marked, already]
    · exact marks.frame onDev block (not_and_or.mp own)

/-- `clear_imap_bit` clears exactly its bit only if that is clear already, and `free_block` of
the block `new_block` returned restores the disks only if `new_block` has not changed them:
neither of the two writes a cleared bit. -/
theorem release_restores_iff {before freed : Storage} {answer : Int}
    (cleared : clearImapBit fuel dev sb nr s = some (ret, t))
    (taken : newBlock fuel dev sb before = some (result, middle))
    (released : freeBlock fuel dev sb (blockNumber result) middle = some (answer, freed)) :
    (ClearsBit dev 2 nr s t ↔ s.mapBit dev 2 nr = false) ∧
      (SameSectors before freed ↔ KeepsZones dev sb before) := by
  refine ⟨(SameSectors.of_disk (clearMapBit_disk cleared)).clearsBit_iff, ?_⟩
  have kept := SameSectors.of_disk (freeBlock_disk released)
  rw [← sameSectors_newBlock_iff taken]
  refine forall₂_congr fun onDev block => ?_
  rw [kept]

def takeAndFree (fuel dev : Nat) (sb : SuperBlock) (s : Storage) :
    Option (Except Int Nat × Storage × Int × Storage) :=
  (newBlock fuel dev sb s).bind fun (result, middle) =>
    (freeBlock fuel dev sb (blockNumber result) middle).map fun (ret, t) => (result, middle, ret, t)

lemma takeAndFree_eq {before freed : Storage} {answer : Int}
    (ran : takeAndFree fuel dev sb before = some (result, middle, answer, freed)) :
    newBlock fuel dev sb before = some (result, middle) ∧
      freeBlock fuel dev sb (blockNumber result) middle = some (answer, freed) := by
  obtain ⟨⟨_, _⟩, isTaken, ran⟩ := bind_eq_some_iff.mp ran
  obtain ⟨⟨_, _⟩, isFreed, same⟩ := map_eq_some_iff.mp ran
  cases same
  exact ⟨isTaken, isFreed⟩

lemma isSome_release_keeps :
    (clearImapBit 8 rootDev formattedSuperBlock 7 freshMap).isSome = true ∧
      (takeAndFree 8 rootDev formattedSuperBlock fullZones).isSome = true := by
  constructor
  · decide
  · set_option maxRecDepth 4000 in decide

/-- A bit that is clear stays clear, and a full zone map stays full. -/
theorem release_restores_kept :
    ∃ ret t result middle answer freed,
      clearImapBit 8 rootDev formattedSuperBlock 7 freshMap = some (ret, t) ∧
        takeAndFree 8 rootDev formattedSuperBlock fullZones = some (result, middle, answer, freed) ∧
          ClearsBit rootDev 2 7 freshMap t ∧ SameSectors fullZones freed := by
  obtain ⟨⟨ret, t⟩, isCleared⟩ := isSome_iff_exists.mp isSome_release_keeps.1
  obtain ⟨⟨result, middle, answer, freed⟩, isFreed⟩ := isSome_iff_exists.mp isSome_release_keeps.2
  have holds := release_restores_iff isCleared (takeAndFree_eq isFreed).1 (takeAndFree_eq isFreed).2
  refine ⟨ret, t, result, middle, answer, freed, isCleared, isFreed, holds.1.mpr ?_,
    holds.2.mpr (Or.inl ?_)⟩
  · decide
  · set_option maxRecDepth 4000 in decide

/-- Inode `1` is freed and stays marked, and the block taken from an empty zone map and freed
again stays marked. -/
theorem release_without_effect :
    freshMap.mapBit rootDev 2 1 = true ∧ (clearImapBit 8 rootDev formattedSuperBlock 1 freshMap).map
        (fun done => (done.1, done.2.mapBit rootDev 2 1)) = some (0, true) ∧
      Storage.blank.mapBit rootDev 3 0 = false ∧
        (takeAndFree 8 rootDev formattedSuperBlock Storage.blank).map
          (fun done => done.2.2.2.mapBit rootDev 3 0) = some true := by
  refine ⟨?_, ?_, ?_, ?_⟩
  all_goals set_option maxRecDepth 4000 in decide

end PrettyOS.Fs
