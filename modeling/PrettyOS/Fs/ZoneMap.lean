import PrettyOS.Fs.MapBits
import PrettyOS.Library.Runs

/-!
Contract: `new_block` takes exactly one free block.
-/

namespace PrettyOS.Fs

open Library Option Storage
open Lib

variable {fuel dev nr bit : Nat} {sb : SuperBlock} {s t last : Storage} {result : Except Int Nat}

def NewBlockExact (dev : Nat) (sb : SuperBlock) (s : Storage) (result : Except Int Nat)
    (t : Storage) : Prop :=
  (∃ nr < sb.sNzmapSects * bitsZone, s.mapBit dev sb.zmap nr = false ∧
      SetsBit dev sb.zmap nr s t ∧ result = .ok (sb.sFirstzone + nr)) ∨
    (∀ nr < bitsZone, nr < sb.sNzmapSects * bitsZone → s.mapBit dev sb.zmap nr = true) ∧
      result = .error (-1) ∧ SameSectors s t

def FirstFull (dev : Nat) (sb : SuperBlock) (s : Storage) : Prop :=
  sb.sNzmapSects = 0 ∨ SectorFull (s.sector dev sb.zmap)

instance (dev : Nat) (sb : SuperBlock) (s : Storage) : Decidable (FirstFull dev sb s) := by
  unfold FirstFull
  infer_instance

def Allocates (dev : Nat) (sb : SuperBlock) (s : Storage) : Prop :=
  if FirstFull dev sb s then sb.sFirstzone = 0
  else
    dev = rootDev ∧ (MapServes dev sb s ∨ openBit (s.sector dev sb.zmap) = 0) ∧
      sb.sFirstzone + openBit (s.sector dev sb.zmap) ≠ 0

lemma getZmapBit_marks (mapped : 0 < sb.sNzmapSects)
    (ran : getZmapBit fuel dev sb s = some (bit, t)) :
    bit = (if MapServes dev sb s then openBit (s.sector dev sb.zmap) else 0) ∧
      Marks dev sb.zmap s t := by
  have marks : Marks dev sb.zmap s t := by
    unfold getZmapBit at ran
    obtain ⟨_, isCount⟩ := Nat.exists_eq_add_of_lt mapped
    rw [isCount, Nat.zero_add] at ran
    exact (zmapLoop_first ran).2
  exact ⟨congrArg Prod.fst (getZmapBit_draw ran).1, marks⟩

lemma getZmapBit_of_full (full : FirstFull dev sb s)
    (ran : getZmapBit fuel dev sb s = some (bit, t)) : bit = 0 ∧ SameSectors s t := by
  rcases Nat.eq_zero_or_pos sb.sNzmapSects with noMap | pos
  · unfold getZmapBit at ran
    rw [noMap] at ran
    cases ran
    exact ⟨rfl, fun _ _ => rfl⟩
  have isFull := full.resolve_left pos.ne'
  obtain ⟨isBit, marks⟩ := getZmapBit_marks pos ran
  rw [openBit_of_full isFull, ite_self] at isBit
  refine ⟨isBit, fun onDev block => ?_⟩
  by_cases own : onDev = rootDev ∧ block = sb.zmap
  · rw [own.1, own.2, marks.sector, if_pos isFull]
  · exact marks.frame onDev block (not_and_or.mp own)

lemma getZmapBit_setsBit (room : ¬FirstFull rootDev sb s)
    (ran : getZmapBit fuel rootDev sb s = some (bit, t)) :
    SetsBit rootDev sb.zmap (openBit (s.sector rootDev sb.zmap)) s t := by
  obtain ⟨mapped, isOpen⟩ := not_or.mp room
  obtain ⟨-, marks⟩ := getZmapBit_marks (Nat.pos_of_ne_zero mapped) ran
  have small := openBit_lt (s.sector rootDev sb.zmap)
  intro onDev block
  rw [Nat.div_eq_of_lt small, Nat.mod_eq_of_lt small, Nat.add_zero]
  by_cases own : onDev = rootDev ∧ block = sb.zmap
  · rw [if_pos own, own.1, own.2, marks.sector, if_neg isOpen]
  · rw [if_neg own]
    exact marks.frame onDev block (not_and_or.mp own)

lemma openBit_clear (room : ¬FirstFull dev sb s) :
    openBit (s.sector dev sb.zmap) < sb.sNzmapSects * bitsZone ∧
      s.mapBit dev sb.zmap (openBit (s.sector dev sb.zmap)) = false := by
  obtain ⟨mapped, isOpen⟩ := not_or.mp room
  obtain ⟨small, clear⟩ := mem_clearBits.mp (openBit_mem isOpen)
  refine ⟨?_, (mapBit_first small).trans clear⟩
  calc openBit (s.sector dev sb.zmap) < bitsZone := small
    _ ≤ sb.sNzmapSects * bitsZone := Nat.le_mul_of_pos_left _ (Nat.pos_of_ne_zero mapped)

lemma SetsBit.unique {base other : Nat} (sets : SetsBit dev base nr s t)
    (setsOther : SetsBit dev base other s t) (clear : s.mapBit dev base other = false) :
    other = nr := by
  have isSet := setsOther.mapBit other
  rw [sets.mapBit, clear] at isSet
  simpa using isSet

lemma newBlockExact_iff (ran : newBlock fuel dev sb s = some (result, t)) :
    NewBlockExact dev sb s result t ↔ Allocates dev sb s := by
  obtain ⟨⟨bit, _⟩, isBit, same⟩ := map_eq_some_iff.mp ran
  cases same
  unfold Allocates
  by_cases full : FirstFull dev sb s
  · obtain ⟨rfl, unchanged⟩ := getZmapBit_of_full full isBit
    rw [if_pos full, Nat.add_zero]
    constructor
    · rintro (⟨nr, -, clear, sets, -⟩ | ⟨-, failed, -⟩)
      · exact absurd (unchanged _ _) (sets.changed clear)
      by_contra pos
      rw [if_neg pos] at failed
      cases failed
    · intro zero
      refine Or.inr ⟨fun nr small inMap => ?_, if_pos zero, unchanged⟩
      have isFull := full.resolve_left (by
        rintro noMap
        rw [noMap, Nat.zero_mul] at inMap
        cases inMap)
      rw [mapBit_first small]
      exact sectorBit_of_full isFull small
  obtain ⟨inMap, clear⟩ := openBit_clear full
  obtain ⟨isValue, marks⟩ := getZmapBit_marks (Nat.pos_of_ne_zero (not_or.mp full).1) isBit
  rw [if_neg full]
  constructor
  · rintro (⟨nr, -, isClear, sets, isResult⟩ | ⟨allSet, -, -⟩)
    · have isRoot : dev = rootDev := by
        by_contra other
        exact sets.changed isClear (marks.frame dev _ (Or.inl other))
      subst isRoot
      have isOpen := (getZmapBit_setsBit full isBit).unique sets isClear
      split_ifs at isResult with zero
      have sameBit : bit = openBit (s.sector rootDev sb.zmap) := by
        have sum := Except.ok.inj isResult
        omega
      refine ⟨rfl, ?_, sameBit ▸ zero⟩
      by_contra neither
      rw [not_or] at neither
      rw [if_neg neither.1] at isValue
      exact neither.2 (sameBit.symm.trans isValue)
    · have isSet := allSet _ (openBit_lt _) inMap
      rw [clear] at isSet
      cases isSet
  · rintro ⟨rfl, serves, ne0⟩
    have sameBit : bit = openBit (s.sector rootDev sb.zmap) := by
      rw [isValue]
      split_ifs with allFull
      · rfl
      · exact (serves.resolve_left allFull).symm
    rw [sameBit, if_neg ne0]
    exact Or.inl ⟨_, inMap, clear, getZmapBit_setsBit full isBit, rfl⟩

lemma newBlock_of_full (full : FirstFull dev sb s) (behind : sb.sFirstzone ≠ 0)
    (ran : newBlock fuel dev sb s = some (result, t)) :
    result = .ok sb.sFirstzone ∧ ¬NewBlockExact dev sb s result t := by
  rw [newBlockExact_iff ran, Allocates, if_pos full]
  obtain ⟨⟨_, _⟩, isBit, same⟩ := map_eq_some_iff.mp ran
  obtain ⟨rfl, -⟩ := getZmapBit_of_full full isBit
  exact ⟨(Prod.mk.inj same).1.symm.trans (if_neg behind), behind⟩

def newBlocks (fuel dev : Nat) (sb : SuperBlock) (_ : Unit) (s : Storage) :
    Option (Except Int Nat × Storage) :=
  newBlock fuel dev sb s

def blocksOf (results : List (Except Int Nat)) : List Nat := results.filterMap Except.toOption

lemma fresh_of_exact {calls : List Unit} {results : List (Except Int Nat)}
    (isExact : AfterEach (newBlocks fuel dev sb)
      (fun _ s result t => NewBlockExact dev sb s result t) calls s)
    (ran : runSteps (newBlocks fuel dev sb) calls s = some (results, last)) :
    (blocksOf results).Nodup ∧ ∀ block ∈ blocksOf results,
      sb.sFirstzone ≤ block ∧ s.mapBit dev sb.zmap (block - sb.sFirstzone) = false := by
  induction calls generalizing s results with
  | nil =>
    cases ran
    exact ⟨List.nodup_nil, nofun⟩
  | cons call rest ih =>
    obtain ⟨result, t, others, isStep, isRest, rfl⟩ := runSteps_cons ran
    obtain ⟨now, later⟩ := isExact result t isStep
    obtain ⟨ne, unused⟩ := ih later isRest
    rcases now with ⟨nr, -, _, sets, rfl⟩ | ⟨-, rfl, same⟩
    · have kept : ∀ block ∈ blocksOf others, sb.sFirstzone ≤ block ∧
          s.mapBit dev sb.zmap (block - sb.sFirstzone) = false ∧ block - sb.sFirstzone ≠ nr := by
        intro block mem
        obtain ⟨above, stillClear⟩ := unused block mem
        rw [sets.mapBit, Bool.or_eq_false_iff, decide_eq_false_iff_not] at stillClear
        exact ⟨above, stillClear⟩
      have isBlocks : blocksOf (.ok (sb.sFirstzone + nr) :: others) =
          (sb.sFirstzone + nr) :: blocksOf others := rfl
      rw [isBlocks, List.nodup_cons]
      refine ⟨⟨fun again => (kept _ again).2.2 (Nat.add_sub_cancel_left _ _), ne⟩, ?_⟩
      intro block mem
      rcases List.mem_cons.mp mem with rfl | mem
      · exact ⟨Nat.le_add_right _ _, by rwa [Nat.add_sub_cancel_left]⟩
      · exact ⟨(kept block mem).1, (kept block mem).2.1⟩
    · have isBlocks : blocksOf (.error (-1) :: others) = blocksOf others := rfl
      rw [isBlocks]
      refine ⟨ne, fun block mem => ⟨(unused block mem).1, ?_⟩⟩
      have stillClear := (unused block mem).2
      unfold mapBit at stillClear ⊢
      rwa [same] at stillClear

/-- In a run of `new_block` every call sets exactly one clear bit and returns its block, or
finds none and changes nothing, exactly when every call meets a map on which one call does;
and then no block is returned twice, and none that was marked in use. -/
theorem newBlock_exact_iff {calls : List Unit} {results : List (Except Int Nat)}
    (returned : runSteps (newBlocks fuel dev sb) calls s = some (results, last)) :
    (AfterEach (newBlocks fuel dev sb) (fun _ s result t => NewBlockExact dev sb s result t)
        calls s ↔
      AtEach (newBlocks fuel dev sb) (fun _ s => Allocates dev sb s) calls s) ∧
    (AtEach (newBlocks fuel dev sb) (fun _ s => Allocates dev sb s) calls s →
      (blocksOf results).Nodup ∧ ∀ block ∈ blocksOf results,
        sb.sFirstzone ≤ block ∧ s.mapBit dev sb.zmap (block - sb.sFirstzone) = false) := by
  have each : AfterEach (newBlocks fuel dev sb)
      (fun _ s result t => NewBlockExact dev sb s result t) calls s ↔
        AtEach (newBlocks fuel dev sb) (fun _ s => Allocates dev sb s) calls s :=
    @afterEach_iff_atEach _ _ _ _ _ _ (fun _ => True) _ _ _ _
      (fun _ isStep => newBlockExact_iff isStep) (fun _ _ _ => trivial) trivial returned
  exact ⟨each, fun admitted => fresh_of_exact (each.mpr admitted) returned⟩

lemma isSome_newBlock_blank :
    (runSteps (newBlocks 8 rootDev formattedSuperBlock) [()] Storage.blank).isSome = true := by
  set_option maxRecDepth 4000 in decide

theorem newBlock_exact_blank : ∃ results last,
    runSteps (newBlocks 8 rootDev formattedSuperBlock) [()] Storage.blank = some (results, last) ∧
      AfterEach (newBlocks 8 rootDev formattedSuperBlock)
        (fun _ s result t => NewBlockExact rootDev formattedSuperBlock s result t) [()]
          Storage.blank := by
  obtain ⟨⟨_, _⟩, isRun⟩ := isSome_iff_exists.mp isSome_newBlock_blank
  refine ⟨_, _, isRun, (newBlock_exact_iff isRun).1.mpr ⟨?_, fun _ _ _ => trivial⟩⟩
  unfold Allocates
  set_option maxRecDepth 4000 in decide

def fullZones : Storage := { Storage.blank with disk := fun _ _ _ => 0xff }

lemma isSome_newBlock_fullZones :
    (newBlock 8 rootDev formattedSuperBlock fullZones).isSome = true := by
  set_option maxRecDepth 4000 in decide

/-- With every bit of the zone map set, `new_block` returns the block of bit `0`. -/
theorem newBlock_fullZones :
    (∀ nr < bitsZone, fullZones.mapBit rootDev formattedSuperBlock.zmap nr = true) ∧
      ∃ t, newBlock 8 rootDev formattedSuperBlock fullZones = some (.ok 516, t) ∧
        ¬NewBlockExact rootDev formattedSuperBlock fullZones (.ok 516) t := by
  have full : FirstFull rootDev formattedSuperBlock fullZones := by
    set_option maxRecDepth 4000 in decide
  constructor
  · intro nr small
    rw [mapBit_first small]
    exact sectorBit_of_full (full.resolve_left (by decide)) small
  obtain ⟨⟨_, t⟩, isNew⟩ := isSome_iff_exists.mp isSome_newBlock_fullZones
  obtain ⟨isResult, inexact⟩ := newBlock_of_full full (by decide) isNew
  rw [isResult] at isNew inexact
  exact ⟨t, isNew, inexact⟩

end PrettyOS.Fs
