import PrettyOS.Fs.BlockAssign

/-!
Contract: bit maps on a disk, by the numbers of their bits.
-/

namespace PrettyOS.Fs

open Library
open Lib

variable {dev base nr : Nat} {s t : Storage} {sector : Nat → Byte}

def Storage.mapBit (s : Storage) (dev base nr : Nat) : Bool :=
  sectorBit (s.sector dev (base + nr / bitsZone)) (nr % bitsZone)

def SameSectors (s t : Storage) : Prop :=
  ∀ onDev block, t.sector onDev block = s.sector onDev block

lemma SameSectors.of_disk (same : t.disk = s.disk) : SameSectors s t := fun onDev block =>
  Storage.sector_congr (congrFun (congrFun same onDev) block)

def ChangesTo (dev block : Nat) (sector : Nat → Byte) (s t : Storage) : Prop :=
  ∀ onDev number, t.sector onDev number =
    if onDev = dev ∧ number = block then sector else s.sector onDev number

def SetsBit (dev base nr : Nat) (s t : Storage) : Prop :=
  ChangesTo dev (base + nr / bitsZone)
    (markBit (s.sector dev (base + nr / bitsZone)) (nr % bitsZone)) s t

lemma markBit_ne (clear : sectorBit sector nr = false) : markBit sector nr ≠ sector := by
  intro same
  have isSet := @sectorBit_markBit sector nr nr
  rw [same, clear] at isSet
  simp at isSet

lemma SetsBit.changed (sets : SetsBit dev base nr s t) (clear : s.mapBit dev base nr = false) :
    t.sector dev (base + nr / bitsZone) ≠ s.sector dev (base + nr / bitsZone) := by
  rw [sets, if_pos ⟨rfl, rfl⟩]
  exact markBit_ne clear

lemma SetsBit.mapBit (sets : SetsBit dev base nr s t) (other : Nat) :
    t.mapBit dev base other = (s.mapBit dev base other || decide (other = nr)) := by
  unfold Storage.mapBit
  rw [sets]
  by_cases sameSector : other / bitsZone = nr / bitsZone
  · rw [sameSector, if_pos ⟨rfl, rfl⟩, sectorBit_markBit]
    congr 1
    rw [decide_eq_decide]
    unfold bitsZone sectorSize at *
    omega
  · have ne : other ≠ nr := fun same => sameSector (by rw [same])
    rw [if_neg (by omega), decide_eq_false ne, Bool.or_false]

lemma sectorBit_of_full (full : SectorFull sector) (small : nr < bitsZone) :
    sectorBit sector nr = true := by
  by_contra clear
  have mem := mem_clearBits.mpr ⟨small, Bool.eq_false_iff.mpr clear⟩
  rw [clearBits_eq_empty.mpr full] at mem
  exact Finset.notMem_empty _ mem

lemma Storage.mapBit_first (small : nr < bitsZone) :
    s.mapBit dev base nr = sectorBit (s.sector dev base) nr := by
  unfold Storage.mapBit
  rw [Nat.div_eq_of_lt small, Nat.mod_eq_of_lt small, Nat.add_zero]

def MapFull (dev base sects : Nat) (s : Storage) : Prop :=
  ∀ i < sects, SectorFull (s.sector dev (base + i))

instance (dev base sects : Nat) (s : Storage) : Decidable (MapFull dev base sects s) := by
  unfold MapFull
  infer_instance

end PrettyOS.Fs
