import PrettyOS.Fs.Buffer
import PrettyOS.Lib.Words

/-!
Contract: memory, disks and the buffer cache together, and `hd_rw` as a faithful transfer of
one sector between a disk and the data area of a buffer.
-/

namespace PrettyOS.Fs

open Library
open Lib (Byte)

def rootDev : Nat := 0x310

structure Storage where
  mem : Nat → Byte
  disk : Nat → Nat → Nat → Byte
  cache : Buffers

namespace Storage

variable {s t : Storage} {fuel dev block bh offset : Nat}

def hdRead (dev block bh : Nat) (s : Storage) : Storage :=
  { s with mem := overwrite s.mem (s.cache.bData bh) sectorSize (s.disk dev block) }

def hdReadFails (bh : Nat) (s : Storage) : Storage :=
  { s with mem := overwrite s.mem (s.cache.bData bh) sectorSize fun _ => 0 }

def hdWrite (dev block bh : Nat) (s : Storage) : Storage :=
  { s with
    disk := fun onDev sector offset =>
      if onDev = dev ∧ sector = block ∧ offset < sectorSize then s.mem (s.cache.bData bh + offset)
      else s.disk onDev sector offset }

def poke (address : Nat) (value : Byte) (s : Storage) : Storage :=
  { s with mem := Function.update s.mem address value }

def getblk (fuel dev block : Nat) (s : Storage) : Option (Nat × Storage) :=
  (s.cache.getblk fuel dev block).map fun found => (found.1, { s with cache := found.2 })

def brelse (bh : Nat) (s : Storage) : Option Storage :=
  (s.cache.brelse bh).map fun cache => { s with cache := cache }

def blank : Storage where
  mem := fun _ => 0
  disk := fun _ _ _ => 0
  cache := Buffers.bufferInit (fun _ => 0) 0x100000

lemma mem_hdRead (inside : offset < sectorSize) :
    (s.hdRead dev block bh).mem (s.cache.bData bh + offset) = s.disk dev block offset :=
  overwrite_add inside

lemma disk_hdWrite_same (inside : offset < sectorSize) :
    (s.hdWrite dev block bh).disk dev block offset = s.mem (s.cache.bData bh + offset) :=
  if_pos ⟨rfl, rfl, inside⟩

lemma disk_hdWrite_other {onDev sector : Nat} (other : onDev ≠ dev ∨ sector ≠ block) :
    (s.hdWrite dev block bh).disk onDev sector = s.disk onDev sector := by
  funext offset
  exact if_neg fun same => other.elim (· same.1) (· same.2.1)

lemma getblk_cache (ran : s.getblk fuel dev block = some (bh, t)) :
    s.cache.getblk fuel dev block = some (bh, t.cache) ∧ t.mem = s.mem ∧ t.disk = s.disk := by
  obtain ⟨_, isFound, same⟩ := Option.map_eq_some_iff.mp ran
  cases same
  exact ⟨isFound, rfl, rfl⟩

lemma brelse_cache (ran : s.brelse bh = some t) :
    s.cache.brelse bh = some t.cache ∧ t.mem = s.mem ∧ t.disk = s.disk := by
  obtain ⟨cache, isCache, rfl⟩ := Option.map_eq_some_iff.mp ran
  exact ⟨isCache, rfl, rfl⟩

end Storage

end PrettyOS.Fs
