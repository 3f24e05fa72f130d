import PrettyOS.Library.Cells
import Mathlib

/-!
Contract: the buffer cache of `fs/buffer_head.c`.

A buffer head is a number, `0` is `NULL`. Page `0` is mapped, so the fields of `NULL` are
cells like any others. `none` is a call that does not return: a chain or ring that has no
end, or a sleep.
-/

namespace PrettyOS.Fs

open Function Option

def sectorSize : Nat := 512

def nrHashBuffer : Nat := 107

structure Buffers where
  bData : Nat → Nat
  bBlocknr : Nat → Nat
  bDev : Nat → Nat
  bUptodate : Nat → Nat
  bDirt : Nat → Nat
  bCount : Nat → Nat
  bLock : Nat → Nat
  bPrev : Nat → Nat
  bNext : Nat → Nat
  bPrevFree : Nat → Nat
  bNextFree : Nat → Nat
  hashBuffer : Nat → Nat
  freeList : Nat

namespace Buffers

def hashfn (dev block : Nat) : Nat := (dev ^^^ block) % nrHashBuffer

def hash (c : Buffers) (dev block : Nat) : Nat := c.hashBuffer (hashfn dev block)

def setHash (dev block bh : Nat) (c : Buffers) : Buffers :=
  { c with hashBuffer := update c.hashBuffer (hashfn dev block) bh }

def setPrev (bh value : Nat) (c : Buffers) : Buffers :=
  { c with bPrev := update c.bPrev bh value }

def setNext (bh value : Nat) (c : Buffers) : Buffers :=
  { c with bNext := update c.bNext bh value }

def setPrevFree (bh value : Nat) (c : Buffers) : Buffers :=
  { c with bPrevFree := update c.bPrevFree bh value }

def setNextFree (bh value : Nat) (c : Buffers) : Buffers :=
  { c with bNextFree := update c.bNextFree bh value }

def setCount (bh value : Nat) (c : Buffers) : Buffers :=
  { c with bCount := update c.bCount bh value }

def unlinkNext (bh : Nat) (c : Buffers) : Buffers :=
  if c.bNext bh ≠ 0 then c.setPrev (c.bNext bh) (c.bPrev bh) else c

def unlinkPrev (bh : Nat) (c : Buffers) : Buffers :=
  if c.bPrev bh ≠ 0 then c.setNext (c.bPrev bh) (c.bNext bh) else c

def unlinkHead (bh : Nat) (c : Buffers) : Buffers :=
  if c.hash (c.bDev bh) (c.bBlocknr bh) = bh then
    c.setHash (c.bDev bh) (c.bBlocknr bh) (c.bNext bh)
  else c

def unlinkFree (bh : Nat) (c : Buffers) : Buffers :=
  let c := c.setNextFree (c.bPrevFree bh) (c.bNextFree bh)
  let c := c.setPrevFree (c.bNextFree bh) (c.bPrevFree bh)
  { c with freeList := if c.freeList = bh then c.bNextFree bh else c.freeList }

def removeFromQueues (bh : Nat) (c : Buffers) : Buffers :=
  (((c.unlinkNext bh).unlinkPrev bh).unlinkHead bh).unlinkFree bh

def insertIntoFree (bh : Nat) (c : Buffers) : Buffers :=
  let c := c.setNextFree bh c.freeList
  let c := c.setPrevFree bh (c.bNextFree c.freeList)
  c.setNextFree (c.bPrevFree c.freeList) bh

def pushHash (bh : Nat) (c : Buffers) : Buffers :=
  let first := c.hash (c.bDev bh) (c.bBlocknr bh)
  ((c.setNext bh first).setHash (c.bDev bh) (c.bBlocknr bh) bh).setPrev first bh

def clearLinks (bh : Nat) (c : Buffers) : Buffers := (c.setPrev bh 0).setNext bh 0

def insertIntoHash (bh : Nat) (c : Buffers) : Buffers :=
  if (c.clearLinks bh).bDev bh ≠ 0 then (c.clearLinks bh).pushHash bh else c.clearLinks bh

def insertIntoQueues (bh : Nat) (c : Buffers) : Buffers := (c.insertIntoFree bh).insertIntoHash bh

def findFrom (c : Buffers) (dev block : Nat) : Nat → Nat → Option Nat
  | 0, _ => none
  | fuel + 1, bh =>
      if bh = 0 then some 0
      else if c.bDev bh = dev ∧ c.bBlocknr bh = block then some bh
      else findFrom c dev block fuel (c.bNext bh)

def findBuffer (fuel dev block : Nat) (c : Buffers) : Option Nat :=
  findFrom c dev block fuel (c.hash dev block)

def getHashBuffer (fuel dev block : Nat) (c : Buffers) : Option (Nat × Buffers) :=
  (findBuffer fuel dev block c).bind fun bh =>
    if bh = 0 then some (0, c)
    else
      let counted := c.setCount bh ((c.bCount bh + 1) % 256)
      if counted.bLock bh = 0 then some (bh, counted) else none

def badness (c : Buffers) (bh : Nat) : Nat := (c.bDirt bh * 2 + c.bBlocknr bh) % 2 ^ 32

def chooseFree (c : Buffers) : Nat → Nat → Nat → Option Nat
  | 0, _, _ => none
  | fuel + 1, item, bh =>
      let better := c.bCount item = 0 ∧ (bh = 0 ∨ c.badness item < c.badness bh)
      if better ∧ c.badness item = 0 then some item
      else
        let best := if better then item else bh
        if c.bNextFree item = c.freeList then some best
        else chooseFree c fuel (c.bNextFree item) best

def takeFree (bh : Nat) (c : Buffers) : Buffers :=
  { c with
    bCount := update c.bCount bh 1
    bDirt := update c.bDirt bh 0
    bUptodate := update c.bUptodate bh 0 }

def setBlock (dev block bh : Nat) (c : Buffers) : Buffers :=
  { c with
    bDev := update c.bDev bh (dev % 2 ^ 16)
    bBlocknr := update c.bBlocknr bh block }

def assign (dev block bh : Nat) (c : Buffers) : Buffers :=
  (((c.takeFree bh).removeFromQueues bh).setBlock dev block bh).insertIntoQueues bh

/-- A buffer without its links in the free list panics, which halts the machine. -/
def getblk (fuel dev block : Nat) (c : Buffers) : Option (Nat × Buffers) :=
  (c.getHashBuffer fuel dev block).bind fun found =>
    if found.1 ≠ 0 then some found
    else
      (c.chooseFree fuel c.freeList 0).bind fun bh =>
        if bh = 0 ∨ c.bLock bh ≠ 0 then none
        else if c.bPrevFree bh = 0 ∨ c.bNextFree bh = 0 then none
        else some (bh, c.assign dev block bh)

/-- So does a buffer that nobody holds. -/
def brelse (bh : Nat) (c : Buffers) : Option Buffers :=
  if bh = 0 then some c
  else if c.bLock bh ≠ 0 ∨ c.bCount bh = 0 then none
  else some (c.setCount bh ((c.bCount bh + 255) % 256))

def nrBuffers : Nat := 2 ^ 8 * 4096 / (36 + sectorSize)

/-- Where `buffer_init` puts the data of a buffer. -/
def dataArea (start bh : Nat) : Nat := start + 2 ^ 8 * 4096 - sectorSize * ((bh - start) / 36 + 1)

/-- `buffer_init` stores no `b_blocknr`: what the pages held before stays there. -/
def bufferInit (stale : Nat → Nat) (start : Nat) : Buffers where
  bData := dataArea start
  bBlocknr := stale
  bDev := fun _ => 0
  bUptodate := fun _ => 0
  bDirt := fun _ => 0
  bCount := fun _ => 0
  bLock := fun _ => 0
  bPrev := fun _ => 0
  bNext := fun _ => 0
  bPrevFree bh := if bh = start then start + 36 * (nrBuffers - 1) else bh - 36
  bNextFree bh := if bh = start + 36 * (nrBuffers - 1) then start else bh + 36
  hashBuffer := fun _ => 0
  freeList := start

def bufferInitOf (stale : Nat → Nat) (n start : Nat) : Buffers :=
  { bufferInit stale start with
    bPrevFree := fun bh => if bh = start then start + 36 * (n - 1) else bh - 36
    bNextFree := fun bh => if bh = start + 36 * (n - 1) then start else bh + 36 }

variable {c after : Buffers} {fuel dev block bh : Nat}

structure SameAreas (c after : Buffers) : Prop where
  data : after.bData = c.bData
  lock : after.bLock = c.bLock

lemma SameAreas.trans {middle : Buffers} (first : SameAreas c middle)
    (second : SameAreas middle after) : SameAreas c after :=
  ⟨second.data.trans first.data, second.lock.trans first.lock⟩

lemma sameAreas_ite {cond : Prop} [Decidable cond] (same : SameAreas c after) :
    SameAreas c (if cond then after else c) := by
  split_ifs
  · exact same
  · exact ⟨rfl, rfl⟩

lemma sameAreas_removeFromQueues : SameAreas c (c.removeFromQueues bh) := by
  have next : SameAreas c (c.unlinkNext bh) := sameAreas_ite ⟨rfl, rfl⟩
  have prev : SameAreas (c.unlinkNext bh) ((c.unlinkNext bh).unlinkPrev bh) :=
    sameAreas_ite ⟨rfl, rfl⟩
  have head : ∀ before : Buffers, SameAreas before (before.unlinkHead bh) :=
    fun _ => sameAreas_ite ⟨rfl, rfl⟩
  have free : ∀ before : Buffers, SameAreas before (before.unlinkFree bh) := fun _ => ⟨rfl, rfl⟩
  exact ((next.trans prev).trans (head _)).trans (free _)

lemma sameAreas_insertIntoFree : SameAreas c (c.insertIntoFree bh) := ⟨rfl, rfl⟩

lemma sameAreas_insertIntoHash : SameAreas c (c.insertIntoHash bh) := by
  have cleared : SameAreas c (c.clearLinks bh) := ⟨rfl, rfl⟩
  exact cleared.trans (sameAreas_ite ⟨rfl, rfl⟩)

lemma sameAreas_assign : SameAreas c (c.assign dev block bh) := by
  have taken : SameAreas c (c.takeFree bh) := ⟨rfl, rfl⟩
  have labelled : ∀ before : Buffers, SameAreas before (before.setBlock dev block bh) :=
    fun _ => ⟨rfl, rfl⟩
  exact ((taken.trans sameAreas_removeFromQueues).trans (labelled _)).trans
    (sameAreas_insertIntoFree.trans sameAreas_insertIntoHash)

lemma getHashBuffer_spec {found : Nat × Buffers}
    (ran : c.getHashBuffer fuel dev block = some found) :
    findBuffer fuel dev block c = some found.1 ∧ (found.1 ≠ 0 → c.bLock found.1 = 0 ∧
        found.2 = c.setCount found.1 ((c.bCount found.1 + 1) % 256)) := by
  obtain ⟨_, isFound, rest⟩ := bind_eq_some_iff.mp ran
  dsimp only at rest
  split_ifs at rest with isNull unlocked
  · cases rest
    exact ⟨isFound.trans (congrArg some isNull), fun ne0 => absurd rfl ne0⟩
  · cases rest
    exact ⟨isFound, fun _ => ⟨unlocked, rfl⟩⟩

section

variable (ran : c.getblk fuel dev block = some (bh, after))
include ran

lemma getblk_inv : bh ≠ 0 ∧ c.bLock bh = 0 ∧
      (findBuffer fuel dev block c = some bh ∧ after = c.setCount bh ((c.bCount bh + 1) % 256) ∨
        findBuffer fuel dev block c = some 0 ∧ c.chooseFree fuel c.freeList 0 = some bh ∧
          after = c.assign dev block bh) := by
  obtain ⟨found, isFound, rest⟩ := bind_eq_some_iff.mp ran
  obtain ⟨inChain, cnt⟩ := getHashBuffer_spec isFound
  by_cases isHit : found.1 = 0
  · rw [if_neg (not_not.mpr isHit)] at rest
    obtain ⟨_, choice, rest⟩ := bind_eq_some_iff.mp rest
    split_ifs at rest with refused _
    cases rest
    rw [not_or, not_not] at refused
    exact ⟨refused.1, refused.2, .inr ⟨isHit ▸ inChain, choice, rfl⟩⟩
  · rw [if_pos isHit] at rest
    cases rest
    obtain ⟨unlocked, isAfter⟩ := cnt isHit
    exact ⟨isHit, unlocked, .inl ⟨inChain, isAfter⟩⟩

lemma getblk_cases : bh ≠ 0 ∧ c.bLock bh = 0 ∧
      (findBuffer fuel dev block c = some bh ∧ after = c.setCount bh ((c.bCount bh + 1) % 256) ∨
        0 < fuel ∧ after = c.assign dev block bh) := by
  obtain ⟨ne0, unlocked, hit | ⟨-, choice, isAfter⟩⟩ := getblk_inv ran
  · exact ⟨ne0, unlocked, .inl hit⟩
  refine ⟨ne0, unlocked, .inr ⟨?_, isAfter⟩⟩
  cases fuel with
  | zero => cases choice
  | succ fuel => exact Nat.succ_pos fuel

lemma sameAreas_getblk : SameAreas c after := by
  obtain ⟨-, -, ⟨-, rfl⟩ | ⟨-, rfl⟩⟩ := getblk_cases ran
  · exact ⟨rfl, rfl⟩
  · exact sameAreas_assign

end

lemma brelse_eq (ne0 : bh ≠ 0) (unlocked : c.bLock bh = 0) (taken : c.bCount bh ≠ 0) :
    c.brelse bh = some (c.setCount bh ((c.bCount bh + 255) % 256)) := by
  unfold brelse
  rw [if_neg ne0, if_neg (not_or.mpr ⟨not_not.mpr unlocked, taken⟩)]

lemma brelse_spec (ne0 : bh ≠ 0) (ran : c.brelse bh = some after) :
    c.bCount bh ≠ 0 ∧ after = c.setCount bh ((c.bCount bh + 255) % 256) := by
  unfold brelse at ran
  rw [if_neg ne0] at ran
  split_ifs at ran with refused
  cases ran
  exact ⟨(not_or.mp refused).2, rfl⟩

lemma data_brelse (ran : c.brelse bh = some after) : after.bData = c.bData := by
  unfold brelse at ran
  split_ifs at ran
  · cases ran
    rfl
  · cases ran
    rfl

/-- A block can be had and given back, or its caller does not return. -/
lemma getblk_brelse_cases (fuel dev block : Nat) (c : Buffers) :
    (∀ bh taken, c.getblk fuel dev block = some (bh, taken) → taken.brelse bh = none) ∨
      ∃ bh taken released, c.getblk fuel dev block = some (bh, taken) ∧
        taken.brelse bh = some released := by
  cases isTaken : c.getblk fuel dev block with
  | none => exact .inl nofun
  | some found =>
    obtain ⟨bh, taken⟩ := found
    cases freed : taken.brelse bh with
    | none =>
      left
      rintro _ _ ⟨⟩
      exact freed
    | some released => exact .inr ⟨bh, taken, released, rfl, freed⟩

structure Cached (fuel dev block bh : Nat) (c : Buffers) : Prop where
  found : findBuffer fuel dev block c = some bh
  nonnull : bh ≠ 0
  unlocked : c.bLock bh = 0

lemma findFrom_setCount (value start : Nat) :
    findFrom (c.setCount bh value) dev block fuel start = findFrom c dev block fuel start := by
  induction fuel generalizing start with
  | zero => rfl
  | succ fuel ih =>
    unfold findFrom
    rw [ih]
    rfl

lemma Cached.setCount (cached : Cached fuel dev block bh c) (other value : Nat) :
    Cached fuel dev block bh (c.setCount other value) :=
  ⟨(findFrom_setCount value _).trans cached.found, cached.nonnull, cached.unlocked⟩

lemma Cached.getblk (cached : Cached fuel dev block bh c) :
    c.getblk fuel dev block = some (bh, c.setCount bh ((c.bCount bh + 1) % 256)) := by
  unfold Buffers.getblk getHashBuffer
  rw [cached.found]
  simp only [bind_some, if_neg cached.nonnull]
  rw [if_pos (show (c.setCount bh _).bLock bh = 0 from cached.unlocked)]
  exact if_pos cached.nonnull

lemma insertIntoHash_heads (device : c.bDev bh ≠ 0) :
    (c.insertIntoHash bh).hash (c.bDev bh) (c.bBlocknr bh) = bh ∧
      (c.insertIntoHash bh).bDev = c.bDev ∧ (c.insertIntoHash bh).bBlocknr = c.bBlocknr := by
  have pushed : c.insertIntoHash bh = (c.clearLinks bh).pushHash bh := if_pos device
  rw [pushed]
  simp only [pushHash, clearLinks, setPrev, setNext, setHash, hash, update_self, and_self]

lemma assign_heads (device : dev ≠ 0) (short : dev < 2 ^ 16) :
    (c.assign dev block bh).hash dev block = bh ∧
      (c.assign dev block bh).bDev bh = dev ∧ (c.assign dev block bh).bBlocknr bh = block := by
  unfold assign insertIntoQueues
  generalize (c.takeFree bh).removeFromQueues bh = removed
  have onDev : ((removed.setBlock dev block bh).insertIntoFree bh).bDev bh = dev :=
    (update_self _ _ _).trans (Nat.mod_eq_of_lt short)
  have isBlock : ((removed.setBlock dev block bh).insertIntoFree bh).bBlocknr bh = block :=
    update_self _ _ _
  generalize (removed.setBlock dev block bh).insertIntoFree bh = ins at onDev isBlock ⊢
  obtain ⟨heads, sameDev, sameBlock⟩ := insertIntoHash_heads (onDev.symm ▸ device)
  rw [onDev, isBlock] at heads
  exact ⟨heads, (congrFun sameDev bh).trans onDev, (congrFun sameBlock bh).trans isBlock⟩

lemma cached_getblk (device : dev ≠ 0) (short : dev < 2 ^ 16)
    (ran : c.getblk fuel dev block = some (bh, after)) : Cached fuel dev block bh after := by
  obtain ⟨ne0, unlocked, ⟨found, rfl⟩ | ⟨pos, rfl⟩⟩ := getblk_cases ran
  · exact Cached.setCount ⟨found, ne0, unlocked⟩ _ _
  refine ⟨?_, ne0, (congrFun sameAreas_assign.lock bh).trans unlocked⟩
  obtain ⟨head, onDev, isBlock⟩ := @assign_heads c dev block bh device short
  obtain ⟨_, rfl⟩ := Nat.exists_eq_add_of_lt pos
  unfold findBuffer
  rw [head, Nat.zero_add]
  unfold findFrom
  rw [if_neg ne0, if_pos ⟨onDev, isBlock⟩]

end Buffers

end PrettyOS.Fs
