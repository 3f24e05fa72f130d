import PrettyOS.Mm.PageTable

/-!
Contract: `paging_init` of `mm/pgtable.c`, for every memory size.

Every store is recorded with its address. The directory pointer is not advanced by the loops, and
the regions do not depend on the memory size.
-/

namespace PrettyOS.Mm

open Lib (Byte store store_of_outside word32 word32_congr word32_store)
open List Nat

def highMemEntry : Nat := 0x300
def pgdEntrys : Nat := 1024

def mkEntry (addr prot : Nat) : Nat := addWord addr pageOffset ||| prot

def pgDir : Nat := (allocLowMem (pgdEntrys * 4) 0x600000).1

def firstTable : Nat := (allocLowMem (highMemEntry * 4) (allocLowMem (pgdEntrys * 4) 0x600000).2).1

def memorySize (memSize : UInt32) : Nat := memSize.toNat &&& 0xfffff000

structure TableFill where
  mem : Nat → Byte
  stores : List Nat
  pgTable : Nat
  addr : Nat

def TableFill.put (slot value : Nat) (s : TableFill) : TableFill :=
  { s with mem := store s.mem slot 4 value, stores := s.stores ++ [slot] }

def fillEntry (s : TableFill) : TableFill :=
  { s.put s.pgTable (mkEntry s.addr pageShared) with
    pgTable := addWord s.pgTable 4
    addr := addWord s.addr pageSize }

def fillTable (memory : Nat) : (left : Nat) → TableFill → Bool × TableFill
  | 0, s => (false, s)
  | left + 1, s => if s.addr < memory then fillTable memory left (fillEntry s) else (true, s)

def fillDirectory (memory : Nat) : (left : Nat) → TableFill → TableFill
  | 0, s => s
  | left + 1, s =>
      let filled := fillTable memory ptrsPerPte (s.put pgDir (mkEntry s.pgTable pageShared))
      if filled.1 then filled.2 else fillDirectory memory left filled.2

def pagingInit (memSize : UInt32) (mem : Nat → Byte) : Nat × TableFill :=
  let s : TableFill := { mem := mem, stores := [], pgTable := firstTable, addr := 0 }
  if pgDir = 0 ∨ firstTable = 0 then
    (wordSize - 1, s)
  else
    (0, fillDirectory (memorySize memSize) (highMemEntry + 1) s)

structure MapsMemory (memory : Nat) (s : TableFill) : Prop where
  mapped : ∀ a < memory, a % pageSize = 0 → ∃ table,
    word32 s.mem (pgDir + 4 * (a / 2 ^ 22)) = mkEntry table pageShared ∧
      word32 s.mem (table + 4 * (a / 2 ^ 12 % 1024)) = mkEntry a pageShared
  inside : ∀ slot ∈ s.stores, pgDir ≤ slot ∧ slot + 4 ≤ pgDir + pgdEntrys * 4 ∨
      firstTable ≤ slot ∧ slot + 4 ≤ firstTable + highMemEntry * 4
  below : ∀ slot ∈ s.stores, slot + 4 ≤ lowMemAfterPaging

section Loops

variable {memory left slot k : Nat} {s : TableFill}

lemma firstTable_eq : firstTable = 0x602000 := by decide

lemma mkEntry_lt (addr : Nat) : mkEntry addr pageShared < 2 ^ 32 :=
  or_lt_two_pow (mod_lt _ (by decide)) (by decide)

lemma fillTable_of_lt (before : s.addr < memory) :
    fillTable memory (left + 1) s = fillTable memory left (fillEntry s) :=
  if_pos before

lemma fillTable_of_le (hit : memory ≤ s.addr) : fillTable memory (left + 1) s = (true, s) :=
  if_neg (Nat.not_lt.mpr hit)

def TableFill.Room (left : Nat) (s : TableFill) : Prop :=
  s.pgTable + 4 * left < wordSize ∧ s.addr + pageSize * left < wordSize

section

variable (room : s.Room (left + 1))
include room

lemma pgTable_fillEntry : (fillEntry s).pgTable = s.pgTable + 4 :=
  mod_eq_of_lt (by have := room.1; omega)

lemma addr_fillEntry : (fillEntry s).addr = s.addr + pageSize :=
  mod_eq_of_lt (by have := room.2; rw [mul_succ] at this; omega)

lemma fillEntry_add (k : Nat) : (fillEntry s).pgTable + 4 * k = s.pgTable + 4 * (k + 1) ∧
      (fillEntry s).addr + pageSize * k = s.addr + pageSize * (k + 1) := by
  rw [pgTable_fillEntry room, addr_fillEntry room, mul_succ, mul_succ]
  omega

lemma room_fillEntry : (fillEntry s).Room left := by
  unfold TableFill.Room
  rw [pgTable_fillEntry room, addr_fillEntry room]
  have := room.1
  have := room.2
  rw [mul_succ] at this
  omega

end

lemma fillTable_stores_subset : s.stores ⊆ (fillTable memory left s).2.stores := by
  induction left generalizing s with
  | zero => exact List.Subset.refl _
  | succ left ih =>
    by_cases before : s.addr < memory
    · rw [fillTable_of_lt before]
      intro slot stored
      exact ih (mem_append_left _ stored)
    · rw [fillTable_of_le (not_lt.mp before)]
      exact List.Subset.refl _

section

variable (room : s.Room left)
include room

lemma stores_fillTable {n : Nat} (pages : memory ≤ s.addr + pageSize * n)
    (stored : slot ∈ (fillTable memory left s).2.stores) :
    slot ∈ s.stores ∨ ∃ j < n, slot = s.pgTable + 4 * j := by
  induction left generalizing s n with
  | zero => exact .inl stored
  | succ left ih =>
    by_cases before : s.addr < memory
    · rw [fillTable_of_lt before] at stored
      cases n with
      | zero => omega
      | succ n =>
        rw [← (fillEntry_add room n).2] at pages
        cases ih (room_fillEntry room) pages stored with
        | inl earlier =>
          cases mem_append.mp earlier with
          | inl old => exact .inl old
          | inr new => exact .inr ⟨0, succ_pos n, mem_singleton.mp new⟩
        | inr later =>
          obtain ⟨j, inside, same⟩ := later
          exact .inr ⟨j + 1, succ_lt_succ inside, same.trans (fillEntry_add room j).1⟩
    · rw [fillTable_of_le (not_lt.mp before)] at stored
      exact .inl stored

lemma word32_fillTable_below (below : slot + 4 ≤ s.pgTable) :
    word32 (fillTable memory left s).2.mem slot = word32 s.mem slot := by
  induction left generalizing s with
  | zero => rfl
  | succ left ih =>
    by_cases before : s.addr < memory
    · rw [fillTable_of_lt before, ih (room_fillEntry room)
        (by rw [pgTable_fillEntry room]; omega)]
      exact word32_congr fun k small => store_of_outside (by omega)
    · rw [fillTable_of_le (not_lt.mp before)]

lemma fillTable_entry (round : k < left) (before : s.addr + pageSize * k < memory) :
    s.pgTable + 4 * k ∈ (fillTable memory left s).2.stores ∧
      word32 (fillTable memory left s).2.mem (s.pgTable + 4 * k) =
        mkEntry (s.addr + pageSize * k) pageShared := by
  induction left generalizing s k with
  | zero => omega
  | succ left ih =>
    rw [fillTable_of_lt (by omega)]
    cases k with
    | zero =>
      rw [mul_zero, mul_zero, add_zero, add_zero, word32_fillTable_below (room_fillEntry room)
          (le_of_eq (pgTable_fillEntry room).symm)]
      refine ⟨fillTable_stores_subset ?_, word32_store (mkEntry_lt _)⟩
      exact mem_append_right _ (mem_singleton_self _)
    | succ k =>
      obtain ⟨slots, addrs⟩ := fillEntry_add room k
      rw [← addrs] at before
      rw [← slots, ← addrs]
      exact ih (room_fillEntry room) (by omega) before

lemma fillTable_returns (round : k < left)
    (pages : memory ≤ s.addr + pageSize * k) : (fillTable memory left s).1 = true := by
  induction left generalizing s k with
  | zero => omega
  | succ left ih =>
    by_cases before : s.addr < memory
    · rw [fillTable_of_lt before]
      cases k with
      | zero => omega
      | succ k =>
        rw [← (fillEntry_add room k).2] at pages
        exact ih (room_fillEntry room) (by omega) pages
    · rw [fillTable_of_le (not_lt.mp before)]

end

lemma fillDirectory_stores_subset : s.stores ⊆ (fillDirectory memory left s).stores := by
  induction left generalizing s with
  | zero => exact List.Subset.refl _
  | succ left ih =>
    have first : s.stores ⊆ (fillTable memory ptrsPerPte
        (s.put pgDir (mkEntry s.pgTable pageShared))).2.stores := by
      intro slot stored
      exact fillTable_stores_subset (mem_append_left _ stored)
    rw [fillDirectory]
    split
    · exact first
    · exact List.Subset.trans first ih

def firstFill (mem : Nat → Byte) : TableFill :=
  TableFill.put pgDir (mkEntry firstTable pageShared)
    { mem := mem, stores := [], pgTable := firstTable, addr := 0 }

section

variable (mem : Nat → Byte)
include mem

lemma room_firstFill : (firstFill mem).Room ptrsPerPte := by
  constructor
  · show firstTable + 4 * ptrsPerPte < wordSize
    decide
  · show 0 + pageSize * ptrsPerPte < wordSize
    decide

lemma addr_firstFill : (firstFill mem).addr = 0 := rfl

lemma pgTable_firstFill : (firstFill mem).pgTable = firstTable := rfl

lemma stores_firstFill : (firstFill mem).stores = [pgDir] := rfl

lemma word32_firstFill : word32 (firstFill mem).mem pgDir = mkEntry firstTable pageShared :=
  word32_store (mkEntry_lt _)

end

lemma pageSize_mul_highMemEntry : pageSize * highMemEntry = 0x300000 := by decide

lemma pagingInit_eq (memSize : UInt32) (mem : Nat → Byte) :
    (pagingInit memSize mem).2 =
      let filled := fillTable (memorySize memSize) ptrsPerPte (firstFill mem)
      if filled.1 then filled.2 else fillDirectory (memorySize memSize) highMemEntry filled.2 := by
  rw [pagingInit, if_neg (by decide)]
  rfl

variable {memSize : UInt32}

lemma mem_stores_pagingInit (large : 0x300000 < memorySize memSize)
    (mem : Nat → Byte) : firstTable + 4 * highMemEntry ∈ (pagingInit memSize mem).2.stores := by
  have stored : firstTable + 4 * highMemEntry ∈
      (fillTable (memorySize memSize) ptrsPerPte (firstFill mem)).2.stores :=
    (fillTable_entry (room_firstFill mem) (by decide) (by
      rw [addr_firstFill, zero_add, pageSize_mul_highMemEntry]
      exact large)).1
  rw [pagingInit_eq]
  dsimp only
  split
  · exact stored
  · exact fillDirectory_stores_subset stored

section

variable (small : memorySize memSize ≤ 0x300000)
include small

lemma pagingInit_of_le (mem : Nat → Byte) : (pagingInit memSize mem).2 =
      (fillTable (memorySize memSize) ptrsPerPte (firstFill mem)).2 := by
  have ran : (fillTable (memorySize memSize) ptrsPerPte (firstFill mem)).1 = true :=
    fillTable_returns (k := highMemEntry) (room_firstFill mem) (by decide) (by
      rw [addr_firstFill, zero_add, pageSize_mul_highMemEntry]
      exact small)
  rw [pagingInit_eq]
  exact if_pos ran

lemma stores_pagingInit_of_le
    {mem : Nat → Byte} (stored : slot ∈ (pagingInit memSize mem).2.stores) :
    slot = pgDir ∨ ∃ j < highMemEntry, slot = firstTable + 4 * j := by
  have pages : memorySize memSize ≤ (firstFill mem).addr + pageSize * highMemEntry := by
    rw [addr_firstFill, zero_add, pageSize_mul_highMemEntry]
    exact small
  rw [pagingInit_of_le small] at stored
  have either := stores_fillTable (room_firstFill mem) pages stored
  rw [stores_firstFill, pgTable_firstFill, mem_singleton] at either
  exact either

lemma word32_pgDir_pagingInit (mem : Nat → Byte) :
    word32 (pagingInit memSize mem).2.mem pgDir = mkEntry firstTable pageShared := by
  rw [pagingInit_of_le small,
    word32_fillTable_below (room_firstFill mem) (by rw [pgTable_firstFill]; decide),
    word32_firstFill]

lemma word32_firstTable_pagingInit
    (mem : Nat → Byte) (inTable : k < ptrsPerPte) (inMemory : pageSize * k < memorySize memSize) :
    word32 (pagingInit memSize mem).2.mem (firstTable + 4 * k) =
      mkEntry (pageSize * k) pageShared := by
  have before : (firstFill mem).addr + pageSize * k < memorySize memSize := by
    rw [addr_firstFill, zero_add]
    exact inMemory
  have entry := (fillTable_entry (room_firstFill mem) inTable before).2
  rw [pgTable_firstFill, addr_firstFill, zero_add] at entry
  rw [pagingInit_of_le small]
  exact entry

end

/-- `paging_init` maps memory inside its regions exactly for the machines with at most 3 MiB: the
second region has 768 entries, one for each page of them. -/
theorem mapsMemory_iff (memSize : UInt32) (mem : Nat → Byte) :
    MapsMemory (memorySize memSize) (pagingInit memSize mem).2 ↔
      memorySize memSize ≤ 0x300000 := by
  constructor
  · intro maps
    apply not_lt.mp
    intro large
    have inside := maps.inside _ (mem_stores_pagingInit large mem)
    exact absurd inside (by decide)
  · intro small
    constructor
    · intro a inMemory aligned
      rw [pageSize] at aligned
      have inTable : a / 2 ^ 12 % 1024 < ptrsPerPte := mod_lt _ (by decide)
      have page : pageSize * (a / 2 ^ 12 % 1024) = a := by
        rw [pageSize]
        omega
      refine ⟨firstTable, ?_, ?_⟩
      · rw [show a / 2 ^ 22 = 0 by omega, mul_zero, add_zero, word32_pgDir_pagingInit small]
      · rw [word32_firstTable_pagingInit small mem inTable (by rw [page]; exact inMemory), page]
    · intro slot stored
      cases stores_pagingInit_of_le small stored with
      | inl directory =>
        rw [directory]
        exact .inl (by decide)
      | inr entry =>
        obtain ⟨j, inTable, same⟩ := entry
        exact .inr (by omega)
    · intro slot stored
      rw [show lowMemAfterPaging = 0x603c00 by decide]
      cases stores_pagingInit_of_le small stored with
      | inl directory =>
        rw [directory]
        decide
      | inr entry =>
        obtain ⟨j, inTable, same⟩ := entry
        rw [same, firstTable_eq]
        rw [highMemEntry] at inTable
        omega

/-- A machine with 4 MiB and blank memory: the last entries of its only table are stored behind
the region that was requested for it. -/
theorem not_mapsMemory_fourMiB :
    firstTable + 4 * highMemEntry ∈ (pagingInit 0x400000 fun _ => 0).2.stores ∧
      ¬ MapsMemory (memorySize 0x400000) (pagingInit 0x400000 fun _ => 0).2 := by
  have stored := @mem_stores_pagingInit 0x400000 (by decide) fun _ => 0
  refine ⟨stored, ?_⟩
  intro maps
  exact absurd (maps.inside _ stored) (by decide)

end Loops

end PrettyOS.Mm
