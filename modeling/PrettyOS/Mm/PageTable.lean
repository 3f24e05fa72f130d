import PrettyOS.Lib.Words
import PrettyOS.Mm.FrameInit
import PrettyOS.Mm.Mmap
import PrettyOS.Mm.PageRequests

/-!
Contract: the page-table walk of `mm/pgtable.c`, compared with the walk of the processor.

An entry is the `unsigned long` at its address. `mem_map` is an array of pointers, so a frame
number gives the address of a `struct page`, and the page's `address` field is kept by that
address. Calls that leave the file are recorded in order.
-/

namespace PrettyOS.Mm

open Lib (Byte store word32)

def pteShift : Nat := 12
def pmdShift : Nat := 22

def pgdSize : Nat := 2 ^ 22

def ptrsPerPte : Nat := 1024
def ptrsPerPmd : Nat := 1

def pagePresent : Nat := 0x001
def pageBad : Nat := 0x800
def pageTable : Nat := 0x017
def pageShared : Nat := 0x007

structure PageTables where
  mem : Nat → Byte
  memMap : Nat → Nat
  address : Nat → Nat
  mainMemoryEnd : Nat

inductive PagingCall where
  | freePage (page : Nat)
  | swapFree (entry : Nat)
  | badPmdInPteAlloc (entry : Nat)
  | badPmdInUnmap (entry : Nat)
deriving DecidableEq, Repr

structure Paging where
  tables : PageTables
  cr3 : Nat
  rss : Nat
  calls : List PagingCall

namespace Paging

def call (made : PagingCall) (s : Paging) : Paging :=
  { s with calls := s.calls ++ [made] }

def setEntry (slot value : Nat) (s : Paging) : Paging :=
  { s with tables := { s.tables with mem := store s.tables.mem slot 4 value } }

end Paging

namespace PageTables

def entry (slot : Nat) (tables : PageTables) : Nat := word32 tables.mem slot

def entryPage (value : Nat) (tables : PageTables) : Nat := tables.memMap (mapNr value)

end PageTables

def entryNone (value : Nat) : Prop := value = 0

instance (value : Nat) : Decidable (entryNone value) := inferInstanceAs (Decidable (_ = _))

def ptePresent (value : Nat) : Prop := value &&& pagePresent ≠ 0

instance (value : Nat) : Decidable (ptePresent value) := inferInstanceAs (Decidable (_ ≠ _))

def pmdBad (value : Nat) (tables : PageTables) : Prop :=
  value % pageSize ≠ pageTable ∨ tables.mainMemoryEnd < value

instance (value : Nat) (tables : PageTables) : Decidable (pmdBad value tables) :=
  inferInstanceAs (Decidable (_ ∨ _))

def pgdOffset (cr3 addr : Nat) : Nat := addWord cr3 (addr / 2 ^ pmdShift)

def pmdOffset (pgd addr : Nat) (tables : PageTables) : Nat :=
  addWord (tables.address (tables.entryPage (tables.entry pgd)))
    ((if addr > pmdShift then 1 else 0) &&& (ptrsPerPmd - 1))

def pteOffset (pmd addr : Nat) (tables : PageTables) : Nat :=
  addWord (tables.address (tables.entryPage (tables.entry pmd)))
    ((if addr > pteShift then 1 else 0) &&& (ptrsPerPte - 1))

def pmdAlloc (pgd _addr : Nat) : Nat := pgd

/-- `get_free_page(GFP_KERNEL)`: NULL, and `memset` stores nothing behind NULL. -/
def getFreePageKernel (s : Paging) : Nat × Paging := (0, s)

theorem getFreePage_gfpKernel (s : Paging) (buddy : Buddy) :
    getFreePage gfpKernel s.tables.mem buddy =
      some ((getFreePageKernel s).1, (getFreePageKernel s).2.tables.mem, buddy) := rfl

def pteOfPmd (pmd index : Nat) (s : Paging) : Nat × Paging :=
  let value := s.tables.entry pmd
  if pmdBad value s.tables then
    (0, (s.call (.badPmdInPteAlloc value)).setEntry pmd (pageTable ||| pageBad))
  else
    (addWord (s.tables.entryPage value) (sizeofPage * index), s)

def pteAlloc (pmd addr : Nat) (s : Paging) : Nat × Paging :=
  let index := addr / 2 ^ pteShift % ptrsPerPte
  if entryNone (s.tables.entry pmd) then
    let (page, s) := getFreePageKernel s
    if entryNone (s.tables.entry pmd) then
      if page ≠ 0 then
        (addWord page (4 * index), s.setEntry pmd (pageTable ||| page))
      else
        (0, s.setEntry pmd (pageTable ||| pageBad))
    else
      pteOfPmd pmd index (s.call (.freePage (s.tables.entryPage (s.tables.entry page))))
  else
    pteOfPmd pmd index s

def directorySlot (cr3 a : Nat) : Nat := addWord cr3 (4 * (a / 2 ^ 22))

def tableOf (value : Nat) : Nat := value / pageSize * pageSize

def tableSlot (value a : Nat) : Nat := addWord (tableOf value) (4 * (a / 2 ^ 12 % 1024))

structure WalksAsHardware (cr3 pmd a : Nat) (s : Paging) : Prop where
  directory : pgdOffset cr3 a = directorySlot cr3 a
  returned : (pteAlloc pmd a s).1 ≠ 0
  filled : (pteAlloc pmd a s).1 = tableSlot (s.tables.entry pmd) a
  consulted : pteOffset pmd a s.tables = tableSlot (s.tables.entry pmd) a

section Walk

variable {cr3 pmd a : Nat} {s : Paging}

lemma entry_lt (slot : Nat) (tables : PageTables) : tables.entry slot < wordSize := by
  unfold PageTables.entry word32 Lib.word16 wordSize
  omega

lemma not_entryNone_of_ptePresent {value : Nat} (here : ptePresent value) : ¬ entryNone value := by
  intro none
  apply here
  rw [show value = 0 from none, Nat.zero_and]

lemma pteAlloc_of_present (here : ptePresent (s.tables.entry pmd)) :
    (pteAlloc pmd a s).1 =
      if pmdBad (s.tables.entry pmd) s.tables then 0
      else
        addWord (s.tables.entryPage (s.tables.entry pmd))
          (sizeofPage * (a / 2 ^ 12 % 1024)) := by
  rw [pteAlloc, if_neg (not_entryNone_of_ptePresent here), pteOfPmd]
  split
  · rfl
  · rfl

lemma addWord_left_inj {x y : Nat} (base : Nat) (left : x < wordSize) (right : y < wordSize) :
    addWord base x = addWord base y ↔ x = y := by
  constructor
  · intro same
    exact Nat.ModEq.eq_of_lt_of_lt (Nat.ModEq.add_left_cancel' base same) left right
  · intro same
    rw [same]

lemma pgdOffset_eq_iff (small : a < wordSize) :
    pgdOffset cr3 a = directorySlot cr3 a ↔ a < pgdSize := by
  have index : a / 2 ^ pmdShift < 1024 := Nat.div_lt_of_lt_mul small
  rw [pgdOffset, directorySlot, addWord_left_inj _ (by rw [wordSize]; omega)
    (by rw [wordSize, ← pmdShift.eq_1]; omega)]
  unfold pmdShift pgdSize at *
  omega

lemma pteOffset_eq_iff
    (desc : s.tables.address (s.tables.entryPage (s.tables.entry pmd)) =
      tableOf (s.tables.entry pmd)) :
    pteOffset pmd a s.tables = tableSlot (s.tables.entry pmd) a ↔ a ≤ 12 := by
  have index : a / 2 ^ 12 % 1024 < 1024 := Nat.mod_lt _ (by decide)
  rw [pteOffset, tableSlot, desc]
  by_cases above : a > pteShift
  · have offset : 1 &&& (ptrsPerPte - 1) = 1 := rfl
    rw [if_pos above, offset, addWord_left_inj _ (by decide) (by rw [wordSize]; omega)]
    rw [pteShift] at above
    omega
  have offset : 0 &&& (ptrsPerPte - 1) = 0 := rfl
  rw [if_neg above, offset, addWord_left_inj _ (by decide) (by rw [wordSize]; omega)]
  rw [pteShift] at above
  omega

lemma tableSlot_of_le {value : Nat} (below : value < wordSize) (first : a ≤ 12) :
    tableSlot value a = tableOf value := by
  unfold tableSlot addWord tableOf pageSize wordSize at *
  omega

/-- For a present entry whose frame has its own address in its descriptor, as `init_mem` writes
it, the walk is the hardware's exactly for the first thirteen addresses, and there only if the
entry has the flags and the range `pmd_bad` asks for and the page descriptor happens to stand at
the start of the table. -/
theorem walksAsHardware_iff (small : a < wordSize) (present : ptePresent (s.tables.entry pmd))
    (described : s.tables.address (s.tables.entryPage (s.tables.entry pmd)) =
      tableOf (s.tables.entry pmd)) :
    WalksAsHardware cr3 pmd a s ↔ a ≤ 12 ∧ ¬ pmdBad (s.tables.entry pmd) s.tables ∧
        s.tables.entryPage (s.tables.entry pmd) % wordSize = tableOf (s.tables.entry pmd) ∧
        tableOf (s.tables.entry pmd) ≠ 0 := by
  have allocated := pteAlloc_of_present (a := a) present
  -- in the first page the index is zero, so both sides are the start of something
  have start : a ≤ 12 → addWord (s.tables.entryPage (s.tables.entry pmd))
      (sizeofPage * (a / 2 ^ 12 % 1024)) = s.tables.entryPage (s.tables.entry pmd) % wordSize := by
    intro first
    rw [show a / 2 ^ 12 % 1024 = 0 by omega]
    rfl
  have slot := tableSlot_of_le (a := a) (entry_lt pmd s.tables)
  constructor
  · intro walks
    have first : a ≤ 12 := (pteOffset_eq_iff described).mp walks.consulted
    have good : ¬ pmdBad (s.tables.entry pmd) s.tables := by
      intro bad
      rw [if_pos bad] at allocated
      exact walks.returned allocated
    rw [if_neg good, start first] at allocated
    have filled := walks.filled
    rw [allocated, slot first] at filled
    exact ⟨first, good, filled, by rw [← filled, ← allocated]; exact walks.returned⟩
  · intro ⟨first, good, placed, nonzero⟩
    rw [if_neg good, start first, placed] at allocated
    exact
      { directory := (pgdOffset_eq_iff small).mpr (by rw [pgdSize]; omega)
        returned := by rw [allocated]; exact nonzero
        filled := by rw [allocated, slot first]
        consulted := (pteOffset_eq_iff described).mpr first }

def oneEntry (pages slot value : Nat) : Paging where
  tables :=
    { mem := store (fun _ => 0) slot 4 value
      memMap := fun frame => pages + sizeofPage * frame
      address := fun page => (page - pages) / sizeofPage * pageSize
      mainMemoryEnd := 0x2000000 }
  cr3 := 0x600000
  rss := 0
  calls := []

lemma entry_oneEntry {pages slot value : Nat} (small : value < 2 ^ 32) :
    (oneEntry pages slot value).tables.entry slot = value :=
  Lib.word32_store small

/-- Address 0, with the table in frame 256 and the page array placed so that the descriptor of
that frame is its first bytes. -/
theorem walksAsHardware_iff_first :
    WalksAsHardware 0x600000 0x600000 0 (oneEntry (4040 * 256) 0x600000 0x100017) := by
  have value : (oneEntry (4040 * 256) 0x600000 0x100017).tables.entry 0x600000 = 0x100017 :=
    entry_oneEntry (by decide)
  apply (walksAsHardware_iff (by decide) (by rw [value]; decide) (by rw [value]; rfl)).mpr
  rw [value]
  exact ⟨by decide, by rw [pmdBad]; decide, by decide, by decide⟩

/-- Address 4096 and a good entry for a table at `0x602000`, the page array where `init_mem` of
such a machine puts it: the processor uses the entry at `0x602004`, `pte_offset` answers
`0x602001` and `pte_alloc` an address inside the page array. -/
theorem not_walksAsHardware_second :
    ptePresent ((oneEntry 0x60cc00 0x600000 0x602017).tables.entry 0x600000) ∧
      tableSlot ((oneEntry 0x60cc00 0x600000 0x602017).tables.entry 0x600000) 0x1000 = 0x602004 ∧
      pteOffset 0x600000 0x1000 (oneEntry 0x60cc00 0x600000 0x602017).tables = 0x602001 ∧
      (pteAlloc 0x600000 0x1000 (oneEntry 0x60cc00 0x600000 0x602017)).1 = 0x621ca8 ∧
      ¬ WalksAsHardware 0x600000 0x600000 0x1000 (oneEntry 0x60cc00 0x600000 0x602017) := by
  have value : (oneEntry 0x60cc00 0x600000 0x602017).tables.entry 0x600000 = 0x602017 :=
    entry_oneEntry (by decide)
  have present : ptePresent ((oneEntry 0x60cc00 0x600000 0x602017).tables.entry 0x600000) := by
    rw [value]
    decide
  have consulted : pteOffset 0x600000 0x1000 (oneEntry 0x60cc00 0x600000 0x602017).tables =
      0x602001 := by
    rw [pteOffset, value]
    rfl
  have good : ¬ pmdBad 0x602017 (oneEntry 0x60cc00 0x600000 0x602017).tables := by
    rw [pmdBad]
    decide
  have slot : tableSlot 0x602017 0x1000 = 0x602004 := rfl
  refine ⟨present, by rw [value, slot], consulted, ?_, ?_⟩
  · rw [pteAlloc_of_present present, value, if_neg good]
    rfl
  intro walks
  have same := walks.consulted
  rw [consulted, value, slot] at same
  exact absurd same (by decide)

end Walk

end PrettyOS.Mm
