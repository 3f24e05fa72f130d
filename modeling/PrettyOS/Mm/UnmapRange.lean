import PrettyOS.Mm.PageTable

/-!
Contract: `unmap_page_range` of `mm/pgtable.c`: which entries its three loops visit, what it
frees, and when that is the unmapping of the range.

`pte_clear`, `pmd_clear` and `pgd_clear` take their entry by value and clear that copy, so no
loop stores into a table. The loops take `fuel`, and `none` is a loop that did not end.
-/

namespace PrettyOS.Mm

open Lib (word32 store)
open Nat List

def forgetPte (pte : Nat) (s : Paging) : Paging :=
  if entryNone pte then
    s
  else if ptePresent pte then
    let freed := s.call (.freePage (s.tables.entryPage pte))
    if freed.rss ≤ 0 then freed else { freed with rss := freed.rss - 1 }
  else
    s.call (.swapFree pte)

def forgetPtes : (fuel pte addr last : Nat) → Paging → Option Paging
  | 0, _, _, _, _ => none
  | fuel + 1, pte, addr, last, s =>
      let page := s.tables.entry pte
      let forgot := forgetPte page s
      let addr := addWord addr pageSize
      let pte := addWord pte 4
      if addr < last then forgetPtes fuel pte addr last forgot else some forgot

def unmapPteRange (fuel pmd addr size : Nat) (s : Paging) : Option Paging :=
  let value := s.tables.entry pmd
  if entryNone value then
    some s
  else if pmdBad value s.tables then
    some (s.call (.badPmdInUnmap value))
  else
    let pte := pteOffset pmd addr s.tables
    let addr := addr % pgdSize
    let last := addWord addr size
    let last := if last ≥ pgdSize then pgdSize else last
    forgetPtes fuel pte addr last s

def unmapPmds (rounds : Nat) : (fuel pmd addr last : Nat) → Paging → Option Paging
  | 0, _, _, _, _ => none
  | fuel + 1, pmd, addr, last, s => do
      let unmapped ← unmapPteRange rounds pmd addr (subWord last addr) s
      let addr := addWord addr pgdSize / pgdSize * pgdSize
      let pmd := addWord pmd 4
      if addr < last then unmapPmds rounds fuel pmd addr last unmapped else some unmapped

def unmapPmdRange (fuel pgd addr size : Nat) (s : Paging) : Option Paging :=
  if entryNone (s.tables.entry pgd) then
    some s
  else
    let pmd := pmdOffset pgd addr s.tables
    let addr := addr % pgdSize
    let last := addWord addr size
    let last := if last > pgdSize then pgdSize else last
    unmapPmds fuel fuel pmd addr last s

def unmapPgds (rounds : Nat) : (fuel pgd addr last : Nat) → Paging → Option Paging
  | 0, _, _, _, _ => none
  | fuel + 1, pgd, addr, last, s => do
      let unmapped ← unmapPmdRange rounds pgd addr (subWord last addr) s
      let addr := addWord addr pgdSize / pgdSize * pgdSize
      let pgd := addWord pgd 4
      if addr < last then unmapPgds rounds fuel pgd addr last unmapped else some unmapped

def unmapPageRange (fuel addr size : Nat) (s : Paging) : Option (Int × Paging) :=
  let last := addWord addr size
  let pgd := pgdOffset s.cr3 addr
  if entryNone (s.tables.entry pgd) then
    some (-1, s)
  else
    (unmapPgds fuel fuel pgd addr last s).map fun unmapped => (0, unmapped)

def freedPages (calls : List PagingCall) : List Nat :=
  calls.filterMap fun made =>
    match made with
    | .freePage page => some page
    | _ => none

def presentPage (tables : PageTables) (slot : Nat) : Option Nat :=
  if ptePresent (tables.entry slot) then some (tables.entryPage (tables.entry slot)) else none

def hardwareSlot (tables : PageTables) (cr3 a : Nat) : Option Nat :=
  if ptePresent (tables.entry (directorySlot cr3 a)) then
    some (tableSlot (tables.entry (directorySlot cr3 a)) a)
  else
    none

def rangeSlots (tables : PageTables) (cr3 addr size : Nat) : List Nat :=
  ((List.range (size / pageSize)).filterMap fun k =>
    hardwareSlot tables cr3 (addr + pageSize * k)).dedup

structure Unmapped (addr size : Nat) (s t : Paging) : Prop where
  cleared : ∀ slot ∈ rangeSlots s.tables s.cr3 addr size, entryNone (t.tables.entry slot)
  freed : ∃ pages, freedPages t.calls = freedPages s.calls ++ pages ∧
    pages.Perm ((rangeSlots s.tables s.cr3 addr size).filterMap (presentPage s.tables))
  others : ∀ a slot, hardwareSlot s.tables s.cr3 a = some slot →
    slot ∉ rangeSlots s.tables s.cr3 addr size → t.tables.entry slot = s.tables.entry slot

def UnmapsRange (fuel addr size : Nat) (s : Paging) : Prop :=
  ∃ result t, unmapPageRange fuel addr size s = some (result, t) ∧ Unmapped addr size s t ∧
    ∃ again u, unmapPageRange fuel addr size t = some (again, u) ∧
      freedPages u.calls = freedPages t.calls

def doRounds (unit addr last : Nat) : Nat := max 1 ((last - addr + (unit - 1)) / unit)

def slotsFrom : (pte rounds : Nat) → List Nat
  | _, 0 => []
  | pte, rounds + 1 => pte :: slotsFrom (addWord pte 4) rounds

def pteSlots (tables : PageTables) (pmd addr last : Nat) : List Nat :=
  if entryNone (tables.entry pmd) then []
  else if pmdBad (tables.entry pmd) tables then []
  else slotsFrom (pteOffset pmd addr tables) (doRounds pageSize addr last)

def pmdSlots (tables : PageTables) (pgd addr last : Nat) : List Nat :=
  if entryNone (tables.entry pgd) then []
  else
    pteSlots tables (pmdOffset pgd addr tables) (addr % pgdSize)
      (min (addr % pgdSize + (last - addr)) pgdSize)

def pgdSlots (tables : PageTables) (last : Nat) : (rounds pgd addr : Nat) → List Nat
  | 0, _, _ => []
  | rounds + 1, pgd, addr =>
      pmdSlots tables pgd addr last ++
        pgdSlots tables last rounds (addWord pgd 4) ((addr / pgdSize + 1) * pgdSize)

def visitedSlots (tables : PageTables) (cr3 addr size : Nat) : List Nat :=
  if entryNone (tables.entry (pgdOffset cr3 addr)) then []
  else
    pgdSlots tables (addr + size) (doRounds pgdSize (addr / pgdSize * pgdSize) (addr + size))
      (pgdOffset cr3 addr) addr

structure Visits (slots : List Nat) (s t : Paging) : Prop where
  tables : t.tables = s.tables
  cr3 : t.cr3 = s.cr3
  freed : freedPages t.calls = freedPages s.calls ++ slots.filterMap (presentPage s.tables)

section Loops

variable {fuel pte pmd addr size last : Nat} {slots more : List Nat} {s t u : Paging}

lemma Visits.refl (s : Paging) : Visits [] s s where
  tables := rfl
  cr3 := rfl
  freed := (List.append_nil _).symm

lemma Visits.trans (first : Visits slots s t) (second : Visits more t u) :
    Visits (slots ++ more) s u where
  tables := second.tables.trans first.tables
  cr3 := second.cr3.trans first.cr3
  freed := by
    rw [second.freed, first.freed, first.tables, filterMap_append, append_assoc]

lemma freedPages_call (made : PagingCall) (s : Paging) :
    freedPages (s.call made).calls = freedPages s.calls ++ freedPages [made] :=
  List.filterMap_append

lemma visits_forgetPte (pte : Nat) (s : Paging) :
    Visits [pte] s (forgetPte (s.tables.entry pte) s) := by
  by_cases none : entryNone (s.tables.entry pte)
  · have absent : ¬ ptePresent (s.tables.entry pte) :=
      fun here => not_entryNone_of_ptePresent here none
    rw [forgetPte, if_pos none]
    exact ⟨rfl, rfl, by simp [presentPage, absent]⟩
  rw [forgetPte, if_neg none]
  by_cases here : ptePresent (s.tables.entry pte)
  · have page : [pte].filterMap (presentPage s.tables) =
        [s.tables.entryPage (s.tables.entry pte)] := by
      simp [presentPage, here]
    rw [if_pos here]
    dsimp only
    split
    · exact ⟨rfl, rfl, by rw [page]; exact freedPages_call _ s⟩
    · exact ⟨rfl, rfl, by rw [page]; exact freedPages_call _ s⟩
  · rw [if_neg here]
    exact ⟨rfl, rfl, by rw [freedPages_call]; simp [presentPage, here, freedPages]⟩

lemma doRounds_of_le {unit : Nat} (pos : 0 < unit) (hit : last ≤ addr + unit) :
    doRounds unit addr last = 1 := by
  apply max_eq_left
  apply le_of_lt_succ
  apply Nat.div_lt_of_lt_mul
  omega

lemma doRounds_of_lt {unit : Nat} (pos : 0 < unit) (before : addr + unit < last) :
    doRounds unit addr last = doRounds unit (addr + unit) last + 1 := by
  have split : last - addr + (unit - 1) = last - (addr + unit) + (unit - 1) + unit := by omega
  have once : 1 ≤ (last - (addr + unit) + (unit - 1)) / unit := by
    rw [Nat.le_div_iff_mul_le pos]
    omega
  unfold doRounds
  rw [split, add_div_right _ pos, max_eq_right (by omega), max_eq_right once]

lemma forgetPtes_visits (enough : doRounds pageSize addr last ≤ fuel)
    (fits : last ≤ pgdSize) (inside : addr < pgdSize) :
    ∃ t, forgetPtes fuel pte addr last s = some t ∧
      Visits (slotsFrom pte (doRounds pageSize addr last)) s t := by
  induction fuel generalizing pte addr s with
  | zero => exact absurd enough (by unfold doRounds; omega)
  | succ fuel ih =>
    have next : addWord addr pageSize = addr + pageSize := by
      unfold addWord wordSize pageSize pgdSize at *
      omega
    rw [forgetPtes, next]
    by_cases before : addr + pageSize < last
    · rw [if_pos before]
      rw [doRounds_of_lt (by decide) before] at enough ⊢
      obtain ⟨t, ran, visits⟩ := @ih (addWord pte 4) (addr + pageSize)
        (forgetPte (s.tables.entry pte) s) (by omega) (by omega)
      refine ⟨t, ran, ?_⟩
      rw [slotsFrom]
      exact (visits_forgetPte pte s).trans visits
    · rw [if_neg before, doRounds_of_le (by decide) (by omega)]
      exact ⟨_, rfl, visits_forgetPte pte s⟩

lemma doRounds_pageSize_le (fits : last ≤ pgdSize) : doRounds pageSize addr last ≤ 1024 := by
  unfold doRounds pageSize pgdSize at *
  omega

lemma unmapPteRange_visits (pmd : Nat) (s : Paging) (enough : 1024 ≤ fuel)
    (inside : addr < pgdSize) (ord : addr ≤ last) (fits : last ≤ pgdSize) :
    ∃ t, unmapPteRange fuel pmd addr (last - addr) s = some t ∧
      Visits (pteSlots s.tables pmd addr last) s t := by
  unfold unmapPteRange pteSlots
  by_cases none : entryNone (s.tables.entry pmd)
  · rw [if_pos none, if_pos none]
    exact ⟨s, rfl, Visits.refl s⟩
  rw [if_neg none, if_neg none]
  by_cases bad : pmdBad (s.tables.entry pmd) s.tables
  · rw [if_pos bad, if_pos bad]
    exact ⟨_, rfl, rfl, rfl, freedPages_call _ s⟩
  rw [if_neg bad, if_neg bad]
  have target : addWord (addr % pgdSize) (last - addr) = last := by
    unfold addWord wordSize pgdSize at *
    omega
  have capped : (if last ≥ pgdSize then pgdSize else last) = last := by
    split <;> omega
  dsimp only
  rw [target, capped, mod_eq_of_lt inside]
  exact forgetPtes_visits ((doRounds_pageSize_le fits).trans enough) fits inside

lemma unmapPmds_visits (enough : 1024 ≤ fuel) (inside : addr < pgdSize)
    (ord : addr ≤ last) (fits : last ≤ pgdSize) :
    ∃ t, unmapPmds fuel fuel pmd addr last s = some t ∧
      Visits (pteSlots s.tables pmd addr last) s t := by
  obtain ⟨t, ran, visits⟩ := unmapPteRange_visits pmd s enough inside ord fits
  have rest : subWord last addr = last - addr := by
    unfold subWord wordSize pgdSize at *
    omega
  have beyond : ¬ addWord addr pgdSize / pgdSize * pgdSize < last := by
    unfold addWord wordSize pgdSize at *
    omega
  cases fuel with
  | zero => omega
  | succ fuel =>
    refine ⟨t, ?_, visits⟩
    rw [unmapPmds, rest, ran, Option.bind_eq_bind, Option.bind_some]
    dsimp only
    rw [if_neg beyond]

lemma unmapPmdRange_visits (pgd : Nat) (s : Paging) (enough : 1024 ≤ fuel)
    (ord : addr ≤ last) (fits : last ≤ pageOffset) :
    ∃ t, unmapPmdRange fuel pgd addr (last - addr) s = some t ∧
      Visits (pmdSlots s.tables pgd addr last) s t := by
  unfold unmapPmdRange pmdSlots
  by_cases none : entryNone (s.tables.entry pgd)
  · rw [if_pos none, if_pos none]
    exact ⟨s, rfl, Visits.refl s⟩
  rw [if_neg none, if_neg none]
  have target : addWord (addr % pgdSize) (last - addr) = addr % pgdSize + (last - addr) := by
    unfold addWord wordSize pgdSize pageOffset at *
    omega
  have capped : (if addr % pgdSize + (last - addr) > pgdSize then pgdSize
      else addr % pgdSize + (last - addr)) = min (addr % pgdSize + (last - addr)) pgdSize := by
    split <;> omega
  have inside : addr % pgdSize < pgdSize := mod_lt _ (by decide)
  dsimp only
  rw [target, capped]
  exact unmapPmds_visits enough inside (by omega) (min_le_right _ _)

lemma unmapPgds_visits {rounds : Nat} (pgd : Nat) (s : Paging) (inner : 1024 ≤ rounds)
    (enough : doRounds pgdSize (addr / pgdSize * pgdSize) last ≤ fuel) (ord : addr ≤ last)
    (fits : last ≤ pageOffset) :
    ∃ t, unmapPgds rounds fuel pgd addr last s = some t ∧
      Visits (pgdSlots s.tables last (doRounds pgdSize (addr / pgdSize * pgdSize) last) pgd addr)
        s t := by
  induction fuel generalizing pgd addr s with
  | zero => exact absurd enough (by unfold doRounds; omega)
  | succ fuel ih =>
    obtain ⟨t, ran, visits⟩ := unmapPmdRange_visits pgd s inner ord fits
    have rest : subWord last addr = last - addr := by
      unfold subWord wordSize pageOffset at *
      omega
    have next : addWord addr pgdSize / pgdSize * pgdSize = (addr / pgdSize + 1) * pgdSize := by
      unfold addWord wordSize pgdSize pageOffset at *
      omega
    have step : (addr / pgdSize + 1) * pgdSize = addr / pgdSize * pgdSize + pgdSize := succ_mul _ _
    have aligned : (addr / pgdSize + 1) * pgdSize / pgdSize * pgdSize =
        addr / pgdSize * pgdSize + pgdSize := by
      rw [Nat.mul_div_cancel _ (by decide), step]
    rw [unmapPgds, rest, ran, Option.bind_eq_bind, Option.bind_some, next]
    dsimp only
    by_cases before : (addr / pgdSize + 1) * pgdSize < last
    · rw [if_pos before]
      rw [doRounds_of_lt (by decide) (by omega), ← aligned] at enough ⊢
      obtain ⟨u, continued, later⟩ := @ih
        ((addr / pgdSize + 1) * pgdSize) (addWord pgd 4) t (by omega) (by omega)
      rw [visits.tables] at later
      refine ⟨u, continued, ?_⟩
      rw [pgdSlots]
      exact visits.trans later
    · rw [if_neg before, doRounds_of_le (by decide) (by omega)]
      refine ⟨t, rfl, ?_⟩
      rw [pgdSlots, pgdSlots, append_nil]
      exact visits

lemma unmapPageRange_visits (enough : 1024 ≤ fuel) (fits : addr + size ≤ pageOffset) (s : Paging) :
    ∃ res t, unmapPageRange fuel addr size s = some (res, t) ∧
      Visits (visitedSlots s.tables s.cr3 addr size) s t := by
  unfold unmapPageRange visitedSlots
  by_cases none : entryNone (s.tables.entry (pgdOffset s.cr3 addr))
  · rw [if_pos none, if_pos none]
    exact ⟨-1, s, rfl, Visits.refl s⟩
  rw [if_neg none, if_neg none]
  have last : addWord addr size = addr + size := by
    unfold addWord wordSize pageOffset at *
    omega
  have rounds : doRounds pgdSize (addr / pgdSize * pgdSize) (addr + size) ≤ fuel := by
    unfold doRounds pgdSize pageOffset at *
    omega
  obtain ⟨t, ran, visits⟩ := unmapPgds_visits (pgdOffset s.cr3 addr) s enough rounds
    (Nat.le_add_right _ _) fits
  refine ⟨0, t, ?_, visits⟩
  rw [last, ran]
  rfl

end Loops

lemma filterMap_presentPage_eq_nil {tables : PageTables} {slots : List Nat} :
    slots.filterMap (presentPage tables) = [] ↔
      ∀ slot ∈ slots, ¬ ptePresent (tables.entry slot) := by
  rw [filterMap_eq_nil_iff]
  apply forall₂_congr
  intro slot _
  unfold presentPage
  split <;> simp_all

/-- Because no table is ever stored into, the range is unmapped exactly if there was nothing to
unmap: all its entries are none already, and the entries the loops visit instead of them hold no
present page. -/
theorem unmapsRange_iff {fuel addr size : Nat} (enough : 1024 ≤ fuel)
    (fits : addr + size ≤ pageOffset) (s : Paging) :
    UnmapsRange fuel addr size s ↔
      (∀ slot ∈ rangeSlots s.tables s.cr3 addr size, entryNone (s.tables.entry slot)) ∧
        ∀ slot ∈ visitedSlots s.tables s.cr3 addr size, ¬ ptePresent (s.tables.entry slot) := by
  obtain ⟨result, t, returned, visits⟩ := unmapPageRange_visits enough fits s
  obtain ⟨again, u, repeated, revisits⟩ := unmapPageRange_visits enough fits t
  rw [visits.tables, visits.cr3] at revisits
  have second := revisits.freed
  rw [visits.tables] at second
  constructor
  · rintro ⟨_, _, returned', unmapped, _, _, repeated', same⟩
    rw [returned] at returned'
    cases returned'
    rw [repeated] at repeated'
    cases repeated'
    constructor
    · intro slot inRange
      rw [← visits.tables]
      exact unmapped.cleared slot inRange
    rw [← filterMap_presentPage_eq_nil]
    rw [second] at same
    exact append_right_eq_self.mp same
  · intro ⟨empty, absent⟩
    have noneFreed := filterMap_presentPage_eq_nil.mpr absent
    refine ⟨result, t, returned, ?_, again, u, repeated, ?_⟩
    · refine ⟨?_, ⟨[], ?_, ?_⟩, ?_⟩
      · rw [visits.tables]
        exact empty
      · rw [visits.freed, noneFreed]
      · rw [filterMap_presentPage_eq_nil.mpr]
        intro slot inRange present
        exact not_entryNone_of_ptePresent present (empty slot inRange)
      · intro a slot _ _
        rw [visits.tables]
    · rw [second, noneFreed, append_nil]

/-- The first page of a table that is empty. -/
theorem unmapsRange_iff_empty :
    UnmapsRange 1024 0 0x1000 (oneEntry 0x60cc00 0x600000 0x602017) := by
  apply (unmapsRange_iff (by decide) (by decide) _).mpr
  have range : rangeSlots (oneEntry 0x60cc00 0x600000 0x602017).tables 0x600000 0 0x1000 =
      [0x602000] := by
    decide
  have visited : visitedSlots (oneEntry 0x60cc00 0x600000 0x602017).tables 0x600000 0 0x1000 =
      [] := by
    decide
  constructor
  · intro slot inRange
    rw [show (oneEntry 0x60cc00 0x600000 0x602017).cr3 = 0x600000 from rfl, range] at inRange
    rw [mem_singleton.mp inRange]
    decide
  · intro slot inVisited
    rw [show (oneEntry 0x60cc00 0x600000 0x602017).cr3 = 0x600000 from rfl, visited] at inVisited
    exact absurd inVisited not_mem_nil

def onePage : Paging := (oneEntry 0x60cc00 0x600000 0x602007).setEntry 0x602000 0x700007

/-- `pmd_offset` takes the first entry of the table for a middle entry and `pmd_bad` refuses its
flags, so the page stays mapped and is not freed. -/
theorem not_unmapsRange_onePage :
    rangeSlots onePage.tables onePage.cr3 0 0x1000 = [0x602000] ∧
      ptePresent (onePage.tables.entry 0x602000) ∧
      unmapPageRange 1024 0 0x1000 onePage = some (0, onePage.call (.badPmdInUnmap 0x700007)) ∧
      ¬ UnmapsRange 1024 0 0x1000 onePage := by
  have range : rangeSlots onePage.tables onePage.cr3 0 0x1000 = [0x602000] := by decide
  have run : unmapPageRange 1024 0 0x1000 onePage =
      some (0, onePage.call (.badPmdInUnmap 0x700007)) := rfl
  refine ⟨range, by decide, run, ?_⟩
  rintro ⟨_, t, returned, unmapped, -⟩
  rw [run] at returned
  cases returned
  have cleared := unmapped.cleared 0x602000 (by rw [range]; exact mem_singleton_self _)
  exact absurd cleared (by decide)

end PrettyOS.Mm
