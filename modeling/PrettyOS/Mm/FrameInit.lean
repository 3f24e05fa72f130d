import PrettyOS.Mm.BuddyTidy

/-!
Contract: the buddy lists at boot, from `init_mem` up to the return of
`buddy_list_tidy`.

With too little low memory for the page array `alloc_low_mem` panics, which halts the machine.
`allocLowMem` answers the `-1` of the statement behind: what is said of such a `memSize` is about
the loop and not about a boot.
-/

namespace PrettyOS.Mm

open Lib Nat
open Function
open Library.Tiling

def safeGap : Nat := 4096

def sizeofPage : Nat := 56

def allocLowMem (memsize lowMemStart : Nat) : Nat × Nat :=
  if lowMemEnd < (lowMemStart + memsize) % wordSize then
    (wordSize - 1, lowMemStart)
  else
    (lowMemStart, (lowMemStart + (memsize + safeGap)) % wordSize)

def lowMemAfterPaging : Nat :=
  (allocLowMem (0x300 * 4) (allocLowMem (1024 * 4) 0x600000).2).2

def pageFns (memSize : UInt32) : Nat :=
  mapNr (memSize.toNat &&& 0xfffff000)

def pagePtrMem (memSize : UInt32) : Nat :=
  (allocLowMem (pageFns memSize * sizeofPage)
    (allocLowMem (pageFns memSize * 4) lowMemAfterPaging).2).1

def initFrames : (left k p address : Nat) → Buddy → Buddy
  | 0, _, _, _, s => s
  | left + 1, k, p, address, s =>
      if p = 0 then
        s
      else
        let flags :=
          if address < lowMemEnd then (s.pages k).flags ||| (sysReserved ||| sysRom)
          else (s.pages k).flags ||| sysRam
        let described := { s with pages := update s.pages k ⟨address, flags⟩ }
        let freed := (freePages (some k) 0 described).2
        initFrames left (k + 1) ((p + sizeofPage) % wordSize) ((address + pageSize) % wordSize)
          freed

def initMemFrames (memSize : UInt32) (s : Buddy) : Buddy :=
  initFrames (pageFns memSize) 0 (pagePtrMem memSize) 0 (buddyListInit s)

def initMemTidy (memSize : UInt32) (s : Buddy) : Buddy :=
  buddyListTidy (initMemFrames memSize s)

def Buddy.Zeroed (s : Buddy) : Prop :=
  ∀ k, s.pages k = ⟨0, 0⟩

lemma pageFns_lt (memSize : UInt32) : pageFns memSize < 2 ^ 20 := by
  have masked : memSize.toNat &&& 0xfffff000 ≤ 0xfffff000 := and_le_right
  unfold pageFns mapNr pageSize
  omega

lemma pagePtrMem_cases (memSize : UInt32) :
    pagePtrMem memSize = wordSize - 1 ∨ pagePtrMem memSize = 0x604c00 + pageFns memSize * 4 ∧
        0x604c00 + pageFns memSize * 60 ≤ lowMemEnd := by
  have frames := pageFns_lt memSize
  have start : lowMemAfterPaging = 0x603c00 := by decide
  have mapFits : ¬ lowMemEnd < (lowMemAfterPaging + pageFns memSize * 4) % wordSize := by
    rw [start, lowMemEnd, wordSize]
    omega
  have mapEnd : (lowMemAfterPaging + (pageFns memSize * 4 + safeGap)) % wordSize =
      0x604c00 + pageFns memSize * 4 := by
    rw [start, safeGap, wordSize]
    omega
  unfold pagePtrMem
  rw [allocLowMem.eq_def (pageFns memSize * 4), if_neg mapFits, mapEnd, allocLowMem]
  by_cases exhausted :
      lowMemEnd < (0x604c00 + pageFns memSize * 4 + pageFns memSize * sizeofPage) % wordSize
  · rw [if_pos exhausted]
    exact .inl rfl
  rw [if_neg exhausted]
  refine .inr ⟨rfl, ?_⟩
  rw [sizeofPage, wordSize] at exhausted
  omega

lemma pagePtr_ne_zero (memSize : UInt32) {k : Nat} (below : k < pageFns memSize) :
    (pagePtrMem memSize + k * sizeofPage) % wordSize ≠ 0 := by
  rcases pagePtrMem_cases memSize with failed | ⟨placed, fits⟩
  · rw [failed, sizeofPage, wordSize]
    omega
  rw [lowMemEnd] at fits
  rw [placed, sizeofPage, wordSize, mod_eq_of_lt (by omega)]
  omega

structure FrameLoop (k : Nat) (s : Buddy) : Prop where
  address : ∀ page < k, (s.pages page).address = page * pageSize
  ram : ∀ page, firstFrame ≤ page → page < k → (s.pages page).flags &&& sysRam ≠ 0
  untouched : ∀ page, k ≤ page → s.pages page = ⟨0, 0⟩
  pagesRing : s.list 0 = List.range' firstFrame (k - firstFrame)
  otherRings : ∀ order, order ≠ 0 → s.list order = []
  counts : ∀ order, s.nrFree order = (s.list order).length

lemma frameLoop_start {s : Buddy} (zeroed : s.Zeroed) : FrameLoop 0 (buddyListInit s) where
  address := fun page below => absurd below (Nat.not_lt_zero page)
  ram := fun page _ below => absurd below (Nat.not_lt_zero page)
  untouched := fun page _ => zeroed page
  pagesRing := by simp [buddyListInit, Buddy.list]
  otherRings := fun _ _ => rfl
  counts := fun _ => rfl

lemma insertLine_last {pages : Nat → Page} {page : Nat} {ring : List Nat} (ne : ring ≠ [])
    (behind : ∀ pos ∈ ring, (pages pos).address ≤ (pages page).address) :
    insertLine pages page ring = ring ++ [page] := by
  induction ring with
  | nil => exact absurd rfl ne
  | cons pos rest ih =>
    rw [List.forall_mem_cons] at behind
    unfold insertLine
    rw [if_neg (Nat.not_lt.mpr behind.1)]
    split_ifs with last
    · simp [last]
    · rw [ih last behind.2, List.cons_append]

lemma buddyListAddLine_last {s : Buddy} {order page : Nat} (lt : order < nrMemLists)
    (behind : ∀ pos ∈ s.list order, (s.pages pos).address ≤ (s.pages page).address) :
    buddyListAddLine page order s = (0, s.setQueue order (s.list order ++ [page]) 1) := by
  unfold buddyListAddLine
  rw [if_neg (Nat.not_le.mpr lt)]
  split_ifs with empty
  · rfl
  · have ne : s.list order ≠ [] := by simpa [listEmptyCareful] using empty
    rw [insertLine_last ne behind]

lemma FrameLoop.describe {k : Nat} {s : Buddy} (loop : FrameLoop k s) (flags : Nat)
    (ram : firstFrame ≤ k → flags &&& sysRam ≠ 0) :
    (∀ page < k + 1, (update s.pages k ⟨k * pageSize, flags⟩ page).address = page * pageSize) ∧
      (∀ page, firstFrame ≤ page → page < k + 1 →
        (update s.pages k ⟨k * pageSize, flags⟩ page).flags &&& sysRam ≠ 0) ∧
      ∀ page, k + 1 ≤ page →
        update s.pages k ⟨k * pageSize, flags⟩ page = ⟨0, 0⟩ := by
  refine ⟨fun page below => ?_, fun page low below => ?_, fun page above => ?_⟩
  · by_cases same : page = k
    · simp [same]
    · rw [update_of_ne same]
      exact loop.address page (by omega)
  · by_cases same : page = k
    · subst same
      simpa using ram low
    · rw [update_of_ne same]
      exact loop.ram page low (by omega)
  · rw [update_of_ne (by omega)]
    exact loop.untouched page (by omega)

def frameTurn (k : Nat) (s : Buddy) : Buddy :=
  (freePages (some k) 0
    { s with pages := update s.pages k ⟨k * pageSize,
      if k * pageSize < lowMemEnd then (s.pages k).flags ||| (sysReserved ||| sysRom)
      else (s.pages k).flags ||| sysRam⟩ }).2

lemma frameLoop_step {k : Nat} {s : Buddy} (loop : FrameLoop k s) :
    FrameLoop (k + 1) (frameTurn k s) := by
  unfold frameTurn
  have blank : (s.pages k).flags = 0 := by rw [loop.untouched k le_rfl]
  have lowIff : k * pageSize < lowMemEnd ↔ k < firstFrame := by
    rw [firstFrame_eq, pageSize, lowMemEnd]
    omega
  rw [blank]
  by_cases low : k < firstFrame
  · -- reserved frames carry no `SYS_RAM`, so `free_pages` leaves the rings alone
    rw [if_pos (lowIff.mpr low)]
    obtain ⟨addr, ram, untouched⟩ :=
      loop.describe (0 ||| (sysReserved ||| sysRom)) fun high => absurd low (by omega)
    have skipped : (0 ||| (sysReserved ||| sysRom)) &&& sysRam = 0 := by decide
    have unchanged : ∀ desc : Buddy, (desc.pages k).flags = 0 ||| (sysReserved ||| sysRom) →
          (freePages (some k) 0 desc).2 = desc := by
      intro desc flags
      simp only [freePages, flags, skipped, ne_eq, not_true_eq_false, ↓reduceIte]
      rw [if_neg (by decide)]
    rw [unchanged _ (by simp)]
    refine ⟨addr, ram, untouched, ?_, loop.otherRings, loop.counts⟩
    change s.list 0 = _
    rw [loop.pagesRing, Nat.sub_eq_zero_of_le (by omega), Nat.sub_eq_zero_of_le (by omega)]
  rw [if_neg fun below => low (lowIff.mp below)]
  obtain ⟨addr, ram, untouched⟩ := loop.describe (0 ||| sysRam) fun _ => by decide
  set desc : Buddy :=
    { s with pages := update s.pages k ⟨k * pageSize, 0 ||| sysRam⟩ } with describedDef
  have ring : desc.list 0 = List.range' firstFrame (k - firstFrame) := loop.pagesRing
  have behind : ∀ pos ∈ desc.list 0,
      (desc.pages pos).address ≤ (desc.pages k).address := by
    intro pos mem
    rw [ring, List.mem_range'_1] at mem
    rw [addr pos (by omega), addr k (by omega)]
    exact Nat.mul_le_mul_right _ (by omega)
  rw [freePages_eq_addLine (by decide) (ram k (by omega) (by omega)),
    buddyListAddLine_last (by decide) behind]
  refine ⟨addr, ram, untouched, ?_, fun order ne => ?_, fun order => ?_⟩
  · have next : k + 1 - firstFrame = k - firstFrame + 1 := by omega
    have last : firstFrame + (k - firstFrame) = k := by omega
    simp only [Buddy.setQueue_list, update_self, ring, next, List.range'_1_concat, last]
  · rw [Buddy.setQueue_list, update_of_ne ne]
    exact loop.otherRings order ne
  have before : desc.nrFree order = (desc.list order).length := loop.counts order
  by_cases same : order = 0
  · subst same
    simp [before]
  · simp [same, before]

lemma initFrames_induction {total base : Nat} {kept : Nat → Buddy → Prop}
    (small : total ≤ 2 ^ 20) (pointers : ∀ k < total, (base + k * sizeofPage) % wordSize ≠ 0)
    (turn : ∀ k s, kept k s → kept (k + 1) (frameTurn k s)) :
    ∀ {left k : Nat} {s : Buddy}, k + left = total → kept k s →
      kept total (initFrames left k ((base + k * sizeofPage) % wordSize) (k * pageSize) s)
  | 0, k, s, length, loop => by
      rw [← length]
      exact loop
  | left + 1, k, s, length, loop => by
      have step := turn k s loop
      have nextPointer : ((base + k * sizeofPage) % wordSize + sizeofPage) % wordSize =
          (base + (k + 1) * sizeofPage) % wordSize := by
        rw [mod_add_mod]
        congr 1
        ring
      have rest := @initFrames_induction _ _ _ small pointers turn left (k + 1) _ (by omega) step
      rw [initFrames, if_neg (pointers k (by omega)), nextPointer]
      by_cases last : left = 0
      · subst last
        simp only [initFrames] at rest ⊢
        exact rest
      have nextAddress : (k * pageSize + pageSize) % wordSize = (k + 1) * pageSize := by
        rw [← succ_mul, mod_eq_of_lt]
        rw [pageSize, wordSize]
        omega
      rw [nextAddress]
      exact rest

lemma initMemFrames_induction {s : Buddy} {kept : Nat → Buddy → Prop} (memSize : UInt32)
    (turn : ∀ k s, kept k s → kept (k + 1) (frameTurn k s)) (start : kept 0 (buddyListInit s)) :
    kept (pageFns memSize) (initMemFrames memSize s) := by
  have pointers : ∀ k < pageFns memSize, (pagePtrMem memSize + k * sizeofPage) % wordSize ≠ 0 :=
    fun k below => pagePtr_ne_zero memSize below
  have loop := @initFrames_induction _ _ _ (Nat.le_of_lt (pageFns_lt memSize)) pointers turn
    (pageFns memSize) 0 _ (Nat.zero_add _) start
  have base : (pagePtrMem memSize + 0 * sizeofPage) % wordSize = pagePtrMem memSize := by
    have frames := pageFns_lt memSize
    rcases pagePtrMem_cases memSize with failed | ⟨placed, -⟩
    · rw [failed, sizeofPage, wordSize]
      rfl
    · rw [placed, sizeofPage, wordSize]
      omega
  rwa [base, Nat.zero_mul] at loop

lemma initMemFrames_frameLoop {s : Buddy} (memSize : UInt32) (zeroed : s.Zeroed) :
    FrameLoop (pageFns memSize) (initMemFrames memSize s) :=
  initMemFrames_induction memSize (fun _ _ => frameLoop_step) (frameLoop_start zeroed)

lemma walk_progression (order : Nat) : ∀ (count start : Nat), 2 ^ (order + 1) ∣ start →
    JoinsBuddies order (List.range' start count (2 ^ order)) ∧
      joined order (List.range' start count (2 ^ order)) =
        List.range' start (count / 2) (2 ^ (order + 1)) ∧
      (kept order (List.range' start count (2 ^ order))).length = count % 2
  | 0, _, _ => by simp [JoinsBuddies, joined, kept]
  | 1, _, _ => by simp [JoinsBuddies, joined, kept]
  | count + 2, start, aligned => by
      have nextAligned : 2 ^ (order + 1) ∣ start + 2 ^ order + 2 ^ order := by
        rw [Nat.add_assoc, ← Nat.mul_two, ← pow_succ]
        exact aligned.add (dvd_refl _)
      obtain ⟨buddies, joins, keeps⟩ := walk_progression order count _ nextAligned
      have adjacent : Adjacent order start (start + 2 ^ order) := .inl rfl
      have half : (count + 2) / 2 = count / 2 + 1 := by omega
      have double : start + 2 ^ order + 2 ^ order = start + 2 ^ (order + 1) := by
        rw [pow_succ]
        omega
      simp only [List.range'_succ, JoinsBuddies, joined, kept, adjacent, ↓reduceIte]
      refine ⟨⟨⟨aligned, trivial⟩, buddies⟩, ?_, ?_⟩
      · rw [joins, half, List.range'_succ, double]
      · rw [keeps]
        omega

def leftover (order count k : Nat) : Nat :=
  if k + 1 < nrMemLists then count / 2 ^ (k - order) % 2 else count / 2 ^ (k - order)

lemma tidyFrom_progression {total start : Nat} (aligned : 2 ^ nrMemLists ∣ start) :
    ∀ {left order count : Nat} {s : Buddy}, left + order + 1 = nrMemLists →
      s.Describes total → s.Separate total order → s.Counted →
      s.list order = List.range' start count (2 ^ order) →
      (∀ k, order < k → s.list k = []) → TidySafe left order s.list ∧
          (∀ k < order, (tidyFrom left order s).list k = s.list k) ∧
          ∀ k, order ≤ k → k < nrMemLists →
            ((tidyFrom left order s).list k).length = leftover order count k
  | 0, order, count, s, length, _, _, _, run, _ => by
      refine ⟨trivial, fun _ _ => rfl, fun k low high => ?_⟩
      obtain rfl : k = order := by omega
      simp [tidyFrom, run, leftover, ← length]
  | left + 1, order, count, s, length, desc, separate, cnt, run, higher => by
      have below : order < nrMemLists := by omega
      rw [tidyFrom]
      split_ifs with exhausted
      · have zero : count = 0 := by
          rw [cnt order below, run, List.length_range'] at exhausted
          omega
        refine ⟨.inl (by simp [run, zero]), fun _ _ => rfl, fun k low high => ?_⟩
        by_cases same : k = order
        · subst same
          simp [run, zero, leftover]
        · simp [higher k (by omega), zero, leftover]
      obtain ⟨lists, describes', separate', counted'⟩ :=
        tidyWalk_merges (by omega) desc separate cnt
      obtain ⟨buddies, joins, keeps⟩ := walk_progression order count start
        ((Nat.pow_dvd_pow 2 (by omega)).trans aligned)
      rw [← run] at buddies joins keeps
      have nextRun : (tidyWalk order (s.list order) s).list (order + 1) =
          List.range' start (count / 2) (2 ^ (order + 1)) := by
        rw [lists, mergeOrder, update_self, higher _ (lt_succ_self order), joins, List.nil_append]
      have nextHigher : ∀ k, order + 1 < k →
          (tidyWalk order (s.list order) s).list k = [] := by
        intro k above
        rw [lists, mergeOrder, update_of_ne (by omega), update_of_ne (by omega)]
        exact higher k (by omega)
      obtain ⟨_, lower, upper⟩ := @tidyFrom_progression _ _ aligned left _ _ _ (by omega)
        describes' separate' counted' nextRun nextHigher
      refine ⟨.inr ⟨buddies, by rwa [← lists]⟩, fun k low => ?_, fun k low high => ?_⟩
      · rw [lower k (by omega), lists, mergeOrder, update_of_ne (by omega), update_of_ne (by omega)]
      by_cases same : k = order
      · subst same
        rw [lower k (by omega), lists, mergeOrder, update_of_ne (by omega),
          update_self, keeps, leftover, if_pos (by omega)]
        simp
      · have shift : k - order = k - (order + 1) + 1 := by omega
        rw [upper k (by omega) high, leftover, leftover, shift, pow_succ, Nat.mul_comm,
          ← Nat.div_div_eq_div_mul]

section Boot

variable {total : Nat} {s : Buddy}

section

variable (loop : FrameLoop total s)
include loop

lemma FrameLoop.describes (small : total ≤ 2 ^ 20) : s.Describes total :=
  ⟨loop.address, loop.ram, small⟩

lemma FrameLoop.counted : s.Counted :=
  fun order _ => loop.counts order

lemma FrameLoop.aligned : s.Aligned := by
  intro order _ page mem
  by_cases zero : order = 0
  · subst zero
    exact one_dvd page
  · simp [loop.otherRings order zero] at mem

lemma FrameLoop.separate : s.Separate total 0 := by
  refine ⟨fun k _ _ page mem => ?_, fun k _ _ => ?_, fun j k _ less _ => ?_⟩
  · by_cases zero : k = 0
    · subst zero
      rw [loop.pagesRing, List.mem_range'_1] at mem
      omega
    · simp [loop.otherRings k zero] at mem
  · by_cases zero : k = 0
    · subst zero
      rw [loop.pagesRing]
      exact List.nodup_range'
    · simp [loop.otherRings k zero]
  · rw [loop.otherRings k (by omega)]
    exact List.disjoint_nil_right _

end

lemma Buddy.freeFrames_of_pages (others : ∀ order, order ≠ 0 → s.list order = []) :
    s.freeFrames = (s.list 0 : Multiset Nat) := by
  have single : ∀ page, (Block.mk page 0).cells = [page] := fun page => by simp [Block.cells]
  have zero : orderCells 0 (s.list 0) = (s.list 0 : Multiset Nat) := by
    simp [orderCells, single]
  unfold Buddy.freeFrames familyCells
  rw [Finset.sum_eq_single_of_mem 0 (by decide)
    fun order _ ne => by rw [others order ne, orderCells_nil]]
  exact zero

lemma FrameLoop.freeFrames (loop : FrameLoop total s) :
    s.freeFrames = (List.range' firstFrame (total - firstFrame) : Multiset Nat) := by
  rw [Buddy.freeFrames_of_pages loop.otherRings, loop.pagesRing]

lemma FrameLoop.progression (loop : FrameLoop total s) (small : total ≤ 2 ^ 20) :
    TidySafe (nrMemLists - 1) 0 s.list ∧ ∀ k < nrMemLists, ((buddyListTidy s).list k).length =
        leftover 0 (total - firstFrame) k := by
  obtain ⟨safe, -, lengths⟩ := @tidyFrom_progression _ firstFrame (by decide)
    (nrMemLists - 1) 0 _ _ (by decide) (loop.describes small)
    loop.separate loop.counted (by rw [loop.pagesRing, pow_zero])
    (fun k above => loop.otherRings k (by omega))
  exact ⟨safe, fun k high => lengths k (Nat.zero_le k) high⟩

lemma tidyFrom_pages {left order : Nat} (length : left + order + 1 = nrMemLists)
    (desc : s.Describes total) (separate : s.Separate total order) (cnt : s.Counted) :
    (tidyFrom left order s).Describes total := by
  induction left generalizing order s with
  | zero => exact desc
  | succ left ih =>
    rw [tidyFrom]
    split_ifs
    · exact desc
    obtain ⟨-, describes', separate', counted'⟩ := tidyWalk_merges (by omega) desc separate cnt
    exact ih (by omega) describes' separate' counted'

end Boot

lemma initMemTidy_inv {s : Buddy} (memSize : UInt32) (zeroed : s.Zeroed) :
    Zone.Inv (pageFns memSize) ⟨initMemTidy memSize s, []⟩ := by
  have loop := initMemFrames_frameLoop memSize zeroed
  have small := Nat.le_of_lt (pageFns_lt memSize)
  have desc := loop.describes small
  obtain ⟨frames, aligned, cnt⟩ := tidyFrom_preserves (by decide) desc loop.separate
    loop.counted loop.aligned (loop.progression small).1
  constructor
  · exact tidyFrom_pages (by decide) desc loop.separate loop.counted
  · exact cnt
  · exact aligned
  · simp
  · simp
  · rw [Zone.tiles_iff_frames, Zone.frames, ← loop.freeFrames]
    change (initMemTidy memSize s).freeFrames = _ at frames
    simpa [cellsOf] using frames

/-- The buddy lists as `buddy_list_tidy` leaves them inside `init_mem`, for a machine
with `pageFns memSize` frames. -/
theorem initMemTidy_shape {s : Buddy} (memSize : UInt32) (zeroed : s.Zeroed) :
    (∀ k < 9, ((initMemTidy memSize s).list k).length =
        if (pageFns memSize - firstFrame).testBit k then 1 else 0) ∧
      ((initMemTidy memSize s).list 9).length = (pageFns memSize - firstFrame) / 512 ∧
      (initMemTidy memSize s).Aligned ∧
      Tiles (initMemTidy memSize s).freeBlocks firstFrame (pageFns memSize) ∧
      (initMemTidy memSize s).Counted := by
  have loop := initMemFrames_frameLoop memSize zeroed
  obtain ⟨-, lengths⟩ := loop.progression (Nat.le_of_lt (pageFns_lt memSize))
  have inv := initMemTidy_inv memSize zeroed
  refine ⟨fun k below => ?_, ?_, inv.aligned, by simpa using inv.tiles, inv.counted⟩
  · have length := lengths k (lt_trans below (by decide))
    rw [leftover, if_pos (by rw [nrMemLists]; omega), Nat.sub_zero] at length
    rw [initMemTidy, length, testBit_eq_decide_div_mod_eq]
    rcases mod_two_eq_zero_or_one ((pageFns memSize - firstFrame) / 2 ^ k) with even | odd
    · simp [even]
    · simp [odd]
  · have length := lengths 9 (by decide)
    rwa [leftover, if_neg (by decide)] at length

def blankBuddy : Buddy where
  pages _ := ⟨0, 0⟩
  buddyList _ := ⟨[], 0⟩

/-- A machine with 32 MB starts with eight blocks of 2 MB and nothing else. -/
theorem initMemTidy_shape_32MB :
    blankBuddy.Zeroed ∧ firstFrame ≤ pageFns 0x2000000 ∧
      ((initMemTidy 0x2000000 blankBuddy).list 9).length = 8 ∧
      ((initMemTidy 0x2000000 blankBuddy).list 0).length = 0 := by
  have zeroed : blankBuddy.Zeroed := fun _ => rfl
  have shape := initMemTidy_shape 0x2000000 zeroed
  refine ⟨zeroed, by decide, shape.2.1.trans (by decide), (shape.1 0 (by decide)).trans (by decide)⟩

end PrettyOS.Mm
