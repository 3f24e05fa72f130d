import PrettyOS.Mm.InitMem

/-!
Contract: the rings of the page allocator ascend by address.

Frames that the memory before `init_mem` marks as RAM by accident are frames like the others.

A split links both halves at the end of the ring below, but only if that ring is empty; every other
block comes back by address. The blocks have no frame in common, so a block that comes back is not
on its ring.
-/

namespace PrettyOS.Mm

open Lib List Nat
open Function
open Library.Tiling

structure Zone.Ordered (total : Nat) (z : Zone) : Prop where
  address : ∀ page < total, (z.buddy.pages page).address = page * pageSize
  counted : z.buddy.Counted
  nodup : z.frames.Nodup
  bounded : ∀ frame ∈ z.frames, frame < total
  ascending : ∀ order < nrMemLists, (z.buddy.list order).Pairwise (· < ·)

lemma insertLine_ascending {pages : Nat → Page} {page total : Nat} {ring : List Nat}
    (addr : ∀ page < total, (pages page).address = page * pageSize)
    (lt : ∀ pos ∈ ring, pos < total) (pageInRange : page < total) (fresh : page ∉ ring)
    (asc : ring.Pairwise (· < ·)) : (insertLine pages page ring).Pairwise (· < ·) := by
  induction ring with
  | nil => exact List.Pairwise.nil
  | cons pos rest ih =>
    rw [forall_mem_cons] at lt
    obtain ⟨below, restAscending⟩ := pairwise_cons.mp asc
    obtain ⟨_, notRest⟩ := not_or.mp (fun mem => fresh (mem_cons.mpr mem))
    have less : (pages page).address < (pages pos).address ↔ page < pos := by
      rw [addr page pageInRange, addr pos lt.1, pageSize]
      omega
    unfold insertLine
    split_ifs with before last
    · refine pairwise_cons.mpr ⟨fun other mem => ?_, asc⟩
      rcases mem_cons.mp mem with rfl | later
      · exact less.mp before
      · exact (less.mp before).trans (below other later)
    · have behind : pos < page := by
        rw [less] at before
        omega
      exact pairwise_pair.mpr behind
    have behind : pos < page := by
      rw [less] at before
      omega
    refine pairwise_cons.mpr
      ⟨fun other mem => ?_, ih lt.2 notRest restAscending⟩
    rcases mem_cons.mp ((insertLine_perm pages page last).mem_iff.mp mem) with
      rfl | later
    · exact behind
    · exact below other later

namespace Zone

variable {total : Nat} {z : Zone}

lemma mem_frames_of_ring {order page : Nat} (lt : order < nrMemLists)
    (mem : page ∈ z.buddy.list order) : page ∈ z.buddy.freeFrames :=
  Buddy.mem_freeFrames.mpr ⟨⟨page, order⟩, mem_familyBlocks.mpr ⟨lt, mem⟩, Block.start_mem_cells _⟩

lemma Ordered.page_lt (ord : z.Ordered total) {order page : Nat}
    (lt : order < nrMemLists) (mem : page ∈ z.buddy.list order) : page < total :=
  ord.bounded page (Multiset.mem_add.mpr (Or.inl (mem_frames_of_ring lt mem)))

lemma Ordered.getPages (ord : z.Ordered total) {order : Nat} (lt : order < nrMemLists)
    (available : z.Available order) :
    ∃ target page rest buddy, order ≤ target ∧ z.buddy.list target = page :: rest ∧
      (z.buddy.list order ≠ [] → target = order) ∧
      z.getPages order =
        some (.address (z.buddy.pages page).address, ⟨buddy, ⟨page, order⟩ :: z.outstanding⟩) ∧
      Ordered total ⟨buddy, ⟨page, order⟩ :: z.outstanding⟩ := by
  obtain ⟨target, le, targetInRange, found, empty⟩ := available.least
  obtain ⟨page, rest, ring⟩ := exists_cons_of_ne_nil found
  obtain ⟨buddy, ran, pages, cnt, lists, frames⟩ :=
    @getFreePagesRepeat_eq _ _ _ _ nrMemLists _ ord.counted le targetInRange ring empty
      (by omega)
  have onRing := ring ▸ mem_cons_self
  have addr := ord.address page (ord.page_lt targetInRange onRing)
  have sameFrames : Zone.frames ⟨buddy, ⟨page, order⟩ :: z.outstanding⟩ = z.frames := by
    rw [Zone.frames, Zone.frames, ← frames]
    simp [cellsOf, add_assoc]
  refine ⟨target, page, rest, buddy, le, ring, ?_, ?_, ⟨?_, cnt, ?_, ?_, ?_⟩⟩
  · intro ne
    by_contra higher
    exact ne (empty order le_rfl (by omega))
  · have frame : mapNr (page * pageSize) = page := Nat.mul_div_cancel _ (by decide)
    simp [Zone.getPages, getFreePages, Nat.not_le.mpr lt, ran, addr, frame]
  · rw [pages]
    exact ord.address
  · rw [sameFrames]
    exact ord.nodup
  · rw [sameFrames]
    exact ord.bounded
  · intro k high
    rw [lists, served]
    split_ifs
    · exact (ord.ascending k high).tail
    · exact pairwise_singleton _ _
    · exact ord.ascending k high

lemma freePages_cases (page order : Nat) (s : Buddy) :
    (freePages (some page) order s).2 = s ∨ order < nrMemLists ∧
        (freePages (some page) order s).2 = (buddyListAddLine page order s).2 := by
  by_cases lt : order < nrMemLists
  · by_cases ram : (s.pages page).flags &&& sysRam ≠ 0
    · exact .inr ⟨lt, by rw [freePages_eq_addLine lt ram]⟩
    · left
      simp only [freePages, if_neg (Nat.not_le.mpr lt), if_neg ram]
  · left
    simp only [freePages, if_pos (Nat.not_lt.mp lt)]

lemma Ordered.putPages (ord : z.Ordered total) {block : Block}
    (held : block ∈ z.outstanding) : (z.putPages block).Ordered total := by
  have heldCells := coe_cellsOf_erase held
  have startHeld : block.start ∈ (cellsOf z.outstanding : Multiset Nat) := by
    rw [heldCells]
    exact Multiset.mem_add.mpr (.inl (Block.start_mem_cells block))
  rcases freePages_cases block.start block.order z.buddy with skipped | ⟨lt, link⟩
  · -- a page that is not RAM is forgotten
    have fewer : (z.putPages block).frames ≤ z.frames := by
      rw [Zone.putPages, skipped, Zone.frames, Zone.frames, heldCells]
      exact add_le_add_right (Multiset.le_add_left _ _) _
    refine ⟨?_, ?_, Multiset.nodup_of_le fewer ord.nodup, ?_, ?_⟩
    · rw [Zone.putPages, skipped]
      exact ord.address
    · rw [Zone.putPages, skipped]
      exact ord.counted
    · exact fun frame mem => ord.bounded frame (Multiset.mem_of_le fewer mem)
    · rw [Zone.putPages, skipped]
      exact ord.ascending
  obtain ⟨ring, added, permutation⟩ := buddyListAddLine_eq (s := z.buddy) lt block.start
  have res : z.putPages block =
      ⟨z.buddy.setQueue block.order ring 1, z.outstanding.erase block⟩ := by
    rw [Zone.putPages, link, added]
  have fresh : block.start ∉ z.buddy.list block.order := fun mem =>
    (Multiset.disjoint_left.mp (Multiset.nodup_add.mp ord.nodup).2.2
      (mem_frames_of_ring lt mem)) startHeld
  have ringAscending : ring.Pairwise (· < ·) := by
    have isRing : ring = ((buddyListAddLine block.start block.order z.buddy).2).list
        block.order := by
      rw [added]
      simp
    rw [isRing, buddyListAddLine, if_neg (Nat.not_le.mpr lt)]
    split_ifs with isEmpty
    · have noEntry : z.buddy.list block.order = [] := by
        simpa [listEmptyCareful] using isEmpty
      simp [listAddHead, noEntry]
    simp only [Buddy.setQueue_list, update_self]
    apply insertLine_ascending ord.address _ _ fresh (ord.ascending _ lt)
    · exact fun pos mem => ord.page_lt lt mem
    · exact ord.bounded _ (Multiset.mem_add.mpr (.inr startHeld))
  have sameFrames : (z.putPages block).frames = z.frames := by
    rw [res, Zone.frames, Zone.frames, Buddy.freeFrames_push _ lt permutation, heldCells, add_assoc]
  refine ⟨?_, ?_, ?_, ?_, ?_⟩
  · rw [res]
    exact ord.address
  · rw [res]
    exact ord.counted.setQueue (by simp [permutation.length_eq])
  · rw [sameFrames]
    exact ord.nodup
  · rw [sameFrames]
    exact ord.bounded
  · rw [res]
    intro k high
    by_cases same : k = block.order
    · subst same
      simpa using ringAscending
    · simpa [same] using ord.ascending k high

lemma Ordered.step {next : Zone} (ord : z.Ordered total) (step : Step z next) :
    next.Ordered total := by
  cases step with
  | get lt available ran =>
    obtain ⟨_, _, _, _, -, -, -, res, after⟩ := ord.getPages lt available
    rw [res] at ran
    obtain ⟨-, rfl⟩ := Prod.mk.inj (Option.some.inj ran)
    exact after
  | free held => exact ord.putPages held

lemma lasting_ordered (total : Nat) : Lasting (Ordered total) :=
  ⟨fun ord => ord.counted, fun ord step => ord.step step⟩

lemma Ordered.reaches {last : Zone} (ord : z.Ordered total) (run : z.Reaches last) :
    last.Ordered total := by
  induction run with
  | refl => exact ord
  | tail _ step ih => exact ih.step step

end Zone

structure FrameScan (k : Nat) (s : Buddy) : Prop where
  address : ∀ page < k, (s.pages page).address = page * pageSize
  ascending : (s.list 0).Pairwise (· < ·)
  bounded : ∀ page ∈ s.list 0, page < k
  others : ∀ order, order ≠ 0 → s.list order = []
  counts : ∀ order, s.nrFree order = (s.list order).length

lemma frameScan_start (s : Buddy) : FrameScan 0 (buddyListInit s) :=
  ⟨nofun, List.Pairwise.nil, nofun, fun _ _ => rfl, fun _ => rfl⟩

lemma frameScan_turn (k : Nat) (s : Buddy) (scan : FrameScan k s) :
    FrameScan (k + 1) (frameTurn k s) := by
  unfold frameTurn
  set flags := if k * pageSize < lowMemEnd then (s.pages k).flags ||| (sysReserved ||| sysRom)
    else (s.pages k).flags ||| sysRam
  set desc : Buddy := { s with pages := update s.pages k ⟨k * pageSize, flags⟩ }
    with describedDef
  have addr : ∀ page < k + 1, (desc.pages page).address = page * pageSize := by
    intro page below
    by_cases same : page = k
    · simp [describedDef, same]
    · simp only [describedDef, update_of_ne same]
      exact scan.address page (by omega)
  have bounded : ∀ page ∈ desc.list 0, page < k + 1 := fun page mem =>
    (scan.bounded page mem).trans (lt_succ_self k)
  rcases Zone.freePages_cases k 0 desc with skipped | ⟨lt, link⟩
  · rw [skipped]
    exact ⟨addr, scan.ascending, bounded, scan.others, scan.counts⟩
  have behind : ∀ pos ∈ desc.list 0,
      (desc.pages pos).address ≤ (desc.pages k).address := by
    intro pos mem
    rw [addr pos (bounded pos mem), addr k (lt_succ_self k)]
    exact Nat.mul_le_mul_right _ (scan.bounded pos mem).le
  rw [link, buddyListAddLine_last lt behind]
  refine ⟨addr, ?_, ?_, ?_, ?_⟩
  · simp only [Buddy.setQueue_list, update_self, pairwise_append]
    refine ⟨scan.ascending, pairwise_singleton _ _, fun page mem other isLast => ?_⟩
    rw [mem_singleton.mp isLast]
    exact scan.bounded page mem
  · simp only [Buddy.setQueue_list, update_self, forall_mem_append]
    exact ⟨bounded, by simp⟩
  · intro order ne
    simp only [Buddy.setQueue_list, update_of_ne ne]
    exact scan.others order ne
  · intro order
    have before : desc.nrFree order = (desc.list order).length := scan.counts order
    by_cases same : order = 0
    · subst same
      simp [before]
    · simp [same, before]

structure Cascade (total low order : Nat) (s : Buddy) : Prop where
  address : ∀ page < total, (s.pages page).address = page * pageSize
  counted : s.Counted
  ascending : ∀ k < nrMemLists, (s.list k).Pairwise (· < ·)
  bounded : ∀ page ∈ s.list order, low ≤ page ∧ page < total
  higher : ∀ k, order < k → s.list k = []

section Cascade

variable {total low : Nat}

lemma Cascade.walk {order : Nat} {s : Buddy} (cascade : Cascade total low order s)
    (small : total ≤ 2 ^ 20) (room : total + 2 ^ 9 ≤ 2 ^ 20 + low) (lt : order + 1 < nrMemLists) :
    Cascade total low (order + 1) (tidyWalk order (s.list order) s) ∧
      (tidyWalk order (s.list order) s).freeFrames = s.freeFrames := by
  have below := lt_of_succ_lt lt
  have asc := cascade.ascending order below
  have closes : ∀ pos ∈ s.list order, ∀ next ∈ s.list order,
      isPageclosed s pos next order = decide (Adjacent order pos next) :=
    fun pos isPos next isNext => isPageclosed_eq_of_room cascade.address small room below
      (cascade.bounded pos isPos) (cascade.bounded next isNext)
  obtain ⟨pages, lists, counts⟩ := tidyWalk_spec [] (s.list order) closes rfl
    (asc.imp Nat.ne_of_lt)
  have merged : (tidyWalk order (s.list order) s).list = mergeOrder order s.list := lists
  have nextRing : mergeOrder order s.list (order + 1) = joined order (s.list order) := by
    rw [mergeOrder, update_self, cascade.higher _ (lt_succ_self order), nil_append]
  refine ⟨⟨?_, tidyWalk_counted cascade.counted merged counts, ?_, ?_, ?_⟩, ?_⟩
  · rw [pages]
    exact cascade.address
  · intro k high
    rw [merged]
    by_cases same : k = order + 1
    · subst same
      rw [nextRing]
      exact asc.sublist (joined_sublist _)
    rw [mergeOrder, update_of_ne same]
    by_cases isOrder : k = order
    · subst isOrder
      rw [update_self]
      exact asc.sublist (kept_sublist _)
    · rw [update_of_ne isOrder]
      exact cascade.ascending k high
  · rw [merged, nextRing]
    exact fun page mem => cascade.bounded page (joined_subset _ mem)
  · intro k above
    rw [merged, mergeOrder, update_of_ne (by omega), update_of_ne (by omega)]
    exact cascade.higher k (by omega)
  · have exchange := @familyCells_mergeOrder order lt s.list
    rw [orderCells_of_joinsUpwards (joinsUpwards_of_ascending asc)] at exchange
    rw [Buddy.freeFrames, merged]
    exact add_right_cancel exchange

lemma Cascade.tidyFrom (small : total ≤ 2 ^ 20) (room : total + 2 ^ 9 ≤ 2 ^ 20 + low) :
    ∀ {left order : Nat} {s : Buddy}, left + order + 1 = nrMemLists → Cascade total low order s →
      (∀ page < total, ((tidyFrom left order s).pages page).address = page * pageSize) ∧
        (tidyFrom left order s).Counted ∧
        (∀ k < nrMemLists, ((tidyFrom left order s).list k).Pairwise (· < ·)) ∧
        (tidyFrom left order s).freeFrames = s.freeFrames
  | 0, _, _, _, cascade => ⟨cascade.address, cascade.counted, cascade.ascending, rfl⟩
  | left + 1, order, s, length, cascade => by
      rw [Mm.tidyFrom]
      split_ifs
      · exact ⟨cascade.address, cascade.counted, cascade.ascending, rfl⟩
      obtain ⟨next, frames⟩ := cascade.walk small room (by omega)
      obtain ⟨addr, cnt, asc, sameFrames⟩ :=
        @Cascade.tidyFrom small room left (order + 1) _ (by omega) next
      exact ⟨addr, cnt, asc, sameFrames.trans frames⟩

end Cascade

lemma initMemTidy_ordered {s : Buddy} (memSize : UInt32)
    (apart : s.Zeroed ∨ pageFns memSize + 2 ^ 9 ≤ 2 ^ 20) :
    Zone.Ordered (pageFns memSize) ⟨initMemTidy memSize s, []⟩ := by
  have scan := initMemFrames_induction memSize frameScan_turn (frameScan_start s)
  have small := (pageFns_lt memSize).le
  have asc : ∀ k < nrMemLists, ((initMemFrames memSize s).list k).Pairwise (· < ·) := by
    intro k _
    by_cases zero : k = 0
    · subst zero
      exact scan.ascending
    · rw [scan.others k zero]
      exact List.Pairwise.nil
  obtain ⟨low, room, lowest⟩ : ∃ low, pageFns memSize + 2 ^ 9 ≤ 2 ^ 20 + low ∧
      ∀ page ∈ (initMemFrames memSize s).list 0, low ≤ page := by
    rcases apart with zeroed | few
    · refine ⟨firstFrame, ?_, fun page mem => ?_⟩
      · rw [firstFrame_eq]
        omega
      · rw [(initMemFrames_frameLoop memSize zeroed).pagesRing, mem_range'_1] at mem
        exact mem.1
    · exact ⟨0, few, fun page _ => Nat.zero_le page⟩
  have cascade : Cascade (pageFns memSize) low 0 (initMemFrames memSize s) :=
    ⟨scan.address, fun order _ => scan.counts order, asc,
      fun page mem => ⟨lowest page mem, scan.bounded page mem⟩,
      fun k above => scan.others k (by omega)⟩
  obtain ⟨addr, cnt, tidied, frames⟩ :=
    @Cascade.tidyFrom _ _ small room (nrMemLists - 1) 0 _ (by decide) cascade
  have isFrames : Zone.frames ⟨initMemTidy memSize s, []⟩ =
      ((initMemFrames memSize s).list 0 : Multiset Nat) := by
    rw [← Buddy.freeFrames_of_pages scan.others, ← frames]
    simp [Zone.frames, cellsOf, initMemTidy, buddyListTidy]
  refine ⟨addr, cnt, ?_, ?_, tidied⟩
  · rw [isFrames, Multiset.coe_nodup]
    exact scan.ascending.imp Nat.ne_of_lt
  · rw [isFrames]
    exact scan.bounded

/-- From the state `init_mem` leaves on, whatever is requested and returned: every ring ascends
strictly by address, and a request that its own ring can serve gets the lowest block of it. -/
theorem initMem_run_ascending {memSize : UInt32} {m booted : Kmem} {z : Zone}
    (apart : m.zone.buddy.Zeroed ∨ pageFns memSize + 2 ^ 9 ≤ 2 ^ 20)
    (boots : initMem memSize m = some booted) (run : booted.zone.Reaches z) :
    (∀ order < nrMemLists, (z.buddy.list order).Pairwise fun left right =>
        (z.buddy.pages left).address < (z.buddy.pages right).address) ∧
      ∀ order < nrMemLists, z.buddy.list order ≠ [] → ∃ page buddy, z.getPages order =
            some (.address (z.buddy.pages page).address, ⟨buddy, ⟨page, order⟩ :: z.outstanding⟩) ∧
          page ∈ z.buddy.list order ∧
          ∀ other ∈ z.buddy.list order,
            (z.buddy.pages page).address ≤ (z.buddy.pages other).address := by
  have ordered :=
    (initMem_lasts (Zone.lasting_ordered _) (initMemTidy_ordered memSize apart) boots).reaches run
  have byAddress : ∀ order < nrMemLists, (z.buddy.list order).Pairwise fun left right =>
      (z.buddy.pages left).address < (z.buddy.pages right).address := by
    intro order inRange
    apply (ordered.ascending order inRange).imp_of_mem
    intro left right isLeft isRight less
    rw [ordered.address left (ordered.page_lt inRange isLeft),
      ordered.address right (ordered.page_lt inRange isRight)]
    exact Nat.mul_lt_mul_of_pos_right less (by decide)
  refine ⟨byAddress, fun order inRange nonempty => ?_⟩
  obtain ⟨target, page, _, buddy, -, ring, isOrder, returns, -⟩ :=
    ordered.getPages inRange ⟨order, le_rfl, inRange, nonempty⟩
  obtain rfl := isOrder nonempty
  refine ⟨page, buddy, returns, ring ▸ mem_cons_self, fun other member => ?_⟩
  have sorted := byAddress target inRange
  rw [ring] at sorted member
  rcases mem_cons.mp member with rfl | later
  · exact le_rfl
  · exact ((pairwise_cons.mp sorted).1 other later).le

theorem initMem_ascending_32MB : ∃ booted page drawn, initMem 0x2000000 blankKmem = some booted ∧
    booted.zone.getPages 4 = some (.address (page * pageSize), drawn) ∧
    ∀ order < nrMemLists, ((drawn.putPages ⟨page, 4⟩).buddy.list order).Pairwise
      fun left right => ((drawn.putPages ⟨page, 4⟩).buddy.pages left).address <
        ((drawn.putPages ⟨page, 4⟩).buddy.pages right).address := by
  obtain ⟨booted, page, drawn, boots, returns, run⟩ := initMem_requests_32MB
  exact ⟨booted, page, drawn, boots, returns,
    (initMem_run_ascending (.inl fun _ => rfl) boots run).1⟩

end PrettyOS.Mm
