import PrettyOS.Mm.PageAlloc

/-!
Contract: what every call of the page allocator preserves.

The conservation argument is carried by the multiset `Zone.frames`: a move of a
block between a ring and the callers, or a split, never changes it.
-/

namespace PrettyOS.Mm

open Lib List Function
open Library.Tiling

def lowMemEnd : Nat := 0x1000000

def firstFrame : Nat := mapNr lowMemEnd

lemma firstFrame_eq : firstFrame = 4096 := by decide

namespace Buddy

structure Describes (s : Buddy) (frames : Nat) : Prop where
  address : ∀ page < frames, (s.pages page).address = page * pageSize
  ram : ∀ page, firstFrame ≤ page → page < frames → (s.pages page).flags &&& sysRam ≠ 0
  small : frames ≤ 2 ^ 20

end Buddy

namespace Zone

def frames (z : Zone) : Multiset Nat :=
  z.buddy.freeFrames + (cellsOf z.outstanding : Multiset Nat)

lemma tiles_iff_frames {z : Zone} {low high : Nat} :
    Tiles (z.buddy.freeBlocks ++ z.outstanding) low high ↔
      z.frames = (List.range' low (high - low) : Multiset Nat) := by
  unfold Tiles frames Buddy.freeFrames Buddy.freeBlocks
  rw [← Multiset.coe_eq_coe, cellsOf_append, ← Multiset.coe_add, coe_cellsOf_familyBlocks]

structure Inv (total : Nat) (z : Zone) : Prop where
  describes : z.buddy.Describes total
  counted : z.buddy.Counted
  aligned : z.buddy.Aligned
  heldOrder : ∀ block ∈ z.outstanding, block.order < nrMemLists
  heldAligned : ∀ block ∈ z.outstanding, block.Aligned
  tiles : Tiles (z.buddy.freeBlocks ++ z.outstanding) firstFrame total

lemma Inv.page_bounds {total : Nat} {z : Zone} (inv : z.Inv total) {order page : Nat}
    (lt : order < nrMemLists) (mem : page ∈ z.buddy.list order) :
    firstFrame ≤ page ∧ page + 2 ^ order ≤ total := by
  have onRing : (⟨page, order⟩ : Block) ∈ z.buddy.freeBlocks := mem_familyBlocks.mpr ⟨lt, mem⟩
  exact inv.tiles.start_bounds (mem_append_left _ onRing)

lemma Inv.page_lt {total : Nat} {z : Zone} (inv : z.Inv total) {order page : Nat}
    (lt : order < nrMemLists) (mem : page ∈ z.buddy.list order) : page < total := by
  have bounds := inv.page_bounds lt mem
  have pos := Nat.two_pow_pos order
  omega

end Zone

namespace Buddy

lemma Counted.setQueue {s : Buddy} (cnt : s.Counted) {order : Nat} {ring : List Nat}
    {delta : Int} (change : ((s.list order).length : Int) + delta = ring.length) :
    (s.setQueue order ring delta).Counted := by
  intro other lt
  by_cases same : other = order
  · subst same
    simp [cnt other lt, change]
  · simp [same, cnt other lt]

lemma Aligned.setQueue {s : Buddy} (aligned : s.Aligned) {order : Nat} {ring : List Nat}
    {delta : Int} (ringAligned : ∀ page ∈ ring, 2 ^ order ∣ page) :
    (s.setQueue order ring delta).Aligned := by
  intro other lt page mem
  by_cases same : other = order
  · subst same
    simp only [setQueue_list, update_self] at mem
    exact ringAligned page mem
  · simp only [setQueue_list, update_of_ne same] at mem
    exact aligned other lt page mem

lemma Describes.setQueue {s : Buddy} {total : Nat} (desc : s.Describes total) (order : Nat)
    (ring : List Nat) (delta : Int) : (s.setQueue order ring delta).Describes total :=
  ⟨desc.address, desc.ram, desc.small⟩

lemma freeFrames_setQueue (s : Buddy) {order : Nat} (lt : order < nrMemLists)
    (ring : List Nat) (delta : Int) :
    (s.setQueue order ring delta).freeFrames + orderCells order (s.list order) =
      s.freeFrames + orderCells order ring := by
  simpa [freeFrames] using familyCells_update lt s.list ring

lemma freeFrames_pop {s : Buddy} {order page : Nat} {rest : List Nat}
    (lt : order < nrMemLists) (ring : s.list order = page :: rest) (delta : Int) :
    (s.setQueue order rest delta).freeFrames + ((Block.mk page order).cells : Multiset Nat) =
      s.freeFrames := by
  have exchange := freeFrames_setQueue s lt rest delta
  rw [ring, orderCells_cons, ← add_assoc] at exchange
  exact add_right_cancel exchange

lemma freeFrames_push {s : Buddy} {order : Nat} {ring : List Nat} (page : Nat)
    (lt : order < nrMemLists) (link : ring.Perm (page :: s.list order)) (delta : Int) :
    (s.setQueue order ring delta).freeFrames =
      s.freeFrames + ((Block.mk page order).cells : Multiset Nat) := by
  have exchange := freeFrames_setQueue s lt ring delta
  rw [orderCells_perm link, orderCells_cons, ← add_assoc] at exchange
  exact add_right_cancel exchange

end Buddy

namespace Zone

variable {total : Nat} {z : Zone}

lemma Inv.put (inv : z.Inv total) {block : Block} (held : block ∈ z.outstanding)
    {ring : List Nat} (link : ring.Perm (block.start :: z.buddy.list block.order)) :
    Inv total ⟨z.buddy.setQueue block.order ring 1, z.outstanding.erase block⟩ where
  describes := inv.describes.setQueue _ _ _
  counted := inv.counted.setQueue (by simp [link.length_eq])
  aligned := by
    refine inv.aligned.setQueue fun other mem => ?_
    rcases mem_cons.mp (link.mem_iff.mp mem) with rfl | old
    · exact inv.heldAligned block held
    · exact inv.aligned _ (inv.heldOrder block held) other old
  heldOrder := fun other mem => inv.heldOrder other (mem_of_mem_erase mem)
  heldAligned := fun other mem => inv.heldAligned other (mem_of_mem_erase mem)
  tiles := by
    have before := tiles_iff_frames.mp inv.tiles
    rw [tiles_iff_frames, ← before]
    simp only [frames]
    rw [Buddy.freeFrames_push _ (inv.heldOrder block held) link, coe_cellsOf_erase held, add_assoc]

end Zone

lemma scanQueues_eq {s : Buddy} (cnt : s.Counted) {order target : Nat}
    (le : order ≤ target) (lt : target < nrMemLists) (found : s.list target ≠ [])
    (empty : ∀ k, order ≤ k → k < target → s.list k = []) :
    scanQueues s (nrMemLists - order) order = some target := by
  obtain ⟨distance, rfl⟩ := Nat.exists_eq_add_of_le le
  induction distance generalizing order with
  | zero =>
    obtain ⟨left, leftEq⟩ : ∃ left, nrMemLists - order = left + 1 :=
      ⟨nrMemLists - order - 1, by omega⟩
    have pos : s.nrFree order ≠ 0 := by
      rw [cnt order (by omega)]
      simpa using found
    simp [leftEq, scanQueues, pos]
  | succ distance ih =>
    obtain ⟨left, leftEq⟩ : ∃ left, nrMemLists - order = left + 1 :=
      ⟨nrMemLists - order - 1, by omega⟩
    have zero : s.nrFree order = 0 := by
      rw [cnt order (by omega), empty order le_rfl (by omega)]
      rfl
    have shift : order + (distance + 1) = order + 1 + distance := by omega
    have next := @ih (order + 1) (by omega)
      (by omega) (by rwa [← shift]) (fun k low high => empty k (by omega) (by omega))
    have leftNext : nrMemLists - (order + 1) = left := by omega
    rw [leftNext] at next
    simp only [leftEq, scanQueues, zero, ↓reduceIte, next, shift]

lemma Zone.Available.least {z : Zone} {order : Nat} (available : z.Available order) :
    ∃ target, order ≤ target ∧ target < nrMemLists ∧ z.buddy.list target ≠ [] ∧
      ∀ k, order ≤ k → k < target → z.buddy.list k = [] := by
  classical
  have witness := available
  obtain ⟨le, lt, found⟩ := Nat.find_spec witness
  refine ⟨Nat.find witness, le, lt, found, fun k low below => ?_⟩
  by_contra ne
  exact Nat.find_min witness below ⟨low, by omega, ne⟩

lemma buddyListDel_cons {s : Buddy} {order page : Nat} {rest : List Nat}
    (lt : order < nrMemLists) (ring : s.list order = page :: rest) :
    buddyListDel order s = .ok (page, s.setQueue order rest (-1)) := by
  simp [buddyListDel, ring, listGetHeadDel, Nat.not_le.mpr lt]

lemma buddyListAdd_eq {s : Buddy} {order : Nat} (lt : order < nrMemLists) (page : Nat) :
    buddyListAdd page order s = (0, s.setQueue order (s.list order ++ [page]) 1) := by
  simp [buddyListAdd, listAddHead, Nat.not_le.mpr lt]

def lengthAfter (s : Buddy) (order target k : Nat) : Nat :=
  if k = target then (s.list k).length - 1
  else if order ≤ k ∧ k < target then 1
  else (s.list k).length

def served (lists : Nat → List Nat) (order target page : Nat) (k : Nat) : List Nat :=
  if k = target then (lists k).tail
  else if order ≤ k ∧ k < target then [page + 2 ^ k]
  else lists k

lemma length_served (s : Buddy) (order target page k : Nat) :
    (served s.list order target page k).length = lengthAfter s order target k := by
  unfold served lengthAfter
  split_ifs <;> simp

def Buddy.halved (s : Buddy) (half page : Nat) (rest : List Nat) : Buddy :=
  ((s.setQueue (half + 1) rest (-1)).setQueue half [page] 1).setQueue half
    [page, page + 2 ^ half] 1

section Halved

variable {s : Buddy} {half page : Nat} {rest : List Nat}

lemma halved_list : (s.halved half page rest).list =
    update (update s.list (half + 1) rest) half [page, page + 2 ^ half] := by
  simp [Buddy.halved]

lemma halved_counted (cnt : s.Counted) (ring : s.list (half + 1) = page :: rest)
    (empty : s.list half = []) : (s.halved half page rest).Counted := by
  unfold Buddy.halved
  refine Buddy.Counted.setQueue (Buddy.Counted.setQueue (cnt.setQueue ?_) ?_) ?_
  · simp [ring]
  · simp [empty]
  · simp

lemma halved_freeFrames (lt : half + 1 < nrMemLists) (ring : s.list (half + 1) = page :: rest)
    (empty : s.list half = []) : (s.halved half page rest).freeFrames = s.freeFrames := by
  have below := Nat.lt_of_succ_lt lt
  unfold Buddy.halved
  rw [Buddy.freeFrames_push (page + 2 ^ half) below (by simp [List.Perm.swap]),
    Buddy.freeFrames_push page below (by simp [empty]), ← Buddy.freeFrames_pop lt ring (-1),
    Block.cells_succ, ← Multiset.coe_add, add_assoc]

lemma served_halved {order : Nat} (le : order ≤ half) (ring : s.list (half + 1) = page :: rest) :
    served (s.halved half page rest).list order half page =
      served s.list order (half + 1) page := by
  funext k
  unfold served
  rw [halved_list]
  by_cases atTarget : k = half + 1
  · subst atTarget
    simp [ring]
  by_cases atHalf : k = half
  · subst atHalf
    simp [le]
  · have between : order ≤ k ∧ k < half ↔ order ≤ k ∧ k < half + 1 := by omega
    simp [atTarget, atHalf, between]

end Halved

lemma getFreePagesRepeat_eq {s : Buddy} {order target page rounds : Nat} {rest : List Nat}
    (cnt : s.Counted) (le : order ≤ target) (lt : target < nrMemLists)
    (ring : s.list target = page :: rest) (empty : ∀ k, order ≤ k → k < target → s.list k = [])
    (enough : target - order < rounds) :
    ∃ t, getFreePagesRepeat rounds order s = some (.address (s.pages page).address, t) ∧
      t.pages = s.pages ∧ t.Counted ∧ t.list = served s.list order target page ∧
      t.freeFrames + ((Block.mk page order).cells : Multiset Nat) = s.freeFrames := by
  -- the induction is on the distance between the two orders
  obtain ⟨distance, rfl⟩ := Nat.exists_eq_add_of_le le
  obtain ⟨rounds, rfl⟩ : ∃ prev, rounds = prev + 1 := ⟨rounds - 1, by omega⟩
  induction distance generalizing s rest rounds with
  | zero =>
    rw [Nat.add_zero] at lt ring
    have pos : 0 < s.nrFree order := by
      rw [cnt order lt, ring]
      simp
    refine ⟨s.setQueue order rest (-1), ?_, rfl, ?_, ?_, ?_⟩
    · simp [getFreePagesRepeat, pos, buddyListDel_cons lt ring]
    · exact cnt.setQueue (by simp [ring])
    · funext k
      by_cases same : k = order
      · subst same
        simp [served, ring]
      · have out : ¬ (order ≤ k ∧ k < order) := by omega
        simp [served, same, out]
    · exact Buddy.freeFrames_pop lt ring (-1)
  | succ distance ih =>
    have below : order + distance < nrMemLists := by omega
    have lowerEmpty : s.list (order + distance) = [] := empty _ (by omega) (by omega)
    have notPositive : ¬ 0 < s.nrFree order := by
      rw [cnt order (by omega), empty order le_rfl (by omega)]
      simp
    have found : s.list (order + distance + 1) ≠ [] := by
      rw [show s.list (order + distance + 1) = page :: rest from ring]
      exact cons_ne_nil _ _
    have scan : scanQueues s (nrMemLists - order) order = some (order + distance + 1) :=
      scanQueues_eq cnt le lt found empty
    have taken : buddyListDel (order + distance + 1) s =
        .ok (page, s.setQueue (order + distance + 1) rest (-1)) := buddyListDel_cons lt ring
    obtain ⟨prev, rfl⟩ : ∃ prev, rounds = prev + 1 := ⟨rounds - 1, by omega⟩
    -- the two halves are the only blocks of their order, so the next round finds them first
    obtain ⟨t, ran, pages, countedAfter, lists, frames⟩ :=
      @ih (s.halved (order + distance) page rest) _
        (halved_counted cnt ring lowerEmpty) (by omega) below
        (by rw [halved_list, update_self])
        (fun k low high => by
          rw [halved_list, update_of_ne (by omega), update_of_ne (by omega)]
          exact empty k low (by omega))
        prev (by omega)
    refine ⟨t, ?_, pages, countedAfter, ?_, ?_⟩
    · rw [getFreePagesRepeat, if_neg notPositive, scan]
      simp only [taken, buddyListAdd_eq below, power_of_lt_nrMemLists below]
      simpa [lowerEmpty, Buddy.halved] using ran
    · rw [lists]
      exact served_halved (Nat.le_add_right _ _) ring
    · rw [frames]
      exact halved_freeFrames lt ring lowerEmpty

lemma getFreePagesRepeat_spec {total order target rounds : Nat} {z : Zone} (inv : z.Inv total)
    (le : order ≤ target) (lt : target < nrMemLists) (found : z.buddy.list target ≠ [])
    (empty : ∀ k, order ≤ k → k < target → z.buddy.list k = []) (enough : target - order < rounds) :
    ∃ page buddy,
      getFreePagesRepeat rounds order z.buddy = some (.address (page * pageSize), buddy) ∧
        Zone.Inv total ⟨buddy, ⟨page, order⟩ :: z.outstanding⟩ ∧
        ∀ k, (buddy.list k).length = lengthAfter z.buddy order target k := by
  obtain ⟨page, _, ring⟩ := exists_cons_of_ne_nil found
  have onRing := ring ▸ mem_cons_self
  have pageAligned := inv.aligned target lt page onRing
  obtain ⟨buddy, ran, pages, cnt, lists, frames⟩ :=
    getFreePagesRepeat_eq inv.counted le lt ring empty enough
  rw [inv.describes.address page (inv.page_lt lt onRing)] at ran
  refine ⟨page, buddy, ran, ⟨⟨?_, ?_, inv.describes.small⟩, cnt, ?_, ?_, ?_, ?_⟩, ?_⟩
  · rw [pages]
    exact inv.describes.address
  · rw [pages]
    exact inv.describes.ram
  · intro k high other mem
    rw [lists, served] at mem
    split_ifs at mem with atTarget between
    · exact inv.aligned k high other (mem_of_mem_tail mem)
    · rw [mem_singleton.mp mem]
      exact ((Nat.pow_dvd_pow 2 between.2.le).trans pageAligned).add (dvd_refl _)
    · exact inv.aligned k high other mem
  · rw [forall_mem_cons]
    exact ⟨lt_of_le_of_lt le lt, inv.heldOrder⟩
  · rw [forall_mem_cons]
    exact ⟨(Nat.pow_dvd_pow 2 le).trans pageAligned, inv.heldAligned⟩
  · rw [Zone.tiles_iff_frames, ← Zone.tiles_iff_frames.mp inv.tiles, Zone.frames, Zone.frames,
      ← frames]
    simp [cellsOf, add_assoc]
  · intro k
    rw [lists]
    exact length_served z.buddy order target page k

lemma Zone.Inv.getPages {total order : Nat} {z : Zone} (inv : z.Inv total)
    (lt : order < nrMemLists) (available : z.Available order) :
    ∃ page buddy, z.getPages order =
        some (.address (page * pageSize), ⟨buddy, ⟨page, order⟩ :: z.outstanding⟩) ∧
      Zone.Inv total ⟨buddy, ⟨page, order⟩ :: z.outstanding⟩ ∧
      ∀ k, (buddy.list k).length ≤ max 1 (z.buddy.list k).length := by
  obtain ⟨_, le, targetInRange, found, empty⟩ := available.least
  obtain ⟨page, buddy, ran, after, lengths⟩ := @getFreePagesRepeat_spec _ _ _ nrMemLists _ inv
    le targetInRange found empty (by omega)
  refine ⟨page, buddy, ?_, after, fun k => ?_⟩
  · have frame : mapNr (page * pageSize) = page := Nat.mul_div_cancel _ (by decide)
    simp [Zone.getPages, getFreePages, Nat.not_le.mpr lt, ran, frame]
  · rw [lengths k, lengthAfter]
    split_ifs <;> omega

lemma scanQueues_eq_none {s : Buddy} (cnt : s.Counted) :
    ∀ left order, left + order ≤ nrMemLists →
      (∀ k, order ≤ k → k < nrMemLists → s.list k = []) → scanQueues s left order = none := by
  intro left
  induction left with
  | zero =>
    intro order _ _
    rfl
  | succ left ih =>
    intro order bounded empty
    have zero : s.nrFree order = 0 := by
      rw [cnt order (by omega), empty order le_rfl (by omega)]
      rfl
    rw [scanQueues, if_pos zero]
    apply ih
    · omega
    · intro k low high
      exact empty k (by omega) high

lemma getFreePages_eq_none {s : Buddy} {order : Nat} (cnt : s.Counted) (lt : order < nrMemLists)
    (empty : ∀ k, order ≤ k → k < nrMemLists → s.list k = []) : getFreePages order s = none := by
  have notPositive : ¬ 0 < s.nrFree order := by
    rw [cnt order lt, empty order le_rfl lt]
    simp
  have scan := scanQueues_eq_none cnt (nrMemLists - order) order (by omega) empty
  rw [getFreePages, if_neg (Nat.not_le.mpr lt)]
  change getFreePagesRepeat (9 + 1) order s = none
  rw [getFreePagesRepeat, if_neg notPositive, scan]

lemma Zone.available_of_getPages {order : Nat} {z next : Zone} {exit : GetExit}
    (cnt : z.buddy.Counted) (lt : order < nrMemLists)
    (ran : z.getPages order = some (exit, next)) : z.Available order := by
  by_contra unavailable
  have empty : ∀ k, order ≤ k → k < nrMemLists → z.buddy.list k = [] := by
    intro k low high
    by_contra ne
    exact unavailable ⟨k, low, high, ne⟩
  rw [Zone.getPages, getFreePages_eq_none cnt lt empty] at ran
  cases ran

lemma Zone.Inv.fresh {total : Nat} {block : Block} {buddy : Buddy} {held : List Block}
    (inv : Zone.Inv total ⟨buddy, block :: held⟩) : block ∉ held := by
  intro mem
  have apart := (pairwise_append.mp inv.tiles.apart).2.1
  exact starts_ne_of_apart ((pairwise_cons.mp apart).1 block mem) rfl

lemma insertLine_perm (pages : Nat → Page) (page : Nat) {ring : List Nat} (ne : ring ≠ []) :
    (insertLine pages page ring).Perm (page :: ring) := by
  induction ring with
  | nil => exact absurd rfl ne
  | cons pos rest ih =>
    unfold insertLine
    split_ifs with less last
    · exact List.Perm.refl _
    · subst last
      exact List.Perm.swap _ _ _
    · exact ((ih last).cons pos).trans (List.Perm.swap _ _ _)

lemma buddyListAddLine_eq {s : Buddy} {order : Nat} (lt : order < nrMemLists) (page : Nat) :
    ∃ ring, buddyListAddLine page order s = (0, s.setQueue order ring 1) ∧
      ring.Perm (page :: s.list order) := by
  unfold buddyListAddLine
  rw [if_neg (Nat.not_le.mpr lt)]
  split_ifs with empty
  · exact ⟨_, rfl, perm_append_singleton _ _⟩
  · have ne : s.list order ≠ [] := by simpa [listEmptyCareful] using empty
    exact ⟨_, rfl, insertLine_perm s.pages page ne⟩

lemma freePages_eq_addLine {s : Buddy} {order page : Nat} (lt : order < nrMemLists)
    (ram : (s.pages page).flags &&& sysRam ≠ 0) :
    freePages (some page) order s = (0, (buddyListAddLine page order s).2) := by
  obtain ⟨_, link, -⟩ := buddyListAddLine_eq (s := s) lt page
  simp [freePages, freePagesOk, Nat.not_le.mpr lt, ram, link]

lemma Zone.Inv.putPages {total : Nat} {z : Zone} (inv : z.Inv total) {block : Block}
    (held : block ∈ z.outstanding) : (z.putPages block).Inv total := by
  have lt := inv.heldOrder block held
  have bounds := inv.tiles.start_bounds (mem_append_right _ held)
  have pos : 0 < 2 ^ block.order := Nat.two_pow_pos _
  have ram := inv.describes.ram block.start bounds.1 (by omega)
  obtain ⟨ring, link, permutation⟩ := buddyListAddLine_eq (s := z.buddy) lt block.start
  have res : z.putPages block =
      ⟨z.buddy.setQueue block.order ring 1, z.outstanding.erase block⟩ := by
    simp [Zone.putPages, freePages_eq_addLine lt ram, link]
  rw [res]
  exact inv.put held permutation

lemma Zone.Inv.step {total : Nat} {z next : Zone} (inv : z.Inv total) (step : Step z next) :
    next.Inv total := by
  cases step with
  | get lt available ran =>
    obtain ⟨_, _, res, after, -⟩ := inv.getPages lt available
    rw [res] at ran
    obtain ⟨-, rfl⟩ := Prod.mk.inj (Option.some.inj ran)
    exact after
  | free held => exact inv.putPages held

lemma Zone.Inv.reaches {total : Nat} {z last : Zone} (inv : z.Inv total)
    (run : z.Reaches last) : last.Inv total := by
  induction run with
  | refl => exact inv
  | tail _ step ih => exact ih.step step

end PrettyOS.Mm
