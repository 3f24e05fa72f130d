import PrettyOS.Mm.ZoneInvariant

/-!
Contract: what `buddy_list_tidy` does to the free frames.

The pass links a merged block at the end of the next ring and accepts a
neighbour on either side, so two things can go wrong: the first entry of a pair
may lie above the second (the merged block then starts at the upper half), and
it may not be aligned to the doubled size. The first defect raises the sum of
all free frames, the second leaves a misaligned block that no later merge
repairs; both are visible at the end.
-/

namespace PrettyOS.Mm

open Lib List
open Function
open Library.Tiling

def Adjacent (order pos next : Nat) : Prop :=
  next = pos + 2 ^ order ∨ pos = next + 2 ^ order

instance (order pos next : Nat) : Decidable (Adjacent order pos next) := by
  unfold Adjacent
  infer_instance

def kept (order : Nat) : List Nat → List Nat
  | pos :: next :: rest =>
      if Adjacent order pos next then kept order rest else pos :: kept order (next :: rest)
  | ring => ring

def joined (order : Nat) : List Nat → List Nat
  | pos :: next :: rest =>
      if Adjacent order pos next then pos :: joined order rest else joined order (next :: rest)
  | _ => []

def JoinsBuddies (order : Nat) : List Nat → Prop
  | pos :: next :: rest =>
      if Adjacent order pos next then
        (2 ^ (order + 1) ∣ pos ∧ next = pos + 2 ^ order) ∧ JoinsBuddies order rest
      else
        JoinsBuddies order (next :: rest)
  | _ => True

def JoinsUpwards (order : Nat) : List Nat → Prop
  | pos :: next :: rest =>
      if Adjacent order pos next then next = pos + 2 ^ order ∧ JoinsUpwards order rest
      else JoinsUpwards order (next :: rest)
  | _ => True

instance joinsBuddiesDecidable (order : Nat) :
    (ring : List Nat) → Decidable (JoinsBuddies order ring)
  | pos :: next :: rest =>
    have := joinsBuddiesDecidable order rest
    have := joinsBuddiesDecidable order (next :: rest)
    inferInstanceAs (Decidable (if Adjacent order pos next then
      (2 ^ (order + 1) ∣ pos ∧ next = pos + 2 ^ order) ∧ JoinsBuddies order rest
      else JoinsBuddies order (next :: rest)))
  | [] => isTrue trivial
  | [_] => isTrue trivial

def mergeOrder (order : Nat) (lists : Nat → List Nat) : Nat → List Nat :=
  update (update lists order (kept order (lists order))) (order + 1)
    (lists (order + 1) ++ joined order (lists order))

def TidySafe : (left order : Nat) → (Nat → List Nat) → Prop
  | 0, _, _ => True
  | left + 1, order, lists =>
      lists order = [] ∨
        JoinsBuddies order (lists order) ∧ TidySafe left (order + 1) (mergeOrder order lists)

section Cells

variable {order : Nat}

section Rings

variable {lists : Nat → List Nat} {k : Nat}

@[simp] theorem mergeOrder_self : mergeOrder order lists order = kept order (lists order) := by
  simp [mergeOrder]

@[simp] theorem mergeOrder_succ :
    mergeOrder order lists (order + 1) = lists (order + 1) ++ joined order (lists order) := by
  simp [mergeOrder]

lemma mergeOrder_of_ne (low : k ≠ order) (high : k ≠ order + 1) :
    mergeOrder order lists k = lists k := by
  simp [mergeOrder, low, high]

end Rings

lemma kept_sublist (ring : List Nat) : (kept order ring).Sublist ring := by
  fun_induction kept order ring with
  | case1 pos next rest adjacent ih =>
    exact (ih.cons next).cons pos
  | case2 pos next rest apart ih => exact ih.cons_cons pos
  | case3 ring short => exact List.Sublist.refl ring

lemma joined_sublist (ring : List Nat) : (joined order ring).Sublist ring := by
  fun_induction joined order ring with
  | case1 pos next rest adjacent ih =>
    exact (ih.cons next).cons_cons pos
  | case2 pos next rest apart ih => exact ih.cons pos
  | case3 => exact nil_sublist _

lemma joined_subset (ring : List Nat) : joined order ring ⊆ ring := (joined_sublist ring).subset

lemma mem_of_mem_mergeOrder {lists : Nat → List Nat} {page k : Nat}
    (mem : page ∈ mergeOrder order lists k) :
    page ∈ lists k ∨ k = order + 1 ∧ page ∈ joined order (lists order) := by
  by_cases same : k = order
  · subst same
    exact .inl ((kept_sublist _).subset (by simpa using mem))
  by_cases next : k = order + 1
  · subst next
    simpa using mem
  · exact .inl (by rwa [mergeOrder_of_ne same next] at mem)

lemma walk_of_short {ring : List Nat} (short : ∀ pos next rest, ring ≠ pos :: next :: rest) :
    joined order ring = [] ∧ kept order ring = ring ∧ JoinsBuddies order ring := by
  cases ring with
  | nil => simp [joined, kept, JoinsBuddies]
  | cons pos rest =>
    cases rest with
    | nil => simp [joined, kept, JoinsBuddies]
    | cons next rest => exact absurd rfl (short pos next rest)

lemma length_kept_add (ring : List Nat) :
    (kept order ring).length + 2 * (joined order ring).length = ring.length := by
  fun_induction kept order ring with
  | case1 pos next rest adjacent ih =>
    simp only [joined, adjacent, ↓reduceIte, length_cons]
    omega
  | case2 pos next rest apart ih =>
    simp only [joined, apart, ↓reduceIte, length_cons] at ih ⊢
    omega
  | case3 ring short => simp [walk_of_short short]

lemma joinsUpwards_of_ascending {ring : List Nat} (asc : ring.Pairwise (· < ·)) :
    JoinsUpwards order ring := by
  fun_induction JoinsUpwards order ring with
  | case1 pos next rest adjacent ih =>
    obtain ⟨above, ascendingRest⟩ := pairwise_cons.mp asc
    have less := above next mem_cons_self
    have positive := Nat.two_pow_pos order
    exact ⟨adjacent.resolve_right (by omega), ih ascendingRest.of_cons⟩
  | case2 pos next rest apart ih => exact ih asc.of_cons
  | case3 => trivial

lemma orderCells_of_joinsUpwards {ring : List Nat} (upwards : JoinsUpwards order ring) :
    orderCells order (kept order ring) + orderCells (order + 1) (joined order ring) =
      orderCells order ring := by
  fun_induction kept order ring with
  | case1 pos next rest adjacent ih =>
    simp only [JoinsUpwards, adjacent, ↓reduceIte] at upwards
    obtain ⟨rfl, restUpwards⟩ := upwards
    have pair : orderCells order (pos :: (pos + 2 ^ order) :: rest) =
        orderCells (order + 1) [pos] + orderCells order rest := by
      rw [← orderCells_halves, ← orderCells_append]
      rfl
    rw [pair, ← ih restUpwards]
    simp only [joined, adjacent, ↓reduceIte, orderCells_cons, orderCells_nil, add_zero]
    abel
  | case2 pos next rest apart ih =>
    simp only [JoinsUpwards, apart, ↓reduceIte] at upwards
    simp only [joined, apart, ↓reduceIte]
    rw [orderCells_cons order pos (kept order _), add_assoc, ih upwards, ← orderCells_cons]
  | case3 ring short => rw [(walk_of_short short).1, orderCells_nil, add_zero]

lemma sum_cells_reversed (order next : Nat) :
    (Block.mk (next + 2 ^ order) order).cells.sum + (Block.mk next order).cells.sum <
      (Block.mk (next + 2 ^ order) (order + 1)).cells.sum := by
  have pos := Nat.two_pow_pos order
  rw [Block.cells_succ, sum_append]
  exact Nat.add_lt_add_left (Block.sum_cells_lt (by omega)) _

lemma sum_orderCells_cons (order start : Nat) (rest : List Nat) :
    (orderCells order (start :: rest)).sum =
      (Block.mk start order).cells.sum + (orderCells order rest).sum := by
  rw [orderCells_cons, Multiset.sum_add, Multiset.sum_coe]

lemma sum_orderCells_walk (ring : List Nat) :
    (orderCells order ring).sum ≤ (orderCells order (kept order ring)).sum +
          (orderCells (order + 1) (joined order ring)).sum ∧
      ((orderCells order ring).sum = (orderCells order (kept order ring)).sum +
            (orderCells (order + 1) (joined order ring)).sum →
        (∀ page ∈ joined order ring, 2 ^ (order + 1) ∣ page) → JoinsBuddies order ring) := by
  fun_induction kept order ring with
  | case1 pos next rest adjacent ih =>
    obtain ⟨grows, exact⟩ := ih
    simp only [joined, JoinsBuddies, adjacent, ↓reduceIte, sum_orderCells_cons]
    rcases adjacent with rfl | rfl
    · have halves : (Block.mk pos (order + 1)).cells.sum =
          (Block.mk pos order).cells.sum + (Block.mk (pos + 2 ^ order) order).cells.sum := by
        rw [Block.cells_succ, sum_append]
      refine ⟨by omega, fun same aligned => ⟨⟨aligned pos mem_cons_self, rfl⟩, ?_⟩⟩
      exact exact (by omega) fun page mem => aligned page (mem_cons_of_mem pos mem)
    · have raised := sum_cells_reversed order next
      exact ⟨by omega, fun same => absurd same (by omega)⟩
  | case2 pos next rest apart ih =>
    obtain ⟨grows, exact⟩ := ih
    simp only [joined, JoinsBuddies, apart, ↓reduceIte]
    rw [sum_orderCells_cons order pos (kept order _), sum_orderCells_cons order pos (next :: rest)]
    exact ⟨by omega, fun same aligned => exact (by omega) aligned⟩
  | case3 ring short => simp [walk_of_short short]

lemma JoinsBuddies.aligned {ring : List Nat} (buddies : JoinsBuddies order ring) :
    JoinsUpwards order ring ∧ ∀ page ∈ joined order ring, 2 ^ (order + 1) ∣ page := by
  fun_induction joined order ring with
  | case1 pos next rest adjacent ih =>
    simp only [JoinsBuddies, JoinsUpwards, adjacent, ↓reduceIte] at buddies ⊢
    obtain ⟨upwards, aligned⟩ := ih buddies.2
    exact ⟨⟨buddies.1.2, upwards⟩, forall_mem_cons.mpr ⟨buddies.1.1, aligned⟩⟩
  | case2 pos next rest apart ih =>
    simp only [JoinsBuddies, JoinsUpwards, apart, ↓reduceIte] at buddies ⊢
    exact ih buddies
  | case3 => simp [JoinsUpwards]

lemma ring_aligned_of_walk {ring : List Nat}
    (keptAligned : ∀ page ∈ kept order ring, 2 ^ order ∣ page)
    (joinedAligned : ∀ page ∈ joined order ring, 2 ^ (order + 1) ∣ page) :
    ∀ page ∈ ring, 2 ^ order ∣ page := by
  fun_induction kept order ring with
  | case1 pos next rest adjacent ih =>
    simp only [joined, adjacent, ↓reduceIte, forall_mem_cons] at joinedAligned
    have posAligned := (Nat.pow_dvd_pow 2 (Nat.le_succ order)).trans joinedAligned.1
    have nextAligned : 2 ^ order ∣ next := by
      rcases adjacent with rfl | rfl
      · exact posAligned.add (dvd_refl _)
      · exact (Nat.dvd_add_left (dvd_refl _)).mp posAligned
    simp only [forall_mem_cons]
    exact ⟨posAligned, nextAligned, ih keptAligned joinedAligned.2⟩
  | case2 pos next rest apart ih =>
    simp only [joined, apart, ↓reduceIte] at joinedAligned
    rw [forall_mem_cons] at keptAligned ⊢
    exact ⟨keptAligned.1, ih keptAligned.2 joinedAligned⟩
  | case3 ring short => exact keptAligned

end Cells

structure Buddy.Separate (total low : Nat) (s : Buddy) : Prop where
  inRam : ∀ k, low ≤ k → k < nrMemLists → ∀ page ∈ s.list k, firstFrame ≤ page ∧ page < total
  nodup : ∀ k, low ≤ k → k < nrMemLists → (s.list k).Nodup
  disjoint : ∀ j k, low ≤ j → j < k → k < nrMemLists → (s.list j).Disjoint (s.list k)

lemma isPageclosed_eq_of_room {s : Buddy} {total low order pos next : Nat}
    (addr : ∀ page < total, (s.pages page).address = page * pageSize)
    (small : total ≤ 2 ^ 20) (room : total + 2 ^ 9 ≤ 2 ^ 20 + low) (lt : order < nrMemLists)
    (posFrame : low ≤ pos ∧ pos < total) (nextFrame : low ≤ next ∧ next < total) :
    isPageclosed s pos next order = decide (Adjacent order pos next) := by
  have size := two_pow_le_of_order lt
  rw [Bool.eq_iff_iff, decide_eq_true_iff]
  simp only [isPageclosed, addr pos posFrame.2, addr next nextFrame.2,
    power_of_lt_nrMemLists lt, Adjacent, pageSize, wordSize, Bool.or_eq_true, beq_iff_eq]
  omega

lemma isPageclosed_eq {s : Buddy} {total order pos next : Nat} (desc : s.Describes total)
    (lt : order < nrMemLists) (posFrame : firstFrame ≤ pos ∧ pos < total)
    (nextFrame : firstFrame ≤ next ∧ next < total) :
    isPageclosed s pos next order = decide (Adjacent order pos next) := by
  have bound := desc.small
  have low := firstFrame_eq
  exact isPageclosed_eq_of_room desc.address bound (by omega) lt posFrame nextFrame

lemma listDel_pair {pos next : Nat} {before rest : List Nat}
    (nodup : (before ++ pos :: next :: rest).Nodup) :
    listDel pos (listDel next (before ++ pos :: next :: rest)) = before ++ rest := by
  have apart := nodup_append.mp nodup
  have posFresh : pos ∉ before := fun mem => apart.2.2 pos mem pos (by simp) rfl
  have nextFresh : next ∉ before ++ [pos] := by
    simp only [mem_append, mem_singleton, not_or]
    refine ⟨fun mem => apart.2.2 next mem next (by simp) rfl, fun same => ?_⟩
    exact (nodup_cons.mp apart.2.1).1 (by simp [same])
  have shift : before ++ pos :: next :: rest = (before ++ [pos]) ++ next :: rest := by simp
  rw [shift, listDel_append_cons nextFresh, append_assoc, singleton_append,
    listDel_append_cons posFresh]

lemma tidyWalk_spec {order : Nat} (before ring : List Nat) {s : Buddy}
    (closes : ∀ pos ∈ ring, ∀ next ∈ ring,
      isPageclosed s pos next order = decide (Adjacent order pos next))
    (layout : s.list order = before ++ ring) (nodup : (before ++ ring).Nodup) :
    (tidyWalk order ring s).pages = s.pages ∧ (tidyWalk order ring s).list =
        update (update s.list order (before ++ kept order ring)) (order + 1)
          (s.list (order + 1) ++ joined order ring) ∧
      (tidyWalk order ring s).nrFree = update (update s.nrFree order
            (s.nrFree order - 2 * (joined order ring).length)) (order + 1)
          (s.nrFree (order + 1) + (joined order ring).length) := by
  -- the induction follows the walk; `before` is what `pos` has already passed
  fun_induction tidyWalk order ring s generalizing before with
  | case1 pos next rest s closed cut ih =>
    rw [closes pos (by simp) next (by simp), decide_eq_true_eq] at closed
    have unlinkedList : cut.list order = before ++ rest := by
      simp only [cut, layout, listDel_pair nodup, Buddy.setQueue_list, update_self]
    obtain ⟨pages, lists, counts⟩ := ih before
      (fun p isP n isN => closes p (by simp [isP]) n (by simp [isN]))
      (by simpa using unlinkedList)
      (nodup.sublist (((sublist_cons_self next rest).trans
        (sublist_cons_self pos _)).append_left before))
    refine ⟨by simpa [cut] using pages, ?_, ?_⟩
    · rw [lists]
      funext k
      by_cases high : k = order + 1
      · subst high
        simp [joined, closed, listAddHead, cut]
      by_cases low : k = order
      · subst low
        simp [kept, closed]
      · simp [high, low, cut]
    rw [counts]
    funext k
    by_cases high : k = order + 1
    · subst high
      simp [joined, closed, cut]
      omega
    by_cases low : k = order
    · subst low
      simp [joined, closed, cut]
      omega
    · simp [high, low, cut]
  | case2 pos next rest s notClosed ih =>
    rw [closes pos (by simp) next (by simp), decide_eq_true_eq] at notClosed
    have shift : before ++ pos :: next :: rest = (before ++ [pos]) ++ next :: rest := by simp
    obtain ⟨pages, lists, counts⟩ := ih (before ++ [pos])
      (fun p isP n isN => closes p (mem_cons_of_mem _ isP) n (mem_cons_of_mem _ isN))
      (by rw [layout, shift]) (by rwa [← shift])
    refine ⟨pages, ?_, ?_⟩
    · rw [lists]
      simp [kept, joined, notClosed]
    · rw [counts]
      simp [joined, notClosed]
  | case3 ring s short =>
    refine ⟨rfl, ?_, ?_⟩
    · simp [walk_of_short short, ← layout]
    · simp [walk_of_short short]

lemma familyCells_mergeOrder {order : Nat} (lt : order + 1 < nrMemLists) (lists : Nat → List Nat) :
    familyCells nrMemLists (mergeOrder order lists) + orderCells order (lists order) =
      familyCells nrMemLists lists + (orderCells order (kept order (lists order)) +
          orderCells (order + 1) (joined order (lists order))) := by
  have low := familyCells_update (Nat.lt_of_succ_lt lt) lists (kept order (lists order))
  have high := familyCells_update lt
    (update lists order (kept order (lists order)))
    (lists (order + 1) ++ joined order (lists order))
  rw [update_of_ne (by omega), orderCells_append, ← add_assoc, add_right_comm] at high
  have merged := add_right_cancel high
  rw [mergeOrder, merged, add_right_comm, low]
  abel

lemma tidyWalk_counted {order : Nat} {s t : Buddy} (cnt : s.Counted)
    (lists : t.list = mergeOrder order s.list)
    (counts : t.nrFree = update (update s.nrFree order
      (s.nrFree order - 2 * (joined order (s.list order)).length)) (order + 1)
      (s.nrFree (order + 1) + (joined order (s.list order)).length)) : t.Counted := by
  intro k high
  have lengths := @length_kept_add order (s.list order)
  rw [lists, counts]
  by_cases same : k = order + 1
  · subst same
    simp [cnt _ high]
  by_cases low : k = order
  · subst low
    simp [cnt k high]
    omega
  · simp [mergeOrder_of_ne low same, same, low, cnt k high]

lemma tidyWalk_merges {total order : Nat} {s : Buddy} (lt : order + 1 < nrMemLists)
    (desc : s.Describes total) (separate : s.Separate total order) (cnt : s.Counted) :
    (tidyWalk order (s.list order) s).list = mergeOrder order s.list ∧
      (tidyWalk order (s.list order) s).Describes total ∧
      (tidyWalk order (s.list order) s).Separate total (order + 1) ∧
      (tidyWalk order (s.list order) s).Counted := by
  have below := Nat.lt_of_succ_lt lt
  have inRam := separate.inRam order le_rfl below
  have closes : ∀ pos ∈ s.list order, ∀ next ∈ s.list order,
      isPageclosed s pos next order = decide (Adjacent order pos next) :=
    fun pos isPos next isNext =>
      isPageclosed_eq desc below (inRam pos isPos) (inRam next isNext)
  obtain ⟨pages, lists, counts⟩ := tidyWalk_spec [] (s.list order) closes rfl
    (separate.nodup order le_rfl below)
  have merged : (tidyWalk order (s.list order) s).list = mergeOrder order s.list := lists
  refine ⟨merged, ⟨?_, ?_, desc.small⟩, ⟨?_, ?_, ?_⟩, ?_⟩
  · rw [pages]
    exact desc.address
  · rw [pages]
    exact desc.ram
  · intro k low high page mem
    rw [merged] at mem
    rcases mem_of_mem_mergeOrder mem with old | ⟨rfl, new⟩
    · exact separate.inRam k (by omega) high page old
    · exact inRam page (joined_subset _ new)
  · intro k low high
    rw [merged]
    by_cases same : k = order + 1
    · subst same
      rw [mergeOrder_succ, nodup_append']
      exact ⟨separate.nodup _ (by omega) high,
        (separate.nodup order le_rfl below).sublist (joined_sublist _), fun page old new =>
          separate.disjoint order _ le_rfl (by omega) high (joined_subset _ new) old⟩
    · rw [mergeOrder_of_ne (by omega) same]
      exact separate.nodup k (by omega) high
  · intro j k low less high page inLow inHigh
    rw [merged, mergeOrder_of_ne (by omega) (by omega)] at inHigh
    rw [merged] at inLow
    rcases mem_of_mem_mergeOrder inLow with old | ⟨rfl, new⟩
    · exact separate.disjoint j k (by omega) less high old inHigh
    · exact separate.disjoint order k le_rfl (by omega) high (joined_subset _ new) inHigh
  · exact tidyWalk_counted cnt merged counts

lemma tidyFrom_preserves {total : Nat} : ∀ {left order : Nat} {s : Buddy},
    left + order + 1 = nrMemLists → s.Describes total → s.Separate total order → s.Counted →
    s.Aligned → TidySafe left order s.list →
      (tidyFrom left order s).freeFrames = s.freeFrames ∧ (tidyFrom left order s).Aligned ∧
        (tidyFrom left order s).Counted
  | 0, _, _, _, _, _, cnt, aligned, _ => ⟨rfl, aligned, cnt⟩
  | left + 1, order, s, length, desc, separate, cnt, aligned, safe => by
      have below : order < nrMemLists := by omega
      rw [tidyFrom]
      split_ifs with exhausted
      · exact ⟨rfl, aligned, cnt⟩
      have ne : s.list order ≠ [] := by
        intro empty
        rw [cnt order below, empty] at exhausted
        exact exhausted le_rfl
      obtain ⟨buddies, _⟩ := safe.resolve_left ne
      obtain ⟨lists, describes', separate', counted'⟩ :=
        tidyWalk_merges (by omega) desc separate cnt
      have aligned' : (tidyWalk order (s.list order) s).Aligned := by
        intro k high page mem
        rw [lists] at mem
        rcases mem_of_mem_mergeOrder mem with old | ⟨rfl, new⟩
        · exact aligned k high page old
        · exact buddies.aligned.2 page new
      obtain ⟨frames, finalAligned, finalCounted⟩ := @tidyFrom_preserves _ left _ _
        (by omega) describes' separate' counted' aligned' (by rwa [lists])
      refine ⟨frames.trans ?_, finalAligned, finalCounted⟩
      have exchange := @familyCells_mergeOrder order (by omega) s.list
      rw [orderCells_of_joinsUpwards buddies.aligned.1] at exchange
      rw [Buddy.freeFrames, lists]
      exact add_right_cancel exchange

lemma tidySafe_of_tidyFrom {total : Nat} : ∀ {left order : Nat} {s : Buddy},
    left + order + 1 = nrMemLists → s.Describes total → s.Separate total order → s.Counted →
      s.freeFrames.sum ≤ (tidyFrom left order s).freeFrames.sum ∧
        ((tidyFrom left order s).Aligned → s.Aligned ∧
          ((tidyFrom left order s).freeFrames.sum = s.freeFrames.sum → TidySafe left order s.list))
  | 0, _, _, _, _, _, _ => ⟨le_rfl, fun aligned => ⟨aligned, fun _ => trivial⟩⟩
  | left + 1, order, s, length, desc, separate, cnt => by
      have below : order < nrMemLists := by omega
      rw [tidyFrom]
      split_ifs with exhausted
      · have empty : s.list order = [] := by
          rw [cnt order below] at exhausted
          exact eq_nil_of_length_eq_zero (by omega)
        exact ⟨le_rfl, fun aligned => ⟨aligned, fun _ => .inl empty⟩⟩
      obtain ⟨lists, describes', separate', counted'⟩ :=
        tidyWalk_merges (by omega) desc separate cnt
      obtain ⟨_, backwards⟩ :=
        @tidySafe_of_tidyFrom _ left _ _ (by omega) describes' separate' counted'
      obtain ⟨_, walkExact⟩ := @sum_orderCells_walk order (s.list order)
      have exchange := congrArg Multiset.sum
        (@familyCells_mergeOrder order (by omega) s.list)
      simp only [Multiset.sum_add] at exchange
      have walkFrames : (tidyWalk order (s.list order) s).freeFrames =
          familyCells nrMemLists (mergeOrder order s.list) := by
        rw [Buddy.freeFrames, lists]
      rw [show familyCells nrMemLists s.list = s.freeFrames from rfl, ← walkFrames] at exchange
      refine ⟨by omega, fun finalAligned => ?_⟩
      obtain ⟨walkAligned, restSafe⟩ := backwards finalAligned
      have joinedAligned : ∀ page ∈ joined order (s.list order), 2 ^ (order + 1) ∣ page := by
        intro page mem
        refine walkAligned (order + 1) (by omega) page ?_
        simp [lists, mem]
      have keptAligned : ∀ page ∈ kept order (s.list order), 2 ^ order ∣ page := by
        intro page mem
        refine walkAligned order below page ?_
        simpa [lists] using mem
      refine ⟨fun k high page mem => ?_, fun same => ?_⟩
      · by_cases low : k = order
        · subst low
          exact ring_aligned_of_walk keptAligned joinedAligned page mem
        refine walkAligned k high page ?_
        rw [lists]
        by_cases next : k = order + 1
        · subst next
          simp [mem]
        · rwa [mergeOrder_of_ne low next]
      · refine .inr ⟨walkExact (by omega) joinedAligned, ?_⟩
        rw [← lists]
        exact restSafe (by omega)

namespace Buddy

structure Settled (total : Nat) (s : Buddy) : Prop where
  describes : s.Describes total
  inRam : ∀ block ∈ s.freeBlocks, firstFrame ≤ block.start ∧ block.start + 2 ^ block.order ≤ total
  apart : s.freeBlocks.Pairwise Block.Apart
  aligned : s.Aligned
  ascending : ∀ order < nrMemLists,
    (s.list order).Pairwise fun left right => (s.pages left).address < (s.pages right).address
  counted : s.Counted

structure MemoryKept (before after : Buddy) : Prop where
  frames : ∀ frame, (∃ block ∈ after.freeBlocks, frame ∈ block.cells) ↔
    ∃ block ∈ before.freeBlocks, frame ∈ block.cells
  apart : after.freeBlocks.Pairwise Block.Apart
  aligned : after.Aligned
  counted : after.Counted

lemma mem_freeFrames {s : Buddy} {frame : Nat} :
    frame ∈ s.freeFrames ↔ ∃ block ∈ s.freeBlocks, frame ∈ block.cells := by
  rw [freeFrames, ← coe_cellsOf_familyBlocks, Multiset.mem_coe, cellsOf, mem_flatMap]
  rfl

lemma freeFrames_nodup_iff {s : Buddy} :
    s.freeFrames.Nodup ↔ s.freeBlocks.Pairwise Block.Apart := by
  rw [freeFrames, ← coe_cellsOf_familyBlocks, Multiset.coe_nodup, cellsOf_nodup_iff]
  rfl

lemma Settled.separate {total : Nat} {s : Buddy} (settled : s.Settled total) :
    s.Separate total 0 := by
  have apart := settled.apart
  rw [freeBlocks, familyBlocks, pairwise_flatMap] at apart
  obtain ⟨sameOrder, otherOrder⟩ := apart
  refine ⟨fun k _ high page mem => ?_, fun k _ high => ?_, fun j k _ less high => ?_⟩
  · have bounds := settled.inRam ⟨page, k⟩ (mem_familyBlocks.mpr ⟨high, mem⟩)
    have pos := Nat.two_pow_pos k
    dsimp only at bounds
    exact ⟨bounds.1, by omega⟩
  · have ring := pairwise_map.mp (sameOrder k (mem_range.mpr high))
    exact ring.imp fun separated => starts_ne_of_apart separated
  · have rings := pairwise_iff_getElem.mp otherOrder j k (by simp; omega) (by simpa) less
    simp only [getElem_range, forall_mem_map] at rings
    intro page inLow inHigh
    exact starts_ne_of_apart (rings page inLow page inHigh) rfl

end Buddy

/-- `buddy_list_tidy` keeps the free memory exactly when its cascade joins buddies
only. -/
theorem buddyListTidy_memoryKept_iff {total : Nat} {s : Buddy} (settled : s.Settled total) :
    s.MemoryKept (buddyListTidy s) ↔ TidySafe (nrMemLists - 1) 0 s.list := by
  have separate := settled.separate
  have length : nrMemLists - 1 + 0 + 1 = nrMemLists := by decide
  have nodup := Buddy.freeFrames_nodup_iff.mpr settled.apart
  constructor
  · intro memory
    have sameFrames : (buddyListTidy s).freeFrames = s.freeFrames := by
      refine (Multiset.Nodup.ext (Buddy.freeFrames_nodup_iff.mpr memory.apart) nodup).mpr ?_
      intro frame
      rw [Buddy.mem_freeFrames, Buddy.mem_freeFrames]
      exact memory.frames frame
    exact ((tidySafe_of_tidyFrom length settled.describes separate settled.counted).2
      memory.aligned).2 (congrArg Multiset.sum sameFrames)
  · intro safe
    obtain ⟨frames, aligned, counted⟩ := tidyFrom_preserves length settled.describes separate
      settled.counted settled.aligned safe
    change (buddyListTidy s).freeFrames = s.freeFrames at frames
    refine ⟨fun frame => ?_, ?_, aligned, counted⟩
    · rw [← Buddy.mem_freeFrames, ← Buddy.mem_freeFrames, frames]
    · rwa [← Buddy.freeFrames_nodup_iff, frames]

def scatteredBuddy : Buddy where
  pages page := ⟨page * pageSize, sysRam⟩
  buddyList order :=
    if order = 0 then ⟨[4102, 4103], 2⟩ else if order = 1 then ⟨[4104], 1⟩ else ⟨[], 0⟩

lemma scatteredBuddy_settled : scatteredBuddy.Settled 8192 where
  describes := ⟨fun _ _ => rfl, fun _ _ _ => show sysRam &&& sysRam ≠ 0 by decide, by decide⟩
  inRam := by decide
  apart := by decide
  aligned := by unfold Buddy.Aligned; decide
  ascending := by decide
  counted := by unfold Buddy.Counted; decide

/-- The merged pair 4102 is linked behind 4104 and joined with it as the second of
the two: the block then starts at 4104 and takes in the frames 4106 and 4107, while
4102 and 4103 are lost. -/
theorem buddyListTidy_moves_frames :
    scatteredBuddy.Settled 8192 ∧ ¬ scatteredBuddy.MemoryKept (buddyListTidy scatteredBuddy) := by
  refine ⟨scatteredBuddy_settled, fun memory => ?_⟩
  have gained : ∃ block ∈ (buddyListTidy scatteredBuddy).freeBlocks, 4106 ∈ block.cells :=
    ⟨⟨4104, 2⟩, by decide, by decide⟩
  exact absurd ((memory.frames 4106).mp gained) (by decide)

def pairedBuddy : Buddy where
  pages page := ⟨page * pageSize, sysRam⟩
  buddyList order := if order = 0 then ⟨[4102, 4103], 2⟩ else ⟨[], 0⟩

theorem pairedBuddy_memoryKept :
    pairedBuddy.Settled 8192 ∧ pairedBuddy.MemoryKept (buddyListTidy pairedBuddy) := by
  have settled : pairedBuddy.Settled 8192 := {
    describes := ⟨fun _ _ => rfl, fun _ _ _ => show sysRam &&& sysRam ≠ 0 by decide, by decide⟩
    inRam := by decide
    apart := by decide
    aligned := by unfold Buddy.Aligned; decide
    ascending := by decide
    counted := by unfold Buddy.Counted; decide }
  refine ⟨settled, (buddyListTidy_memoryKept_iff settled).mpr ?_⟩
  exact .inr ⟨by decide, .inr ⟨by decide, .inl (by decide)⟩⟩

end PrettyOS.Mm
