import PrettyOS.Mm.Release

/-!
Contract: what `do_munmap` leaves behind, for each way its range can cut the areas.
-/

namespace PrettyOS.Mm

open Library.AvlTree Library.IndexChain List

namespace AddressSpace

variable {s t : AddressSpace} {fuel addr len : Nat} {chain lower cut upper : List Nat}

def Consistent (s : AddressSpace) (chain : List Nat) : Prop :=
  Linked s.next 0 s.mmap chain ∧ ∃ tree, s.avl.Holds tree ∧ tree.Balanced ∧ tree.inorder = chain

structure Mapped (s : AddressSpace) (chain : List Nat) : Prop where
  consistent : s.Consistent chain
  ascending : s.Ascending chain
  inWord : ∀ p ∈ chain, s.vmEnd p < wordSize
  live : ∀ p ∈ chain, p ∈ s.live

lemma exists_border {list : List Nat} (cond : Nat → Prop)
    (border : list.Pairwise fun p q => cond q → cond p) :
    ∃ front back, list = front ++ back ∧ (∀ p ∈ front, cond p) ∧
      ∀ p ∈ back, ¬ cond p := by
  induction list with
  | nil => exact ⟨[], [], rfl, by simp, by simp⟩
  | cons first rest ih =>
    rw [pairwise_cons] at border
    by_cases holds : cond first
    · obtain ⟨front, back, rfl, inFront, inBack⟩ := ih border.2
      refine ⟨first :: front, back, rfl, ?_, inBack⟩
      intro p mem
      rcases mem_cons.mp mem with rfl | inRest
      · exact holds
      · exact inFront p inRest
    · refine ⟨[], first :: rest, rfl, by simp, ?_⟩
      intro p mem
      rcases mem_cons.mp mem with rfl | inRest
      · exact holds
      · exact mt (border.1 p inRest) holds

lemma exists_lookup (asc : s.Ascending chain) (addr : Nat) :
    ∃ lower upper, chain = lower ++ upper ∧ (∀ p ∈ lower, s.vmEnd p ≤ addr) ∧
      ∀ p ∈ upper, addr < s.vmEnd p := by
  simp only [← not_le]
  apply exists_border (fun p => s.vmEnd p ≤ addr)
  apply asc.apart.imp_of_mem
  intro p q _ inQ apart le
  have ne := asc.nonempty q inQ
  omega

structure Parts (s : AddressSpace) (addr last : Nat) (lower cut upper : List Nat) : Prop where
  lower : ∀ p ∈ lower, s.vmEnd p ≤ addr
  cutLate : ∀ p ∈ cut, addr < s.vmEnd p
  cutEarly : ∀ p ∈ cut, s.vmStart p < last
  upperLate : ∀ p ∈ upper, addr < s.vmEnd p
  upper : ∀ p ∈ upper, last ≤ s.vmStart p

lemma exists_parts (asc : s.Ascending chain) (addr last : Nat) :
    ∃ lower cut upper, chain = lower ++ (cut ++ upper) ∧ s.Parts addr last lower cut upper := by
  obtain ⟨lower, rest, rfl, inLower, inRest⟩ := exists_lookup asc addr
  have restAscending := asc.sublist (sublist_append_right lower rest)
  obtain ⟨cut, upper, rfl, inCut, inUpper⟩ := exists_border (fun p => s.vmStart p < last)
    (restAscending.apart.imp_of_mem fun {p q} inP _ apart less => by
      have ne := restAscending.nonempty p inP
      omega)
  refine ⟨lower, cut, upper, rfl, inLower, ?_, inCut, ?_, ?_⟩
  · intro p mem
    exact inRest p (mem_append_left _ mem)
  · intro p mem
    exact inRest p (mem_append_right _ mem)
  · intro p mem
    exact not_lt.mp (inUpper p mem)

def Accepted (addr len : Nat) : Prop :=
  addr % pageSize = 0 ∧ addr ≤ pageOffset ∧ addWord addr len ≤ pageOffset

instance : Decidable (Accepted addr len) := inferInstanceAs (Decidable (_ ∧ _ ∧ _))

lemma Accepted.passes (accepted : Accepted addr len) :
    ¬ (addr % pageSize ≠ 0 ∨ addr > pageOffset ∨ addWord addr len > pageOffset) := by
  rintro (unaligned | high | high)
  · exact unaligned accepted.1
  · exact absurd accepted.2.1 high.not_ge
  · exact absurd accepted.2.2 high.not_ge

lemma Mapped.collecting (mapped : s.Mapped chain) :
    ∃ tree, s.Collecting tree chain [] 0 ∧ tree.Balanced := by
  obtain ⟨list, tree, holds, bal, rfl⟩ := mapped.consistent
  exact ⟨tree, ⟨list, rfl, holds, rfl, mapped.ascending.ordered, holds.1.zero_notMem, by simp⟩, bal⟩

variable {tree : HeightTree Nat} {free last : Nat}

lemma Collecting.consistent {gone : List Nat} (coll : s.Collecting tree chain gone free)
    (bal : tree.Balanced) : s.Consistent chain :=
  ⟨coll.list, tree, coll.holds, bal, coll.traversal⟩

lemma Collecting.pending (coll : s.Collecting tree (lower ++ upper) cut.reverse free)
    (nodup : (lower ++ (cut ++ upper)).Nodup) (live : ∀ p ∈ lower ++ (cut ++ upper), p ∈ s.live)
    (ne0 : 0 ∉ lower ++ (cut ++ upper)) (enough : 2 * (lower ++ (cut ++ upper)).length < fuel) :
    s.Pending fuel tree free cut.reverse := by
  refine ⟨coll.holds, coll.ordered.nodup, ?_, coll.released, ?_, ?_, ?_, ?_, ?_⟩
  · intro p mem
    rw [coll.traversal] at mem
    exact live p (List.Sublist.mem mem (by simp))
  · intro p mem
    exact live p (by simp [mem_reverse.mp mem])
  · exact nodup_reverse.mpr nodup.of_append_right.of_append_left
  · intro null
    exact ne0 (by simp [mem_reverse.mp null])
  · rw [coll.traversal]
    exact coll.apart
  · rw [coll.traversal, length_reverse]
    simp only [length_append] at enough ⊢
    omega

lemma SameLayout.consistent (layout : s.SameLayout t) (consistent : s.Consistent chain) :
    t.Consistent chain := by
  unfold Consistent
  rw [layout.mmap, layout.avl, layout.next]
  exact consistent

lemma avlNeighbours_eq {first : Nat} {rest : List Nat}
    (holds : s.avl.Holds tree) (ord : Avl.Ordered s.vmEnd tree)
    (walk : tree.inorder = lower ++ first :: rest) (enough : tree.inorder.length < fuel) :
    avlNeighbours fuel s.vmEnd first s.avl = some (lower.getLastD 0, rest.headD 0) := by
  have mem : first ∈ tree.inorder := by
    rw [walk]
    simp
  obtain ⟨_, _, call, _, _, split, rfl, rfl⟩ := Avl.avlNeighbours_spec holds ord mem enough
  have nodup := ord.nodup
  rw [walk, nodup_middle, nodup_cons, mem_append, not_or] at nodup
  rw [walk, append_cons_inj_of_notMem nodup.1.1 nodup.1.2] at split
  rw [split.1, split.2.2]
  exact call

section Call

variable (k : Allocator) (mapped : s.Mapped (lower ++ (cut ++ upper)))
  (parts : s.Parts addr (addWord addr (pageAlign len)) lower cut upper)
  (accepted : Accepted addr len) (positive : pageAlign len ≠ 0)
  (enough : 2 * (lower ++ (cut ++ upper)).length < fuel)
include mapped parts

lemma Mapped.overlaps (sameVma : t.vma = s.vma) :
    ∀ p ∈ cut, t.Overlaps addr (addWord addr (pageAlign len)) p := by
  intro p inCut
  have mem : p ∈ lower ++ (cut ++ upper) := mem_append_right _ (mem_append_left _ inCut)
  have overlaps : s.Overlaps addr (addWord addr (pageAlign len)) p :=
    ⟨mapped.ascending.nonempty p mem, mapped.inWord p mem, parts.cutEarly p inCut,
      parts.cutLate p inCut⟩
  exact overlaps.congr (congrFun sameVma p)

include accepted positive enough

lemma doMunmap_collect :
    ∃ t tree, t.Collecting tree (lower ++ upper) cut.reverse (cut.reverse.headD 0) ∧
      t.Pending fuel tree (cut.reverse.headD 0) cut.reverse ∧ tree.Balanced ∧ t.vma = s.vma ∧
      (cut = [] → doMunmap fuel k.kmalloc addr len s = some (0, t)) ∧
      (cut ≠ [] → ∀ u, releaseLoop fuel k.kmalloc addr (addWord addr (pageAlign len)) fuel
          (cut.reverse.headD 0) t = some u →
        doMunmap fuel k.kmalloc addr len s =
          some (0, u.record (.unmapPageRange addr (pageAlign len)))) := by
  obtain ⟨tree, coll, bal⟩ := mapped.collecting
  have length : (lower ++ (cut ++ upper)).length < fuel := by omega
  have cutLength : cut.length < fuel := by
    simp only [length_append] at length
    omega
  have found : findVma fuel addr s = some ((cut ++ upper).headD 0) := by
    apply findVma_spec coll.holds coll.traversal mapped.ascending parts.lower _ length
    intro p mem
    rcases mem_append.mp mem with inCut | inUpper
    · exact parts.cutLate p inCut
    · exact parts.upperLate p inUpper
  obtain ⟨t, less, collected, after, keeps, sameVma, sameLive⟩ :=
    collectLoop_spec coll parts.cutEarly parts.upper cutLength length
  rw [append_nil] at collected after
  have neighbours : ∀ first rest, cut ++ upper = first :: rest → first ≠ 0 ∧
      avlNeighbours fuel s.vmEnd first s.avl = some (lower.getLastD 0, rest.headD 0) := by
    intro first rest split
    constructor
    · rintro rfl
      exact coll.notNull (by simp [split])
    · exact avlNeighbours_eq coll.holds coll.ordered
        (coll.traversal.trans (by rw [split])) (coll.traversal ▸ length)
  have pend := after.pending (coll.traversal ▸ coll.ordered.nodup)
    (sameLive ▸ mapped.live) coll.notNull enough
  refine ⟨t, less, after, pend, keeps bal, sameVma, ?_, ?_⟩
  all_goals rw [doMunmap, if_neg accepted.passes, if_neg positive, found]
  · rintro rfl
    rw [nil_append] at neighbours collected ⊢
    cases upper with
    | nil =>
      obtain ⟨fuel, rfl⟩ := Nat.exists_eq_succ_of_ne_zero (Nat.ne_zero_of_lt length)
      have same : s = t := by simpa [collectLoop] using collected
      exact same ▸ rfl
    | cons first rest =>
      obtain ⟨ne0, call⟩ := neighbours first rest rfl
      simp only [headD_cons] at collected ⊢
      simp only [if_neg ne0, call, collected]
      rfl
  · intro notNil u freed
    have freeNotNull : cut.reverse.headD 0 ≠ 0 := by
      obtain ⟨_, rest, reversed⟩ := exists_cons_of_ne_nil (reverse_ne_nil_iff.mpr notNil)
      rw [reversed] at pend ⊢
      exact pend.free_ne_zero
    obtain ⟨first, rest, rfl⟩ := exists_cons_of_ne_nil notNil
    obtain ⟨ne0, call⟩ := neighbours first (rest ++ upper) rfl
    simp only [cons_append, headD_cons] at collected ⊢
    simp only [if_neg ne0, call, collected, if_neg freeNotNull, freed, Option.map_some]

end Call

lemma releaseLoop_done (kmalloc : Finset Nat → Nat) :
    releaseLoop fuel kmalloc addr last (len + 1) 0 s = some s :=
  if_pos rfl

lemma releaseLoop_last {kmalloc : Finset Nat → Nat} {avlFuel area : Nat}
    (pend : s.Pending avlFuel tree free [area])
    (call : releaseArea avlFuel kmalloc addr last area s = some t) :
    releaseLoop avlFuel kmalloc addr last (fuel + 2) free s = some t := by
  have stop := pend.released.2
  rw [releaseLoop_cons pend call, stop]
  exact releaseLoop_done kmalloc

section Cuts

variable {area : Nat} {inner : List Nat} (k : Allocator)
  (mapped : s.Mapped (lower ++ (cut ++ upper)))
  (parts : s.Parts addr (addWord addr (pageAlign len)) lower cut upper)
  (accepted : Accepted addr len) (positive : pageAlign len ≠ 0)
  (enough : 2 * (lower ++ (cut ++ upper)).length < fuel)
include mapped parts accepted positive enough

lemma doMunmap_inside
    (inside : ∀ p ∈ cut, addr ≤ s.vmStart p ∧ s.vmEnd p ≤ addWord addr (pageAlign len)) :
    ∃ t, doMunmap fuel k.kmalloc addr len s = some (0, t) ∧ t.Consistent (lower ++ upper) ∧
      t.vma = s.vma := by
  obtain ⟨t, tree, coll, pend, bal, sameVma, nothing, freed⟩ :=
    doMunmap_collect k mapped parts accepted positive enough
  by_cases isNil : cut = []
  · exact ⟨t, nothing isNil, coll.consistent bal, sameVma⟩
  have room : ∃ more, fuel = more + 1 + cut.reverse.length := by
    simp only [length_append] at enough
    exact ⟨fuel - cut.reverse.length - 1, by rw [length_reverse]; omega⟩
  obtain ⟨more, fuelEq⟩ := room
  have laps := mapped.overlaps parts sameVma
  obtain ⟨u, run, layout, -⟩ := @releaseLoop_whole t addr (addWord addr (pageAlign len)) _ tree []
    fuel cut.reverse k (by rw [append_nil]; exact pend) (by
      intro p mem
      have inCut := mem_reverse.mp mem
      unfold vmStart vmEnd
      rw [sameVma]
      exact ⟨laps p inCut, inside p inCut⟩)
  refine ⟨_, freed isNil u ?_, ?_, layout.vma.trans sameVma⟩
  · have run := run (more + 1)
    rw [← fuelEq] at run
    exact run.trans (releaseLoop_done k.kmalloc)
  · exact layout.consistent (coll.consistent bal)

lemma doMunmap_tail (split : cut = area :: inner) (low : s.vmStart area < addr)
    (inside : ∀ p ∈ inner, addr ≤ s.vmStart p)
    (high : ∀ p ∈ cut, s.vmEnd p ≤ addWord addr (pageAlign len)) :
    ∃ t tree new, doMunmap fuel k.kmalloc addr len s = some (0, t) ∧ t.avl.Holds tree ∧
      tree.Balanced ∧ tree.inorder = lower ++ new :: upper ∧
      Linked t.next 0 t.mmap (lower ++ [new]) ∧ t.vma new = { s.vma area with vmEnd := addr } ∧
      ∀ p ∈ lower, t.vma p = s.vma p := by
  obtain ⟨t, tree, coll, pend, bal, sameVma, -, freed⟩ :=
    doMunmap_collect k mapped parts accepted positive enough
  have laps := mapped.overlaps parts sameVma
  subst split
  rw [reverse_cons] at pend freed
  obtain ⟨u, run, layout, pending'⟩ := @releaseLoop_whole t addr (addWord addr (pageAlign len)) _
    tree [area] fuel inner.reverse k pend (by
      intro p mem
      have inInner := mem_reverse.mp mem
      have inCut := mem_cons_of_mem area inInner
      unfold vmStart vmEnd
      rw [sameVma]
      exact ⟨laps p inCut, inside p inInner, high p inCut⟩)
  have sameVma' := layout.vma.trans sameVma
  have ends := vmEnd_congr sameVma'
  have sorted : tree.inorder.Pairwise fun p q => u.vmEnd p ≤ u.vmEnd q := by
    rw [vmEnd_congr layout.vma]
    exact coll.ordered.sorted
  obtain ⟨v, bigger, call, holds, walk, list, keeps, piece, same⟩ :=
    Pending.tail k pending' coll.traversal (layout.mmap ▸ layout.next ▸ coll.list)
      sorted (ends ▸ parts.lower) (mapped.overlaps parts sameVma' area mem_cons_self)
      (ends ▸ parts.upperLate) (vmStart_congr sameVma' ▸ low) (ends ▸ high area mem_cons_self)
  have room : ∃ more, fuel = more + 2 + inner.reverse.length := by
    simp only [length_append, length_cons] at enough
    exact ⟨fuel - inner.reverse.length - 2, by rw [length_reverse]; omega⟩
  obtain ⟨more, fuelEq⟩ := room
  refine ⟨_, bigger, _, freed (cons_ne_nil _ _) v ?_, holds, keeps bal, walk,
    list, sameVma' ▸ piece, ?_⟩
  · have run := run (more + 2)
    rw [← fuelEq] at run
    exact run.trans (releaseLoop_last pending' call)
  · intro p inLower
    rw [← sameVma']
    exact same p (coll.traversal ▸ mem_append_left _ inLower)

lemma doMunmap_head (split : cut = inner ++ [area]) (forward : addr < addWord addr (pageAlign len))
    (low : addr ≤ s.vmStart area) (high : addWord addr (pageAlign len) < s.vmEnd area) :
    ∃ t tree new, doMunmap fuel k.kmalloc addr len s = some (0, t) ∧ t.avl.Holds tree ∧
      new ∈ tree.inorder ∧ t.vmEnd new < t.vmStart new := by
  obtain ⟨t, tree, _, pend, _, sameVma, -, freed⟩ :=
    doMunmap_collect k mapped parts accepted positive enough
  have laps := mapped.overlaps parts sameVma
  subst split
  rw [reverse_append, reverse_singleton, singleton_append] at pend freed
  obtain ⟨u, pieced, call⟩ := @releaseArea_head t fuel addr _ area k
    (pend.restLive area mem_cons_self) (laps area (by simp))
    (vmStart_congr sameVma ▸ low) (vmEnd_congr sameVma ▸ high)
  obtain ⟨v, _, res, after, keeps, mem, piece⟩ := pend.one k pieced call
  obtain ⟨fuel, rfl⟩ := Nat.exists_eq_succ_of_ne_zero (Nat.ne_zero_of_lt enough)
  obtain ⟨w, biggest, run, holds, kept⟩ := @releaseLoop_spec v fuel addr _ _ _ _ _ k after (by
    intro p inRest
    apply (laps p _).congr (keeps.restVma p inRest)
    exact mem_append_left _ (mem_reverse.mp inRest)) forward (by
      simp only [length_append, length_cons, length_reverse] at enough ⊢
      omega)
  obtain ⟨stays, same⟩ := kept _ mem
  refine ⟨_, biggest, _, freed (by simp) w ?_, holds, stays, ?_⟩
  · exact (releaseLoop_cons pend res).trans run
  change (w.vma _).vmEnd < (w.vma _).vmStart
  rw [same, piece]
  exact (laps area (by simp)).early

lemma doMunmap_middle (split : cut = [area]) (forward : addr < addWord addr (pageAlign len))
    (low : s.vmStart area < addr) (high : addWord addr (pageAlign len) < s.vmEnd area) :
    ∃ t tree upperPiece lowerPiece, doMunmap fuel k.kmalloc addr len s = some (0, t) ∧
      t.avl.Holds tree ∧ tree.inorder = lower ++ lowerPiece :: upperPiece :: upper ∧
      Linked t.next 0 t.mmap (lower ++ [lowerPiece]) := by
  obtain ⟨t, tree, coll, pend, _, sameVma, -, freed⟩ :=
    doMunmap_collect k mapped parts accepted positive enough
  have laps := mapped.overlaps parts sameVma
  subst split
  rw [reverse_singleton] at pend freed
  have ends := vmEnd_congr sameVma
  have above : ∀ p ∈ upper, t.vmEnd area < t.vmEnd p := by
    intro p inUpper
    rw [ends]
    have apart := pairwise_cons.mp (pairwise_append.mp mapped.ascending.apart).2.1
    exact (apart.1 p inUpper).trans_lt (mapped.ascending.nonempty p (by simp [inUpper]))
  obtain ⟨u, bigger, upperPiece, lowerPiece, call, holds, walk, list⟩ :=
    Pending.middle k pend coll.traversal coll.list coll.ordered.sorted
      (ends ▸ parts.lower) (laps area mem_cons_self) forward above
      (vmStart_congr sameVma ▸ low) (ends ▸ high)
  refine ⟨_, bigger, upperPiece, lowerPiece, freed (cons_ne_nil _ _) u ?_, holds, walk, list⟩
  have room : 2 ≤ fuel := by
    simp only [length_append, length_cons] at enough
    omega
  obtain ⟨_, rfl⟩ := Nat.exists_eq_add_of_le' room
  exact releaseLoop_last pend call

lemma doMunmap_wrapped (split : cut = [area]) (wrapped : addWord addr (pageAlign len) < addr) :
    ∃ t, doMunmap fuel k.kmalloc addr len s = some (0, t) ∧ t.Consistent (lower ++ upper) ∧
      t.vma = s.vma := by
  obtain ⟨t, _, coll, pend, bal, sameVma, -, freed⟩ :=
    doMunmap_collect k mapped parts accepted positive enough
  subst split
  have laps := mapped.overlaps parts sameVma area mem_cons_self
  rw [reverse_singleton] at pend freed
  obtain ⟨u, same, -, call⟩ := @releaseArea_eq t fuel addr (addWord addr (pageAlign len)) area
    k.kmalloc
  rw [max_eq_left (laps.early.trans wrapped).le, min_eq_left (wrapped.trans laps.late).le]
    at call
  have addrWord := laps.late.trans laps.inWord
  obtain ⟨v, reported, same'⟩ := @unmapFixup_wrapped u fuel area addr (addWord addr (pageAlign len))
    k.kmalloc addrWord (wrapped.trans addrWord) wrapped
  rw [reported, Option.map_some] at call
  obtain ⟨-, layout⟩ := pend.drop (same.trans same')
  have room : 2 ≤ fuel := by
    simp only [length_append, length_cons] at enough
    omega
  obtain ⟨_, rfl⟩ := Nat.exists_eq_add_of_le' room
  exact ⟨_, freed (cons_ne_nil _ _) _ (releaseLoop_last pend call),
    layout.consistent (coll.consistent bal), layout.vma.trans sameVma⟩

end Cuts

end AddressSpace

end PrettyOS.Mm
