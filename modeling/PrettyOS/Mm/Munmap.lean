import PrettyOS.Mm.VmaList

/-!
Contract: the steps of `do_munmap` on list, tree and areas.
-/

namespace PrettyOS.Mm

open Library.AvlTree Library.IndexChain List Nat HeightTree
open Function

namespace AddressSpace

variable {s t : AddressSpace} {fuel addr last : Nat} {tree : HeightTree Nat}

structure Ascending (s : AddressSpace) (areas : List Nat) : Prop where
  nonempty : ∀ area ∈ areas, s.vmStart area < s.vmEnd area
  apart : areas.Pairwise fun p q => s.vmEnd p ≤ s.vmStart q

lemma Ascending.sublist {areas others : List Nat} (asc : s.Ascending areas)
    (sublist : others.Sublist areas) : s.Ascending others :=
  ⟨fun area mem => asc.nonempty area (sublist.mem mem), asc.apart.sublist sublist⟩

lemma Ascending.ordered (asc : s.Ascending tree.inorder) : Avl.Ordered s.vmEnd tree := by
  apply asc.apart.imp_of_mem
  intro p q _ inQ apart
  exact apart.trans_lt (asc.nonempty q inQ)

lemma findVmaLoop_spec {res : Nat} (reps : s.avl.Represents tree)
    (asc : s.Ascending tree.inorder) (enough : tree.inorder.length < fuel) :
    findVmaLoop s addr fuel (pointer tree) res =
      some ((tree.inorder.filter fun area => addr < s.vmEnd area).headD res) := by
  induction tree, fuel, enough using fuelInduction generalizing res with
  | leaf =>
    rfl
  | node fuel height left area right ihLeft ihRight =>
    obtain ⟨ne0, -, lLink, rLink, lTree, rTree⟩ := reps
    have leftAscending := asc.sublist (sublist_append_left left.inorder _)
    have rightAscending := asc.sublist
      ((sublist_cons_self area right.inorder).trans
        (sublist_append_right left.inorder _))
    have below : ∀ p ∈ left.inorder, s.vmEnd p ≤ s.vmStart area := by
      intro p inLeft
      exact (pairwise_append.mp asc.apart).2.2 p inLeft area mem_cons_self
    have ne := asc.nonempty area (by simp [inorder])
    rw [findVmaLoop, pointer, if_neg ne0, inorder, filter_append]
    have noneLeft (inside : s.vmStart area < addr) :
        left.inorder.filter (fun area => addr < s.vmEnd area) = [] := by
      rw [filter_eq_nil_iff]
      intro p inLeft
      have le := below p inLeft
      simp only [decide_eq_true_eq]
      omega
    by_cases behind : addr < s.vmEnd area
    · rw [if_pos behind, filter_cons_of_pos (by simpa using behind)]
      by_cases inside : s.vmStart area < addr
      · rw [if_pos inside, noneLeft inside]
        rfl
      · rw [if_neg inside, lLink, ihLeft lTree leftAscending]
        cases left.inorder.filter (fun area => addr < s.vmEnd area) <;> rfl
    · rw [if_neg behind, filter_cons_of_neg (by simpa using behind), rLink,
        ihRight rTree rightAscending, noneLeft (by omega), nil_append]

lemma findVma_spec {lower upper : List Nat} (holds : s.avl.Holds tree)
    (walk : tree.inorder = lower ++ upper) (asc : s.Ascending (lower ++ upper))
    (below : ∀ p ∈ lower, s.vmEnd p ≤ addr) (above : ∀ p ∈ upper, addr < s.vmEnd p)
    (enough : (lower ++ upper).length < fuel) : findVma fuel addr s = some (upper.headD 0) := by
  rw [← walk] at asc enough
  rw [findVma, holds.2, findVmaLoop_spec holds.1 asc enough, walk, filter_append]
  have noneLower : lower.filter (fun area => addr < s.vmEnd area) = [] := by
    rw [filter_eq_nil_iff]
    intro p inLower
    simpa using below p inLower
  have allUpper : upper.filter (fun area => addr < s.vmEnd area) = upper := by
    rw [filter_eq_self]
    intro p inUpper
    simpa using above p inUpper
  rw [noneLower, allUpper, nil_append]

structure Collecting (s : AddressSpace) (tree : HeightTree Nat) (kept gone : List Nat)
    (free : Nat) : Prop where
  list : Linked s.next 0 s.mmap kept
  released : Linked s.next 0 free gone
  holds : s.avl.Holds tree
  traversal : tree.inorder = kept
  ordered : Avl.Ordered s.vmEnd tree
  notNull : 0 ∉ kept
  apart : ∀ area ∈ gone, area ∉ kept

section Collecting

variable {lower upper gone : List Nat} {area free : Nat}

lemma collect_links (list : Linked s.next 0 s.mmap (lower ++ area :: upper))
    (freed : Linked s.next 0 free gone) (nodup : (lower ++ area :: upper).Nodup)
    (ne0 : 0 ∉ lower ++ area :: upper) (apart : ∀ p ∈ gone, p ∉ lower ++ area :: upper) :
    let after := (splice (lower.getLastD 0) (s.next area) s).setNext area free
    Linked after.next 0 after.mmap (lower ++ upper) ∧ Linked after.next 0 area (area :: gone) ∧
      spliced (lower.getLastD 0) after = upper.headD 0 := by
  intro after
  rw [nodup_middle, nodup_cons, mem_append, not_or, nodup_append] at nodup
  obtain ⟨⟨notLower, notUpper⟩, lowerNodup, -, lowerUpper⟩ := nodup
  have lowerNotNull : 0 ∉ lower := fun mem => ne0 (mem_append_left _ mem)
  obtain ⟨middle, front, rfl, back⟩ := linked_append.mp list
  have others : ∀ p, p ∉ lower → p ≠ middle → after.next p = s.next p := by
    intro p out ne
    rw [← @splice_next_of_notMem s lower (s.next middle) p out lowerNotNull]
    exact update_of_ne ne _ _
  have front' : Linked after.next (s.next middle) after.mmap lower := by
    apply (splice_linked front lowerNodup lowerNotNull).congr
    intro p inLower
    apply update_of_ne
    rintro rfl
    exact notLower inLower
  refine ⟨linked_append.mpr ⟨_, front', back.congr ?_⟩, ⟨rfl, ?_⟩, ?_⟩
  · intro p inUpper
    apply others
    · intro inLower
      exact lowerUpper p inLower p inUpper rfl
    · rintro rfl
      exact notUpper inUpper
  · have here : after.next middle = free := update_self _ _ _
    rw [here]
    apply freed.congr
    intro p inGone
    have out := apart p inGone
    rw [mem_append, mem_cons, not_or, not_or] at out
    exact others p out.1 out.2.1
  · rw [spliced_eq front' lowerNotNull, linked_headD back]

lemma Collecting.round (before : s.Collecting tree (lower ++ area :: upper) gone free)
    (enough : (lower ++ area :: upper).length < fuel) :
    ∃ t less, collectArea fuel (lower.getLastD 0) area free s = some t ∧
      t.Collecting less (lower ++ upper) (area :: gone) area ∧
      spliced (lower.getLastD 0) t = upper.headD 0 ∧ (tree.Balanced → less.Balanced) ∧
      t.vma = s.vma ∧ t.live = s.live := by
  have walk := before.traversal
  have nodup := before.ordered.nodup
  rw [walk] at nodup
  obtain ⟨list, freed, onward⟩ := collect_links before.list before.released nodup before.notNull
    before.apart
  rw [nodup_middle, nodup_cons] at nodup
  obtain ⟨avl, less, call, holds, erased, bal⟩ := Avl.avlRemove_spec before.holds
    before.ordered (show area ∈ tree.inorder by rw [walk]; simp) (walk ▸ enough)
  have notLower : area ∉ lower := fun inLower => nodup.1 (mem_append_left _ inLower)
  rw [walk, erase_append_right _ notLower, erase_cons_head] at erased
  have fewer : (lower ++ upper).Sublist (lower ++ area :: upper) :=
    (sublist_cons_self _ _).append_left _
  let after := (splice (lower.getLastD 0) (s.next area) s).setNext area free
  have sameVma : after.vma = s.vma := splice_vma _ _
  have keys := vmEnd_congr sameVma
  refine ⟨{ after with avl := avl }, less, ?_, ⟨list, freed, holds, erased, ?_,
    mt fewer.mem before.notNull, ?_⟩, onward, bal, sameVma, splice_live _ _⟩
  · have sameAvl : after.avl = s.avl := splice_avl _ _
    change (avlRemove fuel after.vmEnd area after.avl).map _ = _
    rw [keys, sameAvl, call]
    rfl
  · change Avl.Ordered after.vmEnd less
    rw [keys, Avl.Ordered, erased]
    exact (walk ▸ before.ordered : List.Pairwise _ _).sublist fewer
  · intro p mem
    rcases mem_cons.mp mem with rfl | inGone
    · exact nodup.1
    · exact mt fewer.mem (before.apart p inGone)

lemma collectLoop_spec {avlFuel : Nat} {cut : List Nat}
    (before : s.Collecting tree (lower ++ (cut ++ upper)) gone free)
    (early : ∀ p ∈ cut, s.vmStart p < last) (late : ∀ p ∈ upper, last ≤ s.vmStart p)
    (enough : cut.length < fuel) (avlEnough : (lower ++ (cut ++ upper)).length < avlFuel) :
    ∃ t smaller, collectLoop avlFuel (lower.getLastD 0) last fuel ((cut ++ upper).headD 0) free s =
        some ((cut.reverse ++ gone).headD free, t) ∧
      t.Collecting smaller (lower ++ upper) (cut.reverse ++ gone)
        ((cut.reverse ++ gone).headD free) ∧
      (tree.Balanced → smaller.Balanced) ∧ t.vma = s.vma ∧ t.live = s.live := by
  induction cut generalizing s tree fuel free gone with
  | nil =>
    obtain ⟨fuel, rfl⟩ := exists_eq_succ_of_ne_zero (ne_zero_of_lt enough)
    have head : gone.headD free = free := by
      cases gone with
      | nil => rfl
      | cons entry rest => exact before.released.1.symm
    rw [reverse_nil, nil_append, nil_append, head]
    refine ⟨s, tree, ?_, before, id, rfl, rfl⟩
    rw [collectLoop]
    cases upper with
    | nil => rfl
    | cons next rest =>
      rw [if_neg]
      rintro ⟨-, less⟩
      exact absurd less (late next mem_cons_self).not_gt
  | cons area cut ih =>
    obtain ⟨fuel, rfl⟩ := exists_eq_succ_of_ne_zero (ne_zero_of_lt enough)
    have ne0 : area ≠ 0 := by
      rintro rfl
      exact before.notNull (by simp)
    obtain ⟨t, smaller, call, after, onward, bal, sameVma, sameLive⟩ := before.round avlEnough
    have starts := vmStart_congr sameVma
    have shorter : (lower ++ (cut ++ upper)).length < avlFuel := by
      simp only [cons_append, length_append, length_cons] at avlEnough ⊢
      omega
    obtain ⟨u, final, res, collected, finalBalanced, finalVma, finalLive⟩ :=
      @ih t fuel smaller (area :: gone) area after
        (starts ▸ fun p mem => early p (mem_cons_of_mem _ mem)) (starts ▸ late)
        (lt_of_succ_lt_succ enough) shorter
    have head : (cut.reverse ++ area :: gone).headD area =
        (cut.reverse ++ area :: gone).headD free := by
      cases cut.reverse <;> rfl
    rw [reverse_cons, append_assoc, singleton_append]
    rw [head] at res collected
    refine ⟨u, final, ?_, collected, finalBalanced ∘ bal, finalVma.trans sameVma,
      finalLive.trans sameLive⟩
    rw [cons_append, headD_cons, collectLoop, if_pos ⟨ne0, early area mem_cons_self⟩, call]
    dsimp only
    rw [onward]
    exact res

end Collecting

end AddressSpace

structure Allocator where
  kmalloc : Finset Nat → Nat
  notNull : ∀ live, kmalloc live ≠ 0
  fresh : ∀ live, kmalloc live ∉ live

namespace AddressSpace

variable {s t u : AddressSpace} {fuel addr last new area : Nat} {tree : HeightTree Nat}
  {piece : Vma}

structure Pieced (s u : AddressSpace) (new area : Nat) (piece : Vma) : Prop where
  mmap : u.mmap = s.mmap
  next : u.next = update s.next new (s.next area)
  holds : ∀ tree, new ∉ tree.inorder → s.avl.Holds tree → u.avl.Holds tree
  piece : u.vma new = piece
  others : ∀ p, p ≠ new → p ≠ area → u.vma p = s.vma p
  live : u.live = insert new s.live

lemma duplicate_holds (absent : new ∉ tree.inorder) (holds : s.avl.Holds tree) :
    (s.duplicate new area).avl.Holds tree := by
  refine ⟨holds.1.congr ?_, holds.2⟩
  intro p inTree
  have ne : p ≠ new := by
    rintro rfl
    exact absent inTree
  exact ⟨by simp [duplicate, ne], fun _ => by simp [duplicate, ne]⟩

@[simp] theorem duplicate_vma_new : (s.duplicate new area).vma new = s.vma area := update_self _ _ _

@[simp] theorem setVma_vma (vma : Vma) : (s.setVma area vma).vma area = vma := update_self _ _ _

lemma openVma_sameAreas : s.SameAreas (s.openVma area) := recordIf_sameAreas _ _

lemma countIf_sameAreas (cond : Prop) [Decidable cond] (inode : Nat) :
    s.SameAreas (if cond then s.countInode inode else s) := by
  split_ifs <;> exact ⟨rfl, rfl, rfl, rfl, rfl⟩

structure SameBut (s t : AddressSpace) (area : Nat) : Prop where
  mmap : t.mmap = s.mmap
  avl : t.avl = s.avl
  next : t.next = s.next
  vma : ∀ p, p ≠ area → t.vma p = s.vma p
  live : t.live = s.live

lemma SameAreas.sameBut (same : s.SameAreas t) : s.SameBut t area :=
  ⟨same.mmap, same.avl, same.next, fun p _ => congrFun same.vma p, same.live⟩

lemma SameAreas.setVma (same : s.SameAreas t) (vma : Vma) : s.SameBut (t.setVma area vma) area :=
  ⟨same.mmap, same.avl, same.next,
    fun p ne => (update_of_ne ne _ _).trans (congrFun same.vma p), same.live⟩

namespace Pieced

lemma of_sameBut (same : s.SameBut t area) (pieced : t.Pieced u new area piece) :
    s.Pieced u new area piece where
  mmap := pieced.mmap.trans same.mmap
  next := by rw [pieced.next, same.next]
  holds tree absent holds := pieced.holds tree absent (same.avl ▸ holds)
  piece := pieced.piece
  others p ne apart := (pieced.others p ne apart).trans (same.vma p apart)
  live := by rw [pieced.live, same.live]

lemma duplicate : s.Pieced (s.duplicate new area) new area (s.vma area) where
  mmap := rfl
  next := rfl
  holds _ absent holds := duplicate_holds absent holds
  piece := duplicate_vma_new
  others _ ne _ := update_of_ne ne _ _
  live := rfl

section

variable (pieced : s.Pieced u new area piece)
include pieced

lemma setNew (piece' : Vma) : s.Pieced (u.setVma new piece') new area piece' where
  mmap := pieced.mmap
  next := pieced.next
  holds := pieced.holds
  piece := update_self _ _ _
  others p ne apart := (update_of_ne ne _ _).trans (pieced.others p ne apart)
  live := pieced.live

lemma setArea (ne : area ≠ new) (vma : Vma) : s.Pieced (u.setVma area vma) new area piece where
  mmap := pieced.mmap
  next := pieced.next
  holds := pieced.holds
  piece := (update_of_ne ne.symm _ _).trans pieced.piece
  others p ne apart := (update_of_ne apart _ _).trans (pieced.others p ne apart)
  live := pieced.live

lemma of_sameAreas {u' : AddressSpace} (same : u.SameAreas u') : s.Pieced u' new area piece where
  mmap := same.mmap.trans pieced.mmap
  next := same.next.trans pieced.next
  holds tree absent holds := same.avl ▸ pieced.holds tree absent holds
  piece := (congrFun same.vma new).trans pieced.piece
  others p ne apart := (congrFun same.vma p).trans (pieced.others p ne apart)
  live := same.live.trans pieced.live

lemma closeEmptied (ne : area ≠ new) : s.Pieced (closeEmptied area u) new area piece := by
  unfold Mm.closeEmptied
  split_ifs
  · exact (pieced.setArea ne _).of_sameAreas (record_sameAreas _)
  · exact pieced

end

end Pieced

section Allocation

variable (k : Allocator) (areaLive : area ∈ s.live)
include areaLive

lemma kmalloc_ne : area ≠ k.kmalloc s.live := by
  intro same
  exact k.fresh s.live (same ▸ areaLive)

lemma insertLower_eq :
    ∃ u, s.Pieced u (k.kmalloc s.live) area { s.vma area with vmEnd := addr } ∧
      insertLower fuel k.kmalloc area addr s = insertVmStruct fuel (k.kmalloc s.live) u := by
  rw [insertLower]
  dsimp only
  rw [if_neg (k.notNull s.live), duplicate_vma_new]
  exact ⟨_, ((Pieced.duplicate.setNew _).of_sameAreas openVma_sameAreas).closeEmptied
    (kmalloc_ne k areaLive), rfl⟩

lemma insertUpper_eq :
    ∃ u, s.Pieced u (k.kmalloc s.live) area { s.vma area with
        vmOffset := addWord (s.vma area).vmOffset (subWord last (s.vmStart area))
        vmStart := last } ∧
      insertUpper fuel k.kmalloc area last s =
        (insertVmStruct fuel (k.kmalloc s.live) u).map some := by
  have sameStart : (s.duplicate (k.kmalloc s.live) area).vmStart area = s.vmStart area :=
    congrArg Vma.vmStart (update_of_ne (kmalloc_ne k areaLive) _ _)
  rw [insertUpper]
  dsimp only
  rw [if_neg (k.notNull s.live), duplicate_vma_new, sameStart]
  exact ⟨_, ((Pieced.duplicate.setNew _).of_sameAreas (countIf_sameAreas _ _)).of_sameAreas
    openVma_sameAreas, rfl⟩

end Allocation

lemma addWord_subWord {x y : Nat} (xWord : x < wordSize) (yWord : y < wordSize) :
    addWord x (subWord y x) = y := by
  unfold addWord subWord wordSize at *
  omega

section Cuts

variable {st stop : Nat} (k : Allocator) (areaLive : area ∈ s.live)
  (stLow : s.vmStart area ≤ st) (inside : st < stop) (stopHigh : stop ≤ s.vmEnd area)
  (inWord : s.vmEnd area < wordSize)
include stLow inside stopHigh inWord

lemma unmapFixup_inside :
    unmapFixup fuel k.kmalloc area st (subWord stop st) s =
      if st = s.vmStart area ∧ stop = s.vmEnd area then
        let closed := if s.callback area VmOperations.hasClose then s.record (.closeVma area) else s
        some (if (s.vma area).vmInode ≠ 0 then closed.record (.iput (s.vma area).vmInode)
          else closed)
      else if stop = s.vmEnd area then
        insertLower fuel k.kmalloc area st (s.setVma area { s.vma area with vmEnd := st })
      else if st = s.vmStart area then
        insertLower fuel k.kmalloc area st (s.setVma area { s.vma area with
          vmOffset := addWord (s.vma area).vmOffset (subWord stop (s.vmStart area))
          vmStart := stop })
      else
        match insertUpper fuel k.kmalloc area stop s with
        | none => none
        | some none => some s
        | some (some s) => insertLower fuel k.kmalloc area st s := by
  have whole : addWord st (subWord stop st) = stop := addWord_subWord (by omega) (by omega)
  have passed : ¬ (st < s.vmStart area ∨ st ≥ s.vmEnd area ∨ stop ≤ s.vmStart area ∨
      stop > s.vmEnd area ∨ stop < st) := by omega
  rw [unmapFixup, whole]
  exact if_neg passed

lemma unmapFixup_whole (atStart : st = s.vmStart area) (atEnd : stop = s.vmEnd area) :
    ∃ t, unmapFixup fuel k.kmalloc area st (subWord stop st) s = some t ∧ s.SameAreas t := by
  rw [unmapFixup_inside k stLow inside stopHigh inWord, if_pos ⟨atStart, atEnd⟩]
  refine ⟨_, rfl, ?_⟩
  exact (recordIf_sameAreas _ _).trans (recordIf_sameAreas _ _)

include areaLive

lemma unmapFixup_tail (behind : s.vmStart area < st) (atEnd : stop = s.vmEnd area) :
    ∃ u, s.Pieced u (k.kmalloc s.live) area { s.vma area with vmEnd := st } ∧
      unmapFixup fuel k.kmalloc area st (subWord stop st) s =
        insertVmStruct fuel (k.kmalloc s.live) u := by
  rw [unmapFixup_inside k stLow inside stopHigh inWord, if_neg (fun both => behind.ne' both.1),
    if_pos atEnd]
  obtain ⟨u, pieced, call⟩ := @insertLower_eq (s.setVma area { s.vma area with vmEnd := st })
    fuel st area k areaLive
  rw [setVma_vma] at pieced
  exact ⟨u, pieced.of_sameBut (SameAreas.refl.setVma _), call⟩

lemma unmapFixup_head (atStart : st = s.vmStart area) (before : stop < s.vmEnd area) :
    ∃ u, s.Pieced u (k.kmalloc s.live) area { s.vma area with
        vmStart := stop
        vmEnd := st
        vmOffset := addWord (s.vma area).vmOffset (subWord stop (s.vmStart area)) } ∧
      unmapFixup fuel k.kmalloc area st (subWord stop st) s =
        insertVmStruct fuel (k.kmalloc s.live) u := by
  rw [unmapFixup_inside k stLow inside stopHigh inWord, if_neg (fun both => before.ne both.2),
    if_neg before.ne, if_pos atStart]
  obtain ⟨u, pieced, call⟩ := @insertLower_eq (s.setVma area { s.vma area with
    vmOffset := addWord (s.vma area).vmOffset (subWord stop (s.vmStart area))
    vmStart := stop }) fuel st area k areaLive
  rw [setVma_vma] at pieced
  exact ⟨u, pieced.of_sameBut (SameAreas.refl.setVma _), call⟩

lemma unmapFixup_middle (behind : s.vmStart area < st) (before : stop < s.vmEnd area) :
    ∃ u, s.Pieced u (k.kmalloc s.live) area { s.vma area with
        vmOffset := addWord (s.vma area).vmOffset (subWord stop (s.vmStart area))
        vmStart := stop } ∧
      unmapFixup fuel k.kmalloc area st (subWord stop st) s =
        (insertVmStruct fuel (k.kmalloc s.live) u).bind (insertLower fuel k.kmalloc area st) := by
  rw [unmapFixup_inside k stLow inside stopHigh inWord, if_neg (fun both => before.ne both.2),
    if_neg before.ne, if_neg behind.ne']
  obtain ⟨u, pieced, call⟩ := @insertUpper_eq s fuel stop area k areaLive
  refine ⟨u, pieced, ?_⟩
  rw [call]
  cases insertVmStruct fuel (k.kmalloc s.live) u <;> rfl

end Cuts

lemma unmapFixup_wrapped {st stop : Nat} (kmalloc : Finset Nat → Nat) (stWord : st < wordSize)
    (stopWord : stop < wordSize) (wrapped : stop < st) :
    ∃ t, unmapFixup fuel kmalloc area st (subWord stop st) s = some t ∧ s.SameAreas t := by
  rw [unmapFixup, addWord_subWord stWord stopWord]
  dsimp only
  rw [if_pos (.inr (.inr (.inr (.inr wrapped))))]
  exact ⟨_, rfl, record_sameAreas _⟩

structure Grown (s t : AddressSpace) (tree bigger : HeightTree Nat) (new area : Nat)
    (piece : Vma) : Prop where
  holds : t.avl.Holds bigger
  areas : bigger.inorder.Perm (new :: tree.inorder)
  balanced : tree.Balanced → bigger.Balanced
  piece : t.vma new = piece
  others : ∀ p, p ≠ new → p ≠ area → t.vma p = s.vma p
  live : t.live = insert new s.live
  next : ∀ p, p ∉ tree.inorder → p ≠ new → t.next p = s.next p

lemma append_border_unique {key : Nat → Nat} {bound : Nat} {lower upper lower' upper' : List Nat}
    (same : lower ++ upper = lower' ++ upper') (below : ∀ p ∈ lower, key p ≤ bound)
    (above : ∀ p ∈ upper, bound < key p) (below' : ∀ p ∈ lower', key p ≤ bound)
    (above' : ∀ p ∈ upper', bound < key p) : lower = lower' ∧ upper = upper' := by
  have front : ∀ {lower upper : List Nat}, (∀ p ∈ lower, key p ≤ bound) →
      (∀ p ∈ upper, bound < key p) → (lower ++ upper).filter (fun p => key p ≤ bound) = lower := by
    intro lower upper below above
    rw [filter_append, filter_eq_self.mpr (by simpa using below),
      filter_eq_nil_iff.mpr (by simpa using above), append_nil]
  have lowerSame : lower = lower' := by
    rw [← front below above, same, front below' above']
  subst lowerSame
  exact ⟨rfl, append_cancel_left same⟩

structure Room (s : AddressSpace) (tree : HeightTree Nat) (new area : Nat) : Prop where
  holds : s.avl.Holds tree
  nodup : tree.inorder.Nodup
  live : ∀ p ∈ tree.inorder, p ∈ s.live
  outside : area ∉ tree.inorder
  notNull : new ≠ 0
  fresh : new ∉ s.live

lemma Room.absent (room : s.Room tree new area) : new ∉ tree.inorder :=
  mt (room.live new) room.fresh

section Growth

variable (pieced : s.Pieced u new area piece) (room : s.Room tree new area)
include pieced room

lemma Pieced.vmEnd_eq {p : Nat} (inTree : p ∈ tree.inorder) : u.vmEnd p = s.vmEnd p := by
  apply congrArg Vma.vmEnd
  apply pieced.others
  · rintro rfl
    exact room.absent inTree
  · rintro rfl
    exact room.outside inTree

lemma Pieced.grown (enough : tree.inorder.length < fuel) :
    ∃ t, insertVmStruct fuel new u = some t ∧ u.Inserted t new tree ∧
      s.Grown t tree (Avl.insertTree u.vmEnd new tree) new area piece := by
  obtain ⟨t, call, ins⟩ := insertVmStruct_spec (pieced.holds tree room.absent room.holds)
    room.nodup room.notNull room.absent enough
  refine ⟨t, call, ins, ins.holds, Avl.perm_insertTree new, Avl.balanced_insertTree new,
    ?_, ?_, ins.live.trans pieced.live, ?_⟩
  · rw [ins.vma, pieced.piece]
  · intro p ne apart
    rw [ins.vma, pieced.others p ne apart]
  · intro p notTree ne
    rw [ins.next_eq room.holds.1.zero_notMem notTree, pieced.next]
    exact update_of_ne ne _ _

lemma Pieced.border {lower upper : List Nat} (walk : tree.inorder = lower ++ upper)
    (sorted : tree.inorder.Pairwise fun p q => s.vmEnd p ≤ s.vmEnd q)
    (below : ∀ p ∈ lower, s.vmEnd p ≤ piece.vmEnd) (above : ∀ p ∈ upper, piece.vmEnd < s.vmEnd p) :
    u.lowerAreas new tree = lower ∧ u.upperAreas new tree = upper := by
  have newKey : u.vmEnd new = piece.vmEnd := congrArg Vma.vmEnd pieced.piece
  have sorted' : tree.inorder.Pairwise fun p q => u.vmEnd p ≤ u.vmEnd q := by
    apply sorted.imp_of_mem
    intro p q inP inQ le
    rw [pieced.vmEnd_eq room inP, pieced.vmEnd_eq room inQ]
    exact le
  obtain ⟨below', above'⟩ := Avl.insertPath_border (u.vmEnd new) sorted'
  have same : u.lowerAreas new tree ++ u.upperAreas new tree = lower ++ upper := by
    rw [← inorder_eq_lower_upper, walk]
  apply append_border_unique same below' above'
  · intro p mem
    rw [newKey, pieced.vmEnd_eq room (walk ▸ mem_append_left _ mem)]
    exact below p mem
  intro p mem
  rw [newKey, pieced.vmEnd_eq room (walk ▸ mem_append_right _ mem)]
  exact above p mem

lemma Pieced.place {lower upper : List Nat} {middle : Nat} (ins : u.Inserted t new tree)
    (walk : tree.inorder = lower ++ upper)
    (sorted : tree.inorder.Pairwise fun p q => s.vmEnd p ≤ s.vmEnd q)
    (below : ∀ p ∈ lower, s.vmEnd p ≤ piece.vmEnd) (above : ∀ p ∈ upper, piece.vmEnd < s.vmEnd p)
    (link : Linked s.next middle s.mmap lower) :
    (Avl.insertTree u.vmEnd new tree).inorder = lower ++ new :: upper ∧
      Linked t.next new t.mmap lower ∧ t.next new = s.next area ∧
      ∀ p, p ∉ lower → p ≠ new → t.next p = s.next p := by
  obtain ⟨lowerSame, upperSame⟩ := pieced.border room walk sorted below above
  have notLower : new ∉ lower := by
    intro mem
    exact room.absent (walk ▸ mem_append_left _ mem)
  have linked' : Linked u.next middle u.mmap (u.lowerAreas new tree) := by
    rw [lowerSame, pieced.mmap, pieced.next]
    apply link.congr
    intro p mem
    apply update_of_ne
    rintro rfl
    exact notLower mem
  obtain ⟨front, others⟩ := ins.linked room.nodup room.holds.1.zero_notMem linked'
  rw [lowerSame] at front others
  refine ⟨?_, front, ?_, ?_⟩
  · rw [← lowerSame, ← upperSame]
    exact Avl.inorder_insertTree new
  · rw [others new notLower, pieced.next]
    exact update_self _ _ _
  · intro p out ne
    rw [others p out, pieced.next]
    exact update_of_ne ne _ _

end Growth

end AddressSpace

end PrettyOS.Mm
