import PrettyOS.Mm.Munmap

/-!
Contract: the second loop of `do_munmap`, which releases the collected areas.
-/

namespace PrettyOS.Mm

open Library.AvlTree Library.IndexChain List Nat Finset

namespace AddressSpace

variable {s t u : AddressSpace} {fuel addr last free area new : Nat} {tree : HeightTree Nat}
  {rest : List Nat} {piece : Vma}

structure Pending (s : AddressSpace) (fuel : Nat) (tree : HeightTree Nat) (free : Nat)
    (rest : List Nat) : Prop where
  holds : s.avl.Holds tree
  nodup : tree.inorder.Nodup
  live : ∀ p ∈ tree.inorder, p ∈ s.live
  released : Linked s.next 0 free rest
  restLive : ∀ p ∈ rest, p ∈ s.live
  restNodup : rest.Nodup
  restNotNull : 0 ∉ rest
  apart : ∀ p ∈ rest, p ∉ tree.inorder
  enough : tree.inorder.length + 2 * rest.length < fuel

structure SameLayout (s t : AddressSpace) : Prop where
  mmap : t.mmap = s.mmap
  avl : t.avl = s.avl
  next : t.next = s.next
  vma : t.vma = s.vma

lemma SameLayout.trans (first : s.SameLayout t) (second : t.SameLayout u) : s.SameLayout u :=
  ⟨second.mmap.trans first.mmap, second.avl.trans first.avl, second.next.trans first.next,
    second.vma.trans first.vma⟩

structure Overlaps (s : AddressSpace) (addr last area : Nat) : Prop where
  nonempty : s.vmStart area < s.vmEnd area
  inWord : s.vmEnd area < wordSize
  early : s.vmStart area < last
  late : addr < s.vmEnd area

lemma Overlaps.congr (overlaps : s.Overlaps addr last area) (same : t.vma area = s.vma area) :
    t.Overlaps addr last area := by
  have starts : t.vmStart area = s.vmStart area := congrArg Vma.vmStart same
  have ends : t.vmEnd area = s.vmEnd area := congrArg Vma.vmEnd same
  constructor
  · rw [starts, ends]
    exact overlaps.nonempty
  · rw [ends]
    exact overlaps.inWord
  · rw [starts]
    exact overlaps.early
  · rw [ends]
    exact overlaps.late

lemma SameAreas.bounds (same : s.SameAreas t) (area : Nat) :
    t.vmStart area = s.vmStart area ∧ t.vmEnd area = s.vmEnd area :=
  ⟨congrFun (vmStart_congr same.vma) area, congrFun (vmEnd_congr same.vma) area⟩

lemma releaseArea_eq (kmalloc : Finset Nat → Nat) :
    ∃ u, s.SameAreas u ∧ (u = removeSharedVmStruct area s ∨
        ∃ st len, u = (removeSharedVmStruct area s).record (.unmapVma area st len)) ∧
      releaseArea fuel kmalloc addr last area s =
        (unmapFixup fuel kmalloc area (max addr (s.vmStart area))
          (subWord (min last (s.vmEnd area)) (max addr (s.vmStart area))) u).map
            fun t => t.kfree area := by
  have ring := @removeSharedVmStruct_sameAreas s area
  have st : (if addr < s.vmStart area then s.vmStart area else addr) =
      max addr (s.vmStart area) := by
    split_ifs <;> omega
  have stop : (if last > s.vmEnd area then s.vmEnd area else last) = min last (s.vmEnd area) := by
    split_ifs <;> omega
  rw [releaseArea, ring.vma]
  refine ⟨_, ring.trans (recordIf_sameAreas _ _), ?_, by rw [← st, ← stop]; rfl⟩
  by_cases unmaps : (removeSharedVmStruct area s).callback area VmOperations.hasUnmap
  · exact .inr ⟨_, _, if_pos unmaps⟩
  · exact .inl (if_neg unmaps)

lemma Pending.head (pending : s.Pending fuel tree free (area :: rest)) : free = area :=
  pending.released.1

lemma Pending.room (k : Allocator) (pending : s.Pending fuel tree free (area :: rest)) :
    s.Room tree (k.kmalloc s.live) area :=
  ⟨pending.holds, pending.nodup, pending.live, pending.apart area mem_cons_self,
    k.notNull s.live, k.fresh s.live⟩

structure Extended (s t : AddressSpace) (tree bigger : HeightTree Nat) (area : Nat) : Prop where
  holds : t.avl.Holds bigger
  nodup : bigger.inorder.Nodup
  live : ∀ p ∈ bigger.inorder, p ∈ t.live
  keptLive : ∀ p ∈ s.live, p ∈ t.live
  kept : ∀ p ∈ tree.inorder, p ∈ bigger.inorder
  fresh : ∀ p ∈ bigger.inorder, p ∈ tree.inorder ∨ p ∉ s.live
  vma : ∀ p ∈ s.live, p ≠ area → t.vma p = s.vma p
  next : ∀ p ∈ s.live, p ∉ tree.inorder → t.next p = s.next p

variable {bigger : HeightTree Nat} {avlFuel : Nat}

lemma Grown.extended (grown : s.Grown t tree bigger new area piece)
    (room : s.Room tree new area) : s.Extended t tree bigger area where
  holds := grown.holds
  nodup := grown.areas.nodup_iff.mpr (nodup_cons.mpr ⟨room.absent, room.nodup⟩)
  live p mem := by
    rw [grown.live, mem_insert]
    exact (mem_cons.mp (grown.areas.mem_iff.mp mem)).imp id (room.live p)
  keptLive p inLive := by
    rw [grown.live]
    exact mem_insert_of_mem inLive
  kept p inTree := grown.areas.mem_iff.mpr (mem_cons_of_mem _ inTree)
  fresh p mem := by
    rcases mem_cons.mp (grown.areas.mem_iff.mp mem) with rfl | inTree
    · exact Or.inr room.fresh
    · exact Or.inl inTree
  vma p inLive ne := by
    apply grown.others p _ ne
    rintro rfl
    exact room.fresh inLive
  next p inLive out := by
    apply grown.next p out
    rintro rfl
    exact room.fresh inLive

lemma Extended.trans {biggest : HeightTree Nat} (first : s.Extended t tree bigger area)
    (second : t.Extended u bigger biggest area) : s.Extended u tree biggest area where
  holds := second.holds
  nodup := second.nodup
  live := second.live
  keptLive p inLive := second.keptLive p (first.keptLive p inLive)
  kept p inTree := second.kept p (first.kept p inTree)
  fresh p mem := by
    rcases second.fresh p mem with inBigger | notLive
    · exact first.fresh p inBigger
    · exact Or.inr (mt (first.keptLive p) notLive)
  vma p inLive ne := (second.vma p (first.keptLive p inLive) ne).trans (first.vma p inLive ne)
  next p inLive out := by
    rw [second.next p (first.keptLive p inLive), first.next p inLive out]
    intro inBigger
    rcases first.fresh p inBigger with inTree | notLive
    · exact out inTree
    · exact notLive inLive

lemma Pending.extend
    (pending : s.Pending fuel tree free (area :: rest)) (ext : s.Extended t tree bigger area)
    (length : bigger.inorder.length ≤ tree.inorder.length + 2) :
    (t.kfree area).Pending fuel bigger (s.next area) rest := by
  have restNodup := nodup_cons.mp pending.restNodup
  have areaLive := pending.restLive area mem_cons_self
  have out : ∀ p ∈ area :: rest, p ∉ bigger.inorder := by
    intro p mem inBigger
    rcases ext.fresh p inBigger with inTree | notLive
    · exact pending.apart p mem inTree
    · exact notLive (pending.restLive p mem)
  refine ⟨ext.holds, ext.nodup, ?_, ?_, ?_, restNodup.2,
    fun null => pending.restNotNull (mem_cons_of_mem _ null), ?_, ?_⟩
  · intro p inBigger
    refine mem_erase.mpr ⟨?_, ext.live p inBigger⟩
    rintro rfl
    exact out p mem_cons_self inBigger
  · apply pending.released.2.congr
    intro p inRest
    have mem := mem_cons_of_mem area inRest
    exact ext.next p (pending.restLive p mem) (pending.apart p mem)
  · intro p inRest
    refine mem_erase.mpr ⟨?_, ext.keptLive p (pending.restLive p
      (mem_cons_of_mem _ inRest))⟩
    rintro rfl
    exact restNodup.1 inRest
  · intro p inRest
    exact out p (mem_cons_of_mem _ inRest)
  · have enough := pending.enough
    rw [length_cons] at enough
    omega

lemma SameAreas.extended (same : s.SameAreas t)
    (pending : s.Pending fuel tree free (area :: rest)) : s.Extended t tree tree area where
  holds := same.avl ▸ pending.holds
  nodup := pending.nodup
  live p inTree := same.live ▸ pending.live p inTree
  keptLive _ inLive := same.live ▸ inLive
  kept _ := id
  fresh _ := Or.inl
  vma p _ _ := congrFun same.vma p
  next p _ _ := congrFun same.next p

lemma Pending.drop (pending : s.Pending fuel tree free (area :: rest)) (same : s.SameAreas t) :
    (t.kfree area).Pending fuel tree (s.next area) rest ∧ s.SameLayout (t.kfree area) :=
  ⟨pending.extend (same.extended pending) (Nat.le_add_right _ 2),
    same.mmap, same.avl, same.next, same.vma⟩

lemma Pending.whole (k : Allocator) (pending : s.Pending fuel tree free (area :: rest))
    (overlaps : s.Overlaps addr last area) (low : addr ≤ s.vmStart area)
    (high : s.vmEnd area ≤ last) :
    ∃ t, releaseArea fuel k.kmalloc addr last area s = some t ∧
      t.Pending fuel tree (s.next area) rest ∧ s.SameLayout t := by
  obtain ⟨u, same, -, call⟩ := @releaseArea_eq s fuel addr last area k.kmalloc
  obtain ⟨starts, ends⟩ := same.bounds area
  rw [max_eq_right low, min_eq_right high] at call
  obtain ⟨t, res, same'⟩ := @unmapFixup_whole u fuel area (s.vmStart area) (s.vmEnd area) k
    starts.le overlaps.nonempty ends.ge (ends ▸ overlaps.inWord) starts.symm ends.symm
  obtain ⟨after, layout⟩ := pending.drop (same.trans same')
  refine ⟨t.kfree area, ?_, after, layout⟩
  rw [call, res]
  rfl

section Cuts

variable (k : Allocator) (areaLive : area ∈ s.live) (overlaps : s.Overlaps addr last area)
include areaLive overlaps

lemma releaseArea_tail (low : s.vmStart area < addr) (high : s.vmEnd area ≤ last) :
    ∃ u, s.Pieced u (k.kmalloc s.live) area { s.vma area with vmEnd := addr } ∧
      releaseArea fuel k.kmalloc addr last area s =
        (insertVmStruct fuel (k.kmalloc s.live) u).map fun t => t.kfree area := by
  obtain ⟨s', same, -, call⟩ := @releaseArea_eq s fuel addr last area k.kmalloc
  obtain ⟨starts, ends⟩ := same.bounds area
  rw [max_eq_left low.le, min_eq_right high] at call
  obtain ⟨u, pieced, res⟩ := @unmapFixup_tail s' fuel area addr (s.vmEnd area) k
    (same.live ▸ areaLive) (starts ▸ low.le) overlaps.late ends.ge (ends ▸ overlaps.inWord)
    (starts ▸ low) ends.symm
  rw [same.live, same.vma] at pieced
  exact ⟨u, pieced.of_sameBut same.sameBut, by rw [call, res, same.live]⟩

lemma releaseArea_head (low : addr ≤ s.vmStart area) (high : last < s.vmEnd area) :
    ∃ u, s.Pieced u (k.kmalloc s.live) area { s.vma area with
        vmStart := last
        vmEnd := s.vmStart area
        vmOffset := addWord (s.vma area).vmOffset (subWord last (s.vmStart area)) } ∧
      releaseArea fuel k.kmalloc addr last area s =
        (insertVmStruct fuel (k.kmalloc s.live) u).map fun t => t.kfree area := by
  obtain ⟨s', same, -, call⟩ := @releaseArea_eq s fuel addr last area k.kmalloc
  obtain ⟨starts, ends⟩ := same.bounds area
  rw [max_eq_right low, min_eq_left high.le] at call
  obtain ⟨u, pieced, res⟩ := @unmapFixup_head s' fuel area (s.vmStart area) last k
    (same.live ▸ areaLive) starts.le overlaps.early (ends ▸ high.le) (ends ▸ overlaps.inWord)
    starts.symm (ends ▸ high)
  rw [same.live, same.vma, starts] at pieced
  exact ⟨u, pieced.of_sameBut same.sameBut, by rw [call, res, same.live]⟩

lemma releaseArea_middle (forward : addr < last) (low : s.vmStart area < addr)
    (high : last < s.vmEnd area) :
    ∃ u, s.Pieced u (k.kmalloc s.live) area { s.vma area with
        vmOffset := addWord (s.vma area).vmOffset (subWord last (s.vmStart area))
        vmStart := last } ∧
      releaseArea fuel k.kmalloc addr last area s = ((insertVmStruct fuel (k.kmalloc s.live) u).bind
          (insertLower fuel k.kmalloc area addr)).map fun t => t.kfree area := by
  obtain ⟨s', same, -, call⟩ := @releaseArea_eq s fuel addr last area k.kmalloc
  obtain ⟨starts, ends⟩ := same.bounds area
  rw [max_eq_left low.le, min_eq_left high.le] at call
  obtain ⟨u, pieced, res⟩ := @unmapFixup_middle s' fuel area addr last k (same.live ▸ areaLive)
    (starts ▸ low.le) forward (ends ▸ high.le) (ends ▸ overlaps.inWord) (starts ▸ low) (ends ▸ high)
  rw [same.live, same.vma, starts] at pieced
  exact ⟨u, pieced.of_sameBut same.sameBut, by rw [call, res, same.live]⟩

end Cuts

structure Keeps (s t : AddressSpace) (tree bigger : HeightTree Nat) (rest : List Nat) : Prop where
  kept : ∀ p ∈ tree.inorder, p ∈ bigger.inorder
  vma : ∀ p ∈ tree.inorder, t.vma p = s.vma p
  restVma : ∀ p ∈ rest, t.vma p = s.vma p

lemma Extended.keeps (ext : s.Extended t tree bigger area)
    (pending : s.Pending fuel tree free (area :: rest)) :
    s.Keeps (t.kfree area) tree bigger rest where
  kept := ext.kept
  vma p inTree := by
    apply ext.vma p (pending.live p inTree)
    rintro rfl
    exact pending.apart p mem_cons_self inTree
  restVma p inRest := by
    apply ext.vma p (pending.restLive p (mem_cons_of_mem _ inRest))
    rintro rfl
    exact (nodup_cons.mp pending.restNodup).1 inRest

lemma Extended.room (k : Allocator) (ext : s.Extended t tree bigger area)
    (pending : s.Pending fuel tree free (area :: rest)) :
    t.Room bigger (k.kmalloc t.live) area := by
  refine ⟨ext.holds, ext.nodup, ext.live, ?_, k.notNull t.live, k.fresh t.live⟩
  intro mem
  rcases ext.fresh area mem with inTree | notLive
  · exact pending.apart area mem_cons_self inTree
  · exact notLive (pending.restLive area mem_cons_self)

section Rounds

variable (k : Allocator) (pending : s.Pending fuel tree free (area :: rest))
include pending

lemma Pending.one (pieced : s.Pieced u (k.kmalloc s.live) area piece)
    (call : releaseArea fuel k.kmalloc addr last area s =
      (insertVmStruct fuel (k.kmalloc s.live) u).map fun t => t.kfree area) :
    ∃ t bigger, releaseArea fuel k.kmalloc addr last area s = some t ∧
      t.Pending fuel bigger (s.next area) rest ∧ s.Keeps t tree bigger rest ∧
      k.kmalloc s.live ∈ bigger.inorder ∧ t.vma (k.kmalloc s.live) = piece := by
  have enough := pending.enough
  rw [length_cons] at enough
  have room := pending.room k
  obtain ⟨t, res, -, grown⟩ := @Pieced.grown s u fuel _ area tree piece pieced room (by omega)
  have ext := grown.extended room
  refine ⟨t.kfree area, _, ?_, pending.extend ext ?_, ext.keeps pending,
    grown.areas.mem_iff.mpr mem_cons_self, grown.piece⟩
  · rw [call, res]
    rfl
  · rw [grown.areas.length_eq, length_cons]
    omega

lemma Pending.two (pieced : s.Pieced u (k.kmalloc s.live) area piece)
    (call : releaseArea fuel k.kmalloc addr last area s =
      ((insertVmStruct fuel (k.kmalloc s.live) u).bind
        (insertLower fuel k.kmalloc area addr)).map fun t => t.kfree area) :
    ∃ t bigger, releaseArea fuel k.kmalloc addr last area s = some t ∧
      t.Pending fuel bigger (s.next area) rest ∧ s.Keeps t tree bigger rest := by
  have enough := pending.enough
  rw [length_cons] at enough
  have room := pending.room k
  obtain ⟨t, res, -, grown⟩ := @Pieced.grown s u fuel _ area tree piece pieced room (by omega)
  have ext := grown.extended room
  have areaLive := ext.keptLive area (pending.restLive area mem_cons_self)
  have length := grown.areas.length_eq
  rw [length_cons] at length
  obtain ⟨u', pieced', call'⟩ := @insertLower_eq t fuel addr area k areaLive
  have room' := ext.room k pending
  obtain ⟨t', result', -, grown'⟩ := @Pieced.grown t u' fuel _ area _ _ pieced' room' (by omega)
  have extended' := ext.trans (grown'.extended room')
  refine ⟨t'.kfree area, _, ?_, pending.extend extended' ?_, extended'.keeps pending⟩
  · rw [call, res, Option.bind_some, call', result']
    rfl
  · rw [grown'.areas.length_eq, length_cons, length]

lemma Pending.round (overlaps : s.Overlaps addr last area) (forward : addr < last) :
    ∃ t bigger, releaseArea fuel k.kmalloc addr last area s = some t ∧
      t.Pending fuel bigger (s.next area) rest ∧ s.Keeps t tree bigger rest := by
  have areaLive := pending.restLive area mem_cons_self
  by_cases low : addr ≤ s.vmStart area
  · by_cases high : s.vmEnd area ≤ last
    · obtain ⟨t, res, after, layout⟩ := pending.whole k overlaps low high
      exact ⟨t, tree, res, after, fun _ => id, fun p _ => congrFun layout.vma p,
        fun p _ => congrFun layout.vma p⟩
    obtain ⟨u, pieced, call⟩ := releaseArea_head k areaLive overlaps low (not_le.mp high)
    obtain ⟨t, bigger, res, after, keeps, -, -⟩ := pending.one k pieced call
    exact ⟨t, bigger, res, after, keeps⟩
  by_cases high : s.vmEnd area ≤ last
  · obtain ⟨u, pieced, call⟩ := releaseArea_tail k areaLive overlaps (not_le.mp low) high
    obtain ⟨t, bigger, res, after, keeps, -, -⟩ := pending.one k pieced call
    exact ⟨t, bigger, res, after, keeps⟩
  obtain ⟨u, pieced, call⟩ := releaseArea_middle k areaLive overlaps forward (not_le.mp low)
    (not_le.mp high)
  exact pending.two k pieced call

end Rounds

lemma Pending.free_ne_zero (pending : s.Pending fuel tree free (area :: rest)) : free ≠ 0 := by
  rw [pending.head]
  rintro rfl
  exact pending.restNotNull mem_cons_self

lemma releaseLoop_cons {kmalloc : Finset Nat → Nat}
    (pending : s.Pending avlFuel tree free (area :: rest))
    (call : releaseArea avlFuel kmalloc addr last area s = some t) :
    releaseLoop avlFuel kmalloc addr last (fuel + 1) free s =
      releaseLoop avlFuel kmalloc addr last fuel (s.next area) t := by
  rw [releaseLoop, if_neg pending.free_ne_zero, pending.head, call]

lemma sorted_insert {key : Nat → Nat} {lower upper : List Nat}
    (sorted : (lower ++ upper).Pairwise fun p q => key p ≤ key q)
    (below : ∀ p ∈ lower, key p ≤ key new) (above : ∀ p ∈ upper, key new ≤ key p) :
    (lower ++ new :: upper).Pairwise fun p q => key p ≤ key q := by
  rw [pairwise_append] at sorted ⊢
  refine ⟨sorted.1, pairwise_cons.mpr ⟨above, sorted.2.1⟩, fun p inLower q mem => ?_⟩
  rcases mem_cons.mp mem with rfl | inUpper
  · exact below p inLower
  · exact sorted.2.2 p inLower q inUpper

section Exact

variable (k : Allocator) {lower upper : List Nat} (pending : s.Pending fuel tree free [area])
  (traversal : tree.inorder = lower ++ upper) (list : Linked s.next 0 s.mmap (lower ++ upper))
  (sorted : tree.inorder.Pairwise fun p q => s.vmEnd p ≤ s.vmEnd q)
  (below : ∀ p ∈ lower, s.vmEnd p ≤ addr) (overlaps : s.Overlaps addr last area)
include pending traversal list sorted below overlaps

lemma Pending.tail (above : ∀ p ∈ upper, addr < s.vmEnd p) (low : s.vmStart area < addr)
    (high : s.vmEnd area ≤ last) :
    ∃ t bigger, releaseArea fuel k.kmalloc addr last area s = some t ∧ t.avl.Holds bigger ∧
      bigger.inorder = lower ++ k.kmalloc s.live :: upper ∧
      Linked t.next 0 t.mmap (lower ++ [k.kmalloc s.live]) ∧ (tree.Balanced → bigger.Balanced) ∧
      t.vma (k.kmalloc s.live) = { s.vma area with vmEnd := addr } ∧
      ∀ p ∈ tree.inorder, t.vma p = s.vma p := by
  have enough := pending.enough
  have room := pending.room k
  obtain ⟨_, front, -⟩ := linked_append.mp list
  obtain ⟨u, pieced, call⟩ := releaseArea_tail k (pending.restLive area mem_cons_self)
    overlaps low high
  obtain ⟨t, res, ins, grown⟩ := @Pieced.grown s u fuel _ area tree _ pieced room (by omega)
  obtain ⟨place, front', onward, -⟩ := pieced.place room ins traversal sorted below above front
  have stop := pending.released.2
  refine ⟨t.kfree area, _, ?_, grown.holds, place, ?_, grown.balanced, grown.piece,
    ((grown.extended room).keeps pending).vma⟩
  · rw [call, res]
    rfl
  · exact linked_append.mpr ⟨_, front', rfl, onward.trans stop⟩

lemma Pending.middle (forward : addr < last) (above : ∀ p ∈ upper, s.vmEnd area < s.vmEnd p)
    (low : s.vmStart area < addr) (high : last < s.vmEnd area) :
    ∃ t bigger upperPiece lowerPiece, releaseArea fuel k.kmalloc addr last area s = some t ∧
      t.avl.Holds bigger ∧ bigger.inorder = lower ++ lowerPiece :: upperPiece :: upper ∧
      Linked t.next 0 t.mmap (lower ++ [lowerPiece]) := by
  have enough := pending.enough
  have room := pending.room k
  obtain ⟨middle, front, -⟩ := linked_append.mp list
  obtain ⟨u, pieced, call⟩ := @releaseArea_middle s fuel addr last area k
    (pending.restLive area mem_cons_self) overlaps forward low high
  obtain ⟨t, res, ins, grown⟩ := @Pieced.grown s u fuel _ area tree _ pieced room (by omega)
  have below' : ∀ p ∈ lower, s.vmEnd p ≤ s.vmEnd area :=
    fun p mem => (below p mem).trans overlaps.late.le
  obtain ⟨place, front', _, others⟩ := pieced.place room ins traversal sorted below'
    above front
  have ext := grown.extended room
  obtain ⟨u', pieced', call'⟩ := @insertLower_eq t fuel addr area k
    (ext.keptLive area (pending.restLive area mem_cons_self))
  have room' := ext.room k pending
  have length := grown.areas.length_eq
  rw [length_cons] at length
  rw [length_singleton] at enough
  obtain ⟨t', result', inserted', -⟩ := @Pieced.grown t u' fuel _ area _ _ pieced' room' (by omega)
  have keys : ∀ p ∈ tree.inorder, t.vmEnd p = s.vmEnd p := fun p inTree =>
    congrArg Vma.vmEnd ((ext.keeps pending).vma p inTree)
  have newKey : t.vmEnd (k.kmalloc s.live) = s.vmEnd area := by
    rw [AddressSpace.vmEnd, grown.piece]
    rfl
  have lowerKeys : ∀ p ∈ lower, t.vmEnd p ≤ addr := by
    intro p mem
    rw [keys p (traversal ▸ mem_append_left _ mem)]
    exact below p mem
  have upperKeys : ∀ p ∈ upper, s.vmEnd area < t.vmEnd p := by
    intro p mem
    rw [keys p (traversal ▸ mem_append_right _ mem)]
    exact above p mem
  have both : (lower ++ upper).Pairwise fun p q => t.vmEnd p ≤ t.vmEnd q := by
    rw [← traversal]
    apply sorted.imp_of_mem
    intro p q inP inQ le
    rw [keys p inP, keys q inQ]
    exact le
  have sorted' := sorted_insert both
    (fun p mem => (lowerKeys p mem).trans (newKey ▸ overlaps.late.le))
    (fun p mem => newKey ▸ (upperKeys p mem).le)
  have above' : ∀ p ∈ k.kmalloc s.live :: upper, addr < t.vmEnd p := by
    intro p mem
    rcases mem_cons.mp mem with rfl | inUpper
    · rw [newKey]
      exact overlaps.late
    · exact overlaps.late.trans (upperKeys p inUpper)
  obtain ⟨place', front'', onward', -⟩ := pieced'.place room' inserted' place (place ▸ sorted')
    lowerKeys above' front'
  have stop : t.next area = 0 := by
    rw [others area _ (kmalloc_ne k (pending.restLive area mem_cons_self))]
    · exact pending.released.2
    · intro inLower
      exact pending.apart area mem_cons_self (traversal ▸ mem_append_left _ inLower)
  refine ⟨t'.kfree area, _, _, _, ?_, inserted'.holds, place', ?_⟩
  · rw [call, res, Option.bind_some, call', result']
    rfl
  · exact linked_append.mpr ⟨_, front'', rfl, onward'.trans stop⟩

end Exact

lemma releaseLoop_spec (k : Allocator) (pending : s.Pending avlFuel tree free rest)
    (overlaps : ∀ p ∈ rest, s.Overlaps addr last p) (forward : addr < last)
    (enough : rest.length < fuel) :
    ∃ t bigger, releaseLoop avlFuel k.kmalloc addr last fuel free s = some t ∧
      t.avl.Holds bigger ∧ ∀ p ∈ tree.inorder, p ∈ bigger.inorder ∧ t.vma p = s.vma p := by
  induction rest generalizing s tree free fuel with
  | nil =>
    obtain ⟨fuel, rfl⟩ := exists_eq_succ_of_ne_zero (ne_zero_of_lt enough)
    have done : free = 0 := pending.released
    exact ⟨s, tree, by rw [releaseLoop, if_pos done], pending.holds, fun p mem => ⟨mem, rfl⟩⟩
  | cons area rest ih =>
    obtain ⟨fuel, rfl⟩ := exists_eq_succ_of_ne_zero (ne_zero_of_lt enough)
    obtain ⟨t, bigger, call, after, keeps⟩ := pending.round k
      (overlaps area mem_cons_self) forward
    have overlaps' : ∀ p ∈ rest, t.Overlaps addr last p := by
      intro p inRest
      exact (overlaps p (mem_cons_of_mem _ inRest)).congr (keeps.restVma p inRest)
    obtain ⟨v, biggest, res, holds, kept⟩ := ih after overlaps'
      (lt_of_succ_lt_succ enough)
    refine ⟨v, biggest, (releaseLoop_cons pending call).trans res, holds, ?_⟩
    intro p inTree
    obtain ⟨mem, sameVma⟩ := kept p (keeps.kept p inTree)
    exact ⟨mem, sameVma.trans (keeps.vma p inTree)⟩

lemma releaseLoop_whole {wholes : List Nat} (k : Allocator)
    (pending : s.Pending avlFuel tree free (wholes ++ rest))
    (inside : ∀ p ∈ wholes, s.Overlaps addr last p ∧ addr ≤ s.vmStart p ∧ s.vmEnd p ≤ last) :
    ∃ t, (∀ fuel, releaseLoop avlFuel k.kmalloc addr last (fuel + wholes.length) free s =
        releaseLoop avlFuel k.kmalloc addr last fuel (rest.headD 0) t) ∧
      s.SameLayout t ∧ t.Pending avlFuel tree (rest.headD 0) rest := by
  induction wholes generalizing s free with
  | nil =>
    have head := linked_headD pending.released
    rw [nil_append] at head
    rw [head]
    exact ⟨s, fun _ => rfl, ⟨rfl, rfl, rfl, rfl⟩, pending⟩
  | cons area wholes ih =>
    obtain ⟨overlaps, low, high⟩ := inside area mem_cons_self
    obtain ⟨t, call, after, layout⟩ := pending.whole k overlaps low high
    have inside' : ∀ p ∈ wholes, t.Overlaps addr last p ∧ addr ≤ t.vmStart p ∧
        t.vmEnd p ≤ last := by
      intro p mem
      have before := inside p (mem_cons_of_mem _ mem)
      rw [vmStart_congr layout.vma, vmEnd_congr layout.vma]
      exact ⟨before.1.congr (congrFun layout.vma p), before.2⟩
    obtain ⟨v, res, layout', final⟩ := ih after inside'
    refine ⟨v, fun fuel => ?_, layout.trans layout', final⟩
    rw [length_cons, ← res fuel, ← add_assoc]
    exact releaseLoop_cons pending call

end AddressSpace

end PrettyOS.Mm
