import PrettyOS.Mm.MunmapExact

/-!
Contract: `find_vma` as a lookup, and what `merge_segments` leaves of an address space.
-/

namespace PrettyOS.Mm

open Library.AvlTree Library.IndexChain List Function AddressSpace Bool

namespace AddressSpace

variable {s t : AddressSpace} {fuel addr : Nat} {tree : HeightTree Nat}

structure FirstAbove (s : AddressSpace) (areas : List Nat) (addr result : Nat) : Prop where
  null : result = 0 ↔ ∀ p ∈ areas, s.vmEnd p ≤ addr
  least : result ≠ 0 → result ∈ areas ∧ addr < s.vmEnd result ∧
    ∀ p ∈ areas, addr < s.vmEnd p → s.vmEnd result ≤ s.vmEnd p
  containing : ∀ p ∈ areas, s.Contains p addr → result = p

lemma Ascending.of_ordered (ord : Avl.Ordered s.vmEnd tree)
    (ne : ∀ p ∈ tree.inorder, s.vmStart p < s.vmEnd p)
    (disjoint : ∀ p ∈ tree.inorder, ∀ q ∈ tree.inorder, p ≠ q →
      s.vmEnd p ≤ s.vmStart q ∨ s.vmEnd q ≤ s.vmStart p) : s.Ascending tree.inorder := by
  refine ⟨ne, ord.imp_of_mem ?_⟩
  intro p q inP inQ less
  rcases disjoint p inP q inQ (by rintro rfl; exact lt_irrefl _ less) with apart | apart
  · exact apart
  · have pos := ne p inP
    omega

lemma firstAbove_headD {lower upper : List Nat} (asc : s.Ascending (lower ++ upper))
    (ne0 : 0 ∉ upper) (below : ∀ p ∈ lower, s.vmEnd p ≤ addr)
    (above : ∀ p ∈ upper, addr < s.vmEnd p) :
    s.FirstAbove (lower ++ upper) addr (upper.headD 0) := by
  cases upper with
  | nil =>
    refine ⟨by simpa using below, by simp, ?_⟩
    intro p mem contains
    exact absurd (below p (append_nil lower ▸ mem)) contains.2.not_ge
  | cons first rest =>
    have firstAbove := above first mem_cons_self
    have later := (pairwise_cons.mp (pairwise_append.mp asc.apart).2.1).1
    have cases : ∀ p ∈ lower ++ first :: rest, addr < s.vmEnd p → p = first ∨ p ∈ rest := by
      intro p mem beyond
      rcases mem_append.mp mem with inLower | inUpper
      · exact absurd beyond (below p inLower).not_gt
      · exact mem_cons.mp inUpper
    refine ⟨⟨?_, fun all => absurd (all first (by simp)) firstAbove.not_ge⟩,
      fun _ => ⟨by simp, firstAbove, ?_⟩, ?_⟩
    · rintro rfl
      exact absurd mem_cons_self ne0
    · intro p mem beyond
      rcases cases p mem beyond with rfl | inRest
      · exact le_rfl
      · exact (later p inRest).trans (asc.nonempty p mem).le
    · intro p mem contains
      rcases cases p mem contains.2 with rfl | inRest
      · rfl
      · exact absurd ((later p inRest).trans contains.1) firstAbove.not_ge

theorem findVma_firstAbove (holds : s.avl.Holds tree) (ordered : Avl.Ordered s.vmEnd tree)
    (nonempty : ∀ p ∈ tree.inorder, s.vmStart p < s.vmEnd p)
    (disjoint : ∀ p ∈ tree.inorder, ∀ q ∈ tree.inorder, p ≠ q →
      s.vmEnd p ≤ s.vmStart q ∨ s.vmEnd q ≤ s.vmStart p)
    (enough : tree.inorder.length < fuel) (addr : Nat) :
    ∃ result, findVma fuel addr s = some result ∧ s.FirstAbove tree.inorder addr result := by
  have ascending := Ascending.of_ordered ordered nonempty disjoint
  obtain ⟨_, _, split, below, above⟩ := exists_lookup ascending addr
  have notNull := holds.1.zero_notMem
  rw [split] at ascending enough notNull ⊢
  exact ⟨_, findVma_spec holds split ascending below above enough,
    firstAbove_headD ascending (mt (mem_append_right _) notNull) below above⟩

/-- Two neighbouring pages, both mapped to the inode. -/
def splitPages (inode : Nat) : AddressSpace where
  mmap := 1
  avl := ⟨fun side p => if side = .right ∧ p = 1 then 2 else 0, fun p => if p = 1 then 2 else 1, 1⟩
  next p := if p = 1 then 2 else 0
  nextShare p := if p = 1 then 2 else 1
  prevShare p := if p = 1 then 2 else 1
  vma p := ⟨0x1000 * p, 0x1000 * (p + 1), 0, 0, 0x1000 * p, inode, 0, 0⟩
  iMmap _ := 1
  iCount _ := 2
  operations _ := ⟨false, false, false⟩
  live := {1, 2}
  effects := []

lemma splitPages_holds (inode : Nat) :
    (splitPages inode).avl.Holds (.node 2 .leaf 1 (.node 1 .leaf 2 .leaf)) :=
  ⟨⟨by decide, rfl, rfl, rfl, trivial, by decide, rfl, rfl, rfl, trivial, trivial⟩, rfl⟩

theorem findVma_firstAbove_splitPages :
    ∃ result, findVma 4 0x2000 (splitPages 0) = some result ∧
      (splitPages 0).FirstAbove [1, 2] 0x2000 result :=
  findVma_firstAbove (splitPages_holds 0)
    (by simp [Avl.Ordered, HeightTree.inorder, splitPages, vmEnd])
    (by decide) (by decide) (by decide) 0x2000

structure Mapping where
  vmInode : Nat
  vmPte : Nat
  vmOps : Nat
  vmFlags : Nat
  offset : Option Nat
deriving DecidableEq

instance (area x : Nat) : Decidable (s.Contains area x) :=
  inferInstanceAs (Decidable (_ ∧ _))

def mappingOf (s : AddressSpace) (x area : Nat) : Mapping where
  vmInode := (s.vma area).vmInode
  vmPte := (s.vma area).vmPte
  vmOps := (s.vma area).vmOps
  vmFlags := (s.vma area).vmFlags
  offset := if (s.vma area).vmInode ≠ 0 ∨ (s.vma area).vmFlags &&& vmShm ≠ 0 then
    some (s.fileOffset area x) else none

def mappingAt (s : AddressSpace) (chain : List Nat) (x : Nat) : Option Mapping :=
  (chain.find? fun area => s.Contains area x).map (s.mappingOf x)

section MappingAt

variable {chain : List Nat} {area x : Nat}

lemma mappingAt_cons : s.mappingAt (area :: chain) x =
    if s.Contains area x then some (s.mappingOf x area) else s.mappingAt chain x := by
  by_cases contains : s.Contains area x <;> simp [mappingAt, contains]

lemma mappingAt_append (front : List Nat) :
    s.mappingAt (front ++ chain) x = (s.mappingAt front x).or (s.mappingAt chain x) := by
  simp [mappingAt, find?_append, Option.map_or]

lemma mappingAt_congr (same : ∀ p ∈ chain, t.vma p = s.vma p) :
    t.mappingAt chain x = s.mappingAt chain x := by
  induction chain with
  | nil => rfl
  | cons area rest ih =>
    obtain ⟨first, later⟩ := forall_mem_cons.mp same
    have contains : t.Contains area x ↔ s.Contains area x := by
      simp [Contains, vmStart, vmEnd, first]
    have mapping : t.mappingOf x area = s.mappingOf x area := by
      simp [mappingOf, fileOffset, vmStart, first]
    rw [mappingAt_cons, mappingAt_cons, ih later, mapping]
    simp only [contains]

end MappingAt

variable {prev mpnt : Nat} {lower upper : List Nat}

def extend (prev mpnt : Nat) (s : AddressSpace) : AddressSpace :=
  (s.setVma prev { s.vma prev with vmEnd := s.vmEnd mpnt }).setNext prev (s.next mpnt)

def closeMerged (mpnt : Nat) (s : AddressSpace) : AddressSpace :=
  if s.callback mpnt VmOperations.hasClose then
    (s.setVma mpnt { s.vma mpnt with
      vmOffset := addWord (s.vma mpnt).vmOffset (subWord (s.vma mpnt).vmEnd (s.vma mpnt).vmStart)
      vmStart := (s.vma mpnt).vmEnd }).record (.closeVma mpnt)
  else s

def discard (mpnt : Nat) (s : AddressSpace) : AddressSpace :=
  let left := removeSharedVmStruct mpnt s
  (if (left.vma mpnt).vmInode ≠ 0 then left.countInode (left.vma mpnt).vmInode
    else left).kfree mpnt

lemma mergeInto_eq : mergeInto fuel prev mpnt s =
    (avlRemove fuel s.vmEnd mpnt s.avl).map fun avl =>
      discard mpnt (closeMerged mpnt (extend prev mpnt { s with avl })) :=
  rfl

structure Absorbed (s t : AddressSpace) (prev mpnt : Nat) : Prop where
  mmap : t.mmap = s.mmap
  next : t.next = update s.next prev (s.next mpnt)
  live : t.live = s.live.erase mpnt
  extended : t.vma prev = { s.vma prev with vmEnd := s.vmEnd mpnt }
  others : ∀ p, p ≠ prev → p ≠ mpnt → t.vma p = s.vma p

lemma closeMerged_sameBut : s.SameBut (closeMerged mpnt s) mpnt := by
  unfold closeMerged
  split_ifs
  · exact ⟨rfl, rfl, rfl, fun p ne => update_of_ne ne _ _, rfl⟩
  · exact SameAreas.refl.sameBut

lemma discard_eq : ∃ u, s.SameAreas u ∧ discard mpnt s = u.kfree mpnt :=
  ⟨_, removeSharedVmStruct_sameAreas.trans (countIf_sameAreas (_ ≠ 0) _), rfl⟩

lemma absorbed_discard {avl : Avl} (ne : prev ≠ mpnt) :
    s.Absorbed (discard mpnt (closeMerged mpnt (extend prev mpnt { s with avl }))) prev mpnt ∧
      (discard mpnt (closeMerged mpnt (extend prev mpnt { s with avl }))).avl = avl := by
  have closed := @closeMerged_sameBut (extend prev mpnt { s with avl }) mpnt
  obtain ⟨u, same, res⟩ := @discard_eq (closeMerged mpnt (extend prev mpnt { s with avl })) mpnt
  rw [res]
  refine ⟨⟨same.mmap.trans closed.mmap, same.next.trans closed.next, ?_, ?_, ?_⟩,
    same.avl.trans closed.avl⟩
  · exact congrArg (Finset.erase · mpnt) (same.live.trans closed.live)
  · exact ((congrFun same.vma prev).trans (closed.vma prev ne)).trans (setVma_vma _)
  intro p notPrev notMpnt
  exact ((congrFun same.vma p).trans (closed.vma p notMpnt)).trans
    (update_of_ne notPrev _ _)

section Merge

variable (mapped : s.Mapped (lower ++ prev :: mpnt :: upper))
include mapped

lemma Mapped.nodup_merge : prev ≠ mpnt ∧ prev ∉ lower ∧ mpnt ∉ lower ∧ prev ∉ upper ∧
    mpnt ∉ upper := by
  have nodup := mapped.ascending.nodup
  grind

variable (absorbed : s.Absorbed t prev mpnt)
include absorbed

lemma Absorbed.same {p : Nat} (mem : p ∈ lower ∨ p ∈ upper) : t.vma p = s.vma p := by
  have apart := mapped.nodup_merge
  apply absorbed.others <;> rintro rfl <;> grind

lemma Absorbed.starts {p : Nat} (mem : p ∈ lower ++ prev :: upper) : t.vmStart p = s.vmStart p := by
  by_cases isPrev : p = prev
  · rw [isPrev, vmStart, absorbed.extended]
    rfl
  · exact congrArg Vma.vmStart (absorbed.same mapped (by simpa [isPrev] using mem))

lemma Absorbed.linked : Linked t.next 0 t.mmap (lower ++ prev :: upper) := by
  obtain ⟨-, prevLower, -, prevUpper, -⟩ := mapped.nodup_merge
  obtain ⟨_, front, rfl, rfl, back⟩ := linked_append.mp mapped.consistent.1
  rw [absorbed.mmap, absorbed.next]
  refine linked_append.mpr ⟨_, front.congr ?_, rfl, ?_⟩
  · intro p mem
    exact update_of_ne (ne_of_mem_of_not_mem mem prevLower) _ _
  rw [update_self]
  apply back.congr
  intro p mem
  exact update_of_ne (ne_of_mem_of_not_mem mem prevUpper) _ _

lemma Absorbed.ascending (meets : s.vmStart mpnt = s.vmEnd prev) :
    t.Ascending (lower ++ prev :: upper) := by
  have before := mapped.ascending
  have ends : ∀ p, p ∈ lower ∨ p ∈ upper → t.vmEnd p = s.vmEnd p := fun p mem =>
    congrArg Vma.vmEnd (absorbed.same mapped mem)
  have prevEnd : t.vmEnd prev = s.vmEnd mpnt := by
    rw [vmEnd, absorbed.extended]
  have starts := fun p => @Absorbed.starts s t prev mpnt lower upper mapped absorbed p
  have kept : ∀ p q, p ∈ lower ∨ p ∈ upper → q ∈ lower ++ prev :: upper →
      s.vmEnd p ≤ s.vmStart q → t.vmEnd p ≤ t.vmStart q := by
    intro p q inP inQ le
    rwa [ends p inP, starts q inQ]
  have ne := before.nonempty
  obtain ⟨inLower, ⟨-, behind, inUpper⟩, across⟩ := by
    simpa only [pairwise_append, pairwise_cons] using before.apart
  refine ⟨?_, pairwise_append.mpr ⟨?_, pairwise_cons.mpr ⟨?_, ?_⟩, ?_⟩⟩
  · intro p mem
    rw [starts p mem]
    grind
  · exact inLower.imp_of_mem fun inP inQ => kept _ _ (.inl inP) (by simp [inQ])
  · intro q inQ
    rw [prevEnd, starts q (by simp [inQ])]
    exact behind q inQ
  · exact inUpper.imp_of_mem fun inP inQ => kept _ _ (.inr inP) (by simp [inQ])
  · intro p inP q inQ
    refine kept p q (.inl inP) (by simp [inQ]) (across p inP q ?_)
    grind

lemma Absorbed.mapping (merges : mergeable s prev mpnt) (x : Nat) :
    t.mappingAt (lower ++ prev :: upper) x =
      s.mappingAt (lower ++ prev :: mpnt :: upper) x := by
  simp only [mergeable, and_eq_true, beq_iff_eq, or_eq_true, not_eq_true',
    or_eq_false_iff, bne_eq_false_iff_eq] at merges
  obtain ⟨⟨⟨⟨⟨inode, pte⟩, ops⟩, flags⟩, _⟩, offsets⟩ := merges
  have prevRange := mapped.ascending.nonempty prev (by simp)
  have mpntRange := mapped.ascending.nonempty mpnt (by simp)
  have contains : t.Contains prev x ↔ s.Contains prev x ∨ s.Contains mpnt x := by
    simp only [Contains, vmStart, vmEnd, absorbed.extended] at *
    omega
  have ofPrev : t.mappingOf x prev = s.mappingOf x prev := by
    simp [mappingOf, fileOffset, vmStart, absorbed.extended]
  have ofMpnt : s.Contains mpnt x → s.mappingOf x mpnt = s.mappingOf x prev := by
    intro inMpnt
    have inWord := mapped.inWord prev (by simp)
    rw [mappingOf, mappingOf, ← inode, ← pte, ← ops, ← flags]
    congr 1
    split_ifs with backed
    · have same := offsets.resolve_left (by grind)
      simp only [Contains, vmStart, vmEnd] at *
      rw [fileOffset, fileOffset, ← same, vmStart, vmStart]
      unfold addWord subWord
      rw [wordSize] at *
      congr 1
      omega
    · rfl
  rw [mappingAt_append, mappingAt_append, mappingAt_cons, mappingAt_cons, mappingAt_cons,
    mappingAt_congr fun p mem => absorbed.same mapped (.inl mem),
    mappingAt_congr fun p mem => absorbed.same mapped (.inr mem), ofPrev]
  by_cases inPrev : s.Contains prev x
  · simp [contains, inPrev]
  by_cases inMpnt : s.Contains mpnt x
  · simp [contains, inPrev, inMpnt, ofMpnt inMpnt]
  · simp [contains, inPrev, inMpnt]

end Merge

inductive MergeStep : AddressSpace × List Nat → AddressSpace × List Nat → Prop
  | merge {s : AddressSpace} {avl : Avl} {prev mpnt : Nat} {lower upper : List Nat}
      (mapped : s.Mapped (lower ++ prev :: mpnt :: upper)) (merges : mergeable s prev mpnt) :
      MergeStep (s, lower ++ prev :: mpnt :: upper)
        (discard mpnt (closeMerged mpnt (extend prev mpnt { s with avl })), lower ++ prev :: upper)

def Merges : AddressSpace × List Nat → AddressSpace × List Nat → Prop :=
  Relation.ReflTransGen MergeStep

lemma mergeInto_step (mapped : s.Mapped (lower ++ prev :: mpnt :: upper))
    (merges : mergeable s prev mpnt) (enough : (lower ++ prev :: mpnt :: upper).length < fuel) :
    ∃ t, mergeInto fuel prev mpnt s = some t ∧ t.Mapped (lower ++ prev :: upper) ∧
      MergeStep (s, lower ++ prev :: mpnt :: upper) (t, lower ++ prev :: upper) := by
  obtain ⟨ne, -, mpntLower, -⟩ := mapped.nodup_merge
  obtain ⟨-, tree, holds, bal, walk⟩ := mapped.consistent
  have asc := mapped.ascending
  rw [← walk] at asc enough
  obtain ⟨avl, less, call, after, erased, keeps⟩ := Avl.avlRemove_spec holds asc.ordered
    (show mpnt ∈ tree.inorder by simp [walk]) enough
  obtain ⟨absorbed, sameAvl⟩ := @absorbed_discard s prev mpnt avl ne
  have meets : s.vmStart mpnt = s.vmEnd prev := by
    simp only [mergeable, and_eq_true, beq_iff_eq] at merges
    exact merges.1.2
  refine ⟨_, by rw [mergeInto_eq, call]; rfl, ⟨⟨absorbed.linked mapped, less, ?_,
    keeps bal, ?_⟩, absorbed.ascending mapped meets, ?_, ?_⟩, .merge mapped merges⟩
  · rw [sameAvl]
    exact after
  · rw [erased, walk, erase_append_right _ mpntLower]
    simp [ne]
  · intro p mem
    by_cases isPrev : p = prev
    · rw [isPrev, vmEnd, absorbed.extended]
      exact mapped.inWord mpnt (by simp)
    have others : p ∈ lower ∨ p ∈ upper := by simpa [isPrev] using mem
    rw [vmEnd, absorbed.same mapped others]
    exact mapped.inWord p (by grind)
  · intro p mem
    rw [absorbed.live]
    have apart := mapped.nodup_merge
    exact Finset.mem_erase.mpr ⟨by grind, mapped.live p (by grind)⟩

lemma Mapped.next_eq {rest : List Nat} (mapped : s.Mapped (lower ++ prev :: rest)) :
    s.next prev = rest.headD 0 := by
  obtain ⟨_, -, rfl, back⟩ := linked_append.mp mapped.consistent.1
  exact (linked_headD back).symm

lemma Mapped.ne_zero {chain : List Nat} {p : Nat} (mapped : s.Mapped chain) (mem : p ∈ chain) :
    p ≠ 0 := by
  obtain ⟨-, _, holds, -, walk⟩ := mapped.consistent
  rintro rfl
  exact holds.1.zero_notMem (walk ▸ mem)

lemma mergeLoop_merges {avlFuel endAddr : Nat} {rest : List Nat}
    (mapped : s.Mapped (lower ++ prev :: rest)) (enough : rest.length < fuel)
    (avlEnough : (lower ++ prev :: rest).length < avlFuel) :
    ∃ t chain, mergeLoop avlFuel endAddr fuel prev (rest.headD 0) s = some t ∧ t.Mapped chain ∧
      Merges (s, lower ++ prev :: rest) (t, chain) := by
  induction rest generalizing s lower prev fuel with
  | nil =>
    obtain ⟨fuel, rfl⟩ := Nat.exists_eq_succ_of_ne_zero (Nat.ne_zero_of_lt enough)
    exact ⟨s, _, by simp [mergeLoop], mapped, .refl⟩
  | cons mpnt rest ih =>
    obtain ⟨fuel, rfl⟩ := Nat.exists_eq_succ_of_ne_zero (Nat.ne_zero_of_lt enough)
    have ne0 := mapped.ne_zero (show mpnt ∈ lower ++ prev :: mpnt :: rest by simp)
    have moved : lower ++ prev :: mpnt :: rest = (lower ++ [prev]) ++ mpnt :: rest := by simp
    have onward := (moved ▸ mapped).next_eq
    rw [headD_cons, mergeLoop]
    by_cases inside : s.vmStart prev < endAddr
    · rw [if_pos ⟨ne0, inside⟩]
      dsimp only
      rw [onward]
      by_cases merges : mergeable s prev mpnt
      · obtain ⟨t, call, after, step⟩ := mergeInto_step mapped merges avlEnough
        obtain ⟨u, chain, res, final, steps⟩ := ih after (by simpa using enough)
          (by simp at avlEnough ⊢; omega)
        rw [if_pos merges, call]
        exact ⟨u, chain, res, final, steps.head step⟩
      · rw [if_neg merges, moved]
        exact ih (moved ▸ mapped) (by simpa using enough) (moved ▸ avlEnough)
    · rw [if_neg (fun both => inside both.2)]
      exact ⟨s, _, rfl, mapped, .refl⟩

lemma Merges.mappingAt {start last : AddressSpace × List Nat} (steps : Merges start last)
    (x : Nat) : last.1.mappingAt last.2 x = start.1.mappingAt start.2 x := by
  induction steps with
  | refl => rfl
  | tail _ step ih =>
    rw [← ih]
    cases step with
    | merge mapped merges =>
      exact (absorbed_discard mapped.nodup_merge.1).1.mapping mapped merges x

lemma mergeSegments_merges {chain : List Nat} (mapped : s.Mapped chain)
    (enough : chain.length < fuel) (startAddr endAddr : Nat) :
    ∃ t chain', mergeSegments fuel startAddr endAddr s = some t ∧ t.Mapped chain' ∧
      Merges (s, chain) (t, chain') := by
  obtain ⟨-, _, holds, _, walk⟩ := mapped.consistent
  obtain ⟨lower, upper, rfl, below, above⟩ := exists_lookup mapped.ascending startAddr
  rw [mergeSegments, findVma_spec holds walk mapped.ascending below above enough]
  cases upper with
  | nil => exact ⟨s, _, rfl, mapped, .refl⟩
  | cons mpnt rest =>
    have ne0 := mapped.ne_zero (show mpnt ∈ lower ++ mpnt :: rest by simp)
    have ord := mapped.ascending
    rw [← walk] at ord enough
    rw [headD_cons]
    dsimp only
    rw [if_neg ne0, avlNeighbours_eq holds ord.ordered walk enough]
    rcases eq_nil_or_concat' lower with rfl | ⟨front, prev, rfl⟩
    · refine mergeLoop_merges mapped ?_ ?_ <;> grind
    have prevNe := mapped.ne_zero (show prev ∈ front ++ [prev] ++ mpnt :: rest by simp)
    rw [append_assoc, singleton_append] at mapped ⊢
    rw [getLastD_concat]
    dsimp only
    rw [if_neg prevNe]
    refine mergeLoop_merges mapped ?_ ?_ <;> grind

/-- Mapped addresses and their mappings stay as they are, in a space whose list and tree
agree again. -/
theorem mergeSegments_keeps_mappings {chain : List Nat} (mapped : s.Mapped chain)
    (enough : chain.length < fuel) (startAddr endAddr : Nat) :
    ∃ t chain', mergeSegments fuel startAddr endAddr s = some t ∧ t.Mapped chain' ∧
      ∀ x, t.mappingAt chain' x = s.mappingAt chain x := by
  obtain ⟨t, chain', call, after, steps⟩ := mergeSegments_merges mapped enough startAddr endAddr
  exact ⟨t, chain', call, after, Merges.mappingAt steps⟩

lemma splitPages_mapped (inode : Nat) : (splitPages inode).Mapped [1, 2] where
  consistent := by
    refine ⟨⟨rfl, rfl, rfl⟩, _, splitPages_holds inode, ?_, rfl⟩
    exact ⟨rfl, by decide, by decide, trivial, rfl, by decide, by decide, trivial, trivial⟩
  ascending := by
    constructor <;> simp [splitPages, vmStart, vmEnd]
  inWord := by simp [splitPages, vmEnd, wordSize]
  live := by simp [splitPages]

theorem mergeSegments_keeps_splitPages :
    ∃ t chain, mergeSegments 4 0x1000 0x3000 (splitPages 7) = some t ∧ t.Mapped chain ∧
      ∀ x, t.mappingAt chain x = (splitPages 7).mappingAt [1, 2] x :=
  mergeSegments_keeps_mappings (splitPages_mapped 7) (by decide) _ _

end AddressSpace

end PrettyOS.Mm
