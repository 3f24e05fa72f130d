import PrettyOS.Mm.MunmapCuts

/-!
Contract: when `do_munmap` removes exactly the range it is given.
-/

namespace PrettyOS.Mm

open Library.AvlTree Library.IndexChain List Nat

namespace AddressSpace

variable {s t : AddressSpace} {fuel addr len : Nat} {chain lower cut upper : List Nat}

def Contains (s : AddressSpace) (area x : Nat) : Prop :=
  s.vmStart area ≤ x ∧ x < s.vmEnd area

def fileOffset (s : AddressSpace) (area x : Nat) : Nat :=
  addWord (s.vma area).vmOffset (x - s.vmStart area)

def Unmapped (s t : AddressSpace) (chain : List Nat) (addr size : Nat) : Prop :=
  ∃ chain', t.Consistent chain' ∧ (∀ q ∈ chain', t.vmStart q < t.vmEnd q) ∧
    (∀ x, (∃ q ∈ chain', t.Contains q x) ↔
      (∃ p ∈ chain, s.Contains p x) ∧ ¬ (addr ≤ x ∧ x < addr + size)) ∧
    ∀ p ∈ chain, ∀ q ∈ chain', ∀ x, s.Contains p x → t.Contains q x →
      (t.vma q).vmFlags = (s.vma p).vmFlags ∧ (t.vma q).vmInode = (s.vma p).vmInode ∧
        t.fileOffset q x = s.fileOffset p x

def Separable (s : AddressSpace) (chain : List Nat) (addr size : Nat) : Prop :=
  size = 0 ∨
    if addr + size < wordSize then
      (∀ p ∈ chain, ¬ (s.vmStart p < addr + size ∧ addr + size < s.vmEnd p)) ∧
        ((∃ p ∈ chain, s.vmStart p < addr ∧ addr < s.vmEnd p) →
          ∀ p ∈ chain, s.vmStart p < addr + size)
    else ∀ p ∈ chain, s.vmEnd p ≤ addr

section Remaining

variable {size area p q x : Nat} {inner : List Nat} {tree : HeightTree Nat}

structure Trimmed (s t : AddressSpace) (p q : Nat) : Prop where
  vma : t.vma q = { s.vma p with vmEnd := t.vmEnd q }
  nonempty : s.vmStart p < t.vmEnd q
  inside : t.vmEnd q ≤ s.vmEnd p

lemma Trimmed.starts (trimmed : s.Trimmed t p q) : t.vmStart q = s.vmStart p := by
  rw [vmStart, trimmed.vma]
  rfl

lemma Trimmed.of_same (ne : s.vmStart p < s.vmEnd p) (same : t.vma p = s.vma p) :
    s.Trimmed t p p := by
  have ends : t.vmEnd p = s.vmEnd p := congrArg Vma.vmEnd same
  refine ⟨?_, ends ▸ ne, ends.le⟩
  rw [same, ends]
  rfl

section

variable (asc : s.Ascending chain)
include asc

lemma Ascending.nodup : chain.Nodup := by
  apply asc.apart.imp_of_mem
  rintro p q inP - border rfl
  exact absurd (asc.nonempty p inP) border.not_gt

lemma Ascending.disjoint (inP : p ∈ chain) (inQ : q ∈ chain)
    (atP : s.Contains p x) (atQ : s.Contains q x) : p = q := by
  by_contra ne
  have apart : chain.Pairwise fun p q => s.vmEnd p ≤ s.vmStart q ∨ s.vmEnd q ≤ s.vmStart p :=
    asc.apart.imp .inl
  have symmetric : Std.Symm fun p q => s.vmEnd p ≤ s.vmStart q ∨ s.vmEnd q ≤ s.vmStart p :=
    ⟨fun _ _ => Or.symm⟩
  have border := apart.forall inP inQ ne
  unfold Contains at atP atQ
  omega

lemma Unmapped.of_trimmed {chain' : List Nat}
    (consistent : t.Consistent chain') (trimmed : ∀ q ∈ chain', ∃ p ∈ chain, s.Trimmed t p q)
    (out : ∀ q ∈ chain', ∀ x, t.Contains q x → ¬ (addr ≤ x ∧ x < addr + size))
    (kept : ∀ p ∈ chain, ∀ x, s.Contains p x → ¬ (addr ≤ x ∧ x < addr + size) →
      ∃ q ∈ chain', t.Contains q x) : s.Unmapped t chain addr size := by
  have origin : ∀ q ∈ chain', ∀ x, t.Contains q x →
      ∃ p ∈ chain, s.Trimmed t p q ∧ s.Contains p x := by
    intro q inQ x atQ
    obtain ⟨p, inP, trim⟩ := trimmed q inQ
    exact ⟨p, inP, trim, trim.starts ▸ atQ.1, atQ.2.trans_le trim.inside⟩
  refine ⟨chain', consistent, ?_, ?_, ?_⟩
  · intro q inQ
    obtain ⟨p, -, trim⟩ := trimmed q inQ
    rw [trim.starts]
    exact trim.nonempty
  · intro x
    constructor
    · rintro ⟨q, inQ, atQ⟩
      obtain ⟨p, inP, -, atP⟩ := origin q inQ x atQ
      exact ⟨⟨p, inP, atP⟩, out q inQ x atQ⟩
    · rintro ⟨⟨p, inP, atP⟩, notInside⟩
      exact kept p inP x atP notInside
  · intro p inP q inQ x atP atQ
    obtain ⟨_, inP', trim, atP'⟩ := origin q inQ x atQ
    obtain rfl := asc.disjoint inP inP' atP atP'
    unfold fileOffset
    rw [trim.starts, trim.vma]
    exact ⟨rfl, rfl, rfl⟩

end

lemma unmapped_refl (mapped : s.Mapped chain) : s.Unmapped s chain addr 0 := by
  apply Unmapped.of_trimmed mapped.ascending mapped.consistent
  · intro q mem
    exact ⟨q, mem, Trimmed.of_same (mapped.ascending.nonempty q mem) rfl⟩
  · rintro q - x - ⟨low, high⟩
    exact absurd low high.not_ge
  · intro p mem x contains _
    exact ⟨p, mem, contains⟩

lemma unmapped_whole (asc : s.Ascending (lower ++ (cut ++ upper)))
    (parts : s.Parts addr (addr + size) lower cut upper)
    (inside : ∀ p ∈ cut, addr ≤ s.vmStart p ∧ s.vmEnd p ≤ addr + size)
    (consistent : t.Consistent (lower ++ upper)) (same : t.vma = s.vma) :
    s.Unmapped t (lower ++ (cut ++ upper)) addr size := by
  have fewer : (lower ++ upper).Sublist (lower ++ (cut ++ upper)) := by simp
  have contains : ∀ p x, t.Contains p x ↔ s.Contains p x := by
    intro p x
    unfold Contains vmStart vmEnd
    rw [same]
  apply Unmapped.of_trimmed asc consistent
  · intro q mem
    exact ⟨q, fewer.mem mem, Trimmed.of_same (asc.nonempty q (fewer.mem mem))
      (congrFun same q)⟩
  · rintro q mem x atQ ⟨low, high⟩
    rw [contains] at atQ
    rcases mem_append.mp mem with inLower | inUpper
    · exact absurd (atQ.2.trans_le (parts.lower q inLower)) low.not_gt
    · exact absurd ((parts.upper q inUpper).trans atQ.1) high.not_ge
  intro p mem x atP out
  refine ⟨p, ?_, (contains p x).mpr atP⟩
  simp only [mem_append] at mem ⊢
  rcases mem with inLower | inCut | inUpper
  · exact .inl inLower
  · obtain ⟨low, high⟩ := inside p inCut
    exact absurd ⟨low.trans atP.1, atP.2.trans_le high⟩ out
  · exact .inr inUpper

lemma unmapped_tail {new : Nat} (asc : s.Ascending (lower ++ area :: inner))
    (below : ∀ p ∈ lower, s.vmEnd p ≤ addr) (low : s.vmStart area < addr)
    (late : addr < s.vmEnd area) (inside : ∀ p ∈ area :: inner, s.vmEnd p ≤ addr + size)
    (consistent : t.Consistent (lower ++ [new]))
    (piece : t.vma new = { s.vma area with vmEnd := addr })
    (same : ∀ p ∈ lower, t.vma p = s.vma p) :
    s.Unmapped t (lower ++ area :: inner) addr size := by
  have ends : t.vmEnd new = addr := congrArg Vma.vmEnd piece
  have starts : t.vmStart new = s.vmStart area := by
    rw [vmStart, piece]
    rfl
  have behind := pairwise_cons.mp (pairwise_append.mp asc.apart).2.1
  apply Unmapped.of_trimmed asc consistent
  · intro q mem
    rcases mem_append.mp mem with inLower | isNew
    · have inChain : q ∈ lower ++ area :: inner := mem_append_left _ inLower
      exact ⟨q, inChain, Trimmed.of_same (asc.nonempty q inChain) (same q inLower)⟩
    · obtain rfl := mem_singleton.mp isNew
      exact ⟨area, by simp, ends ▸ piece, ends ▸ low, ends ▸ late.le⟩
  · rintro q mem x atQ ⟨notBelow, -⟩
    apply notBelow.not_gt
    rcases mem_append.mp mem with inLower | isNew
    · have sameEnd : t.vmEnd q = s.vmEnd q := congrArg Vma.vmEnd (same q inLower)
      exact atQ.2.trans_le (sameEnd ▸ below q inLower)
    · obtain rfl := mem_singleton.mp isNew
      exact ends ▸ atQ.2
  intro p mem x atP out
  rcases mem_append.mp mem with inLower | inCut
  · refine ⟨p, mem_append_left _ inLower, ?_⟩
    unfold Contains vmStart vmEnd
    rw [same p inLower]
    exact atP
  have beforeRange : x < addr := by
    have atEnd := inside p inCut
    have atP := atP.2
    omega
  have isArea : p = area := by
    rcases mem_cons.mp inCut with isArea | inInner
    · exact isArea
    have border := behind.1 p inInner
    have atP := atP.1
    omega
  subst isArea
  exact ⟨new, by simp, starts ▸ atP.1, ends ▸ beforeRange⟩

section

variable (unmapped : s.Unmapped t chain addr size)
include unmapped

lemma Unmapped.of_holds (holds : t.avl.Holds tree) :
    Linked t.next 0 t.mmap tree.inorder ∧ (∀ q ∈ tree.inorder, t.vmStart q < t.vmEnd q) ∧
      ∀ x, (∃ q ∈ tree.inorder, t.Contains q x) ↔
        (∃ p ∈ chain, s.Contains p x) ∧ ¬ (addr ≤ x ∧ x < addr + size) := by
  obtain ⟨_, ⟨list, _, holds', -, rfl⟩, ne, covered, -⟩ := unmapped
  rw [holds.unique holds']
  exact ⟨list, ne, covered⟩

lemma Unmapped.covered {chain' : List Nat} (consistent : t.Consistent chain') (x : Nat) :
    (∃ q ∈ chain', t.Contains q x) ↔
      (∃ p ∈ chain, s.Contains p x) ∧ ¬ (addr ≤ x ∧ x < addr + size) := by
  obtain ⟨-, _, holds, -, rfl⟩ := consistent
  exact (unmapped.of_holds holds).2.2 x

lemma Unmapped.list_eq {list : List Nat}
    (holds : t.avl.Holds tree) (link : Linked t.next 0 t.mmap list)
    (fewer : list.Sublist tree.inorder) : list = tree.inorder :=
  link.unique (unmapped.of_holds holds).1 (mt fewer.mem holds.1.zero_notMem)
    holds.1.zero_notMem

end

end Remaining

lemma addWord_lt {x y : Nat} (xWord : x < wordSize) (yWord : y < wordSize)
    (beyond : wordSize ≤ x + y) : addWord x y < x := by
  unfold addWord
  rw [mod_eq_sub_mod beyond, mod_eq_of_lt (by omega)]
  omega

lemma pageAlign_lt : pageAlign len < wordSize :=
  (div_mul_le_self _ _).trans_lt (mod_lt _ (by decide))

lemma Parts.mem_cut {last p : Nat} (parts : s.Parts addr last lower cut upper)
    (mem : p ∈ lower ++ (cut ++ upper)) (late : addr < s.vmEnd p) (early : s.vmStart p < last) :
    p ∈ cut := by
  simp only [mem_append] at mem
  rcases mem with inLower | inCut | inUpper
  · exact absurd (parts.lower p inLower) late.not_ge
  · exact inCut
  · exact absurd (parts.upper p inUpper) early.not_ge

section Call

variable {p : Nat} (k : Allocator) (mapped : s.Mapped (lower ++ (cut ++ upper)))
  (parts : s.Parts addr (addWord addr (pageAlign len)) lower cut upper)
  (accepted : Accepted addr len) (positive : pageAlign len ≠ 0)
  (enough : 2 * (lower ++ (cut ++ upper)).length < fuel)
include mapped parts accepted positive enough

lemma doMunmap_ending (forward : addr < addWord addr (pageAlign len))
    (mem : p ∈ lower ++ (cut ++ upper)) (early : s.vmStart p < addWord addr (pageAlign len))
    (late : addWord addr (pageAlign len) < s.vmEnd p) :
    ∃ t, doMunmap fuel k.kmalloc addr len s = some (0, t) ∧
      ¬ s.Unmapped t (lower ++ (cut ++ upper)) addr (pageAlign len) := by
  have inCut := parts.mem_cut mem (forward.trans late) early
  obtain rfl | ⟨inner, area, split⟩ := eq_nil_or_concat' cut
  · exact absurd inCut not_mem_nil
  have areaInCut : area ∈ cut := by simp [split]
  have apart := (pairwise_append.mp (pairwise_append.mp mapped.ascending.apart).2.1).1
  rw [split, pairwise_append] at apart
  -- Only the last area of the cut can contain the end of the range.
  have high : addWord addr (pageAlign len) < s.vmEnd area := by
    rw [split, mem_append, mem_singleton] at inCut
    rcases inCut with inInner | rfl
    · have border := apart.2.2 p inInner area mem_cons_self
      have := parts.cutEarly area areaInCut
      omega
    · exact late
  by_cases low : s.vmStart area < addr
  · have noInner : inner = [] := by
      rw [eq_nil_iff_forall_not_mem]
      intro q inInner
      have border := apart.2.2 q inInner area mem_cons_self
      have := parts.cutLate q (by simp [split, inInner])
      omega
    obtain ⟨t, tree, _, _, call, holds, walk, list⟩ :=
      doMunmap_middle k mapped parts accepted positive enough (by rw [split, noInner]; rfl)
        forward low high
    refine ⟨t, call, fun unmapped => ?_⟩
    have same := unmapped.list_eq holds list (by simp [walk])
    simp [walk] at same
  · obtain ⟨t, tree, new, call, holds, inTree, inverted⟩ :=
      doMunmap_head k mapped parts accepted positive enough split forward (not_lt.mp low) high
    refine ⟨t, call, fun unmapped => ?_⟩
    exact absurd ((unmapped.of_holds holds).2.1 new inTree) inverted.not_gt

lemma doMunmap_beginning (lastEq : addWord addr (pageAlign len) = addr + pageAlign len)
    (separate : ∀ q ∈ cut, s.vmEnd q ≤ addWord addr (pageAlign len))
    (mem : p ∈ lower ++ (cut ++ upper)) (early : s.vmStart p < addr) (late : addr < s.vmEnd p) :
    ∃ t, doMunmap fuel k.kmalloc addr len s = some (0, t) ∧
      (s.Unmapped t (lower ++ (cut ++ upper)) addr (pageAlign len) ↔ upper = []) := by
  have inCut := parts.mem_cut mem late (by omega)
  cases cut with
  | nil => exact absurd inCut not_mem_nil
  | cons area inner =>
    have apart := (pairwise_append.mp (pairwise_append.mp mapped.ascending.apart).2.1).1
    rw [pairwise_cons] at apart
    have areaLate := parts.cutLate area mem_cons_self
    -- Only the first area of the cut can contain the beginning of the range.
    have low : s.vmStart area < addr := by
      rcases mem_cons.mp inCut with rfl | inInner
      · exact early
      · have border := apart.1 p inInner
        omega
    have inside : ∀ q ∈ inner, addr ≤ s.vmStart q := fun q inInner =>
      areaLate.le.trans (apart.1 q inInner)
    obtain ⟨t, tree, _, call, holds, bal, walk, list, piece, same⟩ :=
      doMunmap_tail k mapped parts accepted positive enough rfl low inside separate
    refine ⟨t, call, fun unmapped => ?_, ?_⟩
    · have same := unmapped.list_eq holds list (by simp [walk])
      simpa [walk] using same
    rintro rfl
    rw [append_nil] at mapped ⊢
    exact unmapped_tail mapped.ascending parts.lower low areaLate (lastEq ▸ separate)
      ⟨list, tree, holds, bal, walk⟩ piece same

lemma doMunmap_forward (forward : addr + pageAlign len < wordSize) :
    ∃ t, doMunmap fuel k.kmalloc addr len s = some (0, t) ∧
      (s.Unmapped t (lower ++ (cut ++ upper)) addr (pageAlign len) ↔
        s.Separable (lower ++ (cut ++ upper)) addr (pageAlign len)) := by
  have lastEq : addWord addr (pageAlign len) = addr + pageAlign len := mod_eq_of_lt forward
  unfold Separable
  rw [or_iff_right positive, if_pos forward]
  by_cases ending : ∃ p ∈ lower ++ (cut ++ upper), s.vmStart p < addr + pageAlign len ∧
      addr + pageAlign len < s.vmEnd p
  · obtain ⟨p, mem, early, late⟩ := ending
    obtain ⟨t, call, notExact⟩ := doMunmap_ending k mapped parts accepted positive enough
      (by omega) mem (lastEq ▸ early) (lastEq ▸ late)
    exact ⟨t, call, iff_of_false notExact fun separable => separable.1 p mem ⟨early, late⟩⟩
  have separate : ∀ p ∈ lower ++ (cut ++ upper), ¬ (s.vmStart p < addr + pageAlign len ∧
      addr + pageAlign len < s.vmEnd p) := fun p mem both => ending ⟨p, mem, both⟩
  have cutEnds : ∀ q ∈ cut, s.vmEnd q ≤ addWord addr (pageAlign len) := by
    intro q inCut
    have := separate q (by simp [inCut])
    have := parts.cutEarly q inCut
    omega
  by_cases beginning : ∃ p ∈ lower ++ (cut ++ upper), s.vmStart p < addr ∧ addr < s.vmEnd p
  · obtain ⟨p, mem, early, late⟩ := beginning
    obtain ⟨t, call, exact⟩ := doMunmap_beginning k mapped parts accepted positive enough lastEq
      cutEnds mem early late
    refine ⟨t, call, exact.trans ⟨?_, ?_⟩⟩
    · rintro rfl
      refine ⟨separate, fun _ q inChain => ?_⟩
      have ne := mapped.ascending.nonempty q inChain
      rw [append_nil, mem_append] at inChain
      rcases inChain with inLower | inCut
      · have := parts.lower q inLower
        omega
      · have := parts.cutEarly q inCut
        omega
    · intro separable
      rw [eq_nil_iff_forall_not_mem]
      intro q inUpper
      have := separable.2 ⟨p, mem, early, late⟩ q (by simp [inUpper])
      have := parts.upper q inUpper
      omega
  · have inside : ∀ q ∈ cut, addr ≤ s.vmStart q ∧ s.vmEnd q ≤ addWord addr (pageAlign len) := by
      intro q inCut
      refine ⟨not_lt.mp fun early => beginning ⟨q, by simp [inCut], early, ?_⟩, cutEnds q inCut⟩
      exact parts.cutLate q inCut
    obtain ⟨t, call, consistent, same⟩ := doMunmap_inside k mapped parts accepted positive enough
      inside
    refine ⟨t, call, iff_of_true ?_ ⟨separate, fun isBeginning => absurd isBeginning beginning⟩⟩
    exact unmapped_whole mapped.ascending (lastEq ▸ parts) (lastEq ▸ inside) consistent same

lemma doMunmap_beyond (addrWord : addr < wordSize) (beyond : wordSize ≤ addr + pageAlign len) :
    ∃ t, doMunmap fuel k.kmalloc addr len s = some (0, t) ∧
      (s.Unmapped t (lower ++ (cut ++ upper)) addr (pageAlign len) ↔
        s.Separable (lower ++ (cut ++ upper)) addr (pageAlign len)) := by
  have wrapped := addWord_lt addrWord pageAlign_lt beyond
  unfold Separable
  rw [or_iff_right positive, if_neg beyond.not_gt]
  cases cut with
  | nil =>
    obtain ⟨t, call, consistent, same⟩ := doMunmap_inside k mapped parts accepted positive enough
      (by simp)
    refine ⟨t, call, fun unmapped p mem => ?_, fun clear => ?_⟩
    · -- An area behind `addr` is still there, though the range covers its end.
      by_contra late
      have inWord := mapped.inWord p mem
      have ne := mapped.ascending.nonempty p mem
      have contains : t.Contains p (max addr (s.vmStart p)) := by
        unfold Contains
        rw [vmStart_congr same, vmEnd_congr same]
        omega
      exact ((unmapped.covered consistent _).mp ⟨p, mem, contains⟩).2 (by omega)
    · have noUpper : upper = [] := by
        rw [eq_nil_iff_forall_not_mem]
        intro p inUpper
        exact absurd (clear p (by simp [inUpper])) (parts.upperLate p inUpper).not_ge
      subst noUpper
      exact unmapped_whole mapped.ascending ⟨parts.lower, by simp, by simp, by simp, by simp⟩
        (by simp) consistent same
  | cons area inner =>
    have apart := (pairwise_append.mp (pairwise_append.mp mapped.ascending.apart).2.1).1
    rw [pairwise_cons] at apart
    have late := parts.cutLate area mem_cons_self
    have early := parts.cutEarly area mem_cons_self
    have noInner : inner = [] := by
      rw [eq_nil_iff_forall_not_mem]
      intro q inInner
      have := apart.1 q inInner
      have := parts.cutEarly q (mem_cons_of_mem _ inInner)
      omega
    subst noInner
    have inChain : area ∈ lower ++ ([area] ++ upper) := by simp
    obtain ⟨t, call, consistent, same⟩ := doMunmap_wrapped k mapped parts accepted positive enough
      rfl wrapped
    refine ⟨t, call, iff_of_false (fun unmapped => ?_) fun clear => ?_⟩
    · -- The start of the area lies before the range and is lost.
      have contains : s.Contains area (s.vmStart area) :=
        ⟨le_rfl, mapped.ascending.nonempty area inChain⟩
      obtain ⟨q, mem, atQ⟩ := (unmapped.covered consistent (s.vmStart area)).mpr
        ⟨⟨area, inChain, contains⟩, by omega⟩
      unfold Contains at atQ
      rw [vmStart_congr same, vmEnd_congr same] at atQ
      have isArea := mapped.ascending.disjoint (List.Sublist.mem mem (by simp)) inChain atQ
        contains
      rw [isArea] at mem
      have nodup := mapped.ascending.nodup
      rw [singleton_append, nodup_middle, nodup_cons] at nodup
      exact nodup.1 mem
    · exact absurd (clear area inChain) late.not_ge

end Call

/-- An accepted call always returns `0`, and it removes exactly its range if and only if the
areas can be separated by it. -/
theorem doMunmap_unmapped_iff (k : Allocator) (mapped : s.Mapped chain)
    (accepted : Accepted addr len) (enough : 2 * chain.length < fuel) :
    ∃ t, doMunmap fuel k.kmalloc addr len s = some (0, t) ∧
      (s.Unmapped t chain addr (pageAlign len) ↔ s.Separable chain addr (pageAlign len)) := by
  by_cases positive : pageAlign len = 0
  · refine ⟨s, ?_, iff_of_true ?_ (.inl positive)⟩
    · rw [doMunmap, if_neg accepted.passes, if_pos positive]
    · rw [positive]
      exact unmapped_refl mapped
  obtain ⟨_, _, _, rfl, parts⟩ := exists_parts mapped.ascending addr (addWord addr (pageAlign len))
  rcases Nat.lt_or_ge (addr + pageAlign len) wordSize with forward | beyond
  · exact doMunmap_forward k mapped parts accepted positive enough forward
  · have addrWord : addr < wordSize := accepted.2.1.trans_lt (by decide)
    exact doMunmap_beyond k mapped parts accepted positive enough addrWord beyond

def bumpAllocator : Allocator where
  kmalloc live := live.sup id + 1
  notNull _ := succ_ne_zero _
  fresh _ member := not_succ_le_self _ (Finset.le_sup (f := id) member)

def twoPages : AddressSpace where
  mmap := 1
  avl := ⟨fun _ _ => 0, fun _ => 1, 1⟩
  next _ := 0
  nextShare _ := 0
  prevShare _ := 0
  vma _ := ⟨0x1000, 0x3000, 0, 0, 0, 0, 0, 0⟩
  iMmap _ := 0
  iCount _ := 0
  operations _ := ⟨false, false, false⟩
  live := {1}
  effects := []

lemma twoPages_mapped : twoPages.Mapped [1] where
  consistent := by
    refine ⟨⟨rfl, rfl⟩, .node 1 .leaf 1 .leaf, ?_, ?_, rfl⟩
    · exact ⟨⟨by decide, rfl, rfl, rfl, trivial, trivial⟩, rfl⟩
    · exact ⟨rfl, by decide, by decide, trivial, trivial⟩
  ascending := ⟨fun _ _ => le_of_ble_eq_true rfl, pairwise_singleton _ _⟩
  inWord _ _ := le_of_ble_eq_true rfl
  live p mem := Finset.mem_singleton.mpr (mem_singleton.mp mem)

/-- The second page is unmapped and the first one remains. -/
theorem doMunmap_unmapped_secondPage :
    ∃ t, doMunmap 4 bumpAllocator.kmalloc 0x2000 0x1000 twoPages = some (0, t) ∧
      twoPages.Unmapped t [1] 0x2000 0x1000 := by
  obtain ⟨t, call, exact⟩ := @doMunmap_unmapped_iff twoPages 4 0x2000 0x1000 [1] bumpAllocator
    twoPages_mapped (by decide) (by decide)
  refine ⟨t, call, exact.mpr (.inr ⟨?_, ?_⟩)⟩
  · rintro p - ⟨-, late⟩
    exact lt_irrefl _ late
  · intro _ p _
    exact le_of_ble_eq_true rfl

/-- The first page is unmapped: the area that is inserted for the second one ends before it
begins. -/
theorem doMunmap_inverts_firstPage :
    twoPages.Mapped [1] ∧ Accepted 0x1000 0x1000 ∧
      ∃ t, doMunmap 4 bumpAllocator.kmalloc 0x1000 0x1000 twoPages = some (0, t) ∧
        Linked t.next 0 t.mmap [2] ∧ t.vmStart 2 = 0x2000 ∧ t.vmEnd 2 = 0x1000 ∧
        ¬ twoPages.Unmapped t [1] 0x1000 (pageAlign 0x1000) := by
  have result : ∀ t, doMunmap 4 bumpAllocator.kmalloc 0x1000 0x1000 twoPages = some (0, t) →
      Linked t.next 0 t.mmap [2] ∧ t.avl.Holds (.node 1 .leaf 2 .leaf) ∧ t.vmStart 2 = 0x2000 ∧
        t.vmEnd 2 = 0x1000 := by
    intro t call
    cases call
    exact ⟨⟨rfl, rfl⟩, ⟨⟨by decide, rfl, rfl, rfl, trivial, trivial⟩, rfl⟩, rfl, rfl⟩
  obtain ⟨list, holds, starts, ends⟩ := result _ rfl
  refine ⟨twoPages_mapped, by decide, _, rfl, list, starts, ends, fun unmapped => ?_⟩
  have nonempty := (unmapped.of_holds holds).2.1 2 (by decide)
  rw [starts, ends] at nonempty
  exact absurd nonempty (by decide)

end AddressSpace

end PrettyOS.Mm
