import PrettyOS.Library.IndexChain
import PrettyOS.Mm.AvlOps
import PrettyOS.Mm.Mmap

/-!
Contract: the list of areas against the tree of areas under `insert_vm_struct`.
-/

namespace PrettyOS.Mm

open Library.AvlTree Library.IndexChain List Nat Option AddressSpace

namespace AddressSpace

variable {s t : AddressSpace} {fuel vma : Nat} {tree : HeightTree Nat}

lemma vmStart_congr (same : t.vma = s.vma) : t.vmStart = s.vmStart :=
  funext fun area => congrArg Vma.vmStart (congrFun same area)

lemma vmEnd_congr (same : t.vma = s.vma) : t.vmEnd = s.vmEnd :=
  funext fun area => congrArg Vma.vmEnd (congrFun same area)

structure SameAreas (s t : AddressSpace) : Prop where
  mmap : t.mmap = s.mmap
  avl : t.avl = s.avl
  next : t.next = s.next
  vma : t.vma = s.vma
  live : t.live = s.live

lemma SameAreas.refl : s.SameAreas s := ⟨rfl, rfl, rfl, rfl, rfl⟩

lemma SameAreas.trans {u : AddressSpace} (first : s.SameAreas t) (second : t.SameAreas u) :
    s.SameAreas u :=
  ⟨second.mmap.trans first.mmap, second.avl.trans first.avl, second.next.trans first.next,
    second.vma.trans first.vma, second.live.trans first.live⟩

lemma record_sameAreas (effect : Effect) : s.SameAreas (s.record effect) :=
  ⟨rfl, rfl, rfl, rfl, rfl⟩

lemma recordIf_sameAreas (cond : Prop) [Decidable cond] (effect : Effect) :
    s.SameAreas (if cond then s.record effect else s) := by
  split_ifs
  · exact record_sameAreas effect
  · exact SameAreas.refl

lemma splice_next (prev new : Nat) :
    (splice prev new s).next = if prev ≠ 0 then Function.update s.next prev new else s.next := by
  unfold splice
  split_ifs <;> rfl

lemma splice_mmap (prev new : Nat) :
    (splice prev new s).mmap = if prev ≠ 0 then s.mmap else new := by
  unfold splice
  split_ifs <;> rfl

@[simp] theorem splice_avl (prev new : Nat) : (splice prev new s).avl = s.avl := by
  unfold splice
  split_ifs <;> rfl

@[simp] theorem splice_vma (prev new : Nat) : (splice prev new s).vma = s.vma := by
  unfold splice
  split_ifs <;> rfl

@[simp] theorem splice_live (prev new : Nat) : (splice prev new s).live = s.live := by
  unfold splice
  split_ifs <;> rfl

lemma SameAreas.splice (same : s.SameAreas t) (prev new : Nat) :
    (splice prev new s).SameAreas (splice prev new t) := by
  constructor
  · rw [splice_mmap, splice_mmap, same.mmap]
  · rw [splice_avl, splice_avl, same.avl]
  · rw [splice_next, splice_next, same.next]
  · rw [splice_vma, splice_vma, same.vma]
  · rw [splice_live, splice_live, same.live]

lemma insertShare_sameAreas : s.SameAreas (insertShare vma s) := by
  unfold insertShare
  dsimp only
  split_ifs <;> exact ⟨rfl, rfl, rfl, rfl, rfl⟩

lemma removeSharedVmStruct_sameAreas : s.SameAreas (removeSharedVmStruct vma s) := by
  unfold removeSharedVmStruct
  dsimp only
  split_ifs <;> exact ⟨rfl, rfl, rfl, rfl, rfl⟩

lemma splice_next_of_notMem {front : List Nat} {new area : Nat} (out : area ∉ front)
    (notNull : 0 ∉ front) : (splice (front.getLastD 0) new s).next area = s.next area := by
  rcases eq_nil_or_concat' front with rfl | ⟨_, last, rfl⟩
  · rfl
  have lastNotNull : last ≠ 0 := by
    rintro rfl
    exact notNull (by simp)
  rw [getLastD_concat, splice_next, if_pos lastNotNull]
  apply Function.update_of_ne
  rintro rfl
  exact out (by simp)

lemma splice_linked {front : List Nat} {middle new : Nat}
    (link : Linked s.next middle s.mmap front) (nodup : front.Nodup) (notNull : 0 ∉ front) :
    Linked (splice (front.getLastD 0) new s).next new (splice (front.getLastD 0) new s).mmap
      front := by
  rcases eq_nil_or_concat' front with rfl | ⟨rest, last, rfl⟩
  · rfl
  have lastNotNull : last ≠ 0 := by
    rintro rfl
    exact notNull (by simp)
  have absent : last ∉ rest := by
    intro mem
    exact (nodup_append.mp nodup).2.2 last mem last (by simp) rfl
  rw [getLastD_concat, splice, if_pos lastNotNull]
  exact link.redirect absent

lemma spliced_eq {front : List Nat} {middle : Nat} (link : Linked s.next middle s.mmap front)
    (notNull : 0 ∉ front) : spliced (front.getLastD 0) s = middle := by
  rcases eq_nil_or_concat' front with rfl | ⟨_, last, rfl⟩
  · exact link
  have lastNotNull : last ≠ 0 := by
    rintro rfl
    exact notNull (by simp)
  rw [getLastD_concat, spliced, if_pos lastNotNull]
  obtain ⟨_, -, -, stop⟩ := linked_append.mp link
  exact stop

def lowerAreas (s : AddressSpace) (vma : Nat) (tree : HeightTree Nat) : List Nat :=
  before (Avl.insertPath s.vmEnd (s.vmEnd vma) tree)

def upperAreas (s : AddressSpace) (vma : Nat) (tree : HeightTree Nat) : List Nat :=
  behind (Avl.insertPath s.vmEnd (s.vmEnd vma) tree)

structure Inserted (s t : AddressSpace) (new : Nat) (tree : HeightTree Nat) : Prop where
  holds : t.avl.Holds (Avl.insertTree s.vmEnd new tree)
  vma : t.vma = s.vma
  live : t.live = s.live
  next : t.next = (splice ((s.lowerAreas new tree).getLastD 0) new s).next
  mmap : t.mmap = (splice ((s.lowerAreas new tree).getLastD 0) new s).mmap

lemma linkArea_sameAreas (prev next new : Nat) :
    (splice prev new s).SameAreas (linkArea prev next new s) := by
  have reported := @recordIf_sameAreas s (spliced prev s ≠ next) _ .treeInconsistent
  exact (reported.splice prev new).trans insertShare_sameAreas

lemma insertVmStruct_spec {new : Nat} (holds : s.avl.Holds tree) (nodup : tree.inorder.Nodup)
    (notNull : new ≠ 0) (fresh : new ∉ tree.inorder) (enough : tree.inorder.length < fuel) :
    ∃ t, insertVmStruct fuel new s = some t ∧ s.Inserted t new tree := by
  obtain ⟨avl, call, after⟩ := @Avl.avlInsertNeighbours_spec s.avl s.vmEnd fuel tree new holds nodup
    notNull fresh enough
  refine ⟨linkArea ((s.lowerAreas new tree).getLastD 0) ((s.upperAreas new tree).headD 0) new
    { s with avl := avl }, ?_, ?_⟩
  · rw [insertVmStruct, call]
    rfl
  have same := @linkArea_sameAreas { s with avl := avl } ((s.lowerAreas new tree).getLastD 0)
    ((s.upperAreas new tree).headD 0) new
  constructor
  · rw [same.avl, splice_avl]
    exact after
  · rw [same.vma, splice_vma]
  · rw [same.live, splice_live]
  · rw [same.next, splice_next, splice_next]
  · rw [same.mmap, splice_mmap, splice_mmap]

lemma inorder_eq_lower_upper (new : Nat) :
    tree.inorder = s.lowerAreas new tree ++ s.upperAreas new tree :=
  Avl.inorder_insertPath (s.vmEnd new)

section Lists

variable {new : Nat} (inserted : s.Inserted t new tree) (nodup : tree.inorder.Nodup)
  (notNull : 0 ∉ tree.inorder)
include inserted notNull

lemma Inserted.next_eq {area : Nat} (out : area ∉ tree.inorder) : t.next area = s.next area := by
  rw [inserted.next]
  rw [@inorder_eq_lower_upper s tree new, mem_append, not_or] at out notNull
  exact splice_next_of_notMem out.1 notNull.1

include nodup

lemma Inserted.linked {middle : Nat}
    (linked : Linked s.next middle s.mmap (s.lowerAreas new tree)) :
    Linked t.next new t.mmap (s.lowerAreas new tree) ∧
      ∀ area, area ∉ s.lowerAreas new tree → t.next area = s.next area := by
  rw [inserted.next, inserted.mmap]
  rw [@inorder_eq_lower_upper s tree new] at nodup notNull
  rw [mem_append, not_or] at notNull
  exact ⟨splice_linked linked (nodup_append.mp nodup).1 notNull.1,
    fun _ out => splice_next_of_notMem out notNull.1⟩

lemma Inserted.list_iff (fresh : new ∉ tree.inorder) (list : Linked s.next 0 s.mmap tree.inorder) :
    Linked t.next 0 t.mmap (Avl.insertTree s.vmEnd new tree).inorder ↔
      s.next new = (s.upperAreas new tree).headD 0 := by
  have split := @inorder_eq_lower_upper s tree new
  rw [split] at list
  obtain ⟨_, lower, upper⟩ := linked_append.mp list
  obtain ⟨lower', others⟩ := inserted.linked nodup notNull lower
  have apart : ∀ area ∈ s.upperAreas new tree, area ∉ s.lowerAreas new tree := by
    rw [split, nodup_append] at nodup
    intro area inUpper inLower
    exact nodup.2.2 area inLower area inUpper rfl
  have newLink : t.next new = s.next new := by
    apply others
    intro inLower
    rw [split] at fresh
    exact fresh (mem_append_left _ inLower)
  have walk : (Avl.insertTree s.vmEnd new tree).inorder =
      s.lowerAreas new tree ++ new :: s.upperAreas new tree := Avl.inorder_insertTree new
  rw [walk, linked_append, ← newLink]
  constructor
  · rintro ⟨_, -, -, onward⟩
    exact (linked_headD onward).symm
  intro leads
  refine ⟨new, lower', rfl, ?_⟩
  rw [leads, linked_headD upper]
  apply upper.congr
  intro area inUpper
  exact others area (apart area inUpper)

end Lists

structure Insertable (s : AddressSpace) (areas : List Nat) : Prop where
  nodup : areas.Nodup
  notNull : 0 ∉ areas
  nonempty : ∀ area ∈ areas, s.vmStart area < s.vmEnd area
  disjoint : ∀ p ∈ areas, ∀ q ∈ areas, p ≠ q → s.vmEnd p ≤ s.vmStart q ∨ s.vmEnd q ≤ s.vmStart p

def insertAll (fuel : Nat) : List Nat → AddressSpace → Option AddressSpace
  | [], s => some s
  | vma :: rest, s => (insertVmStruct fuel vma s).bind (insertAll fuel rest)

def Lists (s : AddressSpace) (areas : List Nat) : Prop :=
  ∃ chain, Linked s.next 0 s.mmap chain ∧ chain.Perm areas ∧
    chain.Pairwise (fun p q => s.vmEnd p ≤ s.vmStart q) ∧
    ∃ tree, s.avl.Holds tree ∧ tree.inorder = chain

def NextAbove (s : AddressSpace) (areas : List Nat) (new above : Nat) : Prop :=
  (above = 0 ∧ ∀ p ∈ areas, s.vmEnd p ≤ s.vmStart new) ∨
    (above ∈ areas ∧ s.vmEnd new ≤ s.vmStart above ∧
      ∀ p ∈ areas, s.vmEnd new ≤ s.vmStart p → s.vmStart above ≤ s.vmStart p)

lemma insertAll_append (front back : List Nat) :
    insertAll fuel (front ++ back) s = (insertAll fuel front s).bind (insertAll fuel back) := by
  induction front generalizing s with
  | nil => rfl
  | cons vma rest ih =>
    rw [cons_append, insertAll, insertAll, bind_assoc]
    congr
    funext t
    exact ih

lemma insertAll_concat (front : List Nat) (last : Nat) :
    insertAll fuel (front ++ [last]) s =
      (insertAll fuel front s).bind (insertVmStruct fuel last) := by
  rw [insertAll_append]
  congr
  funext t
  simp [insertAll]

structure TreeOf (start s : AddressSpace) (done : List Nat) (tree : HeightTree Nat) : Prop where
  holds : s.avl.Holds tree
  ordered : Avl.Ordered s.vmEnd tree
  areas : tree.inorder.Perm done
  vma : s.vma = start.vma
  next : ∀ area, area ∉ done → s.next area = start.next area

section Run

variable {start : AddressSpace} {done later areas : List Nat} {new : Nat}

lemma Insertable.lt_of_lt (ready : start.Insertable areas) {p q : Nat} (inP : p ∈ areas)
    (inQ : q ∈ areas) (less : start.vmEnd p < start.vmEnd q) : start.vmEnd p ≤ start.vmStart q := by
  have ne : p ≠ q := by
    rintro rfl
    exact lt_irrefl _ less
  rcases ready.disjoint p inP q inQ ne with below | above
  · exact below
  · have nonempty := ready.nonempty p inP
    omega

lemma Insertable.mem_of_split (split : areas = done ++ new :: later) {area : Nat}
    (mem : area ∈ done ++ [new]) : area ∈ areas := by
  rw [split]
  simp only [mem_append, mem_cons, not_mem_nil] at mem ⊢
  tauto

lemma Insertable.notMem_of_split (ready : start.Insertable areas)
    (split : areas = done ++ new :: later) : new ∉ done := by
  have nodup := ready.nodup
  rw [split, nodup_middle, nodup_cons] at nodup
  exact fun inDone => nodup.1 (mem_append_left _ inDone)

lemma TreeOf.insert (before : TreeOf start s done tree) (ready : start.Insertable areas)
    (split : areas = done ++ new :: later) (enough : areas.length < fuel) :
    ∃ t, insertVmStruct fuel new s = some t ∧ s.Inserted t new tree ∧
      TreeOf start t (done ++ [new]) (Avl.insertTree s.vmEnd new tree) := by
  have mem : ∀ area ∈ done ++ [new], area ∈ areas := fun _ => Insertable.mem_of_split split
  have fresh := mt before.areas.mem_iff.mp (ready.notMem_of_split split)
  have notNull : new ≠ 0 := by
    rintro rfl
    exact ready.notNull (mem 0 (by simp))
  have shorter : tree.inorder.length < fuel := by
    rw [before.areas.length_eq]
    rw [split, length_append] at enough
    omega
  obtain ⟨t, call, inserted⟩ := insertVmStruct_spec before.holds before.ordered.nodup notNull fresh
    shorter
  refine ⟨t, call, inserted, inserted.holds, ?_, ?_, inserted.vma.trans before.vma, ?_⟩
  · have keys := vmEnd_congr inserted.vma
    rw [keys]
    apply Avl.ordered_insertTree before.ordered
    -- Two areas with one end would overlap.
    intro area inTree same
    have inDone := before.areas.mem_iff.mp inTree
    have ne : area ≠ new := by
      rintro rfl
      exact fresh inTree
    simp only [vmEnd, before.vma] at same
    have apart := ready.disjoint area (mem area (mem_append_left _ inDone)) new
      (mem new (by simp)) ne
    have nonempty := ready.nonempty area (mem area (mem_append_left _ inDone))
    have newNonempty := ready.nonempty new (mem new (by simp))
    simp only [vmEnd, vmStart] at apart nonempty newNonempty
    omega
  · exact ((Avl.perm_insertTree new).trans (before.areas.cons new)).trans
      (perm_append_singleton new done).symm
  · intro area out
    rw [mem_append, not_or] at out
    rw [inserted.next_eq (before.holds.1.zero_notMem) (mt before.areas.mem_iff.mp out.1),
      before.next area out.1]

lemma insertAll_tree (ready : start.Insertable areas) (empty : start.avl.root = 0)
    (enough : areas.length < fuel) (split : areas = done ++ later) :
    ∃ s tree, insertAll fuel done start = some s ∧ TreeOf start s done tree := by
  induction done using reverseRecOn generalizing later with
  | nil =>
    exact ⟨start, .leaf, rfl, ⟨trivial, empty⟩, List.Pairwise.nil, List.Perm.nil, rfl,
      fun _ _ => rfl⟩
  | append_singleton done new ih =>
    rw [append_assoc, singleton_append] at split
    obtain ⟨s, tree, call, before⟩ := ih split
    obtain ⟨t, step, -, after⟩ := before.insert ready split enough
    exact ⟨t, _, by rw [insertAll_concat, call]; exact step, after⟩

lemma TreeOf.lists_iff (reached : TreeOf start s done tree) (ready : start.Insertable areas)
    (split : areas = done ++ later) : s.Lists done ↔ Linked s.next 0 s.mmap tree.inorder := by
  constructor
  · rintro ⟨_, link, -, -, _, holds, rfl⟩
    rw [holds.unique reached.holds] at link
    exact link
  intro link
  refine ⟨tree.inorder, link, reached.areas, ?_, tree, reached.holds, rfl⟩
  apply List.Pairwise.imp_of_mem _ reached.ordered
  intro p q inP inQ less
  have mem : ∀ area ∈ tree.inorder, area ∈ areas := by
    intro area inTree
    rw [split]
    exact mem_append_left _ (reached.areas.mem_iff.mp inTree)
  simp only [vmEnd, vmStart, reached.vma] at less ⊢
  exact ready.lt_of_lt (mem p inP) (mem q inQ) less

section

variable (reached : TreeOf start s done tree) (ready : start.Insertable areas)
  (split : areas = done ++ new :: later)
include reached ready split

lemma TreeOf.sides :
    (∀ p ∈ s.lowerAreas new tree, start.vmEnd p ≤ start.vmStart new) ∧
      (∀ p ∈ s.upperAreas new tree, start.vmEnd new ≤ start.vmStart p) ∧
      ∀ p, p ∈ done ↔ p ∈ s.lowerAreas new tree ∨ p ∈ s.upperAreas new tree := by
  have keys := vmEnd_congr reached.vma
  have cover : ∀ p, p ∈ done ↔ p ∈ s.lowerAreas new tree ∨ p ∈ s.upperAreas new tree := by
    intro p
    rw [← reached.areas.mem_iff, @inorder_eq_lower_upper s tree new, mem_append]
  have inAreas : ∀ area ∈ done, area ∈ areas := by
    intro area inDone
    rw [split]
    exact mem_append_left _ inDone
  have newIn : new ∈ areas := by
    rw [split]
    simp
  obtain ⟨below, above⟩ := Avl.insertPath_border (s.vmEnd new) reached.ordered.sorted
  rw [keys] at below above
  refine ⟨fun p inLower => ?_, fun p inUpper => ?_, cover⟩
  · have inDone := (cover p).mpr (.inl inLower)
    have ne : p ≠ new := by
      rintro rfl
      exact ready.notMem_of_split split inDone
    rcases ready.disjoint p (inAreas p inDone) new newIn ne with apart | apart
    · exact apart
    have le := below p (by rw [← keys]; exact inLower)
    have nonempty := ready.nonempty p (inAreas p inDone)
    have newNonempty := ready.nonempty new newIn
    omega
  · have inDone := (cover p).mpr (.inr inUpper)
    exact ready.lt_of_lt newIn (inAreas p inDone) (above p (by rw [← keys]; exact inUpper))

lemma TreeOf.least_above {first p : Nat} {rest : List Nat}
    (walk : s.upperAreas new tree = first :: rest) (inDone : p ∈ done)
    (apart : start.vmEnd new ≤ start.vmStart p) :
    p = first ∨ start.vmEnd first ≤ start.vmStart p := by
  obtain ⟨lower, -, cover⟩ := reached.sides ready split
  have inAreas : ∀ area ∈ done ++ [new], area ∈ areas := fun _ => Insertable.mem_of_split split
  have firstDone := (cover first).mpr (.inr (walk ▸ mem_cons_self))
  rcases (cover p).mp inDone with inLower | inUpper
  · have below := lower p inLower
    have pNonempty := ready.nonempty p (inAreas p (mem_append_left _ inDone))
    have newNonempty := ready.nonempty new (inAreas new (by simp))
    omega
  rw [walk, mem_cons] at inUpper
  rcases inUpper with rfl | inRest
  · exact .inl rfl
  right
  have ord := reached.ordered
  rw [Avl.Ordered, @inorder_eq_lower_upper s tree new, walk, pairwise_append,
    pairwise_cons, vmEnd_congr reached.vma] at ord
  exact ready.lt_of_lt (inAreas first (mem_append_left _ firstDone))
    (inAreas p (mem_append_left _ inDone)) (ord.2.1.1 p inRest)

lemma TreeOf.nextAbove_iff {above : Nat} :
    start.NextAbove done new above ↔ above = (s.upperAreas new tree).headD 0 := by
  obtain ⟨lower, upper, cover⟩ := reached.sides ready split
  have ne : ∀ p ∈ new :: done, start.vmStart p < start.vmEnd p := by
    intro p mem
    apply ready.nonempty
    rw [split]
    simp only [mem_cons, mem_append] at mem ⊢
    tauto
  have newNonempty := ne new mem_cons_self
  cases walk : s.upperAreas new tree with
  | nil =>
    rw [headD_nil]
    constructor
    · rintro (⟨null, -⟩ | ⟨inDone, apart, -⟩)
      · exact null
      rcases (cover above).mp inDone with inLower | inUpper
      · have aboveNonempty := ne above (mem_cons_of_mem _ inDone)
        have below := lower above inLower
        omega
      · rw [walk] at inUpper
        cases inUpper
    · intro null
      refine .inl ⟨null, fun p inDone => ?_⟩
      rcases (cover p).mp inDone with inLower | inUpper
      · exact lower p inLower
      · rw [walk] at inUpper
        cases inUpper
  | cons first rest =>
    have firstUpper : first ∈ s.upperAreas new tree := by
      rw [walk]
      exact mem_cons_self
    have firstDone := (cover first).mpr (.inr firstUpper)
    have firstNonempty := ne first (mem_cons_of_mem _ firstDone)
    have firstApart := upper first firstUpper
    have least : ∀ p ∈ done, start.vmEnd new ≤ start.vmStart p →
        p = first ∨ start.vmEnd first ≤ start.vmStart p :=
      fun p inDone => reached.least_above ready split walk inDone
    rw [headD_cons]
    constructor
    · rintro (⟨-, none⟩ | ⟨inDone, apart, lowest⟩)
      · have below := none first firstDone
        omega
      rcases least above inDone apart with same | behind
      · exact same
      · have le := lowest first firstDone firstApart
        omega
    · rintro rfl
      refine .inr ⟨firstDone, firstApart, fun p inDone apart => ?_⟩
      rcases least p inDone apart with rfl | behind
      · exact le_rfl
      · omega

lemma TreeOf.step_iff {t : AddressSpace} (lists : s.Lists done) (inserted : s.Inserted t new tree)
    (after : TreeOf start t (done ++ [new]) (Avl.insertTree s.vmEnd new tree)) :
    t.Lists (done ++ [new]) ↔ start.NextAbove done new (start.next new) := by
  have split' : areas = (done ++ [new]) ++ later := by
    rw [split, append_assoc, singleton_append]
  have absent := ready.notMem_of_split split
  rw [after.lists_iff ready split', inserted.list_iff reached.ordered.nodup
    reached.holds.1.zero_notMem (mt reached.areas.mem_iff.mp absent)
    ((reached.lists_iff ready split).mp lists), reached.nextAbove_iff ready split,
    reached.next new absent]

end

/-- After every call of a sequence of insertions list and tree agree exactly when each area
arrives with `vm_next` set to the next area above it. -/
theorem insertAll_lists_iff (mmapEmpty : start.mmap = 0) (treeEmpty : start.avl.root = 0)
    (ready : start.Insertable areas) (enough : areas.length < fuel) :
    (∃ s, insertAll fuel areas start = some s) ∧ ((∀ done later, areas = done ++ later →
          ∃ s, insertAll fuel done start = some s ∧ s.Lists done) ↔
        ∀ done new later, areas = done ++ new :: later →
          start.NextAbove done new (start.next new)) := by
  constructor
  · obtain ⟨s, tree, call, -⟩ := insertAll_tree ready treeEmpty enough (append_nil areas).symm
    exact ⟨s, call⟩
  constructor
  · intro agree done new later split
    obtain ⟨s, tree, call, reached⟩ := insertAll_tree ready treeEmpty enough split
    obtain ⟨t, step, inserted, after⟩ := reached.insert ready split enough
    obtain ⟨s', call', lists⟩ := agree done (new :: later) split
    rw [call, some_inj] at call'
    subst call'
    obtain ⟨_, call', lists'⟩ := agree (done ++ [new]) later (by simp [split])
    rw [insertAll_concat, call, bind_some, step, some_inj] at call'
    subst call'
    exact (reached.step_iff ready split lists inserted after).mp lists'
  intro prepared done
  induction done using reverseRecOn with
  | nil =>
    intro later split
    exact ⟨start, rfl, [], mmapEmpty, List.Perm.nil, List.Pairwise.nil, .leaf,
      ⟨trivial, treeEmpty⟩, rfl⟩
  | append_singleton done new ih =>
    intro later split
    rw [append_assoc, singleton_append] at split
    obtain ⟨s, tree, call, reached⟩ := insertAll_tree ready treeEmpty enough split
    obtain ⟨t, step, inserted, after⟩ := reached.insert ready split enough
    obtain ⟨s', call', lists⟩ := ih (new :: later) split
    rw [call, some_inj] at call'
    subst call'
    refine ⟨t, ?_, ?_⟩
    · rw [insertAll_concat, call]
      exact step
    · exact (reached.step_iff ready split lists inserted after).mpr
        (prepared done new later split)

end Run

def ladder (next : Nat → Nat) : AddressSpace where
  mmap := 0
  avl := ⟨fun _ _ => 0, fun _ => 0, 0⟩
  next := next
  nextShare _ := 0
  prevShare _ := 0
  vma area := ⟨area * 0x2000 - 0x1000, area * 0x2000, 0, 0, 0, 0, 0, 0⟩
  iMmap _ := 0
  iCount _ := 0
  operations _ := ⟨false, false, false⟩
  live := {1, 2}
  effects := []

lemma ladder_insertable (next : Nat → Nat) : (ladder next).Insertable [2, 1] := by
  refine ⟨by decide, by decide, ?_, ?_⟩
  · intro area mem
    simp only [mem_cons, not_mem_nil, or_false] at mem
    rcases mem with rfl | rfl <;> exact le_of_ble_eq_true rfl
  intro p inP q inQ ne
  simp only [mem_cons, not_mem_nil, or_false] at inP inQ
  rcases inP with rfl | rfl <;> rcases inQ with rfl | rfl
  · exact absurd rfl ne
  · exact .inr (le_of_ble_eq_true rfl)
  · exact .inl (le_of_ble_eq_true rfl)
  · exact absurd rfl ne

/-- The lower area is inserted last and arrives with a link to the upper one. -/
theorem insertAll_lists_descending :
    ∃ s, insertAll 4 [2, 1] (ladder fun area => if area = 1 then 2 else 0) = some s ∧
      s.Lists [2, 1] := by
  apply ((insertAll_lists_iff rfl rfl (ladder_insertable _) (by decide)).2.mpr ?_) [2, 1] [] rfl
  intro done new later split
  cases done with
  | nil =>
    obtain ⟨rfl, -⟩ := cons_eq_cons.mp split
    exact .inl ⟨rfl, by simp⟩
  | cons first rest =>
    obtain ⟨rfl, remaining⟩ := cons_eq_cons.mp split
    cases rest with
    | nil =>
      obtain ⟨rfl, -⟩ := cons_eq_cons.mp remaining
      refine .inr ⟨by decide, le_of_ble_eq_true rfl, fun p member _ => ?_⟩
      rw [mem_singleton.mp member]
      exact le_rfl
    | cons second rest => simp at remaining

/-- The lower area is inserted last and arrives with `vm_next` null: the list ends behind
it, although the tree holds both areas. -/
theorem insertAll_loses_upper :
    (ladder fun _ => 0).Insertable [2, 1] ∧
      ∃ s, insertAll 4 [2, 1] (ladder fun _ => 0) = some s ∧ Linked s.next 0 s.mmap [1] ∧
        ¬ s.Lists [2, 1] := by
  have linked : ∀ s, insertAll 4 [2, 1] (ladder fun _ => 0) = some s →
      Linked s.next 0 s.mmap [1] := by
    intro s call
    cases call
    exact ⟨rfl, rfl⟩
  refine ⟨ladder_insertable _, _, rfl, linked _ rfl, ?_⟩
  rintro ⟨_, visited, areas, -⟩
  have same := visited.unique (linked _ rfl) (by rw [areas.mem_iff]; decide) (by decide)
  rw [same] at areas
  exact absurd areas.length_eq (by decide)

end AddressSpace

end PrettyOS.Mm
