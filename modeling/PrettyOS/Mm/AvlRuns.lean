import PrettyOS.Mm.AvlCheck

/-!
Contract: sequences of calls on the tree of areas, and the stacks of their descents.
-/

namespace PrettyOS.Mm

open Library.AvlTree Relation Option

structure VmaTree where
  links : Avl
  vmEnd : Nat → Nat
  members : Finset Nat

namespace VmaTree

inductive Step : VmaTree → VmaTree → Prop
  | insert {s : VmaTree} {newNode fuel : Nat} {links : Avl} (notNull : newNode ≠ 0)
      (different : ∀ area ∈ s.members, s.vmEnd area ≠ s.vmEnd newNode)
      (enough : s.members.card < fuel)
      (call : avlInsert fuel s.vmEnd newNode s.links = some links) :
      Step s ⟨links, s.vmEnd, insert newNode s.members⟩
  | insertNeighbours {s : VmaTree} {newNode fuel : Nat} {neighbours : Nat × Nat} {links : Avl}
      (notNull : newNode ≠ 0) (different : ∀ area ∈ s.members, s.vmEnd area ≠ s.vmEnd newNode)
      (enough : s.members.card < fuel)
      (call : avlInsertNeighbours fuel s.vmEnd newNode s.links = some (neighbours, links)) :
      Step s ⟨links, s.vmEnd, insert newNode s.members⟩
  | remove {s : VmaTree} {area fuel : Nat} {links : Avl} (member : area ∈ s.members)
      (enough : s.members.card < fuel)
      (call : avlRemove fuel s.vmEnd area s.links = some links) :
      Step s ⟨links, s.vmEnd, s.members.erase area⟩
  | elsewhere {s : VmaTree} {links : Avl} {vmEnd : Nat → Nat} (root : links.root = s.links.root)
      (same : ∀ area ∈ s.members, s.links.SameAt links area ∧ vmEnd area = s.vmEnd area) :
      Step s ⟨links, vmEnd, s.members⟩

structure Shape (s : VmaTree) (tree : HeightTree Nat) : Prop where
  holds : s.links.Holds tree
  balanced : tree.Balanced
  ordered : Avl.Ordered s.vmEnd tree
  areas : ∀ area, area ∈ tree.inorder ↔ area ∈ s.members

namespace Shape

variable {s : VmaTree} {tree : HeightTree Nat} {newNode area fuel : Nat}

section

variable (shape : s.Shape tree)
include shape

lemma length_lt (enough : s.members.card < fuel) : tree.inorder.length < fuel := by
  have members : tree.inorder.toFinset = s.members := by
    ext area
    rw [List.mem_toFinset, shape.areas]
  rwa [← List.toFinset_card_of_nodup shape.ordered.nodup, members]

lemma insert (ne0 : newNode ≠ 0)
    (ne : ∀ area ∈ s.members, s.vmEnd area ≠ s.vmEnd newNode) (enough : s.members.card < fuel) :
    ∃ left right links bigger,
      avlInsertNeighbours fuel s.vmEnd newNode s.links = some ((left, right), links) ∧
      avlInsert fuel s.vmEnd newNode s.links = some links ∧
      Shape ⟨links, s.vmEnd, Insert.insert newNode s.members⟩ bigger ∧
      Avl.Adjacent bigger.inorder newNode left right := by
  have fresh : newNode ∉ tree.inorder := by
    intro mem
    exact ne newNode ((shape.areas newNode).mp mem) rfl
  obtain ⟨links, call, holds⟩ := @Avl.avlInsertNeighbours_spec s.links s.vmEnd fuel tree newNode
    shape.holds shape.ordered.nodup ne0 fresh (shape.length_lt enough)
  have insertCall : avlInsert fuel s.vmEnd newNode s.links = some links := by
    rw [avlInsert, call]
    rfl
  have ord := Avl.ordered_insertTree shape.ordered fun area mem =>
    ne area ((shape.areas area).mp mem)
  have areas : ∀ area, area ∈ (Avl.insertTree s.vmEnd newNode tree).inorder ↔
      area ∈ Insert.insert newNode s.members := by
    intro area
    rw [Avl.mem_insertTree, shape.areas, Finset.mem_insert]
  exact ⟨_, _, links, Avl.insertTree s.vmEnd newNode tree, call, insertCall,
    ⟨holds, Avl.balanced_insertTree newNode shape.balanced, ord, areas⟩,
    ⟨_, _, Avl.inorder_insertTree newNode, rfl, rfl⟩⟩

lemma remove (mem : area ∈ s.members) (enough : s.members.card < fuel) :
    ∃ links less, avlRemove fuel s.vmEnd area s.links = some links ∧
      Shape ⟨links, s.vmEnd, s.members.erase area⟩ less := by
  obtain ⟨links, less, call, holds, erased, bal⟩ := Avl.avlRemove_spec shape.holds
    shape.ordered ((shape.areas area).mpr mem) (shape.length_lt enough)
  refine ⟨links, less, call, holds, bal shape.balanced, ?_, ?_⟩
  · rw [Avl.Ordered, erased]
    exact shape.ordered.sublist List.erase_sublist
  · intro other
    rw [erased, shape.ordered.nodup.mem_erase_iff, shape.areas, Finset.mem_erase]

lemma elsewhere {links : Avl} {vmEnd : Nat → Nat} (root : links.root = s.links.root)
    (same : ∀ area ∈ s.members, s.links.SameAt links area ∧ vmEnd area = s.vmEnd area) :
    Shape ⟨links, vmEnd, s.members⟩ tree := by
  have inTree : ∀ area ∈ tree.inorder, area ∈ s.members := fun area => (shape.areas area).mp
  refine ⟨⟨shape.holds.1.congr ?_, root.trans shape.holds.2⟩, shape.balanced, ?_, shape.areas⟩
  · intro area mem
    exact (same area (inTree area mem)).1
  apply shape.ordered.imp_of_mem
  intro lower upper inLower inUpper less
  dsimp only
  rw [(same lower (inTree lower inLower)).2, (same upper (inTree upper inUpper)).2]
  exact less

end

end Shape

lemma Step.shape {s t : VmaTree} {tree : HeightTree Nat} (step : Step s t)
    (shape : s.Shape tree) : ∃ tree, t.Shape tree := by
  cases step with
  | insert ne0 ne enough call =>
    obtain ⟨left, right, links, bigger, -, res, after, -⟩ := shape.insert ne0 ne enough
    rw [call, some_inj] at res
    exact ⟨bigger, res ▸ after⟩
  | insertNeighbours ne0 ne enough call =>
    obtain ⟨left, right, links, bigger, res, -, after, -⟩ := shape.insert ne0 ne enough
    rw [call, some_inj, Prod.mk.injEq] at res
    exact ⟨bigger, res.2 ▸ after⟩
  | remove mem enough call =>
    obtain ⟨links, less, res, after⟩ := shape.remove mem enough
    rw [call, some_inj] at res
    exact ⟨less, res ▸ after⟩
  | elsewhere root same => exact ⟨tree, shape.elsewhere root same⟩

structure Serves (s : VmaTree) (tree : HeightTree Nat) (fuel : Nat) : Prop where
  insert : ∀ newNode, newNode ≠ 0 → (∀ area ∈ s.members, s.vmEnd area ≠ s.vmEnd newNode) →
    ∃ left right links bigger,
      avlInsertNeighbours fuel s.vmEnd newNode s.links = some ((left, right), links) ∧
      avlInsert fuel s.vmEnd newNode s.links = some links ∧
      Shape ⟨links, s.vmEnd, Insert.insert newNode s.members⟩ bigger ∧
      Avl.Adjacent bigger.inorder newNode left right
  remove : ∀ area ∈ s.members, ∃ links smaller, avlRemove fuel s.vmEnd area s.links = some links ∧
      Shape ⟨links, s.vmEnd, s.members.erase area⟩ smaller
  neighbours : ∀ area ∈ s.members, ∃ left right,
    avlNeighbours fuel s.vmEnd area s.links = some (left, right) ∧
      Avl.Adjacent tree.inorder area left right
  silent : avlCheck fuel s.vmEnd s.links = some []

lemma Shape.serves {s : VmaTree} {tree : HeightTree Nat} {fuel : Nat} (shape : s.Shape tree)
    (enough : s.members.card < fuel) : s.Serves tree fuel where
  insert _ notNull ne := shape.insert notNull ne enough
  remove _ mem := shape.remove mem enough
  neighbours area mem := Avl.avlNeighbours_spec shape.holds shape.ordered
    ((shape.areas area).mpr mem) (shape.length_lt enough)
  silent := (Avl.avlCheck_silent_iff shape.holds (shape.length_lt enough)).mpr
    ⟨shape.balanced, shape.ordered⟩

/-- After any sequence of calls from the empty tree the links hold one tree, ordered and
balanced, whose areas are those inserted and not removed. -/
theorem run_shape {start s : VmaTree} (empty : start.links.root = 0)
    (noMembers : start.members = ∅) (run : ReflTransGen Step start s) :
    ∃ tree, s.Shape tree ∧ (∀ other, s.links.Holds other → other = tree) ∧
      ∀ fuel, s.members.card < fuel → s.Serves tree fuel := by
  have reached : ∃ tree, s.Shape tree := by
    induction run with
    | refl =>
      refine ⟨.leaf, ⟨trivial, empty⟩, trivial, List.Pairwise.nil, ?_⟩
      simp [HeightTree.inorder, noMembers]
    | tail _ step ih =>
      obtain ⟨tree, shape⟩ := ih
      exact step.shape shape
  obtain ⟨tree, shape⟩ := reached
  exact ⟨tree, shape, fun _ holds => holds.unique shape.holds, fun _ => shape.serves⟩

def blank : VmaTree where
  links := ⟨fun _ _ => 0, fun _ => 0, 0⟩
  vmEnd area := area * 4096
  members := ∅

def inserted (s : VmaTree) (newNode : Nat) : VmaTree :=
  ⟨(avlInsert 4 s.vmEnd newNode s.links).getD s.links, s.vmEnd, insert newNode s.members⟩

def removed (s : VmaTree) (area : Nat) : VmaTree :=
  ⟨(avlRemove 4 s.vmEnd area s.links).getD s.links, s.vmEnd, s.members.erase area⟩

lemma step_inserted {s : VmaTree} {newNode : Nat} (ne0 : newNode ≠ 0)
    (ne : ∀ area ∈ s.members, s.vmEnd area ≠ s.vmEnd newNode) (enough : s.members.card < 4)
    (ran : (avlInsert 4 s.vmEnd newNode s.links).isSome) : Step s (s.inserted newNode) := by
  apply Step.insert ne0 ne enough
  exact (some_get ran).symm.trans (by rw [get_eq_getD])

lemma step_removed {s : VmaTree} {area : Nat} (mem : area ∈ s.members) (enough : s.members.card < 4)
    (ran : (avlRemove 4 s.vmEnd area s.links).isSome) : Step s (s.removed area) := by
  apply Step.remove mem enough
  exact (some_get ran).symm.trans (by rw [get_eq_getD])

/-- Three ascending insertions, the last of which rotates, and the removal of the middle
area. -/
theorem run_shape_threeAreas :
    let s := (((blank.inserted 1).inserted 2).inserted 3).removed 2
    s.members = {1, 3} ∧ ∃ tree, s.Shape tree ∧ s.Serves tree 4 := by
  have first : Step blank (blank.inserted 1) :=
    step_inserted (by decide) (by decide) (by decide) (by decide +kernel)
  have second : Step _ ((blank.inserted 1).inserted 2) :=
    step_inserted (by decide) (by decide) (by decide) (by decide +kernel)
  have third : Step _ (((blank.inserted 1).inserted 2).inserted 3) :=
    step_inserted (by decide) (by decide) (by decide) (by decide +kernel)
  have fourth : Step _ ((((blank.inserted 1).inserted 2).inserted 3).removed 2) :=
    step_removed (by decide) (by decide) (by decide +kernel)
  obtain ⟨tree, shape, -, serves⟩ := run_shape rfl rfl
    ((((ReflTransGen.single first).tail second).tail third).tail fourth)
  exact ⟨by decide, tree, shape, serves 4 (by decide)⟩

end VmaTree

def avlMaxheight : Nat := 41

namespace Avl

open List

/-- The places that the search of `avl_remove` pushes, whether it finds the key or not. -/
def searchPushes (vmEnd : Nat → Nat) (key : Nat) (a : Avl) : (fuel : Nat) → Place → Nat
  | 0, _ => 0
  | fuel + 1, nodeplace =>
      let node := a.load nodeplace
      if node = 0 then 0
      else if key = vmEnd node then 1
      else if key < vmEnd node then 1 + searchPushes vmEnd key a fuel (.child .left node)
      else 1 + searchPushes vmEnd key a fuel (.child .right node)

variable {vmEnd : Nat → Nat} {a : Avl} {tree : HeightTree Nat} {frames : List (Frame Nat)}
  {fuel : Nat}

lemma searchPushes_le (key : Nat) (bal : tree.Balanced) (holds : a.Holds (plug frames tree)) :
    searchPushes vmEnd key a fuel (hole frames) ≤ tree.stored := by
  induction tree generalizing frames fuel with
  | leaf =>
    have empty : a.load (hole frames) = 0 := holds.load_hole
    cases fuel with
    | zero => exact Nat.le_refl 0
    | succ fuel => exact Nat.le_of_eq (if_pos empty)
  | node height left area right ihLeft ihRight =>
    obtain ⟨isHeight, -, -, balLeft, balRight⟩ := bal
    have loaded : a.load (hole frames) = area := holds.load_hole
    cases fuel with
    | zero => exact Nat.zero_le _
    | succ fuel =>
      have inLeft := @ihLeft (⟨.left, height, area, right⟩ :: frames) fuel balLeft holds
      have inRight := @ihRight (⟨.right, height, area, left⟩ :: frames) fuel balRight holds
      dsimp only [hole] at inLeft inRight
      rw [searchPushes, loaded, if_neg holds.represents.1, HeightTree.stored]
      split_ifs <;> omega

end Avl

namespace VmaTree

open List Avl

/-- No descent pushes more places than its stack has room for. -/
structure StackFits (s : VmaTree) (fuel : Nat) : Prop where
  insert : ∀ newNode, ∃ d, avlDescend s.vmEnd (s.vmEnd newNode) s.links fuel ⟨.root, [], 0, 0⟩ =
    some d ∧ d.stack.length ≤ avlMaxheight
  search : ∀ key, searchPushes s.vmEnd key s.links fuel .root ≤ avlMaxheight
  remove : ∀ area ∈ s.members, s.links.child .left area ≠ 0 → ∃ place stack last walked,
    avlSearch s.vmEnd (s.vmEnd area) s.links fuel .root [] = some (.found place stack) ∧
    avlWalkRight s.links fuel (.child .left area) stack = some (last, walked) ∧
    walked.length ≤ avlMaxheight

variable {s : VmaTree} {tree : HeightTree Nat} {fuel : Nat}

lemma Shape.stored_lt (shape : s.Shape tree) (few : s.members.card ≤ 786432) :
    tree.stored < avlMaxheight := by
  have short := shape.length_lt (Nat.lt_succ_of_le few)
  have large := HeightTree.fib_stored_le shape.balanced
  by_contra high
  have small : Nat.fib 43 ≤ Nat.fib (tree.stored + 2) := Nat.fib_mono (by
    unfold avlMaxheight at high
    omega)
  have value : Nat.fib 43 = 433494437 := by norm_num
  omega

/-- A balanced tree of 41 levels holds more areas than there are pages below the kernel. -/
theorem avl_stack_fits (shape : s.Shape tree) (few : s.members.card ≤ 786432)
    (enough : s.members.card < fuel) : s.StackFits fuel := by
  have room := shape.length_lt enough
  have low := shape.stored_lt few
  refine ⟨fun newNode => ?_, fun key => ?_, fun area isMember notEmpty => ?_⟩
  · refine ⟨_, @avlDescend_eq s.links s.vmEnd fuel tree [] (s.vmEnd newNode) shape.holds room, ?_⟩
    have depth := length_add_stored_le
      (plug_descend (fun area => s.vmEnd newNode < s.vmEnd area) tree []) shape.balanced
    rw [descentAt, length_reverse, places_length]
    exact depth.trans low.le
  · exact (@searchPushes_le _ _ _ [] _ key shape.balanced shape.holds).trans low.le
  · obtain ⟨path, height, left, right, isTree, found, -⟩ := @avlSearch_spec s.links s.vmEnd fuel
      tree [] area shape.holds shape.ordered ((shape.areas area).mpr isMember) room
    have holds := shape.holds
    rw [show tree = _ from isTree] at holds room
    rw [inorder_plug, HeightTree.inorder] at room
    simp only [length_append] at room
    have lLink := holds.represents.2.2.1
    have lTree := holds.represents.2.2.2.2.1
    rw [lLink, Ne, lTree.pointer_eq_zero] at notEmpty
    obtain ⟨spine, lastHeight, lastLeft, last, isLeft, -, walked⟩ := @avlWalkRight_spec s.links fuel
      left (⟨.left, height, area, right⟩ :: path) holds notEmpty (by omega)
    rw [places, reverse_cons] at walked
    refine ⟨_, _, _, _, found, walked, ?_⟩
    have whole : plug (spine ++ ⟨.left, height, area, right⟩ :: path)
        (.node lastHeight lastLeft last .leaf) = tree := by
      rw [plug_append, ← isLeft]
      exact isTree.symm
    have depth := length_add_stored_le whole shape.balanced
    rw [length_reverse, places_length]
    omega

def threeAreas : VmaTree where
  links := ⟨fun side area => if area = 2 then if side = .left then 1 else 3 else 0,
    fun area => if area = 2 then 2 else 1, 2⟩
  vmEnd area := area * 4096
  members := {1, 2, 3}

lemma threeAreas_shape :
    threeAreas.Shape (.node 2 (.node 1 .leaf 1 .leaf) 2 (.node 1 .leaf 3 .leaf)) where
  holds := by
    refine ⟨⟨by decide, rfl, rfl, rfl, ?_, ?_⟩, rfl⟩
    · exact ⟨by decide, rfl, rfl, rfl, trivial, trivial⟩
    · exact ⟨by decide, rfl, rfl, rfl, trivial, trivial⟩
  balanced := by
    refine ⟨rfl, by decide, by decide, ?_, ?_⟩
    · exact ⟨rfl, by decide, by decide, trivial, trivial⟩
    · exact ⟨rfl, by decide, by decide, trivial, trivial⟩
  ordered := by
    simp [Avl.Ordered, HeightTree.inorder, threeAreas]
  areas _ := by
    simp [HeightTree.inorder, threeAreas]

theorem avl_stack_fits_threeAreas : threeAreas.StackFits 4 :=
  avl_stack_fits threeAreas_shape (by decide) (by decide)

end VmaTree

end PrettyOS.Mm
