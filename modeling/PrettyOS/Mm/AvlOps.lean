import PrettyOS.Mm.AvlHeap

/-!
Contract: what insertion, removal and the neighbour search do to the tree that the links
represent.
-/

namespace PrettyOS.Mm

open Library.AvlTree List HeightTree

namespace Avl

variable {a : Avl} {vmEnd : Nat → Nat} {fuel : Nat} {tree : HeightTree Nat}
  {frames : List (Frame Nat)}

def Ordered (vmEnd : Nat → Nat) (tree : HeightTree Nat) : Prop :=
  tree.inorder.Pairwise fun lower upper => vmEnd lower < vmEnd upper

lemma Ordered.nodup (ord : Ordered vmEnd tree) : tree.inorder.Nodup := by
  apply List.Pairwise.imp _ ord
  rintro lower upper less rfl
  exact lt_irrefl _ less

lemma Ordered.sorted (ord : Ordered vmEnd tree) :
    tree.inorder.Pairwise fun lower upper => vmEnd lower ≤ vmEnd upper :=
  List.Pairwise.imp (fun less => less.le) ord

def descentAt (frames : List (Frame Nat)) : Descent where
  nodeplace := hole frames
  stack := (places frames).reverse
  toTheLeft := (before frames).getLastD 0
  toTheRight := (behind frames).headD 0

lemma descentAt_left (height area : Nat) (right : HeightTree Nat) :
    descentAt (⟨.left, height, area, right⟩ :: frames) =
      ⟨.child .left area, (descentAt frames).stack ++ [hole frames], (descentAt frames).toTheLeft,
        area⟩ := by
  simp [descentAt, hole, places, before, behind, Frame.before, Frame.behind]

lemma descentAt_right (height area : Nat) (left : HeightTree Nat) :
    descentAt (⟨.right, height, area, left⟩ :: frames) =
      ⟨.child .right area, (descentAt frames).stack ++ [hole frames], area,
        (descentAt frames).toTheRight⟩ := by
  simp [descentAt, hole, places, before, behind, Frame.before, Frame.behind]

lemma Holds.load_hole (holds : a.Holds (plug frames tree)) : a.load (hole frames) = pointer tree :=
  (holds_plug.mp holds).2.load_hole

lemma Holds.represents (holds : a.Holds (plug frames tree)) : a.Represents tree :=
  (holds_plug.mp holds).1

lemma avlDescend_eq (key : Nat) (holds : a.Holds (plug frames tree))
    (enough : tree.inorder.length < fuel) :
    avlDescend vmEnd key a fuel (descentAt frames) =
      some (descentAt (descend (fun area => key < vmEnd area) tree frames)) := by
  induction tree, fuel, enough using fuelInduction generalizing frames with
  | leaf =>
    have empty : a.load (descentAt frames).nodeplace = 0 := holds.load_hole
    rw [avlDescend, empty]
    rfl
  | node fuel height left area right ihLeft ihRight =>
    have loaded : a.load (descentAt frames).nodeplace = area := holds.load_hole
    rw [avlDescend, loaded, descend, if_neg holds.represents.1]
    by_cases less : key < vmEnd area
    · rw [if_pos less, if_pos less]
      have below := @ihLeft (⟨.left, height, area, right⟩ :: frames) holds
      rw [descentAt_left] at below
      exact below
    rw [if_neg less, if_neg less]
    have below := @ihRight (⟨.right, height, area, left⟩ :: frames) holds
    rw [descentAt_right] at below
    exact below

def insertPath (vmEnd : Nat → Nat) (key : Nat) (tree : HeightTree Nat) : List (Frame Nat) :=
  descend (fun area => key < vmEnd area) tree []

def insertTree (vmEnd : Nat → Nat) (newNode : Nat) (tree : HeightTree Nat) : HeightTree Nat :=
  rebalance (insertPath vmEnd (vmEnd newNode) tree) (.node 1 .leaf newNode .leaf)

lemma inorder_insertPath (key : Nat) :
    tree.inorder = before (insertPath vmEnd key tree) ++ behind (insertPath vmEnd key tree) := by
  have opened : plug (insertPath vmEnd key tree) .leaf = tree := plug_descend _ tree []
  have plugged := inorder_plug (insertPath vmEnd key tree) .leaf
  rw [opened] at plugged
  simpa [inorder] using plugged

lemma inorder_insertTree (newNode : Nat) :
    (insertTree vmEnd newNode tree).inorder = before (insertPath vmEnd (vmEnd newNode) tree) ++
        newNode :: behind (insertPath vmEnd (vmEnd newNode) tree) := by
  simp [insertTree, inorder_rebalance, inorder]

lemma perm_insertTree (newNode : Nat) :
    (insertTree vmEnd newNode tree).inorder.Perm (newNode :: tree.inorder) := by
  rw [inorder_insertTree, @inorder_insertPath vmEnd tree (vmEnd newNode)]
  exact perm_middle

variable {newNode area : Nat} {front back : List Nat}

lemma mem_insertTree :
    area ∈ (insertTree vmEnd newNode tree).inorder ↔ area = newNode ∨ area ∈ tree.inorder := by
  rw [(perm_insertTree newNode).mem_iff, mem_cons]

lemma balanced_insertTree (newNode : Nat) (bal : tree.Balanced) :
    (insertTree vmEnd newNode tree).Balanced := by
  apply @balanced_rebalance _ _ _ .leaf
  · rw [insertPath, plug_descend]
    exact bal
  · simp [HeightTree.Balanced, stored]
  · exact le_rfl
  · exact Nat.zero_le _

lemma insertPath_border (key : Nat)
    (sorted : tree.inorder.Pairwise fun lower upper => vmEnd lower ≤ vmEnd upper) :
    (∀ area ∈ before (insertPath vmEnd key tree), vmEnd area ≤ key) ∧
      ∀ area ∈ behind (insertPath vmEnd key tree), key < vmEnd area := by
  have border := @descend_border _ [] tree (fun area => key < vmEnd area) _
    (sorted.imp fun le less => lt_of_lt_of_le less le) (by simp [before]) (by simp [behind])
  exact ⟨fun area mem => not_lt.mp (border.1 area mem), border.2⟩

lemma ordered_insertTree (ord : Ordered vmEnd tree)
    (ne : ∀ area ∈ tree.inorder, vmEnd area ≠ vmEnd newNode) :
    Ordered vmEnd (insertTree vmEnd newNode tree) := by
  obtain ⟨below, above⟩ := insertPath_border (vmEnd newNode) ord.sorted
  have split := @inorder_insertPath vmEnd tree (vmEnd newNode)
  rw [Ordered, split, pairwise_append] at ord
  rw [Ordered, inorder_insertTree, pairwise_append, pairwise_cons]
  refine ⟨ord.1, ⟨above, ord.2.1⟩, ?_⟩
  intro lower inLower upper inUpper
  rcases mem_cons.mp inUpper with rfl | inUpper
  · apply lt_of_le_of_ne (below lower inLower)
    apply ne
    rw [split]
    exact mem_append_left _ inLower
  · exact ord.2.2 lower inLower upper inUpper

lemma avlInsertNeighbours_spec (holds : a.Holds tree) (nodup : tree.inorder.Nodup)
    (ne0 : newNode ≠ 0) (fresh : newNode ∉ tree.inorder) (enough : tree.inorder.length < fuel) :
    ∃ b, avlInsertNeighbours fuel vmEnd newNode a =
        some (((before (insertPath vmEnd (vmEnd newNode) tree)).getLastD 0,
          (behind (insertPath vmEnd (vmEnd newNode) tree)).headD 0), b) ∧
      b.Holds (insertTree vmEnd newNode tree) := by
  have descended := @avlDescend_eq a vmEnd fuel tree [] (vmEnd newNode) holds enough
  change avlDescend vmEnd (vmEnd newNode) a fuel ⟨.root, [], 0, 0⟩ =
    some (descentAt (insertPath vmEnd (vmEnd newNode) tree)) at descended
  have opened : a.Holds (plug (insertPath vmEnd (vmEnd newNode) tree) .leaf) := by
    rw [insertPath, plug_descend]
    exact holds
  have grown : (plug (insertPath vmEnd (vmEnd newNode) tree)
      (.node 1 .leaf newNode .leaf)).inorder.Nodup := by
    rw [inorder_plug, inorder, inorder, nil_append, append_assoc,
      singleton_append, nodup_middle, ← inorder_insertPath]
    exact nodup_cons.mpr ⟨fresh, nodup⟩
  have same : a.SameOff
      (((a.setChild .left newNode 0).setChild .right newNode 0).setHeight newNode 1) [newNode] := by
    refine ⟨rfl, fun p out => ?_⟩
    rw [mem_singleton] at out
    exact ⟨by simp [out], fun _ => by simp [out]⟩
  have filled : ((((a.setChild .left newNode 0).setChild .right newNode 0).setHeight newNode
      1).store (hole (insertPath vmEnd (vmEnd newNode) tree)) newNode).Holds
      (plug (insertPath vmEnd (vmEnd newNode) tree) (.node 1 .leaf newNode .leaf)) := by
    have filled : newNode = pointer (.node 1 .leaf newNode .leaf) := rfl
    apply holds_store filled (holds_plug.mp opened).2 same
    · simp [inorder]
    · exact ⟨ne0, by simp, by simp [pointer], by simp [pointer], trivial, trivial⟩
    · exact grown
  refine ⟨_, ?_, avlRebalance_holds filled grown⟩
  rw [avlInsertNeighbours, descended]
  simp [descentAt]

lemma ordered_node {height : Nat} {left right : HeightTree Nat} :
    Ordered vmEnd (.node height left area right) ↔
      Ordered vmEnd left ∧ Ordered vmEnd right ∧ (∀ p ∈ left.inorder, vmEnd p < vmEnd area) ∧
        ∀ p ∈ right.inorder, vmEnd area < vmEnd p := by
  rw [Ordered, inorder, pairwise_append, pairwise_cons]
  constructor
  · rintro ⟨leftOrdered, ⟨above, rightOrdered⟩, across⟩
    exact ⟨leftOrdered, rightOrdered, fun p mem => across p mem area mem_cons_self, above⟩
  rintro ⟨leftOrdered, rightOrdered, below, above⟩
  refine ⟨leftOrdered, ⟨above, rightOrdered⟩, fun lower inLeft upper inRest => ?_⟩
  rcases mem_cons.mp inRest with rfl | inRight
  · exact below lower inLeft
  · exact (below lower inLeft).trans (above upper inRight)

/-- The searches of `avl_remove` and `avl_neighbours` go down the same path. -/
lemma avlSearch_spec {target : Nat} (holds : a.Holds (plug frames tree))
    (ord : Ordered vmEnd tree) (mem : target ∈ tree.inorder) (enough : tree.inorder.length < fuel) :
    ∃ path height left right, plug frames tree = plug path (.node height left target right) ∧
      avlSearch vmEnd (vmEnd target) a fuel (hole frames) (places frames).reverse =
        some (.found (hole path) ((places path).reverse ++ [hole path])) ∧
      avlLocate vmEnd (vmEnd target) a fuel (pointer tree) (descentAt frames).toTheLeft
          (descentAt frames).toTheRight =
        some (target, (descentAt path).toTheLeft, (descentAt path).toTheRight) := by
  induction tree, fuel, enough using fuelInduction generalizing frames with
  | leaf => cases mem
  | node fuel height left area right ihLeft ihRight =>
    obtain ⟨leftOrdered, rightOrdered, below, above⟩ := ordered_node.mp ord
    have loaded : a.load (hole frames) = area := holds.load_hole
    obtain ⟨ne0, -, lLink, rLink, -, -⟩ := holds.represents
    rw [inorder, mem_append, mem_cons] at mem
    rw [avlSearch, loaded, if_neg ne0, avlLocate, pointer]
    rcases mem with inLeft | rfl | inRight
    · have less := below target inLeft
      rw [if_neg less.ne, if_pos less, if_neg (not_or.mpr ⟨ne0, less.ne⟩), if_pos less, lLink]
      have found := @ihLeft (⟨.left, height, area, right⟩ :: frames) holds
        leftOrdered inLeft
      rw [places, reverse_cons, descentAt_left] at found
      exact found
    · rw [if_pos rfl, if_pos (Or.inr rfl)]
      exact ⟨frames, height, left, right, rfl, rfl, rfl⟩
    · have greater := above target inRight
      rw [if_neg greater.ne', if_neg greater.not_gt, if_neg (not_or.mpr ⟨ne0, greater.ne'⟩),
        if_neg greater.not_gt, rLink]
      have found := @ihRight (⟨.right, height, area, left⟩ :: frames) holds
        rightOrdered inRight
      rw [places, reverse_cons, descentAt_right] at found
      exact found

lemma avlWalkRight_spec (holds : a.Holds (plug frames tree)) (inhabited : tree ≠ .leaf)
    (enough : tree.inorder.length < fuel) :
    ∃ spine height left last, tree = plug spine (.node height left last .leaf) ∧ behind spine = [] ∧
      avlWalkRight a fuel (hole frames) (places frames).reverse =
        some (hole (spine ++ frames), (places (spine ++ frames)).reverse) := by
  induction tree, fuel, enough using fuelInduction generalizing frames with
  | leaf => exact absurd rfl inhabited
  | node fuel height left area right ihLeft ihRight =>
    have loaded : a.load (hole frames) = area := holds.load_hole
    obtain ⟨-, -, -, rLink, -, rTree⟩ := holds.represents
    rw [avlWalkRight, loaded, rLink]
    by_cases ended : right = .leaf
    · rw [if_pos (rTree.pointer_eq_zero.mpr ended)]
      subst ended
      exact ⟨[], height, left, area, rfl, rfl, rfl⟩
    rw [if_neg (mt rTree.pointer_eq_zero.mp ended)]
    obtain ⟨spine, lastHeight, lastLeft, last, split, nothing, walked⟩ :=
      @ihRight (⟨.right, height, area, left⟩ :: frames) holds ended
    refine ⟨spine ++ [⟨.right, height, area, left⟩], lastHeight, lastLeft, last, ?_, ?_, ?_⟩
    · rw [plug_append, ← split]
      rfl
    · rw [behind_append, nothing]
      rfl
    · rw [places, reverse_cons] at walked
      rw [append_assoc]
      exact walked

lemma places_length : (places frames).length = frames.length := by
  induction frames with
  | nil => rfl
  | cons frame rest ih => simp [places, ih]

lemma places_set (spine rest : List (Frame Nat)) (frame frame' : Frame Nat) :
    (places (spine ++ frame :: rest)).reverse.set (frame :: rest).length (hole (frame' :: rest)) =
      (places (spine ++ frame' :: rest)).reverse := by
  induction spine with
  | nil =>
    -- The walk pushed nothing: the slot lies above the stack.
    rw [set_eq_of_length_le]
    · rfl
    · simp [places_length]
  | cons step spine ih =>
    simp only [cons_append, places, reverse_cons]
    cases spine with
    | nil => simp [places, places_length]
    | cons above spine =>
      rw [set_append_left, ih]
      · rfl
      · simp [places_length]

variable {target height : Nat} {left right : HeightTree Nat}

lemma holds_unlink (holds : a.Holds (plug frames (.node height .leaf target right)))
    (nodup : (plug frames (.node height .leaf target right)).inorder.Nodup) :
    (a.store (hole frames) (a.child .right target)).Holds (plug frames right) := by
  have parts := holds_plug.mp holds
  obtain ⟨⟨-, -, -, rLink, -, rTree⟩, path⟩ := parts
  apply holds_store rLink path SameOff.refl
  · exact nil_subset _
  · exact rTree
  · rw [inorder_plug] at nodup ⊢
    exact nodup.sublist (by simp [inorder])

section Replacement

variable {spine : List (Frame Nat)} {lastHeight last : Nat} {lastLeft : HeightTree Nat}

lemma nodup_replace
    (nodup : (plug (spine ++ ⟨.left, height, target, right⟩ :: frames)
      (.node lastHeight lastLeft last .leaf)).inorder.Nodup) :
    (plug (spine ++ ⟨.left, height, last, right⟩ :: frames) lastLeft).inorder.Nodup := by
  rw [(inorder_plug_perm _ _).nodup_iff, pathAreas_append, pathAreas, cons_append] at nodup ⊢
  rw [inorder, inorder, append_assoc, singleton_append, nodup_middle] at nodup
  rw [← append_assoc, nodup_middle, append_assoc]
  refine List.Nodup.sublist ?_ nodup
  exact (((sublist_cons_self _ _).append_left _).append_left _).cons_cons _

lemma holds_replace
    (holds : a.Holds (plug (spine ++ ⟨.left, height, target, right⟩ :: frames)
      (.node lastHeight lastLeft last .leaf)))
    (nodup : (plug (spine ++ ⟨.left, height, target, right⟩ :: frames)
      (.node lastHeight lastLeft last .leaf)).inorder.Nodup) :
    (avlReplace target (hole frames) (hole (spine ++ ⟨.left, height, target, right⟩ :: frames))
      a).Holds (plug (spine ++ ⟨.left, height, last, right⟩ :: frames) lastLeft) := by
  have loaded := holds.load_hole
  unfold avlReplace
  rw [loaded]
  let a1 := a.store (hole (spine ++ ⟨.left, height, target, right⟩ :: frames))
    (a.child .left last)
  let a2 := a1.setChild .left last (a1.child .left target)
  let a3 := a2.setChild .right last (a2.child .right target)
  let a4 := a3.setHeight last (a3.height target)
  change (a4.store (hole frames) last).Holds _
  obtain ⟨⟨lastNotNull, -, lLink, -, lastTree, -⟩, path⟩ := holds_plug.mp holds
  have areas := nodup
  rw [(inorder_plug_perm _ _).nodup_iff, inorder, inorder,
    append_assoc, singleton_append, perm_middle.nodup_iff, nodup_cons] at areas
  have detached : a1.Holds (plug (spine ++ ⟨.left, height, target, right⟩ :: frames) lastLeft) := by
    apply holds_store lLink path SameOff.refl
    · exact nil_subset _
    · exact lastTree
    · rw [(inorder_plug_perm _ _).nodup_iff]
      exact areas.2
  rw [plug_append, plug] at detached
  obtain ⟨⟨-, measured, innerLink, rLink, innerTree, rTree⟩, above⟩ := holds_plug.mp detached
  have absent := areas.1
  simp only [pathAreas_append, pathAreas, cons_append, mem_append, mem_cons, not_or] at absent
  obtain ⟨notLeft, notSpine, -, notRight, -⟩ := absent
  have notInner : last ∉ (plug spine lastLeft).inorder := by
    rw [(inorder_plug_perm _ _).mem_iff, mem_append, not_or]
    exact ⟨notLeft, notSpine⟩
  have same : a1.SameOff a4 [last] := by
    refine ⟨rfl, fun p out => ?_⟩
    rw [mem_singleton] at out
    exact ⟨by simp [a4, a3, a2, out], fun _ => by simp [a4, a3, a2, out]⟩
  rw [plug_append, plug]
  have filled : last = pointer (.node height (plug spine lastLeft) last right) := rfl
  apply holds_store filled above same
  · simp [inorder]
  · refine ⟨lastNotNull, ?_, ?_, ?_, innerTree.congr_off same (by simpa using notInner),
      rTree.congr_off same (by simpa using notRight)⟩
    · simpa [a4, a3, a2] using measured
    · simpa [a4, a3, a2] using innerLink
    · simpa [a4, a3, a2] using rLink
  · have exchanged := nodup_replace nodup
    rw [plug_append] at exchanged
    exact exchanged

end Replacement

lemma inorder_erase (nodup : (plug frames (.node height left target right)).inorder.Nodup) :
    (plug frames (.node height left target right)).inorder.erase target =
      before frames ++ (left.inorder ++ right.inorder) ++ behind frames := by
  have split : (plug frames (.node height left target right)).inorder =
      (before frames ++ left.inorder) ++ target :: (right.inorder ++ behind frames) := by
    simp [inorder_plug, inorder]
  rw [split, nodup_middle, nodup_cons, mem_append, not_or] at nodup
  rw [split, erase_append_right _ nodup.1.1, erase_cons_head]
  simp

section Remove

variable {path : List (Frame Nat)} {height : Nat} {left right : HeightTree Nat}
  (holds : a.Holds (plug path (.node height left target right)))
  (nodup : (plug path (.node height left target right)).inorder.Nodup)
  (found : avlSearch vmEnd (vmEnd target) a fuel .root [] =
    some (.found (hole path) ((places path).reverse ++ [hole path])))
include holds nodup found

lemma avlRemove_of_leaf (empty : left = .leaf) :
    ∃ b less, avlRemove fuel vmEnd target a = some b ∧ b.Holds less ∧
      less.inorder = before path ++ (left.inorder ++ right.inorder) ++ behind path ∧
      ((plug path (.node height left target right)).Balanced → less.Balanced) := by
  subst empty
  have noLeft : a.child .left target = 0 := holds.represents.2.2.1
  rw [avlRemove, found]
  dsimp only
  rw [if_pos noLeft, dropLast_concat, reverse_reverse]
  refine ⟨_, _, rfl, avlRebalance_holds (holds_unlink holds nodup) ?_, ?_, ?_⟩
  · rw [inorder_plug] at nodup ⊢
    exact List.Nodup.sublist (by simp [inorder]) nodup
  · rw [inorder_rebalance]
    rfl
  intro bal
  obtain ⟨exact, -, -, -, balR⟩ := balanced_of_plug bal
  rw [stored, Nat.zero_max] at exact
  apply balanced_rebalance bal balR
  · rw [stored]
    omega
  · rw [stored]
    omega

lemma avlRemove_of_ne_leaf (notEmpty : left ≠ .leaf) (enough : left.inorder.length < fuel) :
    ∃ b less, avlRemove fuel vmEnd target a = some b ∧ b.Holds less ∧
      less.inorder = before path ++ (left.inorder ++ right.inorder) ++ behind path ∧
      ((plug path (.node height left target right)).Balanced → less.Balanced) := by
  have lLink := holds.represents.2.2.1
  have lTree := holds.represents.2.2.2.2.1
  rw [avlRemove, found]
  dsimp only
  rw [if_neg (by rwa [lLink, lTree.pointer_eq_zero])]
  obtain ⟨spine, lastHeight, lastLeft, last, rfl, nothing, walked⟩ :=
    @avlWalkRight_spec a fuel left (⟨.left, height, target, right⟩ :: path) holds notEmpty enough
  rw [places, reverse_cons] at walked
  have whole : plug path (.node height (plug spine (.node lastHeight lastLeft last .leaf)) target
      right) = plug (spine ++ ⟨.left, height, target, right⟩ :: path)
        (.node lastHeight lastLeft last .leaf) := by
    rw [plug_append]
    rfl
  rw [whole] at holds nodup ⊢
  have stack : ((places (spine ++ ⟨.left, height, target, right⟩ :: path)).reverse.set
      ((places path).reverse ++ [hole path]).length (.child .left last)).reverse =
        places (spine ++ ⟨.left, height, last, right⟩ :: path) := by
    rw [length_append, length_reverse, places_length]
    exact reverse_eq_iff.mpr (places_set spine path ⟨.left, height, target, right⟩
      ⟨.left, height, last, right⟩)
  rw [show avlWalkRight a fuel (.child .left target) _ = _ from walked, Option.map_some]
  dsimp only
  rw [holds.load_hole, show pointer (.node lastHeight lastLeft last .leaf) = last from rfl, stack]
  refine ⟨_, _, rfl, avlRebalance_holds (holds_replace holds nodup) (nodup_replace nodup), ?_, ?_⟩
  · rw [inorder_rebalance, before_append, behind_append, nothing, inorder_plug spine, nothing]
    simp [before, behind, Frame.before, Frame.behind, inorder]
  intro bal
  obtain ⟨exact, -, -, lastBalanced, -⟩ := balanced_of_plug bal
  have exchanged := (balanced_plug_value spine path ⟨.left, height, target, right⟩ last
    _).mpr bal
  rw [stored, Nat.max_zero] at exact
  apply balanced_rebalance exchanged lastBalanced
  · rw [stored]
    omega
  · rw [stored]
    omega

end Remove

lemma avlRemove_spec (holds : a.Holds tree) (ord : Ordered vmEnd tree)
    (mem : target ∈ tree.inorder) (enough : tree.inorder.length < fuel) :
    ∃ b less, avlRemove fuel vmEnd target a = some b ∧ b.Holds less ∧
      less.inorder = tree.inorder.erase target ∧ (tree.Balanced → less.Balanced) := by
  obtain ⟨path, height, left, right, rfl, found, -⟩ :=
    @avlSearch_spec a vmEnd fuel tree [] target holds ord mem enough
  have nodup := ord.nodup
  rw [hole, places, reverse_nil] at found
  rw [inorder_erase nodup]
  by_cases empty : left = .leaf
  · exact avlRemove_of_leaf holds nodup found empty
  apply avlRemove_of_ne_leaf holds nodup found empty
  apply lt_of_le_of_lt _ enough
  rw [inorder_plug, inorder]
  simp only [length_append]
  omega

def Adjacent (traversal : List Nat) (node left right : Nat) : Prop :=
  ∃ lower upper, traversal = lower ++ node :: upper ∧ left = lower.getLastD 0 ∧
    right = upper.headD 0

def outermost : Side → List Nat → Nat
  | .left, traversal => traversal.headD 0
  | .right, traversal => traversal.getLastD 0

lemma inorder_eq_nil : tree.inorder = [] ↔ tree = .leaf := by
  cases tree <;> simp [inorder]

lemma getLastD_append (used : back ≠ []) : (front ++ back).getLastD 0 = back.getLastD 0 := by
  rw [getLastD_eq_getLast?, getLastD_eq_getLast?, getLast?_append, getLast?_eq_some_getLast used]
  rfl

lemma headD_append (used : front ≠ []) : (front ++ back).headD 0 = front.headD 0 := by
  cases front with
  | nil => exact absurd rfl used
  | cons first rest => rfl

lemma outermost_build (side : Side) (height area : Nat) (near far : HeightTree Nat) :
    outermost side (HeightTree.build side height near area far).inorder =
      if near.inorder = [] then area else outermost side near.inorder := by
  by_cases empty : near.inorder = []
  · cases side <;> simp [outermost, build, inorder, empty]
  rw [if_neg empty]
  cases side with
  | left => exact headD_append empty
  | right =>
    rw [build, inorder, ← singleton_append, ← append_assoc]
    exact getLastD_append empty

lemma avlExtreme_spec (side : Side) (reps : a.Represents tree) (inhabited : tree ≠ .leaf)
    (enough : tree.inorder.length < fuel) :
    avlExtreme side a fuel (pointer tree) = some (outermost side tree.inorder) := by
  have step : ∀ {near far : HeightTree Nat} {height area fuel : Nat},
      a.Represents (.build side height near area far) →
      (near ≠ .leaf → avlExtreme side a fuel (pointer near) = some (outermost side near.inorder)) →
      avlExtreme side a (fuel + 1) area =
        some (outermost side (build side height near area far).inorder) := by
    intro near far height area fuel reps below
    obtain ⟨-, -, nearLink, -, nearTree, -⟩ := represents_build.mp reps
    rw [avlExtreme, nearLink, outermost_build]
    by_cases empty : near = .leaf
    · rw [if_pos (nearTree.pointer_eq_zero.mpr empty), if_pos (inorder_eq_nil.mpr empty)]
    · rw [if_neg (mt nearTree.pointer_eq_zero.mp empty), if_neg (mt inorder_eq_nil.mp empty),
        below empty]
  induction tree, fuel, enough using fuelInduction with
  | leaf => exact absurd rfl inhabited
  | node fuel height left area right ihLeft ihRight =>
    obtain ⟨-, -, -, -, lTree, rTree⟩ := id reps
    cases side with
    | left => exact step reps fun used => ihLeft lTree used
    | right => exact step reps fun used => ihRight rTree used

lemma avlNeighbours_spec (holds : a.Holds tree) (ord : Ordered vmEnd tree)
    (mem : target ∈ tree.inorder) (enough : tree.inorder.length < fuel) :
    ∃ left right, avlNeighbours fuel vmEnd target a = some (left, right) ∧
      Adjacent tree.inorder target left right := by
  obtain ⟨path, height, left, right, rfl, -, found⟩ :=
    @avlSearch_spec a vmEnd fuel tree [] target holds ord mem enough
  obtain ⟨ne0, -, lLink, rLink, lTree, rTree⟩ := holds.represents
  have split : (plug path (.node height left target right)).inorder =
      (before path ++ left.inorder) ++ target :: (right.inorder ++ behind path) := by
    simp [inorder_plug, inorder]
  have shorter : left.inorder.length < fuel ∧ right.inorder.length < fuel := by
    rw [split] at enough
    simp only [length_append, length_cons] at enough
    omega
  have toTheLeft : avlNearest .left a fuel target (descentAt path).toTheLeft =
      some ((before path ++ left.inorder).getLastD 0) := by
    rw [avlNearest, lLink, Side.other]
    by_cases empty : left = .leaf
    · rw [if_pos (lTree.pointer_eq_zero.mpr empty), inorder_eq_nil.mpr empty, append_nil]
      rfl
    rw [if_neg (mt lTree.pointer_eq_zero.mp empty), avlExtreme_spec .right lTree empty shorter.1,
      getLastD_append (mt inorder_eq_nil.mp empty)]
    rfl
  have toTheRight : avlNearest .right a fuel target (descentAt path).toTheRight =
      some ((right.inorder ++ behind path).headD 0) := by
    rw [avlNearest, rLink, Side.other]
    by_cases empty : right = .leaf
    · rw [if_pos (rTree.pointer_eq_zero.mpr empty), inorder_eq_nil.mpr empty, nil_append]
      rfl
    rw [if_neg (mt rTree.pointer_eq_zero.mp empty), avlExtreme_spec .left rTree empty shorter.2,
      headD_append (mt inorder_eq_nil.mp empty)]
    rfl
  refine ⟨_, _, ?_, _, _, split, rfl, rfl⟩
  rw [avlNeighbours, holds.2]
  rw [show avlLocate vmEnd (vmEnd target) a fuel _ 0 0 = _ from found]
  dsimp only
  rw [if_neg (by simp [ne0]), toTheLeft, toTheRight]
  rfl

end Avl

end PrettyOS.Mm
