import PrettyOS.Mm.Avl

/-!
Contract: the links in memory against the trees they spell out.
-/

namespace PrettyOS.Mm

open Library.AvlTree List

def pointer : HeightTree Nat → Nat
  | .leaf => 0
  | .node _ _ area _ => area

def pathAreas : List (Frame Nat) → List Nat
  | [] => []
  | frame :: rest => frame.value :: frame.sibling.inorder ++ pathAreas rest

def hole : List (Frame Nat) → Place
  | [] => .root
  | frame :: _ => .child frame.side frame.value

def places : List (Frame Nat) → List Place
  | [] => []
  | _ :: rest => hole rest :: places rest

@[simp] theorem pointer_build {side : Side} {height node : Nat} {near far : HeightTree Nat} :
    pointer (.build side height near node far) = node := by
  cases side <;> rfl

lemma inorder_build_perm (side : Side) (height : Nat) (near : HeightTree Nat) (node : Nat)
    (far : HeightTree Nat) :
    (HeightTree.build side height near node far).inorder.Perm
      (node :: (near.inorder ++ far.inorder)) := by
  cases side with
  | left => exact perm_middle
  | right => exact perm_middle.trans (perm_append_comm.cons node)

lemma pathAreas_append (inner outer : List (Frame Nat)) :
    pathAreas (inner ++ outer) = pathAreas inner ++ pathAreas outer := by
  induction inner with
  | nil => rfl
  | cons frame rest ih => simp [pathAreas, ih]

lemma inorder_plug_perm (frames : List (Frame Nat)) (tree : HeightTree Nat) :
    (plug frames tree).inorder.Perm (tree.inorder ++ pathAreas frames) := by
  induction frames generalizing tree with
  | nil => simp [plug, pathAreas]
  | cons frame rest ih =>
    refine (ih (frame.plug tree)).trans ?_
    have node : (frame.plug tree).inorder.Perm
        (tree.inorder ++ frame.value :: frame.sibling.inorder) :=
      (inorder_build_perm _ _ _ _ _).trans perm_middle.symm
    simpa [pathAreas] using node.append_right (pathAreas rest)

namespace Avl

variable {a b : Avl} {side : Side} {node tree height : Nat}

@[simp] theorem setChild_child (other : Side) (p : Nat) :
    (a.setChild side node tree).child other p =
      if other = side ∧ p = node then tree else a.child other p := by
  by_cases same : other = side
  · subst same
    by_cases here : p = node
    · subst here
      simp [setChild]
    · simp [setChild, here]
  · simp [setChild, same]

@[simp] theorem setChild_height : (a.setChild side node tree).height = a.height := rfl

@[simp] theorem setHeight_child : (a.setHeight node height).child = a.child := rfl

@[simp] theorem setHeight_height (p : Nat) :
    (a.setHeight node height).height p = if p = node then height else a.height p := by
  by_cases here : p = node
  · subst here
    simp [setHeight]
  · simp [setHeight, here]

def Represents (a : Avl) : HeightTree Nat → Prop
  | .leaf => True
  | .node height left node right =>
      node ≠ 0 ∧ a.height node = height ∧ a.child .left node = pointer left ∧
        a.child .right node = pointer right ∧ a.Represents left ∧ a.Represents right

def RepresentsPath (a : Avl) : List (Frame Nat) → Nat → Prop
  | [], inner => a.root = inner
  | frame :: rest, inner =>
      frame.value ≠ 0 ∧ a.height frame.value = frame.height ∧
        a.child frame.side frame.value = inner ∧
        a.child frame.side.other frame.value = pointer frame.sibling ∧
        a.Represents frame.sibling ∧ a.RepresentsPath rest frame.value

def Holds (a : Avl) (tree : HeightTree Nat) : Prop :=
  a.Represents tree ∧ a.root = pointer tree

def SameAt (a b : Avl) (p : Nat) : Prop :=
  b.height p = a.height p ∧ ∀ side, b.child side p = a.child side p

def SameOff (a b : Avl) (changed : List Nat) : Prop :=
  b.root = a.root ∧ ∀ p, p ∉ changed → a.SameAt b p

lemma SameOff.refl : a.SameOff a [] := ⟨rfl, fun _ _ => ⟨rfl, fun _ => rfl⟩⟩

lemma represents_build {near far : HeightTree Nat} :
    a.Represents (.build side height near node far) ↔
      node ≠ 0 ∧ a.height node = height ∧ a.child side node = pointer near ∧
        a.child side.other node = pointer far ∧ a.Represents near ∧ a.Represents far := by
  cases side with
  | left => rfl
  | right =>
    simp only [HeightTree.build, Represents, Side.other]
    tauto

lemma Represents.congr {tree : HeightTree Nat} (reps : a.Represents tree)
    (same : ∀ p ∈ tree.inorder, a.SameAt b p) : b.Represents tree := by
  induction tree with
  | leaf => trivial
  | node height left node right ihLeft ihRight =>
    obtain ⟨ne0, measured, lLink, rLink, lTree, rTree⟩ := reps
    have here := same node (by simp [HeightTree.inorder])
    refine ⟨ne0, here.1.trans measured, (here.2 _).trans lLink, (here.2 _).trans rLink, ?_, ?_⟩
    · apply ihLeft lTree
      intro p mem
      exact same p (by simp [HeightTree.inorder, mem])
    · apply ihRight rTree
      intro p mem
      exact same p (by simp [HeightTree.inorder, mem])

lemma Represents.congr_off {tree : HeightTree Nat} {changed : List Nat} (reps : a.Represents tree)
    (same : a.SameOff b changed) (apart : ∀ p ∈ changed, p ∉ tree.inorder) : b.Represents tree := by
  apply reps.congr
  intro p inTree
  apply same.2
  intro isChanged
  exact apart p isChanged inTree

lemma RepresentsPath.congr {frames : List (Frame Nat)} {inner : Nat}
    (path : a.RepresentsPath frames inner) (same : ∀ p ∈ pathAreas frames, a.SameAt b p)
    (root : b.root = a.root) : b.RepresentsPath frames inner := by
  induction frames generalizing inner with
  | nil => exact root.trans path
  | cons frame rest ih =>
    obtain ⟨ne0, measured, innerLink, siblingLink, sibling, above⟩ := path
    have here := same frame.value (by simp [pathAreas])
    refine ⟨ne0, here.1.trans measured, (here.2 _).trans innerLink,
      (here.2 _).trans siblingLink, ?_, ?_⟩
    · apply sibling.congr
      intro p mem
      exact same p (by simp [pathAreas, mem])
    · apply ih above
      intro p mem
      exact same p (by simp [pathAreas, mem])

lemma Represents.heightof_pointer {tree : HeightTree Nat} (reps : a.Represents tree) :
    a.heightof (pointer tree) = tree.stored := by
  cases tree with
  | leaf => rfl
  | node height left node right =>
    rw [heightof, pointer, if_neg reps.1]
    exact reps.2.1

lemma Represents.pointer_eq_zero {tree : HeightTree Nat} (reps : a.Represents tree) :
    pointer tree = 0 ↔ tree = .leaf := by
  cases tree with
  | leaf => simp [pointer]
  | node height left node right => simpa [pointer] using reps.1

lemma RepresentsPath.load_hole {frames : List (Frame Nat)} {inner : Nat}
    (path : a.RepresentsPath frames inner) : a.load (hole frames) = inner := by
  cases frames with
  | nil => exact path
  | cons frame rest => exact path.2.2.1

lemma holds_plug {frames : List (Frame Nat)} {tree : HeightTree Nat} :
    a.Holds (plug frames tree) ↔
      a.Represents tree ∧ a.RepresentsPath frames (pointer tree) := by
  induction frames generalizing tree with
  | nil => rfl
  | cons frame rest ih =>
    rw [plug, ih, Frame.plug, represents_build, pointer_build, RepresentsPath]
    tauto

lemma Represents.zero_notMem {tree : HeightTree Nat} (reps : a.Represents tree) :
    0 ∉ tree.inorder := by
  induction tree with
  | leaf => exact not_mem_nil
  | node height left area right ihLeft ihRight =>
    obtain ⟨ne0, -, -, -, lTree, rTree⟩ := reps
    rw [HeightTree.inorder, mem_append, mem_cons]
    rintro (inLeft | null | inRight)
    · exact ihLeft lTree inLeft
    · exact ne0 null.symm
    · exact ihRight rTree inRight

lemma Represents.unique {tree other : HeightTree Nat} (reps : a.Represents tree)
    (alsoOther : a.Represents other) (same : pointer tree = pointer other) : tree = other := by
  induction tree generalizing other with
  | leaf => exact (alsoOther.pointer_eq_zero.mp same.symm).symm
  | node height left area right ihLeft ihRight =>
    cases other with
    | leaf => exact absurd same reps.1
    | node height' left' area' right' =>
      obtain rfl : area = area' := same
      obtain ⟨-, measured, lLink, rLink, lTree, rTree⟩ := reps
      obtain ⟨-, measured', leftLink', rightLink', leftTree', rightTree'⟩ := alsoOther
      rw [ihLeft lTree leftTree' (lLink.symm.trans leftLink'),
        ihRight rTree rightTree' (rLink.symm.trans rightLink'),
        measured.symm.trans measured']

lemma Holds.unique {tree other : HeightTree Nat} (holds : a.Holds tree)
    (alsoOther : a.Holds other) : tree = other :=
  holds.1.unique alsoOther.1 (holds.2.symm.trans alsoOther.2)

lemma store_sameAt {frames : List (Frame Nat)} {inner p : Nat} (out : p ∉ pathAreas frames) :
    a.SameAt (a.store (hole frames) inner) p := by
  cases frames with
  | nil => exact ⟨rfl, fun _ => rfl⟩
  | cons frame rest =>
    have ne : p ≠ frame.value := by
      rintro rfl
      exact out (by simp [pathAreas])
    exact ⟨rfl, fun side => by simp [store, hole, ne]⟩

lemma RepresentsPath.store {frames : List (Frame Nat)} {inner : Nat}
    (path : a.RepresentsPath frames inner) (nodup : (pathAreas frames).Nodup) (tree : Nat) :
    (a.store (hole frames) tree).RepresentsPath frames tree := by
  cases frames with
  | nil => rfl
  | cons frame rest =>
    obtain ⟨ne0, measured, -, siblingLink, sibling, above⟩ := path
    have absent : frame.value ∉ frame.sibling.inorder ++ pathAreas rest := (nodup_cons.mp nodup).1
    rw [mem_append, not_or] at absent
    have away : ∀ p, p ≠ frame.value →
        a.SameAt (a.store (hole (frame :: rest)) tree) p := by
      intro p ne
      exact ⟨rfl, fun side => by simp [Avl.store, hole, ne]⟩
    refine ⟨ne0, measured, ?_, ?_, ?_, ?_⟩
    · simp [Avl.store, hole]
    · simpa [Avl.store, hole] using siblingLink
    · apply sibling.congr
      intro p mem
      apply away
      rintro rfl
      exact absent.1 mem
    · apply above.congr
      · intro p mem
        apply away
        rintro rfl
        exact absent.2 mem
      · rfl

lemma holds_store {rest : List (Frame Nat)} {inner top : Nat} {tree : HeightTree Nat}
    {changed : List Nat} (filled : top = pointer tree) (path : a.RepresentsPath rest inner)
    (same : a.SameOff b changed) (inside : changed ⊆ tree.inorder) (reps : b.Represents tree)
    (nodup : (plug rest tree).inorder.Nodup) :
    (b.store (hole rest) top).Holds (plug rest tree) := by
  subst filled
  rw [(inorder_plug_perm rest tree).nodup_iff, nodup_append] at nodup
  obtain ⟨-, pathNodup, apart⟩ := nodup
  have out : ∀ p ∈ pathAreas rest, p ∉ tree.inorder :=
    fun p onPath inTree => apart p inTree p onPath rfl
  rw [holds_plug]
  constructor
  · apply reps.congr
    intro p inTree
    apply store_sameAt
    intro onPath
    exact out p onPath inTree
  · apply RepresentsPath.store _ pathNodup
    · exact inner
    apply path.congr _ same.1
    intro p onPath
    apply same.2
    intro isChanged
    exact out p onPath (inside isChanged)

section Rotation

variable {rest : List (Frame Nat)} {outer inner far : HeightTree Nat}
  {nodeHeight nearHeight near : Nat}

lemma nodup_pivot (nodup : (plug rest (.build side nodeHeight
      (.build side nearHeight outer near inner) node far)).inorder.Nodup) :
    (node :: near :: (outer.inorder ++ (inner.inorder ++ far.inorder))).Nodup := by
  rw [(inorder_plug_perm _ _).nodup_iff] at nodup
  rw [← append_assoc]
  refine (List.Perm.nodup_iff ?_).mp (nodup_append.mp nodup).1
  refine (inorder_build_perm side nodeHeight _ node far).trans (List.Perm.cons node ?_)
  exact (inorder_build_perm side nearHeight outer near inner).append_right far.inorder

lemma avlRotate_single
    (holds : a.Holds (plug rest (.build side nodeHeight (.build side nearHeight outer near inner)
      node far)))
    (nodup : (plug rest (.build side nodeHeight (.build side nearHeight outer near inner)
      node far)).inorder.Nodup)
    (single : inner.stored ≤ outer.stored) :
    (avlRotate side (hole rest) a).Holds (plug rest (.build side (1 + (1 + inner.stored)) outer near
      (.build side (1 + inner.stored) inner node far))) := by
  have apart := nodup_pivot nodup
  rw [holds_plug, represents_build, represents_build, pointer_build, pointer_build] at holds
  obtain ⟨⟨nodeNotNull, -, nearLink, farLink, ⟨nearNotNull, -, outerLink, innerLink, outerTree,
    innerTree⟩, farTree⟩, path⟩ := holds
  have loaded := path.load_hole
  rw [avlRotate]
  simp only [loaded, nearLink, outerLink, innerLink, innerTree.heightof_pointer,
    outerTree.heightof_pointer, if_pos single]
  simp only [nodup_cons, mem_cons, mem_append, not_or] at apart
  obtain ⟨⟨ne, _, _, _⟩, ⟨_, _, _⟩, -⟩ := apart
  have same : a.SameOff
      ((((a.setChild side node (pointer inner)).setChild side.other near node).setHeight node
        (1 + inner.stored)).setHeight near (1 + (1 + inner.stored))) [node, near] := by
    refine ⟨rfl, fun p out => ?_⟩
    simp only [mem_cons, not_mem_nil, or_false, not_or] at out
    exact ⟨by simp [out], fun _ => by simp [out]⟩
  apply holds_store pointer_build.symm path same
  · cases side <;> simp [HeightTree.inorder_build]
  · rw [represents_build, represents_build, pointer_build]
    refine ⟨nearNotNull, ?_, ?_, ?_, outerTree.congr_off same (by simp [*]), nodeNotNull, ?_, ?_,
      ?_, innerTree.congr_off same (by simp [*]), farTree.congr_off same (by simp [*])⟩
    · simp
    · simpa [Ne.symm ne] using outerLink
    · simp
    · simp [ne]
    · simp [ne]
    · simpa [ne] using farLink
  · convert nodup using 1
    simp only [inorder_plug]
    cases side <;> simp [HeightTree.inorder_build]

lemma avlRotate_double {innerNear innerFar : HeightTree Nat} {innerHeight middle : Nat}
    (holds : a.Holds (plug rest (.build side nodeHeight (.build side nearHeight outer near
      (.build side innerHeight innerNear middle innerFar)) node far)))
    (nodup : (plug rest (.build side nodeHeight (.build side nearHeight outer near
      (.build side innerHeight innerNear middle innerFar)) node far)).inorder.Nodup)
    (double : outer.stored < innerHeight) :
    (avlRotate side (hole rest) a).Holds (plug rest (.build side nearHeight
      (.build side innerHeight outer near innerNear) middle
      (.build side innerHeight innerFar node far))) := by
  have apart := nodup_pivot nodup
  rw [holds_plug, represents_build, represents_build, represents_build, pointer_build,
    pointer_build, pointer_build] at holds
  obtain ⟨⟨nodeNotNull, -, nearLink, farLink, ⟨nearNotNull, nearMeasured, outerLink, middleLink,
    outerTree, middleNotNull, middleMeasured, innerNearLink, innerFarLink, innerNearTree,
    innerFarTree⟩, farTree⟩, path⟩ := holds
  have loaded := path.load_hole
  have split : (HeightTree.build side innerHeight innerNear middle innerFar).inorder.Perm
      (middle :: (innerNear.inorder ++ innerFar.inorder)) := inorder_build_perm _ _ _ _ _
  rw [(((split.append_right _).append_left _).cons _ |>.cons _).nodup_iff] at apart
  simp only [cons_append, append_assoc] at apart
  rw [(perm_middle.cons _ |>.cons _).nodup_iff] at apart
  simp only [nodup_cons, mem_cons, mem_append, not_or] at apart
  obtain ⟨⟨nodeNear, nodeMiddle, _, _, _, _⟩, ⟨nearMiddle, _, _, _, _⟩, ⟨_, _, _, _⟩, -⟩ := apart
  have innerHeightof : a.heightof middle = innerHeight := by
    rw [heightof, if_neg middleNotNull, middleMeasured]
  have nearHeightof : a.heightof near = nearHeight := by
    rw [heightof, if_neg nearNotNull, nearMeasured]
  rw [avlRotate]
  simp only [loaded, nearLink, outerLink, middleLink, innerHeightof, nearHeightof,
    outerTree.heightof_pointer, if_neg double.not_ge, innerNearLink, setChild_child,
    Ne.symm nearMiddle, and_false, if_false, innerFarLink]
  have same : a.SameOff
      (((((((a.setChild side.other near (pointer innerNear)).setChild side node
        (pointer innerFar)).setChild side middle near).setChild side.other middle node).setHeight
        node innerHeight).setHeight near innerHeight).setHeight middle nearHeight)
      [node, near, middle] := by
    refine ⟨rfl, fun p out => ?_⟩
    simp only [mem_cons, not_mem_nil, or_false, not_or] at out
    exact ⟨by simp [out], fun _ => by simp [out]⟩
  apply holds_store pointer_build.symm path same
  · cases side <;> simp [HeightTree.inorder_build]
  · simp only [represents_build, pointer_build]
    refine ⟨middleNotNull, ?_, ?_, ?_,
      ⟨nearNotNull, ?_, ?_, ?_, outerTree.congr_off same (by simp [*]),
        innerNearTree.congr_off same (by simp [*])⟩,
      nodeNotNull, ?_, ?_, ?_, innerFarTree.congr_off same (by simp [*]),
        farTree.congr_off same (by simp [*])⟩
    · simp
    · simp
    · simp
    · simp [nearMiddle]
    · simpa [nearMiddle, Ne.symm nodeNear] using outerLink
    · simp [nearMiddle]
    · simp [nodeNear, nodeMiddle]
    · simp [nodeMiddle]
    · simpa [nodeNear, nodeMiddle] using farLink
  · convert nodup using 1
    simp only [inorder_plug]
    cases side <;> simp [HeightTree.inorder_build]

lemma avlRotate_holds {tree : HeightTree Nat}
    (holds : a.Holds (plug rest (.build side nodeHeight tree node far)))
    (nodup : (plug rest (.build side nodeHeight tree node far)).inorder.Nodup)
    (heavy : far.stored + 1 < tree.stored) :
    (avlRotate side (hole rest) a).Holds (plug rest (.rotate side tree node far)) := by
  obtain ⟨_, outer, _, inner, rfl⟩ := HeightTree.exists_build side (Nat.zero_lt_of_lt heavy)
  rw [HeightTree.rotate, HeightTree.split_build]
  by_cases single : inner.stored ≤ outer.stored
  · dsimp only
    rw [if_pos single]
    exact avlRotate_single holds nodup single
  obtain ⟨_, _, _, _, rfl⟩ := HeightTree.exists_build side (Nat.zero_lt_of_lt (not_le.mp single))
  dsimp only
  rw [if_neg single, HeightTree.split_build, HeightTree.stored_build]
  rw [HeightTree.stored_build] at single
  exact avlRotate_double holds nodup (not_le.mp single)

end Rotation

lemma setHeight_holds {rest : List (Frame Nat)} {left right : HeightTree Nat} {old new : Nat}
    (holds : a.Holds (plug rest (.node old left node right)))
    (nodup : (plug rest (.node old left node right)).inorder.Nodup) :
    (a.setHeight node new).Holds (plug rest (.node new left node right)) := by
  rw [(inorder_plug_perm _ _).nodup_iff, HeightTree.inorder, append_assoc, cons_append,
    perm_middle.nodup_iff, nodup_cons] at nodup
  simp only [mem_append, not_or] at nodup
  obtain ⟨⟨notLeft, notRight, notPath⟩, -⟩ := nodup
  rw [holds_plug] at holds ⊢
  obtain ⟨⟨ne0, -, lLink, rLink, lTree, rTree⟩, path⟩ := holds
  have same : a.SameOff (a.setHeight node new) [node] := by
    refine ⟨rfl, fun p out => ?_⟩
    rw [mem_singleton] at out
    exact ⟨by simp [out], fun _ => rfl⟩
  constructor
  · exact ⟨ne0, by simp, lLink, rLink, lTree.congr_off same (by simpa using notLeft),
      rTree.congr_off same (by simpa using notRight)⟩
  apply path.congr _ same.1
  intro p onPath
  apply same.2
  rw [mem_singleton]
  rintro rfl
  exact notPath onPath

lemma avlRebalance_cons {rest : List (Frame Nat)} {left right : HeightTree Nat}
    (holds : a.Holds (plug rest (.node height left node right)))
    (nodup : (plug rest (.node height left node right)).inorder.Nodup) :
    ∃ b : Avl, b.Holds (plug rest (HeightTree.settle height left node right).1) ∧
      ∀ stack, avlRebalance (hole rest :: stack) a =
        if (HeightTree.settle height left node right).2 then avlRebalance stack b else b := by
  have parts := holds
  rw [holds_plug] at parts
  obtain ⟨⟨_, measured, lLink, rLink, lTree, rTree⟩, path⟩ := parts
  have loaded : a.load (hole rest) = node := path.load_hole
  simp only [avlRebalance, loaded, lLink, rLink, lTree.heightof_pointer,
    rTree.heightof_pointer, HeightTree.settle, measured]
  by_cases leftHeavy : right.stored + 1 < left.stored
  · simp only [if_pos leftHeavy, if_true]
    exact ⟨_, @avlRotate_holds a .left node rest right height left holds nodup leftHeavy,
      fun _ => rfl⟩
  by_cases rightHeavy : left.stored + 1 < right.stored
  · simp only [if_neg leftHeavy, if_pos rightHeavy, if_true]
    exact ⟨_, @avlRotate_holds a .right node rest left height right holds nodup rightHeavy,
      fun _ => rfl⟩
  simp only [if_neg leftHeavy, if_neg rightHeavy]
  by_cases stop : max left.stored right.stored + 1 = height
  · refine ⟨a, ?_, fun _ => by simp [stop]⟩
    rw [stop]
    exact holds
  · exact ⟨_, setHeight_holds holds nodup, fun _ => by simp [stop]⟩

lemma avlRebalance_holds {frames : List (Frame Nat)} {tree : HeightTree Nat}
    (holds : a.Holds (plug frames tree)) (nodup : (plug frames tree).inorder.Nodup) :
    (avlRebalance (places frames) a).Holds (rebalance frames tree) := by
  induction frames generalizing a tree with
  | nil => exact holds
  | cons frame rest ih =>
    have round : ∃ b : Avl, b.Holds (plug rest (frame.settle tree).1) ∧
        ∀ stack, avlRebalance (hole rest :: stack) a =
          if (frame.settle tree).2 then avlRebalance stack b else b := by
      obtain ⟨side, _, _, _⟩ := frame
      cases side with
      | left => exact avlRebalance_cons holds nodup
      | right => exact avlRebalance_cons holds nodup
    obtain ⟨b, settledHolds, res⟩ := round
    have settledNodup : (plug rest (frame.settle tree).1).inorder.Nodup := by
      convert nodup using 1
      rw [plug, inorder_plug, inorder_plug, frame.inorder_settle, frame.inorder_plug]
    rw [places, res, rebalance]
    cases settled : frame.settle tree with
    | mk repaired again =>
      rw [settled] at settledHolds settledNodup
      cases again with
      | true => exact ih settledHolds settledNodup
      | false => exact settledHolds

end Avl

end PrettyOS.Mm
