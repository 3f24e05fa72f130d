import Mathlib

/-!
Contract: height-balanced binary trees with stored heights, and their repair along a
path.
-/

namespace PrettyOS.Library.AvlTree

open List

inductive Side where
  | left
  | right
deriving DecidableEq, Repr

def Side.other : Side → Side
  | .left => .right
  | .right => .left

@[simp] theorem Side.other_ne (side : Side) : side.other ≠ side := by
  cases side <;> decide

@[simp] theorem Side.ne_other (side : Side) : side ≠ side.other := by
  cases side <;> decide

inductive HeightTree (α : Type*) where
  | leaf
  | node (height : Nat) (left : HeightTree α) (value : α) (right : HeightTree α)

variable {α : Type*}

namespace HeightTree

def stored : HeightTree α → Nat
  | leaf => 0
  | node height _ _ _ => height

def inorder : HeightTree α → List α
  | leaf => []
  | node _ left value right => left.inorder ++ value :: right.inorder

def Balanced : HeightTree α → Prop
  | leaf => True
  | node height left _ right =>
      height = max left.stored right.stored + 1 ∧ left.stored ≤ right.stored + 1 ∧
        right.stored ≤ left.stored + 1 ∧ left.Balanced ∧ right.Balanced

def build : Side → Nat → HeightTree α → α → HeightTree α → HeightTree α
  | .left, height, near, value, far => node height near value far
  | .right, height, near, value, far => node height far value near

def split (side : Side) : HeightTree α → Option (Nat × HeightTree α × α × HeightTree α)
  | leaf => none
  | node height left value right =>
      match side with
      | .left => some (height, left, value, right)
      | .right => some (height, right, value, left)

variable {side : Side} {height : Nat} {near far tree : HeightTree α} {value : α}

@[elab_as_elim]
lemma fuelInduction
    {motive : (tree : HeightTree α) → (fuel : Nat) → tree.inorder.length < fuel → Prop}
    (leaf : ∀ {fuel enough}, motive leaf (fuel + 1) enough)
    (node : ∀ fuel height left value right {enough leftEnough rightEnough},
      motive left fuel leftEnough → motive right fuel rightEnough →
        motive (node height left value right) (fuel + 1) enough)
    (tree : HeightTree α) (fuel : Nat) (enough : tree.inorder.length < fuel) :
    motive tree fuel enough := by
  induction tree generalizing fuel with
  | leaf =>
    obtain ⟨fuel, rfl⟩ := Nat.exists_eq_succ_of_ne_zero (Nat.ne_zero_of_lt enough)
    exact leaf
  | node height left value right ihLeft ihRight =>
    obtain ⟨fuel, rfl⟩ := Nat.exists_eq_succ_of_ne_zero (Nat.ne_zero_of_lt enough)
    have lengths := enough
    rw [inorder, length_append, length_cons] at lengths
    have leftEnough : left.inorder.length < fuel := by omega
    have rightEnough : right.inorder.length < fuel := by omega
    exact node fuel height left value right (ihLeft fuel leftEnough)
      (ihRight fuel rightEnough)

lemma split_eq_some : tree.split side = some (height, near, value, far) ↔
    tree = build side height near value far := by
  cases tree <;> cases side <;> simp [split, build, and_comm, and_assoc, and_left_comm]

@[simp] theorem split_build :
    (build side height near value far).split side = some (height, near, value, far) :=
  split_eq_some.mpr rfl

@[simp] theorem stored_build : (build side height near value far).stored = height := by
  cases side <;> rfl

lemma balanced_build : (build side height near value far).Balanced ↔
    height = max near.stored far.stored + 1 ∧ near.stored ≤ far.stored + 1 ∧
      far.stored ≤ near.stored + 1 ∧ near.Balanced ∧ far.Balanced := by
  cases side
  · rfl
  · rw [build, Balanced, max_comm]
    tauto

lemma exists_build (side : Side) (pos : 0 < tree.stored) :
    ∃ height near value far, tree = build side height near value far := by
  cases tree with
  | leaf => exact absurd pos (lt_irrefl 0)
  | node height left value right =>
    cases side with
    | left => exact ⟨height, left, value, right, rfl⟩
    | right => exact ⟨height, right, value, left, rfl⟩

def rotate (side : Side) (near : HeightTree α) (value : α) (far : HeightTree α) :
    HeightTree α :=
  match near.split side with
  | none => build side 0 near value far
  | some (nearHeight, outer, nearValue, inner) =>
      if inner.stored ≤ outer.stored then
        build side (1 + (1 + inner.stored)) outer nearValue
          (build side (1 + inner.stored) inner value far)
      else
        match inner.split side with
        | none => build side 0 near value far
        | some (_, innerNear, innerValue, innerFar) =>
            build side nearHeight (build side inner.stored outer nearValue innerNear) innerValue
              (build side inner.stored innerFar value far)

def settle (height : Nat) (left : HeightTree α) (value : α) (right : HeightTree α) :
    HeightTree α × Bool :=
  if right.stored + 1 < left.stored then
    (rotate .left left value right, true)
  else if left.stored + 1 < right.stored then
    (rotate .right right value left, true)
  else
    let repaired := max left.stored right.stored + 1
    (node repaired left value right, repaired ≠ height)

lemma inorder_build : (build side height near value far).inorder =
    match side with
    | .left => near.inorder ++ value :: far.inorder
    | .right => far.inorder ++ value :: near.inorder := by
  cases side <;> rfl

lemma inorder_rotate : (rotate side near value far).inorder =
    (build side 0 near value far).inorder := by
  unfold rotate
  split
  · rfl
  rename_i found
  rw [split_eq_some] at found
  subst found
  split_ifs
  · cases side <;> simp [inorder_build]
  split
  · rfl
  rename_i foundInner
  rw [split_eq_some] at foundInner
  subst foundInner
  cases side <;> simp [inorder_build]

lemma inorder_settle {left right : HeightTree α} : (settle height left value right).1.inorder =
    left.inorder ++ value :: right.inorder := by
  unfold settle
  split_ifs
  · rw [inorder_rotate, inorder_build]
  · rw [inorder_rotate, inorder_build]
  · rfl

lemma balanced_rotate (nearBalanced : near.Balanced) (farBalanced : far.Balanced)
    (heavy : near.stored = far.stored + 2) :
    (rotate side near value far).Balanced ∧ (rotate side near value far).stored ≤ far.stored + 3 ∧
      far.stored + 2 ≤ (rotate side near value far).stored := by
  obtain ⟨_, _, _, inner, rfl⟩ := @exists_build _ near side (by omega)
  rw [balanced_build] at nearBalanced
  rw [stored_build] at heavy
  obtain ⟨_, _, _, outerBalanced, innerBalanced⟩ := nearBalanced
  simp only [rotate, split_build]
  split_ifs with single
  · simp only [balanced_build, stored_build]
    refine ⟨⟨?_, ?_, ?_, outerBalanced, ?_, ?_, ?_, innerBalanced, farBalanced⟩, ?_, ?_⟩ <;> omega
  obtain ⟨_, _, _, _, rfl⟩ := @exists_build _ inner side (by omega)
  rw [balanced_build] at innerBalanced
  simp only [stored_build] at *
  obtain ⟨_, _, _, innerNearBalanced, innerFarBalanced⟩ := innerBalanced
  simp only [split_build, balanced_build, stored_build]
  refine ⟨⟨?_, ?_, ?_, ⟨?_, ?_, ?_, outerBalanced, innerNearBalanced⟩, ?_, ?_, ?_,
    innerFarBalanced, farBalanced⟩, ?_, ?_⟩ <;> omega

lemma balanced_settle {left right : HeightTree α} (balL : left.Balanced) (balR : right.Balanced)
    (leftLe : left.stored ≤ right.stored + 2) (rightLe : right.stored ≤ left.stored + 2) :
    (settle height left value right).1.Balanced ∧
      (settle height left value right).1.stored ≤ max left.stored right.stored + 1 ∧
      max left.stored right.stored ≤ (settle height left value right).1.stored ∧
      (left.stored ≤ right.stored + 1 → right.stored ≤ left.stored + 1 →
        (settle height left value right).1.stored = max left.stored right.stored + 1) ∧
      ((settle height left value right).2 = false →
        (settle height left value right).1.stored = height) := by
  unfold settle
  split_ifs with leftHeavy rightHeavy
  · obtain ⟨bal, upper, lower⟩ := @balanced_rotate _ .left left right value balL
      balR (by omega)
    dsimp only
    refine ⟨bal, by omega, by omega, by omega, ?_⟩
    intro impossible
    cases impossible
  · obtain ⟨bal, upper, lower⟩ := @balanced_rotate _ .right right left value balR
      balL (by omega)
    dsimp only
    refine ⟨bal, by omega, by omega, by omega, ?_⟩
    intro impossible
    cases impossible
  · refine ⟨⟨rfl, by omega, by omega, balL, balR⟩, le_rfl, Nat.le_succ _, fun _ _ => rfl, ?_⟩
    intro stopped
    exact not_not.mp (of_decide_eq_false stopped)

/-- The smallest balanced trees grow like the Fibonacci numbers. -/
lemma fib_stored_le (bal : tree.Balanced) :
    Nat.fib (tree.stored + 2) ≤ tree.inorder.length + 1 := by
  induction tree with
  | leaf => exact Nat.le_refl 1
  | node height left value right ihLeft ihRight =>
    obtain ⟨isHeight, leftLow, rightLow, balLeft, balRight⟩ := bal
    have sizeLeft := ihLeft balLeft
    have sizeRight := ihRight balRight
    rw [inorder, length_append, length_cons, stored, isHeight, Nat.fib_add_two]
    -- the higher side holds the larger number, the other one at least the number below it
    rcases le_total left.stored right.stored with higher | higher
    · have lower := Nat.fib_mono (show right.stored + 1 ≤ left.stored + 2 by omega)
      rw [max_eq_right higher]
      change Nat.fib (right.stored + 1) + Nat.fib (right.stored + 2) ≤ _
      omega
    · have lower := Nat.fib_mono (show left.stored + 1 ≤ right.stored + 2 by omega)
      rw [max_eq_left higher]
      change Nat.fib (left.stored + 1) + Nat.fib (left.stored + 2) ≤ _
      omega

end HeightTree

structure Frame (α : Type*) where
  side : Side
  height : Nat
  value : α
  sibling : HeightTree α

namespace Frame

def plug (frame : Frame α) (tree : HeightTree α) : HeightTree α :=
  HeightTree.build frame.side frame.height tree frame.value frame.sibling

def settle (frame : Frame α) (tree : HeightTree α) : HeightTree α × Bool :=
  match frame.side with
  | .left => HeightTree.settle frame.height tree frame.value frame.sibling
  | .right => HeightTree.settle frame.height frame.sibling frame.value tree

def before (frame : Frame α) : List α :=
  match frame.side with
  | .left => []
  | .right => frame.sibling.inorder ++ [frame.value]

def behind (frame : Frame α) : List α :=
  match frame.side with
  | .left => frame.value :: frame.sibling.inorder
  | .right => []

lemma inorder_plug (frame : Frame α) (tree : HeightTree α) :
    (frame.plug tree).inorder = frame.before ++ tree.inorder ++ frame.behind := by
  obtain ⟨side, _, _, _⟩ := frame
  cases side <;> simp [plug, HeightTree.build, HeightTree.inorder, before, behind]

lemma inorder_settle (frame : Frame α) (tree : HeightTree α) :
    (frame.settle tree).1.inorder = frame.before ++ tree.inorder ++ frame.behind := by
  obtain ⟨side, _, _, _⟩ := frame
  cases side <;> simp [settle, HeightTree.inorder_settle, before, behind]

end Frame

def plug : List (Frame α) → HeightTree α → HeightTree α
  | [], tree => tree
  | frame :: rest, tree => plug rest (frame.plug tree)

def rebalance : List (Frame α) → HeightTree α → HeightTree α
  | [], tree => tree
  | frame :: rest, tree =>
      match frame.settle tree with
      | (settled, true) => rebalance rest settled
      | (settled, false) => plug rest settled

def before : List (Frame α) → List α
  | [] => []
  | frame :: rest => before rest ++ frame.before

def behind : List (Frame α) → List α
  | [] => []
  | frame :: rest => frame.behind ++ behind rest

variable {frames : List (Frame α)} {tree old : HeightTree α}

section

variable (inner outer : List (Frame α))
include inner outer

lemma plug_append (tree : HeightTree α) :
    plug (inner ++ outer) tree = plug outer (plug inner tree) := by
  induction inner generalizing tree with
  | nil => rfl
  | cons frame rest ih => exact ih _

lemma before_append : before (inner ++ outer) = before outer ++ before inner := by
  induction inner with
  | nil => simp [before]
  | cons frame rest ih => simp [before, ih]

lemma behind_append : behind (inner ++ outer) = behind inner ++ behind outer := by
  induction inner with
  | nil => simp [behind]
  | cons frame rest ih => simp [behind, ih]

end

lemma inorder_plug (frames : List (Frame α)) (tree : HeightTree α) :
    (plug frames tree).inorder = before frames ++ tree.inorder ++ behind frames := by
  induction frames generalizing tree with
  | nil => simp [plug, before, behind]
  | cons frame rest ih =>
    rw [plug, ih, Frame.inorder_plug, before, behind]
    simp only [append_assoc]

lemma inorder_rebalance (frames : List (Frame α)) (tree : HeightTree α) :
    (rebalance frames tree).inorder = before frames ++ tree.inorder ++ behind frames := by
  induction frames generalizing tree with
  | nil => simp [rebalance, before, behind]
  | cons frame rest ih =>
    have settled := frame.inorder_settle tree
    rw [rebalance, before, behind]
    split
    · rename_i repaired res
      rw [res] at settled
      rw [ih, settled]
      simp only [append_assoc]
    rename_i repaired res
    rw [res] at settled
    rw [inorder_plug, settled]
    simp only [append_assoc]

lemma balanced_of_plug (bal : (plug frames tree).Balanced) : tree.Balanced := by
  induction frames generalizing tree with
  | nil => exact bal
  | cons frame rest ih =>
    have node := ih bal
    rw [Frame.plug, HeightTree.balanced_build] at node
    exact node.2.2.2.1

lemma length_add_stored_le {whole : HeightTree α} (isPlug : plug frames tree = whole)
    (bal : whole.Balanced) : frames.length + tree.stored ≤ whole.stored := by
  subst isPlug
  induction frames generalizing tree with
  | nil => exact Nat.le_of_eq (Nat.zero_add _)
  | cons frame rest ih =>
    have node := balanced_of_plug (show (plug rest (frame.plug tree)).Balanced from bal)
    have below := ih bal
    rw [Frame.plug, HeightTree.balanced_build] at node
    rw [Frame.plug, HeightTree.stored_build] at below
    rw [length_cons]
    exact le_trans (by omega) below

section

variable (bal : (plug frames old).Balanced) (new : tree.Balanced)
include bal new

lemma balanced_plug_congr (same : tree.stored = old.stored) : (plug frames tree).Balanced := by
  induction frames generalizing tree old with
  | nil => exact new
  | cons frame rest ih =>
    apply ih bal
    · have node := balanced_of_plug (show (plug rest (frame.plug old)).Balanced from bal)
      rw [Frame.plug, HeightTree.balanced_build] at node ⊢
      rw [same]
      exact ⟨node.1, node.2.1, node.2.2.1, new, node.2.2.2.2⟩
    · simp [Frame.plug]

lemma balanced_rebalance (upper : tree.stored ≤ old.stored + 1)
    (lower : old.stored ≤ tree.stored + 1) : (rebalance frames tree).Balanced := by
  induction frames generalizing tree old with
  | nil => exact new
  | cons frame rest ih =>
    have node := balanced_of_plug (show (plug rest (frame.plug old)).Balanced from bal)
    have height : (frame.plug old).stored = frame.height := by simp [Frame.plug]
    rw [Frame.plug, HeightTree.balanced_build] at node
    obtain ⟨exact, _, _, -, siblingBalanced⟩ := node
    have settled : (frame.settle tree).1.Balanced ∧
        (frame.settle tree).1.stored ≤ max tree.stored frame.sibling.stored + 1 ∧
        max tree.stored frame.sibling.stored ≤ (frame.settle tree).1.stored ∧
        (tree.stored ≤ frame.sibling.stored + 1 → frame.sibling.stored ≤ tree.stored + 1 →
          (frame.settle tree).1.stored = max tree.stored frame.sibling.stored + 1) ∧
        ((frame.settle tree).2 = false → (frame.settle tree).1.stored = frame.height) := by
      unfold Frame.settle
      split
      · exact HeightTree.balanced_settle new siblingBalanced (by omega) (by omega)
      obtain ⟨balance, high, low, even, same⟩ := HeightTree.balanced_settle siblingBalanced new
        (by omega) (by omega)
      rw [max_comm]
      exact ⟨balance, high, low, fun near far => even far near, same⟩
    rw [rebalance]
    cases res : frame.settle tree with
    | mk repaired again =>
      rw [res] at settled
      dsimp only at settled ⊢
      obtain ⟨settledBalanced, _, _, _, settledSame⟩ := settled
      cases again with
      | true =>
        apply ih bal settledBalanced
        · rw [height]
          omega
        · rw [height]
          omega
      | false =>
        apply balanced_plug_congr (show (plug rest (frame.plug old)).Balanced from bal)
          settledBalanced
        rw [height]
        exact settledSame rfl

end

def descend (goLeft : α → Prop) [DecidablePred goLeft] :
    HeightTree α → List (Frame α) → List (Frame α)
  | .leaf, frames => frames
  | .node height left value right, frames =>
      if goLeft value then descend goLeft left (⟨.left, height, value, right⟩ :: frames)
      else descend goLeft right (⟨.right, height, value, left⟩ :: frames)

variable (goLeft : α → Prop) [DecidablePred goLeft]

lemma plug_descend (tree : HeightTree α) (frames : List (Frame α)) :
    plug (descend goLeft tree frames) .leaf = plug frames tree := by
  induction tree generalizing frames with
  | leaf => rfl
  | node height left value right ihLeft ihRight =>
    rw [descend]
    split_ifs
    · exact ihLeft _
    · exact ihRight _

lemma descend_border (border : tree.inorder.Pairwise fun x y => goLeft x → goLeft y)
    (lower : ∀ value ∈ before frames, ¬ goLeft value)
    (upper : ∀ value ∈ behind frames, goLeft value) :
    (∀ value ∈ before (descend goLeft tree frames), ¬ goLeft value) ∧
      ∀ value ∈ behind (descend goLeft tree frames), goLeft value := by
  induction tree generalizing frames with
  | leaf => exact ⟨lower, upper⟩
  | node height left value right ihLeft ihRight =>
    rw [HeightTree.inorder, pairwise_append, pairwise_cons] at border
    obtain ⟨leftBorder, ⟨above, rightBorder⟩, across⟩ := border
    rw [descend]
    split_ifs with chosen
    · apply ihLeft leftBorder
      · simpa [before, Frame.before] using lower
      simp only [behind, Frame.behind, cons_append, mem_cons, mem_append]
      rintro other (rfl | mem | mem)
      · exact chosen
      · exact above other mem chosen
      · exact upper other mem
    apply ihRight rightBorder
    · simp only [before, Frame.before, mem_append, mem_singleton]
      rintro other (mem | mem | rfl)
      · exact lower other mem
      · intro impossible
        exact chosen (across other mem value mem_cons_self impossible)
      · exact chosen
    · simpa [behind, Frame.behind] using upper

lemma balanced_plug_value (inner outer : List (Frame α)) (frame : Frame α) (value : α)
    (tree : HeightTree α) : (plug (inner ++ { frame with value := value } :: outer) tree).Balanced ↔
      (plug (inner ++ frame :: outer) tree).Balanced := by
  have stored : ({ frame with value := value }.plug (plug inner tree)).stored =
      (frame.plug (plug inner tree)).stored := by
    simp [Frame.plug]
  have same : ({ frame with value := value }.plug (plug inner tree)).Balanced ↔
      (frame.plug (plug inner tree)).Balanced := by
    simp [Frame.plug, HeightTree.balanced_build]
  simp only [plug_append, plug]
  constructor
  · intro bal
    exact balanced_plug_congr bal (same.mp (balanced_of_plug bal)) stored.symm
  · intro bal
    exact balanced_plug_congr bal (same.mpr (balanced_of_plug bal)) stored

end PrettyOS.Library.AvlTree
