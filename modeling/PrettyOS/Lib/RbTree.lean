import PrettyOS.Library.RedBlackTree

/-!
Contract: the red-black trees of `lib/rbtree.c`.

A `struct rb_node *` on a tree is the place of the node: the path above it, innermost frame
first, and its two subtrees. Following `rb_parent` is going up that path. `none` is a
dereference of a null pointer.
-/

namespace PrettyOS.Lib

open Library.AvlTree (Side)
open Library.RedBlackTree List
open Library.RedBlackTree.ColorTree (build)

variable {α : Type*}

def rotateInserted (frame grand : Frame α) (tree : ColorTree α) : Option (ColorTree α) :=
  if frame.side = grand.side then
    some (build grand.side .black tree frame.value
      (build grand.side .red frame.sibling grand.value grand.sibling))
  else
    match tree.split grand.side with
    | none => none
    | some (_, near, value, far) =>
        some (build grand.side .black (build grand.side .red frame.sibling frame.value near) value
          (build grand.side .red far grand.value grand.sibling))

def rbInsertColor : List (Frame α) → ColorTree α → Option (ColorTree α)
  | [], tree => some tree.blacken
  | [frame], tree =>
      match frame.color with
      | .black => some (frame.plug tree).blacken
      -- A red parent without a parent: `gparent` is null.
      | .red => none
  | frame :: grand :: rest, tree =>
      match frame.color with
      | .black => some (plug (frame :: grand :: rest) tree).blacken
      | .red =>
          match grand.sibling.color with
          | .red =>
              rbInsertColor rest (build grand.side .red (frame.plug tree).blacken grand.value
                grand.sibling.blacken)
          | .black => (rotateInserted frame grand tree).map fun top => (plug rest top).blacken

inductive EraseStep (α : Type*) where
  | up (tree : ColorTree α)
  | done (tree : ColorTree α)

def EraseStep.top : EraseStep α → ColorTree α
  | .up tree => tree
  | .done tree => tree

def eraseStep (side : Side) (color : Color) (value : α) (tree other : ColorTree α) :
    Option (EraseStep α) :=
  match other.split side with
  | none => none
  | some (_, inner, otherValue, outer) =>
      match inner.color, outer.color with
      | .black, .black =>
          some (.up (build side color tree value (build side .red inner otherValue outer)))
      | _, .red =>
          some (.done (build side color (build side .black tree value inner) otherValue
            outer.blacken))
      | .red, .black =>
          match inner.split side with
          | none => none
          | some (_, near, innerValue, far) =>
              some (.done (build side color (build side .black tree value near) innerValue
                (build side .black far otherValue outer)))

def rbEraseColor : List (Frame α) → ColorTree α → Option (ColorTree α)
  | [], tree => some tree.blacken
  | frame :: rest, tree =>
      match tree.color with
      | .red => some (plug (frame :: rest) tree.blacken)
      | .black =>
          match frame.sibling.split frame.side with
          | none => none
          | some (.red, inner, otherValue, outer) =>
              -- The rotation puts the red sibling above the parent, which turns red; a round
              -- that moves up then stops at the parent and makes it black.
              let lifted : Frame α := ⟨frame.side, .black, otherValue, outer⟩
              match eraseStep frame.side .red frame.value tree inner with
              | none => none
              | some (.up top) => some (plug (lifted :: rest) top.blacken)
              | some (.done top) => some (plug (lifted :: rest) top).blacken
          | some (.black, _, _, _) =>
              match eraseStep frame.side frame.color frame.value tree frame.sibling with
              | none => none
              | some (.up top) => rbEraseColor rest top
              | some (.done top) => some (plug rest top).blacken

structure Place (α : Type*) where
  frames : List (Frame α)
  color : Color
  left : ColorTree α
  right : ColorTree α

def locate [DecidableEq α] (value : α) : ColorTree α → List (Frame α) → Option (Place α)
  | .leaf, _ => none
  | .node color left root right, frames =>
      if root = value then some ⟨frames, color, left, right⟩
      else
        match locate value left (⟨.left, color, root, right⟩ :: frames) with
        | some place => some place
        | none => locate value right (⟨.right, color, root, left⟩ :: frames)

def leftmost : Color → ColorTree α → α → ColorTree α → List (Frame α) →
    List (Frame α) × Color × α × ColorTree α
  | color, .leaf, value, right, frames => (frames, color, value, right)
  | color, .node leftColor left leftValue leftRight, value, right, frames =>
      leftmost leftColor left leftValue leftRight (⟨.left, color, value, right⟩ :: frames)

def fillGap (color : Color) (frames : List (Frame α)) (child : ColorTree α) :
    Option (ColorTree α) :=
  match color with
  | .black => rbEraseColor frames child
  | .red => some (plug frames child)

def rbErase (place : Place α) : Option (ColorTree α) :=
  match place.left, place.right with
  | .leaf, right => fillGap place.color place.frames right
  | left, .leaf => fillGap place.color place.frames left
  | left, .node color rightLeft value rightRight =>
      let (frames, gapColor, successor, child) := leftmost color rightLeft value rightRight []
      fillGap gapColor (frames ++ ⟨.right, place.color, successor, left⟩ :: place.frames) child

def rbFirst : ColorTree α → Option α
  | .leaf => none
  | .node _ .leaf value _ => some value
  | .node _ (.node color left leftValue right) _ _ => rbFirst (.node color left leftValue right)

section Insertion

open Library.RedBlackTree.ColorTree

variable {frames rest : List (Frame α)} {frame grand : Frame α} {tree top result : ColorTree α}
  {height : Nat}

lemma inorder_rotateInserted (rotated : rotateInserted frame grand tree = some top) :
    top.inorder = (grand.plug (frame.plug tree)).inorder := by
  obtain ⟨side, _, _, _⟩ := frame
  obtain ⟨grandSide, _, _, _⟩ := grand
  unfold rotateInserted at rotated
  split_ifs at rotated with outer
  · cases rotated
    cases outer
    cases side <;> simp [Frame.plug, inorder_build]
  split at rotated
  · cases rotated
  rename_i parts
  cases rotated
  rw [split_eq_some.mp parts]
  cases side <;> cases grandSide <;> first
    | exact absurd rfl outer
    | simp [Frame.plug, inorder_build]

lemma inorder_rbInsertColor : ∀ (frames : List (Frame α)) (tree : ColorTree α),
    rbInsertColor frames tree = some result → result.inorder = (plug frames tree).inorder
  | [], tree, ran => by
      cases ran
      exact inorder_blacken
  | [frame], tree, ran => by
      unfold rbInsertColor at ran
      split at ran
      · cases ran
        exact inorder_blacken
      · cases ran
  | frame :: grand :: rest, tree, ran => by
      unfold rbInsertColor at ran
      split at ran
      · cases ran
        exact inorder_blacken
      split at ran
      · rw [inorder_rbInsertColor rest _ ran, plug, plug, inorder_plug, inorder_plug]
        congr 2
        cases side : grand.side <;> simp [Frame.plug, side, inorder_build]
      obtain ⟨_, rotated, rfl⟩ := Option.map_eq_some_iff.mp ran
      rw [inorder_blacken, inorder_plug, inorder_rotateInserted rotated, ← inorder_plug]
      rfl

lemma rotateInserted_returns (treeRed : tree.color = .red) (treeFits : tree.RedBlack height)
    (siblingBlack : frame.sibling.color = .black) (siblingFits : frame.sibling.RedBlack height)
    (uncleBlack : grand.sibling.color = .black) (uncleFits : grand.sibling.RedBlack height) :
    ∃ top, rotateInserted frame grand tree = some top ∧ top.color = .black ∧
      top.RedBlack (height + 1) := by
  unfold rotateInserted
  by_cases outer : frame.side = grand.side
  · rw [if_pos outer]
    refine ⟨_, rfl, color_build, ?_⟩
    simp [treeFits, siblingBlack, siblingFits, uncleBlack, uncleFits]
  obtain ⟨_, _, _, rfl⟩ := exists_build_of_red grand.side treeRed
  rw [if_neg outer, split_build]
  rw [redBlack_build_red] at treeFits
  obtain ⟨nearBlack, farBlack, nearFits, farFits⟩ := treeFits
  refine ⟨_, rfl, color_build, ?_⟩
  simp [siblingBlack, siblingFits, uncleBlack, uncleFits, nearBlack, farBlack, nearFits, farFits]

lemma rbInsertColor_returns : ∀ (frames : List (Frame α)) (tree : ColorTree α) (height : Nat),
    tree.color = .red → tree.RedBlack height → Surrounds frames height →
      ∃ result, rbInsertColor frames tree = some result ∧ result.IsRedBlack
  | [], tree, height, _, fits, _ => ⟨_, rfl, isRedBlack_blacken fits⟩
  | [frame], tree, height, _, fits, around => by
      unfold rbInsertColor
      cases color : frame.color with
      | black =>
        rw [surrounds_black color] at around
        refine ⟨_, rfl, @isRedBlack_blacken _ _ (height + 1) ?_⟩
        rw [Frame.plug, color, redBlack_build_black]
        exact ⟨fits, around.1⟩
      | red =>
        rw [surrounds_red color] at around
        cases around.2.2.1
  | frame :: grand :: rest, tree, height, isRed, fits, around => by
      unfold rbInsertColor
      cases color : frame.color with
      | black =>
        -- Nothing is left to repair.
        have whole : (plug (frame :: grand :: rest) tree).IsRedBlack := by
          rw [isRedBlack_plug]
          refine ⟨?_, height, fits, around⟩
          rw [above_cons, color]
          intro isRed
          cases isRed
        refine ⟨_, rfl, ?_⟩
        rwa [blacken_of_black whole.1]
      | red =>
        rw [surrounds_red color] at around
        obtain ⟨siblingFits, siblingBlack, grandBlack, around⟩ := around
        rw [above_cons] at grandBlack
        rw [surrounds_black grandBlack] at around
        obtain ⟨uncleFits, around⟩ := around
        cases uncle : grand.sibling.color with
        | red =>
          refine rbInsertColor_returns rest _ (height + 1) color_build ?_ around
          rw [redBlack_build_red]
          refine ⟨color_blacken, color_blacken, ?_, redBlack_blacken_of_red uncle uncleFits⟩
          rw [Frame.plug, blacken_build, redBlack_build_black]
          exact ⟨fits, siblingFits⟩
        | black =>
          obtain ⟨top, rotated, topBlack, topFits⟩ := rotateInserted_returns isRed fits
            siblingBlack siblingFits uncle uncleFits
          have whole := isRedBlack_plug.mpr ⟨fun _ => topBlack, height + 1, topFits, around⟩
          refine ⟨(plug rest top).blacken, ?_, by rwa [blacken_of_black whole.1]⟩
          simp only [rotated, Option.map_some]

lemma insert_spec {whole : ColorTree α} (wholeFits : whole.IsRedBlack)
    (atPlace : plug frames .leaf = whole) (value : α) :
    ∃ result, rbInsertColor frames (.node .red .leaf value .leaf) = some result ∧
      result.IsRedBlack ∧ whole.inorder = before frames ++ behind frames ∧
      result.inorder = before frames ++ value :: behind frames := by
  subst atPlace
  obtain ⟨-, height, leafFits, around⟩ := isRedBlack_plug.mp wholeFits
  obtain ⟨result, ran, resultFits⟩ := rbInsertColor_returns frames
    (.node .red .leaf value .leaf) height rfl ⟨rfl, rfl, leafFits, leafFits⟩ around
  refine ⟨result, ran, resultFits, ?_, ?_⟩
  · rw [inorder_plug]
    simp [inorder]
  · rw [inorder_rbInsertColor _ _ ran, inorder_plug]
    simp [inorder]

end Insertion

section Deletion

open Library.RedBlackTree.ColorTree

variable {frames rest : List (Frame α)} {frame : Frame α} {side : Side} {color : Color} {value : α}
  {tree other child result : ColorTree α} {height : Nat} {step : EraseStep α}

lemma inorder_eraseStep (ran : eraseStep side color value tree other = some step) :
    step.top.inorder = (build side color tree value other).inorder := by
  unfold eraseStep at ran
  split at ran
  · cases ran
  rename_i parts
  rw [split_eq_some.mp parts]
  split at ran
  · cases ran
    cases side <;> simp [EraseStep.top, inorder_build]
  · cases ran
    cases side <;> simp [EraseStep.top, inorder_build]
  split at ran
  · cases ran
  rename_i innerParts
  cases ran
  rw [split_eq_some.mp innerParts]
  cases side <;> simp [EraseStep.top, inorder_build]

lemma inorder_rbEraseColor (ran : rbEraseColor frames tree = some result) :
    result.inorder = (plug frames tree).inorder := by
  induction frames generalizing tree with
  | nil =>
    cases ran
    exact inorder_blacken
  | cons frame rest ih =>
    unfold rbEraseColor at ran
    split at ran
    · cases ran
      rw [inorder_plug, inorder_plug, inorder_blacken]
    split at ran
    · cases ran
    · -- The sibling is red: its inner subtree becomes the sibling.
      rename_i inner otherValue outer parts
      have shape : ∀ top : ColorTree α,
          top.inorder = (build frame.side .red tree frame.value inner).inorder →
          (plug (⟨frame.side, .black, otherValue, outer⟩ :: rest) top).inorder =
            (plug (frame :: rest) tree).inorder := by
        intro top same
        rw [plug, plug, inorder_plug, inorder_plug, Frame.inorder_plug, same, Frame.plug,
          split_eq_some.mp parts]
        cases side : frame.side <;> simp [Frame.before, Frame.behind, inorder_build]
      split at ran
      · cases ran
      · rename_i stepped
        cases ran
        apply shape
        rw [inorder_blacken]
        exact inorder_eraseStep stepped
      · rename_i stepped
        cases ran
        rw [inorder_blacken]
        exact shape _ (inorder_eraseStep stepped)
    · split at ran
      · cases ran
      · rename_i stepped
        rw [ih ran, inorder_plug, plug, inorder_plug]
        exact congrArg (fun middle => before rest ++ middle ++ behind rest)
          (inorder_eraseStep stepped)
      rename_i stepped
      cases ran
      rw [inorder_blacken, inorder_plug, plug, inorder_plug]
      exact congrArg (fun middle => before rest ++ middle ++ behind rest)
        (inorder_eraseStep stepped)

def levels : Color → Nat → Nat
  | .red, below => below
  | .black, below => below + 1

def Short (tree : ColorTree α) (height : Nat) : Prop :=
  match tree.color with
  | .red => tree.blacken.RedBlack (height + 1)
  | .black => tree.RedBlack height

lemma short_of_redBlack (fits : tree.RedBlack height) : Short tree height := by
  unfold Short
  cases isRed : tree.color with
  | red => exact redBlack_blacken_of_red isRed fits
  | black => exact fits

lemma eraseStep_returns (treeFits : tree.RedBlack height)
    (otherBlack : other.color = .black) (otherFits : other.RedBlack (height + 1)) :
    ∃ step, eraseStep side color value tree other = some step ∧ step.top.color = color ∧
      match step with
      | .up top => top.blacken.RedBlack (height + 1)
      | .done top => top.RedBlack (levels color (height + 1)) := by
  obtain ⟨_, inner, otherValue, outer, rfl⟩ := exists_build side otherFits
  rw [color_build] at otherBlack
  subst otherBlack
  rw [redBlack_build_black] at otherFits
  obtain ⟨innerFits, outerFits⟩ := otherFits
  unfold eraseStep
  rw [split_build]
  cases outerColor : outer.color with
  | red =>
    have outerLifted := redBlack_blacken_of_red outerColor outerFits
    refine ⟨.done (build side color (build side .black tree value inner) otherValue
      outer.blacken), by simp [outerColor], color_build, ?_⟩
    cases color <;> simp [levels, treeFits, innerFits, outerLifted]
  | black =>
    cases innerColor : inner.color with
    | black =>
      refine ⟨.up (build side color tree value (build side .red inner otherValue outer)),
        by simp [outerColor, innerColor], color_build, ?_⟩
      simp [treeFits, innerColor, innerFits, outerColor, outerFits]
    | red =>
      obtain ⟨near, innerValue, far, rfl⟩ := exists_build_of_red side innerColor
      rw [redBlack_build_red] at innerFits
      obtain ⟨-, -, nearFits, farFits⟩ := innerFits
      refine ⟨.done (build side color (build side .black tree value near) innerValue
        (build side .black far otherValue outer)), by simp [outerColor], color_build, ?_⟩
      cases color <;> simp [levels, treeFits, nearFits, farFits, outerFits]

lemma climbed_short {frame : Frame α} {rest : List (Frame α)} {top : ColorTree α}
    (around : Surrounds (frame :: rest) (height + 1)) (sameColor : top.color = frame.color)
    (fits : top.blacken.RedBlack (height + 1)) :
    ∃ above, Short top above ∧ Surrounds rest (above + 1) := by
  cases parent : frame.color with
  | red =>
    rw [surrounds_red parent] at around
    refine ⟨height, ?_, around.2.2.2⟩
    unfold Short
    rw [sameColor.trans parent]
    exact fits
  | black =>
    rw [surrounds_black parent] at around
    rw [blacken_of_black (sameColor.trans parent)] at fits
    exact ⟨height + 1, short_of_redBlack fits, around.2⟩

lemma finished_isRedBlack {frame : Frame α} {rest : List (Frame α)} {top : ColorTree α}
    (around : Surrounds (frame :: rest) (height + 1)) (sameColor : top.color = frame.color)
    (fits : top.RedBlack (levels frame.color (height + 1))) : (plug rest top).IsRedBlack := by
  cases parent : frame.color with
  | red =>
    rw [surrounds_red parent] at around
    obtain ⟨-, -, aboveBlack, around⟩ := around
    rw [parent] at fits
    rw [isRedBlack_plug]
    refine ⟨?_, _, fits, around⟩
    rw [aboveBlack]
    exact nofun
  | black =>
    rw [surrounds_black parent] at around
    rw [parent] at fits
    exact isRedBlack_plug.mpr ⟨fun _ => sameColor.trans parent, _, fits, around.2⟩

lemma rbEraseColor_returns (short : Short tree height) (around : Surrounds frames (height + 1)) :
    ∃ result, rbEraseColor frames tree = some result ∧ result.IsRedBlack := by
  induction frames generalizing tree height with
  | nil =>
    refine ⟨_, rfl, color_blacken, ?_⟩
    unfold Short at short
    cases treeColor : tree.color with
    | red => exact ⟨_, by rwa [treeColor] at short⟩
    | black =>
      rw [treeColor] at short
      exact ⟨_, by rwa [blacken_of_black treeColor]⟩
  | cons frame rest ih =>
    unfold Short at short
    unfold rbEraseColor
    cases treeColor : tree.color with
    | red =>
      rw [treeColor] at short
      exact ⟨_, rfl, isRedBlack_plug.mpr ⟨fun _ => color_blacken, _, short, around⟩⟩
    | black =>
      rw [treeColor] at short
      obtain ⟨otherColor, inner, otherValue, outer, sibling⟩ :=
        exists_build frame.side around.sibling
      have siblingFits := around.sibling
      rw [sibling] at siblingFits
      simp only [sibling, split_build]
      cases otherColor with
      | red =>
        -- Then the parent is black, and both subtrees of the sibling are.
        have parentBlack : frame.color = .black := by
          cases parent : frame.color with
          | black => rfl
          | red =>
            rw [surrounds_red parent, sibling, color_build] at around
            cases around.2.1
        rw [surrounds_black parentBlack] at around
        rw [redBlack_build_red] at siblingFits
        obtain ⟨innerBlack, _, innerFits, outerFits⟩ := siblingFits
        have lifted : Surrounds (⟨frame.side, .black, otherValue, outer⟩ :: rest)
            (height + 1) := ⟨outerFits, around.2⟩
        obtain ⟨step, stepped, stepColor, stepFits⟩ := @eraseStep_returns _ frame.side .red
          frame.value tree inner height short innerBlack innerFits
        simp only [stepped]
        cases step with
        | up top =>
          exact ⟨_, rfl, isRedBlack_plug.mpr ⟨fun _ => color_blacken, _, stepFits, lifted⟩⟩
        | done top =>
          have whole : (plug (⟨frame.side, .black, otherValue, outer⟩ :: rest)
              top).IsRedBlack :=
            isRedBlack_plug.mpr ⟨nofun, _, stepFits, lifted⟩
          exact ⟨_, rfl, by rwa [blacken_of_black whole.1]⟩
      | black =>
        obtain ⟨step, stepped, stepColor, stepFits⟩ := @eraseStep_returns _ frame.side
          frame.color frame.value tree (build frame.side .black inner otherValue outer) height
          short color_build siblingFits
        simp only [stepped]
        cases step with
        | up top =>
          obtain ⟨_, topShort, aboveAround⟩ := climbed_short around stepColor stepFits
          exact ih topShort aboveAround
        | done top =>
          have whole : (plug rest top).IsRedBlack := finished_isRedBlack around stepColor stepFits
          exact ⟨_, rfl, by rwa [blacken_of_black whole.1]⟩

lemma inorder_fillGap (ran : fillGap color frames child = some result) :
    result.inorder = (plug frames child).inorder := by
  unfold fillGap at ran
  split at ran
  · exact inorder_rbEraseColor ran
  · cases ran
    rfl

lemma fillGap_returns (whole : (plug frames (build side color child value other)).IsRedBlack) :
    ∃ result, fillGap color frames child = some result ∧ result.IsRedBlack := by
  rw [isRedBlack_plug] at whole
  obtain ⟨rooted, _, nodeFits, around⟩ := whole
  rw [color_build] at rooted
  unfold fillGap
  cases color with
  | red =>
    rw [redBlack_build_red] at nodeFits
    exact ⟨_, rfl, isRedBlack_plug.mpr ⟨fun _ => nodeFits.1, _, nodeFits.2.2.1, around⟩⟩
  | black =>
    obtain ⟨_, rfl, childFits, -⟩ := redBlack_black_cases nodeFits
    exact rbEraseColor_returns (short_of_redBlack childFits) around

lemma leftmost_spec {left right gapChild : ColorTree α} {gapFrames : List (Frame α)}
    {gapColor : Color} {successor : α}
    (found : leftmost color left value right frames = (gapFrames, gapColor, successor, gapChild)) :
    plug gapFrames (.node gapColor .leaf successor gapChild) =
      plug frames (.node color left value right) ∧ before gapFrames = before frames := by
  induction left generalizing color value right frames with
  | leaf =>
    cases found
    exact ⟨rfl, rfl⟩
  | node leftColor left leftValue leftRight ih _ =>
    unfold leftmost at found
    rw [(ih found).1, (ih found).2]
    exact ⟨rfl, by simp [before, Frame.before]⟩

lemma isRedBlack_plug_value {left right : ColorTree α} (value other : α) :
    (plug frames (.node color left value right)).IsRedBlack ↔
      (plug frames (.node color left other right)).IsRedBlack := by
  rw [isRedBlack_plug, isRedBlack_plug]
  cases color <;> rfl

lemma rbErase_spec {place : Place α}
    (whole : (plug place.frames (.node place.color place.left value place.right)).IsRedBlack) :
    ∃ result, rbErase place = some result ∧ result.IsRedBlack ∧
      result.inorder = before place.frames ++ place.left.inorder ++ place.right.inorder ++
        behind place.frames := by
  obtain ⟨frames, color, left, right⟩ := place
  dsimp only at *
  unfold rbErase
  cases left with
  | leaf =>
    have onlyRight : (plug frames (build .right color right value .leaf)).IsRedBlack := whole
    obtain ⟨result, ran, fits⟩ := fillGap_returns onlyRight
    refine ⟨result, ran, fits, ?_⟩
    rw [inorder_fillGap ran, inorder_plug]
    simp [inorder]
  | node leftColor leftLeft leftValue leftRight =>
    cases right with
    | leaf =>
      have onlyLeft : (plug frames (build .left color
          (.node leftColor leftLeft leftValue leftRight) value .leaf)).IsRedBlack := whole
      obtain ⟨result, ran, fits⟩ := fillGap_returns onlyLeft
      refine ⟨result, ran, fits, ?_⟩
      rw [inorder_fillGap ran, inorder_plug]
      simp [inorder]
    | node rightColor rightLeft rightValue rightRight =>
      dsimp only
      rcases found : leftmost rightColor rightLeft rightValue rightRight [] with
        ⟨gapFrames, gapColor, successor, child⟩
      obtain ⟨same, first⟩ := leftmost_spec found
      set left := ColorTree.node leftColor leftLeft leftValue leftRight
      have moved : (plug (gapFrames ++ ⟨.right, color, successor, left⟩ :: frames)
          (build .right gapColor child successor .leaf)).IsRedBlack := by
        rw [plug_append]
        show (plug frames (build .right color (plug gapFrames
          (.node gapColor .leaf successor child)) successor left)).IsRedBlack
        rw [same]
        exact (isRedBlack_plug_value value successor).mp whole
      obtain ⟨result, ran, fits⟩ := fillGap_returns moved
      refine ⟨result, ran, fits, ?_⟩
      have order := congrArg inorder same
      rw [before] at first
      rw [inorder_plug, first] at order
      simp only [plug, inorder, nil_append] at order
      rw [inorder_fillGap ran, inorder_plug, before_append, behind_append, before, behind, first]
      simp only [inorder, ← order, Frame.before, Frame.behind, append_assoc,
        cons_append, nil_append, append_nil]

end Deletion

section Places

open Library.RedBlackTree.ColorTree

variable [DecidableEq α] {frames : List (Frame α)} {value : α} {tree : ColorTree α}

lemma plug_locate {place : Place α} (found : locate value tree frames = some place) :
    plug place.frames (.node place.color place.left value place.right) = plug frames tree := by
  induction tree generalizing frames with
  | leaf => cases found
  | node color left root right ihLeft ihRight =>
    unfold locate at found
    split_ifs at found with here
    · cases found
      rw [here]
    split at found
    · rename_i inLeft
      cases found
      rw [ihLeft inLeft]
      rfl
    · rw [ihRight found]
      rfl

lemma exists_locate (mem : value ∈ tree.inorder) (frames : List (Frame α)) :
    ∃ place, locate value tree frames = some place := by
  induction tree generalizing frames with
  | leaf => cases mem
  | node color left root right ihLeft ihRight =>
    unfold locate
    by_cases here : root = value
    · exact ⟨_, by rw [if_pos here]⟩
    rw [if_neg here]
    cases inLeft : locate value left (⟨.left, color, root, right⟩ :: frames) with
    | some place => exact ⟨place, rfl⟩
    | none =>
      apply ihRight
      unfold inorder at mem
      rcases mem_append.mp mem with before_ | here_ | behind_
      · obtain ⟨place, found⟩ := ihLeft before_ (⟨.left, color, root, right⟩ :: frames)
        rw [inLeft] at found
        cases found
      · exact absurd rfl here
      · assumption

lemma erase_spec (fits : tree.IsRedBlack) (nodup : tree.inorder.Nodup)
    (mem : value ∈ tree.inorder) :
    ∃ place result, locate value tree [] = some place ∧ rbErase place = some result ∧
      result.IsRedBlack ∧ result.inorder = tree.inorder.erase value := by
  obtain ⟨place, found⟩ := exists_locate mem []
  have same : plug place.frames (.node place.color place.left value place.right) = tree :=
    plug_locate found
  obtain ⟨result, ran, resultFits, order⟩ := @rbErase_spec _ value place (same ▸ fits)
  refine ⟨place, result, found, ran, resultFits, ?_⟩
  have whole : tree.inorder = (before place.frames ++ place.left.inorder) ++
      value :: (place.right.inorder ++ behind place.frames) := by
    rw [← same, inorder_plug]
    simp [inorder]
  rw [whole] at nodup ⊢
  have fresh : value ∉ before place.frames ++ place.left.inorder := fun early =>
    (nodup_append.mp nodup).2.2 value early value mem_cons_self rfl
  rw [erase_append_right _ fresh, erase_cons_head, order]
  simp only [append_assoc]

omit [DecidableEq α] in
lemma rbFirst_eq_head : ∀ tree : ColorTree α, rbFirst tree = tree.inorder.head?
  | .leaf => rfl
  | .node _ .leaf _ _ => rfl
  | .node _ (.node color left leftValue right) value _ => by
      rw [rbFirst, rbFirst_eq_head (.node color left leftValue right)]
      simp [inorder, head?_append]

end Places

end PrettyOS.Lib
