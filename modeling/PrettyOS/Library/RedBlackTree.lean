import PrettyOS.Library.AvlTree

/-!
Contract: coloured binary trees, paths in them, and the red-black condition.
-/

namespace PrettyOS.Library.RedBlackTree

open Library.AvlTree (Side)
open List

inductive Color where
  | red
  | black
deriving DecidableEq, Repr

inductive ColorTree (α : Type*) where
  | leaf
  | node (color : Color) (left : ColorTree α) (value : α) (right : ColorTree α)
deriving DecidableEq, Repr

variable {α : Type*}

namespace ColorTree

def color : ColorTree α → Color
  | leaf => .black
  | node color _ _ _ => color

def inorder : ColorTree α → List α
  | leaf => []
  | node _ left value right => left.inorder ++ value :: right.inorder

def blacken : ColorTree α → ColorTree α
  | leaf => leaf
  | node _ left value right => node .black left value right

def build : Side → Color → ColorTree α → α → ColorTree α → ColorTree α
  | .left, color, near, value, far => node color near value far
  | .right, color, near, value, far => node color far value near

def split (side : Side) : ColorTree α → Option (Color × ColorTree α × α × ColorTree α)
  | leaf => none
  | node color left value right =>
      match side with
      | .left => some (color, left, value, right)
      | .right => some (color, right, value, left)

def RedBlack : ColorTree α → Nat → Prop
  | leaf, height => height = 0
  | node .red left _ right, height =>
      left.color = .black ∧ right.color = .black ∧ left.RedBlack height ∧ right.RedBlack height
  | node .black left _ right, height =>
      ∃ below, height = below + 1 ∧ left.RedBlack below ∧ right.RedBlack below

def IsRedBlack (tree : ColorTree α) : Prop :=
  tree.color = .black ∧ ∃ height, tree.RedBlack height

variable {side : Side} {color : Color} {near far tree : ColorTree α} {value : α} {height : Nat}

lemma split_eq_some : tree.split side = some (color, near, value, far) ↔
    tree = build side color near value far := by
  cases tree <;> cases side <;> simp [split, build, and_comm, and_assoc, and_left_comm]

@[simp] theorem split_build :
    (build side color near value far).split side = some (color, near, value, far) :=
  split_eq_some.mpr rfl

@[simp] theorem color_build : (build side color near value far).color = color := by
  cases side <;> rfl

@[simp] theorem blacken_build :
    (build side color near value far).blacken = build side .black near value far := by
  cases side <;> rfl

@[simp] theorem inorder_blacken : tree.blacken.inorder = tree.inorder := by
  cases tree <;> rfl

@[simp] theorem color_blacken : tree.blacken.color = .black := by
  cases tree <;> rfl

lemma inorder_build : (build side color near value far).inorder =
    match side with
    | .left => near.inorder ++ value :: far.inorder
    | .right => far.inorder ++ value :: near.inorder := by
  cases side <;> rfl

@[simp] theorem redBlack_build_red : (build side .red near value far).RedBlack height ↔
    near.color = .black ∧ far.color = .black ∧ near.RedBlack height ∧ far.RedBlack height := by
  cases side
  · rfl
  · show far.color = .black ∧ near.color = .black ∧ far.RedBlack height ∧ near.RedBlack height ↔ _
    tauto

@[simp] theorem redBlack_build_black : (build side .black near value far).RedBlack (height + 1) ↔
    near.RedBlack height ∧ far.RedBlack height := by
  cases side <;> simp [build, RedBlack, and_comm]

lemma redBlack_black_cases (built : (build side .black near value far).RedBlack height) :
    ∃ below, height = below + 1 ∧ near.RedBlack below ∧ far.RedBlack below := by
  cases side with
  | left => exact built
  | right =>
    obtain ⟨below, exact_, leftPart, rightPart⟩ := built
    exact ⟨below, exact_, rightPart, leftPart⟩

lemma exists_build (side : Side) (redBlack : tree.RedBlack (height + 1)) :
    ∃ color near value far, tree = build side color near value far := by
  cases tree with
  | leaf => exact absurd redBlack (Nat.succ_ne_zero height)
  | node color left value right =>
    cases side with
    | left => exact ⟨color, left, value, right, rfl⟩
    | right => exact ⟨color, right, value, left, rfl⟩

lemma exists_build_of_red (side : Side) (isRed : tree.color = .red) :
    ∃ near value far, tree = build side .red near value far := by
  cases tree with
  | leaf => cases isRed
  | node color left value right =>
    cases isRed
    cases side with
    | left => exact ⟨left, value, right, rfl⟩
    | right => exact ⟨right, value, left, rfl⟩

lemma redBlack_blacken_of_red (isRed : tree.color = .red) (redBlack : tree.RedBlack height) :
    tree.blacken.RedBlack (height + 1) := by
  obtain ⟨_, _, _, rfl⟩ := exists_build_of_red .left isRed
  rw [redBlack_build_red] at redBlack
  rw [blacken_build, redBlack_build_black]
  exact redBlack.2.2

lemma blacken_of_black (isBlack : tree.color = .black) : tree.blacken = tree := by
  cases tree with
  | leaf => rfl
  | node color left value right =>
    cases isBlack
    rfl

lemma isRedBlack_blacken (redBlack : tree.RedBlack height) : tree.blacken.IsRedBlack := by
  refine ⟨color_blacken, ?_⟩
  cases isRed : tree.color with
  | red => exact ⟨height + 1, redBlack_blacken_of_red isRed redBlack⟩
  | black => exact ⟨height, by rwa [blacken_of_black isRed]⟩

end ColorTree

open ColorTree

structure Frame (α : Type*) where
  side : Side
  color : Color
  value : α
  sibling : ColorTree α

namespace Frame

def plug (frame : Frame α) (tree : ColorTree α) : ColorTree α :=
  build frame.side frame.color tree frame.value frame.sibling

def before (frame : Frame α) : List α :=
  match frame.side with
  | .left => []
  | .right => frame.sibling.inorder ++ [frame.value]

def behind (frame : Frame α) : List α :=
  match frame.side with
  | .left => frame.value :: frame.sibling.inorder
  | .right => []

lemma inorder_plug (frame : Frame α) (tree : ColorTree α) :
    (frame.plug tree).inorder = frame.before ++ tree.inorder ++ frame.behind := by
  obtain ⟨side, _, _, _⟩ := frame
  cases side <;> simp [plug, build, inorder, before, behind]

end Frame

def plug : List (Frame α) → ColorTree α → ColorTree α
  | [], tree => tree
  | frame :: rest, tree => plug rest (frame.plug tree)

def before : List (Frame α) → List α
  | [] => []
  | frame :: rest => before rest ++ frame.before

def behind : List (Frame α) → List α
  | [] => []
  | frame :: rest => frame.behind ++ behind rest

def above : List (Frame α) → Color
  | [] => .red
  | frame :: _ => frame.color

def Surrounds : List (Frame α) → Nat → Prop
  | [], _ => True
  | frame :: rest, height =>
      frame.sibling.RedBlack height ∧
        match frame.color with
        | .red => frame.sibling.color = .black ∧ above rest = .black ∧ Surrounds rest height
        | .black => Surrounds rest (height + 1)

variable {frames rest : List (Frame α)} {frame : Frame α} {tree : ColorTree α} {height : Nat}

section

variable (inner outer : List (Frame α))
include inner outer

lemma plug_append (tree : ColorTree α) :
    plug (inner ++ outer) tree = plug outer (plug inner tree) := by
  induction inner generalizing tree with
  | nil => rfl
  | cons frame rest ih => exact ih _

lemma before_append : before (inner ++ outer) = before outer ++ before inner := by
  induction inner with
  | nil => simp [before]
  | cons frame rest ih => simp [before, ih]

lemma behind_append : behind (inner ++ outer) = behind inner ++ behind outer := by
  induction inner with
  | nil => simp [behind]
  | cons frame rest ih => simp [behind, ih]

end

lemma inorder_plug (frames : List (Frame α)) (tree : ColorTree α) :
    (plug frames tree).inorder = before frames ++ tree.inorder ++ behind frames := by
  induction frames generalizing tree with
  | nil => simp [plug, before, behind]
  | cons frame rest ih =>
    rw [plug, ih, Frame.inorder_plug, before, behind]
    simp only [append_assoc]

@[simp] theorem above_cons : above (frame :: rest) = frame.color := rfl

lemma surrounds_red (isRed : frame.color = .red) : Surrounds (frame :: rest) height ↔
    frame.sibling.RedBlack height ∧ frame.sibling.color = .black ∧ above rest = .black ∧
      Surrounds rest height := by
  simp only [Surrounds, isRed]

lemma surrounds_black (isBlack : frame.color = .black) : Surrounds (frame :: rest) height ↔
    frame.sibling.RedBlack height ∧ Surrounds rest (height + 1) := by
  simp only [Surrounds, isBlack]

lemma Surrounds.sibling (surrounds : Surrounds (frame :: rest) height) :
    frame.sibling.RedBlack height :=
  surrounds.1

lemma isRedBlack_plug : (plug frames tree).IsRedBlack ↔
    (above frames = .red → tree.color = .black) ∧
      ∃ height, tree.RedBlack height ∧ Surrounds frames height := by
  induction frames generalizing tree with
  | nil => simp [plug, above, Surrounds, IsRedBlack]
  | cons frame rest ih =>
    rw [plug, ih]
    simp only [Frame.plug, color_build, above_cons]
    cases color : frame.color with
    | red =>
      simp only [surrounds_red color, redBlack_build_red, true_implies]
      constructor
      · rintro ⟨aboveBlack, height, ⟨treeBlack, siblingBlack, treeFits, siblingFits⟩, around⟩
        refine ⟨treeBlack, height, treeFits, siblingFits, siblingBlack, ?_, around⟩
        cases aboveColor : above rest with
        | red => cases aboveBlack aboveColor
        | black => rfl
      · rintro ⟨treeBlack, height, treeFits, siblingFits, siblingBlack, aboveBlack, around⟩
        refine ⟨?_, height, ⟨treeBlack, siblingBlack, treeFits, siblingFits⟩, around⟩
        rw [aboveBlack]
        exact Eq.symm
    | black =>
      simp only [surrounds_black color, reduceCtorEq, false_implies, true_and, implies_true]
      constructor
      · rintro ⟨height, built, around⟩
        obtain ⟨below, rfl, treeFits, siblingFits⟩ := redBlack_black_cases built
        exact ⟨below, treeFits, siblingFits, around⟩
      · rintro ⟨height, treeFits, siblingFits, around⟩
        exact ⟨height + 1, redBlack_build_black.mpr ⟨treeFits, siblingFits⟩, around⟩

section Search

variable (direction : α → Option Side)

def seek : ColorTree α → List (Frame α) → Option (List (Frame α))
  | .leaf, frames => some frames
  | .node color left value right, frames =>
      match direction value with
      | none => none
      | some .left => seek left (⟨.left, color, value, right⟩ :: frames)
      | some .right => seek right (⟨.right, color, value, left⟩ :: frames)

def searched : ColorTree α → List α
  | .leaf => []
  | .node _ left value right =>
      value ::
        match direction value with
        | none => []
        | some .left => searched left
        | some .right => searched right

variable {direction} {found : List (Frame α)}

lemma mem_inorder_of_searched {value : α} (asked : value ∈ searched direction tree) :
    value ∈ tree.inorder := by
  induction tree with
  | leaf => exact asked
  | node color left root right ihLeft ihRight =>
    unfold searched at asked
    unfold inorder
    rcases mem_cons.mp asked with atRoot | below
    · simp [atRoot]
    split at below
    · cases below
    · simp [ihLeft below]
    · simp [ihRight below]

lemma redBlack_bounds (redBlack : tree.RedBlack height) : 2 ^ height ≤ tree.inorder.length + 1 ∧
    (searched direction tree).length ≤ 2 * height + if tree.color = .red then 1 else 0 := by
  induction tree generalizing height with
  | leaf => simp_all [RedBlack, searched]
  | node color left value right ihLeft ihRight =>
    simp only [inorder, searched, length_append, length_cons]
    cases color with
    | red =>
      -- the children of a red node are black
      obtain ⟨leftBlack, rightBlack, leftFits, rightFits⟩ := redBlack
      have inLeft := ihLeft leftFits
      have inRight := ihRight rightFits
      simp only [leftBlack, rightBlack] at inLeft inRight
      exact ⟨by omega, by split <;> simp_all [ColorTree.color]⟩
    | black =>
      obtain ⟨below, rfl, leftFits, rightFits⟩ := redBlack
      have inLeft := ihLeft leftFits
      have inRight := ihRight rightFits
      exact ⟨by omega, by split <;> split_ifs at * <;> simp <;> omega⟩

lemma two_pow_searched_le (fits : tree.IsRedBlack) :
    2 ^ (searched direction tree).length ≤ (tree.inorder.length + 1) ^ 2 := by
  obtain ⟨isBlack, height, redBlack⟩ := fits
  obtain ⟨full, short⟩ := @redBlack_bounds _ _ _ direction redBlack
  rw [isBlack, if_neg (by decide)] at short
  calc 2 ^ (searched direction tree).length ≤ 2 ^ (2 * height) :=
        Nat.pow_le_pow_right two_pos short
    _ = (2 ^ height) ^ 2 := by rw [Nat.mul_comm, pow_mul]
    _ ≤ _ := Nat.pow_le_pow_left full 2

lemma seek_eq_none_iff : seek direction tree frames = none ↔
    ∃ value ∈ searched direction tree, direction value = none := by
  induction tree generalizing frames with
  | leaf => simp [seek, searched]
  | node color left root right ihLeft ihRight =>
    unfold seek searched
    cases turn : direction root with
    | none => simp [turn]
    | some side =>
      cases side with
      | left => simp [turn, ihLeft]
      | right => simp [turn, ihRight]

lemma plug_seek (hit : seek direction tree frames = some found) :
    plug found .leaf = plug frames tree := by
  induction tree generalizing frames with
  | leaf =>
    cases hit
    rfl
  | node color left root right ihLeft ihRight =>
    unfold seek at hit
    split at hit
    · cases hit
    · rw [ihLeft hit]
      rfl
    · rw [ihRight hit]
      rfl

lemma pair_sublist_of_mem {value other : α} {left right : List α} (behind_ : other ∈ right) :
    [value, other].Sublist (left ++ value :: right) :=
  ((singleton_sublist.mpr behind_).cons_cons value).trans (sublist_append_right left _)

lemma pair_sublist_of_mem_left {value other : α} {left right : List α} (before_ : other ∈ left) :
    [other, value].Sublist (left ++ value :: right) :=
  (singleton_sublist.mpr before_).append
    ((nil_sublist right).cons_cons value)

lemma seek_sides (hit : seek direction tree frames = some found) :
    ∃ inner, found = inner ++ frames ∧ (∀ value ∈ before inner, ∃ turn ∈ searched direction tree,
        direction turn = some .right ∧ (value = turn ∨ [value, turn].Sublist tree.inorder)) ∧
      ∀ value ∈ behind inner, ∃ turn ∈ searched direction tree,
        direction turn = some .left ∧ (value = turn ∨ [turn, value].Sublist tree.inorder) := by
  induction tree generalizing frames with
  | leaf =>
    cases hit
    exact ⟨[], rfl, by simp [before], by simp [behind]⟩
  | node color left root right ihLeft ihRight =>
    unfold seek at hit
    unfold searched inorder
    cases turn : direction root with
    | none =>
      rw [turn] at hit
      cases hit
    | some side =>
      rw [turn] at hit
      cases side with
      | left =>
        obtain ⟨inner, split, beforeTurns, behindTurns⟩ := ihLeft hit
        refine ⟨inner ++ [⟨.left, color, root, right⟩], by simp [split], ?_, ?_⟩
        · intro value mem
          simp only [before_append, before, Frame.before, append_nil, nil_append] at mem
          obtain ⟨at_, asked, goesRight, place⟩ := beforeTurns value mem
          refine ⟨at_, mem_cons_of_mem _ asked, goesRight, ?_⟩
          exact place.imp_right fun pair => pair.trans (sublist_append_left _ _)
        intro value mem
        simp only [behind_append, behind, Frame.behind, append_nil, mem_append] at mem
        rcases mem with inside | out
        · obtain ⟨at_, asked, goesLeft, place⟩ := behindTurns value inside
          refine ⟨at_, mem_cons_of_mem _ asked, goesLeft, ?_⟩
          exact place.imp_right fun pair => pair.trans (sublist_append_left _ _)
        · refine ⟨root, mem_cons_self, turn, ?_⟩
          exact (mem_cons.mp out).imp_right pair_sublist_of_mem
      | right =>
        obtain ⟨inner, split, beforeTurns, behindTurns⟩ := ihRight hit
        have tail : right.inorder.Sublist (left.inorder ++ root :: right.inorder) :=
          (sublist_cons_self root _).trans (sublist_append_right _ _)
        refine ⟨inner ++ [⟨.right, color, root, left⟩], by simp [split], ?_, ?_⟩
        · intro value mem
          simp only [before_append, before, Frame.before, nil_append,
            mem_append, mem_singleton] at mem
          rcases mem with (out | atRoot) | inside
          · exact ⟨root, mem_cons_self, turn, .inr (pair_sublist_of_mem_left out)⟩
          · exact ⟨root, mem_cons_self, turn, .inl atRoot⟩
          obtain ⟨at_, asked, goesRight, place⟩ := beforeTurns value inside
          refine ⟨at_, mem_cons_of_mem _ asked, goesRight, ?_⟩
          exact place.imp_right fun pair => pair.trans tail
        · intro value mem
          simp only [behind_append, behind, Frame.behind, append_nil] at mem
          obtain ⟨at_, asked, goesLeft, place⟩ := behindTurns value mem
          refine ⟨at_, mem_cons_of_mem _ asked, goesLeft, ?_⟩
          exact place.imp_right fun pair => pair.trans tail

lemma seek_turns (hit : seek direction tree frames = some found) :
    ∃ inner, found = inner ++ frames ∧ ∀ turn ∈ searched direction tree,
      (direction turn = some .right → turn ∈ before inner) ∧
        (direction turn = some .left → turn ∈ behind inner) := by
  induction tree generalizing frames with
  | leaf =>
    cases hit
    exact ⟨[], rfl, by simp [searched]⟩
  | node color left root right ihLeft ihRight =>
    unfold seek at hit
    unfold searched
    cases turned : direction root with
    | none =>
      rw [turned] at hit
      cases hit
    | some side =>
      rw [turned] at hit
      cases side with
      | left =>
        obtain ⟨inner, split, sides⟩ := ihLeft hit
        refine ⟨inner ++ [⟨.left, color, root, right⟩], by simp [split], ?_⟩
        intro turn asked
        simp only [before_append, behind_append, before, behind, Frame.before, Frame.behind,
          append_nil, nil_append, mem_append]
        rcases mem_cons.mp asked with rfl | below
        · simp [turned]
        · exact ⟨(sides turn below).1, fun goesLeft => .inl ((sides turn below).2 goesLeft)⟩
      | right =>
        obtain ⟨inner, split, sides⟩ := ihRight hit
        refine ⟨inner ++ [⟨.right, color, root, left⟩], by simp [split], ?_⟩
        intro turn asked
        simp only [before_append, behind_append, before, behind, Frame.before, Frame.behind,
          append_nil, nil_append, mem_append]
        rcases mem_cons.mp asked with rfl | below
        · simp [turned]
        · exact ⟨fun goesRight => .inr ((sides turn below).1 goesRight), (sides turn below).2⟩

lemma searched_stop {stop turn : α} (stopAsked : stop ∈ searched direction tree)
    (stops : direction stop = none) (turnAsked : turn ∈ searched direction tree) :
    (direction turn = some .left → [stop, turn].Sublist tree.inorder) ∧
      (direction turn = some .right → [turn, stop].Sublist tree.inorder) := by
  induction tree with
  | leaf => cases stopAsked
  | node color left root right ihLeft ihRight =>
    unfold searched at stopAsked turnAsked
    unfold inorder
    cases turned : direction root with
    | none =>
      simp only [turned, mem_singleton] at turnAsked
      rw [turnAsked, turned]
      exact ⟨nofun, nofun⟩
    | some side =>
      have notRoot : stop ≠ root := by
        rintro rfl
        rw [stops] at turned
        cases turned
      have stopBelow := (mem_cons.mp stopAsked).resolve_left notRoot
      rw [turned] at stopBelow turnAsked
      cases side with
      | left =>
        rcases mem_cons.mp turnAsked with rfl | below
        · rw [turned]
          exact ⟨fun _ => pair_sublist_of_mem_left (mem_inorder_of_searched stopBelow), nofun⟩
        have inner := ihLeft stopBelow below
        exact ⟨fun goes => (inner.1 goes).trans (sublist_append_left _ _),
          fun goes => (inner.2 goes).trans (sublist_append_left _ _)⟩
      | right =>
        have tail : right.inorder.Sublist (left.inorder ++ root :: right.inorder) :=
          (sublist_cons_self root _).trans (sublist_append_right _ _)
        rcases mem_cons.mp turnAsked with rfl | below
        · rw [turned]
          exact ⟨nofun, fun _ => pair_sublist_of_mem (mem_inorder_of_searched stopBelow)⟩
        · have inner := ihRight stopBelow below
          exact ⟨fun goes => (inner.1 goes).trans tail, fun goes => (inner.2 goes).trans tail⟩

end Search

end PrettyOS.Library.RedBlackTree
