import PrettyOS.Mm.AvlOps

/-!
Contract: the consistency check of the tree in `mm/mmap.c`.

The message texts name the caller, which is left out; what is printed about the tree is
kept.
-/

namespace PrettyOS.Mm

open Library.AvlTree List HeightTree

inductive AvlComplaint where
  | heightsInconsistent
  | leftKey (key topKey : Nat)
  | rightKey (key topKey : Nat)
deriving DecidableEq, Repr

def heightsMessage (h hl hr : Nat) : List AvlComplaint :=
  if (h = hl + 1 ∧ hr ≤ hl ∧ hl ≤ hr + 1) ∨ (h = hr + 1 ∧ hl ≤ hr ∧ hr ≤ hl + 1) then []
  else [.heightsInconsistent]

def avlCheckheights (a : Avl) : (fuel tree : Nat) → Option (List AvlComplaint)
  | 0, _ => none
  | fuel + 1, tree =>
      if tree = 0 then
        some []
      else do
        let left ← avlCheckheights a fuel (a.child .left tree)
        let right ← avlCheckheights a fuel (a.child .right tree)
        some (left ++ right ++ heightsMessage (a.height tree) (a.heightof (a.child .left tree))
          (a.heightof (a.child .right tree)))

def avlCheckkeys (a : Avl) (vmEnd : Nat → Nat) (fine : Nat → Bool) (message : Nat → AvlComplaint) :
    (fuel tree : Nat) → Option (List AvlComplaint)
  | 0, _ => none
  | fuel + 1, tree =>
      if tree = 0 then
        some []
      else do
        let left ← avlCheckkeys a vmEnd fine message fuel (a.child .left tree)
        let right ← avlCheckkeys a vmEnd fine message fuel (a.child .right tree)
        some (left ++ right ++ if fine (vmEnd tree) then [] else [message (vmEnd tree)])

def avlCheckleft (a : Avl) (vmEnd : Nat → Nat) (key : Nat) :
    (fuel tree : Nat) → Option (List AvlComplaint) :=
  avlCheckkeys a vmEnd (fun other => other < key) (fun other => .leftKey other key)

def avlCheckright (a : Avl) (vmEnd : Nat → Nat) (key : Nat) :
    (fuel tree : Nat) → Option (List AvlComplaint) :=
  avlCheckkeys a vmEnd (fun other => other > key) (fun other => .rightKey other key)

def avlCheckorder (a : Avl) (vmEnd : Nat → Nat) :
    (fuel tree : Nat) → Option (List AvlComplaint)
  | 0, _ => none
  | fuel + 1, tree =>
      if tree = 0 then
        some []
      else do
        let left ← avlCheckorder a vmEnd fuel (a.child .left tree)
        let right ← avlCheckorder a vmEnd fuel (a.child .right tree)
        let below ← avlCheckleft a vmEnd (vmEnd tree) fuel (a.child .left tree)
        let above ← avlCheckright a vmEnd (vmEnd tree) fuel (a.child .right tree)
        some (left ++ right ++ below ++ above)

def avlCheck (fuel : Nat) (vmEnd : Nat → Nat) (a : Avl) : Option (List AvlComplaint) := do
  let heights ← avlCheckheights a fuel a.root
  let order ← avlCheckorder a vmEnd fuel a.root
  some (heights ++ order)

namespace Avl

variable {a : Avl} {vmEnd : Nat → Nat} {fuel : Nat} {tree : HeightTree Nat}

lemma avlCheckheights_spec (reps : a.Represents tree) (enough : tree.inorder.length < fuel) :
    ∃ printed, avlCheckheights a fuel (pointer tree) = some printed ∧
      (printed = [] ↔ tree.Balanced) := by
  induction tree, fuel, enough using fuelInduction with
  | leaf =>
    exact ⟨[], rfl, iff_of_true rfl trivial⟩
  | node fuel height left area right ihLeft ihRight =>
    obtain ⟨ne0, measured, lLink, rLink, lTree, rTree⟩ := reps
    obtain ⟨leftPrinted, leftResult, leftSilent⟩ := ihLeft lTree
    obtain ⟨rightPrinted, rightResult, rightSilent⟩ := ihRight rTree
    refine ⟨leftPrinted ++ rightPrinted ++ heightsMessage height left.stored right.stored, ?_, ?_⟩
    · rw [avlCheckheights, pointer, if_neg ne0, lLink, rLink, leftResult, rightResult,
        measured, lTree.heightof_pointer, rTree.heightof_pointer]
      rfl
    rw [append_eq_nil_iff, append_eq_nil_iff, leftSilent, rightSilent,
      HeightTree.Balanced, heightsMessage, ite_eq_left_iff]
    simp only [cons_ne_nil, imp_false, not_not]
    constructor
    · rintro ⟨⟨balL, balR⟩, _⟩
      exact ⟨by omega, by omega, by omega, balL, balR⟩
    · rintro ⟨exact, _, _, balL, balR⟩
      exact ⟨⟨balL, balR⟩, by omega⟩

lemma avlCheckkeys_spec (fine : Nat → Bool) (message : Nat → AvlComplaint)
    (reps : a.Represents tree) (enough : tree.inorder.length < fuel) :
    ∃ printed, avlCheckkeys a vmEnd fine message fuel (pointer tree) = some printed ∧
      (printed = [] ↔ ∀ area ∈ tree.inorder, fine (vmEnd area) = true) := by
  induction tree, fuel, enough using fuelInduction with
  | leaf =>
    exact ⟨[], rfl, iff_of_true rfl (by simp [inorder])⟩
  | node fuel height left area right ihLeft ihRight =>
    obtain ⟨ne0, -, lLink, rLink, lTree, rTree⟩ := reps
    obtain ⟨leftPrinted, leftResult, leftSilent⟩ := ihLeft lTree
    obtain ⟨rightPrinted, rightResult, rightSilent⟩ := ihRight rTree
    refine ⟨leftPrinted ++ rightPrinted ++ if fine (vmEnd area) then [] else
      [message (vmEnd area)], ?_, ?_⟩
    · rw [avlCheckkeys, pointer, if_neg ne0, lLink, rLink, leftResult, rightResult]
      rfl
    rw [append_eq_nil_iff, append_eq_nil_iff, leftSilent, rightSilent, inorder, ite_eq_left_iff]
    simp only [cons_ne_nil, imp_false, not_not, mem_append, mem_cons]
    constructor
    · rintro ⟨⟨inLeft, inRight⟩, here⟩ other (mem | rfl | mem)
      · exact inLeft other mem
      · exact here
      · exact inRight other mem
    · intro all
      exact ⟨⟨fun other mem => all other (.inl mem),
        fun other mem => all other (.inr (.inr mem))⟩, all area (.inr (.inl rfl))⟩

lemma avlCheckorder_spec (reps : a.Represents tree) (enough : tree.inorder.length < fuel) :
    ∃ printed, avlCheckorder a vmEnd fuel (pointer tree) = some printed ∧
      (printed = [] ↔ Ordered vmEnd tree) := by
  induction tree, fuel, enough using fuelInduction with
  | leaf =>
    exact ⟨[], rfl, iff_of_true rfl List.Pairwise.nil⟩
  | node fuel height left area right ihLeft ihRight =>
    obtain ⟨ne0, -, lLink, rLink, lTree, rTree⟩ := reps
    obtain ⟨leftPrinted, leftResult, leftSilent⟩ := ihLeft lTree
    obtain ⟨rightPrinted, rightResult, rightSilent⟩ := ihRight rTree
    obtain ⟨belowPrinted, belowResult, belowSilent⟩ := @avlCheckkeys_spec a vmEnd fuel left
      (fun other => other < vmEnd area) (fun other => .leftKey other (vmEnd area)) lTree
      (by omega)
    obtain ⟨abovePrinted, aboveResult, aboveSilent⟩ := @avlCheckkeys_spec a vmEnd fuel right
      (fun other => other > vmEnd area) (fun other => .rightKey other (vmEnd area)) rTree
      (by omega)
    refine ⟨leftPrinted ++ rightPrinted ++ belowPrinted ++ abovePrinted, ?_, ?_⟩
    · rw [avlCheckorder, pointer, if_neg ne0, lLink, rLink, leftResult, rightResult,
        avlCheckleft, avlCheckright, belowResult, aboveResult]
      rfl
    · simp only [append_eq_nil_iff, leftSilent, rightSilent, belowSilent, aboveSilent,
        ordered_node, decide_eq_true_eq, gt_iff_lt, and_assoc]

lemma avlCheck_silent_iff (holds : a.Holds tree) (enough : tree.inorder.length < fuel) :
    avlCheck fuel vmEnd a = some [] ↔ tree.Balanced ∧ Ordered vmEnd tree := by
  obtain ⟨heights, heightsResult, heightsSilent⟩ := avlCheckheights_spec holds.1 enough
  obtain ⟨order, orderResult, orderSilent⟩ := @avlCheckorder_spec a vmEnd _ _ holds.1 enough
  have res : avlCheck fuel vmEnd a = some (heights ++ order) := by
    rw [avlCheck, holds.2, heightsResult, orderResult]
    rfl
  rw [res, Option.some_inj, append_eq_nil_iff, heightsSilent, orderSilent]

end Avl

end PrettyOS.Mm
