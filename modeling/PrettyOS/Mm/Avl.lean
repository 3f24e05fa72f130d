import PrettyOS.Library.AvlTree

/-!
Contract: the tree operations of `mm/mmap.c` on the links stored in the areas.

A `struct vm_area_struct *` is a number and `0` is `avl_empty`. Each field of the
structure is a map from pointers, so a write to one field leaves the others alone. The
key `vm_end` is only read here and is a parameter. The stack of places is a list
without the bound `avl_maxheight`. The descents follow pointers until they find an
empty one; `fuel` bounds their number of steps, and `none` is a descent that did not
end.
-/

namespace PrettyOS.Mm

open Library.AvlTree Function

structure Avl where
  child : Side → Nat → Nat
  height : Nat → Nat
  root : Nat

inductive Place where
  | root
  | child (side : Side) (node : Nat)
deriving DecidableEq, Repr

namespace Avl

def setChild (a : Avl) (side : Side) (node tree : Nat) : Avl :=
  { a with child := update a.child side (update (a.child side) node tree) }

def setHeight (a : Avl) (node height : Nat) : Avl :=
  { a with height := update a.height node height }

def load (a : Avl) : Place → Nat
  | .root => a.root
  | .child side node => a.child side node

def store (a : Avl) (place : Place) (tree : Nat) : Avl :=
  match place with
  | .root => { a with root := tree }
  | .child side node => a.setChild side node tree

def heightof (a : Avl) (tree : Nat) : Nat :=
  if tree = 0 then 0 else a.height tree

end Avl

def avlRotate (side : Side) (nodeplace : Place) (a : Avl) : Avl :=
  let node := a.load nodeplace
  let near := a.child side node
  let outer := a.child side near
  let inner := a.child side.other near
  let heightNear := a.heightof near
  let heightInner := a.heightof inner
  if heightInner ≤ a.heightof outer then
    let linked := (a.setChild side node inner).setChild side.other near node
    let measured := (linked.setHeight node (1 + heightInner)).setHeight near
      (1 + (1 + heightInner))
    measured.store nodeplace near
  else
    let a1 := a.setChild side.other near (a.child side inner)
    let a2 := a1.setChild side node (a1.child side.other inner)
    let a3 := a2.setChild side inner near
    let a4 := a3.setChild side.other inner node
    let a5 := (a4.setHeight node heightInner).setHeight near heightInner
    let a6 := a5.setHeight inner heightNear
    a6.store nodeplace inner

def avlRebalance : List Place → Avl → Avl
  | [], a => a
  | nodeplace :: rest, a =>
      let node := a.load nodeplace
      let heightleft := a.heightof (a.child .left node)
      let heightright := a.heightof (a.child .right node)
      if heightright + 1 < heightleft then
        avlRebalance rest (avlRotate .left nodeplace a)
      else if heightleft + 1 < heightright then
        avlRebalance rest (avlRotate .right nodeplace a)
      else
        let height := max heightleft heightright + 1
        if height = a.height node then
          a
        else
          avlRebalance rest (a.setHeight node height)

structure Descent where
  nodeplace : Place
  stack : List Place
  toTheLeft : Nat
  toTheRight : Nat

def avlDescend (vmEnd : Nat → Nat) (key : Nat) (a : Avl) :
    (fuel : Nat) → Descent → Option Descent
  | 0, _ => none
  | fuel + 1, d =>
      let node := a.load d.nodeplace
      if node = 0 then
        some d
      else if key < vmEnd node then
        avlDescend vmEnd key a fuel
          ⟨.child .left node, d.stack ++ [d.nodeplace], d.toTheLeft, node⟩
      else
        avlDescend vmEnd key a fuel
          ⟨.child .right node, d.stack ++ [d.nodeplace], node, d.toTheRight⟩

def avlInsertNeighbours (fuel : Nat) (vmEnd : Nat → Nat) (newNode : Nat) (a : Avl) :
    Option ((Nat × Nat) × Avl) :=
  (avlDescend vmEnd (vmEnd newNode) a fuel ⟨.root, [], 0, 0⟩).map fun d =>
    let a1 := (a.setChild .left newNode 0).setChild .right newNode 0
    let a2 := (a1.setHeight newNode 1).store d.nodeplace newNode
    ((d.toTheLeft, d.toTheRight), avlRebalance d.stack.reverse a2)

def avlInsert (fuel : Nat) (vmEnd : Nat → Nat) (newNode : Nat) (a : Avl) : Option Avl :=
  (avlInsertNeighbours fuel vmEnd newNode a).map Prod.snd

inductive Search where
  | missing
  | found (nodeplace : Place) (stack : List Place)

def avlSearch (vmEnd : Nat → Nat) (key : Nat) (a : Avl) :
    (fuel : Nat) → Place → List Place → Option Search
  | 0, _, _ => none
  | fuel + 1, nodeplace, stack =>
      let node := a.load nodeplace
      if node = 0 then
        some .missing
      else if key = vmEnd node then
        some (.found nodeplace (stack ++ [nodeplace]))
      else if key < vmEnd node then
        avlSearch vmEnd key a fuel (.child .left node) (stack ++ [nodeplace])
      else
        avlSearch vmEnd key a fuel (.child .right node) (stack ++ [nodeplace])

def avlWalkRight (a : Avl) : (fuel : Nat) → Place → List Place → Option (Place × List Place)
  | 0, _, _ => none
  | fuel + 1, nodeplace, stack =>
      let node := a.load nodeplace
      if a.child .right node = 0 then
        some (nodeplace, stack)
      else
        avlWalkRight a fuel (.child .right node) (stack ++ [nodeplace])

def avlReplace (nodeToDelete : Nat) (placeToDelete nodeplace : Place) (a : Avl) : Avl :=
  let node := a.load nodeplace
  let a1 := a.store nodeplace (a.child .left node)
  let a2 := a1.setChild .left node (a1.child .left nodeToDelete)
  let a3 := a2.setChild .right node (a2.child .right nodeToDelete)
  let a4 := a3.setHeight node (a3.height nodeToDelete)
  a4.store placeToDelete node

def avlRemove (fuel : Nat) (vmEnd : Nat → Nat) (nodeToDelete : Nat) (a : Avl) : Option Avl :=
  match avlSearch vmEnd (vmEnd nodeToDelete) a fuel .root [] with
  | none => none
  | some .missing => some a
  | some (.found placeToDelete stack) =>
      if a.child .left nodeToDelete = 0 then
        let unlinked := a.store placeToDelete (a.child .right nodeToDelete)
        some (avlRebalance stack.dropLast.reverse unlinked)
      else
        (avlWalkRight a fuel (.child .left nodeToDelete) stack).map fun (nodeplace, walked) =>
          avlRebalance (walked.set stack.length (.child .left (a.load nodeplace))).reverse
            (avlReplace nodeToDelete placeToDelete nodeplace a)

def avlLocate (vmEnd : Nat → Nat) (key : Nat) (a : Avl) :
    (fuel tree toTheLeft toTheRight : Nat) → Option (Nat × Nat × Nat)
  | 0, _, _, _ => none
  | fuel + 1, tree, toTheLeft, toTheRight =>
      if tree = 0 ∨ key = vmEnd tree then
        some (tree, toTheLeft, toTheRight)
      else if key < vmEnd tree then
        avlLocate vmEnd key a fuel (a.child .left tree) toTheLeft tree
      else
        avlLocate vmEnd key a fuel (a.child .right tree) tree toTheRight

def avlExtreme (side : Side) (a : Avl) : (fuel node : Nat) → Option Nat
  | 0, _ => none
  | fuel + 1, node =>
      if a.child side node = 0 then some node else avlExtreme side a fuel (a.child side node)

def avlNearest (side : Side) (a : Avl) (fuel tree outer : Nat) : Option Nat :=
  if a.child side tree = 0 then some outer else avlExtreme side.other a fuel (a.child side tree)

def avlNeighbours (fuel : Nat) (vmEnd : Nat → Nat) (node : Nat) (a : Avl) : Option (Nat × Nat) :=
  match avlLocate vmEnd (vmEnd node) a fuel a.root 0 0 with
  | none => none
  | some (tree, toTheLeft, toTheRight) =>
      if tree = 0 ∨ tree ≠ node then
        some (toTheLeft, toTheRight)
      else do
        let left ← avlNearest .left a fuel tree toTheLeft
        let right ← avlNearest .right a fuel tree toTheRight
        some (left, right)

end PrettyOS.Mm
