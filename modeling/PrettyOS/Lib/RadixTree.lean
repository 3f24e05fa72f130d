import Mathlib
import PrettyOS.Library.DigitTree

/-!
Contract: `lib/radix-tree.c`, with the nodes in memory and the slab layer as a supply of objects.

What `kmem_get_obj` returns during a call is part of the state, in order; an answer is `NULL` or an
object with what its memory holds, and requests beyond the list get `NULL`.

A pointer is a number and `0` is `NULL`; the fields of a node are kept by its pointer.
-/

namespace PrettyOS.Lib

open Library.DigitTree (digit find)
open Function

def radixTreeMapSize : Nat := 16

def radixTreeSlotReserved : Nat := 2 ^ 32 - 1

structure NodeObject where
  pointer : Nat
  count : Nat
  slots : Nat → Nat

structure RadixTree where
  height : Nat
  rnode : Nat
  count : Nat → Nat
  slots : Nat → Nat → Nat
  supply : List (Option NodeObject)

inductive SlotAddress where
  | root
  | ofNode (node index : Nat)
deriving DecidableEq, Repr

namespace RadixTree

def readSlot (slot : SlotAddress) (t : RadixTree) : Nat :=
  match slot with
  | .root => t.rnode
  | .ofNode node index => t.slots node index

def writeSlot (slot : SlotAddress) (value : Nat) (t : RadixTree) : RadixTree :=
  match slot with
  | .root => { t with rnode := value }
  | .ofNode node index =>
      { t with slots := update t.slots node (update (t.slots node) index value) }

def countUp (node : Nat) (t : RadixTree) : RadixTree :=
  if node ≠ 0 then
    { t with count := update t.count node ((t.count node + 1) % 2 ^ 32) }
  else
    t

def clearObject (object : NodeObject) (t : RadixTree) : RadixTree :=
  { t with
    count := update t.count object.pointer 0
    slots := update t.slots object.pointer (update object.slots 0 0) }

def nodeAlloc (t : RadixTree) : Nat × RadixTree :=
  match t.supply with
  | [] => (0, t)
  | none :: rest => (0, { t with supply := rest })
  | some object :: rest => (object.pointer, clearObject object { t with supply := rest })

end RadixTree

open RadixTree (readSlot writeSlot countUp nodeAlloc)

def radixTreeMaxindex (height : Nat) : Nat :=
  let tmp := height * 4
  if 32 ≤ tmp then 2 ^ 32 - 1 else ((2 ^ 32 - 1) >>> (32 - tmp - 1)) >>> 1

def extendHeight (index : Nat) : (fuel height : Nat) → Nat
  | 0, height => height
  | fuel + 1, height =>
      if index > radixTreeMaxindex height then extendHeight index fuel (height + 1) else height

def pushRoot (node : Nat) (t : RadixTree) : RadixTree :=
  let filled := writeSlot (.ofNode node 0) t.rnode t
  { filled with
    count := if t.rnode ≠ 0 then update t.count node 1 else t.count
    rnode := node
    height := t.height + 1 }

def growRoot : (left : Nat) → RadixTree → Int × RadixTree
  | 0, t => (0, t)
  | left + 1, t =>
      let node := (nodeAlloc t).1
      let allocated := (nodeAlloc t).2
      if node = 0 then (-2, allocated) else growRoot left (pushRoot node allocated)

def radixTreeExtend (index : Nat) (t : RadixTree) : Int × RadixTree :=
  let height := extendHeight index 8 (t.height + 1)
  if t.rnode ≠ 0 then growRoot (height - t.height) t else (0, { t with height := height })

def addChild (node : Nat) (slot : SlotAddress) (t : RadixTree) : Bool × RadixTree :=
  if readSlot slot t = 0 then
    let tmp := (nodeAlloc t).1
    let allocated := (nodeAlloc t).2
    if tmp = 0 then (false, allocated) else (true, countUp node (writeSlot slot tmp allocated))
  else
    (true, t)

def reserveWalk (index : Nat) :
    (height node : Nat) → SlotAddress → RadixTree → Option (Nat × SlotAddress) × RadixTree
  | 0, node, slot, t => (some (node, slot), t)
  | height + 1, node, slot, t =>
      let added := addChild node slot t
      if added.1 then
        let child := readSlot slot added.2
        reserveWalk index height child
          (.ofNode child (digit radixTreeMapSize height index)) added.2
      else
        (none, added.2)

def reserveSlot (index : Nat) (t : RadixTree) : Int × Option SlotAddress × RadixTree :=
  let walked := reserveWalk index t.height 0 .root t
  match walked.1 with
  | none => (-2, none, walked.2)
  | some (node, slot) =>
      if readSlot slot walked.2 ≠ 0 then
        (-3, none, walked.2)
      else
        (0, some slot, writeSlot slot radixTreeSlotReserved (countUp node walked.2))

def radixTreeReserve (index : Nat) (t : RadixTree) : Int × Option SlotAddress × RadixTree :=
  if index > radixTreeMaxindex t.height then
    let extended := radixTreeExtend index t
    if extended.1 ≠ 0 then (extended.1, none, extended.2) else reserveSlot index extended.2
  else
    reserveSlot index t

def radixTreeInsert (index item : Nat) (t : RadixTree) : Int × RadixTree :=
  let reserved := radixTreeReserve index t
  match reserved.2.1 with
  | none => (reserved.1, reserved.2.2)
  | some slot => (reserved.1, writeSlot slot item reserved.2.2)

def radixTreeLookup (index : Nat) (t : RadixTree) : Nat :=
  if index > radixTreeMaxindex t.height then 0
  else find radixTreeMapSize t.slots t.height t.rnode index

def initRadixTree (t : RadixTree) : RadixTree := { t with height := 0, rnode := 0 }

end PrettyOS.Lib
