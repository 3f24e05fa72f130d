import PrettyOS.Mm.Buddy

/-!
Contract: the page allocator of `mm/page_alloc.c`.

`get_free_pages` scans upwards with `while(queue->nr_free_pages == 0) ++queue`
and has no bound on the scan. Once the scan leaves `buddy_list` the C code reads
memory behind the array; the model stops there with `none`.
-/

namespace PrettyOS.Mm

open Lib
open Library.Tiling

inductive GetExit where
  /-- `return NULL`, the order is out of range. -/
  | null
  /-- `return page_address(page)`. -/
  | address (addr : Nat)
  /-- `return -3`, the ring of the requested order was empty. -/
  | takeFailed
  /-- `return -2`, the ring to split from was empty. -/
  | splitFailed
deriving DecidableEq, Repr

def GetExit.value : GetExit → Nat
  | .null => 0
  | .address addr => addr
  | .takeFailed => wordSize - 3
  | .splitFailed => wordSize - 2

def scanQueues (s : Buddy) : (left order : Nat) → Option Nat
  | 0, _ => none
  | left + 1, order =>
      if s.nrFree order = 0 then scanQueues s left (order + 1) else some order

def getFreePagesRepeat : (rounds order : Nat) → Buddy → Option (GetExit × Buddy)
  | 0, _, _ => none
  | rounds + 1, order, s =>
      if 0 < s.nrFree order then
        match buddyListDel order s with
        | .error _ => some (.takeFailed, s)
        | .ok (page, taken) => some (.address (taken.pages page).address, taken)
      else
        match scanQueues s (nrMemLists - order) order with
        | none => none
        | some newOrder =>
            match buddyListDel newOrder s with
            | .error _ => some (.splitFailed, s)
            | .ok (page, taken) =>
                match newOrder with
                | 0 => none
                | half + 1 =>
                    let lower := (buddyListAdd page half taken).2
                    let both := (buddyListAdd (page + power half) half lower).2
                    getFreePagesRepeat rounds order both

def getFreePages (order : Nat) (s : Buddy) : Option (GetExit × Buddy) :=
  if nrMemLists ≤ order then
    some (.null, s)
  else
    getFreePagesRepeat nrMemLists order s

def freePagesOk (page order : Nat) (s : Buddy) : Int × Buddy :=
  if nrMemLists ≤ order then
    (-1, s)
  else
    let (code, linked) := buddyListAddLine page order s
    if code < 0 then (-2, linked) else (0, linked)

def freePages (page : Option Nat) (order : Nat) (s : Buddy) : Int × Buddy :=
  match page with
  | none => (-1, s)
  | some page =>
      if nrMemLists ≤ order then
        (-1, s)
      else if (s.pages page).flags &&& sysRam ≠ 0 then
        let (code, linked) := freePagesOk page order s
        if code < 0 then (-2, linked) else (0, linked)
      else
        (0, s)

structure Zone where
  buddy : Buddy
  outstanding : List Block

namespace Zone

def getPages (order : Nat) (z : Zone) : Option (GetExit × Zone) :=
  match getFreePages order z.buddy with
  | none => none
  | some (.address addr, buddy) =>
      some (.address addr, ⟨buddy, ⟨mapNr addr, order⟩ :: z.outstanding⟩)
  | some (exit, buddy) => some (exit, { z with buddy })

def putPages (block : Block) (z : Zone) : Zone :=
  ⟨(freePages (some block.start) block.order z.buddy).2, z.outstanding.erase block⟩

def Available (z : Zone) (order : Nat) : Prop :=
  ∃ higher, order ≤ higher ∧ higher < nrMemLists ∧ z.buddy.list higher ≠ []

inductive Step : Zone → Zone → Prop
  | get {z next : Zone} {order : Nat} {exit : GetExit} (inRange : order < nrMemLists)
      (available : z.Available order) (returns : z.getPages order = some (exit, next)) :
      Step z next
  | free {z : Zone} {block : Block} (held : block ∈ z.outstanding) :
      Step z (z.putPages block)

def Reaches : Zone → Zone → Prop :=
  Relation.ReflTransGen Step

end Zone

end PrettyOS.Mm
