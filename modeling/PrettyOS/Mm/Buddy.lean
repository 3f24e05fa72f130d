import PrettyOS.Lib.List
import PrettyOS.Library.Tiling
import PrettyOS.Mm.Page

/-!
Contract: the buddy lists of `mm/buddy.c`.

The checks for null pointers are left out because a frame number is never
null; the checks of the order are kept.
-/

namespace PrettyOS.Mm

open Lib Function
open Library.Tiling

structure BuddyList where
  list : List Nat
  nrFreePages : Int
deriving DecidableEq, Repr

structure Buddy where
  pages : Nat → Page
  buddyList : Nat → BuddyList

namespace Buddy

def list (s : Buddy) (order : Nat) : List Nat :=
  (s.buddyList order).list

def nrFree (s : Buddy) (order : Nat) : Int :=
  (s.buddyList order).nrFreePages

def setQueue (s : Buddy) (order : Nat) (ring : List Nat) (delta : Int) : Buddy :=
  { s with buddyList := update s.buddyList order ⟨ring, s.nrFree order + delta⟩ }

@[simp] theorem setQueue_pages (s : Buddy) (order : Nat) (ring : List Nat) (delta : Int) :
    (s.setQueue order ring delta).pages = s.pages := rfl

@[simp] theorem setQueue_list (s : Buddy) (order : Nat) (ring : List Nat) (delta : Int) :
    (s.setQueue order ring delta).list = update s.list order ring := by
  funext other
  by_cases same : other = order
  · subst same
    simp [setQueue, list]
  · simp [setQueue, list, same]

@[simp] theorem setQueue_nrFree (s : Buddy) (order : Nat) (ring : List Nat) (delta : Int) :
    (s.setQueue order ring delta).nrFree =
      update s.nrFree order (s.nrFree order + delta) := by
  funext other
  by_cases same : other = order
  · subst same
    simp [setQueue, nrFree]
  · simp [setQueue, nrFree, same]

end Buddy

def isPageclosed (s : Buddy) (prev next order : Nat) : Bool :=
  let prevAddress := (s.pages prev).address
  let nextAddress := (s.pages next).address
  let size := power order * pageSize
  (prevAddress + size) % wordSize == nextAddress ||
    (prevAddress + wordSize - size) % wordSize == nextAddress

def buddyListDel (order : Nat) (s : Buddy) : Except Int (Nat × Buddy) :=
  if nrMemLists ≤ order then
    .error (-1)
  else
    match listGetHeadDel (s.list order) with
    | none => .error (-2)
    | some (item, rest) => .ok (item, s.setQueue order rest (-1))

def buddyListAdd (page order : Nat) (s : Buddy) : Int × Buddy :=
  if nrMemLists ≤ order then
    (-1, s)
  else
    (0, s.setQueue order (listAddHead page (s.list order)) 1)

def insertLine (pages : Nat → Page) (page : Nat) : List Nat → List Nat
  | [] => []
  | pos :: rest =>
      if (pages page).address < (pages pos).address then
        page :: pos :: rest
      else if rest = [] then
        [pos, page]
      else
        pos :: insertLine pages page rest

def buddyListAddLine (page order : Nat) (s : Buddy) : Int × Buddy :=
  if nrMemLists ≤ order then
    (-1, s)
  else if listEmptyCareful (s.list order) then
    (0, s.setQueue order (listAddHead page (s.list order)) 1)
  else
    (0, s.setQueue order (insertLine s.pages page (s.list order)) 1)

def buddyListInit (s : Buddy) : Buddy :=
  { s with buddyList := fun _ => ⟨[], 0⟩ }

def tidyWalk (order : Nat) : List Nat → Buddy → Buddy
  | pos :: next :: rest, s =>
      if isPageclosed s pos next order then
        -- `n = pos->next->next`: the walk resumes behind the merged pair
        let unlinked := s.setQueue order (listDel pos (listDel next (s.list order))) (-2)
        tidyWalk order rest
          (unlinked.setQueue (order + 1) (listAddHead pos (unlinked.list (order + 1))) 1)
      else
        tidyWalk order (next :: rest) s
  | _, s => s

def tidyFrom : (left order : Nat) → Buddy → Buddy
  | 0, _, s => s
  | left + 1, order, s =>
      if s.nrFree order ≤ 0 then
        s
      else
        tidyFrom left (order + 1) (tidyWalk order (s.list order) s)

def buddyListTidy (s : Buddy) : Buddy :=
  tidyFrom (nrMemLists - 1) 0 s

namespace Buddy

def freeBlocks (s : Buddy) : List Block :=
  familyBlocks nrMemLists s.list

def freeFrames (s : Buddy) : Multiset Nat :=
  familyCells nrMemLists s.list

def Counted (s : Buddy) : Prop :=
  ∀ order < nrMemLists, s.nrFree order = (s.list order).length

def Aligned (s : Buddy) : Prop :=
  ∀ order < nrMemLists, ∀ page ∈ s.list order, 2 ^ order ∣ page

end Buddy

end PrettyOS.Mm
