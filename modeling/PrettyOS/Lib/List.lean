import Mathlib

/-!
Contract: the ring operations of `lib/list.c`, on the sequence of entries a
ring holds.

A ring is read from `head->next` on; its head is not an entry. The macro names
of `list.h` are kept where they differ from the function they expand to:
`list_add` is `list_add_head`, which links the item before the head and so
makes it the last entry.
-/

namespace PrettyOS.Lib

variable {α : Type}

def listAddHead (item : α) (ring : List α) : List α :=
  ring ++ [item]

def listAddTail (item : α) (ring : List α) : List α :=
  item :: ring

def listDel [DecidableEq α] (entry : α) (ring : List α) : List α :=
  ring.erase entry

def listGetHeadDel : List α → Option (α × List α)
  | [] => none
  | entry :: rest => some (entry, rest)

def listGetTail (ring : List α) : Option α :=
  ring.getLast?

def listEmptyCareful (ring : List α) : Bool :=
  ring.isEmpty

lemma listDel_append_cons [DecidableEq α] {entry : α} {before after : List α}
    (absent : entry ∉ before) : listDel entry (before ++ entry :: after) = before ++ after := by
  unfold listDel
  rw [List.erase_append_right _ absent, List.erase_cons_head]

end PrettyOS.Lib
