import Mathlib.Data.Nat.Basic
import Mathlib.Tactic.Common
import Mathlib.Algebra.Order.Group.Nat

/-!
Contract: trees that find a key by its digits, with the nodes in memory.

A node is a nonzero number and has one slot for each digit. A slot holds 0, a node, or on the
lowest level whatever is stored for a key.
-/

namespace PrettyOS.Library.DigitTree

def digit (width level key : Nat) : Nat := key / width ^ level % width

def find (width : Nat) (slots : Nat → Nat → Nat) : (levels value key : Nat) → Nat
  | 0, value, _ => value
  | levels + 1, value, key =>
      if value = 0 then 0
      else find width slots levels (slots value (digit width levels key)) key

def Points (place : Nat → Option (Nat × Nat)) (level lead value : Nat) : Prop :=
  value = 0 ∨ level = 0 ∨ place value = some (level, lead)

def Closed (width : Nat) (place : Nat → Option (Nat × Nat)) (slots : Nat → Nat → Nat) : Prop :=
  ∀ node level lead d, place node = some (level + 1, lead) → d < width →
    Points place level (width * lead + d) (slots node d)

variable {width level levels key node value : Nat} {place : Nat → Option (Nat × Nat)}
  {slots others : Nat → Nat → Nat}

lemma lead_eq (width level key : Nat) :
    key / width ^ level = width * (key / width ^ (level + 1)) + digit width level key := by
  rw [digit, Nat.pow_succ, ← Nat.div_div_eq_div_mul, Nat.div_add_mod]

lemma digit_lt (pos : 0 < width) (level key : Nat) : digit width level key < width :=
  Nat.mod_lt _ pos

lemma place_unique {lead level' lead' : Nat} (known : place node = some (level, lead))
    (again : place node = some (level', lead')) : level = level' ∧ lead = lead' := by
  rw [known] at again
  exact Prod.mk.inj (Option.some.inj again)

lemma ne_of_placed {new : Nat} {position : Nat × Nat} (known : place node = some position)
    (unplaced : place new = none) : node ≠ new := by
  intro same
  rw [same, unplaced] at known
  cases known

lemma find_zero (width : Nat) (slots : Nat → Nat → Nat) (levels key : Nat) :
    find width slots levels 0 key = 0 := by
  cases levels with
  | zero => rfl
  | succ levels => exact if_pos rfl

lemma find_succ (ne0 : value ≠ 0) :
    find width slots (levels + 1) value key =
      find width slots levels (slots value (digit width levels key)) key :=
  if_neg ne0

lemma Closed.points (closed : Closed width place slots) (pos : 0 < width)
    (placed : place node = some (level + 1, key / width ^ (level + 1))) :
    Points place level (key / width ^ level) (slots node (digit width level key)) := by
  rw [lead_eq]
  exact closed node level _ _ placed (digit_lt pos level key)

lemma find_eq (closed : Closed width place slots) (pos : 0 < width)
    (change : ∀ node level, place node = some (level + 1, key / width ^ (level + 1)) →
      others node (digit width level key) = slots node (digit width level key) ∨
        slots node (digit width level key) = 0 ∧
          find width others level (others node (digit width level key)) key = 0)
    (points : Points place levels (key / width ^ levels) value) :
    find width others levels value key = find width slots levels value key := by
  induction levels generalizing value with
  | zero => rfl
  | succ levels ih =>
    by_cases empty : value = 0
    · rw [empty, find_zero, find_zero]
    have placed := (points.resolve_left empty).resolve_left (Nat.succ_ne_zero levels)
    rw [find_succ empty, find_succ empty]
    cases change value levels placed with
    | inl same =>
      rw [same]
      exact ih (closed.points pos placed)
    | inr filled => rw [filled.1, filled.2, find_zero]

end PrettyOS.Library.DigitTree
