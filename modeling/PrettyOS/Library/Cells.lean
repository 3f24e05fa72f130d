import Mathlib.Logic.Function.Basic

/-!
Contract: numbered cells and runs of them.
-/

namespace PrettyOS.Library

open Nat

variable {α : Type*} {cells source : Nat → α} {start length i : Nat}

def overwrite (cells : Nat → α) (start length : Nat) (source : Nat → α) : Nat → α :=
  fun i => if start ≤ i ∧ i < start + length then source (i - start) else cells i

lemma overwrite_add (inside : i < length) :
    overwrite cells start length source (start + i) = source i := by
  unfold overwrite
  rw [if_pos ⟨by omega, by omega⟩, Nat.add_sub_cancel_left]

lemma overwrite_of_outside (out : i < start ∨ start + length ≤ i) :
    overwrite cells start length source i = cells i := by
  unfold overwrite
  exact if_neg (by omega)

def cutRange (size : Nat) : Nat → Nat → Nat → List (Nat × Nat)
  | 0, _, _ => []
  | steps + 1, start, rest =>
      if rest = 0 then []
      else
        (start, min rest (size - start % size)) ::
          cutRange size steps (start + min rest (size - start % size))
            (rest - min rest (size - start % size))

lemma cutRange_zero (size steps start : Nat) : cutRange size steps start 0 = [] := by
  cases steps with
  | zero => rfl
  | succ steps => exact if_pos rfl

variable {size rest steps : Nat}

lemma cutRange_succ (steps start : Nat) (pos : 0 < rest) :
    cutRange size (steps + 1) start rest = (start, min rest (size - start % size)) ::
        cutRange size steps (start + min rest (size - start % size))
          (rest - min rest (size - start % size)) :=
  if_neg (Nat.ne_of_gt pos)

lemma cutRange_enough (pos : 0 < size) (start extra : Nat) (enough : rest ≤ steps) :
    cutRange size (steps + extra) start rest = cutRange size steps start rest := by
  induction steps generalizing start rest with
  | zero =>
    rw [le_zero.mp enough, cutRange_zero, cutRange_zero]
  | succ steps ih =>
    rcases Nat.eq_zero_or_pos rest with rfl | more
    · rw [cutRange_zero, cutRange_zero]
    · have before := mod_lt start pos
      rw [succ_add, cutRange_succ _ _ more, cutRange_succ _ _ more, ih _ (by omega)]

@[elab_as_elim]
lemma cutRange_induction {motive : Nat → Nat → List (Nat × Nat) → Prop}
    (pos : 0 < size) (none : ∀ start, motive start 0 [])
    (piece : ∀ steps start rest length, 0 < rest → length = min rest (size - start % size) →
      motive (start + length) (rest - length)
        (cutRange size steps (start + length) (rest - length)) →
      motive start rest
        ((start, length) :: cutRange size steps (start + length) (rest - length)))
    (start : Nat) (enough : rest ≤ steps) :
    motive start rest (cutRange size steps start rest) := by
  induction steps generalizing start rest with
  | zero =>
    rw [le_zero.mp enough]
    exact none start
  | succ steps ih =>
    rcases Nat.eq_zero_or_pos rest with rfl | more
    · rw [cutRange_zero]
      exact none start
    have before := mod_lt start pos
    rw [cutRange_succ _ _ more]
    exact piece steps start rest _ more rfl (ih _ (by omega))

end PrettyOS.Library
