import Mathlib.Logic.Function.Basic
import PrettyOS.Lib.Bitmap

/-!
Contract: `u_phys_copy` of `lib/klibc.c`, behind the macro `memncpy`.

Does not own: copies inside one object, and null pointers, which the function refuses.
-/

namespace PrettyOS.Lib

open Function

variable {dst src : Nat → Byte} {target origin size i : Nat}

def uPhysCopy (dst : Nat → Byte) (target : Nat) (src : Nat → Byte) (origin : Nat) :
    Nat → Nat → Byte
  | 0 => update dst target 0
  | size + 1 =>
      uPhysCopy (update dst target (src origin)) (target + 1) src (origin + 1) size

lemma uPhysCopy_of_before (before : i < target) :
    uPhysCopy dst target src origin size i = dst i := by
  induction size generalizing dst target origin with
  | zero => exact update_of_ne (Nat.ne_of_lt before) _ _
  | succ size ih =>
    rw [uPhysCopy, ih (Nat.lt_succ_of_lt before)]
    exact update_of_ne (Nat.ne_of_lt before) _ _

lemma uPhysCopy_of_behind (behind : target + size < i) :
    uPhysCopy dst target src origin size i = dst i := by
  induction size generalizing dst target origin with
  | zero => exact update_of_ne (Nat.ne_of_gt behind) _ _
  | succ size ih =>
    rw [uPhysCopy, ih (by omega)]
    exact update_of_ne (by omega) _ _

lemma uPhysCopy_add (inside : i < size) :
    uPhysCopy dst target src origin size (target + i) = src (origin + i) := by
  induction size generalizing dst target origin i with
  | zero => exact absurd inside (Nat.not_lt_zero i)
  | succ size ih =>
    rw [uPhysCopy]
    cases i with
    | zero =>
      rw [uPhysCopy_of_before (by omega)]
      exact update_self _ _ _
    | succ i =>
      rw [Nat.add_comm i 1, ← Nat.add_assoc, ← Nat.add_assoc]
      exact ih (Nat.lt_of_succ_lt_succ inside)

lemma uPhysCopy_end : uPhysCopy dst target src origin size (target + size) = 0 := by
  induction size generalizing dst target origin with
  | zero => exact update_self _ _ _
  | succ size ih =>
    rw [uPhysCopy, ← Nat.add_assoc, Nat.add_right_comm]
    exact ih

end PrettyOS.Lib
