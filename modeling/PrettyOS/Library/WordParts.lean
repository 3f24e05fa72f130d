import Mathlib

/-!
Contract: bytes and halves of a 32-bit word that are cut out by shifts and masks.
-/

namespace PrettyOS.Library

open BitVec

lemma getLsbD_byteMask : ∀ i < 8, (0xFF : BitVec 32).getLsbD i = true := by decide

lemma getLsbD_halfMask : ∀ i < 16, (0xFFFF : BitVec 32).getLsbD i = true := by decide

section

variable (word : BitVec 32)
include word

lemma setWidth_sshiftRight_and (shift : Nat) (inside : shift + 8 ≤ 32) :
    (word.sshiftRight shift &&& 0xFF).setWidth 8 = word.extractLsb' shift 8 := by
  ext i small
  rw [getElem_setWidth, getLsbD_and, getLsbD_byteMask i small, Bool.and_true,
    getElem_extractLsb', getLsbD_sshiftRight, if_pos (by omega),
    decide_eq_false (by omega), Bool.not_false, Bool.true_and]

lemma setWidth_and_byteMask : (word &&& 0xFF).setWidth 8 = word.extractLsb' 0 8 := by
  ext i small
  rw [getElem_setWidth, getLsbD_and, getLsbD_byteMask i small, Bool.and_true,
    getElem_extractLsb', Nat.zero_add]

lemma setWidth_and_halfMask : (word &&& 0xFFFF).setWidth 16 = word.extractLsb' 0 16 := by
  ext i small
  rw [getElem_setWidth, getLsbD_and, getLsbD_halfMask i small, Bool.and_true,
    getElem_extractLsb', Nat.zero_add]

lemma or_bytes :
    (word.extractLsb' 0 8).setWidth 32 ||| ((word.extractLsb' 8 8).setWidth 32 <<< 8) |||
      ((word.extractLsb' 16 8).setWidth 32 <<< 16) |||
        ((word.extractLsb' 24 8).setWidth 32 <<< 24) = word := by
  ext i inside
  grind

end

end PrettyOS.Library
