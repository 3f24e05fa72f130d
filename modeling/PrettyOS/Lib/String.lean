import PrettyOS.Lib.Bitmap
import PrettyOS.Library.Cells

/-!
Contract: the string functions of `lib/string.c` that work on a name in memory.

A string that is an argument of the caller is the list of its characters, without the
terminating `0`. `none` is a string of which no end is found.
-/

namespace PrettyOS.Lib

open Library List Option

def strlen (mem : Nat → Byte) : Nat → Nat → Option Nat
  | 0, _ => none
  | fuel + 1, str => if mem str = 0 then some 0 else (strlen mem fuel (str + 1)).map (· + 1)

def strcmpLoop (mem : Nat → Byte) : Nat → Nat → Nat → Option Int
  | 0, _, _ => none
  | fuel + 1, str1, str2 =>
      if mem str1 ≠ mem str2 then some (-1) else strcmpLoop mem fuel (str1 + 1) (str2 + 1)

def strcmp (mem : Nat → Byte) (fuel str1 str2 : Nat) : Option Int :=
  if str1 = 0 ∨ str2 = 0 then some (-1) else strcmpLoop mem fuel str1 str2

def strncmp (fuel : Nat) (mem : Nat → Byte) (str1 : Nat) (str2 : List Byte) (len : Nat) :
    Option Int :=
  (strlen mem fuel str1).map fun length =>
    if len = 0 then -1
    else if ∀ i < min len (min length str2.length), mem (str1 + i) = str2.getD i 0 then 0
    else -1

def strcpy (mem : Nat → Byte) (dst : Nat) (src : List Byte) : Nat → Byte :=
  overwrite mem dst (src.length + 1) fun i => src.getD i 0

def strncpy (mem : Nat → Byte) (dst : Nat) (src : List Byte) (size : Nat) : Nat → Byte :=
  overwrite mem dst (min (src.length + 1) (max 1 size)) fun i => src.getD i 0

variable {mem : Nat → Byte} {fuel str : Nat} {text : List Byte}

structure Spelled (mem : Nat → Byte) (str : Nat) (text : List Byte) : Prop where
  chars : ∀ i < text.length, mem (str + i) = text.getD i 0
  nonzero : ∀ ch ∈ text, ch ≠ 0
  stop : mem (str + text.length) = 0

lemma strlen_eq (spelled : Spelled mem str text) (enough : text.length < fuel) :
    strlen mem fuel str = some text.length := by
  induction text generalizing fuel str with
  | nil =>
    obtain ⟨less, rfl⟩ := Nat.exists_eq_add_of_lt enough
    exact if_pos spelled.stop
  | cons ch text ih =>
    obtain ⟨chars, ne0, stop⟩ := spelled
    obtain ⟨less, rfl⟩ := Nat.exists_eq_add_of_lt enough
    have first : mem str ≠ 0 := by
      have isFirst := chars 0 (Nat.succ_pos _)
      rw [Nat.add_zero, getD_cons_zero] at isFirst
      rw [isFirst]
      exact ne0 ch mem_cons_self
    have rest : Spelled mem (str + 1) text := by
      refine ⟨fun i below => ?_, ?_, ?_⟩
      · have isChar := chars (i + 1) (Nat.succ_lt_succ below)
        rw [getD_cons_succ] at isChar
        rwa [Nat.add_assoc, Nat.add_comm 1 i]
      · intro other member
        exact ne0 other (mem_cons_of_mem _ member)
      · rwa [Nat.add_assoc, Nat.add_comm 1]
    rw [strlen, if_neg first, ih rest (by rw [length_cons]; omega)]
    rfl

lemma strcmpLoop_eq {str1 str2 : Nat} {ret : Int}
    (ran : strcmpLoop mem fuel str1 str2 = some ret) : ret = -1 := by
  induction fuel generalizing str1 str2 with
  | zero => cases ran
  | succ fuel ih =>
    rw [strcmpLoop] at ran
    split_ifs at ran with differ
    · exact (some.inj ran).symm
    · exact ih ran

lemma strcmp_eq {str1 str2 : Nat} {ret : Int} (ran : strcmp mem fuel str1 str2 = some ret) :
    ret = -1 := by
  rw [strcmp] at ran
  split_ifs at ran with isNull
  · exact (some.inj ran).symm
  · exact strcmpLoop_eq ran

lemma strncmp_returns {len : Nat} (other : List Byte) (spelled : Spelled mem str text)
    (enough : text.length < fuel) (pos : 0 < len) :
    ∃ ret, strncmp fuel mem str other len = some ret ∧
      (ret = 0 ↔ ∀ i < min len (min text.length other.length), text.getD i 0 = other.getD i 0) := by
  have agree : (∀ i < min len (min text.length other.length), mem (str + i) = other.getD i 0) ↔
      ∀ i < min len (min text.length other.length), text.getD i 0 = other.getD i 0 := by
    refine forall₂_congr fun i below => ?_
    rw [spelled.chars i (by omega)]
  unfold strncmp
  rw [strlen_eq spelled enough, map_some, if_neg (by omega)]
  refine ⟨_, rfl, ?_⟩
  rw [← agree]
  split_ifs with same
  · exact iff_of_true rfl same
  · exact iff_of_false (by decide) same

end PrettyOS.Lib
