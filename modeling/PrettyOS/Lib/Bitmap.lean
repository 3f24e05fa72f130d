import Mathlib

/-!
Contract: the byte-wise bit maps of `lib/bitmap.c`.

A map is the list of its bytes; bit `nr` of a map is bit `nr % 8` of byte `nr / 8`.
-/

namespace PrettyOS.Lib

open List BitVec

abbrev Byte := BitVec 8

def setBit (nr : Nat) (ch : Byte) : Byte := ch ||| (1#8 <<< nr)

def findFirstBit (ch : Byte) : Nat :=
  ((List.range 8).find? fun nr => ch.getLsbD nr).getD 0

def findFirstZero (ch : Byte) : Nat := findFirstBit (~~~ch)

def setFirstBitFrom (i : Nat) : List Byte → Int × List Byte
  | [] => (-1, [])
  | ch :: rest =>
      if ch = 0xff then
        ((setFirstBitFrom (i + 1) rest).1, ch :: (setFirstBitFrom (i + 1) rest).2)
      else
        let first := findFirstZero ch
        ((first + 1 * i : Nat), setBit first ch :: rest)

def setFirstBit (bitmap : List Byte) : Int × List Byte := setFirstBitFrom 0 bitmap

def testBit (bitmap : List Byte) (nr : Nat) : Bool := (bitmap.getD (nr / 8) 0).getLsbD (nr % 8)

variable {nr : Nat} {ch : Byte} {rest : List Byte}

lemma getLsbD_setBit {other : Nat} (ch : Byte) (small : nr < 8) :
    (setBit nr ch).getLsbD other = (ch.getLsbD other || decide (other = nr)) := by
  unfold setBit
  rw [getLsbD_or, getLsbD_shiftLeft]
  congr 1
  by_cases same : other = nr
  · subst same
    simp [small]
  simp only [same, decide_false, getLsbD_one, Bool.and_eq_false_iff]
  by_cases before : other < nr
  · exact .inl (.inr (by simp [before]))
  · exact .inr (by simp; omega)

lemma exists_clear (room : ch ≠ 0xff) : ∃ nr < 8, ch.getLsbD nr = false := by
  by_contra allSet
  push Not at allSet
  apply room
  apply eq_of_getLsbD_eq
  intro nr small
  rw [show (0xff : Byte) = BitVec.allOnes 8 from rfl, getLsbD_allOnes]
  simpa [small] using allSet nr small

lemma findFirstZero_spec (room : ch ≠ 0xff) :
    findFirstZero ch < 8 ∧ ch.getLsbD (findFirstZero ch) = false := by
  obtain ⟨clear, clearSmall, isClear⟩ := exists_clear room
  unfold findFirstZero findFirstBit
  cases found : (List.range 8).find? fun nr => (~~~ch).getLsbD nr with
  | none =>
    have never := find?_eq_none.mp found clear (mem_range.mpr clearSmall)
    rw [getLsbD_not, isClear] at never
    simp [clearSmall] at never
  | some first =>
    have lt := mem_range.mp (mem_of_find?_eq_some found)
    have holds := find?_some found
    rw [getLsbD_not] at holds
    exact ⟨lt, by simpa [lt] using holds⟩

@[simp] theorem length_setFirstBitFrom (i : Nat) (bitmap : List Byte) :
    (setFirstBitFrom i bitmap).2.length = bitmap.length := by
  induction bitmap generalizing i with
  | nil => rfl
  | cons ch rest ih =>
      unfold setFirstBitFrom
      split_ifs
      · simp [ih]
      · rfl

lemma testBit_cons_low (low : nr < 8) : testBit (ch :: rest) nr = ch.getLsbD nr := by
  unfold testBit
  rw [Nat.div_eq_of_lt low, Nat.mod_eq_of_lt low]
  rfl

lemma testBit_cons_high (high : 8 ≤ nr) : testBit (ch :: rest) nr = testBit rest (nr - 8) := by
  unfold testBit
  obtain ⟨rest', rfl⟩ := Nat.exists_eq_add_of_le high
  rw [show (8 + rest') / 8 = rest' / 8 + 1 by omega, show (8 + rest') % 8 = rest' % 8 by omega,
    Nat.add_sub_cancel_left, getD_cons_succ]

lemma setFirstBitFrom_spec (i : Nat) (bitmap : List Byte) :
    ((∀ ch ∈ bitmap, ch = 0xff) ∧ setFirstBitFrom i bitmap = (-1, bitmap)) ∨
    ∃ p first, p < bitmap.length ∧ first < 8 ∧ (∀ q < p, bitmap.getD q 0 = 0xff) ∧
      testBit bitmap (8 * p + first) = false ∧
      (setFirstBitFrom i bitmap).1 = ((first + (i + p) : Nat) : Int) ∧
      ∀ nr, testBit (setFirstBitFrom i bitmap).2 nr =
        (testBit bitmap nr || decide (nr = 8 * p + first)) := by
  induction bitmap generalizing i with
  | nil => exact .inl ⟨by simp, rfl⟩
  | cons ch rest ih =>
    unfold setFirstBitFrom
    by_cases full : ch = 0xff
    · rw [if_pos full]
      rcases ih (i + 1) with ⟨allFull, res⟩ | ⟨p, first, pLt, firstLt, old, clear, value, marked⟩
      · refine .inl ⟨by simpa [full] using allFull, ?_⟩
        rw [res]
      refine .inr ⟨p + 1, first, by simpa using pLt, firstLt, ?_, ?_, ?_, ?_⟩
      · intro q before
        cases q with
        | zero => simpa using full
        | succ q => simpa using old q (by omega)
      · rw [testBit_cons_high (by omega), show 8 * (p + 1) + first - 8 = 8 * p + first by omega]
        exact clear
      · rw [value, show i + 1 + p = i + (p + 1) by omega]
      intro nr
      by_cases low : nr < 8
      · rw [testBit_cons_low low, testBit_cons_low low]
        simp [show nr ≠ 8 * (p + 1) + first by omega]
      rw [testBit_cons_high (by omega), testBit_cons_high (by omega), marked]
      congr 2
      exact propext (by omega)
    · rw [if_neg full]
      obtain ⟨firstLt, clear⟩ := findFirstZero_spec full
      refine .inr ⟨0, findFirstZero ch, by simp, firstLt, by omega, ?_, by simp, ?_⟩
      · rw [testBit_cons_low (by omega)]
        simpa using clear
      intro nr
      by_cases low : nr < 8
      · rw [testBit_cons_low low, testBit_cons_low low, getLsbD_setBit _ firstLt]
        simp
      · rw [testBit_cons_high (by omega), testBit_cons_high (by omega)]
        simp [show nr ≠ findFirstZero ch by omega]

end PrettyOS.Lib
