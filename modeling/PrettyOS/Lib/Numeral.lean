import PrettyOS.Lib.String

/-!
Contract: the numerals of `lib/string.c`.

`itoa` reverses the string that stands in the buffer before it has terminated the digits it
wrote, so what the buffer held behind them takes part in the reversal.
-/

namespace PrettyOS.Lib

open Library Nat Option
open Function

def swapLoop : Nat → (Nat → Byte) → Nat → Nat → Nat → Byte
  | 0, mem, _, _ => mem
  | fuel + 1, mem, ptr, p =>
      if ptr < p then
        swapLoop fuel (update (update mem ptr (mem p)) p (mem ptr))
          (ptr + 1) (p - 1)
      else mem

def strreverse (fuel : Nat) (mem : Nat → Byte) (ptr : Nat) : Option (Nat → Byte) :=
  (strlen mem fuel ptr).map fun len => swapLoop len mem ptr (ptr + len - 1)

def itoaLoop : Nat → (Nat → Byte) → Nat → Int → Option ((Nat → Byte) × Nat)
  | 0, _, _, _ => none
  | fuel + 1, mem, p, value =>
      if value ≠ 0 then
        let bit : Byte := BitVec.ofInt 8 (value.tmod 10)
        itoaLoop fuel (update mem p (0x30 + bit)) (p + 1) (value.tdiv 10)
      else some (mem, p)

def itoa (fuel : Nat) (mem : Nat → Byte) (str : Nat) (value : BitVec 32) : Option (Nat → Byte) :=
  if value = 0 then some (update (update mem str 0x30) (str + 1) 0)
  else
    (itoaLoop fuel mem str value.toInt).bind fun written =>
      (strreverse fuel written.1 str).map fun reversed => update reversed written.2 0

def nibbleChar (ch : Byte) : Byte :=
  if (0x39 : Byte).slt (ch + 0x30) then ch + 0x30 + 7 else ch + 0x30

def htoaLoop (value : BitVec 32) : Nat → (Nat → Byte) → Nat → Bool → (Nat → Byte) × Nat
  | 0, mem, p, _ => (mem, p)
  | left + 1, mem, p, flag =>
      let ch : Byte := (value.sshiftRight (4 * left) &&& 0xF).setWidth 8
      if flag = true ∨ (0 : Byte).slt ch = true then
        htoaLoop value left (update mem p (nibbleChar ch)) (p + 1) true
      else htoaLoop value left mem p flag

def htoa (mem : Nat → Byte) (str : Nat) (value : BitVec 32) : Nat → Byte :=
  if value = 0 then update (update mem str 0x30) (str + 1) 0
  else
    let written := htoaLoop value 8 mem str false
    update written.1 written.2 0

def digitChar (digit : Nat) : Byte :=
  BitVec.ofNat 8 (if digit < 10 then 0x30 + digit else 0x41 + (digit - 10))

def numeral (base n : Nat) : List Byte :=
  if n = 0 then [digitChar 0] else ((Nat.digits base n).map digitChar).reverse

def spell (mem : Nat → Byte) (p : Nat) (text : List Byte) : Nat → Byte :=
  overwrite mem p text.length fun i => text.getD i 0

section Spell

variable {mem : Nat → Byte} {p i fuel : Nat} {text : List Byte}

lemma spell_nil : spell mem p [] = mem := by
  funext i
  exact overwrite_of_outside (by rw [List.length_nil]; omega)

lemma spell_cons (ch : Byte) (text : List Byte) :
    spell mem p (ch :: text) = spell (update mem p ch) (p + 1) text := by
  funext i
  unfold spell overwrite
  dsimp only
  rw [List.length_cons]
  by_cases first : i = p
  · rw [if_pos (by omega), if_neg (by omega), first, update_self, Nat.sub_self, List.getD_cons_zero]
  rw [update_of_ne first]
  by_cases later : p + 1 ≤ i ∧ i < p + 1 + text.length
  · rw [if_pos (by omega), if_pos later, show i - p = i - (p + 1) + 1 by omega, List.getD_cons_succ]
  · rw [if_neg (by omega), if_neg later]

lemma strcpy_eq (text : List Byte) :
    strcpy mem p text = update (spell mem p text) (p + text.length) 0 := by
  funext i
  unfold strcpy spell overwrite
  dsimp only
  by_cases last : i = p + text.length
  · rw [if_pos (by omega), last, update_self, Nat.add_sub_cancel_left,
      List.getD_eq_default _ _ le_rfl]
  rw [update_of_ne last]
  by_cases inside : p ≤ i ∧ i < p + text.length
  · rw [if_pos (by omega), if_pos inside]
  · rw [if_neg (by omega), if_neg inside]

lemma strcpy_add (inside : i < text.length) : strcpy mem p text (p + i) = text.getD i 0 :=
  overwrite_add (lt_succ_of_lt inside)

lemma strcpy_of_outside (out : i < p ∨ p + text.length < i) : strcpy mem p text i = mem i :=
  overwrite_of_outside out

lemma spell_add (inside : i < text.length) : spell mem p text (p + i) = text.getD i 0 :=
  overwrite_add inside

lemma spell_of_outside (out : i < p ∨ p + text.length ≤ i) : spell mem p text i = mem i :=
  overwrite_of_outside out

lemma spelled_spell (nonzero : ∀ ch ∈ text, ch ≠ 0) (stop : mem (p + text.length) = 0) :
    Spelled (spell mem p text) p text where
  chars _ inside := spell_add inside
  nonzero := nonzero
  stop := (spell_of_outside (Or.inr le_rfl)).trans stop

end Spell

lemma swapLoop_apply {fuel ptr p : Nat} (mem : Nat → Byte) (enough : p ≤ ptr + 2 * fuel) (k : Nat) :
    swapLoop fuel mem ptr p k = if ptr ≤ k ∧ k ≤ p then mem (ptr + p - k) else mem k := by
  induction fuel generalizing mem ptr p with
  | zero =>
    rw [swapLoop]
    split_ifs with inside
    · rw [show ptr + p - k = k by omega]
    · rfl
  | succ fuel ih =>
    rw [swapLoop]
    by_cases open_ : ptr < p
    · rw [if_pos open_, ih _ (by omega)]
      by_cases atP : k = p
      · rw [if_neg (by omega), if_pos (by omega), atP, update_self, show ptr + p - p = ptr by omega]
      by_cases atPtr : k = ptr
      · rw [if_neg (by omega), if_pos (by omega), update_of_ne atP, atPtr,
          update_self, show ptr + p - ptr = p by omega]
      by_cases inside : ptr ≤ k ∧ k ≤ p
      · rw [if_pos (by omega), if_pos inside, update_of_ne (by omega),
          update_of_ne (by omega), show ptr + 1 + (p - 1) - k = ptr + p - k by omega]
      · rw [if_neg (by omega), if_neg inside, update_of_ne atP, update_of_ne atPtr]
    · rw [if_neg open_]
      split_ifs with inside
      · rw [show ptr + p - k = k by omega]
      · rfl

lemma strreverse_spell {mem : Nat → Byte} {ptr fuel : Nat} {text : List Byte}
    (ne0 : ∀ ch ∈ text, ch ≠ 0) (stop : mem (ptr + text.length) = 0)
    (ne : 0 < text.length) (enough : text.length < fuel) :
    strreverse fuel (spell mem ptr text) ptr = some (spell mem ptr text.reverse) := by
  rw [strreverse, strlen_eq (spelled_spell ne0 stop) enough, map_some]
  congr 1
  funext k
  rw [swapLoop_apply _ (by omega)]
  by_cases inside : ptr ≤ k ∧ k < ptr + text.length
  · obtain ⟨i, rfl⟩ := Nat.exists_eq_add_of_le inside.1
    have small : i < text.length := by omega
    have mirrored : ptr + (ptr + text.length - 1) - (ptr + i) = ptr + (text.length - 1 - i) := by
      omega
    have alsoSmall : i < text.reverse.length := by
      rw [List.length_reverse]
      exact small
    rw [if_pos (by omega), mirrored, spell_add (by omega), spell_add alsoSmall,
      List.getD_eq_getElem _ _ (by omega), List.getD_eq_getElem _ _ alsoSmall,
      List.getElem_reverse]
  · have out : k < ptr ∨ ptr + text.length ≤ k := by omega
    have alsoOutside : k < ptr ∨ ptr + text.reverse.length ≤ k := by
      rw [List.length_reverse]
      exact out
    rw [if_neg (by omega), spell_of_outside out, spell_of_outside alsoOutside]

lemma digitChar_of_lt {digit : Nat} (small : digit < 10) :
    digitChar digit = 0x30 + BitVec.ofNat 8 digit := by
  rw [digitChar, if_pos small, BitVec.ofNat_add]
  rfl

lemma digitChar_ne_zero : ∀ digit < 16, digitChar digit ≠ 0 := by decide

lemma itoaLoop_eq {fuel : Nat} (mem : Nat → Byte) (p n : Nat)
    (enough : (Nat.digits 10 n).length < fuel) :
    itoaLoop fuel mem p n =
      some (spell mem p ((Nat.digits 10 n).map digitChar), p + (Nat.digits 10 n).length) := by
  induction fuel generalizing mem p n with
  | zero => omega
  | succ fuel ih =>
    rw [itoaLoop]
    dsimp only
    rcases Nat.eq_zero_or_pos n with rfl | pos
    · rw [if_neg (not_not.mpr cast_zero), digits_zero, List.map_nil, spell_nil]
      rfl
    have digits := digits_def' (b := 10) (by decide) pos
    have last : BitVec.ofInt 8 ((n : Int).tmod 10) = BitVec.ofNat 8 (n % 10) := by
      rw [show (n : Int).tmod 10 = ((n % 10 : Nat) : Int) from rfl, BitVec.ofInt_natCast]
    rw [digits, List.length_cons] at enough
    rw [if_pos (by omega), last, ← digitChar_of_lt (mod_lt n (by decide)),
      show (n : Int).tdiv 10 = ((n / 10 : Nat) : Int) from rfl,
      ih _ _ _ (by omega), digits, List.map_cons, spell_cons,
      List.length_cons]
    congr 2
    omega

lemma numeral_of_pos {base n : Nat} (pos : 0 < n) :
    numeral base n = ((Nat.digits base n).map digitChar).reverse :=
  if_neg (Nat.ne_of_gt pos)

lemma length_numeral {base n : Nat} (pos : 0 < n) :
    (numeral base n).length = (Nat.digits base n).length := by
  rw [numeral_of_pos pos, List.length_reverse, List.length_map]

lemma numeral_ne_zero {base n : Nat} (low : 1 < base) (high : base ≤ 16) :
    ∀ ch ∈ numeral base n, ch ≠ 0 := by
  intro ch member
  rcases Nat.eq_zero_or_pos n with rfl | pos
  · obtain rfl := List.mem_singleton.mp member
    decide
  rw [numeral_of_pos pos, List.mem_reverse, List.mem_map] at member
  obtain ⟨digit, isDigit, rfl⟩ := member
  exact digitChar_ne_zero digit ((digits_lt_base low isDigit).trans_le high)

lemma length_numeral_le {base n k : Nat} (low : 1 < base) (pos : 0 < k)
    (below : n < base ^ k) : (numeral base n).length ≤ k := by
  rcases Nat.eq_zero_or_pos n with rfl | nonzero
  · exact pos
  · rw [length_numeral nonzero]
    exact (digits_length_le_iff low n).mpr below

lemma strcpy_numeral_zero {base str : Nat} {mem : Nat → Byte} :
    strcpy mem str (numeral base 0) =
      update (update mem str 0x30) (str + 1) 0 := by
  rw [strcpy_eq, numeral, if_pos rfl, spell_cons, spell_nil]
  rfl

lemma itoa_eq {fuel str : Nat} {mem : Nat → Byte} {value : BitVec 32}
    (notNegative : value.toInt = value.toNat)
    (clean : value = 0 ∨ mem (str + (numeral 10 value.toNat).length) = 0)
    (enough : (numeral 10 value.toNat).length < fuel) :
    itoa fuel mem str value = some (strcpy mem str (numeral 10 value.toNat)) := by
  rw [itoa]
  by_cases zero : value = 0
  · rw [if_pos zero, zero]
    exact congrArg some strcpy_numeral_zero.symm
  have pos : 0 < value.toNat := by
    apply Nat.pos_of_ne_zero
    intro isZero
    exact zero (BitVec.toNat_inj.mp isZero)
  have stop := clean.resolve_left zero
  have ne0 := @numeral_ne_zero 10 value.toNat (by decide) (by decide)
  have ne : 0 < (Nat.digits 10 value.toNat).length := by
    rw [List.length_pos_iff, ne_eq, digits_eq_nil_iff_eq_zero]
    exact Nat.ne_of_gt pos
  rw [length_numeral pos] at stop enough
  rw [if_neg zero, notNegative, itoaLoop_eq _ _ _ enough, bind_some,
    strreverse_spell, map_some, strcpy_eq, length_numeral pos,
    numeral_of_pos pos]
  · intro ch member
    apply ne0 ch
    rw [numeral_of_pos pos]
    exact List.mem_reverse.mpr member
  · rw [List.length_map]
    exact stop
  · rw [List.length_map]
    exact ne
  · rw [List.length_map]
    exact enough

def nibbles (n : Nat) : Nat → List Nat
  | 0 => []
  | left + 1 => n / 16 ^ left % 16 :: nibbles n left

lemma nibbleChar_eq : ∀ digit < 16, nibbleChar (BitVec.ofNat 8 digit) = digitChar digit := by
  decide

lemma slt_nibble : ∀ digit < 16, (0 : Byte).slt (BitVec.ofNat 8 digit) = true ↔ digit ≠ 0 := by
  decide

lemma nibble_eq (value : BitVec 32) {left : Nat} (inside : left < 8) :
    (value.sshiftRight (4 * left) &&& 0xF).setWidth 8 =
      BitVec.ofNat 8 (value.toNat / 16 ^ left % 16) := by
  have mask : ∀ i < 8, (0xF : BitVec 32).getLsbD i = decide (i < 4) := by decide
  apply BitVec.eq_of_getLsbD_eq
  intro i small
  rw [BitVec.getLsbD_setWidth, BitVec.getLsbD_and, mask i small, BitVec.getLsbD_sshiftRight,
    BitVec.getLsbD_ofNat, show 16 ^ left = 2 ^ (4 * left) by rw [Nat.pow_mul],
    show (16 : Nat) = 2 ^ 4 from rfl, testBit_mod_two_pow, testBit_div_two_pow]
  by_cases low : i < 4
  · rw [if_pos (by omega), BitVec.testBit_toNat, Nat.add_comm]
    grind
  · grind

section Nibbles

variable {left : Nat} (value : BitVec 32) (mem : Nat → Byte) (p : Nat)

lemma htoaLoop_true (inside : left ≤ 8) :
    htoaLoop value left mem p true = (spell mem p ((nibbles value.toNat left).map digitChar),
        p + (nibbles value.toNat left).length) := by
  induction left generalizing mem p with
  | zero => rw [htoaLoop, nibbles, List.map_nil, spell_nil]; rfl
  | succ left ih =>
    rw [htoaLoop, nibble_eq value (by omega), if_pos (Or.inl rfl),
      nibbleChar_eq _ (mod_lt _ (by decide)), ih _ _ (by omega), nibbles,
      List.map_cons, spell_cons, List.length_cons, Nat.add_assoc, Nat.add_comm 1]

lemma htoaLoop_false (inside : left ≤ 8) :
    htoaLoop value left mem p false =
      (spell mem p (((nibbles value.toNat left).dropWhile (· = 0)).map digitChar),
        p + ((nibbles value.toNat left).dropWhile (· = 0)).length) := by
  induction left with
  | zero => rw [htoaLoop, nibbles, List.dropWhile_nil, List.map_nil, spell_nil]; rfl
  | succ left ih =>
    have pos := slt_nibble _ (mod_lt (value.toNat / 16 ^ left) (by decide : 0 < 16))
    rw [htoaLoop, nibble_eq value (by omega), nibbles, List.dropWhile_cons]
    by_cases zero : value.toNat / 16 ^ left % 16 = 0
    · rw [if_neg (by simp [zero]), if_pos (decide_eq_true zero), ih (by omega)]
    rw [if_pos (Or.inr (pos.mpr zero)), if_neg (by simpa using zero),
      nibbleChar_eq _ (mod_lt _ (by decide)), htoaLoop_true _ _ _ (by omega),
      List.map_cons, spell_cons, List.length_cons, Nat.add_assoc, Nat.add_comm 1]

end Nibbles

lemma nibbles_succ (n left : Nat) : nibbles n (left + 1) = nibbles (n / 16) left ++ [n % 16] := by
  induction left with
  | zero => rw [nibbles, nibbles, nibbles, pow_zero, Nat.div_one, List.nil_append]
  | succ left ih =>
    rw [nibbles, ih, nibbles, List.cons_append, Nat.div_div_eq_div_mul, ← pow_succ']

lemma dropWhile_nibbles {n left : Nat} (below : n < 16 ^ left) :
    (nibbles n left).dropWhile (· = 0) = (Nat.digits 16 n).reverse := by
  induction left generalizing n with
  | zero =>
    obtain rfl : n = 0 := by omega
    rw [digits_zero]
    rfl
  | succ left ih =>
    have rest := ih (Nat.div_lt_of_lt_mul (by rwa [pow_succ'] at below))
    rw [nibbles_succ, List.dropWhile_append, rest]
    rcases Nat.eq_zero_or_pos n with rfl | pos
    · rfl
    rw [digits_def' (by decide) pos, List.reverse_cons]
    split_ifs with none
    · have isZero :=
        digits_eq_nil_iff_eq_zero.mp
          (List.reverse_eq_nil_iff.mp (List.isEmpty_iff.mp none))
      have ne0 : n % 16 ≠ 0 := by omega
      rw [isZero, digits_zero, List.reverse_nil, List.nil_append,
        List.dropWhile_cons_of_neg (by simpa using ne0)]
    · rfl

lemma htoa_eq (mem : Nat → Byte) (str : Nat) (value : BitVec 32) :
    htoa mem str value = strcpy mem str (numeral 16 value.toNat) := by
  rw [htoa]
  by_cases zero : value = 0
  · rw [if_pos zero, zero]
    exact strcpy_numeral_zero.symm
  have pos : 0 < value.toNat := by
    apply Nat.pos_of_ne_zero
    intro isZero
    exact zero (BitVec.toNat_inj.mp isZero)
  rw [if_neg zero, htoaLoop_false value mem str le_rfl, dropWhile_nibbles value.isLt, strcpy_eq,
    numeral_of_pos pos, List.map_reverse, List.length_reverse, List.length_reverse,
    List.length_map]

end PrettyOS.Lib
