import PrettyOS.Lib.Numeral

/-!
Contract: `vsprintf` of `lib/vsprintf.c`.

The format and the strings among the arguments are lists of characters without the terminating
`0`. An argument is the 32-bit word or the string that `next_arg` points to. `none` is a run that
leaves its objects: a format that ends in a percent sign, a missing argument or one of the other
kind, or a string in `tmp` without an end.
-/

namespace PrettyOS.Lib

open Library List Function Option BitVec

inductive Arg where
  | word (value : BitVec 32)
  | text (chars : List Byte)

def tmpSize : Nat := 32

structure Printer where
  mem : Nat → Byte
  p : Nat
  tmp : Nat → Byte

namespace Printer

def putChar (ch : Byte) (s : Printer) : Printer :=
  { s with mem := update s.mem s.p ch, p := s.p + 1 }

def putText (text : List Byte) (s : Printer) : Printer :=
  { s with mem := strcpy s.mem s.p text, p := s.p + text.length }

def putTmp (s : Printer) (tmp : Nat → Byte) : Option Printer :=
  (strlen tmp tmpSize 0).map fun len =>
    { s.putText ((List.range len).map tmp) with tmp := tmp }

def putDecimal (value : BitVec 32) (s : Printer) : Option Printer :=
  if value.toInt < 0 then
    (itoa tmpSize s.tmp 0 (-value)).bind (s.putChar 0x2D).putTmp
  else (itoa tmpSize s.tmp 0 value).bind s.putTmp

def putHex (value : BitVec 32) (s : Printer) : Option Printer :=
  s.putTmp (htoa s.tmp 0 value)

def convert (conversion : Byte) (args : List Arg) (s : Printer) :
    Option (List Arg × Printer) :=
  if conversion = 0x73 then
    match args with
    | .text chars :: rest => some (rest, s.putText chars)
    | _ => none
  else if conversion = 0x63 then
    match args with
    | .word value :: rest => some (rest, s.putChar (value.setWidth 8))
    | _ => none
  else if conversion = 0x64 then
    match args with
    | .word value :: rest => (s.putDecimal value).map fun t => (rest, t)
    | _ => none
  else if conversion = 0x70 ∨ conversion = 0x78 then
    match args with
    | .word value :: rest => (s.putHex value).map fun t => (rest, t)
    | _ => none
  else some (args, s)

def vsprintfLoop : List Byte → List Arg → Printer → Option Printer
  | [], _, s => some s
  | ch :: fmt, args, s =>
      if ch ≠ 0x25 then vsprintfLoop fmt args (s.putChar ch)
      else
        match fmt with
        | [] => none
        | conversion :: fmt =>
            (convert conversion args s).bind fun done => vsprintfLoop fmt done.1 done.2

end Printer

def vsprintf (buf : Nat) (fmt : List Byte) (args : List Arg) (mem : Nat → Byte) :
    Option (Nat × (Nat → Byte)) :=
  (Printer.vsprintfLoop fmt args { mem := mem, p := buf, tmp := fun _ => 0 }).map fun s =>
    (s.p - buf, s.mem)

inductive Piece where
  | ordinary (ch : Byte)
  | s (chars : List Byte)
  | c (value : BitVec 32)
  | d (value : BitVec 32)
  | x (value : BitVec 32)
  | p (value : BitVec 32)

namespace Piece

def format : Piece → List Byte
  | ordinary ch => [ch]
  | s _ => [0x25, 0x73]
  | c _ => [0x25, 0x63]
  | d _ => [0x25, 0x64]
  | x _ => [0x25, 0x78]
  | p _ => [0x25, 0x70]

def args : Piece → List Arg
  | ordinary _ => []
  | s chars => [.text chars]
  | c value | d value | x value | p value => [.word value]

def output : Piece → List Byte
  | ordinary ch => [ch]
  | s chars => chars
  | c value => [value.setWidth 8]
  | d value =>
      if value.toInt < 0 then 0x2D :: numeral 10 value.toInt.natAbs
      else numeral 10 value.toInt.natAbs
  | x value | p value => numeral 16 value.toNat

def Admitted : Piece → Prop
  | ordinary ch => ch ≠ 0x25 ∧ ch ≠ 0
  | s chars => ∀ ch ∈ chars, ch ≠ 0
  | _ => True

def lengths : Piece → List Nat → List Nat
  | d value, before => (numeral 10 value.toInt.natAbs).length :: before
  | x value, before | p value, before => (numeral 16 value.toNat).length :: before
  | _, before => before

def Clean (before : List Nat) : Piece → Prop
  | d value =>
      value.toInt ≠ -2 ^ 31 ∧ (value = 0 ∨
          ∀ length ∈ before.find? ((numeral 10 value.toInt.natAbs).length ≤ ·),
            length = (numeral 10 value.toInt.natAbs).length)
  | _ => True

instance : (piece : Piece) → Decidable piece.Admitted
  | ordinary ch => inferInstanceAs (Decidable (ch ≠ 0x25 ∧ ch ≠ 0))
  | s chars => inferInstanceAs (Decidable (∀ ch ∈ chars, ch ≠ 0))
  | c _ | d _ | x _ | p _ => inferInstanceAs (Decidable True)

instance (before : List Nat) : (piece : Piece) → Decidable (piece.Clean before)
  | d value => inferInstanceAs (Decidable (value.toInt ≠ -2 ^ 31 ∧ (value = 0 ∨
      ∀ length ∈ before.find? ((numeral 10 value.toInt.natAbs).length ≤ ·),
        length = (numeral 10 value.toInt.natAbs).length)))
  | ordinary _ | s _ | c _ | x _ | p _ => inferInstanceAs (Decidable True)

end Piece

def CleanFrom : List Nat → List Piece → Prop
  | _, [] => True
  | before, piece :: rest => piece.Clean before ∧ CleanFrom (piece.lengths before) rest

instance decidableCleanFrom : (before : List Nat) → (pieces : List Piece) →
    Decidable (CleanFrom before pieces)
  | _, [] => inferInstanceAs (Decidable True)
  | before, piece :: rest =>
    have := decidableCleanFrom (piece.lengths before) rest
    inferInstanceAs (Decidable (piece.Clean before ∧ CleanFrom (piece.lengths before) rest))

def formatted (pieces : List Piece) : List Byte := pieces.flatMap Piece.output

def Formats (buf : Nat) (pieces : List Piece) (mem : Nat → Byte) : Prop :=
  ∃ after, vsprintf buf (pieces.flatMap Piece.format) (pieces.flatMap Piece.args) mem =
      some ((formatted pieces).length, after) ∧
    (∀ i < (formatted pieces).length, after (buf + i) = (formatted pieces).getD i 0) ∧
    ∀ a, a < buf ∨ buf + (formatted pieces).length < a → after a = mem a

section Scratch

variable {tmp : Nat → Byte} {before : List Nat} {text : List Byte}

def Scratch (tmp : Nat → Byte) (before : List Nat) : Prop :=
  ∀ k, (∀ length ∈ before.find? (k ≤ ·), length = k) → tmp k = 0

lemma Scratch.strcpy (scratch : Scratch tmp before) :
    Scratch (strcpy tmp 0 text) (text.length :: before) := by
  intro k last
  rw [strcpy_eq, Nat.zero_add]
  rcases Nat.lt_trichotomy k text.length with inside | atEnd | behind
  · have same := last text.length (find?_cons_of_pos (decide_eq_true inside.le))
    omega
  · rw [atEnd, update_self]
  rw [update_of_ne (by omega), spell_of_outside (by omega)]
  apply scratch
  intro length found
  apply last
  rw [find?_cons_of_neg (by simpa using behind)]
  exact found

lemma putTmp_strcpy (s : Printer) (ne0 : ∀ ch ∈ text, ch ≠ 0) (fits : text.length < tmpSize) :
    s.putTmp (strcpy tmp 0 text) = some { s.putText text with tmp := strcpy tmp 0 text } := by
  have spelled : Spelled (strcpy tmp 0 text) 0 text := by
    constructor
    · intro i inside
      exact strcpy_add inside
    · exact ne0
    · rw [strcpy_eq, update_self]
  have chars : (range text.length).map (strcpy tmp 0 text) = text := by
    apply ext_getElem
    · rw [length_map, length_range]
    intro i _ inside
    have isChar := spelled.chars i inside
    rw [Nat.zero_add] at isChar
    rw [getElem_map, getElem_range, isChar, getD_eq_getElem _ _ inside]
  rw [Printer.putTmp, strlen_eq spelled fits, map_some, chars]

end Scratch

structure Extends (text : List Byte) (s t : Printer) : Prop where
  place : t.p = s.p + text.length
  chars : ∀ i < text.length, t.mem (s.p + i) = text.getD i 0
  frame : ∀ a, a < s.p ∨ s.p + text.length < a → t.mem a = s.mem a

section Extends

variable {s t u : Printer} {text more : List Byte}

lemma Extends.refl (s : Printer) : Extends [] s s where
  place := rfl
  chars _ inside := absurd inside (Nat.not_lt_zero _)
  frame _ _ := rfl

lemma Extends.trans (first : Extends text s t) (second : Extends more t u) :
    Extends (text ++ more) s u := by
  have place := first.place
  constructor
  · rw [second.place, place, length_append, Nat.add_assoc]
  · intro i inside
    rw [length_append] at inside
    by_cases early : i < text.length
    · rw [second.frame _ (by omega), first.chars i early, getD_append _ _ _ _ early]
    obtain ⟨j, rfl⟩ := Nat.exists_eq_add_of_le (Nat.not_lt.mp early)
    rw [← Nat.add_assoc, ← place, second.chars j (by omega),
      getD_append_right _ _ _ _ (Nat.le_add_right _ _), Nat.add_sub_cancel_left]
  · intro a out
    rw [length_append] at out
    rw [second.frame a (by omega), first.frame a (by omega)]

lemma extends_putChar (ch : Byte) (s : Printer) : Extends [ch] s (s.putChar ch) := by
  constructor
  · rfl
  · intro i inside
    obtain rfl : i = 0 := Nat.lt_one_iff.mp inside
    exact update_self _ _ _
  · intro a out
    exact update_of_ne (by omega) _ _

lemma extends_putText (text : List Byte) (s : Printer) (tmp : Nat → Byte) :
    Extends text s { s.putText text with tmp := tmp } := by
  constructor
  · rfl
  · intro i inside
    exact strcpy_add inside
  · intro a out
    exact strcpy_of_outside out

end Extends

section Pieces

variable {s : Printer} {before : List Nat}

lemma toInt_neg_of_neg {value : BitVec 32} (neg : value.toInt < 0)
    (notLeast : value.toInt ≠ -2 ^ 31) :
    (-value).toNat = value.toInt.natAbs ∧ (-value).toInt = (-value).toNat := by
  have small := value.isLt
  rw [toInt_eq_toNat_cond] at neg notLeast ⊢
  rw [toInt_eq_toNat_cond, toNat_neg]
  split_ifs at * <;> omega

lemma length_decimal_lt (value : BitVec 32) : (numeral 10 value.toInt.natAbs).length < tmpSize := by
  have range : value.toInt.natAbs < 10 ^ 10 := by
    have := value.toInt_lt
    have := value.le_toInt
    omega
  exact (length_numeral_le (by decide) (by decide) range).trans_lt (by decide)

section

variable (scratch : Scratch s.tmp before)
include scratch

lemma putTmp_itoa {value : BitVec 32} {n : Nat}
    (isNat : value.toNat = n) (notNegative : value.toInt = value.toNat)
    (fits : (numeral 10 n).length < tmpSize)
    (clean : value = 0 ∨ ∀ length ∈ before.find? ((numeral 10 n).length ≤ ·),
      length = (numeral 10 n).length) (t : Printer) : (itoa tmpSize s.tmp 0 value).bind t.putTmp =
      some { t.putText (numeral 10 n) with tmp := strcpy s.tmp 0 (numeral 10 n) } := by
  subst isNat
  have zeroBehind : value = 0 ∨ s.tmp (0 + (numeral 10 value.toNat).length) = 0 := by
    rw [Nat.zero_add]
    exact clean.imp_right (scratch _)
  rw [itoa_eq notNegative zeroBehind fits, bind_some]
  exact putTmp_strcpy t (numeral_ne_zero (by decide) (by decide)) fits

lemma putDecimal_extends {value : BitVec 32} (clean : (Piece.d value).Clean before) :
    ∃ t, s.putDecimal value = some t ∧ Extends (Piece.d value).output s t ∧
      Scratch t.tmp ((Piece.d value).lengths before) := by
  obtain ⟨notLeast, cleanBehind⟩ := clean
  have fits := length_decimal_lt value
  rw [Printer.putDecimal, Piece.output]
  by_cases neg : value.toInt < 0
  · obtain ⟨magnitude, notNegative⟩ := toInt_neg_of_neg neg notLeast
    have ne0 : value ≠ 0 := by
      rintro rfl
      exact absurd neg (by decide)
    rw [if_pos neg, if_pos neg,
      putTmp_itoa scratch magnitude notNegative fits (Or.inr (cleanBehind.resolve_left ne0))]
    exact ⟨_, rfl, (extends_putChar 0x2D s).trans (extends_putText _ _ _), scratch.strcpy⟩
  · have notNegative : value.toInt = value.toNat := by
      rw [toInt_eq_toNat_cond] at neg ⊢
      split_ifs at * <;> omega
    have magnitude : value.toNat = value.toInt.natAbs := by omega
    rw [if_neg neg, if_neg neg, putTmp_itoa scratch magnitude notNegative fits cleanBehind]
    exact ⟨_, rfl, extends_putText _ _ _, scratch.strcpy⟩

lemma putHex_extends (value : BitVec 32) :
    ∃ t, s.putHex value = some t ∧ Extends (numeral 16 value.toNat) s t ∧
      Scratch t.tmp ((numeral 16 value.toNat).length :: before) := by
  have fits : (numeral 16 value.toNat).length < tmpSize :=
    (length_numeral_le (k := 8) (by decide) (by decide) value.isLt).trans_lt (by decide)
  rw [Printer.putHex, htoa_eq, putTmp_strcpy s (numeral_ne_zero (by decide) (by decide)) fits]
  exact ⟨_, rfl, extends_putText _ _ _, scratch.strcpy⟩

end

lemma vsprintfLoop_convert {conversion : Byte} {arg : Arg} {t : Printer}
    (isDone : ∀ args, Printer.convert conversion (arg :: args) s = some (args, t))
    (fmt : List Byte) (args : List Arg) :
    Printer.vsprintfLoop (0x25 :: conversion :: fmt) (arg :: args) s =
      Printer.vsprintfLoop fmt args t := by
  rw [Printer.vsprintfLoop, if_neg (not_not.mpr rfl), isDone, bind_some]

lemma vsprintfLoop_ordinary {ch : Byte} (notPercent : ch ≠ 0x25) (fmt : List Byte)
    (args : List Arg) :
    Printer.vsprintfLoop (ch :: fmt) args s = Printer.vsprintfLoop fmt args (s.putChar ch) := by
  cases fmt with
  | nil => exact if_pos notPercent
  | cons conversion fmt => exact if_pos notPercent

lemma piece_extends (scratch : Scratch s.tmp before) {piece : Piece}
    (adm : piece.Admitted) (clean : piece.Clean before) :
    ∃ t, (∀ fmt args, Printer.vsprintfLoop (piece.format ++ fmt) (piece.args ++ args) s =
        Printer.vsprintfLoop fmt args t) ∧
      Extends piece.output s t ∧ Scratch t.tmp (piece.lengths before) := by
  cases piece with
  | ordinary ch =>
    exact ⟨s.putChar ch, vsprintfLoop_ordinary adm.1, extends_putChar ch s, scratch⟩
  | s chars =>
    exact ⟨s.putText chars, vsprintfLoop_convert fun _ => rfl, extends_putText chars s s.tmp,
      scratch⟩
  | c value =>
    exact ⟨s.putChar (value.setWidth 8), vsprintfLoop_convert fun _ => rfl, extends_putChar _ s,
      scratch⟩
  | d value =>
    obtain ⟨t, isDone, ext, left⟩ := putDecimal_extends scratch clean
    exact ⟨t, vsprintfLoop_convert fun args => congrArg (Option.map fun t => (args, t)) isDone,
      ext, left⟩
  | x value =>
    obtain ⟨t, isDone, ext, left⟩ := putHex_extends scratch value
    exact ⟨t, vsprintfLoop_convert fun args => congrArg (Option.map fun t => (args, t)) isDone,
      ext, left⟩
  | p value =>
    obtain ⟨t, isDone, ext, left⟩ := putHex_extends scratch value
    exact ⟨t, vsprintfLoop_convert fun args => congrArg (Option.map fun t => (args, t)) isDone,
      ext, left⟩

end Pieces

lemma vsprintfLoop_extends {s : Printer} {before : List Nat} {pieces : List Piece}
    (scratch : Scratch s.tmp before) (adm : ∀ piece ∈ pieces, piece.Admitted)
    (clean : CleanFrom before pieces) :
    ∃ t, Printer.vsprintfLoop (pieces.flatMap Piece.format) (pieces.flatMap Piece.args) s =
      some t ∧ Extends (formatted pieces) s t := by
  induction pieces generalizing s before with
  | nil => exact ⟨s, rfl, Extends.refl s⟩
  | cons piece rest ih =>
    rw [forall_mem_cons] at adm
    obtain ⟨t, isStep, ext, left⟩ := piece_extends scratch adm.1 clean.1
    obtain ⟨u, isRest, extendedRest⟩ := ih left adm.2 clean.2
    refine ⟨u, ?_, ext.trans extendedRest⟩
    rw [flatMap_cons, flatMap_cons, isStep, isRest]

/-- A format whose numbers `itoa` always finds a `0` behind is written out as it stands for. -/
theorem vsprintf_formats (buf : Nat) (mem : Nat → Byte) (pieces : List Piece)
    (admitted : ∀ piece ∈ pieces, piece.Admitted) (clean : CleanFrom [] pieces) :
    Formats buf pieces mem := by
  obtain ⟨t, isDone, extended⟩ :=
    @vsprintfLoop_extends { mem := mem, p := buf, tmp := fun _ => 0 } [] pieces (fun _ _ => rfl)
      admitted clean
  refine ⟨t.mem, ?_, extended.chars, extended.frame⟩
  rw [vsprintf, isDone, map_some, extended.place]
  exact congrArg some (Prod.ext (Nat.add_sub_cancel_left _ _) rfl)

/-- `"%d, %d"` with a shorter number first. -/
theorem vsprintf_formats_growing :
    Formats 0x1000 [.d 7, .ordinary 0x2C, .ordinary 0x20, .d (-12)] fun _ => 0 := by
  apply vsprintf_formats
  · decide
  · decide

/-- `"%d%d"` with 12 and 3: the digit `3` is put before the stale `2`, both are reversed, and
`2` is printed. -/
theorem not_formats_shrinking :
    (vsprintf 0x1000 [0x25, 0x64, 0x25, 0x64] [.word 12, .word 3] fun _ => 0).map
        (fun done => (done.1, (List.range 3).map fun i => done.2 (0x1000 + i))) =
      some (3, [0x31, 0x32, 0x32]) ∧
    formatted [.d 12, .d 3] = [0x31, 0x32, 0x33] ∧
      ¬ Formats 0x1000 [.d 12, .d 3] fun _ => 0 := by
  have run : (vsprintf 0x1000 [0x25, 0x64, 0x25, 0x64] [.word 12, .word 3] fun _ => 0).map
        (fun done => (done.1, (range 3).map fun i => done.2 (0x1000 + i))) =
      some (3, [0x31, 0x32, 0x32]) := by
    decide
  have text : formatted [.d 12, .d 3] = [0x31, 0x32, 0x33] := by decide
  refine ⟨run, text, ?_⟩
  rintro ⟨after, returned, chars, -⟩
  rw [text] at chars
  have wanted := chars 2 (by decide)
  have returned : vsprintf 0x1000 [0x25, 0x64, 0x25, 0x64] [.word 12, .word 3] (fun _ => 0) =
      some ((formatted [.d 12, .d 3]).length, after) := returned
  rw [returned, map_some, some_inj, Prod.mk.injEq] at run
  have printed := congrArg (fun l => l.getD 2 0) run.2
  exact absurd (printed.symm.trans wanted) (by decide)

-- the least number is its own negation: `"%d"` prints `-./,),(-*,(` for it
example : (vsprintf 0x1000 [0x25, 0x64] [.word 0x80000000] fun _ => 0).map
    (fun done => (done.1, (List.range 11).map fun i => done.2 (0x1000 + i))) =
      some (11, [0x2D, 0x2E, 0x2F, 0x2C, 0x29, 0x2C, 0x28, 0x2D, 0x2A, 0x2C, 0x28]) := by
  decide

/-- The format pointer over memory: the addresses read and the turns. It moves the same way
whatever the conversions and the arguments are. -/
def formatWalk (mem : Nat → Byte) : Nat → Nat → Option (List Nat × Nat)
  | 0, _ => none
  | fuel + 1, fmt =>
      if mem fmt = 0 then some ([fmt], 0)
      else if mem fmt ≠ 0x25 then
        (formatWalk mem fuel (fmt + 1)).map fun done => (fmt :: done.1, done.2 + 1)
      else
        (formatWalk mem fuel (fmt + 2)).map fun done => (fmt :: (fmt + 1) :: done.1, done.2 + 1)

def FormatAt (mem : Nat → Byte) : Nat → List Byte → Prop
  | fmt, [] => mem fmt = 0
  | fmt, ch :: rest => mem fmt = ch ∧ ch ≠ 0 ∧ FormatAt mem (fmt + 1) rest

def Paired : List Byte → Prop
  | [] => True
  | ch :: rest =>
      if ch ≠ 0x25 then Paired rest
      else
        match rest with
        | [] => False
        | _ :: rest => Paired rest

def StaysInFormat (mem : Nat → Byte) (fmt length : Nat) : Prop :=
  ∃ fuel reads rounds, formatWalk mem fuel fmt = some (reads, rounds) ∧
    (∀ read ∈ reads, read ≤ fmt + length) ∧ rounds ≤ length

variable {mem : Nat → Byte} {fmt fuel rounds : Nat} {text : List Byte} {reads : List Nat}

lemma paired_ordinary {ch : Byte} (ordinary : ch ≠ 0x25) : Paired (ch :: text) ↔ Paired text := by
  rw [Paired.eq_def]
  exact iff_of_eq (if_pos ordinary)

lemma staysInFormat_of_paired (held : FormatAt mem fmt text) (paired : Paired text) :
    StaysInFormat mem fmt text.length := by
  induction text using Paired.induct generalizing fmt with
  | case1 =>
    refine ⟨1, [fmt], 0, if_pos held, ?_, Nat.le_refl _⟩
    simp
  | case2 ch rest ordinary ih =>
    obtain ⟨isChar, nonzero, heldRest⟩ := held
    rw [paired_ordinary ordinary] at paired
    obtain ⟨fuel, reads, rounds, ran, within, few⟩ := ih heldRest paired
    refine ⟨fuel + 1, fmt :: reads, rounds + 1, ?_, ?_, ?_⟩
    · rw [formatWalk, isChar, if_neg nonzero, if_pos ordinary, ran]
      rfl
    · rw [forall_mem_cons, length_cons]
      exact ⟨Nat.le_add_right _ _, fun read inside => Nat.le_trans (within read inside) (by omega)⟩
    · exact Nat.succ_le_succ few
  | case3 ch percent =>
    rw [Paired, if_neg percent] at paired
    exact paired.elim
  | case4 ch percent conversion rest ih =>
    obtain ⟨isChar, nonzero, -, -, heldRest⟩ := held
    rw [Paired, if_neg percent] at paired
    obtain ⟨fuel, reads, rounds, ran, within, few⟩ := ih heldRest paired
    refine ⟨fuel + 1, fmt :: (fmt + 1) :: reads, rounds + 1, ?_, ?_, ?_⟩
    · rw [formatWalk, isChar, if_neg nonzero, if_neg percent]
      rw [show fmt + 2 = fmt + 1 + 1 from rfl, ran]
      rfl
    · rw [forall_mem_cons, forall_mem_cons, length_cons, length_cons]
      exact ⟨by omega, by omega, fun read inside => Nat.le_trans (within read inside) (by omega)⟩
    · rw [length_cons, length_cons]
      omega

lemma formatWalk_inv (nonzero : mem fmt ≠ 0)
    (ran : formatWalk mem fuel fmt = some (reads, rounds)) :
    ∃ fuel others rounds, formatWalk mem fuel (fmt + if mem fmt ≠ 0x25 then 1 else 2) =
      some (others, rounds) ∧ others ⊆ reads := by
  cases fuel with
  | zero => cases ran
  | succ fuel =>
    rw [formatWalk, if_neg nonzero] at ran
    split_ifs at ran ⊢
    · obtain ⟨_, isRest, same⟩ := map_eq_some_iff.mp ran
      cases same
      exact ⟨fuel, _, _, isRest, subset_cons_self _ _⟩
    obtain ⟨_, isRest, same⟩ := map_eq_some_iff.mp ran
    cases same
    exact ⟨fuel, _, _, isRest, fun _ inside => mem_cons_of_mem _ (mem_cons_of_mem _ inside)⟩

lemma mem_reads (ran : formatWalk mem fuel fmt = some (reads, rounds)) : fmt ∈ reads := by
  cases fuel with
  | zero => cases ran
  | succ fuel =>
    rw [formatWalk] at ran
    split_ifs at ran
    · cases ran
      exact mem_cons_self
    · obtain ⟨_, -, same⟩ := map_eq_some_iff.mp ran
      cases same
      exact mem_cons_self
    · obtain ⟨_, -, same⟩ := map_eq_some_iff.mp ran
      cases same
      exact mem_cons_self

lemma reads_of_not_paired (held : FormatAt mem fmt text) (unpaired : ¬ Paired text)
    (ran : formatWalk mem fuel fmt = some (reads, rounds)) :
    ∃ read ∈ reads, fmt + text.length < read := by
  induction text using Paired.induct generalizing fmt fuel reads rounds with
  | case1 => exact absurd trivial unpaired
  | case2 ch rest ordinary ih =>
    obtain ⟨rfl, nonzero, heldRest⟩ := held
    obtain ⟨_, _, _, isRest, inside⟩ := formatWalk_inv nonzero ran
    rw [if_pos ordinary] at isRest
    obtain ⟨read, isRead, beyond⟩ := ih heldRest (mt (paired_ordinary ordinary).mpr unpaired) isRest
    exact ⟨read, inside isRead, by rw [length_cons]; omega⟩
  | case3 ch percent =>
    obtain ⟨rfl, nonzero, -⟩ := held
    obtain ⟨_, _, _, isRest, inside⟩ := formatWalk_inv nonzero ran
    rw [if_neg percent] at isRest
    exact ⟨fmt + 2, inside (mem_reads isRest), Nat.lt_succ_self _⟩
  | case4 ch percent conversion rest ih =>
    obtain ⟨rfl, nonzero, -, -, heldRest⟩ := held
    obtain ⟨_, _, _, isRest, inside⟩ := formatWalk_inv nonzero ran
    rw [if_neg percent] at isRest
    rw [Paired, if_neg percent] at unpaired
    obtain ⟨read, isRead, beyond⟩ := ih heldRest unpaired isRest
    exact ⟨read, inside isRead, by rw [length_cons, length_cons]; omega⟩

/-- Every conversion that the loop comes to finds its argument. -/
def Served : List Byte → List Arg → Printer → Prop
  | [], _, _ => True
  | ch :: fmt, args, s =>
      if ch ≠ 0x25 then Served fmt args (s.putChar ch)
      else
        match fmt with
        | [] => True
        | conversion :: fmt =>
            ∃ done, s.convert conversion args = some done ∧ Served fmt done.1 done.2

/-- The loop over the text ends where the walk over the memory stays inside the format. -/
theorem vsprintfLoop_isSome_iff (text : List Byte) (args : List Arg) (s : Printer) :
    (Printer.vsprintfLoop text args s).isSome ↔ Paired text ∧ Served text args s := by
  induction text using Paired.induct generalizing args s with
  | case1 => simp [Printer.vsprintfLoop, Paired, Served]
  | case2 ch rest ordinary ih =>
    rw [paired_ordinary ordinary]
    unfold Printer.vsprintfLoop Served
    rw [if_pos ordinary, if_pos ordinary]
    exact ih _ _
  | case3 ch percent =>
    rw [Printer.vsprintfLoop, Paired, if_neg percent, if_neg percent]
    simp
  | case4 ch percent conversion rest ih =>
    rw [Printer.vsprintfLoop, Paired, Served, if_neg percent, if_neg percent, if_neg percent]
    cases s.convert conversion args with
    | none => simp
    | some done => simp [ih]

/-- `vsprintf` stays inside its format exactly when no percent sign stands last in it, the
conversions paired off from the left; a format with such a sign is read behind its terminator
whatever stands there, and the loop of `vsprintf` leaves its objects with any arguments. -/
theorem vsprintf_staysInFormat_iff (mem : Nat → Byte) (fmt : Nat) (text : List Byte)
    (held : FormatAt mem fmt text) :
    (StaysInFormat mem fmt text.length ↔ Paired text) ∧
      (¬ Paired text → ∀ args s, Printer.vsprintfLoop text args s = none) := by
  refine ⟨⟨?_, staysInFormat_of_paired held⟩, fun unpaired args s => ?_⟩
  swap
  · rw [← Option.not_isSome_iff_eq_none, vsprintfLoop_isSome_iff]
    exact fun both => unpaired both.1
  rintro ⟨fuel, reads, rounds, ran, within, -⟩
  by_contra unpaired
  obtain ⟨read, isRead, beyond⟩ := reads_of_not_paired held unpaired ran
  exact absurd (within read isRead) (Nat.not_le_of_lt beyond)

def lonePercent : Nat → Byte := fun i => if i = 0 then 0x25 else 0

theorem vsprintf_staysInFormat_iff_lonePercent :
    (StaysInFormat lonePercent 0 1 ↔ Paired [0x25]) ∧
      (¬ Paired [0x25] → ∀ args s, Printer.vsprintfLoop [0x25] args s = none) :=
  vsprintf_staysInFormat_iff lonePercent 0 [0x25] ⟨rfl, by decide, rfl⟩

/-- The terminator of `"%"` is at 1, and 2 is read. -/
theorem formatWalk_lonePercent : formatWalk lonePercent 2 0 = some ([0, 1, 2], 1) := by decide

end PrettyOS.Lib
