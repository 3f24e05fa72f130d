import PrettyOS.Library.WordParts

/-!
Contract: the segment descriptors of `kernel/traps.c` and the functions that read them back.

`t8`, `t16` and `t32` are `char`, `short` and `int`, all signed: a field widens to an `int` with
its sign.
-/

namespace PrettyOS.Kernel

open Library Function Nat

structure Descriptor where
  limitLow : BitVec 16
  baseLow : BitVec 16
  baseMid : BitVec 8
  attr1 : BitVec 8
  limitHighAttr2 : BitVec 8
  baseHigh : BitVec 8

def initDescriptor (base limit : BitVec 32) (attr : BitVec 16) : Descriptor where
  limitLow := (limit &&& 0x0FFFF).setWidth 16
  baseLow := (base &&& 0x0FFFF).setWidth 16
  baseMid := (base.sshiftRight 16 &&& 0x0FF).setWidth 8
  attr1 := (attr.signExtend 32 &&& 0xFF).setWidth 8
  limitHighAttr2 :=
    ((limit.sshiftRight 16 &&& 0x0F) |||
      ((attr.signExtend 32).sshiftRight 8 &&& 0xF0)).setWidth 8
  baseHigh := (base.sshiftRight 24 &&& 0x0FF).setWidth 8

def seg2phys (gdt : Int → Descriptor) (seg : BitVec 16) : BitVec 32 :=
  let dest := gdt (seg.sshiftRight 3).toInt
  (dest.baseHigh.signExtend 32 <<< 24) ||| (dest.baseMid.signExtend 32 <<< 16) |||
    dest.baseLow.signExtend 32

def getBase : Option Descriptor → BitVec 32
  | some dp =>
      (dp.baseHigh.signExtend 32 <<< 24) + (dp.baseMid.signExtend 32 <<< 16) +
        dp.baseLow.signExtend 32
  | none => 0

def ldtSegLinear (ldts : Int → Descriptor) (idx : Int) : BitVec 32 :=
  let d := ldts idx
  d.baseLow.signExtend 32 ||| (d.baseMid.signExtend 32 <<< 16) |||
    (d.baseHigh.signExtend 32 <<< 24)

def getLimit : Option Descriptor → BitVec 32
  | some dp =>
      (dp.limitHighAttr2.signExtend 32 &&& 0xF).sshiftRight 16 + dp.limitLow.signExtend 32
  | none => 0

def keptAttributes (d : Descriptor) : BitVec 16 :=
  d.attr1.setWidth 16 ||| ((d.limitHighAttr2 &&& 0xF0).setWidth 16 <<< 8)

structure DecodesBase (base limit : BitVec 32) (attr : BitVec 16) : Prop where
  inGdt : ∀ (gdt : Int → Descriptor) (seg : BitVec 16),
    seg2phys (update gdt (seg.sshiftRight 3).toInt
      (initDescriptor base limit attr)) seg = base
  atPointer : getBase (some (initDescriptor base limit attr)) = base
  inLdt : ∀ (ldts : Int → Descriptor) (idx : Int),
    ldtSegLinear (update ldts idx (initDescriptor base limit attr)) idx = base

structure DecodesLimit (base limit : BitVec 32) (attr : BitVec 16) : Prop where
  readBack : getLimit (some (initDescriptor base limit attr)) = limit
  attributes : keptAttributes (initDescriptor base limit attr) = attr &&& 0xF0FF

section Fields

variable {base limit : BitVec 32} {attr : BitVec 16}

lemma baseLow_initDescriptor :
    (initDescriptor base limit attr).baseLow = base.extractLsb' 0 16 :=
  setWidth_and_halfMask base

lemma baseMid_initDescriptor :
    (initDescriptor base limit attr).baseMid = base.extractLsb' 16 8 :=
  setWidth_sshiftRight_and base 16 (by decide)

lemma baseHigh_initDescriptor :
    (initDescriptor base limit attr).baseHigh = base.extractLsb' 24 8 :=
  setWidth_sshiftRight_and base 24 (by decide)

lemma limitLow_initDescriptor :
    (initDescriptor base limit attr).limitLow = limit.extractLsb' 0 16 :=
  setWidth_and_halfMask limit

lemma msb_low (word : BitVec 32) : (word.extractLsb' 0 16).msb = word.getLsbD 15 := by
  rw [BitVec.msb_eq_getLsbD_last, BitVec.getLsbD_extractLsb']
  rfl

lemma msb_mid (word : BitVec 32) : (word.extractLsb' 16 8).msb = word.getLsbD 23 := by
  rw [BitVec.msb_eq_getLsbD_last, BitVec.getLsbD_extractLsb']
  rfl

lemma parts_or (lowClear : base.getLsbD 15 = false) (midClear : base.getLsbD 23 = false) :
    ((base.extractLsb' 24 8).signExtend 32 <<< 24) |||
      ((base.extractLsb' 16 8).signExtend 32 <<< 16) |||
        (base.extractLsb' 0 16).signExtend 32 = base := by
  rw [BitVec.signExtend_eq_setWidth_of_msb_false ((msb_low base).trans lowClear),
    BitVec.signExtend_eq_setWidth_of_msb_false ((msb_mid base).trans midClear)]
  ext i inside
  grind

lemma parts_add (base : BitVec 32) :
    (((base.extractLsb' 24 8).signExtend 32 <<< 24) +
      ((base.extractLsb' 16 8).signExtend 32 <<< 16) +
        (base.extractLsb' 0 16).signExtend 32).toNat =
      (base.toNat + (if base.getLsbD 15 then 2 ^ 32 - 2 ^ 16 else 0) +
        if base.getLsbD 23 then 2 ^ 32 - 2 ^ 24 else 0) % 2 ^ 32 := by
  have small := base.isLt
  have whole : base.toNat = base.toNat / 2 ^ 24 * 2 ^ 24 + base.toNat / 2 ^ 16 % 2 ^ 8 * 2 ^ 16 +
      base.toNat % 2 ^ 16 := by
    omega
  simp only [BitVec.toNat_add, BitVec.toNat_shiftLeft, BitVec.toNat_signExtend,
    BitVec.toNat_setWidth, BitVec.extractLsb'_toNat, msb_low, msb_mid, shiftRight_eq_div_pow,
    shiftLeft_eq]
  split_ifs <;> omega

lemma getBase_eq_iff :
    getBase (some (initDescriptor base limit attr)) = base ↔
      base.getLsbD 15 = false ∧ base.getLsbD 23 = false := by
  have small := base.isLt
  rw [getBase, baseHigh_initDescriptor, baseMid_initDescriptor, baseLow_initDescriptor,
    ← BitVec.toNat_inj, parts_add]
  cases base.getLsbD 15 <;> cases base.getLsbD 23
  all_goals simp only [Bool.false_eq_true, reduceCtorEq, if_true, if_false, and_self, and_true,
    and_false, iff_true, iff_false]
  all_goals omega

/-- A base is read back by all three exactly if bits 15 and 23 of it are clear. -/
theorem decodesBase_iff (base limit : BitVec 32) (attr : BitVec 16) :
    DecodesBase base limit attr ↔ base.getLsbD 15 = false ∧ base.getLsbD 23 = false := by
  constructor
  · intro decodes
    exact getBase_eq_iff.mp decodes.atPointer
  intro clear
  have whole := parts_or clear.1 clear.2
  constructor
  · intro gdt seg
    rw [seg2phys, update_self, baseHigh_initDescriptor, baseMid_initDescriptor,
      baseLow_initDescriptor]
    exact whole
  · exact getBase_eq_iff.mpr clear
  · intro ldts idx
    rw [ldtSegLinear, update_self, baseHigh_initDescriptor, baseMid_initDescriptor,
      baseLow_initDescriptor, BitVec.or_assoc, BitVec.or_comm,
      BitVec.or_comm ((base.extractLsb' 16 8).signExtend 32 <<< 16)]
    exact whole

/-- The base `0x8000` of a data segment with 4 KiB units: its low half is negative as a `short`,
and each reader returns `0xffff8000`. -/
theorem not_decodesBase_lowHalf :
    seg2phys (fun _ => initDescriptor 0x8000 0xfffff 0xC092) 0x10 = 0xffff8000 ∧
      getBase (some (initDescriptor 0x8000 0xfffff 0xC092)) = 0xffff8000 ∧
      ldtSegLinear (fun _ => initDescriptor 0x8000 0xfffff 0xC092) 0 = 0xffff8000 ∧
      ¬ DecodesBase 0x8000 0xfffff 0xC092 := by
  have read : getBase (some (initDescriptor 0x8000 0xfffff 0xC092)) = 0xffff8000 := by decide
  refine ⟨by decide, read, by decide, ?_⟩
  intro decodes
  exact absurd (read.symm.trans decodes.atPointer) (by decide)

lemma getLimit_initDescriptor :
    getLimit (some (initDescriptor base limit attr)) =
      (limit.extractLsb' 0 16).signExtend 32 := by
  have gone : ∀ high : BitVec 32, (high &&& 0xF).sshiftRight 16 = 0 := by
    intro high
    have low : (high &&& 0xF).toNat < 2 ^ 4 := by
      rw [BitVec.toNat_and]
      exact and_lt_two_pow _ (by decide)
    have pos : (high &&& 0xF).msb = false := by
      rw [BitVec.msb_eq_decide]
      exact decide_eq_false (by omega)
    rw [BitVec.sshiftRight_eq_of_msb_false pos, ← BitVec.toNat_inj, BitVec.toNat_ushiftRight,
      shiftRight_eq_div_pow, div_eq_of_lt (by omega)]
    rfl
  rw [getLimit, gone, limitLow_initDescriptor]
  exact BitVec.zero_add _

lemma attr1_initDescriptor :
    (initDescriptor base limit attr).attr1 = attr.extractLsb' 0 8 := by
  ext i small
  rw [initDescriptor, BitVec.getElem_setWidth, BitVec.getLsbD_and, getLsbD_byteMask i small,
    Bool.and_true, BitVec.getLsbD_signExtend, if_pos (by omega), decide_eq_true (by omega),
    Bool.true_and, BitVec.getElem_extractLsb', Nat.zero_add]

lemma limitHighAttr2_initDescriptor :
    (initDescriptor base limit attr).limitHighAttr2 &&& 0xF0 = attr.extractLsb' 8 8 &&& 0xF0 := by
  have masks : ∀ i < 8, (0xF0 : BitVec 8).getLsbD i = true →
      (0x0F : BitVec 32).getLsbD i = false ∧ (0xF0 : BitVec 32).getLsbD i = true := by
    decide
  apply BitVec.eq_of_getLsbD_eq
  intro i small
  rw [BitVec.getLsbD_and, BitVec.getLsbD_and]
  cases isHigh : (0xF0 : BitVec 8).getLsbD i with
  | false => rw [Bool.and_false, Bool.and_false]
  | true =>
    rw [initDescriptor, BitVec.getLsbD_setWidth, BitVec.getLsbD_or, BitVec.getLsbD_and,
      BitVec.getLsbD_and, (masks i small isHigh).1, (masks i small isHigh).2]
    grind

lemma keptAttributes_initDescriptor :
    keptAttributes (initDescriptor base limit attr) = attr &&& 0xF0FF := by
  have lowMask : ∀ i < 8, (0xF0FF : BitVec 16).getLsbD i = true := by decide
  have highMask : ∀ i < 8, (0xF0FF : BitVec 16).getLsbD (8 + i) = (0xF0 : BitVec 8).getLsbD i := by
    decide
  rw [keptAttributes, attr1_initDescriptor, limitHighAttr2_initDescriptor]
  apply BitVec.eq_of_getLsbD_eq
  intro i inside
  rw [BitVec.getLsbD_or, BitVec.getLsbD_and, BitVec.getLsbD_shiftLeft, BitVec.getLsbD_setWidth,
    BitVec.getLsbD_setWidth, BitVec.getLsbD_and]
  by_cases low : i < 8
  · have isLow := lowMask i low
    grind
  have isHigh := highMask (i - 8) (by omega)
  rw [Nat.add_sub_cancel' (by omega)] at isHigh
  grind

lemma getLimit_eq_iff (below : limit.toNat < 2 ^ 20) :
    getLimit (some (initDescriptor base limit attr)) = limit ↔ limit.toNat < 2 ^ 15 := by
  rw [getLimit_initDescriptor, ← BitVec.toNat_inj, BitVec.toNat_signExtend, BitVec.toNat_setWidth,
    BitVec.extractLsb'_toNat, BitVec.msb_eq_decide, BitVec.extractLsb'_toNat,
    shiftRight_zero]
  split_ifs with neg
  · rw [decide_eq_true_iff] at neg
    omega
  · rw [decide_eq_true_iff] at neg
    omega

/-- A limit of at most 20 bits is read back, with the attributes kept, exactly if it is below
`2 ^ 15`. -/
theorem decodesLimit_iff (base limit : BitVec 32) (attr : BitVec 16)
    (below : limit.toNat < 2 ^ 20) :
    DecodesLimit base limit attr ↔ limit.toNat < 2 ^ 15 := by
  constructor
  · intro decodes
    exact (getLimit_eq_iff below).mp decodes.readBack
  · intro small
    exact ⟨(getLimit_eq_iff below).mpr small, keptAttributes_initDescriptor⟩

/-- The limit of the descriptor of a task state segment, `sizeof(tss) - 1`. -/
theorem decodesLimit_iff_tss : DecodesLimit 0x30000 103 0x89 :=
  (decodesLimit_iff 0x30000 103 0x89 (by decide)).mpr (by decide)

/-- The limit `0x10000` comes back as `0`. -/
theorem not_decodesLimit_high :
    getLimit (some (initDescriptor 0 0x10000 0xC092)) = 0 ∧ ¬ DecodesLimit 0 0x10000 0xC092 := by
  have read : getLimit (some (initDescriptor 0 0x10000 0xC092)) = 0 := by decide
  refine ⟨read, ?_⟩
  intro decodes
  exact absurd (read.symm.trans decodes.readBack) (by decide)

end Fields

end PrettyOS.Kernel
